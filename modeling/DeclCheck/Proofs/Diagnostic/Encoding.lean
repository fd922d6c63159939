import Mathlib
import DeclCheck.Diagnostic.Encoding
import DeclCheck.Proofs.Diagnostic.Collected
import DeclCheck.Proofs.Json.RoundTrip

/-! # Reports are read back

    The text of a bag is JSON, whatever names and messages its diagnostics
    hold, and reading it gives the diagnostics of the bag. -/

namespace DeclCheck

/-! ## Records are read from their objects -/

@[simp] theorem Json.Value.nat?_ofNat (n : Nat) : (Json.Value.ofNat n).nat? = some n :=
  Nat.toNat?_repr n

@[simp] theorem Span.ofJson?_toJson (s : Span) : Span.ofJson? s.toJson = some s := by
  simp [Span.ofJson?, Span.toJson, Json.Value.member?, List.lookup]

@[simp] theorem Position.ofJson?_toJson (p : Position) : Position.ofJson? p.toJson = some p := by
  simp [Position.ofJson?, Position.toJson, Json.Value.member?, List.lookup]

@[simp] theorem Diagnostic.ofJson?_toJson (d : Diagnostic) :
    Diagnostic.ofJson? d.toJson = some d := by
  simp [Diagnostic.ofJson?, Diagnostic.toJson, Json.Value.member?, List.lookup,
    Json.Value.text?, DiagnosticKind.ofExactName?_name, Severity.ofExactName?_name]

theorem Diagnostic.mapM_ofJson?_toJson (ds : List Diagnostic) :
    (ds.map Diagnostic.toJson).mapM Diagnostic.ofJson? = some ds := by
  induction ds with
  | nil => rfl
  | cons d ds ih => simp [ih]

/-! ## Records are printed as JSON -/

theorem Span.legible_toJson (s : Span) : s.toJson.Legible :=
  .object (by simp [Json.Value.legible_ofNat])

theorem Position.legible_toJson (p : Position) : p.toJson.Legible :=
  .object (by simp [Json.Value.legible_ofNat])

theorem Diagnostic.legible_toJson (d : Diagnostic) : d.toJson.Legible :=
  .object (by simp [Json.Value.legible_ofNat, Json.Value.Legible.string, Span.legible_toJson,
    Position.legible_toJson])

namespace Bag

theorem legible_array (b : Bag) :
    (Json.Value.array (b.diagnostics.map Diagnostic.toJson)).Legible := by
  refine .array fun v hv => ?_
  obtain ⟨d, -, rfl⟩ := List.mem_map.mp hv
  exact d.legible_toJson

theorem isText_toText (b : Bag) : Json.IsText b.toText.toList := b.legible_array.isText_pretty

theorem readText?_toText (b : Bag) : readText? b.toText = some b.diagnostics := by
  rw [readText?, toText, b.legible_array.read_pretty]
  exact Diagnostic.mapM_ofJson?_toJson b.diagnostics

/-- The text of a filled bag is JSON and is read as its diagnostics, and these
    are what the bag was given without what is off.  Both numbers count them
    by level, and together they count them all. -/
theorem Filled.reads_back {given : List Diagnostic} {b : Bag} (h : Filled given b) :
    Json.IsText b.toText.toList ∧ readText? b.toText = some b.diagnostics ∧
      b.diagnostics = (given.filter fun d => d.level.isOn) ∧
      (∀ d ∈ b.diagnostics, d.level ≠ .off) ∧
      b.errorCount + b.warningCount = b.size ∧
      (b.errorCount = b.diagnostics.countP fun d => d.level == .error) ∧
      b.warningCount = b.diagnostics.countP fun d => d.level == .warning := by
  have held : b.diagnostics = given.filter fun d => d.level.isOn := by
    rw [h.eq_ofList, diagnostics_ofList]
  have on : ∀ d ∈ b.diagnostics, d.level.isOn = true := by
    rw [held]
    exact fun d hd => (List.mem_filter.mp hd).2
  have counted : b.Counted := by
    rw [h.eq_ofList]
    exact counted_ofList given
  refine ⟨b.isText_toText, b.readText?_toText, held, fun d hd off => ?_, counted.total on,
    counted.errors, counted.warnings⟩
  have isOn := on d hd
  rw [off] at isOn
  cases isOn

/-- A diagnostic whose file and message hold what strings escape. -/
def escapedFault (level : Severity) : Diagnostic :=
  .make .varMultiplyDeclared level "a\"b\\c\n\x01.js" ⟨3, 8⟩ ⟨2, 1⟩ ["π", "\x7f😀"]

/-- An error, and another bag with the same as a warning. -/
def escapedFaults : Bag :=
  (empty.add (escapedFault .error)).extend
    ((empty.add (escapedFault .off)).add (escapedFault .warning))

theorem filled_escapedFaults :
    Filled [escapedFault .error, escapedFault .off, escapedFault .warning] escapedFaults :=
  .extend (.add .empty _) (.add (.add .empty _) _)

/-- The two that are on are read back, with every character that a string escapes. -/
theorem Filled.reads_back_escapedFaults :
    readText? escapedFaults.toText = some [escapedFault .error, escapedFault .warning] ∧
      escapedFaults.errorCount = 1 ∧ escapedFaults.warningCount = 1 ∧ escapedFaults.size = 2 := by
  obtain ⟨-, read, held, -, total, errors, warnings⟩ := Filled.reads_back filled_escapedFaults
  have kept : ([escapedFault .error, escapedFault .off, escapedFault .warning].filter
      fun d => d.level.isOn) = [escapedFault .error, escapedFault .warning] := rfl
  rw [held, kept] at read errors warnings
  rw [errors, warnings] at total
  exact ⟨read, errors, warnings, total.symm⟩

end Bag

end DeclCheck
