import DeclCheck.Proofs.Ast.Identifiers
import DeclCheck.Proofs.Grammar.Statements
import DeclCheck.Proofs.Token.Extent

/-! # Where the identifiers of a text stand

    Reading never goes back, and an identifier takes at least one byte.  So
    the identifiers of a text, in the post-order of its tree, start one behind
    the other.  No other nodes do in general: a shorthand property starts
    where its name and its variable start. -/

namespace DeclCheck.Grammar

open Token Ast

/-- Where the identifiers in trees start. -/
def identifierStarts (ns : List Node) : List Nat :=
  ns.flatMap fun n => n.identifiers.map fun m => m.span.start

/-- The identifiers of two lists start one after the other. -/
theorem identifierStarts_append (ns ms : List Node) :
    identifierStarts (ns ++ ms) = identifierStarts ns ++ identifierStarts ms :=
  List.flatMap_append

/-- A node that is no identifier has the identifiers of its parts. -/
theorem identifierStarts_mk (i : Nat) (span : Span) (f : Flags) {sh : Shape Node}
    (h : sh.isIdentifier = false) :
    identifierStarts [.mk i span f sh] = identifierStarts sh.parts := by
  rw [identifierStarts, List.flatMap_singleton, Node.identifiers_mk, h, if_neg Bool.false_ne_true,
    List.append_nil, List.map_flatMap, identifierStarts]

/-- An identifier is the one below it. -/
theorem identifierStarts_identifier (i : Nat) (span : Span) (f : Flags) (text : String) :
    identifierStarts [.mk i span f (.identifier text)] = [span.start] := by
  rw [identifierStarts, List.flatMap_singleton, Node.identifiers_mk]
  rfl

/-- Nodes that are completed between two states: their identifiers start in
    between, one behind the other, and so do their property names if they are
    such. -/
structure Ascends (s : State) (ns : List Node) (t : State) : Prop where
  behind : t.lexer.Behind
  le : s.here ≤ t.here
  ascending : (identifierStarts ns).Pairwise (· < ·)
  between : ∀ k ∈ identifierStarts ns, s.here ≤ k ∧ k < t.here
  named : ∀ n ∈ ns, ∀ text, n.shape = .propertyName text →
    s.here ≤ n.span.start ∧ n.span.start < t.here

namespace Ascends

variable {s t u : State} {ns ms : List Node}

/-- Nothing is completed. -/
theorem nil (behind : t.lexer.Behind) (le : s.here ≤ t.here) : Ascends s [] t :=
  ⟨behind, le, .nil, fun _ h => (nomatch h), fun _ h => (nomatch h)⟩

/-- Completing a node goes no further in the text. -/
theorem completed (h : Ascends s ns t) : Ascends s ns t.completed :=
  ⟨h.behind, h.le, h.ascending, h.between, h.named⟩

/-- What is read later starts behind what was read before. -/
theorem append (h : Ascends s ns t) (h' : Ascends t ms u) : Ascends s (ns ++ ms) u := by
  have le := h.le
  have le' := h'.le
  refine ⟨h'.behind, Nat.le_trans le le', ?_, fun k hk => ?_, fun n hn text shape => ?_⟩
  · rw [identifierStarts_append, List.pairwise_append]
    refine ⟨h.ascending, h'.ascending, fun k hk j hj => ?_⟩
    exact Nat.lt_of_lt_of_le (h.between k hk).2 (h'.between j hj).1
  · rw [identifierStarts_append] at hk
    rcases List.mem_append.mp hk with hk | hk
    · exact ⟨(h.between k hk).1, Nat.lt_of_lt_of_le (h.between k hk).2 le'⟩
    · exact ⟨Nat.le_trans le (h'.between k hk).1, (h'.between k hk).2⟩
  · rcases List.mem_append.mp hn with hn | hn
    · have place := h.named n hn text shape
      exact ⟨place.1, Nat.lt_of_lt_of_le place.2 le'⟩
    · have place := h'.named n hn text shape
      exact ⟨Nat.le_trans le place.1, place.2⟩

/-- A node that neither is an identifier nor names a property. -/
theorem whole {sh : Shape Node} (h : Ascends s sh.parts t) (other : sh.isIdentifier = false)
    (unnamed : ∀ text, sh ≠ .propertyName text) (i : Nat) (span : Span) (f : Flags) :
    Ascends s [.mk i span f sh] t := by
  refine ⟨h.behind, h.le, ?_, ?_, fun n hn text shape => ?_⟩
  · rw [identifierStarts_mk i span f other]
    exact h.ascending
  · rw [identifierStarts_mk i span f other]
    exact h.between
  · rw [List.mem_singleton.mp hn] at shape
    exact absurd shape (unnamed text)

/-- The current token as a node of its own. -/
theorem token (behind : s.lexer.Behind) {sh : Shape Node} (h : sh.IsToken s.lexer.token)
    (i stop : Nat) (f : Flags) : Ascends s [.mk i ⟨s.here, stop⟩ f sh] s.taken := by
  have le : s.here ≤ s.taken.here := Nat.le_trans behind.le s.lexer.offset_le_next
  have lt (started : s.lexer.token.kind ≠ .endOfFile) : s.here < s.taken.here :=
    Nat.lt_of_lt_of_le (behind.lt started) s.lexer.offset_le_next
  have none : Ascends s sh.parts s.taken := by
    rw [h.parts]
    exact .nil (Lexer.behind_next _) le
  cases sh with
  | identifier text =>
      have started : s.lexer.token.kind ≠ .endOfFile := by
        rw [h.1]
        exact Kind.noConfusion
      refine ⟨none.behind, le, ?_, fun k hk => ?_, fun n hn text shape => ?_⟩
      · rw [identifierStarts_identifier]
        exact List.pairwise_singleton _ _
      · rw [identifierStarts_identifier, List.mem_singleton] at hk
        rw [hk]
        exact ⟨Nat.le_refl _, lt started⟩
      · rw [List.mem_singleton.mp hn] at shape
        cases shape
  | propertyName text =>
      refine ⟨none.behind, le, ?_, ?_, fun n hn _ _ => ?_⟩
      · rw [identifierStarts_mk _ _ _ rfl]
        exact none.ascending
      · rw [identifierStarts_mk _ _ _ rfl]
        exact none.between
      · rw [List.mem_singleton.mp hn]
        exact ⟨Nat.le_refl _, lt h.1⟩
  | _ => exact none.whole rfl (fun _ same => nomatch same) _ _ _

/-- The variable of a shorthand property stands where the property is named,
    which is no identifier itself. -/
theorem shorthand {j : Nat} {span : Span} {g : Flags} {text : String}
    (h : Ascends s [.mk j span g (.propertyName text)] t) (i : Nat) (f : Flags) :
    Ascends s [.mk j span g (.propertyName text), .mk i span f (.identifier text)] t := by
  have place := h.named _ (List.mem_singleton_self _) text rfl
  have starts : identifierStarts [.mk j span g (.propertyName text),
      .mk i span f (.identifier text)] = [span.start] := by
    rw [← List.singleton_append, identifierStarts_append, identifierStarts_identifier,
      identifierStarts_mk j span g rfl]
    rfl
  refine ⟨h.behind, h.le, ?_, fun k hk => ?_, fun n hn other shape => ?_⟩
  · rw [starts]
    exact List.pairwise_singleton _ _
  · rw [starts, List.mem_singleton] at hk
    rw [hk]
    exact place
  · rcases List.mem_cons.mp hn with rfl | hn
    · exact place
    · rw [List.mem_singleton.mp hn] at shape
      cases shape

end Ascends

/-- Reading goes on from where it starts. -/
theorem Reads.ascends {e : Setting} {s t : State} {ns : List Node} {owed : List Feature}
    (h : Reads e s ns owed t) : s.lexer.Behind → Ascends s ns t := by
  induction h with
  | nil s => exact fun behind => .nil behind (Nat.le_refl _)
  | append _ _ first rest =>
      intro behind
      have begun := first behind
      exact begun.append (rest begun.behind)
  | taken s =>
      exact fun behind => .nil (Lexer.behind_next _) (Nat.le_trans behind.le s.lexer.offset_le_next)
  | @noted s t lexer _ _ _ =>
      intro behind
      have same : t.here = s.here := congrArg (fun l => l.token.span.start) lexer
      exact .nil (lexer ▸ behind) (Nat.le_of_eq same.symm)
  | reported s | demanded s => exact fun behind => .nil behind (Nat.le_refl _)
  | missing s =>
      intro behind
      have none : Ascends s [] s := .nil behind (Nat.le_refl _)
      exact (none.whole rfl (fun _ => by rintro ⟨⟩) _ _ _).completed
  | token s h => exact fun behind => (Ascends.token behind h _ _ _).completed
  | reportedAt _ _ _ ascends =>
      intro behind
      obtain ⟨behind', le, ascending, between, named⟩ := ascends behind
      exact ⟨behind', le, ascending, between, named⟩
  | shorthand _ _ name => exact fun behind => ((name behind).shorthand _ _).completed
  | @node s t sh _ _ composite _ _ parts =>
      intro behind
      have other : sh.isIdentifier = false := by cases sh <;> first | rfl | cases composite
      have unnamed (text : String) : sh ≠ .propertyName text := by
        rintro rfl
        cases composite
      exact ((parts behind).whole other unnamed _ _ _).completed

/-- The identifiers of a text, in the post-order of its tree, start one behind
    the other. -/
theorem parse_identifiers_ascend (level : LanguageLevel) (text : String) :
    ((parse level text).root.identifiers.map fun n => n.span.start).Pairwise (· < ·) := by
  obtain ⟨statements, t, run, read⟩ := exists_reads level text
  have statements_ascend := (run.ascends (Lexer.behind_next _)).ascending
  rw [parse_eq_reading, read]
  have root : identifierStarts [.mk t.nextId ⟨0, byteLength text.toList⟩ Flags.none
      (.sourceFile statements)] = identifierStarts statements := identifierStarts_mk _ _ _ rfl
  rw [identifierStarts, List.flatMap_singleton] at root
  rw [root]
  exact statements_ascend

end DeclCheck.Grammar
