import DeclCheck.Proofs.Runs.Outcome

/-! # Runs that fail

    A run fails only if it checks for consistency and a name means nothing.
    It then names the first such name, in the order of the program, and leaves
    the program as it was. -/

namespace DeclCheck

/-- A mention as a name that should mean something. -/
def Mention.unexpected (p : Program) (m : Mention) : UnexpectedName :=
  ⟨m.name.text, (p.unit m.unit).name, p.position m.unit m.name.span.start⟩

theorem Reference.Of.unexpected {r : Reference} {m : Mention} (h : r.Of m) (p : Program) :
    r.unexpected p = m.unexpected p := by
  rw [Reference.unexpected, h.name, h.node, h.span]
  rfl

namespace Program

variable {p : Program} {o : Options}

/-- A check for consistency fails at the first name that means nothing. -/
theorem Built.analyze_of_undefined (h : p.Built) (strict : o.sanityCheck = true) {m : Mention}
    (first : p.undefined.head? = some m) : p.analyze o = (.error (m.unexpected p), p) := by
  have unresolved := h.unresolved o
  have checked : (Collection.ofProgram p o).resolve.check p o = .error (m.unexpected p) := by
    rw [Collection.check, strict, if_pos rfl]
    generalize (Collection.ofProgram p o).resolve.unresolved = rs at unresolved ⊢
    generalize p.undefined = ms at unresolved first
    cases unresolved with
    | nil => cases first
    | cons hr _ =>
        cases first
        rw [List.head?_cons]
        exact congrArg Except.error (hr.unexpected p)
  rw [Program.analyze]
  dsimp only
  rw [checked]

/-- A run fails exactly if it checks for consistency and a reference means
    nothing.  It tells the first such reference and where it stands, and
    leaves the program as it was.  Every other run succeeds. -/
theorem Built.fails_iff (h : p.Built) (o : Options) :
    (∀ e q, p.analyze o = (.error e, q) ↔
      o.sanityCheck = true ∧ q = p ∧ ∃ m, p.undefined.head? = some m ∧ e = m.unexpected p) ∧
    (o.sanityCheck = false → ∃ f, (p.analyze o).1 = .ok f) := by
  have succeeds (lenient : o.sanityCheck = false) : ∃ f, (p.analyze o).1 = .ok f :=
    ⟨_, congrArg Prod.fst (h.analyze_eq lenient)⟩
  refine ⟨fun e q => ⟨fun failed => ?_, ?_⟩, succeeds⟩
  · have fails {f : Findings} (hf : (p.analyze o).1 = .ok f) : False := by
      rw [failed] at hf
      cases hf
    cases strict : o.sanityCheck with
    | false =>
        obtain ⟨_, hf⟩ := succeeds strict
        exact (fails hf).elim
    | true =>
        cases undefined : p.undefined with
        | nil =>
            obtain ⟨_, _, succeeded⟩ := h.analyze_of_defined strict undefined
            exact (fails (congrArg Prod.fst succeeded)).elim
        | cons m ms =>
            have first : p.undefined.head? = some m := by rw [undefined, List.head?_cons]
            have told := h.analyze_of_undefined strict first
            rw [failed, Prod.mk.injEq, Except.error.injEq] at told
            exact ⟨rfl, told.2, m, rfl, told.1⟩
  · rintro ⟨strict, rfl, m, first, rfl⟩
    exact h.analyze_of_undefined strict first

/-- A check of a text that uses a name before another one, neither of them
    declared, fails at the first one. -/
theorem Built.fails_at_first :
    (ofSource .es2015 "a.js" "x; y;").analyze { Options.standard with sanityCheck := true } =
      (.error ⟨"x", "a.js", ⟨1, 1⟩⟩, ofSource .es2015 "a.js" "x; y;") :=
  ((Built.fails_iff (built_ofSource (by decide +kernel) "a.js") _).1 _ _).mpr
    ⟨rfl, rfl, ⟨0, ⟨0, ⟨0, 1⟩, "x"⟩, Place.top false, .refers false false⟩, by decide +kernel,
      by decide +kernel⟩

end Program

end DeclCheck
