import DeclCheck.Proofs.Runs.Meaning

/-! # What a run comes to

    A run that does not check for consistency only goes through all its
    stages.  `Program.Built.analyze_eq` tells its result: the names that its
    references mean after synthesis, what was found until then, and what the
    check of the run adds.  The check refuses no name, since every name that
    the run leaves has a meaning in the program that the check reads. -/

namespace DeclCheck

namespace Program

variable (p : Program) (o : Options)

/-- The check of all references of a program. -/
def referenceCheck : ReferenceCheck := (Collection.ofProgram p o).resolve.checkFully p o

/-- The synthesis of the names that are wanted. -/
def synthesis : Synthesis :=
  (p.referenceCheck o).wanted.foldl (Synthesis.synthesize o)
    ⟨p, (Collection.ofProgram p o).tree, .empty, []⟩

/-- What the references of a program mean after synthesis. -/
def meanings : Collection :=
  { (Collection.ofProgram p o).resolve with tree := (p.synthesis o).tree }.resolveRest

/-- What is found until a run checks itself. -/
def foundFirst : Bag :=
  ((Collection.ofProgram p o).diagnostics.extend (p.referenceCheck o).diagnostics).extend
    (p.synthesis o).diagnostics

/-- What the check of a run finds. -/
def foundAgain : List Diagnostic :=
  (Collection.ofProgram (p.synthesis o).program o).diagnostics.diagnostics

/-- What a run finds, its check included. -/
def foundAll : Bag :=
  if needsSelfCheck o (p.meanings o) (p.foundFirst o) then
    (p.foundFirst o).addAll
      ((p.foundAgain o).filter fun d => !(p.foundFirst o).diagnostics.any d.isSameFinding)
  else p.foundFirst o

variable {p : Program} {o : Options}

/-- The synthesis of a run. -/
theorem Built.grows (h : p.Built) (o : Options) :
    Synthesis.Grows p (Collection.ofProgram p o).tree o (p.synthesis o) :=
  (Synthesis.Grows.start h _ o).foldl (h.consistent o) (h.reads o).follows.externScope_lt _

/-- A program in which no name is undefined passes the check for
    consistency. -/
theorem Built.selfCheck_eq {q : Program} (h : q.Built) (defined : q.undefined = []) (o : Options)
    (found : Bag) :
    q.selfCheck o found = .ok (found.addAll
      ((Collection.ofProgram q o).diagnostics.diagnostics.filter fun d =>
        !found.diagnostics.any d.isSameFinding)) := by
  have levels : Collection.ofProgram q o.forConsistency = Collection.ofProgram q o :=
    Collection.ofProgram_congr _ fun _ => rfl
  have meant : (Collection.ofProgram q o).resolve.unresolved = [] := by
    have unresolved := h.unresolved o
    rw [defined] at unresolved
    exact List.forall₂_nil_right_iff.mp unresolved
  have checked : (Collection.ofProgram q o).resolve.check q o.forConsistency =
      .ok ⟨.empty, []⟩ := by
    rw [Collection.check, meant]
    rfl
  rw [selfCheck, levels]
  dsimp only
  rw [checked]
  show Except.ok (found.addAll (((Collection.ofProgram q o).diagnostics.diagnostics ++
    []).filter _)) = _
  rw [List.append_nil]

/-- The result of a run that does not check for consistency only. -/
theorem Built.analyze_eq (h : p.Built) (lenient : o.sanityCheck = false) :
    p.analyze o =
      (.ok ⟨p.foundAll o, (p.synthesis o).names,
          (p.meanings o).immutableBindings (p.synthesis o).program⟩,
        ((p.meanings o).inferImmutable (p.synthesis o).program).2) := by
  have checked : (Collection.ofProgram p o).resolve.check p o = .ok (p.referenceCheck o) := by
    rw [Collection.check, lenient]
    rfl
  have synthesized : (Collection.ofProgram p o).resolve.synthesize p o (p.referenceCheck o).wanted =
      (p.synthesis o, p.meanings o) := by
    rw [Collection.synthesize, lenient]
    rfl
  have outcome : (if needsSelfCheck o (p.meanings o) (p.foundFirst o) then
      (p.synthesis o).program.selfCheck o (p.foundFirst o) else .ok (p.foundFirst o)) =
      Except.ok (p.foundAll o) := by
    rw [foundAll]
    split
    · rename_i needed
      rw [needsSelfCheck, Bool.and_eq_true, List.isEmpty_iff] at needed
      have grows := h.grows o
      exact grows.built.selfCheck_eq (grows.undefined_eq_nil h (h.reads o) rfl needed.2) o _
    · rfl
  rw [Program.analyze]
  dsimp only
  rw [checked]
  dsimp only
  rw [synthesized]
  have found : ((p.meanings o).diagnostics.extend (p.referenceCheck o).diagnostics).extend
      (p.synthesis o).diagnostics = p.foundFirst o := rfl
  dsimp only
  rw [found, outcome]
  rfl

/-- A check for consistency succeeds if it meets no name that means nothing.
    It declares none, and annotates the nodes of immutable bindings. -/
theorem Built.analyze_annotates (h : p.Built) (strict : o.sanityCheck = true)
    (defined : p.undefined = []) :
    ∃ found, p.analyze o =
      (.ok ⟨found, [], (Collection.ofProgram p o).resolve.immutableBindings p⟩,
        p.annotateAll ((Collection.ofProgram p o).resolve.immutableNodes p)
          Collection.immutableMark) := by
  have unresolved := h.unresolved o
  rw [defined, List.forall₂_nil_right_iff] at unresolved
  have checked : (Collection.ofProgram p o).resolve.check p o = .ok ⟨.empty, []⟩ := by
    rw [Collection.check, strict, unresolved]
    rfl
  have synthesized : (Collection.ofProgram p o).resolve.synthesize p o [] =
      (⟨p, (Collection.ofProgram p o).tree, .empty, []⟩, (Collection.ofProgram p o).resolve) := by
    rw [Collection.synthesize, strict]
    rfl
  have idle (c : Collection) (found : Bag) : needsSelfCheck o c found = false := by
    rw [needsSelfCheck, strict]
    cases o.selfCheck <;> rfl
  rw [Program.analyze]
  dsimp only
  rw [checked]
  dsimp only
  rw [synthesized]
  dsimp only
  rw [idle, if_neg Bool.false_ne_true]
  exact ⟨_, rfl⟩

theorem Built.analyze_of_defined (h : p.Built) (strict : o.sanityCheck = true)
    (defined : p.undefined = []) :
    ∃ found q, p.analyze o =
      (.ok ⟨found, [], (Collection.ofProgram p o).resolve.immutableBindings p⟩, q) := by
  obtain ⟨found, succeeded⟩ := h.analyze_annotates strict defined
  exact ⟨found, _, succeeded⟩

end Program

end DeclCheck
