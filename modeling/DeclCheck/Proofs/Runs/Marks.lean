import DeclCheck.Proofs.Runs.Closure

/-! # Marks of immutable bindings

    A run that succeeds marks the nodes that declare an immutable binding or
    refer to one.  Nothing ever takes a mark away, and texts bring none along.
    So what is marked in a program was found immutable by some run.  As long as
    no text is added between the runs, the last run finds it, too.  A text that
    is added later may change a variable that is marked already. -/

namespace DeclCheck

open Ast (Flags)

namespace Program

variable {p : Program} {o : Options} {n : UnitNode}

/-- Whether a node is marked as one of an immutable binding. -/
def isMarked (p : Program) (n : UnitNode) : Bool := (p.flags n).immutable

/-- Whether a node is one of a program. -/
def HasNode (p : Program) (n : UnitNode) : Prop :=
  n.unit < p.units.size ∧ n.node < (p.unit n.unit).annotations.size

/-- No other node is marked. -/
theorem hasNode_of_isMarked (h : p.isMarked n = true) : p.HasNode n := by
  refine ⟨Nat.lt_of_not_le fun le => ?_, Nat.lt_of_not_le fun le => ?_⟩
  · have absent : p.unit n.unit = default := by
      rw [unit_eq, Array.getElem?_eq_none le]
      rfl
    rw [isMarked, flags, absent] at h
    cases h
  · rw [isMarked, flags, CodeUnit.flags, Array.getD_eq_getD_getElem?,
      Array.getElem?_eq_none le] at h
    cases h

theorem hasNode_annotate (m : UnitNode) (extra : Flags) :
    (p.annotate m extra).HasNode n ↔ p.HasNode n := by
  have size : (p.annotate m extra).units.size = p.units.size := size_modifyUnit _ _ _
  have nodes : ((p.annotate m extra).unit n.unit).annotations.size =
      (p.unit n.unit).annotations.size := by
    rw [unit_annotate]
    split
    · exact Array.size_modify
    · rfl
  rw [HasNode, size, nodes, HasNode]

theorem hasNode_annotateAll (ns : List UnitNode) (extra : Flags) :
    (p.annotateAll ns extra).HasNode n ↔ p.HasNode n := by
  unfold annotateAll
  induction ns generalizing p with
  | nil => rfl
  | cons m ns ih => exact ih.trans (hasNode_annotate m extra)

/-- Marking nodes marks those of them that are nodes of the program. -/
theorem isMarked_annotateAll (ns : List UnitNode) :
    (p.annotateAll ns Collection.immutableMark).isMarked n = true ↔
      p.isMarked n = true ∨ p.HasNode n ∧ n ∈ ns := by
  unfold annotateAll
  induction ns generalizing p with
  | nil => simp
  | cons m ns ih =>
      have first : (p.annotate m Collection.immutableMark).isMarked n = true ↔
          p.isMarked n = true ∨ p.HasNode n ∧ n = m := by
        rw [isMarked, flags_annotate]
        by_cases here : m = n ∧ n.unit < p.units.size ∧
            n.node < (p.unit n.unit).annotations.size
        · rw [if_pos here]
          have marked : ((p.flags n).union Collection.immutableMark).immutable = true := by
            simp [Flags.union, Collection.immutableMark]
          exact ⟨fun _ => .inr ⟨here.2, here.1.symm⟩, fun _ => marked⟩
        · rw [if_neg here]
          refine ⟨.inl, fun h => h.resolve_right ?_⟩
          rintro ⟨has, rfl⟩
          exact here ⟨rfl, has⟩
      rw [List.foldl_cons, ih, first, hasNode_annotate, List.mem_cons, or_assoc, ← and_or_left]

/-- A text that is added brings no mark along. -/
theorem isMarked_push (level : LanguageLevel) (name text : String) (isExtern : Bool)
    (module? : Option Nat) :
    (p.push (.ofText name text isExtern (Grammar.parse level text).root) module?).2.isMarked n =
      p.isMarked n := by
  rw [isMarked, flags, unit_push]
  split
  · rename_i new
    -- there was no such unit, and the new one comes with the marks of its text
    have old : p.isMarked n = false := by
      refine Bool.eq_false_iff.mpr fun marked => ?_
      exact absurd (hasNode_of_isMarked marked).1 (new ▸ Nat.lt_irrefl _)
    rw [old, CodeUnit.flags, CodeUnit.ofText, Array.getD_eq_getD_getElem?, List.getElem?_toArray,
      List.getElem?_map]
    cases found : (Grammar.parse level text).root.postorder[n.node]? with
    | none => rfl
    | some m =>
        exact (Grammar.parse_written level text m (List.mem_of_getElem? found)).1
  · rfl

end Program

namespace Synthesis

/-- Synthesis marks no node. -/
theorem isMarked_synthesize {s : Synthesis} (h : s.program.Built) (o : Options) (name : String)
    (n : UnitNode) : (s.synthesize o name).program.isMarked n = s.program.isMarked n := by
  have foreign := Program.foreign_immutable
  have room : (s.makeRoom o name).program.Built ∧
      (s.makeRoom o name).program.isMarked n = s.program.isMarked n := by
    rw [makeRoom]
    split
    · exact ⟨h, rfl⟩
    · split
      · exact ⟨h, rfl⟩
      · split
        · exact ⟨h, rfl⟩
        · exact ⟨h.annotateAll _ _, foreign.annotateAll _ _ foreign.repeatable n⟩
  rw [synthesize]
  split
  · rfl
  · exact (foreign.declareSynthetic room.1.sound name n).trans room.2

theorem isMarked_foldl {s : Synthesis} (h : s.program.Built) (o : Options) (names : List String)
    (n : UnitNode) : (names.foldl (synthesize o) s).program.isMarked n = s.program.isMarked n := by
  induction names generalizing s with
  | nil => rfl
  | cons name names ih =>
      exact (ih (built_synthesize h o name)).trans (isMarked_synthesize h o name n)

end Synthesis

namespace Program

variable {p : Program} {o : Options} {n : UnitNode}

/-! ## One run -/

/-- Whether a node declares or refers to a binding that a run finds
    immutable. -/
def Finds (p : Program) (o : Options) (n : UnitNode) : Prop :=
  n ∈ (Collection.ofProgram p o).resolve.immutableNodes p

/-- A run that succeeds reports the bindings whose nodes it finds, and marks
    these nodes and no others. -/
theorem Built.marks_analyze (h : p.Built) {f : Findings} (ok : (p.analyze o).1 = .ok f) :
    f.immutable = (Collection.ofProgram p o).resolve.immutableBindings p ∧
      ∀ n, (p.analyze o).2.isMarked n = true ↔
        p.isMarked n = true ∨ (p.analyze o).2.HasNode n ∧ p.Finds o n := by
  cases strict : o.sanityCheck with
  | false =>
      have grows := h.grows o
      have bindings : (p.meanings o).immutableBindings (p.synthesis o).program = _ :=
        grows.immutableBindings h (h.reads o) rfl (h.binds o)
      have nodes : (p.meanings o).immutableNodes (p.synthesis o).program = _ :=
        grows.immutableNodes h (h.reads o) rfl (h.binds o)
      rw [h.analyze_eq strict] at ok ⊢
      cases ok
      refine ⟨bindings, fun n => ?_⟩
      -- synthesis changes neither what is immutable nor what is marked
      have synthesized : (p.synthesis o).program.isMarked n = p.isMarked n :=
        Synthesis.isMarked_foldl (s := ⟨p, _, .empty, []⟩) h o _ n
      show ((p.synthesis o).program.annotateAll _ _).isMarked n = true ↔ _ ∨
        ((p.synthesis o).program.annotateAll _ _).HasNode n ∧ _
      rw [nodes, isMarked_annotateAll, hasNode_annotateAll, synthesized]
      rfl
  | true =>
      cases undefined : p.undefined with
      | nil =>
          obtain ⟨found, succeeded⟩ := h.analyze_annotates strict undefined
          rw [succeeded] at ok ⊢
          cases ok
          refine ⟨rfl, fun n => ?_⟩
          rw [isMarked_annotateAll, hasNode_annotateAll]
          rfl
      | cons m ms =>
          rw [h.analyze_of_undefined strict (by rw [undefined]; rfl)] at ok
          cases ok

/-- A run that fails marks nothing. -/
theorem Built.isMarked_of_error (h : p.Built) {e : UnexpectedName}
    (failed : (p.analyze o).1 = .error e) (n : UnitNode) :
    (p.analyze o).2.isMarked n = p.isMarked n := by
  cases strict : o.sanityCheck with
  | false =>
      rw [h.analyze_eq strict] at failed
      cases failed
  | true =>
      cases undefined : p.undefined with
      | nil =>
          obtain ⟨found, succeeded⟩ := h.analyze_annotates strict undefined
          rw [succeeded] at failed
          cases failed
      | cons m ms => rw [h.analyze_of_undefined strict (by rw [undefined]; rfl)]

/-- After a run that succeeds, a node is marked exactly if the run finds it,
    unless the run no longer finds a node that was marked before. -/
theorem Built.fresh_iff (h : p.Built) {f : Findings} (ok : (p.analyze o).1 = .ok f) :
    (∀ n, (p.analyze o).2.HasNode n → ((p.analyze o).2.isMarked n = true ↔ p.Finds o n)) ↔
      ∀ n, p.isMarked n = true → p.Finds o n := by
  obtain ⟨-, marks⟩ := h.marks_analyze ok
  constructor
  · intro fresh n marked
    have still := (marks n).mpr (.inl marked)
    exact (fresh n (hasNode_of_isMarked still)).mp still
  · intro lasting n has
    rw [marks]
    exact ⟨fun h => h.elim (lasting n) And.right, fun found => .inr ⟨has, found⟩⟩

/-! ## One run after the other -/

/-- What is done to a program: a text is added, or the program is run. -/
inductive Deed where
  | adds (level : LanguageLevel) (role : UnitRole) (name text : String)
  | runs (o : Options)

/-- The program that a deed leaves.  A text that is refused changes nothing. -/
def perform (p : Program) : Deed → Program
  | .adds level role name text =>
      match p.addText level role name text with
      | .ok (_, q) => q
      | .error _ => p
  | .runs o => (p.analyze o).2

theorem Built.perform (h : p.Built) (d : Deed) : (p.perform d).Built := by
  cases d with
  | adds level role name text =>
      rw [Program.perform]
      split
      · rename_i added
        exact h.addText added
      · exact h
  | runs o => exact h.analyze o

theorem isMarked_addUnit {level : LanguageLevel} {name text : String} {isExtern : Bool}
    {module? : Option Nat} {id : Nat} {q : Program}
    (added : p.addUnit level name text isExtern module? = .ok (id, q)) (n : UnitNode) :
    q.isMarked n = p.isMarked n := by
  rw [addUnit] at added
  split at added
  · cases added
  · dsimp only at added
    split at added
    · cases added
      exact isMarked_push level name text isExtern module?
    · cases added

theorem isMarked_addText {level : LanguageLevel} {role : UnitRole} {name text : String} {id : Nat}
    {q : Program} (added : p.addText level role name text = .ok (id, q)) (n : UnitNode) :
    q.isMarked n = p.isMarked n := by
  cases role with
  | declarations => exact isMarked_addUnit added n
  | source module? =>
      cases module? with
      | none => exact isMarked_addUnit added n
      | some m =>
          rw [addText] at added
          split at added
          · cases added
          · exact isMarked_addUnit added n

/-- Whether a run succeeds and finds a node of the program. -/
def Marks (p : Program) (o : Options) (n : UnitNode) : Prop :=
  (∃ f, (p.analyze o).1 = .ok f) ∧ (p.analyze o).2.HasNode n ∧ p.Finds o n

/-- Only runs mark nodes, and no deed takes a mark away. -/
theorem Built.isMarked_perform (h : p.Built) (d : Deed) :
    (p.perform d).isMarked n = true ↔ p.isMarked n = true ∨ ∃ o, d = .runs o ∧ p.Marks o n := by
  cases d with
  | adds level role name text =>
      have same : (p.perform (.adds level role name text)).isMarked n = p.isMarked n := by
        rw [Program.perform]
        split
        · rename_i added
          exact isMarked_addText added n
        · rfl
      rw [same]
      exact ⟨.inl, fun h => h.resolve_right fun ⟨_, run, _⟩ => nomatch run⟩
  | runs o =>
      show (p.analyze o).2.isMarked n = true ↔ _
      cases outcome : (p.analyze o).1 with
      | ok f =>
          rw [(h.marks_analyze outcome).2 n]
          refine or_congr_right ⟨fun found => ⟨o, rfl, ⟨f, outcome⟩, found⟩, ?_⟩
          rintro ⟨_, run, -, found⟩
          cases run
          exact found
      | error e =>
          rw [h.isMarked_of_error outcome]
          refine ⟨.inl, fun h => h.resolve_right ?_⟩
          rintro ⟨_, run, ⟨f, ok⟩, -⟩
          cases run
          rw [outcome] at ok
          cases ok

/-- After any deeds, the marked nodes are those that were marked before and
    those that some run has found. -/
theorem Built.isMarked_foldl (h : p.Built) (ds : List Deed) :
    (ds.foldl Program.perform p).isMarked n = true ↔ p.isMarked n = true ∨
      ∃ before o after, ds = before ++ .runs o :: after ∧
        (before.foldl Program.perform p).Marks o n := by
  induction ds generalizing p with
  | nil => simp
  | cons d ds ih =>
      rw [List.foldl_cons, ih (h.perform d), h.isMarked_perform, or_assoc]
      refine or_congr_right ⟨?_, ?_⟩
      · rintro (⟨o, rfl, marks⟩ | ⟨before, o, after, rfl, marks⟩)
        · exact ⟨[], o, ds, rfl, marks⟩
        · exact ⟨d :: before, o, after, rfl, marks⟩
      · rintro ⟨before, o, after, split, marks⟩
        cases before with
        | nil =>
            obtain ⟨rfl, rfl⟩ := List.cons.inj split
            exact .inl ⟨o, rfl, marks⟩
        | cons d' before =>
            obtain ⟨rfl, rfl⟩ := List.cons.inj split
            exact .inr ⟨before, o, after, rfl, marks⟩

/-! ## Runs without a text between them -/

/-- A run leaves a program that synthesis has grown and whose nodes may be
    annotated. -/
theorem Built.grows_run (h : p.Built) (o : Options) :
    ∃ s, Synthesis.Grows p (Collection.ofProgram p o).tree o s ∧ s.program = (p.analyze o).2 := by
  have start := Synthesis.Grows.start h (Collection.ofProgram p o).tree o
  cases strict : o.sanityCheck with
  | false => exact ⟨_, h.grows_analyzed strict, rfl⟩
  | true =>
      cases undefined : p.undefined with
      | nil =>
          obtain ⟨found, succeeded⟩ := h.analyze_annotates strict undefined
          rw [succeeded]
          exact ⟨_, start.annotateAll _ rfl, rfl⟩
      | cons m ms =>
          rw [h.analyze_of_undefined strict (by rw [undefined]; rfl)]
          exact ⟨_, start, rfl⟩

/-- What a run finds does not depend on its options. -/
theorem Built.finds_congr (h : p.Built) (o o' : Options) : p.Finds o n ↔ p.Finds o' n := by
  rw [Finds, Finds, h.mem_immutableNodes, h.mem_immutableNodes]

/-- A run leaves everything immutable that is found. -/
theorem Built.finds_analyze (h : p.Built) (o : Options) {o' : Options} (found : p.Finds o' n) :
    (p.analyze o).2.Finds o' n := by
  obtain ⟨s, grows, left⟩ := h.grows_run o
  have extended := grows.near_extended h
  obtain ⟨g, hg⟩ := extended.renumbers
  rw [Finds, h.mem_immutableNodes] at found
  obtain ⟨b, hb, hn⟩ := found
  obtain ⟨again, nodes⟩ := Binding.mem_immutables_inserted extended hg
    (fun _ => hasMention_of_mem_near) grows.extends' (fun m _ => grows.isAnnotated m) hb
  rw [← left, Finds, grows.built.mem_immutableNodes]
  exact ⟨_, again, nodes ▸ hn⟩

/-- Where everything marked is immutable, runs keep it so. -/
theorem Built.lasting_runs (h : p.Built) (lasting : ∀ n o, p.isMarked n = true → p.Finds o n)
    (os : List Options) :
    ((os.map Deed.runs).foldl Program.perform p).Built ∧
      ∀ n o, ((os.map Deed.runs).foldl Program.perform p).isMarked n = true →
        ((os.map Deed.runs).foldl Program.perform p).Finds o n := by
  induction os generalizing p with
  | nil => exact ⟨h, lasting⟩
  | cons o os ih =>
      refine ih (h.perform (.runs o)) fun n o' marked => ?_
      rcases (h.isMarked_perform (.runs o)).mp marked with marked | ⟨_, run, -, -, found⟩
      · exact h.finds_analyze o (lasting n o' marked)
      · cases run
        exact h.finds_analyze o ((h.finds_congr o o').mp found)

/-- However often a program is run, and with whatever options, after each run
    that succeeds the marked nodes are those that declare or refer to the
    bindings that this run reports. -/
theorem Built.runs_fresh (h : p.Built) (unmarked : ∀ n, p.isMarked n = false) (os : List Options)
    {q : Program} (runs : q = (os.map Deed.runs).foldl Program.perform p) {f : Findings}
    (ok : (q.analyze o).1 = .ok f) (has : (q.analyze o).2.HasNode n) :
    (q.analyze o).2.isMarked n = true ↔ q.Finds o n := by
  have none (n : UnitNode) (o : Options) (marked : p.isMarked n = true) : p.Finds o n := by
    rw [unmarked n] at marked
    cases marked
  obtain ⟨built, lasting⟩ := h.lasting_runs none os
  rw [← runs] at built lasting
  exact (built.fresh_iff ok).mpr (fun n marked => lasting n o marked) n has

/-! ## A text between two runs -/

/-- A variable is found immutable before another text changes it. -/
def changedLater : List Deed :=
  [.adds .es2015 (.source none) "a.js" "var x = 1;", .runs .standard,
    .adds .es2015 (.source none) "b.js" "x = 2;"]

/-- The second run reports no binding, but the declaration stays marked. -/
theorem isMarked_changedLater :
    (((changedLater.foldl perform empty).analyze .standard).1.toOption.map Findings.immutable) =
        some [] ∧
      ((changedLater.foldl perform empty).analyze .standard).2.isMarked ⟨0, 2⟩ = true := by
  decide +kernel

end Program

end DeclCheck
