import DeclCheck.Proofs.Grammar.Completion
import DeclCheck.Proofs.Grammar.Listing

/-! # Levels of the language

    A language level changes nothing but what is reported, and reports nothing
    but the constructs that it lacks.  Three runs on one text stay in lockstep,
    so they complete the same tree.  What remains are the faults.

    Two levels that lack the same constructs report the same.  Of a level that
    has all constructs and one that lacks some, the first one reports what the
    second one does, except for the constructs of the youngest level; but a
    fault may be dropped because of another one at the same place, so that the
    second list need not hold the first one.  What holds is that where the
    first list is empty, the second one has faults of the level only, and these
    stand for constructs of the tree: each construct is demanded before it is
    completed, and nothing else is.  This is read off the run, by induction on
    it. -/

namespace DeclCheck

namespace Ast.Shape

/-- The constructs of the youngest level are the declarations of block-scoped
    variables, the classes and the loops over elements. -/
theorem feature?_eq_none_iff {α : Type} {sh : Shape α} :
    sh.feature? = none ↔
      (∀ kind declarations, sh = .variableStatement kind declarations → kind = .varWord) ∧
      (∀ name heritage members, sh ≠ .classDeclaration name heritage members) ∧
      (∀ name heritage members, sh ≠ .classExpression name heritage members) ∧
      ∀ kind head subject body, sh = .forEachStatement kind head subject body →
        kind = .keys := by
  cases sh with
  | variableStatement kind declarations =>
      cases kind <;> simp [feature?, VariableWord.feature?, VariableWord.isBlockScoped]
  | forEachStatement kind head subject body =>
      cases kind <;> simp +contextual [feature?, EachKind.feature?]
  | _ => simp [feature?]

end Ast.Shape

namespace Grammar

open Token Ast

/-! ## Constructs of the youngest level in a run -/

/-- Whether no construct of a tree is one of the youngest level. -/
def Plain (n : Node) : Prop := n.Throughout fun sh => sh.feature? = none

theorem plain_mk {i : Nat} {span : Span} {flags : Flags} {sh : Shape Node} :
    Plain (.mk i span flags sh) ↔ sh.feature? = none ∧ ∀ part ∈ sh.parts, Plain part :=
  Node.throughout_mk

namespace Reads

variable {e : Setting} {s t : State} {ns : List Node} {owed : List Feature}

/-- Where nothing was found wrong at a level without the youngest constructs,
    none was demanded or completed. -/
theorem plain_of_quiet (h : Reads e s ns owed t) (lacks : e.level.hasBlockScope = false) :
    t.faults = [] → s.faults = [] ∧ owed = [] ∧ ∀ n ∈ ns, Plain n := by
  -- faults are never taken back, so none was found at any point of the run
  induction h with
  | nil s => exact fun quiet => ⟨quiet, rfl, List.forall_mem_nil _⟩
  | append _ _ first rest =>
      intro quiet
      obtain ⟨between, none', plain'⟩ := rest quiet
      obtain ⟨before, none, plain⟩ := first between
      exact ⟨before, List.append_eq_nil_iff.mpr ⟨none, none'⟩,
        List.forall_mem_append.mpr ⟨plain, plain'⟩⟩
  | taken s => exact fun quiet => ⟨quiet, rfl, List.forall_mem_nil _⟩
  | noted _ _ _ faults => exact fun quiet => ⟨faults ▸ quiet, rfl, List.forall_mem_nil _⟩
  | reported | reportedAt => exact fun quiet => absurd quiet (reported_ne_nil _ _)
  | demanded s feature =>
      -- a demand is reported here, or dropped because of a fault before it
      intro quiet
      have found : s.demanded e feature = [] := quiet
      rw [State.demanded, if_neg (Bool.eq_false_iff.mp lacks)] at found
      exact absurd found (reported_ne_nil _ _)
  | missing s =>
      intro quiet
      refine ⟨quiet, rfl, List.forall_mem_singleton.mpr (plain_mk.mpr ⟨rfl, ?_⟩)⟩
      exact List.forall_mem_nil _
  | token s h =>
      intro quiet
      refine ⟨quiet, rfl, List.forall_mem_singleton.mpr (plain_mk.mpr ⟨h.feature?_eq_none, ?_⟩)⟩
      rw [h.parts]
      exact List.forall_mem_nil _
  | shorthand _ _ name =>
      intro quiet
      obtain ⟨before, -, plain⟩ := name quiet
      have variable_plain {i : Nat} {span : Span} {text : String} :
          Plain (.mk i span Flags.none (.identifier text)) :=
        plain_mk.mpr ⟨rfl, List.forall_mem_nil _⟩
      refine ⟨before, rfl, List.forall_mem_cons.mpr ⟨plain _ (List.mem_singleton_self _), ?_⟩⟩
      exact List.forall_mem_singleton.mpr variable_plain
  | node _ _ _ _ parts =>
      -- what was demanded for the node is what the node is
      intro quiet
      obtain ⟨before, none, plain⟩ := parts quiet
      refine ⟨before, rfl, List.forall_mem_singleton.mpr (plain_mk.mpr ⟨?_, plain⟩)⟩
      exact Option.toList_eq_nil_iff.mp none

/-- Where no construct of the youngest level was demanded or completed, none
    was reported. -/
theorem ordinary_of_plain (h : Reads e s ns owed t) :
    owed = [] → (∀ n ∈ ns, Plain n) →
      ∀ f ∈ t.faults, f ∈ s.faults ∨ f.error.feature? = none := by
  induction h with
  | nil s => exact fun _ _ f hf => .inl hf
  | append _ _ first rest =>
      intro none plain f hf
      obtain ⟨none, none'⟩ := List.append_eq_nil_iff.mp none
      obtain ⟨plain, plain'⟩ := List.forall_mem_append.mp plain
      rcases rest none' plain' f hf with between | ordinary
      · exact first none plain f between
      · exact .inr ordinary
  | taken s => exact fun _ _ f hf => .inl hf
  | noted _ _ _ faults => exact fun _ _ f hf => .inl (faults ▸ hf)
  | reported s shared =>
      intro _ _ f hf
      rcases mem_of_mem_reported hf with rfl | old
      · exact .inr (SyntaxError.feature?_of_isShared shared)
      · exact .inl old
  | reportedAt _ _ shared ordinary =>
      intro none plain f hf
      rcases mem_of_mem_reported hf with rfl | old
      · exact .inr (SyntaxError.feature?_of_isShared shared)
      · exact ordinary none plain f old
  | demanded s feature => exact fun none => absurd none (List.cons_ne_nil _ _)
  | missing s => exact fun _ _ f hf => .inl hf
  | token s h => exact fun _ _ f hf => .inl hf
  | shorthand _ _ name =>
      exact fun _ plain => name rfl (List.forall_mem_singleton.mpr (plain _ List.mem_cons_self))
  | node _ _ _ _ parts =>
      intro _ plain
      obtain ⟨other, plain⟩ := plain_mk.mp (plain _ (List.mem_singleton_self _))
      exact parts (Option.toList_eq_nil_iff.mpr other) plain

end Reads

/-! ## Runs at two levels -/

/-- Two runs of which the first one has the youngest constructs: where the
    second one finds nothing wrong, the first one does not either, and where the
    first one does not, the second one only finds such constructs. -/
def Pair.levels (e e' : Setting) (limit : e.limit = e'.limit)
    (has : e.level.hasBlockScope = true) : Pair where
  first := e
  second := e'
  limit := limit
  Faults := fun fs gs => (gs = [] → fs = []) ∧ (fs = [] → ∀ g ∈ gs, g.error.feature? ≠ none)
  refl := by
    refine fun fs => ⟨id, ?_⟩
    rintro rfl
    exact List.forall_mem_nil _
  report := fun fs gs f _ =>
    ⟨fun none => absurd none (reported_ne_nil f gs), fun none => absurd none (reported_ne_nil f fs)⟩
  demand := by
    rintro s gs feature ⟨fewer, young⟩
    have kept : s.demanded e feature = s.faults := if_pos has
    rw [kept, State.demanded]
    split
    · exact ⟨fewer, young⟩
    · refine ⟨fun none => absurd none (reported_ne_nil _ _), fun none g hg => ?_⟩
      rcases mem_of_mem_reported hg with rfl | old
      · exact Option.some_ne_none feature
      · exact young none g old

/-- Two runs on a text at different levels end as the same. -/
theorem Pair.reading_same (p : Pair) {a b : LanguageLevel} (text : String)
    (first : p.first = ⟨a, byteLength text.toList + 2, maxDepth⟩)
    (second : p.second = ⟨b, byteLength text.toList + 2, maxDepth⟩) :
    p.Same (reading a text) (reading b text) := by
  have long : p.Long (byteLength text.toList + 2) := .inl (by rw [first, second])
  rw [reading_eq, reading_eq, ← first, ← second]
  exact p.sourceFile_same text _ _ long (by omega) (by omega)

/-- Levels with the same constructs read a text alike. -/
theorem reading_eq_of_level {a b : LanguageLevel} (same : a.hasBlockScope = b.hasBlockScope)
    (text : String) : reading a text = reading b text := by
  obtain ⟨result, fs, faults, state⟩ := (Pair.equal ⟨a, byteLength text.toList + 2, maxDepth⟩
    ⟨b, byteLength text.toList + 2, maxDepth⟩ rfl same).reading_same text rfl rfl
  cases faults
  exact (Prod.ext result state).symm

/-- Every level reads a text as the youngest one does, but for faults. -/
theorem reading_levels (level : LanguageLevel) (text : String) :
    (reading level text).1 = (reading .es2015 text).1 ∧
      (reading level text).2.lexer = (reading .es2015 text).2.lexer ∧
      ((reading level text).2.faults = [] → (reading .es2015 text).2.faults = []) ∧
      ((reading .es2015 text).2.faults = [] →
        ∀ g ∈ (reading level text).2.faults, g.error.feature? ≠ none) := by
  obtain ⟨result, gs, ⟨fewer, young⟩, state⟩ :=
    (Pair.levels ⟨.es2015, byteLength text.toList + 2, maxDepth⟩
      ⟨level, byteLength text.toList + 2, maxDepth⟩ rfl rfl).reading_same text rfl rfl
  rw [state]
  exact ⟨result, rfl, fewer, young⟩

/-- The tree of a text does not depend on the level. -/
theorem root_eq (level : LanguageLevel) (text : String) :
    (parse level text).root = (parse .es2015 text).root := (reading_levels level text).1

/-- A level that lacks the youngest constructs finds nothing wrong with a text
    exactly if the youngest level does not, and the text has none of them. -/
theorem faults_eq_nil_iff {level : LanguageLevel} (lacks : level.hasBlockScope = false)
    (text : String) :
    (parse level text).faults = [] ↔
      (parse .es2015 text).faults = [] ∧ Plain (parse .es2015 text).root := by
  obtain ⟨-, lexer, fewer, young⟩ := reading_levels level text
  obtain ⟨statements, t, run, read⟩ := exists_reads level text
  have last : t.faults = (reading level text).2.faults := by
    rw [read]
    rfl
  have plain : Plain (parse .es2015 text).root ↔ ∀ n ∈ statements, Plain n := by
    rw [← root_eq level, parse_eq_reading, read, plain_mk]
    exact and_iff_right rfl
  rw [plain, parse_eq_reading, parse_eq_reading, State.allFaults_eq_nil_iff,
    State.allFaults_eq_nil_iff, lexer]
  constructor
  · rintro ⟨none, tokens⟩
    obtain ⟨-, -, plain⟩ := run.plain_of_quiet lacks (last.trans none)
    exact ⟨⟨fewer none, tokens⟩, plain⟩
  · rintro ⟨⟨none, tokens⟩, plain⟩
    refine ⟨List.eq_nil_iff_forall_not_mem.mpr fun f hf => ?_, tokens⟩
    -- a fault would be one of the level, and one of something else
    rcases run.ordinary_of_plain rfl plain f (last ▸ hf) with before | ordinary
    · cases before
    · exact young none f hf ordinary

/-- A level only gates.  All levels read the same tree from a text, with the same
    numbers.  The levels without the constructs of the youngest one find the same
    wrong with it; and they find nothing wrong exactly if the youngest level
    does not, and no node is a declaration of block-scoped variables, a
    class or a loop over elements. -/
theorem levels_only_gate (text : String) :
    (∀ level level', (parse level text).root = (parse level' text).root ∧
      (parse level text).root.listing = (parse level' text).root.listing) ∧
    (parse .es3 text).faults = (parse .es5 text).faults ∧
    ((parse .es5 text).faults = [] ↔ (parse .es2015 text).faults = [] ∧
      ∀ n ∈ (parse .es2015 text).root.postorder,
        (∀ kind declarations, n.shape = .variableStatement kind declarations →
          kind = .varWord) ∧
        (∀ name heritage members, n.shape ≠ .classDeclaration name heritage members) ∧
        (∀ name heritage members, n.shape ≠ .classExpression name heritage members) ∧
        ∀ kind head subject body, n.shape = .forEachStatement kind head subject body →
          kind = .keys) := by
  refine ⟨fun level level' => ?_, ?_, ?_⟩
  · have same := (root_eq level text).trans (root_eq level' text).symm
    exact ⟨same, congrArg Node.listing same⟩
  · have same : reading .es3 text = reading .es5 text := reading_eq_of_level (by rfl) text
    rw [parse_eq_reading, parse_eq_reading, same]
  · rw [faults_eq_nil_iff rfl text]
    refine and_congr_right fun _ => forall₂_congr fun n _ => ?_
    exact Shape.feature?_eq_none_iff

end Grammar

end DeclCheck
