import DeclCheck.Analysis.Run
import DeclCheck.Program.Building
import DeclCheck.Proofs.Grammar.Listing
import DeclCheck.Proofs.Grammar.Room

/-! # Programs that can be built

    A program holds the trees of texts that were read without a fault, and
    perhaps the synthetic unit.  Its modules and its annotations may have
    changed since; in particular a run may have annotated it and declared
    names in the synthetic unit.

    The trees of such a program are typed, the nodes of each have numbers of
    their own, and each node has an annotation. -/

namespace DeclCheck

open Ast (Node Flags)

namespace Program

/-- The programs that can be made from texts, modules and annotations. -/
inductive Built : Program → Prop where
  | empty : Built .empty
  /-- A text that was read without a fault is added. -/
  | push {p : Program} (h : Built p) {level : LanguageLevel} {text : String}
      (faults : (Grammar.parse level text).faults = []) (name : String) (isExtern : Bool)
      (module? : Option Nat) :
      Built (p.push (.ofText name text isExtern (Grammar.parse level text).root) module?).2
  | withModules {p : Program} (h : Built p) (modules : ModuleGraph) : Built { p with modules }
  | annotate {p : Program} (h : Built p) (n : UnitNode) (extra : Flags) : Built (p.annotate n extra)
  | declareSynthetic {p : Program} (h : Built p) (name : String) :
      Built (p.declareSynthetic name).2

namespace Built

variable {p : Program}

/-- Annotations are made one after the other. -/
theorem annotateAll (h : Built p) (ns : List UnitNode) (extra : Flags) :
    Built (p.annotateAll ns extra) := by
  unfold Program.annotateAll
  induction ns generalizing p with
  | nil => exact h
  | cons n ns ih => exact ih (h.annotate n extra)

/-- A module that is declared keeps the program built. -/
theorem declareModule (h : Built p) (name : String) (dependencies : List String) :
    Built (p.declareModule name dependencies) :=
  h.withModules _

/-- So does an order of modules. -/
theorem setModuleOrder (h : Built p) (names : List String) : Built (p.setModuleOrder names) :=
  h.withModules _

/-- A unit that is not refused leaves a built program. -/
theorem addUnit (h : Built p) {level : LanguageLevel} {name text : String} {isExtern : Bool}
    {module? : Option Nat} {id : Nat} {p' : Program}
    (added : p.addUnit level name text isExtern module? = .ok (id, p')) : Built p' := by
  rw [Program.addUnit] at added
  split at added
  · cases added
  · dsimp only at added
    split at added
    · rename_i hf
      cases added
      exact h.push (List.isEmpty_iff.mp hf) name isExtern module?
    · cases added

/-- A text that is not refused leaves a built program. -/
theorem addText (h : Built p) {level : LanguageLevel} {role : UnitRole} {name text : String}
    {id : Nat} {p' : Program} (added : p.addText level role name text = .ok (id, p')) :
    Built p' := by
  cases role with
  | declarations => exact h.addUnit added
  | source module? =>
      cases module? with
      | none => exact h.addUnit added
      | some m =>
          rw [Program.addText] at added
          split at added
          · cases added
          · exact h.addUnit added

/-- A file that is not refused leaves a built program. -/
theorem addFile (h : Built p) {level : LanguageLevel} {role : UnitRole} {files : FileTree}
    {path : String} {id : Nat} {p' : Program}
    (added : p.addFile level role files path = .ok (id, p')) : Built p' := by
  rw [Program.addFile] at added
  split at added
  · cases added
  · exact h.addText added

end Built

/-- The program of one source. -/
def ofSource (level : LanguageLevel) (name text : String) : Program :=
  (empty.push (.ofText name text false (Grammar.parse level text).root) none).2

/-- A program of one text is built. -/
theorem built_ofSource {level : LanguageLevel} {text : String}
    (faults : (Grammar.parse level text).faults = []) (name : String) :
    (ofSource level name text).Built :=
  Built.empty.push faults name false none

end Program

namespace Synthesis

/-- Synthesis leaves a built program. -/
theorem built_synthesize {s : Synthesis} (h : s.program.Built) (o : Options) (name : String) :
    (s.synthesize o name).program.Built := by
  have room : (s.makeRoom o name).program.Built := by
    rw [makeRoom]
    split
    · exact h
    · split
      · exact h
      · split
        · exact h
        · exact h.annotateAll _ _
  rw [synthesize]
  split
  · exact h
  · exact room.declareSynthetic name

/-- So is one with names synthesized in it. -/
theorem built_foldl {s : Synthesis} (h : s.program.Built) (o : Options) (names : List String) :
    (names.foldl (Synthesis.synthesize o) s).program.Built := by
  induction names generalizing s with
  | nil => exact h
  | cons name names ih => exact ih (built_synthesize h o name)

end Synthesis

namespace Program

/-- A run leaves a built program. -/
theorem Built.analyze {p : Program} (h : Built p) (o : Options) : Built (p.analyze o).2 := by
  have synthesized (c : Collection) (wanted : List String) :
      (c.synthesize p o wanted).1.program.Built := by
    rw [Collection.synthesize]
    split
    · exact h
    · exact Synthesis.built_foldl h o wanted
  rw [Program.analyze]
  dsimp only
  split
  · exact h
  · split
    · exact synthesized _ _
    · exact (synthesized _ _).annotateAll _ _

end Program

/-! ## What holds of built programs -/

/-- The tree of a unit is typed, its nodes are numbered within the table of
    annotations, and its scopes nest as deep as the guard allows, classes in
    the heritage of other ones apart. -/
structure CodeUnit.Sound (u : CodeUnit) : Prop where
  typed : u.root.Typed
  nodup : u.root.ids.Nodup
  bound : ∀ k ∈ u.root.ids, k < u.annotations.size
  depth : u.root.Within (2 * Grammar.maxDepth)

/-- Whether a unit holds the tree and the lines of a text that was read without
    a fault. -/
def CodeUnit.ReadFrom (u : CodeUnit) (text : String) : Prop :=
  ∃ level, (Grammar.parse level text).faults = [] ∧ u.root = (Grammar.parse level text).root ∧
    u.lines = LineMap.ofString text

/-- A unit of a text is sound, as the nodes of its tree are numbered through. -/
theorem CodeUnit.sound_ofText (name : String) (level : LanguageLevel) (text : String)
    (isExtern : Bool) : (ofText name text isExtern (Grammar.parse level text).root).Sound where
  typed := Grammar.parse_typed level text
  nodup := by
    show (Grammar.parse level text).root.ids.Nodup
    rw [Grammar.parse_ids]
    exact List.nodup_range
  bound := by
    intro k hk
    have hk : k ∈ (Grammar.parse level text).root.ids := hk
    rw [Grammar.parse_ids, List.mem_range] at hk
    simpa [ofText] using hk
  depth := Grammar.parse_within level text

/-- An annotation leaves the tree as it is. -/
theorem CodeUnit.Sound.annotate {u : CodeUnit} (h : u.Sound) (node : Nat) (extra : Flags) :
    (u.annotate node extra).Sound where
  typed := h.typed
  nodup := h.nodup
  bound := fun k hk => by simpa [CodeUnit.annotate] using h.bound k hk
  depth := h.depth

namespace Program

/-- The root of a synthetic unit has number zero. -/
theorem ids_syntheticRoot (statements : List Node) :
    (syntheticRoot statements).ids = statements.flatMap Node.ids ++ [0] :=
  Node.ids_mk _ _ _ _

/-- The nodes of the statement that declares a name. -/
theorem ids_syntheticStatement (first : Nat) (name : String) :
    (syntheticStatement first name).ids = [first, first + 1, first + 2] := by
  simp [syntheticStatement, Node.ids_mk, Ast.Shape.parts]

/-- A synthetic statement has parts of the right categories. -/
theorem typed_syntheticStatement (first : Nat) (name : String) :
    (syntheticStatement first name).Typed := by
  have identifier : (Node.mk first nowhere synthesized (.identifier name)).Typed :=
    Node.typed_mk.mpr ⟨trivial, fun part hp => (nomatch hp)⟩
  have declaration : (Node.mk (first + 1) nowhere synthesized (.variableDeclaration
      (.mk first nowhere synthesized (.identifier name)) none)).Typed :=
    Node.typed_mk.mpr ⟨rfl, fun part hp => List.mem_singleton.mp hp ▸ identifier⟩
  refine Node.typed_mk.mpr ⟨fun d hd => ?_, fun part hp => ?_⟩
  · rw [List.mem_singleton.mp hd]
    rfl
  · rw [List.mem_singleton.mp hp]
    exact declaration

/-- The statement that declares a name opens no scope. -/
theorem scopeDepth_syntheticStatement (first : Nat) (name : String) :
    (syntheticStatement first name).scopeDepth = 0 := by
  refine Node.scopeDepth_eq_zero ⟨rfl, rfl⟩ fun d hd => ?_
  rw [List.mem_singleton.mp hd]
  refine Node.scopeDepth_eq_zero ⟨rfl, rfl⟩ fun n hn => ?_
  rw [List.mem_singleton.mp hn]
  exact Node.scopeDepth_eq_zero ⟨rfl, rfl⟩ fun part hp => nomatch hp

/-- A unit that can be the synthetic one: it is extern, and its tree is a list
    of statements without scopes below a root that comes before them. -/
structure IsSynthetic (u : CodeUnit) : Prop where
  isExtern : u.isExtern = true
  root : u.root = syntheticRoot u.root.children
  scopes : ∀ statement ∈ u.root.children, statement.scopeDepth = 0

/-- A list of statements without scopes is as deep as any tree may be. -/
theorem within_syntheticRoot {statements : List Node} {k : Nat}
    (scopes : ∀ statement ∈ statements, statement.scopeDepth = 0) :
    (syntheticRoot statements).Within k := by
  have flat : (syntheticRoot statements).scopeDepth = 0 :=
    Node.scopeDepth_eq_zero ⟨rfl, rfl⟩ (by exact scopes)
  rw [Node.Within, flat]
  exact Nat.zero_le _

/-- A synthetic unit without statements is sound. -/
theorem sound_emptySynthetic : emptySynthetic.Sound where
  typed := Node.typed_mk.mpr ⟨trivial, fun part hp => (nomatch hp)⟩
  nodup := by simp [emptySynthetic, ids_syntheticRoot]
  bound := by simp [emptySynthetic, ids_syntheticRoot]
  depth := within_syntheticRoot fun statement hs => nomatch hs

/-- One more name in a synthetic unit opens no scope. -/
theorem IsSynthetic.extend {u : CodeUnit} (hs : IsSynthetic u) (name : String) :
    IsSynthetic (extendSynthetic u name) := by
  refine ⟨hs.isExtern, rfl, fun statement mem => ?_⟩
  rcases List.mem_append.mp mem with mem | mem
  · exact hs.scopes statement mem
  · rw [List.mem_singleton.mp mem]
    exact scopeDepth_syntheticStatement _ name

/-- One more name in the synthetic unit. -/
theorem sound_extendSynthetic {u : CodeUnit} (h : u.Sound) (hs : IsSynthetic u) (name : String) :
    (extendSynthetic u name).Sound := by
  have ids := ids_syntheticRoot u.root.children
  rw [← hs.root] at ids
  have extended : (extendSynthetic u name).root.ids =
      u.root.children.flatMap Node.ids ++ [u.annotations.size, u.annotations.size + 1,
        u.annotations.size + 2] ++ [0] := by
    rw [extendSynthetic, ids_syntheticRoot, List.flatMap_append, List.flatMap_singleton,
      ids_syntheticStatement]
  have bound := h.bound
  have nodup := h.nodup
  rw [ids] at bound nodup
  have size : (extendSynthetic u name).annotations.size = u.annotations.size + 3 := by
    simp [extendSynthetic]
  refine ⟨?_, ?_, fun k hk => ?_, within_syntheticRoot (hs.extend name).scopes⟩
  · have typed := h.typed
    rw [hs.root] at typed
    have statements := (Node.typed_mk.mp typed).2
    refine Node.typed_mk.mpr ⟨trivial, fun part hp => ?_⟩
    rcases List.mem_append.mp hp with hp | hp
    · exact statements part hp
    · rw [List.mem_singleton.mp hp]
      exact typed_syntheticStatement _ name
  · rw [extended]
    simp only [List.nodup_append, List.mem_append, List.mem_cons, List.not_mem_nil, or_false,
      List.nodup_cons, List.nodup_nil] at nodup bound ⊢
    grind
  · rw [extended] at hk
    rw [size]
    simp only [List.mem_append, List.mem_cons, List.not_mem_nil, or_false] at hk bound
    grind

/-! ## The units of changed programs -/

/-- Beyond the units there is an empty one. -/
theorem unit_eq (p : Program) (id : Nat) : p.unit id = (p.units[id]?).getD default := by
  rw [unit, Array.getD_eq_getD_getElem?]

/-- A unit that is pushed has the next number. -/
theorem unit_push (p : Program) (u : CodeUnit) (module? : Option Nat) (id : Nat) :
    (p.push u module?).2.unit id = if id = p.units.size then u else p.unit id := by
  show (p.units.push u).getD id default = _
  rw [Array.getD_eq_getD_getElem?, Array.getElem?_push, unit_eq]
  split <;> rfl

/-- One unit is changed, and the others stay. -/
theorem unit_modifyUnit (p : Program) {id : Nat} (h : id < p.units.size) (f : CodeUnit → CodeUnit)
    (j : Nat) : (p.modifyUnit id f).unit j = if j = id then f (p.unit id) else p.unit j := by
  show (p.units.modify id f).getD j default = _
  rw [Array.getD_eq_getD_getElem?, Array.getElem?_modify, unit_eq, unit_eq]
  by_cases hj : id = j
  · subst hj
    rw [if_pos rfl, if_pos rfl, Array.getElem?_eq_getElem h]
    rfl
  · rw [if_neg hj, if_neg (Ne.symm hj)]

/-- There is nothing to change beyond the units. -/
theorem modifyUnit_of_size_le (p : Program) {id : Nat} (h : p.units.size ≤ id)
    (f : CodeUnit → CodeUnit) : p.modifyUnit id f = p := by
  have same : p.units.modify id f = p.units := by
    refine Array.ext (by simp) fun i hi hi' => ?_
    rw [Array.getElem_modify, if_neg (by omega)]
  rw [modifyUnit, same]

/-- A change adds no unit. -/
theorem size_modifyUnit (p : Program) (id : Nat) (f : CodeUnit → CodeUnit) :
    (p.modifyUnit id f).units.size = p.units.size := Array.size_modify

/-- Adding annotations keeps everything of a unit but its annotations. -/
theorem unit_annotate (p : Program) (n : UnitNode) (extra : Flags) (id : Nat) :
    (p.annotate n extra).unit id =
      if id = n.unit ∧ n.unit < p.units.size then (p.unit id).annotate n.node extra
      else p.unit id := by
  by_cases h : n.unit < p.units.size
  · rw [annotate, unit_modifyUnit p h]
    by_cases hid : id = n.unit
    · rw [if_pos hid, if_pos ⟨hid, h⟩, hid]
    · rw [if_neg hid, if_neg fun h => hid h.1]
  · rw [annotate, modifyUnit_of_size_le p (Nat.le_of_not_lt h), if_neg fun h' => h h'.2]

/-- What holds of the units of a built program. -/
structure Sound (p : Program) : Prop where
  unit : ∀ id, id < p.units.size → (p.unit id).Sound
  synthetic : ∀ id, p.synthetic = some id → id < p.units.size ∧ IsSynthetic (p.unit id)

namespace Sound

variable {p : Program}

/-- A sound unit more. -/
theorem push (h : p.Sound) {u : CodeUnit} (hu : u.Sound) (module? : Option Nat) :
    (p.push u module?).2.Sound where
  unit := by
    intro id hid
    have hid : id < (p.units.push u).size := hid
    rw [Array.size_push] at hid
    rw [unit_push]
    split
    · exact hu
    · exact h.unit id (by omega)
  synthetic := by
    intro id hs
    obtain ⟨lt, root⟩ := h.synthetic id hs
    have lt' : id < (p.units.push u).size := by
      rw [Array.size_push]
      omega
    rw [unit_push, if_neg (by omega)]
    exact ⟨lt', root⟩

/-- An annotation keeps the units sound. -/
theorem annotate (h : p.Sound) (n : UnitNode) (extra : Flags) : (p.annotate n extra).Sound where
  unit := by
    intro id hid
    have hid : id < (p.units.modify n.unit _).size := hid
    rw [Array.size_modify] at hid
    rw [unit_annotate]
    split
    · exact (h.unit id hid).annotate _ _
    · exact h.unit id hid
  synthetic := by
    intro id hs
    obtain ⟨lt, root⟩ := h.synthetic id hs
    refine ⟨(size_modifyUnit p _ _).symm ▸ lt, ?_⟩
    rw [unit_annotate]
    split
    · exact ⟨root.isExtern, root.root, root.scopes⟩
    · exact root

/-- A program with a synthetic unit. -/
theorem ensureSynthetic (h : p.Sound) :
    p.ensureSynthetic.2.Sound ∧ p.ensureSynthetic.2.synthetic = some p.ensureSynthetic.1 := by
  rw [Program.ensureSynthetic]
  split
  · rename_i id hs
    exact ⟨h, hs⟩
  · have pushed := h.push sound_emptySynthetic none
    refine ⟨⟨pushed.unit, fun id hs => ?_⟩, rfl⟩
    have hid : id = p.units.size := (Option.some.inj hs).symm
    have new : (p.push emptySynthetic none).2.unit id = emptySynthetic := by
      rw [unit_push, if_pos hid]
    refine ⟨?_, ?_⟩
    · show id < (p.units.push emptySynthetic).size
      rw [Array.size_push]
      omega
    · show IsSynthetic ((p.push emptySynthetic none).2.unit id)
      rw [new]
      exact ⟨rfl, rfl, fun statement hs => nomatch hs⟩

/-- So does a synthetic declaration. -/
theorem declareSynthetic (h : p.Sound) (name : String) : (p.declareSynthetic name).2.Sound := by
  obtain ⟨sound, hs⟩ := h.ensureSynthetic
  obtain ⟨lt, root⟩ := sound.synthetic _ hs
  have changed (j : Nat) := unit_modifyUnit p.ensureSynthetic.2 lt (extendSynthetic · name) j
  refine ⟨fun id hid => ?_, fun id hid => ?_⟩
  · have hid : id < p.ensureSynthetic.2.units.size := by
      rw [← size_modifyUnit _ p.ensureSynthetic.1 (extendSynthetic · name)]
      exact hid
    show ((p.ensureSynthetic.2.modifyUnit p.ensureSynthetic.1 (extendSynthetic · name)).unit
      id).Sound
    rw [changed]
    split
    · exact sound_extendSynthetic (sound.unit _ lt) root name
    · exact sound.unit id hid
  · obtain ⟨lt', root'⟩ := sound.synthetic id hid
    refine ⟨(size_modifyUnit _ _ _).symm ▸ lt', ?_⟩
    show IsSynthetic ((p.ensureSynthetic.2.modifyUnit p.ensureSynthetic.1
      (extendSynthetic · name)).unit id)
    rw [changed]
    split
    · exact root.extend name
    · exact root'

end Sound

/-- The units of a built program are sound. -/
theorem Built.sound {p : Program} (h : p.Built) : p.Sound := by
  induction h with
  | empty => exact ⟨fun id hid => absurd hid (Nat.not_lt_zero id), fun id hs => nomatch hs⟩
  | push _ _ name isExtern module? ih => exact ih.push (CodeUnit.sound_ofText name _ _ isExtern) _
  | withModules _ modules ih => exact ⟨ih.unit, ih.synthetic⟩
  | annotate _ n extra ih => exact ih.annotate n extra
  | declareSynthetic _ name ih => exact ih.declareSynthetic name

/-- The units of a program with one more name in the synthetic unit. -/
theorem Sound.unit_declareSynthetic {p : Program} (h : p.Sound) (name : String) (u : Nat) :
    (p.declareSynthetic name).2.unit u =
      if u = p.ensureSynthetic.1 then extendSynthetic (p.ensureSynthetic.2.unit u) name
      else p.ensureSynthetic.2.unit u := by
  obtain ⟨sound, hs⟩ := h.ensureSynthetic
  have changed := unit_modifyUnit p.ensureSynthetic.2 (sound.synthetic _ hs).1
    (extendSynthetic · name) u
  refine changed.trans ?_
  split
  · rename_i hu
    rw [hu]
  · rfl

/-- Declaring a name in the synthetic unit changes no other unit. -/
theorem Sound.unit_of_not_synthetic {p : Program} (h : p.Sound) (name : String) {id : Nat}
    (lt : id < (p.declareSynthetic name).2.units.size)
    (other : (p.declareSynthetic name).2.synthetic ≠ some id) :
    id < p.units.size ∧ p.synthetic ≠ some id ∧
      (p.declareSynthetic name).2.unit id = p.unit id := by
  have apart : id ≠ p.ensureSynthetic.1 := by
    rintro rfl
    exact other h.ensureSynthetic.2
  have lt : id < (p.ensureSynthetic.2.modifyUnit p.ensureSynthetic.1
      (extendSynthetic · name)).units.size := lt
  have other : p.ensureSynthetic.2.synthetic ≠ some id := other
  rw [h.unit_declareSynthetic, if_neg apart]
  rw [size_modifyUnit] at lt
  -- the synthetic unit is there already, or it is added behind all others
  cases known : p.synthetic with
  | some j =>
      have there : p.ensureSynthetic = (j, p) := by rw [Program.ensureSynthetic, known]
      rw [there] at lt other ⊢
      exact ⟨lt, known ▸ other, rfl⟩
  | none =>
      have added : p.ensureSynthetic = (p.units.size,
          { p with units := p.units.push emptySynthetic, synthetic := some p.units.size }) := by
        rw [Program.ensureSynthetic, known]
      rw [added] at lt apart ⊢
      have lt : id < (p.units.push emptySynthetic).size := lt
      rw [Array.size_push] at lt
      refine ⟨by omega, fun same => (nomatch same), ?_⟩
      have pushed := unit_push p emptySynthetic none id
      rwa [if_neg apart] at pushed

/-- Every unit but the synthetic one was read from a text. -/
theorem Built.exists_text {p : Program} (h : p.Built) {id : Nat} (lt : id < p.units.size)
    (other : p.synthetic ≠ some id) : ∃ text, (p.unit id).ReadFrom text := by
  induction h with
  | empty => exact absurd lt (Nat.not_lt_zero id)
  | @push p _ level text faults name isExtern module? ih =>
      have lt : id < (p.units.push _).size := lt
      rw [Array.size_push] at lt
      rw [unit_push]
      split
      · exact ⟨text, level, faults, rfl, rfl⟩
      · exact ih (by omega) other
  | withModules _ modules ih => exact ih lt other
  | annotate _ n extra ih =>
      have lt := size_modifyUnit _ _ _ ▸ lt
      rw [unit_annotate]
      split
      · exact ih lt other
      · exact ih lt other
  | declareSynthetic h name ih =>
      obtain ⟨lt, other, same⟩ := h.sound.unit_of_not_synthetic name lt other
      rw [same]
      exact ih lt other

end Program

end DeclCheck
