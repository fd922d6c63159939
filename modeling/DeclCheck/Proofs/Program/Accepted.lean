import DeclCheck.Proofs.Program.Assembly

/-! # What a builder has accepted

    Whatever calls are made, the program holds exactly the texts that were
    accepted, in the order of their calls: each under the number that was
    answered, with a name of its own, and in the module that it was added to.
    Modules that are declared later change nothing of this. -/

namespace DeclCheck

namespace ModuleGraph

variable {g g' g'' : ModuleGraph}

/-- Whether a graph has the modules of another one, under their numbers. -/
structure Keeps (g g' : ModuleGraph) : Prop where
  size : g.size ≤ g'.size
  name : ∀ id < g.size, g'.name id = g.name id

/-- Whether a graph has the modules of another one with the same units. -/
structure Widens (g g' : ModuleGraph) : Prop extends Keeps g g' where
  units : ∀ id, g'.unitsOf id = g.unitsOf id
  assigned : ∀ unit, g'.moduleOf? unit = g.moduleOf? unit

namespace Widens

/-- One widens by widening twice. -/
theorem trans (h : Widens g g') (h' : Widens g' g'') : Widens g g'' where
  size := Nat.le_trans h.size h'.size
  name id known := (h'.name id (Nat.lt_of_lt_of_le known h.size)).trans (h.name id known)
  units id := (h'.units id).trans (h.units id)
  assigned unit := (h'.assigned unit).trans (h.assigned unit)

/-- A module more moves no unit. -/
theorem add (g : ModuleGraph) (n : String) : Widens g (g.add n).2 where
  size := size_le_add g n
  name id known := by
    cases found : g.id? n with
    | some _ => rw [ModuleGraph.add, found]
    | none => rw [name_add_of_fresh found, if_neg (Nat.ne_of_lt known)]
  units := unitsOf_add g n
  assigned := moduleOf?_add g n

/-- Nor does a dependency. -/
theorem addEdge (g : ModuleGraph) (source target : Nat) : Widens g (g.addEdge source target) where
  size := Nat.le_of_eq (size_addEdge g source target).symm
  name id _ := name_addEdge g source target id
  units := unitsOf_addEdge g source target
  assigned := moduleOf?_addEdge g source target

/-- To change nothing is to widen. -/
theorem refl (g : ModuleGraph) : Widens g g :=
  ⟨⟨Nat.le_refl _, fun _ _ => rfl⟩, fun _ => rfl, fun _ => rfl⟩

/-- A dependency adds its module and an edge. -/
theorem dependOn (g : ModuleGraph) (id : Nat) (dependency : String) :
    Widens g (g.dependOn id dependency) :=
  (add g dependency).trans (addEdge _ id _)

/-- Declared dependencies leave all units where they are, and different modules
    keep different names. -/
theorem declare (named : g.Named) (id : Nat) (dependencies : List String) :
    Widens g (dependencies.foldl (ModuleGraph.dependOn id) g) ∧
      (dependencies.foldl (ModuleGraph.dependOn id) g).Named := by
  induction dependencies generalizing g with
  | nil => exact ⟨refl g, named⟩
  | cons dependency rest ih =>
      have named : (g.dependOn id dependency).Named :=
        (named.add dependency).of_same (size_addEdge _ id _) (name_addEdge _ id _)
      obtain ⟨behind, named⟩ := ih named
      exact ⟨(dependOn g id dependency).trans behind, named⟩

end Widens

/-- A unit that is assigned keeps all modules and names. -/
theorem Keeps.assign (g : ModuleGraph) (unit target : Nat) : Keeps g (g.assign unit target) where
  size := Nat.le_of_eq (size_assign g unit target).symm
  name id _ := name_assign g unit target id

/-- A module keeps its number. -/
theorem Keeps.id?_eq_some (h : Keeps g g') (named : g.Named) (named' : g'.Named) {n : String}
    {id : Nat} (found : g.id? n = some id) : g'.id? n = some id := by
  obtain ⟨known, same⟩ := (named.id?_eq_some_iff n id).mp found
  exact (named'.id?_eq_some_iff n id).mpr
    ⟨Nat.lt_of_lt_of_le known h.size, (h.name id known).trans same⟩

/-- A name that is not found is that of no module. -/
theorem id?_eq_none_iff {n : String} : g.id? n = none ↔ ∀ id < g.size, g.name id ≠ n := by
  constructor
  · exact fun h id known => name_ne_of_id?_eq_none h known
  · intro h
    refine Array.findIdx?_eq_none_iff.mpr fun m mem => ?_
    obtain ⟨id, known, rfl⟩ := Array.mem_iff_getElem.mp mem
    rw [beq_eq_false_iff_ne, ← name_eq_getElem known]
    exact h id known

end ModuleGraph

namespace Program

variable {p q : Program} {level : LanguageLevel} {role : UnitRole} {name text : String}

/-- Declaring a module leaves all units where they are. -/
theorem widens_declareModule (named : p.modules.Named) (name : String)
    (dependencies : List String) :
    p.modules.Widens (p.declareModule name dependencies).modules ∧
      (p.declareModule name dependencies).modules.Named := by
  obtain ⟨widens, named⟩ := ModuleGraph.Widens.declare (named.add name) (p.modules.add name).1
    dependencies
  exact ⟨(ModuleGraph.Widens.add p.modules name).trans widens, named⟩

/-! ## Refusals -/

/-- Whether the module that a unit in a role joins, if any, is known. -/
def JoinsKnown (p : Program) (role : UnitRole) : Prop :=
  ∀ m, role.module? = some m → ∃ id < p.modules.size, p.modules.name id = m

/-- Why a text is refused: for its module, for its name or for its faults.  What
    comes later is looked at only if there is nothing to refuse before. -/
inductive Refuses (level : LanguageLevel) (p : Program) (role : UnitRole) (name text : String) :
    UnitError → Prop where
  | unknownModule {m : String} (joins : role.module? = some m)
      (unknown : ∀ id < p.modules.size, p.modules.name id ≠ m) :
      Refuses level p role name text (.unknownModule name m)
  | duplicateName (known : p.JoinsKnown role) (taken : ∃ u ∈ p.units, u.name = name) :
      Refuses level p role name text (.duplicateName name)
  | malformed (known : p.JoinsKnown role) (fresh : ∀ u ∈ p.units, u.name ≠ name)
      (faults : (Grammar.parse level text).faults ≠ []) :
      Refuses level p role name text
        (.malformed name (.ofString text) (Grammar.parse level text).faults)

/-- The module that a unit in a role joins. -/
def joined? (p : Program) (role : UnitRole) : Option Nat := role.module?.bind p.modules.id?

/-- A text joins the module of its role, which must be known by name. -/
theorem addText_eq (p : Program) (level : LanguageLevel) (role : UnitRole) (name text : String) :
    p.addText level role name text =
      match role.module? with
      | none => p.addUnit level name text role.isExtern none
      | some m =>
          match p.modules.id? m with
          | none => .error (.unknownModule name m)
          | some id => p.addUnit level name text role.isExtern (some id) := by
  match role with
  | .declarations => rfl
  | .source none => rfl
  | .source (some _) => rfl

/-- A module that is joined is there. -/
theorem lt_size_of_joined? {m : Nat} (joins : p.joined? role = some m) : m < p.modules.size := by
  obtain ⟨name, -, found⟩ := Option.bind_eq_some_iff.mp joins
  exact ModuleGraph.lt_size_of_id? found

/-- A known module is found by its name. -/
theorem JoinsKnown.exists_id (known : p.JoinsKnown role) {m : String}
    (joins : role.module? = some m) : ∃ id, p.modules.id? m = some id := by
  obtain ⟨id, there, named⟩ := known m joins
  cases found : p.modules.id? m with
  | none => exact absurd named (ModuleGraph.id?_eq_none_iff.mp found id there)
  | some id => exact ⟨id, rfl⟩

/-- It is still known when others have come. -/
theorem JoinsKnown.keep (known : p.JoinsKnown role) (keeps : p.modules.Keeps q.modules) :
    q.JoinsKnown role := by
  intro m joins
  obtain ⟨id, there, named⟩ := known m joins
  exact ⟨id, Nat.lt_of_lt_of_le there keeps.size, (keeps.name id there).trans named⟩

/-- A role joins the same module, also when others have come. -/
theorem JoinsKnown.joined?_eq (known : p.JoinsKnown role) (keeps : p.modules.Keeps q.modules)
    (named : p.modules.Named) (named' : q.modules.Named) : q.joined? role = p.joined? role := by
  rw [joined?, joined?]
  cases joins : role.module? with
  | none => rfl
  | some m =>
      obtain ⟨id, found⟩ := known.exists_id joins
      rw [Option.bind_some, Option.bind_some, found, keeps.id?_eq_some named named' found]

/-- A text that joins no unknown module is added by its name and its words. -/
theorem JoinsKnown.addText (known : p.JoinsKnown role) :
    p.addText level role name text =
      p.addUnit level name text role.isExtern (p.joined? role) := by
  rw [addText_eq, joined?]
  cases joins : role.module? with
  | none => rfl
  | some m =>
      obtain ⟨id, found⟩ := known.exists_id joins
      rw [Option.bind_some]
      dsimp only
      rw [found]

/-- A unit is found by its name if one has it. -/
theorem isSome_unitNamed? : (p.unitNamed? name).isSome = true ↔ ∃ u ∈ p.units, u.name = name := by
  rw [unitNamed?, Array.findIdx?_isSome, Array.any_eq_true']
  simp only [beq_iff_eq]

/-- A new name is found nowhere. -/
theorem not_isSome_unitNamed? (fresh : ∀ u ∈ p.units, u.name ≠ name) :
    ¬ (p.unitNamed? name).isSome = true := by
  intro taken
  obtain ⟨u, mem, same⟩ := isSome_unitNamed?.mp taken
  exact fresh u mem same

/-- A text is refused for the reason that is told. -/
theorem Refuses.addText {e : UnitError} (h : p.Refuses level role name text e) :
    p.addText level role name text = .error e := by
  cases h with
  | unknownModule joins unknown =>
      rw [addText_eq, joins]
      dsimp only
      rw [ModuleGraph.id?_eq_none_iff.mpr unknown]
  | duplicateName known taken =>
      rw [known.addText, addUnit, if_pos (isSome_unitNamed?.mpr taken)]
  | malformed known fresh faults =>
      rw [known.addText, addUnit, if_neg (not_isSome_unitNamed? fresh)]
      exact if_neg (mt List.isEmpty_iff.mp faults)

/-- A text is accepted if its module is known, its name is new and its words have
    no faults. -/
theorem addText_accepts (known : p.JoinsKnown role) (fresh : ∀ u ∈ p.units, u.name ≠ name)
    (faultless : (Grammar.parse level text).faults = []) :
    p.addText level role name text = .ok
      (p.push (.ofText name text role.isExtern (Grammar.parse level text).root)
        (p.joined? role)) := by
  rw [known.addText, addUnit, if_neg (not_isSome_unitNamed? fresh)]
  exact if_pos (List.isEmpty_iff.mpr faultless)

/-- A text is refused for some reason or has no fault to be refused for. -/
theorem refuses_or_accepts (p : Program) (level : LanguageLevel) (role : UnitRole)
    (name text : String) : (∃ e, p.Refuses level role name text e) ∨
      p.JoinsKnown role ∧ (∀ u ∈ p.units, u.name ≠ name) ∧
        (Grammar.parse level text).faults = [] := by
  by_cases known : p.JoinsKnown role
  · by_cases taken : ∃ u ∈ p.units, u.name = name
    · exact .inl ⟨_, .duplicateName known taken⟩
    · have fresh : ∀ u ∈ p.units, u.name ≠ name := fun u mem same => taken ⟨u, mem, same⟩
      by_cases faultless : (Grammar.parse level text).faults = []
      · exact .inr ⟨known, fresh, faultless⟩
      · exact .inl ⟨_, .malformed known fresh faultless⟩
  · simp only [JoinsKnown, not_forall, not_exists, not_and] at known
    obtain ⟨m, joins, unknown⟩ := known
    exact .inl ⟨_, .unknownModule joins unknown⟩

/-- A text is refused exactly for these reasons. -/
theorem addText_error_iff {e : UnitError} :
    p.addText level role name text = .error e ↔ p.Refuses level role name text e := by
  refine ⟨fun refused => ?_, Refuses.addText⟩
  rcases refuses_or_accepts p level role name text with ⟨e', h⟩ | ⟨known, fresh, faultless⟩
  · cases h.addText.symm.trans refused
    exact h
  · cases (addText_accepts known fresh faultless).symm.trans refused

/-- A text that is added had nothing against it, and is pushed. -/
theorem addText_ok {id : Nat} (added : p.addText level role name text = .ok (id, q)) :
    p.JoinsKnown role ∧ (∀ u ∈ p.units, u.name ≠ name) ∧ (Grammar.parse level text).faults = [] ∧
      p.push (.ofText name text role.isExtern (Grammar.parse level text).root) (p.joined? role) =
        (id, q) := by
  rcases refuses_or_accepts p level role name text with ⟨e, h⟩ | ⟨known, fresh, faultless⟩
  · cases h.addText.symm.trans added
  · exact ⟨known, fresh, faultless,
      Except.ok.inj ((addText_accepts known fresh faultless).symm.trans added)⟩

/-! ## Accepted texts -/

/-- A text that was accepted, with the number that was answered. -/
structure Accepted where
  id : Nat
  role : UnitRole
  name : String
  text : String
  deriving DecidableEq, Repr

/-- The unit of an accepted text. -/
def Accepted.unit (level : LanguageLevel) (a : Accepted) : CodeUnit :=
  .ofText a.name a.text a.role.isExtern (Grammar.parse level a.text).root

/-- What a call with its answer accepts. -/
def accepted? : BuilderCall × Except UnitError Nat → Option Accepted
  | (.adds role name text, .ok id) => some ⟨id, role, name, text⟩
  | _ => none

/-- What calls with their answers accept. -/
def accepted (calls : List BuilderCall) (answers : List (Except UnitError Nat)) : List Accepted :=
  (calls.zip answers).filterMap accepted?

/-- Whether a program holds accepted texts: each as the unit with its number, read
    without a fault under a name of its own, and a source in the module that it
    was added to and in no other one. -/
structure Holds (level : LanguageLevel) (as : List Accepted) (p : Program) : Prop where
  units : p.units.toList = as.map (Accepted.unit level)
  ids : as.map Accepted.id = List.range p.units.size
  names : (as.map Accepted.name).Nodup
  faultless : ∀ a ∈ as, (Grammar.parse level a.text).faults = []
  module : ∀ a ∈ as, p.JoinsKnown a.role ∧ p.moduleOf? a.id = p.joined? a.role
  outside : ∀ id, p.units.size ≤ id → p.moduleOf? id = none
  listed : ∀ m id, id ∈ p.modules.unitsOf m ↔ p.moduleOf? id = some m
  once : ∀ m, (p.modules.unitsOf m).Nodup
  modules : p.modules.Named

namespace Holds

variable {as : List Accepted}

/-- An empty program holds no texts. -/
theorem empty (level : LanguageLevel) : Holds level [] .empty where
  units := rfl
  ids := rfl
  names := List.nodup_nil
  faultless := List.forall_mem_nil _
  module := List.forall_mem_nil _
  outside _ _ := rfl
  listed _ _ := iff_of_false List.not_mem_nil (Option.some_ne_none _).symm
  once _ := List.nodup_nil
  modules := ModuleGraph.Built.empty.named

/-- Modules that are declared leave all units where they are. -/
theorem declareModule (h : Holds level as p) (name : String) (dependencies : List String) :
    Holds level as (p.declareModule name dependencies) := by
  obtain ⟨widens, named⟩ := widens_declareModule h.modules name dependencies
  refine ⟨h.units, h.ids, h.names, h.faultless, fun a mem => ?_, fun id behind => ?_,
    fun m id => ?_, fun m => ?_, named⟩
  · obtain ⟨known, joins⟩ := h.module a mem
    refine ⟨known.keep widens.toKeeps, ?_⟩
    rw [known.joined?_eq widens.toKeeps h.modules named, ← joins]
    exact widens.assigned a.id
  · exact (widens.assigned id).trans (h.outside id behind)
  · rw [widens.units m, h.listed m id]
    exact (congrArg (· = some m) (widens.assigned id)).symm ▸ Iff.rfl
  · rw [widens.units m]
    exact h.once m

/-- The modules when a unit was put behind the others. -/
theorem modules_push (h : Holds level as p) {u : CodeUnit} {module? : Option Nat}
    (fits : module?.isSome = true → u.isExtern = false)
    (known : ∀ m, module? = some m → m < p.modules.size) :
    p.modules.Keeps (p.push u module?).2.modules ∧ (p.push u module?).2.modules.Named ∧
      (∀ id, (p.push u module?).2.moduleOf? id =
        if id = p.units.size then module? else p.moduleOf? id) ∧
      ∀ m, (p.push u module?).2.modules.unitsOf m =
        p.modules.unitsOf m ++ if module? = some m then [p.units.size] else [] := by
  have fresh := h.outside p.units.size (Nat.le_refl _)
  cases module? with
  | none =>
      refine ⟨⟨Nat.le_refl _, fun _ _ => rfl⟩, h.modules, fun id => ?_, fun m => ?_⟩
      · split
        next same => exact same ▸ fresh
        next => rfl
      · exact (List.append_nil _).symm
  | some target =>
      have assigned : (p.push u (some target)).2.modules =
          p.modules.assign p.units.size target := by
        rw [push, fits rfl]
        rfl
      refine ⟨?_, ?_, fun id => ?_, fun m => ?_⟩
      · rw [assigned]
        exact .assign _ _ _
      · rw [assigned]
        exact h.modules.of_same (ModuleGraph.size_assign _ _ _) (ModuleGraph.name_assign _ _ _)
      · rw [moduleOf?, assigned, ModuleGraph.moduleOf?_assign]
        rfl
      · have outside : p.modules.moduleOf? p.units.size ≠ some m := by
          intro there
          cases fresh.symm.trans there
        rw [assigned, ModuleGraph.unitsOf_assign, if_neg outside]
        by_cases here : target = m
        · cases here
          rw [if_pos ⟨rfl, known target rfl⟩, if_pos rfl]
        · rw [if_neg fun both => here both.1, if_neg fun same => here (Option.some.inj same)]

/-- The number of a held text is that of a unit. -/
theorem id_lt (h : Holds level as p) {a : Accepted} (mem : a ∈ as) : a.id < p.units.size :=
  List.mem_range.mp (h.ids ▸ List.mem_map_of_mem mem)

/-- The names of the units are those of the accepted texts. -/
theorem name_ne (h : Holds level as p) {name : String} (fresh : ∀ u ∈ p.units, u.name ≠ name)
    {a : Accepted} (mem : a ∈ as) : a.name ≠ name := by
  have there : a.unit level ∈ p.units.toList := h.units ▸ List.mem_map_of_mem mem
  exact fresh _ (Array.mem_toList_iff.mp there)

/-- A text that is accepted is held beside the others. -/
theorem addText (h : Holds level as p) {id : Nat}
    (added : p.addText level role name text = .ok (id, q)) :
    Holds level (as ++ [⟨id, role, name, text⟩]) q := by
  obtain ⟨known, fresh, faultless, pushed⟩ := addText_ok added
  obtain rfl : p.units.size = id := congrArg Prod.fst pushed
  obtain rfl := congrArg Prod.snd pushed
  have fits : (p.joined? role).isSome = true → role.isExtern = false := by
    intro joins
    cases role with
    | declarations => cases joins
    | source m? => rfl
  obtain ⟨keeps, named, moduleOf, unitsOf⟩ := h.modules_push
    (u := .ofText name text role.isExtern (Grammar.parse level text).root) fits
    fun m joins => lt_size_of_joined? joins
  have outside := h.outside p.units.size (Nat.le_refl _)
  constructor
  case units =>
    rw [List.map_append, ← h.units]
    exact Array.toList_push
  case ids =>
    rw [List.map_append, h.ids]
    exact (Array.size_push ..) ▸ List.range_succ.symm
  case names =>
    rw [List.map_append]
    refine List.nodup_append.mpr ⟨h.names, List.nodup_singleton _, ?_⟩
    rintro n mem _ last rfl
    obtain ⟨a, among, rfl⟩ := List.mem_map.mp mem
    exact h.name_ne fresh among (List.mem_singleton.mp last)
  case faultless =>
    exact List.forall_mem_append.mpr ⟨h.faultless, List.forall_mem_singleton.mpr faultless⟩
  case module =>
    refine List.forall_mem_append.mpr ⟨fun a mem => ?_, List.forall_mem_singleton.mpr ?_⟩
    · obtain ⟨there, joins⟩ := h.module a mem
      refine ⟨there.keep keeps, ?_⟩
      rw [moduleOf, if_neg (Nat.ne_of_lt (h.id_lt mem)), joins,
        there.joined?_eq keeps h.modules named]
    · refine ⟨known.keep keeps, ?_⟩
      rw [moduleOf, if_pos rfl, known.joined?_eq keeps h.modules named]
  case outside =>
    intro id behind
    have behind : p.units.size + 1 ≤ id := (Array.size_push ..) ▸ behind
    rw [moduleOf, if_neg (Nat.ne_of_gt behind), h.outside id (Nat.le_of_succ_le behind)]
  case listed =>
    intro m id
    rw [unitsOf, moduleOf, List.mem_append, h.listed]
    by_cases last : id = p.units.size
    · cases last
      rw [outside, if_pos rfl]
      by_cases joins : p.joined? role = some m
      · simp [joins]
      · simp [joins]
    · rw [if_neg last]
      refine or_iff_left fun mem => last ?_
      split at mem
      · exact List.mem_singleton.mp mem
      · cases mem
  case once =>
    intro m
    rw [unitsOf]
    refine List.nodup_append.mpr ⟨h.once m, ?_, ?_⟩
    · split
      · exact List.nodup_singleton _
      · exact List.nodup_nil
    · rintro id mem _ last rfl
      split at last
      · cases List.mem_singleton.mp last
        cases outside.symm.trans ((h.listed m _).mp mem)
      · cases last
  case modules => exact named

/-- What one call accepts is held behind it. -/
theorem answer (h : Holds level as p) (call : BuilderCall) :
    Holds level (as ++ (accepted? (call, (p.answer level call).1)).toList)
      (p.answer level call).2 := by
  cases call with
  | declares name dependencies =>
      show Holds level (as ++ []) _
      rw [List.append_nil]
      exact h.declareModule name dependencies
  | adds role name text =>
      rw [Program.answer]
      cases added : p.addText level role name text with
      | error e =>
          show Holds level (as ++ []) p
          rw [List.append_nil]
          exact h
      | ok result => exact h.addText added

/-- What calls accept is held behind them. -/
theorem answerAll (h : Holds level as p) (calls : List BuilderCall) :
    Holds level (as ++ accepted calls (p.answerAll level calls).1) (p.answerAll level calls).2 := by
  induction calls generalizing as p with
  | nil =>
      show Holds level (as ++ []) p
      rw [List.append_nil]
      exact h
  | cons call calls ih =>
      have all := ih (h.answer call)
      have front : accepted (call :: calls) ((p.answer level call).1 ::
          ((p.answer level call).2.answerAll level calls).1) =
          (accepted? (call, (p.answer level call).1)).toList ++
            accepted calls ((p.answer level call).2.answerAll level calls).1 := by
        rw [accepted, List.zip_cons_cons, List.filterMap_cons]
        cases accepted? (call, (p.answer level call).1) <;> rfl
      rw [List.append_assoc, ← front] at all
      exact all

/-- The unit with the number of an accepted text is that of the text. -/
theorem unit_eq (h : Holds level as p) {a : Accepted} (mem : a ∈ as) :
    p.unit a.id = a.unit level := by
  obtain ⟨i, lt, rfl⟩ := List.getElem_of_mem mem
  have id_eq : as[i].id = i := by
    have there := congrArg (·[i]?) h.ids
    have known : i < p.units.size := by
      rwa [← Array.length_toList, h.units, List.length_map]
    simp only [List.getElem?_map, List.getElem?_eq_getElem lt, Option.map_some,
      List.getElem?_range known] at there
    exact Option.some.inj there
  have there := congrArg (·[i]?) h.units
  simp only [List.getElem?_map, List.getElem?_eq_getElem lt, Option.map_some,
    Array.getElem?_toList] at there
  rw [id_eq, unit, Array.getD_eq_getD_getElem?, there]
  rfl

/-- The extern texts come first, then the sources, each in the order in which
    they were accepted. -/
theorem order_eq (h : Holds level as p) :
    p.order = (as.filter fun a => a.role.isExtern).map Accepted.id ++
      (as.filter fun a => !a.role.isExtern).map Accepted.id := by
  have same (a : Accepted) (mem : a ∈ as) : p.isExtern a.id = a.role.isExtern := by
    rw [isExtern, h.unit_eq mem]
    rfl
  rw [order, ← h.ids, List.filter_map, List.filter_map]
  congr 2
  · exact List.filter_congr same
  · exact List.filter_congr fun a mem => congrArg (!·) (same a mem)

end Holds

/-- Every unit is read once. -/
theorem order_perm (p : Program) : p.order.Perm (List.range p.units.size) :=
  List.filter_append_perm _ _

/-- A refused call leaves the program as it was, also write by write, and a text
    is refused exactly for an unknown module, a taken name or a fault, while the
    declaration of a module is never refused.  After any calls, the program holds
    the texts that were accepted: their units have the numbers that were
    answered, which are their places, with different names and trees that were
    read without a fault; no extern unit is in a module, and a source is in the
    one that it was added to and in no other one.  The units are ordered with all
    extern ones first, and each comes once. -/
theorem assembles (level : LanguageLevel) :
    (∀ (p : Program) call, (Building.make level call).run.run p = p.answer level call) ∧
    (∀ (p : Program) call e, (p.answer level call).1 = .error e → (p.answer level call).2 = p) ∧
    (∀ (p : Program) name dependencies,
      ∃ id, (p.answer level (.declares name dependencies)).1 = .ok id) ∧
    (∀ (p : Program) role name text e, (p.answer level (.adds role name text)).1 = .error e ↔
      p.Refuses level role name text e) ∧
    ∀ calls,
      let after := empty.answerAll level calls
      let as := accepted calls after.1
      Holds level as after.2 ∧
        after.2.order = (as.filter fun a => a.role.isExtern).map Accepted.id ++
          (as.filter fun a => !a.role.isExtern).map Accepted.id ∧
        after.2.order.Perm (List.range after.2.units.size) := by
  refine ⟨Building.run_make level, fun p call e refused => ?_, fun p name dependencies => ⟨_, rfl⟩,
    fun p role name text e => ?_, fun calls => ?_⟩
  · cases call with
    | declares name dependencies => cases refused
    | adds role name text =>
        rw [answer] at refused ⊢
        split at refused
        next => rfl
        next => cases refused
  · rw [← addText_error_iff, answer]
    cases p.addText level role name text with
    | error e' =>
        constructor
        · intro same
          exact congrArg Except.error (Except.error.inj same)
        · intro same
          exact congrArg Except.error (Except.error.inj same)
    | ok result =>
        constructor
        · intro same
          cases same
        · intro same
          cases same
  · have holds := (Holds.empty level).answerAll calls
    exact ⟨holds, holds.order_eq, order_perm _⟩

/-- Calls of which two texts are accepted: the others take a name that is taken,
    name an unknown module, and have a fault. -/
def mixedCalls : List BuilderCall :=
  [.declares "core" ["base"], .adds (.source (some "base")) "a" "x", .adds .declarations "b" "",
    .adds .declarations "a" "", .adds (.source (some "other")) "c" "", .adds .declarations "d" "("]

/-- Of these calls two are accepted: a source in a module that was only depended on,
    and an extern, which is read first. -/
theorem assembles_mixedCalls :
    let after := empty.answerAll .standard mixedCalls
    Holds .standard [⟨0, .source (some "base"), "a", "x"⟩, ⟨1, .declarations, "b", ""⟩] after.2 ∧
      after.2.order = [1, 0] := by
  have found : accepted mixedCalls (empty.answerAll .standard mixedCalls).1 =
      [⟨0, .source (some "base"), "a", "x"⟩, ⟨1, .declarations, "b", ""⟩] := by decide +kernel
  obtain ⟨holds, order, -⟩ := (assembles .standard).2.2.2.2 mixedCalls
  rw [found] at holds order
  exact ⟨holds, order⟩

end Program

end DeclCheck
