import DeclCheck.Proofs.ModuleGraph.Consistency
import DeclCheck.Proofs.Program.Built

/-! # Units and existing modules

    Modules are only ever added, and a unit is assigned to a module that is
    there.  So however a program is put together and run, the modules of its
    units exist. -/

namespace DeclCheck

namespace ModuleGraph

/-- Whether units are assigned to existing modules only. -/
def Assigned (g : ModuleGraph) : Prop := ∀ unit m, g.moduleOf? unit = some m → m < g.size

variable {g : ModuleGraph}

theorem Assigned.add (h : g.Assigned) (name : String) : (g.add name).2.Assigned := by
  intro unit m assigned
  rw [moduleOf?_add] at assigned
  exact Nat.lt_of_lt_of_le (h unit m assigned) (size_le_add g name)

theorem Assigned.addEdge (h : g.Assigned) (source target : Nat) :
    (g.addEdge source target).Assigned := by
  intro unit m assigned
  rw [moduleOf?_addEdge] at assigned
  rw [size_addEdge]
  exact h unit m assigned

theorem Assigned.assign (h : g.Assigned) (unit : Nat) {target : Nat} (known : target < g.size) :
    (g.assign unit target).Assigned := by
  intro unit' m assigned
  rw [size_assign]
  rw [moduleOf?_assign] at assigned
  split at assigned
  · cases assigned
    exact known
  · exact h unit' m assigned

theorem lt_size_of_id? {name : String} {id : Nat} (h : g.id? name = some id) : id < g.size := by
  obtain ⟨lt, -⟩ := Array.findIdx?_eq_some_iff_findIdx_eq.mp h
  exact lt

end ModuleGraph

namespace Program

/-- The modules of a program can be built, and its units are assigned to
    existing ones only. -/
structure Grouped (p : Program) : Prop where
  modules : p.modules.Built
  assigned : p.modules.Assigned

namespace Grouped

variable {p : Program}

theorem empty : Grouped .empty := ⟨.empty, fun _ _ h => nomatch h⟩

theorem declareModule (h : p.Grouped) (name : String) (dependencies : List String) :
    (p.declareModule name dependencies).Grouped := by
  have step (id : Nat) (names : List String) (g : ModuleGraph) (built : g.Built)
      (assigned : g.Assigned) :
      (names.foldl (fun g dependency => (g.add dependency).2.addEdge id (g.add dependency).1)
        g).Built ∧
      (names.foldl (fun g dependency => (g.add dependency).2.addEdge id (g.add dependency).1)
        g).Assigned := by
    induction names generalizing g with
    | nil => exact ⟨built, assigned⟩
    | cons name names ih =>
        exact ih _ ((built.add name).addEdge _ _) ((assigned.add name).addEdge _ _)
  obtain ⟨built, assigned⟩ := step (p.modules.add name).1 dependencies _ (h.modules.add name)
    (h.assigned.add name)
  exact ⟨built, assigned⟩

theorem setModuleOrder (h : p.Grouped) (names : List String) : (p.setModuleOrder names).Grouped :=
  ⟨h.modules.setOrder _, h.assigned⟩

/-- A unit is added, perhaps to an existing module. -/
theorem push (h : p.Grouped) (u : CodeUnit) {module? : Option Nat}
    (known : ∀ m, module? = some m → m < p.modules.size) : (p.push u module?).2.Grouped := by
  cases module? with
  | none => exact ⟨h.modules, h.assigned⟩
  | some m =>
      rw [Program.push]
      cases u.isExtern with
      | true => exact ⟨h.modules, h.assigned⟩
      | false => exact ⟨h.modules.assign _ m, h.assigned.assign _ (known m rfl)⟩

theorem addUnit (h : p.Grouped) {level : LanguageLevel} {name text : String} {isExtern : Bool}
    {module? : Option Nat} (known : ∀ m, module? = some m → m < p.modules.size) {id : Nat}
    {p' : Program} (added : p.addUnit level name text isExtern module? = .ok (id, p')) :
    p'.Grouped := by
  rw [Program.addUnit] at added
  split at added
  · cases added
  · dsimp only at added
    split at added
    · cases added
      exact h.push _ known
    · cases added

/-- A text that is not refused joins an existing module or none. -/
theorem addText (h : p.Grouped) {level : LanguageLevel} {role : UnitRole} {name text : String}
    {id : Nat} {p' : Program} (added : p.addText level role name text = .ok (id, p')) :
    p'.Grouped := by
  cases role with
  | declarations =>
      refine h.addUnit ?_ added
      exact nofun
  | source module? =>
      cases module? with
      | none =>
          refine h.addUnit ?_ added
          exact nofun
      | some m =>
          rw [Program.addText] at added
          split at added
          · cases added
          · rename_i found
            refine h.addUnit (fun m' same => ?_) added
            cases same
            exact ModuleGraph.lt_size_of_id? found

theorem addFile (h : p.Grouped) {level : LanguageLevel} {role : UnitRole} {files : FileTree}
    {path : String} {id : Nat} {p' : Program}
    (added : p.addFile level role files path = .ok (id, p')) : p'.Grouped := by
  rw [Program.addFile] at added
  split at added
  · cases added
  · exact h.addText added

end Grouped

/-! ## Runs -/

theorem modules_annotateAll (p : Program) (ns : List UnitNode) (extra : Ast.Flags) :
    (p.annotateAll ns extra).modules = p.modules := by
  unfold annotateAll
  induction ns generalizing p with
  | nil => rfl
  | cons n ns ih => exact ih _

theorem modules_declareSynthetic (p : Program) (name : String) :
    (p.declareSynthetic name).2.modules = p.modules := by
  show p.ensureSynthetic.2.modules = p.modules
  rw [ensureSynthetic]
  split <;> rfl

end Program

namespace Synthesis

theorem modules_synthesize (s : Synthesis) (o : Options) (name : String) :
    (s.synthesize o name).program.modules = s.program.modules := by
  have room : (s.makeRoom o name).program.modules = s.program.modules := by
    rw [makeRoom]
    split
    · rfl
    · split
      · rfl
      · split
        · rfl
        · exact Program.modules_annotateAll _ _ _
  rw [synthesize]
  split
  · rfl
  · exact (Program.modules_declareSynthetic _ name).trans room

theorem modules_foldl (names : List String) (s : Synthesis) (o : Options) :
    (names.foldl (Synthesis.synthesize o) s).program.modules = s.program.modules := by
  induction names generalizing s with
  | nil => rfl
  | cons name names ih => exact (ih _).trans (modules_synthesize s o name)

end Synthesis

namespace Program

/-- A run keeps the modules. -/
theorem modules_analyze (p : Program) (o : Options) : (p.analyze o).2.modules = p.modules := by
  have synthesized (c : Collection) (wanted : List String) :
      (c.synthesize p o wanted).1.program.modules = p.modules := by
    rw [Collection.synthesize]
    split
    · rfl
    · exact Synthesis.modules_foldl wanted _ o
  rw [analyze]
  dsimp only
  split
  · rfl
  · split
    · exact synthesized _ _
    · exact (modules_annotateAll _ _ _).trans (synthesized _ _)

theorem Grouped.analyze {p : Program} (h : p.Grouped) (o : Options) : (p.analyze o).2.Grouped := by
  have same := p.modules_analyze o
  exact ⟨same ▸ h.modules, same ▸ h.assigned⟩

end Program

end DeclCheck
