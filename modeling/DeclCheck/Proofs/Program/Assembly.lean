import DeclCheck.Proofs.Program.Grouped

/-! # Putting a program together

    A builder declares modules and adds texts, one call after the other.  A text
    is refused where its module is unknown, where its name is taken, or where it
    is not well formed.  All of this is decided before the first write, so a
    call that is refused leaves the program as it was. -/

namespace DeclCheck

open Ast (Node)

/-- Let a module depend on the one with a name, which is added if there is none. -/
def ModuleGraph.dependOn (id : Nat) (g : ModuleGraph) (dependency : String) : ModuleGraph :=
  (g.add dependency).2.addEdge id (g.add dependency).1

/-- A call of a builder. -/
inductive BuilderCall where
  /-- A module is declared to depend on others. -/
  | declares (name : String) (dependencies : List String)
  /-- A text is added in a role. -/
  | adds (role : UnitRole) (name text : String)
  deriving DecidableEq, Repr

namespace UnitRole

/-- Whether a unit in a role is extern. -/
def isExtern : UnitRole → Bool
  | declarations => true
  | source _ => false

/-- The name of the module that a unit in a role joins. -/
def module? : UnitRole → Option String
  | declarations => none
  | source m? => m?

end UnitRole

namespace Program

variable {p q : Program} {level : LanguageLevel}

/-- Make a call.  It answers with the number of the module or of the unit, and
    leaves a program. -/
def answer (level : LanguageLevel) (p : Program) : BuilderCall → Except UnitError Nat × Program
  | .declares name dependencies =>
      (.ok (p.modules.add name).1, p.declareModule name dependencies)
  | .adds role name text =>
      match p.addText level role name text with
      | .error e => (.error e, p)
      | .ok (id, q) => (.ok id, q)

/-- Make calls one after the other. -/
def answerAll (level : LanguageLevel) (p : Program) :
    List BuilderCall → List (Except UnitError Nat) × Program
  | [] => ([], p)
  | call :: calls =>
      let first := p.answer level call
      let rest := first.2.answerAll level calls
      (first.1 :: rest.1, rest.2)

end Program

/-! ## Write by write -/

/-- Steps that look at a program and write to it.  What was written stays, also
    if a later step refuses. -/
abbrev Building (α : Type) := ExceptT UnitError (StateM Program) α

namespace Building

/-- Add a module, unless there is one of that name. -/
def addModule (name : String) : Building Nat :=
  modifyGet fun p => ((p.modules.add name).1, { p with modules := (p.modules.add name).2 })

/-- Declare that a module depends on another one. -/
def addEdge (source target : Nat) : Building Unit :=
  modify fun p => { p with modules := p.modules.addEdge source target }

/-- Declare that a module depends on others. -/
def declare (name : String) (dependencies : List String) : Building Nat := do
  let id ← addModule name
  dependencies.forM fun dependency => do
    let target ← addModule dependency
    addEdge id target
  return id

/-- The number of the module that a unit joins. -/
def joined (unit : String) (role : UnitRole) : Building (Option Nat) :=
  match role.module? with
  | none => return none
  | some m => do
      match (← get).modules.id? m with
      | none => throw (.unknownModule unit m)
      | some id => return some id

/-- Refuse a name that is taken. -/
def claimName (name : String) : Building Unit := do
  if ((← get).unitNamed? name).isSome then throw (.duplicateName name)

/-- The tree of a text, unless the text has faults. -/
def readText (level : LanguageLevel) (unit text : String) : Building Node :=
  let parsed := Grammar.parse level text
  if parsed.faults.isEmpty then return parsed.root
  else throw (.malformed unit (.ofString text) parsed.faults)

/-- Put a unit behind the others. -/
def pushUnit (u : CodeUnit) : Building Nat :=
  modifyGet fun p => (p.units.size, { p with units := p.units.push u })

/-- Assign a unit to a module, if it joins one. -/
def assign (unit : Nat) : Option Nat → Building Unit
  | some m => modify fun p => { p with modules := p.modules.assign unit m }
  | none => return ()

/-- Add a text in a role. -/
def add (level : LanguageLevel) (role : UnitRole) (name text : String) : Building Nat := do
  let module? ← joined name role
  claimName name
  let root ← readText level name text
  let id ← pushUnit (.ofText name text role.isExtern root)
  assign id module?
  return id

/-- Make a call, write by write. -/
def make (level : LanguageLevel) : BuilderCall → Building Nat
  | .declares name dependencies => declare name dependencies
  | .adds role name text => add level role name text

variable {p : Program} {level : LanguageLevel}

section Run

variable {α β : Type} {x : Building α} {f : α → Building β} {q : Program}

/-- A step that succeeds leaves its result and its program to the next one. -/
theorem run_bind_ok {a : α} (first : x.run.run p = (.ok a, q)) :
    (x >>= f).run.run p = (f a).run.run q := by
  show ExceptT.bindCont f (x.run.run p).1 (x.run.run p).2 = _
  rw [first]
  rfl

/-- Behind a step that refuses there are no others. -/
theorem run_bind_error {e : UnitError} (first : x.run.run p = (.error e, q)) :
    (x >>= f).run.run p = (.error e, q) := by
  show ExceptT.bindCont f (x.run.run p).1 (x.run.run p).2 = _
  rw [first]
  rfl

end Run

theorem run_forM_edges (id : Nat) (dependencies : List String) (p : Program) :
    (dependencies.forM fun dependency => do
      let target ← addModule dependency
      addEdge id target : Building Unit).run.run p =
      (.ok (), { p with modules := dependencies.foldl (ModuleGraph.dependOn id) p.modules }) := by
  induction dependencies generalizing p with
  | nil => rfl
  | cons dependency rest ih =>
      exact (run_bind_ok (q := { p with modules := p.modules.dependOn id dependency }) rfl).trans
        (ih _)

theorem run_declare (name : String) (dependencies : List String) (p : Program) :
    (declare name dependencies).run.run p =
      (.ok (p.modules.add name).1, p.declareModule name dependencies) := by
  refine (run_bind_ok (a := (p.modules.add name).1)
    (q := { p with modules := (p.modules.add name).2 }) rfl).trans ?_
  exact run_bind_ok (run_forM_edges _ dependencies _)

theorem run_joined (unit m : String) (p : Program) :
    (joined unit (.source (some m))).run.run p =
      match p.modules.id? m with
      | none => (.error (.unknownModule unit m), p)
      | some id => (.ok (some id), p) := by
  refine (run_bind_ok (a := p) (q := p) rfl).trans ?_
  cases p.modules.id? m <;> rfl

theorem run_claimName (name : String) (p : Program) :
    (claimName name).run.run p =
      if (p.unitNamed? name).isSome then (.error (.duplicateName name), p) else (.ok (), p) := by
  refine (run_bind_ok (a := p) (q := p) rfl).trans ?_
  split <;> rfl

theorem run_readText (level : LanguageLevel) (unit text : String) (p : Program) :
    (readText level unit text).run.run p =
      if (Grammar.parse level text).faults.isEmpty then (.ok (Grammar.parse level text).root, p)
      else (.error (.malformed unit (.ofString text) (Grammar.parse level text).faults), p) := by
  rw [readText]
  split <;> rfl

theorem run_pushUnit (u : CodeUnit) {module? : Option Nat}
    (fits : module?.isSome = true → u.isExtern = false) (p : Program) :
    (do
      let id ← pushUnit u
      assign id module?
      return id : Building Nat).run.run p = (.ok (p.push u module?).1, (p.push u module?).2) := by
  cases module? with
  | none => rfl
  | some m =>
      rw [Program.push, fits rfl]
      rfl

/-- Of a unit whose module is known, the name and the text are looked at, in
    this order, before it is put into the program. -/
theorem run_add_joined {role : UnitRole} {name text : String} (module? : Option Nat)
    (known : (joined name role).run.run p = (.ok module?, p))
    (fits : module?.isSome = true → role.isExtern = false) :
    (add level role name text).run.run p =
      match p.addUnit level name text role.isExtern module? with
      | .error e => (.error e, p)
      | .ok (id, q) => (.ok id, q) := by
  refine (run_bind_ok known).trans ?_
  have claimed := run_claimName name p
  rw [Program.addUnit]
  split at claimed
  next taken =>
    rw [if_pos taken]
    exact run_bind_error claimed
  next unused =>
    rw [if_neg unused]
    refine (run_bind_ok claimed).trans ?_
    have read := run_readText level name text p
    split at read
    next clean =>
      rw [if_pos clean]
      exact (run_bind_ok read).trans (run_pushUnit (.ofText name text role.isExtern _) fits p)
    next faulty =>
      rw [if_neg faulty]
      exact run_bind_error read

/-- Write by write, a call does what it answers, and one that is refused has
    written nothing. -/
theorem run_make (level : LanguageLevel) (p : Program) (call : BuilderCall) :
    (make level call).run.run p = p.answer level call := by
  cases call with
  | declares name dependencies => exact run_declare name dependencies p
  | adds role name text =>
      match role with
      | .declarations => exact run_add_joined none rfl nofun
      | .source none => exact run_add_joined none rfl nofun
      | .source (some m) =>
          rw [Program.answer, Program.addText]
          have named := run_joined name m p
          cases found : p.modules.id? m with
          | none =>
              rw [found] at named
              exact run_bind_error named
          | some id =>
              rw [found] at named
              exact run_add_joined (some id) named fun _ => rfl

end Building

end DeclCheck
