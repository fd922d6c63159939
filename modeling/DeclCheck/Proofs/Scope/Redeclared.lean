import DeclCheck.Proofs.Scope.EitherOrder

/-! # Hoisted names of one function

    All the variables and functions of one name that are hoisted to a function
    belong to one declaration of it.  The first of them makes the declaration,
    or finds a parameter; each later one repeats the first.

    A function sees no more of all this than a *standing* of the name: nothing
    is declared yet, or a parameter is, or a hoisted name, which may have been
    marked to be repeated.  `answer_standing` and `next_standing` say how one
    declaration of the name is answered and what it makes of the standing, and
    `run_standing` says the same of a run, in which anything else may be called
    in between. -/

namespace DeclCheck

/-- Whether a name is in conflict with one that is hoisted past it. -/
def DeclarationKind.blocksHoisted (kind : DeclarationKind) : Bool :=
  kind.isBlockScoped || kind == .catchParameter

theorem DeclarationKind.blocksHoisted_of_isHoisted {kind : DeclarationKind}
    (hoisted : kind.isHoisted = true) : kind.blocksHoisted = false := by
  cases kind <;> first | rfl | cases hoisted

theorem DeclarationKind.blocksHoisted_of_yields {kind : DeclarationKind}
    (yields : kind.yields = true) : kind.blocksHoisted = false := by
  cases kind <;> first | rfl | cases yields

/-- Whether a call declares a name that may be repeated. -/
def ScopeCall.marked : ScopeCall → Bool
  | .declares _ new => new.suppressDuplicate
  | _ => false

namespace ScopeTree

/-! ## Standings -/

/-- What a name stands for in a function, as far as it matters to the names
    that are hoisted there. -/
inductive Standing where
  /-- Nothing, or something that yields. -/
  | free
  | parameter (id : Nat)
  /-- A hoisted declaration, and whether it may be repeated. -/
  | hoisted (id : Nat) (marked : Bool)

namespace Standing

/-- The answer to one more hoisted declaration of the name, where `fresh` is
    the number of the next declaration. -/
def answer (name : String) (fresh : Nat) (mark : Bool) : Standing → Outcome
  | free => .ok fresh
  | parameter id => .ok id
  | hoisted id marked => if marked || mark then .ok id else .error ⟨name, .hoisted, id, id⟩

/-- What the name stands for after one more hoisted declaration. -/
def next (fresh : Nat) (mark : Bool) : Standing → Standing
  | free => .hoisted fresh mark
  | parameter id => .parameter id
  | hoisted id marked => .hoisted id (marked || mark)

/-- Whether hoisted declarations of the name, each given as its mark and its
    answer, are answered one after the other as the standing asks. -/
def Explains (name : String) : Standing → List (Bool × Outcome) → Prop
  | _, [] => True
  | s, (mark, answer) :: later =>
      ∃ fresh, answer = s.answer name fresh mark ∧ (s.next fresh mark).Explains name later

variable {name : String} {id : Nat} {answers : List (Bool × Outcome)}

/-- A parameter may be repeated by hoisted names. -/
theorem Explains.of_parameter (h : (parameter id).Explains name answers) :
    answers.map Prod.snd = List.replicate answers.length (.ok id) := by
  induction answers with
  | nil => rfl
  | cons first answers ih =>
      obtain ⟨fresh, answer, later⟩ := h
      rw [List.map_cons, ih later, List.length_cons, List.replicate_succ]
      exact congrArg (· :: _) answer

/-- A hoisted name is repeated until one of the names so far is marked. -/
theorem Explains.of_hoisted {marked : Bool} (h : (hoisted id marked).Explains name answers)
    {i : Nat} {e : Bool × Outcome} (here : answers[i]? = some e) :
    e.2 = if marked = true ∨ true ∈ (answers.map Prod.fst).take (i + 1) then .ok id
      else .error ⟨name, .hoisted, id, id⟩ := by
  induction answers generalizing marked i with
  | nil => cases here
  | cons first answers ih =>
      obtain ⟨mark, given⟩ := first
      obtain ⟨fresh, answer, later⟩ := h
      rw [List.map_cons, List.take_succ_cons]
      cases i with
      | zero =>
          cases here
          rw [answer]
          simp [Standing.answer]
      | succ i =>
          rw [ih later here]
          simp [or_assoc]

/-- The first hoisted name makes a declaration, and the others repeat it until
    one of the names so far is marked. -/
theorem Explains.of_free (h : free.Explains name answers) :
    ∃ id, answers.map Prod.snd = (List.range answers.length).map fun i =>
      if i = 0 ∨ true ∈ (answers.map Prod.fst).take (i + 1) then .ok id
      else .error ⟨name, .hoisted, id, id⟩ := by
  cases answers with
  | nil => exact ⟨0, rfl⟩
  | cons first answers =>
      obtain ⟨mark, given⟩ := first
      obtain ⟨fresh, answer, later⟩ := h
      refine ⟨fresh, ?_⟩
      rw [List.length_cons, List.range_succ_eq_map, List.map_cons, List.map_cons, List.map_map]
      refine congrArg₂ List.cons answer (List.ext_getElem (by simp) fun i inside _ => ?_)
      rw [List.length_map] at inside
      rw [List.getElem_map, later.of_hoisted (List.getElem?_eq_getElem inside), List.getElem_map,
        List.getElem_range]
      simp

end Standing

variable {calls : List ScopeCall} {t : ScopeTree} {function : Nat} {name : String}

/-- Whether a name has a standing in a function. -/
def StandsAs (t : ScopeTree) (function : Nat) (name : String) : Standing → Prop
  | .free => ∀ i, t.lookup function name = some i → (t.holds i fun d => d.kind.yields) = true
  | .parameter id => t.lookup function name = some id ∧
      ∃ d, t.declaration? id = some d ∧ d.kind = .parameter
  | .hoisted id marked => t.lookup function name = some id ∧
      ∃ d, t.declaration? id = some d ∧ d.kind.isHoisted = true ∧ d.suppressDuplicate = marked

/-- A standing looks at nothing but what the name stands for. -/
theorem StandsAs.of_same {u : ScopeTree} {standing : Standing}
    (h : t.StandsAs function name standing)
    (names : u.lookup function name = t.lookup function name)
    (declarations : ∀ i, t.lookup function name = some i → u.declaration? i = t.declaration? i) :
    u.StandsAs function name standing := by
  cases standing with
  | free =>
      intro i hl
      rw [names] at hl
      rw [holds, declarations i hl]
      exact h i hl
  | parameter id =>
      obtain ⟨hl, found⟩ := h
      refine ⟨names.trans hl, ?_⟩
      rw [declarations id hl]
      exact found
  | hoisted id marked =>
      obtain ⟨hl, found⟩ := h
      refine ⟨names.trans hl, ?_⟩
      rw [declarations id hl]
      exact found

/-! ## The way of a name to its function -/

theorem walkUpTo_mono {α : Type} {visit : Nat → Scope → Option α} {m n : Nat} {start : Option Nat}
    {a : α} (le : m ≤ n) (found : t.walkUpTo visit m start = some a) :
    t.walkUpTo visit n start = some a := by
  induction m generalizing n start with
  | zero => cases start <;> cases found
  | succ m ih =>
      obtain ⟨n, rfl⟩ : ∃ k, n = k + 1 := ⟨n - 1, by omega⟩
      cases start with
      | none => cases found
      | some id =>
          rw [walkUpTo] at found ⊢
          cases hs : t.scope? id with
          | none =>
              rw [hs] at found
              cases found
          | some s =>
              rw [hs] at found
              dsimp only at found ⊢
              cases hv : visit id s with
              | some b =>
                  rw [hv] at found
                  exact found
              | none =>
                  rw [hv] at found
                  exact ih (Nat.le_of_succ_le_succ le) found

/-- A walk that finds where names are hoisted to finds the same place from
    every scope on the way. -/
theorem walkUpTo_of_mem_pathUpTo {n scope target id : Nat}
    (found : t.walkUpTo (fun id s => if s.kind.receivesHoisted then some id else none) n
      (some scope) = some target) (mem : id ∈ t.pathUpTo target n (some scope)) :
    ∃ m ≤ n, t.walkUpTo (fun id s => if s.kind.receivesHoisted then some id else none) m
      (some id) = some target := by
  induction n generalizing scope with
  | zero => cases mem
  | succ n ih =>
      have whole := found
      rw [walkUpTo] at found
      rw [pathUpTo] at mem
      split at mem
      · cases mem
      · rename_i other
        rcases List.mem_cons.mp mem with rfl | mem
        · exact ⟨n + 1, Nat.le_refl _, whole⟩
        · cases hs : t.scope? scope with
          | none =>
              rw [hs] at found
              cases found
          | some s =>
              rw [hs] at found
              rw [hs, Option.bind_some] at mem
              dsimp only at found
              split at found
              · rename_i receives
                split at receives
                · cases receives
                  cases found
                  exact absurd (beq_self_eq_true _) other
                · cases receives
              · cases hp : s.parent with
                | none =>
                    rw [hp] at mem
                    cases n <;> cases mem
                | some parent =>
                    rw [hp] at found mem
                    obtain ⟨m, le, there⟩ := ih found mem
                    exact ⟨m, Nat.le_succ_of_le le, there⟩

/-- What is hoisted out of the scopes that a name passes on its way to a
    function goes to that function. -/
theorem hoistTarget_on_way {scope : Nat} {new : Proposal} {id : Nat}
    (inside : t.hoistTarget scope = function) (lower : function ≠ globalScope)
    (mem : id ∈ t.way scope new) : t.hoistTarget id = function := by
  rw [way] at mem
  split at mem
  · rename_i hoisted
    rw [targetOf, if_pos hoisted, inside] at mem
    cases found : t.walk (fun id s => if s.kind.receivesHoisted then some id else none) scope with
    | none =>
        rw [hoistTarget, found] at inside
        exact absurd inside.symm lower
    | some target =>
        rw [hoistTarget, found] at inside
        cases inside
        obtain ⟨m, le, there⟩ := walkUpTo_of_mem_pathUpTo found mem
        rw [hoistTarget, walk, walkUpTo_mono le there, Option.getD_some]
  · cases mem

/-! ## One declaration -/

/-- Whether calls declare a name in a function and in its blocks in some ways
    only. -/
def DeclaresOnly (t : ScopeTree) (function : Nat) (name : String) (ways : DeclarationKind → Prop)
    (calls : List ScopeCall) : Prop :=
  ∀ s p, .declares s p ∈ calls → p.name = name → t.hoistTarget s = function → ways p.kind

/-- A hoisted name that nothing stands in the way of is accepted. -/
theorem declareFresh_of_free {target : Nat} {new : Proposal} (hoisted : new.kind.isHoisted = true)
    (lower : target ≠ globalScope) (uncaught : t.caught? target new.name = none) :
    (t.declareFresh target new).1 = .ok t.declarations.size := by
  obtain ⟨notBlock, notCatch⟩ :=
    Bool.or_eq_false_iff.mp (DeclarationKind.blocksHoisted_of_isHoisted hoisted)
  rw [caught?] at uncaught
  rw [declareFresh]
  dsimp only
  rw [if_pos hoisted, uncaught]
  dsimp only
  rw [notBlock, notCatch, if_neg (by simp), if_neg (by simp), if_neg (by simpa using lower)]
  rfl

/-- The answer to a hoisted name where something stands already. -/
theorem declareAgain_hoisted (target : Nat) {existing : Nat} {new : Proposal} {d : Declaration}
    (hd : t.declaration? existing = some d) (hoisted : new.kind.isHoisted = true) :
    (t.declareAgain target existing new).1 =
      if d.kind.yields then .ok t.declarations.size
      else if d.kind.isBlockScoped then .error ⟨new.name, .blockScoped, existing, existing⟩
      else if d.kind == .parameter then .ok existing
      else if d.suppressDuplicate || new.suppressDuplicate then .ok existing
      else .error ⟨new.name, .hoisted, existing, existing⟩ := by
  have notBlock := DeclarationKind.isBlockScoped_of_isHoisted hoisted
  rw [declareAgain, hd, hoisted, notBlock]
  dsimp only
  rw [Bool.false_or, Bool.and_true]
  split
  · rfl
  · split
    · rfl
    · split
      · rfl
      · split <;> rfl

namespace History

variable {parent : Option Nat}

/-- Nothing blocks the way of a name to its function. -/
theorem way_free (h : History calls t) (lower : function ≠ globalScope)
    (free : t.DeclaresOnly function name (·.blocksHoisted = false) calls) {scope : Nat}
    {new : Proposal} (inside : t.hoistTarget scope = function) :
    t.blockedBy? name (t.way scope new) = none :=
  h.blockedBy?_eq_none fun id mem p mem' named =>
    (Bool.or_eq_false_iff.mp (free id p mem' named (hoistTarget_on_way inside lower mem))).1

/-- What is noted for a name was declared by a catch clause. -/
theorem exists_clause (h : History calls t) {id i : Nat} {n : String}
    (noted : t.caught? id n = some i) :
    ∃ scope new, .declares scope new ∈ calls ∧ new.name = n ∧ new.kind = .catchParameter ∧
      t.hoistTarget scope = id := by
  induction h generalizing i with
  | start =>
      match id with
      | 0 | 1 | _ + 2 => cases noted
  | @next calls t h call admitted ih =>
      rcases h.caught?_perform call id n with same | ⟨scope, new, rfl, notes, rfl, before, now⟩
      · obtain ⟨scope, new, mem, named, kind, target⟩ := ih (same ▸ noted)
        refine ⟨scope, new, List.mem_append_left _ mem, named, kind, ?_⟩
        rw [h.hoistTarget_perform call (h.lt_of_declares mem), target]
      · refine ⟨scope, new, List.mem_append_right _ (List.mem_singleton_self _), rfl, ?_, ?_⟩
        · simp only [ScopeTree.notes, Bool.and_eq_true, beq_iff_eq] at notes
          exact notes.1.1
        · rw [h.hoistTarget_perform _ admitted]
          have after := caught?_declare_of_notes notes (h.hoistTarget_lt scope) id new.name
          split at after
          · rename_i here
            exact here.1.symm
          · rw [before] at after
            cases now.symm.trans after

/-- A hoisted declaration of a name is answered as its standing asks. -/
theorem answer_standing (h : History calls t) (lower : function ≠ globalScope)
    (free : t.DeclaresOnly function name (·.blocksHoisted = false) calls) {standing : Standing}
    (stands : t.StandsAs function name standing) {scope : Nat} {new : Proposal}
    (seen : t.hidesArguments scope new = false) (named : new.name = name)
    (hoisted : new.kind.isHoisted = true) (inside : t.hoistTarget scope = function) :
    (t.declare scope new).1 = standing.answer name t.declarations.size new.suppressDuplicate := by
  subst named
  have target : t.targetOf scope new.kind = function := by rw [targetOf, if_pos hoisted, inside]
  have again {i : Nat} {d : Declaration} (hd : t.declaration? i = some d) :=
    declareAgain_hoisted (t := t.passThrough new.name (t.way scope new)) function hd hoisted
  rw [declare_of_seen seen, h.way_free lower free inside, target]
  dsimp only
  rw [lookup_passThrough]
  cases standing with
  | free =>
      cases hl : t.lookup function new.name with
      | none =>
          refine declareFresh_of_free hoisted lower ?_
          rw [caught?_passThrough]
          cases noted : t.caught? function new.name with
          | none => rfl
          | some clause =>
              obtain ⟨s, p, mem, named, kind, within⟩ := h.exists_clause noted
              have open' : p.kind.blocksHoisted = false := free s p mem named within
              rw [kind] at open'
              cases open'
      | some i =>
          have yields := stands i hl
          rw [holds, Option.any_eq_true] at yields
          obtain ⟨d, hd, yields⟩ := yields
          exact (again hd).trans (if_pos yields)
  | parameter id =>
      obtain ⟨hl, d, hd, kind⟩ := stands
      rw [hl]
      refine (again hd).trans ?_
      rw [kind]
      rfl
  | hoisted id marked =>
      obtain ⟨hl, d, hd, kind, rfl⟩ := stands
      rw [hl]
      refine (again hd).trans ?_
      cases hk : d.kind <;> rw [hk] at kind <;> first | rfl | cases kind

/-- A hoisted declaration of a name changes its standing. -/
theorem next_standing (h : History calls t) {standing : Standing}
    (stands : t.StandsAs function name standing) {scope : Nat} {new : Proposal}
    (lt : scope < t.scopes.size) (seen : t.hidesArguments scope new = false)
    (named : new.name = name) (hoisted : new.kind.isHoisted = true)
    (inside : t.hoistTarget scope = function) :
    (t.declare scope new).2.StandsAs function name
      (standing.next t.declarations.size new.suppressDuplicate) := by
  subst named
  have target : t.targetOf scope new.kind = function := by rw [targetOf, if_pos hoisted, inside]
  cases declare_change (h.targetOf_lt lt new.kind) with
  | made free names declarations =>
      have made : (t.declare scope new).2.StandsAs function new.name
          (.hoisted t.declarations.size new.suppressDuplicate) := by
        refine ⟨?_, t.made function new, ?_, hoisted, rfl⟩
        · rw [names, target, if_pos ⟨rfl, rfl⟩]
        · rw [declaration?, declaration?_push declarations, if_pos rfl, target]
      have yields := free.resolve_left (Bool.eq_false_iff.mp seen)
      rw [target] at yields
      -- what stands for good is not replaced
      cases standing with
      | free => exact made
      | parameter id =>
          obtain ⟨hl, d, hd, kind⟩ := stands
          have yields := yields id hl
          rw [holds, hd, Option.any_some, kind] at yields
          cases yields
      | hoisted id marked =>
          obtain ⟨hl, d, hd, kind, _⟩ := stands
          have yields := yields id hl
          rw [holds, hd, Option.any_some] at yields
          rw [DeclarationKind.isHoisted_of_yields yields] at kind
          cases kind
  | merged existing found _ stays names declarations =>
      rw [target] at found
      have gained {d : Declaration} (hd : t.declaration? existing = some d) :
          (t.declare scope new).2.declaration? existing = some (d.withSite new) := by
        rw [declaration?, declaration?_modify declarations, if_pos rfl, hd]
        rfl
      cases standing with
      | free =>
          rw [stands existing found] at stays
          cases stays
      | parameter id =>
          obtain ⟨hl, d, hd, kind⟩ := stands
          cases found.symm.trans hl
          exact ⟨(names _ _).trans found, d.withSite new, gained hd, kind⟩
      | hoisted id marked =>
          obtain ⟨hl, d, hd, kind, rfl⟩ := stands
          cases found.symm.trans hl
          exact ⟨(names _ _).trans found, d.withSite new, gained hd, kind, rfl⟩

/-- A call that declares nothing of the name in the function keeps its
    standing. -/
theorem keep_standing (h : History calls t) {call : ScopeCall} (admitted : t.Admits call)
    (plain : name ≠ argumentsName) (inner : function ≠ externScope)
    (other : ∀ s p, call = .declares s p → p.name = name → t.targetOf s p.kind ≠ function)
    {standing : Standing} (stands : t.StandsAs function name standing) :
    (t.perform call).2.StandsAs function name standing := by
  have known {i : Nat} (hl : t.lookup function name = some i) : i ≠ t.declarations.size :=
    Nat.ne_of_lt (h.consistent.known hl)
  cases call with
  | opens opener parent node =>
      have declarations := declarations_openFor t opener parent node
      refine stands.of_same ?_ fun i hl => ?_
      · exact (lookup_openFor t opener parent node function name).trans
          (if_neg fun new => plain new.2.2)
      · split at declarations
        · exact (declaration?_push declarations i).trans (if_neg (known hl))
        · exact congrArg (·[i]?) declarations
  | declares scope new =>
      have apart : ¬ (function = t.targetOf scope new.kind ∧ name = new.name) :=
        fun here => other scope new rfl here.2.symm here.1.symm
      cases declare_change (h.targetOf_lt admitted new.kind) with
      | made _ names declarations =>
          refine stands.of_same ((names function name).trans (if_neg apart)) fun i hl => ?_
          exact (declaration?_push declarations i).trans (if_neg (known hl))
      | merged existing found _ _ names declarations =>
          refine stands.of_same (names function name) fun i hl => ?_
          refine (declaration?_modify declarations i).trans (if_neg ?_)
          -- a declaration has one name and one scope
          rintro rfl
          obtain ⟨d, hd, named, here⟩ := h.consistent.named _ _ _ hl
          obtain ⟨d', hd', named', here'⟩ := h.consistent.named _ _ _ found
          cases hd.symm.trans hd'
          exact apart ⟨here.symm.trans here', named.symm.trans named'⟩
  | declaresAmbient ambient unit site =>
      refine stands.of_same ?_ fun i hl => ?_
      · exact (lookup_create (lt_of_frame? h.tops.1) (ambientProposal ambient unit site) function
          name).trans (if_neg fun here => inner here.1)
      · exact (declaration?_create t externScope (ambientProposal ambient unit site) i).trans
          (if_neg (known hl))

end History

/-! ## Runs -/

/-- A call adds no way of declaring the name, unless it declares it in one. -/
theorem DeclaresOnly.perform {ways : DeclarationKind → Prop}
    (only : t.DeclaresOnly function name ways calls) (h : History calls t) {call : ScopeCall}
    (admitted : t.Admits call)
    (last : ∀ s p, call = .declares s p → p.name = name → t.hoistTarget s = function →
      ways p.kind) :
    (t.perform call).2.DeclaresOnly function name ways (calls ++ [call]) := by
  intro s p mem named within
  rcases List.mem_append.mp mem with earlier | here
  · rw [h.hoistTarget_perform call (h.lt_of_declares earlier)] at within
    exact only s p earlier named within
  · cases List.mem_singleton.mp here
    rw [h.hoistTarget_perform _ admitted] at within
    exact last s p rfl named within

/-- What is hoisted out of no block of a function, and is hoisted if it is
    declared in the function itself, does not belong to it. -/
theorem targetOf_ne {scope : Nat} {kind : DeclarationKind}
    (own : t.hoistTarget function = function)
    (only : t.hoistTarget scope = function → kind.isHoisted = true)
    (away : ¬ (kind.isHoisted = true ∧ t.hoistTarget scope = function)) :
    t.targetOf scope kind ≠ function := by
  intro target
  rw [targetOf] at target
  split at target
  · rename_i hoisted
    exact away ⟨hoisted, target⟩
  · rename_i stays
    subst target
    exact stays (only own)

theorem History.hoistTarget_run (h : History calls t) {later : List ScopeCall}
    (admitted : t.AdmitsAll later) {scope : Nat} (lt : scope < t.scopes.size) :
    (t.run later).2.hoistTarget scope = t.hoistTarget scope := by
  induction later generalizing calls t with
  | nil => rfl
  | cons call later ih =>
      obtain ⟨here, rest⟩ := admitted
      show ((t.perform call).2.run later).2.hoistTarget scope = _
      rw [ih (h.next here) rest ((grows_perform t call).lt_size lt), h.hoistTarget_perform call lt]

/-- The hoisted declarations of a name that calls made in a function and in its
    blocks, each as its mark and its answer. -/
def redeclarations (t : ScopeTree) (function : Nat) (name : String) (calls : List ScopeCall)
    (answers : List Outcome) : List (Bool × Outcome) :=
  ((calls.zip answers).filter fun e => t.hoists function name e.1).map fun e => (e.1.marked, e.2)

namespace History

variable {parent : Option Nat}

/-- The hoisted declarations of a name in a run are answered as its standing
    asks, whatever else is called. -/
theorem run_standing (h : History calls t) (frame : t.frame? function = some (.function, parent))
    (plain : name ≠ argumentsName) {later : List ScopeCall} (admitted : t.AdmitsAll later)
    (free : t.DeclaresOnly function name (·.blocksHoisted = false) calls)
    (only : (t.run later).2.DeclaresOnly function name (·.isHoisted = true) later)
    {standing : Standing} (stands : t.StandsAs function name standing) :
    standing.Explains name
      ((t.run later).2.redeclarations function name later (t.run later).1) := by
  induction later generalizing calls t standing with
  | nil => exact trivial
  | cons call later ih =>
      have here := admitted.1
      have rest := admitted.2
      have lower := h.ne_globalScope frame nofun
      have inner := h.ne_externScope frame nofun
      have own := hoistTarget_of_receives frame rfl
      -- the calls are looked at in the last tree, where scopes hoist as in this one
      have final {s : Nat} (lt : s < t.scopes.size) :
          ((t.perform call).2.run later).2.hoistTarget s = t.hoistTarget s :=
        h.hoistTarget_run admitted lt
      have frame' : (t.perform call).2.frame? function = some (.function, parent) :=
        (grows_perform t call _ (lt_of_frame? frame)).trans frame
      have hoisted (s : Nat) (p : Proposal) (declares : call = .declares s p)
          (named : p.name = name) (within : t.hoistTarget s = function) :
          p.kind.isHoisted = true := by
        subst declares
        exact only s p (.head _) named ((final here).trans within)
      have free' := free.perform h here fun s p declares named within =>
        DeclarationKind.blocksHoisted_of_isHoisted (hoisted s p declares named within)
      have rest' {standing : Standing}
          (stands : (t.perform call).2.StandsAs function name standing) :=
        ih (h.next here) frame' rest free' (fun s p mem => only s p (.tail _ mem)) stands
      show standing.Explains name (((t.perform call).2.run later).2.redeclarations function name
        (call :: later) ((t.perform call).1 :: ((t.perform call).2.run later).1))
      rw [redeclarations, List.zip_cons_cons, List.filter_cons]
      cases counted : ((t.perform call).2.run later).2.hoists function name call with
      | true =>
          cases call with
          | opens | declaresAmbient => cases counted
          | declares scope new =>
              obtain ⟨named, this⟩ := (Bool.and_eq_true _ _).mp counted
              obtain ⟨hoisted, there⟩ := (Bool.and_eq_true _ _).mp this
              have named := beq_iff_eq.mp named
              have inside := (final here).symm.trans (beq_iff_eq.mp there)
              have seen : t.hidesArguments scope new = false := by
                simp [hidesArguments, named, plain]
              refine ⟨t.declarations.size, ?_, ?_⟩
              · exact h.answer_standing lower free stands seen named hoisted inside
              · exact rest' (h.next_standing stands here seen named hoisted inside)
      | false =>
          refine rest' (h.keep_standing here plain inner ?_ stands)
          rintro s p rfl named
          refine targetOf_ne own (hoisted s p rfl named) ?_
          rintro ⟨hoisted, inside⟩
          have away := Bool.eq_false_iff.mp counted
          exact away (by simp [hoists, ScopeCall.declaresAs, named, hoisted, final here, inside])

end History

theorem length_run (t : ScopeTree) (later : List ScopeCall) :
    (t.run later).1.length = later.length := by
  induction later generalizing t with
  | nil => rfl
  | cons call later ih => exact congrArg Nat.succ (ih _)

/-- Every hoisted declaration of the name has its place. -/
theorem map_fst_redeclarations {later : List ScopeCall} {answers : List Outcome}
    (same : answers.length = later.length) :
    (t.redeclarations function name later answers).map Prod.fst =
      (later.filter (t.hoists function name)).map ScopeCall.marked := by
  induction later generalizing answers with
  | nil => rfl
  | cons call later ih =>
      cases answers with
      | nil => cases same
      | cons answer answers =>
          have rest := ih (Nat.succ.inj same)
          rw [redeclarations] at rest ⊢
          rw [List.zip_cons_cons, List.filter_cons, List.filter_cons]
          split
          · exact congrArg (call.marked :: ·) rest
          · exact rest

/-- Whether a call declares a name as a parameter at a scope. -/
def takesAt (scope : Nat) (name : String) : ScopeCall → Bool :=
  ScopeCall.declaresAs name fun s kind => kind == .parameter && s == scope

namespace History

variable {parent : Option Nat}

/-- What a name stands for in a function before any hoisted declaration of
    it. -/
theorem standing_before (h : History calls t)
    (frame : t.frame? function = some (.function, parent)) (plain : name ≠ argumentsName)
    (before : t.DeclaresOnly function name (fun kind => kind = .parameter ∨ kind.yields = true)
      calls) :
    if calls.any (takesAt function name) then ∃ id, t.StandsAs function name (.parameter id)
    else t.StandsAs function name .free := by
  have own := hoistTarget_of_receives frame rfl
  have inner := h.ne_externScope frame nofun
  -- the name stands for a parameter of the function, or for something that yields
  have origin {i : Nat} (hl : t.lookup function name = some i) :
      ∃ d, t.declaration? i = some d ∧
        (d.kind = .parameter ∧ calls.any (takesAt function name) = true ∨
          d.kind.yields = true) := by
    obtain ⟨d, s, p, hd, _, mem, named, same, target⟩ := h.declares_of_lookup plain inner hl
    refine ⟨d, hd, same ▸ ?_⟩
    rw [targetOf] at target
    split at target
    · rename_i hoisted
      rcases before s p mem named target with kind | yields
      · rw [kind] at hoisted
        cases hoisted
      · rw [DeclarationKind.isHoisted_of_yields yields] at hoisted
        cases hoisted
    · subst target
      refine (before s p mem named own).imp (fun kind => ⟨kind, ?_⟩) id
      exact any_declaresAs.mpr ⟨s, p, mem, named, by simp [kind]⟩
  split
  · rename_i any
    obtain ⟨s, p, mem, rfl, this⟩ := any_declaresAs.mp any
    obtain ⟨kind, rfl⟩ : p.kind = .parameter ∧ s = function := by simpa using this
    have target : t.targetOf s p.kind = s := by
      rw [targetOf, kind]
      rfl
    obtain ⟨_, i, d, hl, hd, rfl, stays⟩ :=
      h.stands_of_declares mem plain (.inr (.inr kind)) (target.symm ▸ inner)
    rw [target] at hl
    obtain ⟨d', hd', ⟨parameter, _⟩ | yields⟩ := origin hl
    · exact ⟨i, hl, d', hd', parameter⟩
    · cases hd.symm.trans hd'
      rw [stays] at yields
      cases yields
  · rename_i none
    intro i hl
    obtain ⟨d, hd, ⟨_, any⟩ | yields⟩ := origin hl
    · exact absurd any none
    · rw [holds, hd]
      exact yields

/-- A name is hoisted to a function any number of times, out of any of its
    blocks and whatever else is called in between, while no other declaration of
    it is made there.  If it is the name of a parameter, this is the declaration
    of them all.  Otherwise the first one makes the declaration, even if the
    function has the name for itself, and each later one is in conflict with it
    unless one of them so far may be repeated. -/
theorem redeclared_in_function (h : History calls t)
    (frame : t.frame? function = some (.function, parent)) (plain : name ≠ argumentsName)
    {later : List ScopeCall} (admitted : t.AdmitsAll later)
    (before : t.DeclaresOnly function name (fun kind => kind = .parameter ∨ kind.yields = true)
      calls)
    (only : (t.run later).2.DeclaresOnly function name (·.isHoisted = true) later) :
    let marks := (later.filter ((t.run later).2.hoists function name)).map ScopeCall.marked
    let answers :=
      ((t.run later).2.redeclarations function name later (t.run later).1).map Prod.snd
    if calls.any (takesAt function name) then
      ∃ id, answers = List.replicate marks.length (.ok id)
    else ∃ id,
      (answers = (List.range marks.length).map fun i =>
        if i = 0 ∨ true ∈ marks.take (i + 1) then .ok id
        else .error ⟨name, .hoisted, id, id⟩) ∧
      (true ∉ marks → answers = (List.range marks.length).map fun i =>
        if i = 0 then .ok id else .error ⟨name, .hoisted, id, id⟩) := by
  have free : t.DeclaresOnly function name (·.blocksHoisted = false) calls := by
    intro s p mem named inside
    rcases before s p mem named inside with kind | yields
    · show p.kind.blocksHoisted = false
      rw [kind]
      rfl
    · exact DeclarationKind.blocksHoisted_of_yields yields
  have explained {standing : Standing} (stands : t.StandsAs function name standing) :=
    h.run_standing frame plain admitted free only stands
  have start := h.standing_before frame plain before
  rw [← map_fst_redeclarations (length_run t later)]
  dsimp only
  rw [List.length_map]
  split
  · rename_i any
    rw [if_pos any] at start
    obtain ⟨id, stands⟩ := start
    exact ⟨id, (explained stands).of_parameter⟩
  · rename_i none
    rw [if_neg none] at start
    obtain ⟨id, each⟩ := (explained start).of_free
    refine ⟨id, each, fun unmarked => each.trans ?_⟩
    refine List.map_congr_left fun i _ => if_congr (or_iff_left fun marked => ?_) rfl rfl
    exact unmarked (List.mem_of_mem_take marked)

end History

/-- A function with a name of some kind and with a block. -/
def functionNaming (kind : DeclarationKind) : List ScopeCall :=
  [.opens .function globalScope ⟨0, 0⟩, .declares 2 (unmarkedAt 0 kind "n"),
    .opens .block 2 ⟨0, 1⟩]

/-- Its name is hoisted out of the block, out of a block in the block and out
    of the function itself, where it may be repeated. -/
def hoistedThrice : List ScopeCall :=
  [.declares 3 (unmarkedAt 3 .varName "n"), .opens .block 3 ⟨0, 2⟩,
    .declares 4 (unmarkedAt 4 .functionName "n"),
    .declares 2 { unmarkedAt 5 .varName "n" with suppressDuplicate := true }]

/-- The answers that this gets. -/
def answersThrice (kind : DeclarationKind) : List Outcome :=
  let run := (initial.run (functionNaming kind)).2.run hoistedThrice
  (run.2.redeclarations 2 "n" hoistedThrice run.1).map Prod.snd

/-- The second name is in conflict with the first one and the third is not, if
    the function has the name for itself; none is if it is a parameter. -/
theorem redeclared_in_function_nested :
    (∃ id, answersThrice .ownName = [.ok id, .error ⟨"n", .hoisted, id, id⟩, .ok id]) ∧
      ∃ id, answersThrice .parameter = [.ok id, .ok id, .ok id] := by
  have only (t : ScopeTree) : t.DeclaresOnly 2 "n" (·.isHoisted = true) hoistedThrice := by
    intro s p mem _ _
    simp only [hoistedThrice, List.mem_cons, List.not_mem_nil, or_false, reduceCtorEq, false_or,
      ScopeCall.declares.injEq] at mem
    rcases mem with ⟨rfl, rfl⟩ | ⟨rfl, rfl⟩ | ⟨rfl, rfl⟩ <;> rfl
  have before (kind : DeclarationKind) (t : ScopeTree)
      (fits : kind = .parameter ∨ kind.yields = true) :
      t.DeclaresOnly 2 "n" (fun kind => kind = .parameter ∨ kind.yields = true)
        (functionNaming kind) := by
    intro s p mem _ _
    simp only [functionNaming, List.mem_cons, List.not_mem_nil, or_false, reduceCtorEq, false_or,
      ScopeCall.declares.injEq] at mem
    obtain ⟨rfl, rfl⟩ := mem
    exact fits
  constructor
  · have history : History (functionNaming .ownName) _ := history_run (by decide)
    have frame : (initial.run (functionNaming .ownName)).2.frame? 2 =
        some (.function, some globalScope) := by decide
    have law := history.redeclared_in_function frame (by decide) (by decide)
      (before .ownName _ (.inr rfl)) (only _)
    rw [if_neg (by decide)] at law
    obtain ⟨id, each, _⟩ := law
    exact ⟨id, each⟩
  · have history : History (functionNaming .parameter) _ := history_run (by decide)
    have frame : (initial.run (functionNaming .parameter)).2.frame? 2 =
        some (.function, some globalScope) := by decide
    have law := history.redeclared_in_function frame (by decide) (by decide)
      (before .parameter _ (.inl rfl)) (only _)
    rw [if_pos (by decide)] at law
    exact law

end ScopeTree

end DeclCheck
