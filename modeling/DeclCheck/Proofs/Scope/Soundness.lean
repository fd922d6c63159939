import DeclCheck.Proofs.Scope.Origins
import DeclCheck.Proofs.Scope.Side

/-! # What every history keeps

    Declaring a name has about a dozen ways to end, and each of them updates
    several tables.  Whichever one it is, the tree stays *sound*: scopes and
    the lists of their children agree, tables name declarations of their own
    scope, hoisted names live where they are hoisted to, and every function
    declares its arguments.

    A declared site goes to exactly one declaration, the one that its name
    stands for afterwards, and nothing else changes.  So the sites of a tree
    are those of the calls that made it, each one once. -/

namespace DeclCheck

namespace ScopeTree

variable {calls : List ScopeCall} {t : ScopeTree}

/-! ## Children and tables -/

/-- The scopes that a scope lists as lying in it. -/
def children (t : ScopeTree) (id : Nat) : List Nat := ((t.scope? id).map Scope.children).getD []

/-- The names of a scope, each with what it stands for. -/
def table (t : ScopeTree) (id : Nat) : List (String × Nat) :=
  ((t.scope? id).map Scope.table).getD []

/-- Names are looked up in the table of their scope. -/
theorem lookup_table (t : ScopeTree) (id : Nat) (name : String) :
    (t.table id).lookup name = t.lookup id name := by
  rw [table, lookup]
  cases t.scope? id <;> rfl

/-- The core has the children of the tree. -/
theorem children_core (t : ScopeTree) (id : Nat) : t.core.children id = t.children id := by
  rw [children, core_scope?, children]
  cases t.scope? id <;> rfl

/-- And its tables. -/
theorem table_core (t : ScopeTree) (id : Nat) : t.core.table id = t.table id := by
  rw [table, core_scope?, table]
  cases t.scope? id <;> rfl

/-- A declaration adds no children. -/
theorem children_create (t : ScopeTree) (target : Nat) (new : Proposal) (id : Nat) :
    (t.create target new).2.children id = t.children id := by
  show (((ScopeTree.bind _ target new.name _).scope? id).map Scope.children).getD [] = _
  rw [ScopeTree.bind, scope?_modify, children]
  split
  · show Option.getD (Option.map _ (Option.map _ (t.scope? id))) [] = _
    cases t.scope? id <;> rfl
  · rfl

/-- It enters its name in the table of its scope, if there is one. -/
theorem table_create (t : ScopeTree) (target : Nat) (new : Proposal) (id : Nat) :
    (t.create target new).2.table id = t.table id ∨
      (t.create target new).2.table id = Scope.put new.name t.declarations.size (t.table id) := by
  have scopes : (t.create target new).2.scope? id = if target = id then
      (t.scope? id).map (fun s => s.bind new.name t.declarations.size) else t.scope? id :=
    scope?_modify _ target _ id
  rw [table, scopes, table]
  split
  · cases t.scope? id with
    | none => exact .inl rfl
    | some s => exact .inr rfl
  · exact .inl rfl

/-- What a declaration keeps: whatever is seen on the core of a tree and
    survives both a new declaration and a new site. -/
theorem declare_keeps {P : ScopeTree → Prop} (core : ∀ t, P t.core ↔ P t)
    (create : ∀ t target new, P t → P (t.create target new).2)
    (merge : ∀ t existing new, P t → P (t.merge existing new)) (h : P t) (scope : Nat)
    (new : Proposal) : P (t.declare scope new).2 := by
  rw [← core, core_declare, record]
  have h := (core t).mpr h
  split
  · exact create _ _ _ h
  · rw [settle]
    split
    · split
      · exact create _ _ _ h
      · exact merge _ _ _ h
    · exact create _ _ _ h

/-- No call to declare adds children. -/
theorem children_declare (t : ScopeTree) (scope : Nat) (new : Proposal) (id : Nat) :
    (t.declare scope new).2.children id = t.children id :=
  declare_keeps (P := fun u => u.children id = t.children id)
    (fun u => by rw [children_core])
    (fun u target new same => (children_create u target new id).trans same)
    (fun _ _ _ same => same) rfl scope new

/-- A new scope has no children, and it is the last child of the scope that it
    lies in. -/
theorem children_openFor {parent : Nat} (lt : parent < t.scopes.size) (opener : ScopeOpener)
    (node : UnitNode) (id : Nat) :
    (t.openFor opener parent node).2.children id =
      if id = parent then t.children id ++ [t.scopes.size] else t.children id := by
  have opened (kind : ScopeKind) : (t.openScope kind (some parent) node).2.children id =
      if id = parent then t.children id ++ [t.scopes.size] else t.children id := by
    rw [children, scope?_openScope, children]
    by_cases new : id = t.scopes.size
    · have apart : id ≠ parent := by omega
      have nothing : t.scope? id = none := Array.getElem?_eq_none (Nat.le_of_eq new.symm)
      rw [if_pos new, if_neg apart, if_neg apart, nothing]
      rfl
    · rw [if_neg new]
      by_cases here : id = parent
      · have there : t.scope? id = some t.scopes[parent] := by
          rw [here]
          exact Array.getElem?_eq_getElem lt
        rw [if_pos here, there]
        show Option.getD (Option.map _ (some (if _ then _ else _))) [] = _
        rw [if_pos here]
        rfl
      · cases t.scope? id with
        | none => simp [here]
        | some s => simp [here]
  cases opener with
  | function =>
      rw [openFunction_eq, children_create]
      exact opened .function
  | block => exact opened .block
  | catchClause => exact opened .catchClause

/-! ## Scopes and their children -/

/-- The lists of children say where scopes lie. -/
structure Nested (t : ScopeTree) : Prop where
  listed : ∀ id kind parent, t.frame? id = some (kind, some parent) →
    (t.children parent).count id = 1
  lists : ∀ id inner, inner ∈ t.children id → ∃ kind, t.frame? inner = some (kind, some id)

/-- Nesting depends on frame and children alone. -/
theorem Nested.of_same {u : ScopeTree} (h : t.Nested) (frame : SameFrame u t)
    (children : ∀ id, u.children id = t.children id) : u.Nested where
  listed := by
    intro id kind parent hf
    rw [children]
    exact h.listed id kind parent ((frame id).symm.trans hf)
  lists := by
    intro id inner mem
    rw [children] at mem
    obtain ⟨kind, hf⟩ := h.lists id inner mem
    exact ⟨kind, (frame inner).trans hf⟩

/-- A new scope is a child of its parent, and of no other. -/
theorem Nested.openFor (h : t.Nested) {parent : Nat} (lt : parent < t.scopes.size)
    (opener : ScopeOpener) (node : UnitNode) : (t.openFor opener parent node).2.Nested := by
  have frames := frame?_openFor t opener parent node
  have children := children_openFor lt opener node
  -- no scope lists the number of a scope that is not there yet
  have unlisted (id : Nat) : t.scopes.size ∉ t.children id := by
    intro mem
    obtain ⟨kind, hf⟩ := h.lists id _ mem
    exact Nat.lt_irrefl _ (lt_of_frame? hf)
  constructor
  · intro id kind p hf
    rw [frames] at hf
    rw [children]
    split at hf
    · rename_i new
      cases hf
      rw [if_pos rfl, List.count_append, new, List.count_eq_zero_of_not_mem (unlisted parent)]
      simp
    · rename_i old
      have once := h.listed id kind p hf
      split
      · rw [List.count_append, once, List.count_eq_zero_of_not_mem]
        rw [List.mem_singleton]
        exact old
      · exact once
  · intro id inner mem
    rw [children] at mem
    have past (mem : inner ∈ t.children id) :
        ∃ kind, (t.openFor opener parent node).2.frame? inner = some (kind, some id) := by
      obtain ⟨kind, hf⟩ := h.lists id inner mem
      refine ⟨kind, ?_⟩
      rw [frames, if_neg (Nat.ne_of_lt (lt_of_frame? hf)), hf]
    split at mem
    · rename_i here
      rcases List.mem_append.mp mem with mem | mem
      · exact past mem
      · rw [List.mem_singleton] at mem
        rw [frames, if_pos mem, here]
        exact ⟨_, rfl⟩
    · exact past mem

/-- At the start the two top scopes nest. -/
theorem nested_initial : initial.Nested where
  listed := by
    intro id kind parent hf
    match id with
    | 0 => cases hf
    | 1 =>
        cases hf
        rfl
    | _ + 2 => cases hf
  lists := by
    intro id inner mem
    match id with
    | 0 =>
        cases List.mem_singleton.mp mem
        exact ⟨_, rfl⟩
    | 1 => cases mem
    | _ + 2 => cases mem

/-- So scopes nest after every history of calls. -/
theorem History.nested (h : History calls t) : t.Nested := by
  induction h with
  | start => exact nested_initial
  | @next calls t h call admitted ih =>
      cases call with
      | opens opener parent node => exact ih.openFor admitted opener node
      | declares scope new =>
          exact ih.of_same (sameFrame_declare t scope new) (children_declare t scope new)
      | declaresAmbient name unit site =>
          exact ih.of_same (sameFrame_declareExtern t name unit site)
            (children_create t externScope (ambientProposal name unit site))

/-! ## Tables -/

/-- A name that is entered is a key, and the others stay. -/
theorem mem_keys_put (name n : String) (id : Nat) (entries : List (String × Nat)) :
    n ∈ (Scope.put name id entries).map Prod.fst ↔ n = name ∨ n ∈ entries.map Prod.fst := by
  induction entries with
  | nil => simp [Scope.put]
  | cons e rest ih =>
      obtain ⟨key, d⟩ := e
      by_cases here : key = name
      · simp [Scope.put, here]
      · simp only [Scope.put, beq_eq_false_iff_ne.mpr here, Bool.false_eq_true, if_false,
          List.map_cons, List.mem_cons, ih]
        exact or_left_comm

/-- No name is entered twice. -/
theorem nodup_keys_put (name : String) (id : Nat) {entries : List (String × Nat)}
    (h : (entries.map Prod.fst).Nodup) : ((Scope.put name id entries).map Prod.fst).Nodup := by
  induction entries with
  | nil => simp [Scope.put]
  | cons e rest ih =>
      obtain ⟨key, d⟩ := e
      obtain ⟨apart, rest'⟩ := List.nodup_cons.mp h
      by_cases here : key = name
      · subst here
        simp only [Scope.put, beq_self_eq_true, if_true, List.map_cons]
        exact List.nodup_cons.mpr ⟨apart, rest'⟩
      · simp only [Scope.put, beq_eq_false_iff_ne.mpr here, Bool.false_eq_true, if_false,
          List.map_cons, List.nodup_cons, mem_keys_put]
        exact ⟨not_or.mpr ⟨here, apart⟩, ih rest'⟩

/-- A table with different names gives each name what its entry says. -/
theorem lookup_of_mem {entries : List (String × Nat)} (h : (entries.map Prod.fst).Nodup)
    {name : String} {id : Nat} (mem : (name, id) ∈ entries) : entries.lookup name = some id := by
  obtain ⟨before, after, rfl⟩ := List.append_of_mem mem
  rw [List.map_append, List.map_cons] at h
  refine List.lookup_eq_some_iff.mpr ⟨before, after, rfl, fun e he => ?_⟩
  have apart := (List.nodup_append.mp h).2.2 e.1 (List.mem_map_of_mem he) name (.head _)
  exact bne_iff_ne.mpr apart.symm

/-- No table has two entries of one name. -/
def UniqueNames (t : ScopeTree) : Prop := ∀ id, ((t.table id).map Prod.fst).Nodup

/-- A declaration keeps names unique in their scopes. -/
theorem UniqueNames.create (h : t.UniqueNames) (target : Nat) (new : Proposal) :
    (t.create target new).2.UniqueNames := by
  intro id
  rcases table_create t target new id with same | put
  · rw [same]
    exact h id
  · rw [put]
    exact nodup_keys_put _ _ (h id)

/-- So does a new scope. -/
theorem UniqueNames.openFor (h : t.UniqueNames) (opener : ScopeOpener) (parent : Nat)
    (node : UnitNode) : (t.openFor opener parent node).2.UniqueNames := by
  have opened (kind : ScopeKind) : (t.openScope kind (some parent) node).2.UniqueNames := by
    intro id
    rw [table, scope?_openScope]
    split
    · exact List.nodup_nil
    · have same := h id
      rw [table] at same
      cases hs : t.scope? id with
      | none => exact List.nodup_nil
      | some s =>
          rw [hs] at same
          show ((Scope.table (if _ then _ else _)).map Prod.fst).Nodup
          split <;> exact same
  cases opener with
  | function =>
      rw [openFunction_eq]
      exact (opened .function).create t.scopes.size (argumentsProposal node)
  | block => exact opened .block
  | catchClause => exact opened .catchClause

theorem History.uniqueNames (h : History calls t) : t.UniqueNames := by
  induction h with
  | start =>
      intro id
      match id with
      | 0 | 1 | _ + 2 => exact List.nodup_nil
  | @next calls t h call admitted ih =>
      cases call with
      | opens opener parent node => exact ih.openFor opener parent node
      | declares scope new =>
          exact declare_keeps (P := UniqueNames)
            (fun u => by simp only [UniqueNames, table_core])
            (fun _ target new unique => unique.create target new)
            (fun _ _ _ unique => unique) ih scope new
      | declaresAmbient name unit site =>
          exact ih.create externScope (ambientProposal name unit site)

/-- Every function declares its arguments. -/
theorem History.declares_arguments (h : History calls t) {id : Nat} {parent : Option Nat}
    (hf : t.frame? id = some (.function, parent)) : (t.lookup id argumentsName).isSome = true := by
  induction h generalizing id parent with
  | start =>
      match id with
      | 0 | 1 | _ + 2 => cases hf
  | @next calls t h call admitted ih =>
      rcases frame?_of_perform hf with old | ⟨rfl, opener, outer, node, rfl, function, _⟩
      · exact h.isSome_perform admitted (ih old)
      · cases opener with
        | function =>
            show ((t.openFor .function outer node).2.lookup _ argumentsName).isSome = true
            rw [lookup_openFor, if_pos ⟨rfl, rfl, rfl⟩]
            rfl
        | block | catchClause => cases function

/-! ## Sound trees -/

/-- What holds of a tree whatever calls made it. -/
structure Sound (t : ScopeTree) : Prop where
  /-- Every scope but the extern scope lies in an earlier one, which lists it
      once. -/
  nested : ∀ id kind parent, t.frame? id = some (kind, parent) → id ≠ externScope →
    ∃ p, parent = some p ∧ p < id ∧ (t.children p).count id = 1
  /-- Every entry of a table stands for a declaration of its name, in its
      scope. -/
  entries : ∀ id name i, (name, i) ∈ t.table id →
    ∃ d, t.declaration? i = some d ∧ d.name = name ∧ d.scope = id
  hoisted : ∀ i d, t.declaration? i = some d → d.kind.isHoisted = true →
    ∃ kind parent, t.frame? d.scope = some (kind, parent) ∧ kind.receivesHoisted = true
  arguments : ∀ id parent, t.frame? id = some (.function, parent) →
    (t.lookup id argumentsName).isSome = true

theorem History.sound (h : History calls t) : t.Sound where
  nested := by
    intro id kind parent hf inner
    obtain ⟨p, rfl, lt⟩ := h.exists_parent hf inner
    exact ⟨p, rfl, lt, h.nested.listed id kind p hf⟩
  entries := by
    intro id name i mem
    have named := lookup_of_mem (h.uniqueNames id) mem
    rw [lookup_table] at named
    exact h.consistent.named id name i named
  hoisted := fun _ _ hd hoisted => h.receives_of_isHoisted hd hoisted
  arguments := fun _ _ hf => h.declares_arguments hf

/-! ## Sites -/

/-- The site of one call that goes to exactly one declaration. -/
structure Receives (t : ScopeTree) (scope : Nat) (new : Proposal) (r : Outcome × ScopeTree) :
    Prop where
  /-- The name stands for that declaration afterwards, and the call answers
      with it, in conflict or not. -/
  bound : r.2.lookup (t.targetOf scope new.kind) new.name = some (Outcome.declaration r.1)
  /-- That declaration has one more site, or is made for the site. -/
  site : r.2.declaration? (Outcome.declaration r.1) =
    some (((t.declaration? (Outcome.declaration r.1)).map (Declaration.withSite · new)).getD
      (t.made (t.targetOf scope new.kind) new))
  declarations : ∀ i, i ≠ Outcome.declaration r.1 → r.2.declaration? i = t.declaration? i
  names : ∀ id name, ¬ (id = t.targetOf scope new.kind ∧ name = new.name) →
    r.2.lookup id name = t.lookup id name

/-- What is recorded for a name is what the name stands for. -/
theorem lookup_record {scope : Nat} {new : Proposal}
    (lt : t.targetOf scope new.kind < t.scopes.size) :
    (t.record scope new).2.lookup (t.targetOf scope new.kind) new.name =
      some (t.record scope new).1 := by
  have created : (t.create (t.targetOf scope new.kind) new).2.lookup
      (t.targetOf scope new.kind) new.name =
      some (t.create (t.targetOf scope new.kind) new).1 := by
    rw [lookup_create lt, if_pos ⟨rfl, rfl⟩]
    rfl
  rw [record]
  split
  · exact created
  · rw [settle]
    cases found : t.lookup (t.targetOf scope new.kind) new.name with
    | none => exact created
    | some existing =>
        dsimp only
        split
        · exact created
        · exact found

theorem lookup_declare {scope : Nat} {new : Proposal}
    (lt : t.targetOf scope new.kind < t.scopes.size) :
    (t.declare scope new).2.lookup (t.targetOf scope new.kind) new.name =
      some (Outcome.declaration (t.declare scope new).1) := by
  have target : t.core.targetOf scope new.kind = t.targetOf scope new.kind :=
    (SameFrame.core t).targetOf scope new.kind
  have bound : t.core.targetOf scope new.kind < t.core.scopes.size := by
    rw [target, core_size]
    exact lt
  have recorded := lookup_record bound
  rw [target, ← seen_declare, seen, core_lookup] at recorded
  exact recorded

theorem Consistent.receives (h : t.Consistent) {scope : Nat} {new : Proposal}
    (lt : t.targetOf scope new.kind < t.scopes.size) :
    t.Receives scope new (t.declare scope new) := by
  have bound := lookup_declare lt
  have change := declare_change lt
  generalize t.declare scope new = r at bound change ⊢
  cases change with
  | made _ names declarations =>
      have here : Outcome.declaration r.1 = t.declarations.size := by
        rw [names, if_pos ⟨rfl, rfl⟩] at bound
        exact (Option.some.inj bound).symm
      have all := declaration?_push declarations
      have fresh : t.declaration? t.declarations.size = none :=
        Array.getElem?_eq_none (Nat.le_refl _)
      refine ⟨bound, ?_, fun i other => ?_, fun id name other => ?_⟩
      · rw [here, fresh]
        exact (all _).trans (if_pos rfl)
      · rw [here] at other
        exact (all i).trans (if_neg other)
      · rw [names, if_neg other]
  | merged existing found _ _ names declarations =>
      have here : Outcome.declaration r.1 = existing := by
        rw [names, found] at bound
        exact (Option.some.inj bound).symm
      have all := declaration?_modify declarations
      obtain ⟨d, hd, _⟩ := h.named _ _ _ found
      refine ⟨bound, ?_, fun i other => ?_, fun id name _ => names id name⟩
      · rw [here, hd]
        refine (all existing).trans ?_
        rw [if_pos rfl, hd]
        rfl
      · rw [here] at other
        exact (all i).trans (if_neg other)

/-! ## The sites of a history -/

/-- The sites of all declarations. -/
def sites (t : ScopeTree) : List Site := t.declarations.toList.flatMap Declaration.sites

/-- One member of a list says more than before. -/
theorem perm_flatMap_modify {α β : Type} {f : α → α} {g : α → List β} {more : List β}
    (h : ∀ a, g (f a) = g a ++ more) (l : List α) {i : Nat} (lt : i < l.length) :
    ((l.modify i f).flatMap g).Perm (l.flatMap g ++ more) := by
  induction l generalizing i with
  | nil => cases lt
  | cons a l ih =>
      cases i with
      | zero =>
          rw [List.modify_zero_cons, List.flatMap_cons, List.flatMap_cons, h, List.append_assoc,
            List.append_assoc]
          exact List.perm_append_comm.append_left (g a)
      | succ i =>
          rw [List.modify_succ_cons, List.flatMap_cons, List.flatMap_cons, List.append_assoc]
          exact (ih (Nat.lt_of_succ_lt_succ lt)).append_left (g a)

theorem sites_of_push {u : ScopeTree} {d : Declaration}
    (h : u.declarations = t.declarations.push d) : u.sites = t.sites ++ d.sites := by
  rw [sites, h, Array.toList_push, List.flatMap_append, List.flatMap_singleton, sites]

theorem sites_of_modify {u : ScopeTree} {existing : Nat} {new : Proposal}
    (lt : existing < t.declarations.size)
    (h : u.declarations = t.declarations.modify existing (Declaration.withSite · new)) :
    u.sites.Perm (t.sites ++ [new.site]) := by
  rw [sites, h, Array.toList_modify]
  exact perm_flatMap_modify (fun _ => rfl) _ lt

end ScopeTree

/-- The sites that a call brings. -/
def ScopeCall.sites : ScopeCall → List Site
  | .opens .function _ node => [(ScopeTree.argumentsProposal node).site]
  | .opens .block .. | .opens .catchClause .. => []
  | .declares _ new => [new.site]
  | .declaresAmbient _ _ site => [site]

namespace ScopeTree

variable {calls : List ScopeCall} {t : ScopeTree}

theorem History.sites_perform (h : History calls t) {call : ScopeCall}
    (admitted : t.Admits call) : (t.perform call).2.sites.Perm (t.sites ++ call.sites) := by
  cases call with
  | opens opener parent node =>
      have declarations := declarations_openFor t opener parent node
      cases opener with
      | function => exact .of_eq (sites_of_push declarations)
      | block | catchClause =>
          rw [ScopeCall.sites, List.append_nil]
          exact .of_eq (congrArg (fun ds => ds.toList.flatMap Declaration.sites) declarations)
  | declares scope new =>
      cases declare_change (h.targetOf_lt admitted new.kind) with
      | made _ _ declarations => exact .of_eq (sites_of_push declarations)
      | merged existing found _ _ _ declarations =>
          exact sites_of_modify (h.consistent.known found) declarations
  | declaresAmbient name unit site =>
      exact .of_eq (sites_of_push
        (declarations_create t externScope (ambientProposal name unit site)))

/-- No site is lost, and none is there twice. -/
theorem History.sites_perm (h : History calls t) :
    t.sites.Perm (calls.flatMap ScopeCall.sites) := by
  induction h with
  | start => exact .nil
  | @next calls t h call admitted ih =>
      rw [List.flatMap_append, List.flatMap_singleton]
      exact (h.sites_perform admitted).trans (ih.append_right _)

/-- Whatever calls made a tree, it is sound and has exactly their sites, and
    each declared name gives its site to the one declaration that it stands
    for afterwards, in conflict or not, and changes nothing else. -/
theorem History.keeps_every_site (h : History calls t) :
    t.Sound ∧ t.sites.Perm (calls.flatMap ScopeCall.sites) ∧
      ∀ scope new, scope < t.scopes.size → t.Receives scope new (t.declare scope new) :=
  ⟨h.sound, h.sites_perm, fun _ new lt => h.consistent.receives (h.targetOf_lt lt new.kind)⟩

/-- A function with a block that declares a variable of its own. -/
def blockInFunction : List ScopeCall :=
  [.opens .function globalScope ⟨0, 0⟩, .declares 2 (unmarkedAt 1 .parameter "x"),
    .opens .block 2 ⟨0, 2⟩, .declares 3 (unmarkedAt 3 .letName "y")]

/-- A variable that is hoisted out of the block is in conflict with the one of
    the block, and its site is still recorded in the function. -/
theorem keeps_every_site_blocked :
    (initial.run blockInFunction).2.Sound ∧
      (initial.run blockInFunction).2.sites.Perm (blockInFunction.flatMap ScopeCall.sites) ∧
      (initial.run blockInFunction).2.Receives 3 (unmarkedAt 4 .varName "y")
        ((initial.run blockInFunction).2.declare 3 (unmarkedAt 4 .varName "y")) ∧
      ((initial.run blockInFunction).2.declare 3 (unmarkedAt 4 .varName "y")).1 =
        .error ⟨"y", .blockScoped, 2, 3⟩ := by
  have history : History blockInFunction (initial.run blockInFunction).2 :=
    history_run (by decide)
  obtain ⟨sound, sites, receives⟩ := history.keeps_every_site
  exact ⟨sound, sites, receives 3 _ (by decide), by rfl⟩

end ScopeTree

end DeclCheck
