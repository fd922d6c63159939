import DeclCheck.Proofs.Names.Standing
import DeclCheck.Proofs.Runs.Outcome
import DeclCheck.Proofs.Runs.Persistence
import DeclCheck.Proofs.Scope.Conflict

/-! # Reading a program again

    The check of a run reads the program again after names were declared for
    it.  Both readings act on the same events, but for those of the added
    names, and their trees stay twins.  Whatever is in conflict the second
    time was in conflict the first time, or it is excused: synthesis has
    reported it already, or has annotated the declaration, or externs may do
    so. -/

namespace DeclCheck

/-- Diagnostics of the same kind about the same text range. -/
structure Diagnostic.SameSpot (a b : Diagnostic) : Prop where
  kind : a.kind = b.kind
  code : a.code = b.code
  file : a.file = b.file
  span : a.span = b.span

theorem Diagnostic.SameSpot.isSameFinding {a b : Diagnostic} (h : a.SameSpot b) :
    a.isSameFinding b = true := by
  rw [Diagnostic.isSameFinding, h.code, h.file, h.span]
  simp

/-- A conflict is reported, unless externs may have it. -/
theorem Collection.conflictDiagnostics_of_loud {p : Program} {o : Options} {unit : Nat}
    (span : Span) (tree : ScopeTree) {c : Conflict}
    (loud : (p.isExtern unit && c.kind == .hoisted) = false) :
    ∃ arguments, conflictDiagnostics p o unit span tree c =
      [p.diagnostic c.kind.diagnosticKind (o.level c.kind.diagnosticKind) unit span arguments] := by
  rw [conflictDiagnostics, loud]
  exact ⟨_, rfl⟩

namespace Synthesis.Grows

variable {p : Program} {o : Options} {s : Synthesis} {c c' : Collection} {l : Layout}
  {m : Mention} {scope node : Nat} {kind : DeclarationKind} {hasInitializer byLoop : Bool}

/-- What both readings propose for a name. -/
theorem sameProposal {t : ScopeTree} (h : Grows p t o s) (c c' : Collection) {unit : Nat}
    (lt : unit < p.units.size) (kind : DeclarationKind) (node : Nat) (name : Occurrence)
    (hasInitializer byLoop : Bool) :
    ScopeTree.SameProposal (c.proposal p unit kind node name hasInitializer byLoop)
      (c'.proposal s.program unit kind node name hasInitializer byLoop) where
  name := rfl
  kind := rfl
  unit := rfl
  site := ⟨rfl, rfl, rfl, rfl, rfl⟩
  suppress := fun hs => h.extends'.suppress ⟨unit, node⟩ lt hs

/-- A hoisted name that goes to the top level of the externs stands in an
    extern unit. -/
theorem isExtern_of_hoistTarget {t : ScopeTree} (follows : t.Follows l) (hm : m ∈ p.mentions)
    (stands : l[scope]? = some m.around) (top : t.hoistTarget scope = ScopeTree.externScope) :
    p.isExtern m.unit = true := by
  obtain ⟨inner, around, hi⟩ := Program.mention_around hm
  obtain ⟨rest, hr⟩ := follows.hoistTarget stands
  have externs := follows.externs
  rw [top, externs] at hr
  have receiver := (List.cons.inj (Option.some.inj hr)).1
  cases external : p.isExtern m.unit with
  | true => rfl
  | false =>
      rw [around, external] at receiver
      have other := Place.receiver_of_source hi ScopeTree.maxWalk
      revert receiver other
      cases ((inner ++ Place.top false).take ScopeTree.maxWalk).find? Place.receivesHoisted with
      | none => exact fun receiver _ => nomatch receiver
      | some place => exact fun receiver other => absurd (congrArg some receiver.symm) other

/-- A declaration at the top level of the sources does not yield. -/
theorem stays_of_global {t : ScopeTree} (follows : t.Follows l) (hm : m ∈ p.mentions)
    (stands : l[scope]? = some m.around) (hk : m.kind? = some kind)
    (top : t.targetOf scope kind = ScopeTree.globalScope) : kind.yields = false := by
  have global := follows.sources
  cases hy : kind.yields with
  | false => rfl
  | true =>
      have own : t.targetOf scope kind = scope := by
        cases kind <;> first | rfl | cases hy
      obtain ⟨f, rest, around⟩ := Program.mention_yields hm hk hy
      rw [own] at top
      rw [top, global, around] at stands
      cases stands

/-! ## One name in both readings -/

section OneName

variable (h : Grows p (Collection.ofProgram p o).tree o s) (hp : p.Built)
  (follows : c.tree.Follows l) (hm : m ∈ p.mentions) (stands : l[scope]? = some m.around)
  (role : m.role = .declares kind node hasInitializer byLoop)
  (keeps : Collection.Keeps
    (c.declare p o m.unit scope kind node m.name hasInitializer byLoop)
    (Collection.ofProgram p o))

include h follows stands keeps

/-- The names that are added are not declared among the externs. -/
theorem avoids : ¬ (c.tree.targetOf scope kind = ScopeTree.externScope ∧
    m.name.text ∈ s.names) := by
  rintro ⟨top, hn⟩
  have change : ScopeTree.Change c.tree scope
      (c.proposal p m.unit kind node m.name hasInitializer byLoop)
      (c.declare p o m.unit scope kind node m.name hasInitializer byLoop).tree :=
    ScopeTree.declare_change (follows.targetOf_lt stands kind)
  have declared := change.lookup_isSome ScopeTree.externScope m.name.text
  rw [decide_eq_true ⟨top.symm, rfl⟩, Bool.true_or] at declared
  have kept := keeps.names _ _ declared
  rw [(h.new m.name.text hn).1] at kept
  cases kept

/-- A name whose first declaration at the top level of the sources stays there
    has room beside an added one. -/
theorem room_of_first (top : c.tree.targetOf scope kind = ScopeTree.globalScope)
    (absent : c.tree.lookup ScopeTree.globalScope m.name.text = none)
    (stays : kind.yields = false) (hn : m.name.text ∈ s.names) :
    ∃ id d, Room p (Collection.ofProgram p o).tree o s id d ∧ d.kind = kind ∧
      d.sites.head? = some
        (c.proposal p m.unit kind node m.name hasInitializer byLoop).site := by
  have change : ScopeTree.Change c.tree scope
      (c.proposal p m.unit kind node m.name hasInitializer byLoop)
      (c.declare p o m.unit scope kind node m.name hasInitializer byLoop).tree :=
    ScopeTree.declare_change (follows.targetOf_lt stands kind)
  have first := ScopeTree.Settled.first change top absent
  obtain ⟨id, d, hl, hd, hk, hs⟩ := keeps.settled _ _ _ stays first
  exact ⟨id, d, h.room m.name.text hn id d hl hd, hk, hs⟩

include hp hm role

/-- An excused conflict of the second reading is silent or was reported by
    synthesis. -/
theorem excused {found : List Diagnostic}
    (synthesized : ∀ y ∈ s.diagnostics.diagnostics, y.level.isOn = true → y ∈ found)
    {conflict : ConflictKind}
    (excuse : ScopeTree.Excuse (· ∈ s.names) c.tree scope
      (c.proposal p m.unit kind node m.name hasInitializer byLoop)
      (c'.proposal s.program m.unit kind node m.name hasInitializer byLoop) conflict)
    (loud : (s.program.isExtern m.unit && conflict == .hoisted) = false) (arguments : List String)
    (on : (o.level conflict.diagnosticKind).isOn = true) :
    ∃ y ∈ found, (s.program.diagnostic conflict.diagnosticKind
      (o.level conflict.diagnosticKind) m.unit m.name.span arguments).SameSpot y := by
  have lt : m.unit < p.units.size := (Program.mention_fits hm).1
  have hk : m.kind? = some kind := by rw [Mention.kind?, role]
  cases excuse with
  | caught top =>
      -- a catch parameter that meets the externs stands in an extern unit
      rw [h.extends'.isExtern m.unit lt, isExtern_of_hoistTarget follows hm stands top] at loud
      cases loud
  | blocked name top first block =>
      have block : kind.isBlockScoped = true := block
      have stays : kind.yields = false := by
        cases kind <;> first | rfl | cases block
      obtain ⟨id, d, room, hdk, hs⟩ := h.room_of_first follows stands keeps top first stays name
      obtain ⟨y, hy, yon, code, file, span⟩ :=
        room.reported (hdk ▸ block) _ hs lt on
      refine ⟨y, synthesized y hy yon, (h.kinds y hy).symm, code.symm, ?_, span.symm⟩
      exact (h.extends'.name m.unit lt).trans file.symm
  | repeated name top first block suppress =>
      -- the declaration was annotated, so its repetition is no conflict
      have block : kind.isBlockScoped = false := block
      have stays : kind.yields = false := stays_of_global follows hm stands hk top
      obtain ⟨id, d, room, hdk, hs⟩ := h.room_of_first follows stands keeps top first stays name
      have hnode : node < (p.unit m.unit).annotations.size :=
        (hp.sound.unit m.unit lt).bound node (Program.mention_node hm role)
      have annotated := room.annotated (hdk ▸ block) _ (List.mem_of_mem_head? hs) lt hnode
      have suppress : (s.program.flags ⟨m.unit, node⟩).suppressDuplicate = false := suppress
      have annotated : (s.program.flags ⟨m.unit, node⟩).suppressDuplicate = true := annotated
      rw [suppress] at annotated
      cases annotated

omit follows hp hm stands role in
/-- A conflict of the first reading that externs may not have was reported. -/
theorem reported_before (lt : m.unit < p.units.size) {found : List Diagnostic}
    (read : ∀ d ∈ (Collection.ofProgram p o).diagnostics.diagnostics, d ∈ found)
    {conflict : ConflictKind}
    (before : ScopeTree.Outcome.conflict? (c.tree.declare scope
      (c.proposal p m.unit kind node m.name hasInitializer byLoop)).1 = some conflict)
    (loud : (s.program.isExtern m.unit && conflict == .hoisted) = false) (arguments : List String)
    (on : (o.level conflict.diagnosticKind).isOn = true) :
    ∃ y ∈ found, (s.program.diagnostic conflict.diagnosticKind
      (o.level conflict.diagnosticKind) m.unit m.name.span arguments).SameSpot y := by
  have reported := Collection.diagnostics_declare p o m.unit scope kind node m.name hasInitializer
    byLoop c
  rw [Collection.conflictsOf] at reported
  split at reported
  · rename_i declared
    rw [declared] at before
    cases before
  · rename_i earlier declared
    rw [declared] at before
    obtain rfl : earlier.kind = conflict := Option.some.inj before
    rw [h.extends'.isExtern m.unit lt] at loud
    obtain ⟨arguments', only⟩ := Collection.conflictDiagnostics_of_loud (o := o) m.name.span
      (c.tree.declare scope (c.proposal p m.unit kind node m.name hasInitializer byLoop)).2 loud
    rw [only] at reported
    let d := p.diagnostic earlier.kind.diagnosticKind (o.level earlier.kind.diagnosticKind) m.unit
      m.name.span arguments'
    have mem : d ∈ (c.declare p o m.unit scope kind node m.name hasInitializer
        byLoop).diagnostics.diagnostics := by
      rw [reported, Bag.diagnostics_addAll]
      exact List.mem_append_right _ (List.mem_filter.mpr ⟨List.mem_singleton_self _, on⟩)
    exact ⟨d, read d (keeps.diagnostics d mem), rfl, rfl, h.extends'.name m.unit lt, rfl⟩

/-- A name that is declared in both readings leaves twins, and what is
    reported the second time has been found before. -/
theorem declare_again {f : Nat → Nat} (twin : ScopeTree.Twin (· ∈ s.names) f c.tree c'.tree)
    {found : List Diagnostic}
    (read : ∀ d ∈ (Collection.ofProgram p o).diagnostics.diagnostics, d ∈ found)
    (synthesized : ∀ y ∈ s.diagnostics.diagnostics, y.level.isOn = true → y ∈ found) :
    (∃ f, ScopeTree.Twin (· ∈ s.names) f
      (c.declare p o m.unit scope kind node m.name hasInitializer byLoop).tree
      (c'.declare s.program o m.unit scope kind node m.name hasInitializer byLoop).tree) ∧
    ∀ d ∈ Collection.conflictsOf s.program o m.unit m.name.span (c'.tree.declare scope
        (c'.proposal s.program m.unit kind node m.name hasInitializer byLoop)),
      d.level.isOn = true → ∃ y ∈ found, d.SameSpot y := by
  have lt : m.unit < p.units.size := (Program.mention_fits hm).1
  have externs := follows.externs
  obtain ⟨top, place, rest, htop, same, kindOf, _⟩ := follows.scope externs
  have proposal := h.sameProposal c c' lt kind node m.name hasInitializer byLoop
  have kindOf : top.kind = .externs := by
    rw [kindOf, ← (List.cons.inj same).1]
    rfl
  have agree := twin.declare (follows.targetOf_lt stands kind) (follows.targetOf_lt stands .varName)
    ⟨top, htop, kindOf⟩ proposal
    (h.avoids follows stands keeps)
  constructor
  · exact agree.twin
  · intro d hd on
    rw [Collection.conflictsOf] at hd
    split at hd
    · cases hd
    · rename_i conflict outcome
      have again : ScopeTree.Outcome.conflict? (c'.tree.declare scope
          (c'.proposal s.program m.unit kind node m.name hasInitializer byLoop)).1 =
          some conflict.kind := by
        rw [outcome]
        rfl
      rw [Collection.conflictDiagnostics] at hd
      split at hd
      · cases hd
      · rename_i loud
        have loud := Bool.eq_false_iff.mpr loud
        rw [List.mem_singleton] at hd
        subst hd
        rcases agree.conflict conflict.kind again with before | excuse
        · -- the first reading has reported the same conflict
          exact h.reported_before keeps lt read before loud _ on
        · exact h.excused hp follows hm stands role keeps synthesized excuse loud _ on

end OneName

/-! ## All events -/

/-- The collections of two readings: their trees are twins, and whatever the
    second one has reported has been found. -/
structure Alike (added : String → Prop) (found : List Diagnostic) (c c' : Collection) : Prop where
  twin : ∃ f, ScopeTree.Twin added f c.tree c'.tree
  diagnostics : ∀ d ∈ c'.diagnostics.diagnostics, ∃ y ∈ found, d.SameSpot y

section AllEvents

variable (h : Grows p (Collection.ofProgram p o).tree o s) {found : List Diagnostic}
include h

/-- An event of both readings. -/
theorem act_again (hp : p.Built)
    (read : ∀ d ∈ (Collection.ofProgram p o).diagnostics.diagnostics, d ∈ found)
    (synthesized : ∀ y ∈ s.diagnostics.diagnostics, y.level.isOn = true → y ∈ found) {e : Event}
    (known : ∀ m, e.mention? = some m → m ∈ p.mentions) (follows : c.tree.Follows l)
    (stands : e.StandsIn l) (keeps : Collection.Keeps (c.act p o e) (Collection.ofProgram p o))
    (alike : Alike (· ∈ s.names) found c c') :
    Alike (· ∈ s.names) found (c.act p o e) (c'.act s.program o e) := by
  obtain ⟨f, twin⟩ := alike.twin
  cases e with
  | opens opener node scope around =>
      exact ⟨twin.openFor follows.externScope_lt opener scope node, alike.diagnostics⟩
  | meets m scope =>
      have hm : m ∈ p.mentions := known m rfl
      have keeps : Collection.Keeps (c.meet p o scope m) (Collection.ofProgram p o) := keeps
      show Alike (· ∈ s.names) found (c.meet p o scope m) (c'.meet s.program o scope m)
      rw [Collection.meet] at keeps ⊢
      rw [Collection.meet]
      cases role : m.role with
      | refers isObject isChange => exact ⟨⟨f, twin⟩, alike.diagnostics⟩
      | declares kind node hasInitializer byLoop =>
          rw [role] at keeps
          obtain ⟨twin, conflicts⟩ :=
            h.declare_again hp follows hm stands role keeps twin read synthesized
          constructor
          · exact twin
          · intro d hd
            have hd : d ∈ (c'.declare s.program o m.unit scope kind node m.name hasInitializer
              byLoop).diagnostics.diagnostics := hd
            rw [Collection.diagnostics_declare, Bag.diagnostics_addAll, List.mem_append] at hd
            rcases hd with hd | hd
            · exact alike.diagnostics d hd
            · obtain ⟨hd, on⟩ := List.mem_filter.mp hd
              exact conflicts d hd on

omit h in
/-- An added event, which only the second reading acts on. -/
theorem act_added {e : Event} (new : s.program.IsAdded (· ∈ s.names) e)
    (follows : c.tree.Follows l) (alike : Alike (· ∈ s.names) found c c') :
    Alike (· ∈ s.names) found c (c'.act s.program o e) := by
  obtain ⟨f, twin⟩ := alike.twin
  obtain ⟨m, rfl, added⟩ := new
  have externs := follows.externs
  obtain ⟨top, place, rest, htop, same, kindOf, _⟩ :=
    (twin.frame.symm.follows follows).scope externs
  have kindOf : top.kind = .externs := by
    rw [kindOf, ← (List.cons.inj same).1]
    rfl
  show Alike (· ∈ s.names) found c (c'.meet s.program o ScopeTree.externScope m)
  have kind := added.kind
  rw [Mention.kind?] at kind
  rw [Collection.meet]
  cases role : m.role with
  | refers isObject isChange =>
      rw [role] at kind
      cases kind
  | declares kind' node hasInitializer byLoop =>
      rw [role] at kind
      obtain rfl : kind' = .varName := Option.some.inj kind
      let new := c'.proposal s.program m.unit .varName node m.name hasInitializer byLoop
      have name : new.name ∈ s.names := added.name
      have kind : new.kind = .varName := rfl
      obtain ⟨twin, conflicts⟩ := twin.declareExtra ⟨top, htop, kindOf⟩ name kind
      constructor
      · exact ⟨f, twin⟩
      · intro d hd
        have hd : d ∈ (c'.declare s.program o m.unit ScopeTree.externScope .varName node m.name
          hasInitializer byLoop).diagnostics.diagnostics := hd
        rw [Collection.diagnostics_declare, Bag.diagnostics_addAll, List.mem_append] at hd
        rcases hd with hd | hd
        · exact alike.diagnostics d hd
        · -- extern units may repeat the hoisted names of each other
          have hd := (List.mem_filter.mp hd).1
          rw [Collection.conflictsOf] at hd
          split at hd
          · cases hd
          · rename_i conflict outcome
            have hoisted : conflict.kind = .hoisted :=
              conflicts conflict.kind (congrArg ScopeTree.Outcome.conflict? outcome)
            rw [Collection.conflictDiagnostics, added.isExtern, hoisted] at hd
            cases hd

/-- Both readings of the same events, added ones apart. -/
theorem run_again (hp : p.Built)
    (read : ∀ d ∈ (Collection.ofProgram p o).diagnostics.diagnostics, d ∈ found)
    (synthesized : ∀ y ∈ s.diagnostics.diagnostics, y.level.isOn = true → y ∈ found)
    {es fs : List Event} (events : Extended (s.program.IsAdded (· ∈ s.names)) es fs)
    (known : ∀ e ∈ es, ∀ m, e.mention? = some m → m ∈ p.mentions)
    (follows : c.tree.Follows l) (stands : WellScoped l es)
    (rest : es.foldl (Collection.act p o) c = Collection.ofProgram p o)
    (alike : Alike (· ∈ s.names) found c c') :
    Alike (· ∈ s.names) found (Collection.ofProgram p o)
      (fs.foldl (Collection.act s.program o) c') := by
  induction events generalizing c c' l with
  | nil => exact rest ▸ alike
  | @keep e es fs events ih =>
      obtain ⟨here, later⟩ := stands
      have follows' := follows.act p o here
      -- what the first reading declares now stays until its end
      have keeps : Collection.Keeps (c.act p o e) (Collection.ofProgram p o) := by
        rw [← rest]
        exact Collection.Keeps.run follows' p o later
      refine ih (fun e' he' => known e' (List.mem_cons_of_mem _ he')) follows' later rest ?_
      exact h.act_again hp read synthesized (known e (List.mem_cons_self ..)) follows here keeps
          alike
  | insert new events ih => exact ih known follows stands rest (act_added new follows alike)

/-- The two readings of a program: whatever the second one reports was
    reported by the first one or by synthesis. -/
theorem reread (hp : p.Built)
    (read : ∀ d ∈ (Collection.ofProgram p o).diagnostics.diagnostics, d ∈ found)
    (synthesized : ∀ y ∈ s.diagnostics.diagnostics, y.level.isOn = true → y ∈ found) :
    Alike (· ∈ s.names) found (Collection.ofProgram p o) (Collection.ofProgram s.program o) := by
  have start : Alike (· ∈ s.names) found .initial .initial :=
    ⟨⟨_, ScopeTree.Twin.initial _⟩, fun d hd => nomatch hd⟩
  have known (e : Event) (he : e ∈ p.events) (m : Mention) (hm : e.mention? = some m) :
      m ∈ p.mentions := by
    rw [← hp.events_mentions]
    exact List.mem_filterMap.mpr ⟨e, he, hm⟩
  rw [Collection.ofProgram_eq_run s.program]
  exact h.run_again hp read synthesized h.events known ScopeTree.follows_initial
    p.events_wellScoped (Collection.ofProgram_eq_run p o).symm start

end AllEvents

end Synthesis.Grows

end DeclCheck
