import DeclCheck.Proofs.Names.Layout

/-! # Collecting a program event by event

    The events of a program are those of its units, in the order in which the
    units count.  `Collection.ofProgram_eq_run` says that collecting a program
    is acting on its events one after the other, so that what holds of the
    collection can be shown by induction on a list. -/

namespace DeclCheck

/-! ## The events of a program -/

namespace Program

/-- The events of a unit, when the next scope gets the number `next`. -/
def unitEvents (p : Program) (next unit : Nat) : List Event :=
  Outline.eventsAll unit (Place.top (p.isExtern unit)) (ScopeTree.topScope (p.isExtern unit)) next
    (p.unit unit).root.outline

/-- The events of units, when the next scope gets the number `next`. -/
def eventsFrom (p : Program) (next : Nat) : List Nat → List Event
  | [] => []
  | unit :: units =>
      p.unitEvents next unit ++
        p.eventsFrom (next + (Outline.openingsAll (p.unit unit).root.outline).length) units

/-- The events of a program.  The extern scope and the global scope are there
    before the first of them. -/
def events (p : Program) : List Event := p.eventsFrom Layout.top.length p.order

theorem unitEvents_openings (p : Program) (next unit : Nat) :
    (p.unitEvents next unit).filterMap Event.opening? =
      (Outline.openingsAll (p.unit unit).root.outline).map (UnitNode.mk unit) :=
  Outline.eventsAll_openings unit _ _ next _

theorem eventsFrom_mentions (p : Program) (next : Nat) (units : List Nat) :
    (p.eventsFrom next units).filterMap Event.mention? =
      units.flatMap fun unit =>
        Outline.mentionsAll unit (Place.top (p.isExtern unit)) (p.unit unit).root.outline := by
  induction units generalizing next with
  | nil => rfl
  | cons unit units ih =>
      rw [eventsFrom, List.filterMap_append, ih, List.flatMap_cons]
      exact congrArg (· ++ _) (Outline.eventsAll_mentions unit _ _ next _)

theorem eventsFrom_openings (p : Program) (next : Nat) (units : List Nat) :
    (p.eventsFrom next units).filterMap Event.opening? =
      units.flatMap fun unit =>
        (Outline.openingsAll (p.unit unit).root.outline).map (UnitNode.mk unit) := by
  induction units generalizing next with
  | nil => rfl
  | cons unit units ih =>
      rw [eventsFrom, List.filterMap_append, ih, List.flatMap_cons, unitEvents_openings]

theorem eventsFrom_wellScoped (p : Program) (units : List Nat) {l : Layout}
    (h : Layout.top <+: l) : WellScoped l (p.eventsFrom l.length units) := by
  induction units generalizing l with
  | nil => trivial
  | cons unit units ih =>
      have stands : l[ScopeTree.topScope (p.isExtern unit)]? =
          some (Place.top (p.isExtern unit)) := by
        obtain ⟨added, rfl⟩ := h
        cases p.isExtern unit <;> rfl
      have first : WellScoped l (p.unitEvents l.length unit) :=
        Outline.eventsAll_wellScoped unit stands _
      let l' := (p.unitEvents l.length unit).foldl Event.extend l
      have length : l'.length =
          l.length + (Outline.openingsAll (p.unit unit).root.outline).length := by
        rw [Layout.length_foldl, unitEvents_openings, List.length_map]
      have rest := ih (h.trans (Layout.prefix_foldl l (p.unitEvents l.length unit)))
      rw [show (List.foldl Event.extend l (p.unitEvents l.length unit)) = l' from rfl,
        length] at rest
      exact wellScoped_append.mpr ⟨first, rest⟩

/-- Every event of a program stands where it says. -/
theorem events_wellScoped (p : Program) : WellScoped Layout.top p.events :=
  p.eventsFrom_wellScoped p.order (List.prefix_refl _)

end Program

/-! ## Acting on events -/

namespace Collection

/-- Read a mention that stands in a scope. -/
def meet (p : Program) (o : Options) (scope : Nat) (m : Mention) (c : Collection) : Collection :=
  match m.role with
  | .declares kind node hasInitializer byLoop =>
      c.declare p o m.unit scope kind node m.name hasInitializer byLoop
  | .refers isObject isChange => c.refer m.unit scope m.name isObject isChange

/-- What is proposed to the scope tree when a name is declared. -/
def proposal (p : Program) (unit : Nat) (kind : DeclarationKind) (node : Nat)
    (name : Occurrence) (hasInitializer byLoop : Bool) (c : Collection) : Proposal :=
  ⟨name.text, kind, unit,
    ⟨⟨unit, node⟩, ⟨unit, name.node⟩, name.span, some c.nameCount, hasInitializer, byLoop⟩,
    (p.flags ⟨unit, node⟩).suppressDuplicate, (p.flags ⟨unit, node⟩).constant⟩

/-- What is reported when a name is declared. -/
def conflictsOf (p : Program) (o : Options) (unit : Nat) (span : Span)
    (declared : ScopeTree.Outcome × ScopeTree) : List Diagnostic :=
  match declared.1 with
  | .ok _ => []
  | .error conflict => conflictDiagnostics p o unit span declared.2 conflict

theorem diagnostics_declare (p : Program) (o : Options) (unit scope : Nat)
    (kind : DeclarationKind) (node : Nat) (name : Occurrence) (hasInitializer byLoop : Bool)
    (c : Collection) :
    (c.declare p o unit scope kind node name hasInitializer byLoop).diagnostics =
      c.diagnostics.addAll (conflictsOf p o unit name.span
        (c.tree.declare scope (c.proposal p unit kind node name hasInitializer byLoop))) := rfl

/-- Act on an event. -/
def act (p : Program) (o : Options) (c : Collection) : Event → Collection
  | .opens opener node scope _ => { c with tree := (c.tree.openFor opener scope node).2 }
  | .meets m scope => c.meet p o scope m

variable (p : Program) (o : Options)

theorem meet_sameFrame (scope : Nat) (m : Mention) (c : Collection) :
    ScopeTree.SameFrame (c.meet p o scope m).tree c.tree := by
  rw [meet]
  cases m.role with
  | declares kind node hasInitializer byLoop => exact ScopeTree.sameFrame_declare _ _ _
  | refers isObject isChange => exact fun _ => rfl

/-- Acting on events opens one scope for each opening. -/
theorem run_size (es : List Event) (c : Collection) :
    (es.foldl (act p o) c).tree.scopes.size =
      c.tree.scopes.size + (es.filterMap Event.opening?).length := by
  induction es generalizing c with
  | nil => rfl
  | cons e es ih =>
      rw [List.foldl_cons, ih]
      cases e with
      | opens opener node scope around =>
          rw [act, ScopeTree.openFor_size, Nat.add_assoc, Nat.add_comm 1]
          rfl
      | meets m scope =>
          rw [act, (meet_sameFrame p o scope m c).size_eq]
          rfl

mutual

/-- Reading an item is acting on its events. -/
theorem read_eq_run (unit : Nat) (around : List Place) (scope : Nat) :
    ∀ (item : Outline) (c : Collection), read p o unit scope item c =
      (Outline.events unit around scope c.tree.scopes.size item).foldl (act p o) c
  | .declares _ _ _ _ _, _ => rfl
  | .refers _ _ _, _ => rfl
  | .opens opener node inside, c => by
      let c' := { c with tree := (c.tree.openFor opener scope ⟨unit, node⟩).2 }
      have size : c'.tree.scopes.size = c.tree.scopes.size + 1 :=
        ScopeTree.openFor_size _ _ _ _
      have inner := readAll_eq_run unit (opener.place ⟨unit, node⟩ :: around)
        c.tree.scopes.size inside c'
      rw [size] at inner
      show readAll p o unit (c.tree.openFor opener scope ⟨unit, node⟩).1 inside c' = _
      rw [ScopeTree.openFor_fst]
      exact inner

theorem readAll_eq_run (unit : Nat) (around : List Place) (scope : Nat) :
    ∀ (items : List Outline) (c : Collection), readAll p o unit scope items c =
      (Outline.eventsAll unit around scope c.tree.scopes.size items).foldl (act p o) c
  | [], _ => rfl
  | item :: items, c => by
      rw [readAll, readAll_eq_run unit around scope items, read_eq_run unit around scope item,
        run_size, Outline.events_openings, List.length_map, Outline.eventsAll, List.foldl_append]

end

theorem readUnits_eq_run (units : List Nat) (c : Collection) :
    units.foldl (readUnit p o) c =
      (p.eventsFrom c.tree.scopes.size units).foldl (act p o) c := by
  induction units generalizing c with
  | nil => rfl
  | cons unit units ih =>
      have first : readUnit p o c unit =
          (p.unitEvents c.tree.scopes.size unit).foldl (act p o) c :=
        readAll_eq_run p o unit _ _ _ c
      rw [List.foldl_cons, ih, first, run_size, Program.unitEvents_openings, List.length_map,
        Program.eventsFrom, List.foldl_append]

/-- Collecting a program is acting on its events. -/
theorem ofProgram_eq_run : ofProgram p o = p.events.foldl (act p o) initial :=
  readUnits_eq_run p o p.order initial

/-- Collecting depends on the options only through the levels. -/
theorem ofProgram_congr {o o' : Options} (h : ∀ kind, o.level kind = o'.level kind) :
    ofProgram p o = ofProgram p o' := by
  have conflicts (unit : Nat) (span : Span) (tree : ScopeTree) (c : Conflict) :
      conflictDiagnostics p o unit span tree c = conflictDiagnostics p o' unit span tree c := by
    rw [conflictDiagnostics, conflictDiagnostics]
    dsimp only
    rw [h]
  have same : act p o = act p o' := by
    funext c e
    cases e with
    | opens opener node scope around => rfl
    | meets m scope =>
        simp only [act, meet, declare, conflicts]
  rw [ofProgram_eq_run, ofProgram_eq_run, same]

end Collection

end DeclCheck
