import DeclCheck.Proofs.Names.Meaning

/-! # Events of extended programs

    Annotating a program does not change its events.  Declaring a name in the
    synthetic unit adds one event: a variable is declared at the top level of
    the externs.  The added events stand somewhere among the others, which
    keep their order and their scopes, since no scope is opened by them. -/

namespace DeclCheck

/-- A list with others inserted. -/
inductive Extended {α : Type} (added : α → Prop) : List α → List α → Prop where
  | nil : Extended added [] []
  | keep (e : α) {es fs : List α} (h : Extended added es fs) :
      Extended added (e :: es) (e :: fs)
  | insert {e : α} (new : added e) {es fs : List α} (h : Extended added es fs) :
      Extended added es (e :: fs)

namespace Extended

variable {α β : Type} {added : α → Prop} {es fs gs : List α}

/-- Nothing need be added. -/
theorem refl : ∀ es, Extended added es es
  | [] => .nil
  | e :: es => .keep e (refl es)

/-- Extended parts, one after the other. -/
theorem append {es' fs' : List α} (h : Extended added es fs) (h' : Extended added es' fs') :
    Extended added (es ++ es') (fs ++ fs') := by
  induction h with
  | nil => exact h'
  | keep e _ ih => exact .keep e ih
  | insert new _ ih => exact .insert new ih

/-- What may be added may be more. -/
theorem mono {added' : α → Prop} (h : Extended added es fs) (imp : ∀ e, added e → added' e) :
    Extended added' es fs := by
  induction h with
  | nil => exact .nil
  | keep e _ ih => exact .keep e ih
  | insert new _ ih => exact .insert (imp _ new) ih

/-- Extended twice. -/
theorem trans (h : Extended added es fs) (h' : Extended added fs gs) : Extended added es gs := by
  induction h' generalizing es with
  | nil => exact h
  | keep e _ ih =>
      cases h with
      | keep _ h => exact .keep e (ih h)
      | insert new h => exact .insert new (ih h)
  | insert new _ ih => exact .insert new (ih h)

/-- An inserted list. -/
theorem concat (es : List α) {e : α} (new : added e) : Extended added es (es ++ [e]) := by
  have extended : Extended added (es ++ []) (es ++ [e]) := (refl es).append (.insert new .nil)
  rwa [List.append_nil] at extended

/-- What is there was there before or was added. -/
theorem mem (h : Extended added es fs) {e : α} (he : e ∈ fs) : e ∈ es ∨ added e := by
  induction h with
  | nil => cases he
  | keep e' _ ih =>
      rcases List.mem_cons.mp he with rfl | he
      · exact .inl (List.mem_cons_self ..)
      · exact (ih he).imp_left (List.mem_cons_of_mem _)
  | insert new _ ih =>
      rcases List.mem_cons.mp he with rfl | he
      · exact .inr new
      · exact ih he

/-- Nothing is lost. -/
theorem subset (h : Extended added es fs) {e : α} (he : e ∈ es) : e ∈ fs := by
  induction h with
  | nil => cases he
  | keep e' _ ih =>
      rcases List.mem_cons.mp he with rfl | he
      · exact List.mem_cons_self ..
      · exact List.mem_cons_of_mem _ (ih he)
  | insert _ _ ih => exact List.mem_cons_of_mem _ (ih he)

/-- What becomes of the elements is inserted with them. -/
theorem map (h : Extended added es fs) {f : α → β} {added' : β → Prop}
    (imp : ∀ e, added e → added' (f e)) : Extended added' (es.map f) (fs.map f) := by
  induction h with
  | nil => exact .nil
  | keep e _ ih => exact .keep (f e) ih
  | insert new _ ih => exact .insert (imp _ new) ih

/-- What is read off the elements is inserted with them. -/
theorem filterMap (h : Extended added es fs) {read : α → Option β} {added' : β → Prop}
    (imp : ∀ e b, added e → read e = some b → added' b) :
    Extended added' (es.filterMap read) (fs.filterMap read) := by
  induction h with
  | nil => exact .nil
  | keep e _ ih =>
      rw [List.filterMap_cons, List.filterMap_cons]
      cases read e with
      | none => exact ih
      | some b => exact .keep b ih
  | @insert e new _ _ _ ih =>
      rw [List.filterMap_cons]
      cases hb : read e with
      | none => exact ih
      | some b => exact .insert (imp e b new hb) ih

end Extended

namespace Program

/-! ## Programs with the same trees -/

/-- Units that are extern alike and have the same trees have the same
    events. -/
theorem eventsFrom_congr {p q : Program} {units : List Nat}
    (h : ∀ u ∈ units, q.isExtern u = p.isExtern u ∧ (q.unit u).root = (p.unit u).root)
    (next : Nat) : q.eventsFrom next units = p.eventsFrom next units := by
  induction units generalizing next with
  | nil => rfl
  | cons u units ih =>
      obtain ⟨roles, root⟩ := h u (List.mem_cons_self ..)
      rw [eventsFrom, eventsFrom, ih fun v hv => h v (List.mem_cons_of_mem _ hv), unitEvents,
        unitEvents, roles, root]

/-- The order of the units depends on their number and on which of them are
    extern. -/
theorem order_congr {p q : Program} (size : q.units.size = p.units.size)
    (roles : ∀ u, u < p.units.size → q.isExtern u = p.isExtern u) : q.order = p.order := by
  have externs : (List.range p.units.size).filter q.isExtern =
      (List.range p.units.size).filter p.isExtern :=
    List.filter_congr fun u hu => roles u (List.mem_range.mp hu)
  have sources : ((List.range p.units.size).filter fun u => !q.isExtern u) =
      (List.range p.units.size).filter fun u => !p.isExtern u :=
    List.filter_congr fun u hu => by rw [roles u (List.mem_range.mp hu)]
  rw [order, order, size, externs, sources]

/-- Events depend on the trees of the units and on which are externs. -/
theorem events_congr {p q : Program} (size : q.units.size = p.units.size)
    (h : ∀ u, u < p.units.size → q.isExtern u = p.isExtern u ∧ (q.unit u).root = (p.unit u).root) :
    q.events = p.events := by
  rw [events, events, order_congr size fun u hu => (h u hu).1]
  exact eventsFrom_congr (fun u hu => h u (mem_order.mp hu)) _

/-- An annotation moves no unit. -/
theorem isExtern_annotate (p : Program) (n : UnitNode) (extra : Ast.Flags) (u : Nat) :
    (p.annotate n extra).isExtern u = p.isExtern u := by
  rw [isExtern, unit_annotate]
  split <;> rfl

/-- Nor does it change a tree. -/
theorem root_annotate (p : Program) (n : UnitNode) (extra : Ast.Flags) (u : Nat) :
    ((p.annotate n extra).unit u).root = (p.unit u).root := by
  rw [unit_annotate]
  split <;> rfl

/-- So the events are the same. -/
theorem events_annotate (p : Program) (n : UnitNode) (extra : Ast.Flags) :
    (p.annotate n extra).events = p.events :=
  events_congr (size_modifyUnit p _ _) fun u _ =>
    ⟨isExtern_annotate p n extra u, root_annotate p n extra u⟩

/-! ## Declaring a name in the synthetic unit -/

/-- An event that declares one of the given names in the synthetic unit. -/
structure DeclaresAdded (p : Program) (names : String → Prop) (m : Mention) : Prop where
  isExtern : p.isExtern m.unit = true
  around : m.around = Place.top true
  kind : m.kind? = some .varName
  name : names m.name.text

/-- Whether an event declares one of the given names in the synthetic unit. -/
def IsAdded (p : Program) (names : String → Prop) (e : Event) : Prop :=
  ∃ m, e = .meets m ScopeTree.externScope ∧ p.DeclaresAdded names m

/-- The outline of a synthetic unit is that of its statements. -/
theorem outline_syntheticRoot (statements : List Ast.Node) :
    (syntheticRoot statements).outline = statements.flatMap fun n => n.reading.plain := by
  rw [Ast.Node.outline, syntheticRoot, Ast.Node.reading_mk]
  exact List.flatMap_map ..

/-- The mention of a name in the statement that declares it. -/
def syntheticMention (unit first : Nat) (name : String) : Mention :=
  ⟨unit, ⟨first, nowhere, name⟩, Place.top true, .declares .varName (first + 1) false false⟩

/-- A synthetic statement adds one declaration at the end. -/
theorem outline_extendSynthetic {u : CodeUnit} (h : IsSynthetic u) (name : String) :
    (extendSynthetic u name).root.outline = u.root.outline ++
      [.declares .varName (u.annotations.size + 1) ⟨u.annotations.size, nowhere, name⟩ false
        false] := by
  have old := outline_syntheticRoot u.root.children
  rw [← h.root] at old
  rw [extendSynthetic, outline_syntheticRoot, List.flatMap_append, ← old]
  rfl

/-- Scopes are numbered on from unit to unit. -/
theorem eventsFrom_append (p : Program) (us vs : List Nat) (next : Nat) :
    p.eventsFrom next (us ++ vs) = p.eventsFrom next us ++
      p.eventsFrom (next + ((p.eventsFrom next us).filterMap Event.opening?).length) vs := by
  induction us generalizing next with
  | nil => rfl
  | cons u us ih =>
      rw [List.cons_append, eventsFrom, ih, eventsFrom, List.append_assoc, List.filterMap_append,
        List.length_append, unitEvents_openings, List.length_map, Nat.add_assoc]

/-- An extern unit that says nothing has no events. -/
theorem events_ensureSynthetic (p : Program) : p.ensureSynthetic.2.events = p.events := by
  rw [ensureSynthetic]
  split
  · rfl
  · let q : Program :=
      { p with units := p.units.push emptySynthetic, synthetic := some p.units.size }
    have size : q.units.size = p.units.size + 1 := Array.size_push _
    have unit (u : Nat) : q.unit u = if u = p.units.size then emptySynthetic else p.unit u :=
      unit_push p emptySynthetic none u
    have old (u : Nat) (hu : u < p.units.size) : q.unit u = p.unit u := by
      rw [unit, if_neg (Nat.ne_of_lt hu)]
    have new : q.unit p.units.size = emptySynthetic := by
      rw [unit, if_pos rfl]
    have roles (u : Nat) (hu : u < p.units.size) : q.isExtern u = p.isExtern u := by
      rw [isExtern, old u hu]
      rfl
    have order : q.order = ((List.range p.units.size).filter p.isExtern ++ [p.units.size]) ++
        (List.range p.units.size).filter fun u => !p.isExtern u := by
      have isExtern : q.isExtern p.units.size = true := by
        rw [Program.isExtern, new]
        rfl
      rw [Program.order, size, List.range_succ, List.filter_append, List.filter_append]
      have externs : (List.range p.units.size).filter q.isExtern =
          (List.range p.units.size).filter p.isExtern :=
        List.filter_congr fun u hu => roles u (List.mem_range.mp hu)
      have sources : ((List.range p.units.size).filter fun u => !q.isExtern u) =
          (List.range p.units.size).filter fun u => !p.isExtern u :=
        List.filter_congr fun u hu => by rw [roles u (List.mem_range.mp hu)]
      rw [externs, sources]
      simp [isExtern]
    have silent (next : Nat) : q.eventsFrom next [p.units.size] = [] := by
      have outline : (q.unit p.units.size).root.outline = [] := by
        rw [new]
        rfl
      rw [eventsFrom, unitEvents, outline]
      rfl
    show q.eventsFrom _ q.order = p.eventsFrom _ p.order
    rw [order, eventsFrom_append, eventsFrom_append, silent, List.append_nil, ← eventsFrom_append]
    refine eventsFrom_congr (fun u hu => ?_) _
    have hu : u < p.units.size := mem_order.mp hu
    exact ⟨roles u hu, congrArg CodeUnit.root (old u hu)⟩

/-- Extending one unit by a declaration inserts an event. -/
theorem eventsFrom_extended {p q : Program} (unit first : Nat) {name : String}
    (names : String → Prop) (hn : names name) (roles : q.isExtern unit = true)
    {units : List Nat}
    (h : ∀ u ∈ units, q.isExtern u = p.isExtern u ∧
      (q.unit u).root.outline = (p.unit u).root.outline ++
        if u = unit then
          [.declares .varName (first + 1) ⟨first, nowhere, name⟩ false false]
        else []) (next : Nat) :
    Extended (q.IsAdded names) (p.eventsFrom next units) (q.eventsFrom next units) := by
  induction units generalizing next with
  | nil => exact .nil
  | cons u units ih =>
      obtain ⟨same, outline⟩ := h u (List.mem_cons_self ..)
      have later := fun next => ih (fun v hv => h v (List.mem_cons_of_mem _ hv)) next
      have openings : (Outline.openingsAll (q.unit u).root.outline).length =
          (Outline.openingsAll (p.unit u).root.outline).length := by
        rw [outline, Outline.openingsAll_append]
        split <;> simp [Outline.openingsAll, Outline.openings]
      rw [eventsFrom, eventsFrom, openings]
      refine .append ?_ (later _)
      rw [unitEvents, unitEvents, outline, same, Outline.eventsAll_append]
      by_cases hu : u = unit
      · rw [if_pos hu, ← same, hu, roles]
        exact .concat _ ⟨syntheticMention unit first name, rfl, roles, rfl, rfl, hn⟩
      · rw [if_neg hu]
        show Extended _ _ (_ ++ [])
        rw [List.append_nil]
        exact .refl _

theorem Sound.isExtern_declareSynthetic {p : Program} (h : p.Sound) (name : String) (u : Nat) :
    (p.declareSynthetic name).2.isExtern u = p.ensureSynthetic.2.isExtern u := by
  rw [isExtern, h.unit_declareSynthetic, isExtern]
  split <;> rfl

/-- Declaring a name in the synthetic unit inserts an event. -/
theorem Sound.events_declareSynthetic {p : Program} (h : p.Sound) {name : String}
    (names : String → Prop) (hn : names name) :
    Extended ((p.declareSynthetic name).2.IsAdded names) p.events
      (p.declareSynthetic name).2.events := by
  obtain ⟨sound, hs⟩ := h.ensureSynthetic
  obtain ⟨_, synthetic⟩ := sound.synthetic _ hs
  let r := p.ensureSynthetic.2
  let id := p.ensureSynthetic.1
  let q := (p.declareSynthetic name).2
  have size : q.units.size = r.units.size := size_modifyUnit _ _ _
  have roles (u : Nat) : q.isExtern u = r.isExtern u := h.isExtern_declareSynthetic name u
  have isExtern : q.isExtern id = true := (roles id).trans synthetic.isExtern
  rw [← events_ensureSynthetic p]
  show Extended _ (r.eventsFrom _ r.order) (q.eventsFrom _ q.order)
  rw [order_congr size fun u _ => roles u]
  refine eventsFrom_extended id (r.unit id).annotations.size names hn isExtern
    (fun u _ => ⟨roles u, ?_⟩) _
  rw [h.unit_declareSynthetic]
  by_cases hu : u = id
  · rw [if_pos hu, if_pos hu, hu, outline_extendSynthetic synthetic name]
  · rw [if_neg hu, if_neg hu, List.append_nil]

/-- A name that is declared in the synthetic unit is mentioned there. -/
theorem Sound.mention_declareSynthetic {p : Program} (h : p.Sound) (name : String) :
    ∃ m ∈ (p.declareSynthetic name).2.mentions,
      (p.declareSynthetic name).2.DeclaresAdded (· = name) m := by
  obtain ⟨sound, hs⟩ := h.ensureSynthetic
  obtain ⟨lt, synthetic⟩ := sound.synthetic _ hs
  let r := p.ensureSynthetic.2
  let id := p.ensureSynthetic.1
  let q := (p.declareSynthetic name).2
  have isExtern : q.isExtern id = true :=
    (h.isExtern_declareSynthetic name id).trans synthetic.isExtern
  have root : (q.unit id).root = syntheticRoot ((r.unit id).root.children ++
      [syntheticStatement (r.unit id).annotations.size name]) := by
    rw [h.unit_declareSynthetic, if_pos rfl]
    rfl
  refine ⟨syntheticMention id (r.unit id).annotations.size name, ?_, isExtern, rfl, rfl, rfl⟩
  refine List.mem_flatMap.mpr ⟨id, mem_order.mpr ((size_modifyUnit _ _ _).symm ▸ lt), ?_⟩
  show _ ∈ (q.unit id).root.mentions id (Place.top (q.isExtern id)) .plain
  rw [isExtern, root, syntheticRoot,
    Ast.Node.mentions_mk _ _ _ _ (.sourceFile _) (fun _ h => nomatch h)]
  refine List.mem_flatMap.mpr ⟨⟨syntheticStatement (r.unit id).annotations.size name,
    Place.top true, .plain⟩, ?_, List.mem_singleton_self _⟩
  exact List.mem_map.mpr ⟨_, List.mem_append_right _ (List.mem_singleton_self _), rfl⟩

end Program

end DeclCheck
