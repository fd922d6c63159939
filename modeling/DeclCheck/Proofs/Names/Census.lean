import DeclCheck.Proofs.Names.Descent
import DeclCheck.Proofs.Names.Handling
import DeclCheck.Proofs.Names.Meaning
import DeclCheck.Proofs.Program.Identifiers

/-! # Every identifier is handled once

    The mentions of a program are the identifiers of its trees, and each of
    them is handled once: as the name of a declaration or as a reference.
    Labels and property names are not handled.  The names of a unit are
    handled in the order in which they stand in its text, and the units are
    handled one after the other, the externs first. -/

namespace DeclCheck

open Ast (Node Shape)

/-- Two orders that a list follows agree on its members. -/
theorem iff_of_pairwise {α : Type} {R S : α → α → Prop} {as : List α} (hR : as.Pairwise R)
    (hS : as.Pairwise S) (asymmR : ∀ a b, R a b → ¬ R b a) (asymmS : ∀ a b, S a b → ¬ S b a)
    {a b : α} (ha : a ∈ as) (hb : b ∈ as) : R a b ↔ S a b := by
  obtain ⟨i, hi, rfl⟩ := List.getElem_of_mem ha
  obtain ⟨j, hj, rfl⟩ := List.getElem_of_mem hb
  rw [List.pairwise_iff_getElem] at hR hS
  rcases Nat.lt_trichotomy i j with lt | rfl | lt
  · exact iff_of_true (hR i j hi hj lt) (hS i j hi hj lt)
  · exact iff_of_false (fun h => asymmR _ _ h h) fun h => asymmS _ _ h h
  · exact iff_of_false (asymmR _ _ (hR j i hj hi lt)) (asymmS _ _ (hS j i hj hi lt))

/-! ## Mentions and identifiers -/

namespace Ast.Node

/-- The name that a node is, where it stands. -/
def occurrence (n : Node) : Occurrence := ⟨n.id, n.span, n.nameText?.getD ""⟩

/-- The mentions of a node are its identifiers, in order. -/
theorem mentions_names (unit : Nat) (n : Node) (around : List Place) (role : PartRole) :
    (n.mentions unit around role).map (fun m => (m.unit, m.name)) =
      n.identifiers.map fun k => (unit, k.occurrence) := by
  induction n using Node.induct generalizing around role with
  | node i s f sh ih =>
      rw [identifiers_mk]
      by_cases identifier : ∃ text, sh = .identifier text
      · obtain ⟨text, rfl⟩ := identifier
        rfl
      · have other : sh.isIdentifier = false := by
          cases sh <;> first | rfl | exact absurd ⟨_, rfl⟩ identifier
        have parts := Shape.standings_parts ⟨unit, i⟩ around role sh
        rw [mentions_mk unit i s f sh fun text same => identifier ⟨text, same⟩, mentionsOf, other,
          if_neg Bool.false_ne_true, List.append_nil, List.map_flatMap, List.map_flatMap, ← parts,
          List.flatMap_map]
        refine List.flatMap_congr fun t ht => ih t.part ?_ t.around t.role
        rw [← parts]
        exact List.mem_map_of_mem ht

end Ast.Node

namespace Program

/-- The identifiers of a program, each with its unit. -/
def identifiers (p : Program) : List (Nat × Node) :=
  p.order.flatMap fun unit => (p.unit unit).root.identifiers.map fun n => (unit, n)

theorem mem_identifiers {p : Program} {unit : Nat} {n : Node} :
    (unit, n) ∈ p.identifiers ↔ unit ∈ p.order ∧ n ∈ (p.unit unit).root.identifiers := by
  simp only [identifiers, List.mem_flatMap, List.mem_map, Prod.mk.injEq]
  constructor
  · rintro ⟨_, hu, _, hn, rfl, rfl⟩
    exact ⟨hu, hn⟩
  · rintro ⟨hu, hn⟩
    exact ⟨unit, hu, n, hn, rfl, rfl⟩

/-- The mentions of a program are its identifiers, in order. -/
theorem mentions_identifiers (p : Program) :
    p.mentions.map (fun m => (m.unit, m.name)) =
      p.identifiers.map fun s => (s.1, s.2.occurrence) := by
  rw [mentions, identifiers, List.map_flatMap, List.map_flatMap]
  refine List.flatMap_congr fun unit _ => ?_
  rw [Node.mentions_names, List.map_map]
  rfl

/-! ## The order of the identifiers -/

/-- Whether a name of a unit comes before another one: its unit comes first,
    or it stands first in the text of the unit.  In the synthetic unit, which
    has no text, the numbers of the nodes take the place of positions. -/
def Precedes (p : Program) (a b : Nat × Occurrence) : Prop :=
  p.order.idxOf a.1 < p.order.idxOf b.1 ∨
    a.1 = b.1 ∧
      if p.synthetic = some a.1 then a.2.node < b.2.node else a.2.span.start < b.2.span.start

theorem Precedes.asymm {p : Program} {a b : Nat × Occurrence} (h : p.Precedes a b) :
    ¬ p.Precedes b a := by
  rintro (earlier | ⟨same, before⟩) <;> rcases h with earlier' | ⟨same', before'⟩
  · omega
  · rw [same'] at earlier
    omega
  · rw [same] at earlier'
    omega
  · rw [same] at before
    split at before <;> rename_i text
    · rw [if_pos text] at before'
      omega
    · rw [if_neg text] at before'
      omega

/-- Later units have higher places in the order of a program. -/
theorem order_ascends (p : Program) :
    p.order.Pairwise fun u v => p.order.idxOf u < p.order.idxOf v := by
  rw [List.pairwise_iff_getElem]
  intro i j hi hj lt
  rw [p.order_nodup.idxOf_getElem i hi, p.order_nodup.idxOf_getElem j hj]
  exact lt

/-- The extern units come first. -/
theorem idxOf_lt_of_isExtern {p : Program} {u v : Nat} (hu : u ∈ p.order)
    (external : p.isExtern u = true) (source : p.isExtern v = false) :
    p.order.idxOf u < p.order.idxOf v := by
  rw [mem_order] at hu
  let externs := (List.range p.units.size).filter p.isExtern
  have first : u ∈ externs := List.mem_filter.mpr ⟨List.mem_range.mpr hu, external⟩
  have second : v ∉ externs := by
    intro mem
    rw [(List.mem_filter.mp mem).2] at source
    cases source
  rw [order, List.idxOf_append_of_mem first, List.idxOf_append_of_notMem second]
  have := List.idxOf_lt_length_of_mem first
  omega

variable {p : Program}

/-- The identifiers of a built program come one before the other. -/
theorem Built.identifiers_ordered (h : p.Built) :
    (p.identifiers.map fun s => (s.1, s.2.occurrence)).Pairwise p.Precedes := by
  rw [List.pairwise_map, identifiers, List.pairwise_flatMap]
  constructor
  · intro unit hu
    have lt := mem_order.mp hu
    rw [List.pairwise_map]
    by_cases text : p.synthetic = some unit
    · refine (List.pairwise_map.mp (h.ascends unit lt)).imp fun ascends => .inr ⟨rfl, ?_⟩
      rw [if_pos text]
      exact ascends
    · refine (List.pairwise_map.mp (h.starts_ascend lt text)).imp fun ascends => .inr ⟨rfl, ?_⟩
      rw [if_neg text]
      exact ascends
  · refine p.order_ascends.imp fun earlier x hx y hy => .inl ?_
    obtain ⟨_, _, rfl⟩ := List.mem_map.mp hx
    obtain ⟨_, _, rfl⟩ := List.mem_map.mp hy
    exact earlier

/-- No two identifiers of a built program are the same node. -/
theorem Built.identifiers_nodup (h : p.Built) :
    (p.identifiers.map fun s => (⟨s.1, s.2.id⟩ : UnitNode)).Nodup := by
  rw [identifiers, List.map_flatMap, List.nodup_flatMap]
  constructor
  · intro unit hu
    rw [List.map_map]
    have ascends := List.pairwise_map.mp (h.ascends unit (mem_order.mp hu))
    refine List.pairwise_map.mpr (ascends.imp fun {a b} lt same => ?_)
    have same : a.id = b.id := congrArg UnitNode.node same
    exact absurd lt (Nat.not_lt.mpr (Nat.le_of_eq same.symm))
  · refine p.order_nodup.imp fun apart x hx hy => apart ?_
    simp only [List.map_map] at hx hy
    obtain ⟨_, _, rfl⟩ := List.mem_map.mp hx
    obtain ⟨_, _, same⟩ := List.mem_map.mp hy
    exact (congrArg UnitNode.unit same).symm

/-- The number of a node tells the node. -/
theorem Built.node_eq (h : p.Built) {unit : Nat} (hu : unit ∈ p.order) {n k : Node}
    (hn : n ∈ (p.unit unit).root.postorder) (hk : k ∈ (p.unit unit).root.postorder)
    (same : n.id = k.id) : n = k :=
  List.inj_on_of_nodup_map (h.sound.unit unit (mem_order.mp hu)).nodup hn hk same

/-! ## What is done with the names of a program -/

/-- The steps of collecting a program. -/
def handlings (p : Program) (o : Options) : List Handling :=
  Collection.handlings p o .initial p.events

/-- The declarations that are proposed to the scope tree. -/
def proposals (p : Program) (o : Options) : List Proposal :=
  (p.handlings o).filterMap Handling.proposal?

/-- The names that are handled. -/
def handledNames (p : Program) (o : Options) : List HandledName :=
  (p.handlings o).filterMap Handling.name?

variable {o : Options}

theorem Built.handledNames_eq (h : p.Built) (o : Options) :
    p.handledNames o = p.mentions.zipIdx.map HandledName.ofMention := by
  rw [handledNames, handlings, Collection.names_handlings, h.events_mentions]
  rfl

/-- The names that are handled are the identifiers of the program. -/
theorem Built.handledNames_names (h : p.Built) (o : Options) :
    (p.handledNames o).map (fun a => (a.unit, a.name)) =
      p.identifiers.map fun s => (s.1, s.2.occurrence) := by
  rw [h.handledNames_eq o, ← p.mentions_identifiers, List.map_map]
  have unnumbered := List.zipIdx_map_fst 0 p.mentions
  calc p.mentions.zipIdx.map ((fun a => (a.unit, a.name)) ∘ HandledName.ofMention)
      = (p.mentions.zipIdx.map Prod.fst).map fun m => (m.unit, m.name) := by
        rw [List.map_map]
        rfl
    _ = p.mentions.map fun m => (m.unit, m.name) := by rw [unnumbered]

theorem Built.handledNames_orders (h : p.Built) (o : Options) :
    (p.handledNames o).map HandledName.order = List.range p.mentions.length := by
  rw [h.handledNames_eq o, List.map_map, List.range_eq_range']
  exact List.zipIdx_map_snd 0 p.mentions

/-- Two ways down to an identifier of a unit meet it in the same role, as far
    as names go. -/
theorem Built.mentionRole_eq (h : p.Built) {unit : Nat} (hu : unit ∈ p.order)
    {s t : Standing Node} {around : List Place} (top : around = Place.top (p.isExtern unit))
    (hs : Standing.Leads unit ⟨(p.unit unit).root, around, .plain⟩ s)
    (ht : Standing.Leads unit ⟨(p.unit unit).root, around, .plain⟩ t) (same : s.part = t.part)
    {text : String} (identifier : t.part.shape = .identifier text) :
    s.role.mentionRole s.part.id = t.role.mentionRole t.part.id := by
  have mention {s : Standing Node}
      (hs : Standing.Leads unit ⟨(p.unit unit).root, around, .plain⟩ s)
      (identifier : s.part.shape = .identifier text) :
      ⟨unit, ⟨s.part.id, s.part.span, text⟩, s.around, s.role.mentionRole s.part.id⟩ ∈
        p.mentions := by
    rw [top] at hs
    exact List.mem_flatMap.mpr
      ⟨unit, hu, (Standing.mem_mentions _ _ _).mpr ⟨s, hs, text, identifier, rfl⟩⟩
  have nodes : p.mentions.map (fun m => (⟨m.unit, m.name.node⟩ : UnitNode)) =
      p.identifiers.map fun s => ⟨s.1, s.2.id⟩ := by
    have names := congrArg (List.map fun x : Nat × Occurrence => (⟨x.1, x.2.node⟩ : UnitNode))
      p.mentions_identifiers
    rwa [List.map_map, List.map_map] at names
  have unique := h.identifiers_nodup
  rw [← nodes] at unique
  have number : (⟨unit, s.part.id⟩ : UnitNode) = ⟨unit, t.part.id⟩ := by rw [same]
  exact congrArg Mention.role
    (List.inj_on_of_nodup_map unique (mention hs (same ▸ identifier))
      (mention ht identifier) number)

/-- A reference changes its name, or is an object, as the tree of its unit
    says. -/
theorem Built.marks (h : p.Built) {r : Reference}
    (hr : r ∈ (p.handlings o).filterMap Handling.reference?) {n : Node}
    (hn : n ∈ (p.unit r.node.unit).root.postorder) (number : n.id = r.node.node) :
    (r.isChange = true ↔ (p.unit r.node.unit).root.Changes n) ∧
      (r.isObject = true ↔ (p.unit r.node.unit).root.HasObject n) := by
  obtain ⟨m, hm, node, role⟩ := Collection.mention_of_referred p o p.events _ r hr
  rw [h.events_mentions] at hm
  obtain ⟨unit, hu, hm⟩ := List.mem_flatMap.mp hm
  obtain ⟨t, leads, text, identifier, rfl⟩ := (Standing.mem_mentions _ _ _).mp hm
  rw [node] at hn number ⊢
  obtain rfl : t.part = n := h.node_eq hu leads.mem_postorder hn number.symm
  have marks := PartRole.mentionRole_eq_refers role
  -- another way down to the node meets it in the same role
  have others {s : Standing Node} (hs : Standing.Leads unit
      ⟨(p.unit unit).root, Place.top (p.isExtern unit), .plain⟩ s) (same : s.part = t.part) :
      (r.isObject = true ↔ s.role = .object) ∧ r.isChange = s.role.changes :=
    PartRole.mentionRole_eq_refers ((h.mentionRole_eq hu rfl hs leads same identifier).trans role)
  rw [← Standing.changes_iff unit _ _ (Place.top (p.isExtern unit)),
    ← Standing.object_iff unit _ _ (Place.top (p.isExtern unit))]
  constructor
  · constructor
    · intro changes
      exact ⟨t, leads, rfl, marks.2.symm.trans changes⟩
    · rintro ⟨s, hs, same, changes⟩
      exact (others hs same).2.trans changes
  · constructor
    · intro object
      exact ⟨t, leads, rfl, marks.1.mp object⟩
    · rintro ⟨s, hs, same, object⟩
      exact (others hs same).1.mpr object

/-- Each node of a unit is handled once if it is an identifier, else never. -/
theorem Built.countP_handledNames (h : p.Built) (o : Options) {unit : Nat} (hu : unit ∈ p.order)
    {n : Node} (hn : n ∈ (p.unit unit).root.postorder) :
    (p.handledNames o).countP (fun a => a.node == ⟨unit, n.id⟩) =
      if n.isIdentifier then 1 else 0 := by
  have nodes : (p.handledNames o).map HandledName.node =
      p.identifiers.map fun s => ⟨s.1, s.2.id⟩ := by
    have names := congrArg (List.map fun x : Nat × Occurrence => (⟨x.1, x.2.node⟩ : UnitNode))
      (h.handledNames_names o)
    rwa [List.map_map, List.map_map] at names
  have counted : (p.handledNames o).countP (fun a => a.node == ⟨unit, n.id⟩) =
      ((p.handledNames o).map HandledName.node).count ⟨unit, n.id⟩ := by
    rw [List.count, List.countP_map]
    rfl
  rw [counted, nodes]
  by_cases identifier : n.isIdentifier = true
  · rw [if_pos identifier]
    refine List.count_eq_one_of_mem h.identifiers_nodup ?_
    have mem : n ∈ (p.unit unit).root.identifiers := List.mem_filter.mpr ⟨hn, identifier⟩
    exact List.mem_map.mpr ⟨(unit, n), mem_identifiers.mpr ⟨hu, mem⟩, rfl⟩
  · rw [if_neg identifier]
    refine List.count_eq_zero.mpr fun mem => identifier ?_
    obtain ⟨⟨u, k⟩, hk, same⟩ := List.mem_map.mp mem
    obtain rfl : u = unit := congrArg UnitNode.unit same
    obtain ⟨hk, found⟩ := List.mem_filter.mp (mem_identifiers.mp hk).2
    rwa [← h.node_eq hu hk hn (congrArg UnitNode.node same)]

/-- The order numbers follow the order of the identifiers. -/
theorem Built.order_lt_iff (h : p.Built) (o : Options) {a b : HandledName}
    (ha : a ∈ p.handledNames o) (hb : b ∈ p.handledNames o) :
    a.order < b.order ↔ p.Precedes (a.unit, a.name) (b.unit, b.name) := by
  have numbered : (p.handledNames o).Pairwise fun a b => a.order < b.order := by
    have range := List.pairwise_lt_range (n := p.mentions.length)
    rw [← h.handledNames_orders o, List.pairwise_map] at range
    exact range
  have standing := h.identifiers_ordered
  rw [← h.handledNames_names o, List.pairwise_map] at standing
  exact iff_of_pairwise numbered standing (fun _ _ => Nat.lt_asymm)
    (fun _ _ => Precedes.asymm) ha hb

/-- Collecting a program handles each identifier of its trees once. -/
structure HandlesOnce (p : Program) (o : Options) : Prop where
  /-- The steps make the collection. -/
  replayed : (p.handlings o).foldl (Collection.handle p o) .initial = Collection.ofProgram p o
  /-- The references are those that the steps record. -/
  recorded : (Collection.ofProgram p o).references.toList =
    (p.handlings o).filterMap Handling.reference?
  /-- A node is the name of one declaration that is proposed, or the node of
      one reference that is recorded, if it is an identifier, else it is
      neither. -/
  once : ∀ unit ∈ p.order, ∀ n ∈ (p.unit unit).root.postorder,
    (p.proposals o).countP (fun q => q.site.nameNode == ⟨unit, n.id⟩) +
        (Collection.ofProgram p o).references.toList.countP (fun r => r.node == ⟨unit, n.id⟩) =
      if n.isIdentifier then 1 else 0
  /-- What is handled is an identifier of a unit, as it stands there. -/
  identified : ∀ a ∈ p.handledNames o, a.unit ∈ p.order ∧
    ∃ n ∈ (p.unit a.unit).root.identifiers, a.name = n.occurrence
  /-- A reference changes its name exactly if its node is changed by the tree. -/
  changes : ∀ r ∈ (Collection.ofProgram p o).references.toList,
    ∀ n ∈ (p.unit r.node.unit).root.postorder, n.id = r.node.node →
      (r.isChange = true ↔ (p.unit r.node.unit).root.Changes n)
  /-- A reference is an object exactly if its node is the object of a property. -/
  objects : ∀ r ∈ (Collection.ofProgram p o).references.toList,
    ∀ n ∈ (p.unit r.node.unit).root.postorder, n.id = r.node.node →
      (r.isObject = true ↔ (p.unit r.node.unit).root.HasObject n)
  /-- Each declaration that is proposed has an order number, as each reference
      has. -/
  numbered : ∀ q ∈ p.proposals o, q.site.order.isSome = true
  /-- The order numbers are given out one after the other. -/
  orders : (p.handledNames o).map HandledName.order =
    List.range (Collection.ofProgram p o).nameCount
  /-- The order numbers follow the order of the identifiers. -/
  ordered : ∀ a ∈ p.handledNames o, ∀ b ∈ p.handledNames o,
    (a.order < b.order ↔ p.Precedes (a.unit, a.name) (b.unit, b.name))
  /-- The names of extern units come before those of sources. -/
  externsFirst : ∀ a ∈ p.handledNames o, ∀ b ∈ p.handledNames o,
    p.isExtern a.unit = true → p.isExtern b.unit = false → a.order < b.order

/-- Collecting a built program handles each identifier once, in order. -/
theorem Built.handlesOnce (h : p.Built) (o : Options) : p.HandlesOnce o := by
  have recorded : (Collection.ofProgram p o).references.toList =
      (p.handlings o).filterMap Handling.reference? := by
    rw [Collection.ofProgram_eq_run, Collection.run_eq_handle, Collection.references_handle]
    rfl
  have numbered := Collection.isSome_order_handlings p o p.events .initial
  have identified (a : HandledName) (ha : a ∈ p.handledNames o) :
      a.unit ∈ p.order ∧ ∃ n ∈ (p.unit a.unit).root.identifiers, a.name = n.occurrence := by
    have name : (a.unit, a.name) ∈ p.identifiers.map fun s => (s.1, s.2.occurrence) := by
      rw [← h.handledNames_names o]
      exact List.mem_map_of_mem ha
    obtain ⟨⟨unit, n⟩, hn, same⟩ := List.mem_map.mp name
    obtain ⟨rfl, same⟩ := Prod.mk.inj same
    obtain ⟨hu, hn⟩ := mem_identifiers.mp hn
    exact ⟨hu, n, hn, same.symm⟩
  constructor
  · rw [Collection.ofProgram_eq_run, Collection.run_eq_handle]
    rfl
  · exact recorded
  · intro unit hu n hn
    rw [← h.countP_handledNames o hu hn, recorded]
    exact Handling.countP_names _ numbered _
  · exact identified
  · intro r hr n hn number
    rw [recorded] at hr
    exact (h.marks hr hn number).1
  · intro r hr n hn number
    rw [recorded] at hr
    exact (h.marks hr hn number).2
  · exact numbered
  · rw [h.handledNames_orders o, (h.reads o).count]
  · exact fun a ha b hb => h.order_lt_iff o ha hb
  · intro a ha b hb external source
    refine (h.order_lt_iff o ha hb).mpr (.inl ?_)
    exact idxOf_lt_of_isExtern (identified a ha).1 external source

/-- Of the names of a text, one declares, and the variable of a shorthand
    property, an assigned name in parentheses and an object refer.  The label
    and the properties are not handled. -/
theorem Built.handlesOnce_shorthand :
    (ofSource .es2015 "a.js" "var a = {b}; c: (a) = a.d;").HandlesOnce .standard ∧
      (Collection.ofProgram (ofSource .es2015 "a.js" "var a = {b}; c: (a) = a.d;")
          .standard).references.toList.map (fun r => (r.name, r.isChange, r.isObject, r.order)) =
        [("b", false, false, 1), ("a", true, false, 2), ("a", false, true, 3)] := by
  have built : (ofSource .es2015 "a.js" "var a = {b}; c: (a) = a.d;").Built :=
    built_ofSource (by decide +kernel) "a.js"
  exact ⟨built.handlesOnce .standard, by decide +kernel⟩

end Program

end DeclCheck
