import DeclCheck.Proofs.Names.Standing

/-! # Declarations of the externs

    A declaration belongs to the externs or to the sources by the scope it was
    made in, and so by the places around that scope.  Where walks see
    everything, a name of an extern unit therefore means a declaration of the
    externs or nothing at all. -/

namespace DeclCheck

/-- Whether the nearest top level among places is that of the externs, as far
    as a walk up the scopes sees. -/
def Place.lieInExterns (around : List Place) : Bool :=
  ((around.take ScopeTree.maxWalk).findSome? isExtern?).getD false

/-- The nearest top level around a place of an extern unit is that of the
    externs. -/
theorem Place.lieInExterns_of_extern {inner around : List Place}
    (hi : ∀ place ∈ inner, place.isInner = true) (inside : around <:+ inner ++ top true)
    (nonempty : around ≠ []) (near : around.length ≤ ScopeTree.maxWalk) :
    lieInExterns around = true := by
  obtain ⟨before, split⟩ := inside
  -- the places end with the externs, and there is no top level before them
  have ends : ∃ inner', around = inner' ++ top true ∧ ∀ place ∈ inner', place.isInner = true := by
    rcases List.append_eq_append_iff.mp split with ⟨inner', rfl, here⟩ | ⟨later, rfl, here⟩
    · exact ⟨inner', here, fun place hp => hi place (List.mem_append_right _ hp)⟩
    · have whole : later = [] := by
        have lengths := congrArg List.length here
        have := List.length_pos_iff.mpr nonempty
        rw [List.length_append] at lengths
        exact List.length_eq_zero_iff.mp (by simp [top] at lengths; omega)
      rw [whole] at here
      exact ⟨[], here.symm, List.forall_mem_nil _⟩
  obtain ⟨inner', rfl, hi'⟩ := ends
  have silent : inner'.findSome? isExtern? = none := by
    rw [List.findSome?_eq_none_iff]
    intro place hp
    have inside := hi' place hp
    cases place <;> first | rfl | cases inside
  rw [lieInExterns, List.take_of_length_le near, List.findSome?_append, silent]
  rfl

namespace ScopeTree

/-- Each declaration belongs to the externs exactly if its scope does. -/
def Sided (t : ScopeTree) (l : Layout) : Prop :=
  ∀ i d, t.declaration? i = some d →
    ∃ around, l[d.scope]? = some around ∧ d.isExtern = Place.lieInExterns around

namespace Sided

variable {t t' : ScopeTree} {l : Layout}

/-- A scope is opened. -/
theorem openFor (h : t.Sided l) (follows : t.Follows l) (opener : ScopeOpener) {scope : Nat}
    (node : UnitNode) {around : List Place} (hs : l[scope]? = some around) :
    (t.openFor opener scope node).2.Sided (l ++ [opener.place node :: around]) := by
  have old (i : Nat) (d : Declaration) (hd : t.declaration? i = some d) :
      ∃ around', (l ++ [opener.place node :: around])[d.scope]? = some around' ∧
        d.isExtern = Place.lieInExterns around' := by
    obtain ⟨around', hl, side⟩ := h i d hd
    exact ⟨around', Layout.extend hl _, side⟩
  have declarations := declarations_openFor t opener scope node
  intro i d hd
  split at declarations
  · rename_i function
    subst function
    have all : (t.openFor .function scope node).2.declaration? i =
        if i = t.declarations.size then some (t.argumentsOf scope node) else t.declaration? i :=
      declaration?_push declarations i
    rw [all] at hd
    split at hd
    · -- the arguments belong to the scope that is opened for them
      cases hd
      have opened := follows.openFor .function node hs
      have here : (l ++ [ScopeOpener.function.place node :: around])[t.scopes.size]? =
          some (ScopeOpener.function.place node :: around) := by
        rw [follows.size]
        exact List.getElem?_concat_length
      have frame : SameFrame (t.openScope .function (some scope) node).2
          (t.openFor .function scope node).2 :=
        fun id => (frame?_openScope t .function scope node id).trans
          (frame?_openFor t .function scope node id).symm
      exact ⟨_, here, (frame.liesInExterns _).trans (opened.liesInExterns_eq here)⟩
    · exact old i d hd
  · have all : (t.openFor opener scope node).2.declaration? i = t.declaration? i :=
      congrArg (·[i]?) declarations
    rw [all] at hd
    exact old i d hd

/-- A name is declared. -/
theorem change (h : t.Sided l) (follows : t.Follows l) {scope : Nat} {around : List Place}
    (hs : l[scope]? = some around) {new : Proposal} (c : Change t scope new t') : t'.Sided l := by
  intro i d hd
  cases c with
  | made _ _ declarations =>
      rw [declaration?, declaration?_push declarations] at hd
      split at hd
      · cases hd
        have lt := follows.targetOf_lt hs new.kind
        rw [follows.size] at lt
        have here := List.getElem?_eq_getElem lt
        exact ⟨_, here, follows.liesInExterns_eq here⟩
      · exact h i d hd
  | merged existing _ _ _ _ declarations =>
      rw [declaration?, declaration?_modify declarations] at hd
      split at hd
      · obtain ⟨d', found, rfl⟩ := Option.map_eq_some_iff.mp hd
        exact h i d' found
      · exact h i d hd

end Sided

end ScopeTree

namespace Program

variable {p : Program}

/-- The declarations of a collected program belong where their scopes do. -/
theorem Built.sided (h : p.Built) (o : Options) :
    (Collection.ofProgram p o).tree.Sided p.layout := by
  refine h.induct o (I := fun c l _ => c.tree.Sided l) ?_ ?_
  · intro i d hd
    cases hd
  · intro e _ c l ms reads _ stands sided
    cases e with
    | opens opener node scope around => exact sided.openFor reads.follows opener node stands
    | meets m scope =>
        show (c.meet p o scope m).tree.Sided l
        rw [Collection.meet]
        cases m.role with
        | refers isObject isChange => exact sided
        | declares kind node hasInitializer byLoop =>
            exact sided.change reads.follows stands
              (ScopeTree.declare_change (reads.follows.targetOf_lt stands kind))

end Program

namespace Collection.Reads

variable {p : Program} {c : Collection} {m : Mention} {scope i : Nat}

/-- What a name resolves to is a declaration in the scope of a place around
    it. -/
theorem resolve_scope (h : c.Reads p.layout p.mentions) (distinct : p.layout.places.Nodup)
    (consistent : c.tree.Consistent) (hs : p.layout[scope]? = some m.around)
    (resolved : c.tree.resolve scope m.name.text = some i) :
    ∃ d place rest, c.tree.declaration? i = some d ∧ p.layout[d.scope]? = some (place :: rest) ∧
      place :: rest <:+ m.around := by
  have meaning := h.resolve hs
  rw [resolved] at meaning
  generalize meant : m.near.meaning? (p.mentions.map Mention.near) = place? at meaning
  cases meaning with
  | @some _ place here =>
      obtain ⟨j, rest, hj, found⟩ := here
      obtain ⟨d, declared, -, scope⟩ := consistent.named j m.name.text i found
      -- the place is one of those around the mention, so its scope has their rest around it
      have mem : place ∈ m.around :=
        (List.take_sublist _ _).subset (List.mem_of_find?_eq_some meant)
      obtain ⟨before, after, split⟩ := List.append_of_mem mem
      have inside : place :: after <:+ m.around := split ▸ List.suffix_append before _
      obtain ⟨j', hj'⟩ := h.follows.suffix hs inside
      rw [Layout.unique distinct hj hj'] at scope
      exact ⟨d, place, after, declared, by rw [scope]; exact hj', inside⟩

/-- A name of an extern unit means a declaration of the externs. -/
theorem isExtern_of_resolve (h : c.Reads p.layout p.mentions) (distinct : p.layout.places.Nodup)
    (consistent : c.tree.Consistent) (sided : c.tree.Sided p.layout) (shallow : p.Shallow)
    (hm : m ∈ p.mentions) (external : p.isExtern m.unit = true)
    (hs : p.layout[scope]? = some m.around)
    (resolved : c.tree.resolve scope m.name.text = some i) :
    (c.tree.declaration? i).any Declaration.isExtern = true := by
  obtain ⟨d, place, rest, declared, hl, inside⟩ := h.resolve_scope distinct consistent hs resolved
  obtain ⟨around, hl', side⟩ := sided i d declared
  rw [hl] at hl'
  cases hl'
  obtain ⟨inner, split, hi⟩ := Program.mention_around hm
  have near := Nat.le_trans inside.length_le (shallow m hm)
  rw [split, external] at inside
  rw [declared, Option.any_some, side]
  exact Place.lieInExterns_of_extern hi inside (List.cons_ne_nil _ _) near

end Collection.Reads

end DeclCheck
