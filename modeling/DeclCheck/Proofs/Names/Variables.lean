import DeclCheck.Proofs.Names.Standing

/-! # Declarations and bindings

    The declarations that a collection makes of a program are its bindings:
    one declaration for each of them, in the same order, with a site for each
    mention that declares the name in the place.  Two kinds of declarations are
    left out of this count.  The name of a function expression that gave way to
    another declaration has no binding, and the arguments of a function are no
    variable of the text. -/

namespace DeclCheck

/-! ## When a declaration is that of a binding -/

/-- A site of a declaration and the mention, with its place among all mentions,
    that it comes from. -/
structure Site.ComesFrom (site : Site) (s : Mention × Nat) : Prop where
  node : site.node = s.1.declaringNode
  nameNode : site.nameNode = ⟨s.1.unit, s.1.name.node⟩
  span : site.span = s.1.name.span
  order : site.order = some s.2
  isInitialized : (site.hasInitializer && !site.byLoop) = s.1.isInitialized

/-- What is to be declared, and the mention, with its place among all mentions,
    that declares it. -/
structure Proposal.Of (new : Proposal) (p : Program) (m : Mention) (k : Nat) : Prop where
  name : new.name = m.name.text
  kind : m.kind? = some new.kind
  unit : new.unit = m.unit
  known : m.unit < p.units.size
  site : new.site.ComesFrom (m, k)
  constant : new.constant = m.isAnnotated p

/-- A mention declares what is proposed for it, where that belongs. -/
theorem Proposal.Of.declaresIn {new : Proposal} {p : Program} {m : Mention} {k : Nat}
    (h : new.Of p m k) {l : Layout} (distinct : l.places.Nodup) {i j : Nat} {home place : Place}
    {above rest : List Place} (hj : l[j]? = some (home :: above)) (hm : m.home? = some home)
    (hi : l[i]? = some (place :: rest)) (name : String) :
    m.declaresIn place name = decide (i = j ∧ name = new.name) := by
  rw [h.name]
  exact Layout.declaresIn distinct hj hm hi name

/-- A mention gives way as what is proposed for it. -/
theorem Proposal.Of.yields {new : Proposal} {p : Program} {m : Mention} {k : Nat}
    (h : new.Of p m k) : m.yields = new.kind.yields := by
  rw [Mention.yields, h.kind]
  rfl

/-- A declaration and the mention at its first site. -/
structure Declaration.StartsAt (d : Declaration) (p : Program) (m : Mention) : Prop where
  name : d.name = m.name.text
  kind : m.kind? = some d.kind
  unit : d.unit = m.unit
  known : m.unit < p.units.size
  source : p.isExtern m.unit = false → d.isExtern = false

/-- A declaration and the binding that it was made for. -/
structure Declaration.Of (d : Declaration) (p : Program) (l : Layout) (b : Binding) : Prop where
  name : d.name = b.name
  place : ∃ rest, l[d.scope]? = some (b.place :: rest)
  first : ∃ s later, b.sites = s :: later ∧ d.StartsAt p s.1
  sites : List.Forall₂ Site.ComesFrom d.sites b.sites
  constant : d.constant = b.sites.any fun s => s.1.isAnnotated p

/-- Whether a declaration has a binding: it does not give way to others, and it
    is not named as the arguments of a function are. -/
def Declaration.isBound (d : Declaration) : Bool :=
  d.name != ScopeTree.argumentsName && !d.kind.yields

/-- Whether a binding is not named as the arguments of a function are. -/
def Binding.isNamed (b : Binding) : Bool := b.name != ScopeTree.argumentsName

namespace Declaration.Of

variable {d : Declaration} {p : Program} {l : Layout} {b : Binding}

/-- More scopes do not matter. -/
theorem extend (h : d.Of p l b) (l' : Layout) : d.Of p (l ++ l') b := by
  obtain ⟨rest, hr⟩ := h.place
  exact { h with place := ⟨rest, Layout.extend hr l'⟩ }

/-- A declaration with one more site is that of the binding with one more
    mention. -/
theorem withSite (h : d.Of p l b) {new : Proposal} {m : Mention} {k : Nat}
    (declares : m.declaresIn b.place b.name = true) (of : new.Of p m k) :
    (d.withSite new).Of p l (b.extend m k) := by
  rw [Binding.extend, if_pos declares]
  obtain ⟨s, later, split, starts⟩ := h.first
  refine ⟨h.name, h.place, ⟨s, later ++ [(m, k)], ?_, ?_⟩, ?_, ?_⟩
  · show b.sites ++ _ = _
    rw [split]
    rfl
  · exact ⟨starts.name, starts.kind, starts.unit, starts.known, starts.source⟩
  · exact List.rel_append h.sites (.cons of.site .nil)
  · show (d.constant || new.constant) = (b.sites ++ [(m, k)]).any _
    rw [List.any_append, h.constant, of.constant]
    simp

end Declaration.Of

namespace ScopeTree

/-- The declarations that have bindings, in the order in which they were
    made. -/
def bound (t : ScopeTree) : List Nat :=
  (List.range t.declarations.size).filter fun i => t.holds i Declaration.isBound

/-- A declaration of a tree stands for a binding, and the name for the
    declaration. -/
def StandsFor (t : ScopeTree) (p : Program) (l : Layout) (i : Nat) (b : Binding) : Prop :=
  ∃ d, t.declaration? i = some d ∧ t.lookup d.scope d.name = some i ∧ d.isBound = true ∧ d.Of p l b

theorem bound_of_push {t t' : ScopeTree} {d : Declaration}
    (h : t'.declarations = t.declarations.push d) :
    t'.bound = t.bound ++ if d.isBound then [t.declarations.size] else [] := by
  have all (i : Nat) : t'.declaration? i =
      if i = t.declarations.size then some d else t.declaration? i := declaration?_push h i
  have old : (List.range t.declarations.size).filter (fun i => t'.holds i Declaration.isBound) =
      t.bound := by
    refine List.filter_congr fun i hi => ?_
    rw [holds, all, if_neg (Nat.ne_of_lt (List.mem_range.mp hi))]
    rfl
  have new : t'.holds t.declarations.size Declaration.isBound = d.isBound := by
    rw [holds, all, if_pos rfl]
    rfl
  rw [bound, h, Array.size_push, List.range_succ, List.filter_append, old, List.filter_singleton,
    new]
  cases d.isBound <;> rfl

theorem bound_of_modify {t t' : ScopeTree} {id : Nat} {f : Declaration → Declaration}
    (h : t'.declarations = t.declarations.modify id f)
    (same : ∀ d, (f d).isBound = d.isBound) : t'.bound = t.bound := by
  have all (i : Nat) : t'.declaration? i =
      if i = id then (t.declaration? i).map f else t.declaration? i := declaration?_modify h i
  rw [bound, h, Array.size_modify, bound]
  refine List.filter_congr fun i _ => ?_
  rw [holds, all]
  split
  · rw [Option.any_map, holds]
    congr 1
    exact funext same
  · rfl

end ScopeTree

namespace Binding

/-- The bindings of some mentions, those of the arguments left out. -/
def named (ms : List Mention) : List Binding := (all ms).filter isNamed

theorem extend_isNamed (m : Mention) (k : Nat) (b : Binding) :
    (b.extend m k).isNamed = b.isNamed := by
  rw [extend]
  split <;> rfl

theorem extend_of_not {m : Mention} {b : Binding} (h : m.declaresIn b.place b.name = false)
    (k : Nat) : b.extend m k = b := by
  rw [extend, h]
  rfl

/-- One mention more extends the named bindings or starts one. -/
theorem named_concat (ms : List Mention) (m : Mention) :
    named (ms ++ [m]) =
      (named ms).map (extend m ms.length) ++ (last? ms m).toList.filter isNamed := by
  have same : isNamed ∘ extend m ms.length = isNamed := funext (extend_isNamed m _)
  rw [named, all_concat, List.filter_append, List.filter_map, same]
  rfl

/-- A mention without a home starts no binding. -/
theorem last?_of_home {ms : List Mention} {m : Mention} (h : m.home? = none) :
    last? ms m = none := by
  rw [last?, h]
  rfl

/-- A mention starts no named binding where there is one already. -/
theorem last?_of_sites {ms : List Mention} {m : Mention} {place : Place}
    (home : m.home? = some place)
    (h : m.name.text ≠ ScopeTree.argumentsName → Mention.sites ms place m.name.text ≠ [] ∨
      m.yields = true) : (last? ms m).toList.filter isNamed = [] := by
  rw [last?, home, Option.bind_some]
  split
  · rename_i starts
    have unnamed : m.name.text = ScopeTree.argumentsName := by
      by_contra named
      rcases h named with sites | yields
      · exact sites starts.1
      · rw [starts.2] at yields
        cases yields
    rw [Option.toList_some, List.filter_singleton, isNamed]
    simp [unnamed]
  · rfl

/-- A mention starts a named binding where there is none. -/
theorem last?_of_free {ms : List Mention} {m : Mention} {place : Place}
    (home : m.home? = some place) (named : m.name.text ≠ ScopeTree.argumentsName)
    (free : Mention.sites ms place m.name.text = []) (stays : m.yields = false) :
    (last? ms m).toList.filter isNamed = [⟨place, m.name.text, [(m, ms.length)]⟩] := by
  rw [last?, home, Option.bind_some, if_pos ⟨free, stays⟩, Option.toList_some,
    List.filter_singleton]
  show (bif m.name.text != _ then _ else _) = _
  rw [bne_iff_ne.mpr named]
  rfl

end Binding

/-! ## One event after the other -/

namespace ScopeTree

/-- The declarations of a tree are the bindings of some mentions. -/
structure Binds (t : ScopeTree) (p : Program) (l : Layout) (ms : List Mention) : Prop where
  /-- What a name stands for gives way to others exactly as long as there is
      no binding. -/
  yields : ∀ id place rest name i d, name ≠ argumentsName → l[id]? = some (place :: rest) →
    t.lookup id name = some i → t.declaration? i = some d →
    (d.kind.yields = true ↔ Mention.sites ms place name = [])
  bindings : List.Forall₂ (t.StandsFor p l) t.bound (Binding.named ms)

namespace Binds

variable {t t' : ScopeTree} {p : Program} {l : Layout} {ms : List Mention}

theorem initial : initial.Binds p Layout.top [] where
  yields := by
    intro id place rest name i d _ _ found _
    match id with
    | 0 => cases found
    | 1 => cases found
    | _ + 2 => cases found
  bindings := .nil

/-- A scope is opened. -/
theorem openFor (h : t.Binds p l ms) (follows : t.Follows l) (consistent : t.Consistent)
    (opener : ScopeOpener) (scope : Nat) (node : UnitNode) (around : List Place) :
    (t.openFor opener scope node).2.Binds p (l ++ [opener.place node :: around]) ms := by
  have declarations := declarations_openFor t opener scope node
  have lookup (id : Nat) {name : String} (named : name ≠ argumentsName) :
      (t.openFor opener scope node).2.lookup id name = t.lookup id name :=
    (lookup_openFor t opener scope node id name).trans (if_neg fun h => named h.2.2)
  have old (i : Nat) (hi : i < t.declarations.size) :
      (t.openFor opener scope node).2.declaration? i = t.declaration? i := by
    by_cases function : opener = .function
    · rw [if_pos function] at declarations
      rw [declaration?, declaration?_push declarations, if_neg (Nat.ne_of_lt hi)]
    · rw [if_neg function] at declarations
      rw [declaration?, declarations]
      rfl
  have bound : (t.openFor opener scope node).2.bound = t.bound := by
    by_cases function : opener = .function
    · rw [if_pos function] at declarations
      have hidden : (t.argumentsOf scope node).isBound = false := rfl
      rw [bound_of_push declarations, hidden]
      exact List.append_nil _
    · rw [if_neg function] at declarations
      rw [ScopeTree.bound, declarations]
      refine List.filter_congr fun i hi => ?_
      rw [holds, old i (List.mem_range.mp hi)]
      rfl
  constructor
  · intro id place rest name i d named hl found declared
    rw [lookup id named] at found
    rw [old i (consistent.known found)] at declared
    have inside : id < l.length := follows.size ▸ lt_of_lookup found
    rw [List.getElem?_append_left inside] at hl
    exact h.yields id place rest name i d named hl found declared
  · rw [bound]
    refine h.bindings.imp ?_
    rintro i b ⟨d, declared, found, isBound, of⟩
    have named : d.name ≠ argumentsName := bne_iff_ne.mp ((Bool.and_eq_true _ _).mp isBound).1
    exact ⟨d, (old i (lt_of_declaration? declared)).trans declared,
      (lookup d.scope named).trans found, isBound, of.extend _⟩

/-- A mention that declares nothing. -/
theorem refers (h : t.Binds p l ms) {m : Mention} (kind : m.kind? = none) :
    t.Binds p l (ms ++ [m]) := by
  have home : m.home? = none := by
    rw [Mention.home?, kind]
    rfl
  have elsewhere (place : Place) (name : String) : m.declaresIn place name = false := by
    rw [Mention.declaresIn, home]
    rfl
  constructor
  · intro id place rest name i d named hl found declared
    rw [Mention.sites_concat_of_not (elsewhere place name)]
    exact h.yields id place rest name i d named hl found declared
  · have same : (Binding.named ms).map (Binding.extend m ms.length) = Binding.named ms :=
      (List.map_congr_left fun b _ => Binding.extend_of_not (elsewhere b.place b.name) _).trans
        (List.map_id' _)
    rw [Binding.named_concat, same, Binding.last?_of_home home]
    exact (List.append_nil (Binding.named ms)).symm ▸ h.bindings

/-- Where nothing lasting is declared, there is no binding. -/
theorem sites_of_free (h : t.Binds p l (ms.map Mention.near)) (told : t.Tells l ms)
    (consistent : t.Consistent) {id : Nat} {place : Place} {rest : List Place} {name : String}
    (named : name ≠ argumentsName) (hl : l[id]? = some (place :: rest))
    (free : ∀ i, t.lookup id name = some i → (t.holds i fun d => d.kind.yields) = true) :
    Mention.sites (ms.map Mention.near) place name = [] := by
  cases found : t.lookup id name with
  | some i =>
      obtain ⟨d, declared, _, _⟩ := consistent.named id name i found
      have yields := free i found
      rw [holds, declared] at yields
      exact (h.yields id place rest name i d named hl found declared).mp yields
  | none =>
      have silent := told.names id place rest name hl
      rw [found, Place.declares, eq_comm, Option.isSome_none, Bool.or_eq_false_iff,
        List.any_eq_false] at silent
      have nowhere : ((ms.map Mention.near).zipIdx.filter fun s => s.1.declaresIn place name) =
          [] := by
        refine List.filter_eq_nil_iff.mpr fun s hs => silent.2 s.1 ?_
        rw [← List.zipIdx_map_fst 0 (ms.map Mention.near)]
        exact List.mem_map_of_mem hs
      rw [Mention.sites, nowhere]
      rfl

/-! ### A declaration is made for a mention -/

section Made

variable {j : Nat} {home : Place} {above : List Place} {m : Mention} {new : Proposal}

/-- A lasting declaration of the same name would be no free place. -/
theorem ne_of_free (h : t.Binds p l ms) (hj : l[j]? = some (home :: above))
    (free : new.name ≠ argumentsName → Mention.sites ms home new.name = [])
    {i : Nat} {d : Declaration} (found : t.lookup d.scope d.name = some i)
    (declared : t.declaration? i = some d) (isBound : d.isBound = true) :
    ¬ (d.scope = j ∧ d.name = new.name) := by
  obtain ⟨named, stays⟩ := (Bool.and_eq_true _ _).mp isBound
  have named := bne_iff_ne.mp named
  rintro ⟨rfl, same⟩
  have gone : Mention.sites ms home d.name = [] := same ▸ free (same ▸ named)
  have gives := (h.yields d.scope home above d.name i d named hj found declared).mpr gone
  rw [gives] at stays
  cases stays

/-- A name gives way in its place as the declaration that was made for it does. -/
theorem made_yields (h : t.Binds p l ms) (consistent : t.Consistent) (distinct : l.places.Nodup)
    (hj : l[j]? = some (home :: above)) (hm : m.home? = some home) (of : new.Of p m ms.length)
    (free : new.name ≠ argumentsName → Mention.sites ms home new.name = [])
    (names : ∀ i n, t'.lookup i n =
      if i = j ∧ n = new.name then some t.declarations.size else t.lookup i n)
    (declarations : t'.declarations = t.declarations.push (t.made j new))
    {id : Nat} {place : Place} {rest : List Place} {name : String} {i : Nat} {d : Declaration}
    (named : name ≠ argumentsName) (hl : l[id]? = some (place :: rest))
    (found : t'.lookup id name = some i) (declared : t'.declaration? i = some d) :
    d.kind.yields = true ↔ Mention.sites (ms ++ [m]) place name = [] := by
  have all (i : Nat) : t'.declaration? i =
      if i = t.declarations.size then some (t.made j new) else t.declaration? i :=
    declaration?_push declarations i
  rw [names] at found
  rw [all] at declared
  by_cases here : id = j ∧ name = new.name
  · rw [if_pos here] at found
    cases found
    rw [if_pos rfl] at declared
    cases declared
    obtain ⟨rfl, rfl⟩ := here
    rw [hj] at hl
    obtain ⟨rfl, rfl⟩ := List.cons.inj (Option.some.inj hl)
    have last : m.declaresIn home new.name = true := by
      rw [of.declaresIn distinct hj hm hj, decide_eq_true ⟨rfl, rfl⟩]
    rw [Mention.sites_concat_of_nil last (free named), of.yields]
    show new.kind.yields = true ↔ _
    cases new.kind.yields <;> simp
  · have elsewhere : m.declaresIn place name = false := by
      rw [of.declaresIn distinct hj hm hl, decide_eq_false here]
    rw [if_neg here] at found
    rw [if_neg (Nat.ne_of_lt (consistent.known found))] at declared
    rw [Mention.sites_concat_of_not elsewhere]
    exact h.yields id place rest name i d named hl found declared

/-- The declarations that were there before stand for the bindings that were there before. -/
theorem made_keeps (h : t.Binds p l ms) (distinct : l.places.Nodup)
    (hj : l[j]? = some (home :: above)) (hm : m.home? = some home) (of : new.Of p m ms.length)
    (free : new.name ≠ argumentsName → Mention.sites ms home new.name = [])
    (names : ∀ i n, t'.lookup i n =
      if i = j ∧ n = new.name then some t.declarations.size else t.lookup i n)
    (declarations : t'.declarations = t.declarations.push (t.made j new)) :
    List.Forall₂ (t'.StandsFor p l) t.bound
      ((Binding.named ms).map (Binding.extend m ms.length)) := by
  have all (i : Nat) : t'.declaration? i =
      if i = t.declarations.size then some (t.made j new) else t.declaration? i :=
    declaration?_push declarations i
  refine List.forall₂_map_right_iff.mpr (h.bindings.imp ?_)
  rintro i b ⟨d, declared, found, isBound, isOf⟩
  have apart := h.ne_of_free hj free found declared isBound
  obtain ⟨rest, hl⟩ := isOf.place
  have elsewhere : m.declaresIn b.place b.name = false := by
    rw [of.declaresIn distinct hj hm hl, ← isOf.name, decide_eq_false apart]
  rw [Binding.extend_of_not elsewhere]
  refine ⟨d, ?_, ?_, isBound, isOf⟩
  · rw [all, if_neg (Nat.ne_of_lt (lt_of_declaration? declared)), declared]
  · rw [names, if_neg apart, found]

/-- The declaration that is made stands for the binding that the mention starts, if it
    starts one. -/
theorem made_starts (hj : l[j]? = some (home :: above)) (hm : m.home? = some home)
    (of : new.Of p m ms.length)
    (source : p.isExtern m.unit = false → t.liesInExterns j = false)
    (free : new.name ≠ argumentsName → Mention.sites ms home new.name = [])
    (names : ∀ i n, t'.lookup i n =
      if i = j ∧ n = new.name then some t.declarations.size else t.lookup i n)
    (declarations : t'.declarations = t.declarations.push (t.made j new)) :
    List.Forall₂ (t'.StandsFor p l) (if (t.made j new).isBound then [t.declarations.size] else [])
      ((Binding.last? ms m).toList.filter Binding.isNamed) := by
  by_cases lasts : new.name ≠ argumentsName ∧ new.kind.yields = false
  · have isBound : (t.made j new).isBound = true := by
      rw [Declaration.isBound, Bool.and_eq_true]
      exact ⟨bne_iff_ne.mpr lasts.1, congrArg not lasts.2⟩
    rw [Binding.last?_of_free hm (of.name ▸ lasts.1) (of.name ▸ free lasts.1)
      (of.yields.trans lasts.2), isBound, if_pos rfl]
    refine .cons ⟨t.made j new, ?_, ?_, isBound, ?_⟩ .nil
    · exact (declaration?_push declarations _).trans (if_pos rfl)
    · rw [names]
      exact if_pos ⟨rfl, rfl⟩
    · refine ⟨of.name, ⟨above, hj⟩, ⟨_, [], rfl, ?_⟩, .cons of.site .nil, ?_⟩
      · exact ⟨of.name, of.kind, of.unit, of.known, source⟩
      · exact of.constant.trans (Bool.or_false _).symm
  · have isBound : (t.made j new).isBound = false := by
      rw [Bool.eq_false_iff, Ne, Declaration.isBound, Bool.and_eq_true, Bool.not_eq_true']
      exact fun h => lasts ⟨bne_iff_ne.mp h.1, h.2⟩
    have nothing : (Binding.last? ms m).toList.filter Binding.isNamed = [] := by
      refine Binding.last?_of_sites hm fun named => .inr ?_
      rw [← of.name] at named
      rw [of.yields]
      by_contra stays
      exact lasts ⟨named, Bool.eq_false_iff.mpr stays⟩
    rw [nothing, isBound, if_neg Bool.false_ne_true]
    exact .nil

/-- A declaration is made for a mention. -/
theorem made (h : t.Binds p l ms) (consistent : t.Consistent) (distinct : l.places.Nodup)
    (hj : l[j]? = some (home :: above)) (hm : m.home? = some home) (of : new.Of p m ms.length)
    (source : p.isExtern m.unit = false → t.liesInExterns j = false)
    (free : new.name ≠ argumentsName → Mention.sites ms home new.name = [])
    (names : ∀ i n, t'.lookup i n =
      if i = j ∧ n = new.name then some t.declarations.size else t.lookup i n)
    (declarations : t'.declarations = t.declarations.push (t.made j new)) :
    t'.Binds p l (ms ++ [m]) where
  yields _ _ _ _ _ _ named hl found declared :=
    h.made_yields consistent distinct hj hm of free names declarations named hl found declared
  bindings := by
    rw [bound_of_push declarations, Binding.named_concat]
    exact List.rel_append (h.made_keeps distinct hj hm of free names declarations)
      (made_starts hj hm of source free names declarations)

end Made

/-! ### A declaration gets one more site -/

section Merged

variable {j : Nat} {home : Place} {above : List Place} {m : Mention} {new : Proposal}
  {existing : Nat}

/-- A mention declares the name of one declaration, and no other. -/
theorem declaresIn_eq (consistent : t.Consistent) (distinct : l.places.Nodup)
    (hj : l[j]? = some (home :: above)) (hm : m.home? = some home) (of : new.Of p m ms.length)
    (standing : t.lookup j new.name = some existing)
    {id : Nat} {place : Place} {rest : List Place} {name : String} {i : Nat}
    (hl : l[id]? = some (place :: rest)) (found : t.lookup id name = some i) :
    m.declaresIn place name = decide (i = existing) := by
  rw [of.declaresIn distinct hj hm hl]
  refine decide_eq_decide.mpr ⟨?_, ?_⟩
  · rintro ⟨rfl, rfl⟩
    exact Option.some.inj (found.symm.trans standing)
  · rintro rfl
    obtain ⟨d, declared, rfl, rfl⟩ := consistent.named id name i found
    obtain ⟨d', declared', name', scope'⟩ := consistent.named j new.name i standing
    rw [declared] at declared'
    cases declared'
    exact ⟨scope', name'⟩

/-- There is a binding where a lasting declaration stands. -/
theorem sites_ne_nil (h : t.Binds p l ms) (consistent : t.Consistent)
    (hj : l[j]? = some (home :: above)) (standing : t.lookup j new.name = some existing)
    (stays : (t.holds existing fun d => d.kind.yields) = false)
    (named : new.name ≠ argumentsName) : Mention.sites ms home new.name ≠ [] := by
  obtain ⟨d, declared, -, -⟩ := consistent.named j new.name existing standing
  rw [holds, declared] at stays
  intro empty
  have gives := (h.yields j home above _ _ d named hj standing declared).mpr empty
  exact Bool.false_ne_true (stays.symm.trans gives)

/-- A name gives way in its place as its declaration does, which has one more site. -/
theorem merged_yields (h : t.Binds p l ms) (consistent : t.Consistent)
    (distinct : l.places.Nodup) (hj : l[j]? = some (home :: above)) (hm : m.home? = some home)
    (of : new.Of p m ms.length) (standing : t.lookup j new.name = some existing)
    (stays : (t.holds existing fun d => d.kind.yields) = false)
    (names : ∀ i n, t'.lookup i n = t.lookup i n)
    (declarations : t'.declarations =
      t.declarations.modify existing (Declaration.withSite · new))
    {id : Nat} {place : Place} {rest : List Place} {name : String} {i : Nat} {d : Declaration}
    (named : name ≠ argumentsName) (hl : l[id]? = some (place :: rest))
    (found : t'.lookup id name = some i) (declared : t'.declaration? i = some d) :
    d.kind.yields = true ↔ Mention.sites (ms ++ [m]) place name = [] := by
  have only := declaresIn_eq consistent distinct hj hm of standing hl (names id name ▸ found)
  have all (i : Nat) : t'.declaration? i =
      if i = existing then (t.declaration? i).map (Declaration.withSite · new)
      else t.declaration? i := declaration?_modify declarations i
  rw [names] at found
  rw [all] at declared
  by_cases same : i = existing
  · have here : m.declaresIn place name = true := by
      rw [only, decide_eq_true same]
    obtain ⟨rfl, rfl⟩ := of_decide_eq_true ((of.declaresIn distinct hj hm hl name).symm.trans here)
    rw [hj] at hl
    obtain ⟨rfl, rfl⟩ := List.cons.inj (Option.some.inj hl)
    obtain ⟨d₀, declared₀, -, -⟩ := consistent.named id new.name existing standing
    have taken := h.sites_ne_nil consistent hj standing stays named
    rw [holds, declared₀] at stays
    rw [if_pos same, same, declared₀] at declared
    cases declared
    rw [Mention.sites_concat here taken]
    refine iff_of_false (fun gives => ?_)
      (List.append_ne_nil_of_right_ne_nil _ (List.cons_ne_nil _ _))
    exact Bool.false_ne_true (stays.symm.trans gives)
  · have elsewhere : m.declaresIn place name = false := by
      rw [only, decide_eq_false same]
    rw [if_neg same] at declared
    rw [Mention.sites_concat_of_not elsewhere]
    exact h.yields id place rest name i d named hl found declared

/-- The declaration that a mention's name stands for gets one more site. -/
theorem merged (h : t.Binds p l ms) (consistent : t.Consistent) (distinct : l.places.Nodup)
    (hj : l[j]? = some (home :: above)) (hm : m.home? = some home) (of : new.Of p m ms.length)
    (standing : t.lookup j new.name = some existing)
    (stays : (t.holds existing fun d => d.kind.yields) = false)
    (names : ∀ i n, t'.lookup i n = t.lookup i n)
    (declarations : t'.declarations =
      t.declarations.modify existing (Declaration.withSite · new)) :
    t'.Binds p l (ms ++ [m]) where
  yields _ _ _ _ _ _ named hl found declared := h.merged_yields consistent distinct hj hm of
    standing stays names declarations named hl found declared
  bindings := by
    have taken (named : new.name ≠ argumentsName) : Mention.sites ms home new.name ≠ [] :=
      h.sites_ne_nil consistent hj standing stays named
    have nothing : (Binding.last? ms m).toList.filter Binding.isNamed = [] :=
      Binding.last?_of_sites hm fun named => .inl (of.name ▸ taken (of.name ▸ named))
    rw [bound_of_modify declarations fun _ => rfl, Binding.named_concat, nothing, List.append_nil]
    have all (i : Nat) : t'.declaration? i =
        if i = existing then (t.declaration? i).map (Declaration.withSite · new)
        else t.declaration? i := declaration?_modify declarations i
    refine List.forall₂_map_right_iff.mpr (h.bindings.imp ?_)
    rintro i b ⟨d, declared, found, isBound, isOf⟩
    obtain ⟨rest, hl⟩ := isOf.place
    have here := declaresIn_eq consistent distinct hj hm of standing hl found
    rw [isOf.name] at here
    by_cases same : i = existing
    · refine ⟨d.withSite new, ?_, (names _ _).trans found, isBound, isOf.withSite ?_ of⟩
      · rw [all, if_pos same, declared]
        rfl
      · rw [here, decide_eq_true same]
    · rw [decide_eq_false same] at here
      rw [Binding.extend_of_not here]
      refine ⟨d, ?_, (names _ _).trans found, isBound, isOf⟩
      rw [all, if_neg same, declared]

end Merged

/-- A mention is met. -/
theorem meet (h : t.Binds p l (ms.map Mention.near)) {c : Collection} (reads : c.Reads l ms)
    (tree : c.tree = t) (consistent : t.Consistent) (distinct : l.places.Nodup) (o : Options)
    {m : Mention} (hm : m ∈ p.mentions) {scope : Nat} (hs : l[scope]? = some m.around) :
    (c.meet p o scope m).tree.Binds p l ((ms ++ [m]).map Mention.near) := by
  subst tree
  rw [List.map_append, List.map_singleton, Collection.meet]
  cases role : m.role with
  | refers isObject isChange =>
      refine h.refers ?_
      rw [Mention.kind?, Mention.near, role]
  | declares kind node hasInitializer byLoop =>
      let new := c.proposal p m.unit kind node m.name hasInitializer byLoop
      have kind' : m.kind? = some kind := by rw [Mention.kind?, role]
      have of : new.Of p m.near (ms.map Mention.near).length := by
        refine ⟨rfl, kind', rfl, (Program.mention_fits hm).1, ⟨?_, rfl, rfl, ?_, ?_⟩, ?_⟩
        · rw [Mention.declaringNode, Mention.near, role]
          rfl
        · rw [List.length_map, ← reads.count]
          rfl
        · rw [Mention.isInitialized, Mention.near, role]
          rfl
        · rw [Mention.isAnnotated, Mention.near, role]
          rfl
      obtain ⟨home, above, hh, hj⟩ := reads.follows.targetOf hs kind'
      have source (external : p.isExtern m.near.unit = false) :
          c.tree.liesInExterns (c.tree.targetOf scope kind) = false := by
        obtain ⟨inner, around, inside⟩ := Program.mention_around hm
        rw [show p.isExtern m.unit = false from external] at around
        rw [around] at hs
        exact reads.follows.target_of_source distinct hs inside kind
      have change : ScopeTree.Change c.tree scope new
          (c.declare p o m.unit scope kind node m.name hasInitializer byLoop).tree :=
        declare_change (reads.follows.targetOf_lt hs kind)
      cases change with
      | made free names declarations =>
          refine h.made consistent distinct hj hh of source (fun named => ?_) names declarations
          refine h.sites_of_free reads.toTells consistent named hj ?_
          rcases free with hides | free
          · rw [hidesArguments, Bool.and_eq_true, Bool.and_eq_true, beq_iff_eq] at hides
            exact absurd hides.1.1 named
          · exact free
      | merged existing found _ stays names declarations =>
          exact h.merged consistent distinct hj hh of found stays names declarations

end Binds

end ScopeTree

/-- The declarations that a built program makes are its bindings. -/
theorem Program.Built.binds {p : Program} (h : p.Built) (o : Options) :
    (Collection.ofProgram p o).tree.Binds p p.layout (p.mentions.map Mention.near) := by
  refine (h.induct o (I := fun c l ms => c.tree.Consistent ∧
    c.tree.Binds p l (ms.map Mention.near)) ⟨ScopeTree.consistent_initial, .initial⟩ ?_).2
  rintro e he c l ms reads distinct stands ⟨consistent, binds⟩
  refine ⟨reads.consistent_act consistent p o stands, ?_⟩
  cases e with
  | opens opener node scope around =>
      show ScopeTree.Binds _ p _ ((ms ++ []).map Mention.near)
      rw [List.append_nil]
      exact binds.openFor reads.follows consistent opener scope node around
  | meets m scope =>
      have hm : m ∈ p.mentions := by
        rw [← h.events_mentions]
        exact List.mem_filterMap.mpr ⟨_, he, rfl⟩
      exact binds.meet reads rfl consistent (List.nodup_append.mp distinct).1 o hm stands

end DeclCheck
