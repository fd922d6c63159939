import DeclCheck.Analysis.Immutability
import DeclCheck.Proofs.Names.Mentions
import Mathlib.Data.List.Basic
import Mathlib.Data.List.Forall2

/-! # Bindings and their immutability

    A *binding* is a name of a place together with the mentions that declare
    it there.  Like the meaning of a name, it is read off the mentions alone:
    every mention that declares the name in the place belongs to it, wherever
    it stands.  Only the name of a function expression gives way to whatever
    else the function declares under that name.

    What makes a binding immutable is stated here in the same terms, with the
    references that mean it. -/

namespace DeclCheck

/-- A name of a place, with the mentions that declare it and their places
    among all mentions, the first one first. -/
structure Binding where
  place : Place
  name : String
  sites : List (Mention × Nat)
  deriving DecidableEq, Repr, Inhabited

namespace Mention

/-- Whether a mention declares a name that gives way to others. -/
def yields (m : Mention) : Bool := m.kind?.any DeclarationKind.yields

/-- The mentions that declare a name in a place, with their places among all
    mentions.  Those before the first one that stays give way to it. -/
def sites (ms : List Mention) (place : Place) (name : String) : List (Mention × Nat) :=
  (ms.zipIdx.filter fun s => s.1.declaresIn place name).dropWhile fun s => s.1.yields

/-- Whether a mention declares a variable that gets a value right there. -/
def isInitialized (m : Mention) : Bool :=
  match m.role with
  | .declares _ _ hasInitializer byLoop => hasInitializer && !byLoop
  | .refers _ _ => false

/-- Whether the declaration at a mention is annotated as constant. -/
def isAnnotated (p : Program) (m : Mention) : Bool :=
  match m.role with
  | .declares _ node _ _ => (p.flags ⟨m.unit, node⟩).constant
  | .refers _ _ => false

/-- The node that declares the name of a mention. -/
def declaringNode (m : Mention) : UnitNode :=
  match m.role with
  | .declares _ node _ _ => ⟨m.unit, node⟩
  | .refers _ _ => ⟨m.unit, m.name.node⟩

/-- The node of the name of a mention. -/
def nameNode (m : Mention) : UnitNode := ⟨m.unit, m.name.node⟩

/-- The binding that starts at a mention, as it is reported. -/
def immutable (p : Program) (m : Mention) : ImmutableBinding :=
  ⟨m.name.text, (p.unit m.unit).name, m.name.span, p.position m.unit m.name.span.start,
    m.declaringNode⟩

/-- The mentions that refer to their names, with their places among all
    mentions. -/
def references (ms : List Mention) : List (Mention × Nat) :=
  ms.zipIdx.filter fun s => s.1.isReference

end Mention

namespace Binding

variable (p : Program) (ms : List Mention) (b : Binding)

/-- The binding whose first site is the given mention, if there is one. -/
def startingAt? (s : Mention × Nat) : Option Binding :=
  s.1.home?.bind fun place =>
    let sites := Mention.sites ms place s.1.name.text
    if sites.head? = some s then some ⟨place, s.1.name.text, sites⟩ else none

/-- All bindings of some mentions, in the order of their first sites. -/
def all : List Binding := ms.zipIdx.filterMap (startingAt? ms)

/-- The references that mean a binding, with their places among all
    mentions. -/
def uses : List (Mention × Nat) :=
  (Mention.references ms).filter fun s =>
    s.1.name.text == b.name && s.1.meaning? ms == some b.place

/-- The nodes that declare a binding or refer to it. -/
def nodes : List UnitNode :=
  b.sites.map (fun s => s.1.declaringNode) ++ (b.uses ms).map fun s => s.1.nameNode

/-- Whether a binding is one of a variable of the sources.  The arguments of a
    function do not count. -/
def isSourceVariable : Bool :=
  b.name != ScopeTree.argumentsName && b.sites.head?.any fun s =>
    s.1.kind?.any DeclarationKind.isVariable && !p.isExtern s.1.unit

/-- Whether a binding gets its value where it is declared, once, and no
    reference changes it or comes before that. -/
def isSetOnce : Bool :=
  match b.sites with
  | [s] => s.1.isInitialized && (b.uses ms).all fun u => !u.1.isChange && decide (s.2 < u.2)
  | _ => false

/-- Whether a binding never changes: some site is annotated as constant, or it
    is set once. -/
def isConstant : Bool := b.sites.any (fun s => s.1.isAnnotated p) || b.isSetOnce ms

/-- A binding at its first site, as it is reported. -/
def report? : Option ImmutableBinding := b.sites.head?.map fun s => s.1.immutable p

/-- The immutable variables among all bindings of some mentions. -/
def immutables : List Binding :=
  (all ms).filter fun b => b.isSourceVariable p && b.isConstant p ms

end Binding

/-! ## One mention more -/

namespace Mention

variable {ms : List Mention} {place : Place} {name : String} {m : Mention}

/-- A mention that does not declare a name is no site of it. -/
theorem sites_concat_of_not (h : m.declaresIn place name = false) :
    sites (ms ++ [m]) place name = sites ms place name := by
  rw [sites, List.zipIdx_append, List.filter_append]
  simp [sites, h]

theorem filter_concat (h : m.declaresIn place name = true) :
    ((ms ++ [m]).zipIdx.filter fun s => s.1.declaresIn place name) =
      (ms.zipIdx.filter fun s => s.1.declaresIn place name) ++ [(m, ms.length)] := by
  rw [List.zipIdx_append, List.filter_append]
  simp [h]

/-- A mention that declares a name becomes its last site. -/
theorem sites_concat (h : m.declaresIn place name = true) (hs : sites ms place name ≠ []) :
    sites (ms ++ [m]) place name = sites ms place name ++ [(m, ms.length)] := by
  rw [sites, filter_concat h, List.dropWhile_append, if_neg]
  · rfl
  · intro empty
    exact hs (List.isEmpty_iff.mp empty)

/-- A mention that is the first to declare a name becomes its only site, unless
    it gives way to others. -/
theorem sites_concat_of_nil (h : m.declaresIn place name = true) (hs : sites ms place name = []) :
    sites (ms ++ [m]) place name = if m.yields then [] else [(m, ms.length)] := by
  rw [sites, filter_concat h, List.dropWhile_append]
  refine (if_pos (List.isEmpty_iff.mpr hs)).trans ?_
  cases hy : m.yields <;> simp [hy]

theorem mem_of_mem_sites {s : Mention × Nat} (h : s ∈ sites ms place name) : s.1 ∈ ms :=
  List.fst_mem_of_mem_zipIdx (List.mem_filter.mp ((List.dropWhile_sublist _).subset h)).1

theorem home?_of_mem_sites {s : Mention × Nat} (h : s ∈ sites ms place name) :
    s.1.home? = some place := by
  have declares := (List.mem_filter.mp ((List.dropWhile_sublist _).subset h)).2
  rw [declaresIn, Bool.and_eq_true, beq_iff_eq] at declares
  exact declares.1

theorem lt_of_mem_sites {s : Mention × Nat} (h : s ∈ sites ms place name) : s.2 < ms.length := by
  have h := (List.mem_filter.mp ((List.dropWhile_sublist _).subset h)).1
  have := List.snd_lt_of_mem_zipIdx h
  omega

end Mention

namespace Binding

variable {ms : List Mention} {m : Mention}

/-- A binding with one more mention, if that declares it. -/
def extend (m : Mention) (k : Nat) (b : Binding) : Binding :=
  if m.declaresIn b.place b.name then { b with sites := b.sites ++ [(m, k)] } else b

/-- The binding that starts at the last mention. -/
def last? (ms : List Mention) (m : Mention) : Option Binding :=
  m.home?.bind fun place =>
    if Mention.sites ms place m.name.text = [] ∧ m.yields = false then
      some ⟨place, m.name.text, [(m, ms.length)]⟩
    else none

/-- The bindings that have started go on. -/
theorem startingAt?_concat {s : Mention × Nat} (hs : s ∈ ms.zipIdx) :
    startingAt? (ms ++ [m]) s = (startingAt? ms s).map (extend m ms.length) := by
  have lt : s.2 < ms.length := by
    have := List.snd_lt_of_mem_zipIdx hs
    omega
  rw [startingAt?, startingAt?]
  cases s.1.home? with
  | none => rfl
  | some place =>
      show (if (Mention.sites (ms ++ [m]) place s.1.name.text).head? = some s then _ else none) =
        Option.map _ (if (Mention.sites ms place s.1.name.text).head? = some s then _ else none)
      cases hd : m.declaresIn place s.1.name.text with
      | false =>
          rw [Mention.sites_concat_of_not hd]
          split
          · rw [Option.map_some, extend, if_neg (Bool.eq_false_iff.mp hd)]
          · rfl
      | true =>
          by_cases hss : Mention.sites ms place s.1.name.text = []
          · -- the last mention is a later one than `s`
            rw [Mention.sites_concat_of_nil hd hss, hss, if_neg, if_neg (fun h => nomatch h)]
            · rfl
            · cases m.yields with
              | true => exact fun h => nomatch h
              | false =>
                  intro h
                  have same : (m, ms.length) = s := Option.some.inj h
                  rw [← same] at lt
                  exact Nat.lt_irrefl _ lt
          · rw [Mention.sites_concat hd hss, List.head?_append_of_ne_nil _ hss]
            split
            · rw [Option.map_some, extend, if_pos hd]
            · rfl

theorem startingAt?_last :
    startingAt? (ms ++ [m]) (m, ms.length) = last? ms m := by
  rw [startingAt?, last?]
  cases hh : m.home? with
  | none => rfl
  | some place =>
      have here : m.declaresIn place m.name.text = true := by
        rw [Mention.declaresIn, hh]
        simp
      show (if (Mention.sites (ms ++ [m]) place m.name.text).head? = some (m, ms.length) then _
        else none) = if _ then _ else none
      by_cases hss : Mention.sites ms place m.name.text = []
      · rw [Mention.sites_concat_of_nil here hss]
        cases hy : m.yields with
        | true =>
            rw [if_pos rfl, if_neg, if_neg]
            · exact fun h => nomatch h.2
            · exact fun h => nomatch h
        | false =>
            have starts : Mention.sites ms place m.name.text = [] ∧ false = false := ⟨hss, rfl⟩
            rw [if_neg Bool.false_ne_true, if_pos starts]
            exact if_pos rfl
      · rw [Mention.sites_concat here hss, List.head?_append_of_ne_nil _ hss, if_neg, if_neg]
        · exact fun h => hss h.1
        · intro h
          exact Nat.lt_irrefl _ (Mention.lt_of_mem_sites (List.mem_of_mem_head? h))

/-- One mention more extends the bindings or starts one. -/
theorem all_concat (ms : List Mention) (m : Mention) :
    all (ms ++ [m]) = (all ms).map (extend m ms.length) ++ (last? ms m).toList := by
  have going : ms.zipIdx.filterMap (startingAt? (ms ++ [m])) =
      (all ms).map (extend m ms.length) := by
    rw [all, List.map_filterMap]
    exact List.filterMap_congr fun s hs => startingAt?_concat hs
  rw [all, List.zipIdx_append, List.filterMap_append, going, Nat.zero_add]
  congr 1
  show List.filterMap (startingAt? (ms ++ [m])) [(m, ms.length)] = _
  rw [List.filterMap_cons, startingAt?_last]
  cases last? ms m <;> rfl

/-! ## Which bindings there are -/

/-- Whether a binding has its first site before another one. -/
def StartsBefore (b b' : Binding) : Prop :=
  ∃ s s', b.sites.head? = some s ∧ b'.sites.head? = some s' ∧ s.2 < s'.2

theorem startingAt?_eq {s : Mention × Nat} {b : Binding} :
    startingAt? ms s = some b ↔ s.1.home? = some b.place ∧ s.1.name.text = b.name ∧
      b.sites = Mention.sites ms b.place b.name ∧ b.sites.head? = some s := by
  rw [startingAt?]
  constructor
  · intro started
    obtain ⟨place, home, started⟩ := Option.bind_eq_some_iff.mp started
    dsimp only at started
    split at started
    · rename_i first
      cases started
      exact ⟨home, rfl, rfl, first⟩
    · cases started
  · rintro ⟨home, text, sites, first⟩
    rw [sites] at first
    rw [home, text]
    show (if (Mention.sites ms b.place b.name).head? = some s then _ else none) = some b
    rw [if_pos first, ← sites]

/-- The names of places with the mentions that declare them there are the
    bindings. -/
theorem mem_all {b : Binding} :
    b ∈ all ms ↔ b.sites = Mention.sites ms b.place b.name ∧ b.sites ≠ [] := by
  rw [all, List.mem_filterMap]
  constructor
  · rintro ⟨s, -, started⟩
    obtain ⟨-, -, sites, first⟩ := startingAt?_eq.mp started
    refine ⟨sites, fun empty => ?_⟩
    rw [empty] at first
    cases first
  · rintro ⟨sites, nonempty⟩
    obtain ⟨s, rest, split⟩ := List.exists_cons_of_ne_nil nonempty
    have mem : s ∈ Mention.sites ms b.place b.name := by
      rw [← sites, split]
      exact List.mem_cons_self ..
    obtain ⟨inside, declares⟩ := List.mem_filter.mp ((List.dropWhile_sublist _).subset mem)
    rw [Mention.declaresIn, Bool.and_eq_true, beq_iff_eq, beq_iff_eq] at declares
    exact ⟨s, inside, startingAt?_eq.mpr ⟨declares.1, declares.2, sites, by rw [split]; rfl⟩⟩

/-- The bindings stand in the order of their first sites, each of them
    once. -/
theorem all_sorted (ms : List Mention) : (all ms).Pairwise StartsBefore := by
  have places : ms.zipIdx.Pairwise fun s s' => s.2 < s'.2 := by
    rw [← List.pairwise_map, List.zipIdx_map_snd]
    exact List.pairwise_lt_range'
  refine List.pairwise_filterMap.mpr (places.imp ?_)
  intro s s' before b started b' started'
  exact ⟨s, s', (startingAt?_eq.mp started).2.2.2, (startingAt?_eq.mp started').2.2.2, before⟩

theorem sites_of_mem_immutables (p : Program) (ms : List Mention) :
    ∀ b ∈ immutables p ms, b.sites ≠ [] :=
  fun _ hb => (mem_all.mp (List.mem_filter.mp hb).1).2

/-- Each of the bindings that have sites is reported once. -/
theorem forall₂_report {p : Program} {bs : List Binding} (h : ∀ b ∈ bs, b.sites ≠ []) :
    List.Forall₂ (fun r b => report? p b = some r) (bs.filterMap (report? p)) bs := by
  induction bs with
  | nil => exact .nil
  | cons b bs ih =>
      obtain ⟨s, later, split⟩ := List.exists_cons_of_ne_nil (h b (List.mem_cons_self ..))
      have reported : b.report? p = some (s.1.immutable p) := by
        rw [report?, split]
        rfl
      rw [List.filterMap_cons, reported]
      exact .cons reported (ih fun b' hb => h b' (List.mem_cons_of_mem _ hb))

end Binding

end DeclCheck
