import DeclCheck.Proofs.Names.Immutable
import DeclCheck.Proofs.Runs.Meaning
import Mathlib.Data.List.Find

/-! # Bindings of extended programs

    An extended program mentions more names than the program it comes from, all
    of them declared at the top level of the externs.  The other mentions keep
    their order.  Outside the externs nothing else is declared, so each binding
    of the sources has the same sites and the same uses as before, at other
    places among all mentions, and is immutable exactly if it was. -/

namespace DeclCheck

namespace Extended

variable {α : Type} {added : α → Prop} {as bs : List α}

/-- Where the elements of a list go when others are inserted: a strictly
    increasing renumbering that finds again whatever is not inserted. -/
theorem renumbering (h : Extended added as bs) (k k' : Nat) :
    ∃ g : Nat → Nat, (∀ i, k ≤ i → k' ≤ g i) ∧ (∀ i j, k ≤ i → i < j → g i < g j) ∧
      ∀ test : α → Bool, (∀ a, added a → test a = false) →
        (bs.zipIdx k').filter (fun s => test s.1) =
          ((as.zipIdx k).filter fun s => test s.1).map (Prod.map id g) := by
  induction h generalizing k k' with
  | nil =>
      refine ⟨fun i => i - k + k', ?_, ?_, fun _ _ => rfl⟩
      · intro i hi
        dsimp only
        omega
      · intro i j hi hij
        dsimp only
        omega
  | @keep e as bs _ ih =>
      obtain ⟨g, above, increasing, found⟩ := ih (k + 1) (k' + 1)
      refine ⟨fun i => if i = k then k' else g i, ?_, ?_, ?_⟩
      · intro i hi
        dsimp only
        split
        · omega
        · have := above i (by omega)
          omega
      · intro i j hi hij
        dsimp only
        rw [if_neg (show ¬ j = k by omega)]
        split
        · have := above j (by omega)
          omega
        · exact increasing i j (by omega) hij
      · intro test ht
        -- the numbers of the rest are above that of the first element
        have rest : ((as.zipIdx (k + 1)).filter fun s => test s.1).map
              (Prod.map id fun i => if i = k then k' else g i) =
            ((as.zipIdx (k + 1)).filter fun s => test s.1).map (Prod.map id g) := by
          refine List.map_congr_left fun s hs => ?_
          have := List.le_snd_of_mem_zipIdx (List.mem_filter.mp hs).1
          rw [Prod.map, Prod.map, if_neg (show ¬ s.2 = k by omega)]
        rw [List.zipIdx_cons, List.zipIdx_cons, List.filter_cons, List.filter_cons, found test ht]
        cases test e with
        | false => exact rest.symm
        | true =>
            show (e, k') :: _ = Prod.map id _ (e, k) :: _
            rw [rest, Prod.map, if_pos rfl]
            rfl
  | @insert e new as bs _ ih =>
      obtain ⟨g, above, increasing, found⟩ := ih k (k' + 1)
      refine ⟨g, fun i hi => Nat.le_of_succ_le (above i hi), increasing, ?_⟩
      intro test ht
      rw [List.zipIdx_cons, List.filter_cons_of_neg (by simp [ht e new]), found test ht]

/-- A renumbering of the elements of a list among which others were inserted. -/
structure Renumbers (added : α → Prop) (g : Nat → Nat) (as bs : List α) : Prop where
  increasing : ∀ i j, i < j → g i < g j
  found : ∀ test : α → Bool, (∀ a, added a → test a = false) →
    (bs.zipIdx.filter fun s => test s.1) =
      (as.zipIdx.filter fun s => test s.1).map (Prod.map id g)

theorem renumbers (h : Extended added as bs) : ∃ g, Renumbers added g as bs := by
  obtain ⟨g, -, increasing, found⟩ := h.renumbering 0 0
  exact ⟨g, fun i j => increasing i j (Nat.zero_le i), found⟩

namespace Renumbers

variable {g : Nat → Nat}

theorem lt_iff (h : Renumbers added g as bs) (i j : Nat) : g i < g j ↔ i < j := by
  constructor
  · intro lt
    by_contra le
    rcases Nat.eq_or_lt_of_not_lt le with rfl | lt'
    · exact Nat.lt_irrefl _ lt
    · exact Nat.lt_asymm lt (h.increasing j i lt')
  · exact h.increasing i j

theorem injective (h : Renumbers added g as bs) : Function.Injective (Prod.map (@id α) g) := by
  intro s s' same
  have elements : s.1 = s'.1 := by simpa using congrArg Prod.fst same
  have numbers : g s.2 = g s'.2 := by simpa using congrArg Prod.snd same
  refine Prod.ext elements ?_
  rcases Nat.lt_trichotomy s.2 s'.2 with lt | eq | lt
  · exact absurd (h.increasing _ _ lt) (by omega)
  · exact eq
  · exact absurd (h.increasing _ _ lt) (by omega)

end Renumbers

end Extended

namespace Program

variable {p q : Program} {names : String → Prop} {m : Mention}

/-- Whether a mention is one of a program, with all places around it or with
    the innermost ones only. -/
def HasMention (p : Program) (m : Mention) : Prop :=
  ∃ whole ∈ p.mentions, ∃ n, m = { whole with around := whole.around.take n }

theorem hasMention_of_mem (hm : m ∈ p.mentions) : p.HasMention m := by
  refine ⟨m, hm, m.around.length, ?_⟩
  rw [List.take_length]

theorem hasMention_of_mem_near (hm : m ∈ p.mentions.map Mention.near) : p.HasMention m := by
  obtain ⟨whole, known, rfl⟩ := List.mem_map.mp hm
  exact ⟨whole, known, _, rfl⟩

theorem HasMention.lt_size (h : p.HasMention m) : m.unit < p.units.size := by
  obtain ⟨whole, known, n, rfl⟩ := h
  exact (mention_fits known).1

/-- The home of a mention of a source is not the top level of the externs. -/
theorem HasMention.isExtern_of_home (h : p.HasMention m) (home : m.home? = some .externs) :
    p.isExtern m.unit = true := by
  obtain ⟨whole, known, n, rfl⟩ := h
  obtain ⟨inner, around, hi⟩ := mention_around known
  show p.isExtern whole.unit = true
  cases external : p.isExtern whole.unit with
  | true => rfl
  | false =>
      rw [external] at around
      rw [Mention.home?, around] at home
      obtain ⟨kind, -, home⟩ := Option.bind_eq_some_iff.mp home
      split at home
      · have other := Place.receiver_of_source hi n
        cases receiver : ((inner ++ Place.top false).take n).find? Place.receivesHoisted with
        | none =>
            rw [receiver] at home
            cases home
        | some place =>
            rw [receiver] at home other
            exact absurd home other
      · -- the innermost place is inside the source, or its top level
        rw [List.head?_take] at home
        split at home
        · cases home
        · cases inner with
          | nil => cases home
          | cons place inner =>
              have inside := hi place (List.mem_cons_self ..)
              rw [Option.some.inj home] at inside
              cases inside

/-- Only the last of the places around a mention is the top level of the
    externs. -/
theorem HasMention.around_eq (h : p.HasMention m) : ∃ before top, m.around = before ++ top ∧
    (∀ place ∈ before, place ≠ .externs) ∧ ∀ place ∈ top, place = .externs := by
  obtain ⟨whole, known, n, rfl⟩ := h
  obtain ⟨inner, around, hi⟩ := mention_around known
  obtain ⟨before, split, apart⟩ : ∃ before, whole.around = before ++ [.externs] ∧
      ∀ place ∈ before, place ≠ .externs := by
    cases external : p.isExtern whole.unit with
    | true =>
        refine ⟨inner, by rw [around, external]; rfl, ?_⟩
        rintro place hp rfl
        cases hi _ hp
    | false =>
        refine ⟨inner ++ [.sources], by rw [around, external]; simp [Place.top], ?_⟩
        rintro place hp rfl
        rcases List.mem_append.mp hp with hp | hp
        · cases hi _ hp
        · cases List.mem_singleton.mp hp
  refine ⟨before.take n, [Place.externs].take (n - before.length), ?_, ?_, ?_⟩
  · show whole.around.take n = _
    rw [split, List.take_append]
  · exact fun place hp => apart place (List.mem_of_mem_take hp)
  · exact fun place hp => List.mem_singleton.mp (List.mem_of_mem_take hp)

/-- An added mention declares nothing outside the externs. -/
theorem DeclaresAdded.not_declaresIn (h : p.DeclaresAdded names m) {place : Place}
    (inner : place ≠ .externs) (name : String) : m.declaresIn place name = false := by
  rw [Mention.declaresIn, h.home_eq, beq_eq_false_iff_ne.mpr]
  · rfl
  · intro same
    exact inner (Option.some.inj same).symm

end Program

/-! ## Meanings -/

section Mentions

variable {p q : Program} {names : String → Prop} {ms ms' : List Mention}
  (h : Extended (q.DeclaresAdded names) ms ms')
include h

/-- Outside the externs nothing else is declared. -/
theorem Place.declares_inserted {place : Place} (inner : place ≠ .externs) (name : String) :
    place.declares name ms' = place.declares name ms := by
  rw [declares, declares]
  congr 1
  induction h with
  | nil => rfl
  | keep e _ ih => rw [List.any_cons, List.any_cons, ih]
  | insert new _ ih => rw [List.any_cons, ih, new.not_declaresIn inner, Bool.false_or]

/-- A name means a place outside the externs exactly if it did before. -/
theorem Mention.meaning?_inserted {m : Mention} (hm : p.HasMention m) {place : Place}
    (inner : place ≠ .externs) :
    m.meaning? ms' = some place ↔ m.meaning? ms = some place := by
  obtain ⟨before, top, split, apart, externs⟩ := hm.around_eq
  have same : before.find? (fun place => place.declares m.name.text ms') =
      before.find? fun place => place.declares m.name.text ms :=
    List.find?_congr fun place hp => Place.declares_inserted h (apart place hp) _
  -- what is found at the top level of the externs is no place outside them
  have outside (test : Place → Bool) : top.find? test ≠ some place :=
    fun found => inner (externs place (List.mem_of_find?_eq_some found))
  rw [meaning?, meaning?, split, List.find?_append, List.find?_append, same]
  cases before.find? fun place => place.declares m.name.text ms with
  | some found => rfl
  | none =>
      rw [Option.none_or, Option.none_or]
      exact iff_of_false (outside _) (outside _)

end Mentions

/-! ## Bindings -/

section Bindings

variable {p q : Program} {names : String → Prop} {g : Nat → Nat} {b : Binding}

/-- A binding whose sites got other places among all mentions. -/
def Binding.renumber (g : Nat → Nat) (b : Binding) : Binding :=
  { b with sites := b.sites.map (Prod.map id g) }

section Renumbered

variable {ms ms' : List Mention} (h : Extended (q.DeclaresAdded names) ms ms')
  (hg : Extended.Renumbers (q.DeclaresAdded names) g ms ms')
  (known : ∀ m ∈ ms, p.HasMention m)

include hg

theorem Mention.sites_inserted {place : Place} (inner : place ≠ .externs) (name : String) :
    sites ms' place name = (sites ms place name).map (Prod.map id g) := by
  rw [sites, hg.found (·.declaresIn place name) fun m new => new.not_declaresIn inner name,
    List.dropWhile_map]
  rfl

theorem Mention.references_inserted :
    references ms' = (references ms).map (Prod.map id g) :=
  hg.found isReference fun _ new => new.isReference

include h known

theorem Binding.uses_inserted (inner : b.place ≠ .externs) :
    (b.renumber g).uses ms' = (b.uses ms).map (Prod.map id g) := by
  rw [uses, Mention.references_inserted hg, List.filter_map, uses]
  congr 1
  refine List.filter_congr fun s hs => ?_
  have hm : s.1 ∈ ms := List.fst_mem_of_mem_zipIdx (List.mem_filter.mp hs).1
  have same := Mention.meaning?_inserted h (known s.1 hm) inner
  show (s.1.name.text == b.name && s.1.meaning? ms' == some b.place) = _
  congr 1
  rw [Bool.eq_iff_iff, beq_iff_eq, beq_iff_eq]
  exact same

theorem Binding.isSetOnce_inserted (inner : b.place ≠ .externs) :
    (b.renumber g).isSetOnce ms' = b.isSetOnce ms := by
  rw [isSetOnce, isSetOnce, uses_inserted h hg known inner]
  have sites : (b.renumber g).sites = b.sites.map (Prod.map id g) := rfl
  rw [sites]
  rcases b.sites with _ | ⟨s, _ | ⟨_, _⟩⟩
  · rfl
  · show (s.1.isInitialized && List.all _ _) = (s.1.isInitialized && List.all _ _)
    rw [List.all_map]
    congr 2
    funext u
    show (!u.1.isChange && decide (g s.2 < g u.2)) = _
    rw [decide_eq_decide.mpr (hg.lt_iff s.2 u.2)]
  · rfl

/-- A binding is as constant as before. -/
theorem Binding.isConstant_inserted (inner : b.place ≠ .externs)
    (annotated : ∀ s ∈ b.sites, s.1.isAnnotated q = s.1.isAnnotated p) :
    (b.renumber g).isConstant q ms' = b.isConstant p ms := by
  rw [isConstant, isConstant, isSetOnce_inserted h hg known inner]
  show ((b.sites.map (Prod.map id g)).any _ || _) = _
  rw [List.any_map]
  congr 1
  rw [Bool.eq_iff_iff, List.any_eq_true, List.any_eq_true]
  constructor
  · rintro ⟨s, hs, constant⟩
    exact ⟨s, hs, (annotated s hs).symm.trans constant⟩
  · rintro ⟨s, hs, constant⟩
    exact ⟨s, hs, (annotated s hs).trans constant⟩

end Renumbered

/-- A binding is one of a variable of the sources as before. -/
theorem Binding.isSourceVariable_renumber (ext : q.Extends p)
    (known : ∀ s ∈ b.sites, p.HasMention s.1) :
    (b.renumber g).isSourceVariable q = b.isSourceVariable p := by
  rw [isSourceVariable, isSourceVariable]
  show (_ && (b.sites.map (Prod.map id g)).head?.any _) = _
  rw [List.head?_map]
  cases first : b.sites.head? with
  | none => rfl
  | some s =>
      have lt := (known s (List.mem_of_head? first)).lt_size
      show (_ && (_ && !q.isExtern s.1.unit)) = (_ && (_ && !p.isExtern s.1.unit))
      rw [ext.isExtern _ lt]
      rfl

/-- What is immutable stays so, and its nodes are the same. -/
theorem Binding.mem_immutables_inserted {ms ms' : List Mention}
    (h : Extended (q.DeclaresAdded names) ms ms')
    (hg : Extended.Renumbers (q.DeclaresAdded names) g ms ms')
    (known : ∀ m ∈ ms, p.HasMention m) (ext : q.Extends p)
    (annotated : ∀ m ∈ ms, m.isAnnotated q = m.isAnnotated p) (hb : b ∈ immutables p ms) :
    b.renumber g ∈ immutables q ms' ∧ (b.renumber g).nodes ms' = b.nodes ms := by
  obtain ⟨hb, immutable⟩ := List.mem_filter.mp hb
  obtain ⟨sites, nonempty⟩ := mem_all.mp hb
  have mentioned : ∀ s ∈ b.sites, s.1 ∈ ms := fun s hs => Mention.mem_of_mem_sites (sites ▸ hs)
  -- a variable of the sources has its home in the sources
  have inner : b.place ≠ .externs := by
    intro top
    obtain ⟨s, later, split⟩ := List.exists_cons_of_ne_nil nonempty
    have hs : s ∈ Mention.sites ms b.place b.name := sites ▸ split ▸ List.mem_cons_self
    have home := (Mention.home?_of_mem_sites hs).trans (congrArg some top)
    have external := (known s.1 (Mention.mem_of_mem_sites hs)).isExtern_of_home home
    rw [Bool.and_eq_true, isSourceVariable, split, List.head?_cons, Option.any_some, external,
      Bool.not_true, Bool.and_false, Bool.and_false] at immutable
    cases immutable.1
  have moved := Mention.sites_inserted hg inner b.name
  refine ⟨List.mem_filter.mpr ⟨mem_all.mpr ⟨?_, ?_⟩, ?_⟩, ?_⟩
  · show b.sites.map _ = Mention.sites ms' b.place b.name
    rw [moved, ← sites]
  · exact fun empty => nonempty (List.map_eq_nil_iff.mp empty)
  · rw [isSourceVariable_renumber ext fun s hs => known s.1 (mentioned s hs),
      isConstant_inserted h hg known inner fun s hs => annotated s.1 (mentioned s hs)]
    exact immutable
  · rw [nodes, uses_inserted h hg known inner, nodes, List.map_map]
    show (b.sites.map _).map _ ++ _ = _
    rw [List.map_map]
    rfl

/-- What is reported of the binding that starts at a mention, if it is
    immutable. -/
def Binding.immutableAt? (p : Program) (s : Mention × Nat) : Option ImmutableBinding :=
  (startingAt? p.mentions s).bind fun b =>
    if b.isSourceVariable p && b.isConstant p p.mentions then b.report? p else none

theorem Binding.filterMap_immutables (p : Program) :
    (immutables p p.mentions).filterMap (report? p) =
      p.mentions.zipIdx.filterMap (immutableAt? p) := by
  rw [immutables, all, List.filter_filterMap, List.filterMap_filterMap]
  refine List.filterMap_congr fun s _ => ?_
  rw [immutableAt?]
  cases startingAt? p.mentions s with
  | none => rfl
  | some b =>
      rw [Option.bind_some, Option.filter_some]
      split <;> rfl

/-- A binding of the externs is not one of a variable of the sources. -/
theorem Binding.immutableAt?_of_extern {s : Mention × Nat} (external : p.isExtern s.1.unit = true) :
    immutableAt? p s = none := by
  rw [immutableAt?]
  cases started : startingAt? p.mentions s with
  | none => rfl
  | some b =>
      have first := (startingAt?_eq.mp started).2.2.2
      have other : b.isSourceVariable p = false := by
        rw [isSourceVariable, first, Option.any_some, external]
        simp
      rw [Option.bind_some, other]
      rfl

section Reports

variable (h : Extended (q.DeclaresAdded names) p.mentions q.mentions)
  (hg : Extended.Renumbers (q.DeclaresAdded names) g p.mentions q.mentions)
  (ext : q.Extends p) (annotated : ∀ m ∈ p.mentions, m.isAnnotated q = m.isAnnotated p)
include h hg ext annotated

/-- A binding of the sources is reported as before. -/
theorem Binding.immutableAt?_inserted {s : Mention × Nat} (hs : s ∈ p.mentions.zipIdx)
    (inner : s.1.home? ≠ some .externs) :
    immutableAt? q (Prod.map id g s) = immutableAt? p s := by
  have lt : s.1.unit < p.units.size := (Program.mention_fits (List.fst_mem_of_mem_zipIdx hs)).1
  rw [immutableAt?, immutableAt?, startingAt?, startingAt?]
  show (s.1.home?.bind _).bind _ = _
  cases home : s.1.home? with
  | none => rfl
  | some place =>
      have inner : place ≠ .externs := fun same => inner (home.trans (congrArg some same))
      have sites := Mention.sites_inserted hg inner s.1.name.text
      let b : Binding := ⟨place, s.1.name.text, Mention.sites p.mentions place s.1.name.text⟩
      show ((if (Mention.sites q.mentions place s.1.name.text).head? = some (Prod.map id g s) then
        some (Binding.mk place s.1.name.text (Mention.sites q.mentions place s.1.name.text))
        else none).bind _) = (if b.sites.head? = some s then some b else none).bind _
      rw [sites, List.head?_map]
      by_cases first : b.sites.head? = some s
      · rw [if_pos first, if_pos (show Option.map _ b.sites.head? = _ by rw [first]; rfl),
          Option.bind_some, Option.bind_some]
        -- the first site decides what is reported, and all sites whether it is
        have known : ∀ s ∈ b.sites, s.1 ∈ p.mentions := fun s hs => Mention.mem_of_mem_sites hs
        have variable' := isSourceVariable_renumber (g := g) ext fun s hs =>
          Program.hasMention_of_mem (known s hs)
        have constant := isConstant_inserted h hg (b := b)
          (fun m => Program.hasMention_of_mem) inner fun s hs => annotated s.1 (known s hs)
        have reported : (b.renumber g).report? q = b.report? p := by
          rw [report?, report?]
          show (b.sites.map (Prod.map id g)).head?.map _ = _
          rw [List.head?_map, first]
          show some (s.1.immutable q) = some (s.1.immutable p)
          rw [Mention.immutable, Mention.immutable, Program.position, Program.position,
            ext.name _ lt, ext.lines _ lt]
        show (if ((b.renumber g).isSourceVariable q &&
          (b.renumber g).isConstant q q.mentions) = true
          then (b.renumber g).report? q else none) = _
        rw [variable', constant, reported]
      · rw [if_neg first, if_neg]
        · rfl
        · intro same
          obtain ⟨s', hs', moved⟩ := Option.map_eq_some_iff.mp same
          rw [hg.injective moved] at hs'
          exact first hs'

end Reports

/-- What is immutable is reported as before. -/
theorem Binding.immutables_inserted (h : Extended (q.DeclaresAdded names) p.mentions q.mentions)
    (ext : q.Extends p) (annotated : ∀ m ∈ p.mentions, m.isAnnotated q = m.isAnnotated p) :
    (immutables q q.mentions).filterMap (report? q) =
      (immutables p p.mentions).filterMap (report? p) := by
  obtain ⟨g, hg⟩ := h.renumbers
  let inner (m : Mention) : Bool := m.home? != some .externs
  -- nothing that is declared at the top level of the externs is reported
  have only (r : Program) : r.mentions.zipIdx.filterMap (immutableAt? r) =
      (r.mentions.zipIdx.filter fun s => inner s.1).filterMap (immutableAt? r) := by
    rw [List.filterMap_filter]
    refine List.filterMap_congr fun s hs => ?_
    split
    · rfl
    · rename_i outer
      have hm : s.1 ∈ r.mentions := List.fst_mem_of_mem_zipIdx hs
      have home : s.1.home? = some .externs := by simpa [inner] using outer
      exact immutableAt?_of_extern ((Program.hasMention_of_mem hm).isExtern_of_home home)
  rw [filterMap_immutables, filterMap_immutables, only q, only p, hg.found inner,
    List.filterMap_map]
  · refine List.filterMap_congr fun s hs => ?_
    obtain ⟨hs, home⟩ := List.mem_filter.mp hs
    exact immutableAt?_inserted h hg ext annotated hs (bne_iff_ne.mp home)
  · intro m new
    simp [inner, new.home_eq]

end Bindings

end DeclCheck
