import DeclCheck.Proofs.Grammar.Trace

/-! # Guarded steps under way

    Statements, assignments and prefix operators are read by guarded steps, of
    which only so many may be under way.  Every step leaves the number of guarded
    steps under way as it was, and what it reads may depend on how many more may
    be: `Nests d step P` says both, that a step which is begun with `d` of them
    left ends so, and that its result has a property. -/

namespace DeclCheck.Grammar

open Token Ast

variable {α β : Type}

/-- A step that is begun where `d` more guarded steps may be under way leaves
    their number as it was, and its result has a property. -/
def Nests (d : Nat) (step : Step α) (P : α → Prop) : Prop :=
  ∀ (e : Setting) (s : State), s.depth + d = e.limit →
    (step e s).2.depth = s.depth ∧ P (step e s).1

/-- The number of guarded steps depends neither on the lexer nor on the
    faults. -/
theorem guards : Quiet fun s t => State.depth t = State.depth s :=
  .ofView (fun _ _ _ => rfl) fun _ _ => rfl

namespace Nests

variable {d : Nat} {step : Step α} {P : α → Prop}

/-- Nothing is read. -/
theorem pure {a : α} (h : P a) : Nests d (Pure.pure a) P := fun _ _ _ => ⟨rfl, h⟩

/-- A weaker property of what is read. -/
theorem mono {Q : α → Prop} (h : Nests d step P) (hPQ : ∀ a, P a → Q a) : Nests d step Q :=
  fun e s left => ⟨(h e s left).1, hPQ _ (h e s left).2⟩

/-- What one step gives, the next one may use. -/
theorem bind {next : α → Step β} {Q : β → Prop} (h : Nests d step P)
    (k : ∀ a, P a → Nests d (next a) Q) : Nests d (step >>= next) Q := by
  intro e s left
  obtain ⟨same, ha⟩ := h e s left
  obtain ⟨same', hb⟩ := k _ ha e (step e s).2 (by rw [same]; exact left)
  exact ⟨same'.trans same, hb⟩

/-- A property of what is made of it. -/
theorem map {f : α → β} {Q : β → Prop} (h : Nests d step fun a => Q (f a)) :
    Nests d (f <$> step) Q := fun e s left => h e s left

/-- A step that keeps the number of guarded steps is passed over. -/
theorem pass {next : α → Step β} {Q : β → Prop} (h : Keeps State.depth step)
    (k : ∀ a, Nests d (next a) Q) : Nests d (step >>= next) Q :=
  bind (P := fun _ => True) (fun e s _ => ⟨h e s, trivial⟩) fun a _ => k a

/-- Both branches may use how the choice was made. -/
theorem ite {c : Prop} [Decidable c] {other : Step α} (h : c → Nests d step P)
    (h' : ¬ c → Nests d other P) : Nests d (if c then step else other) P := by
  split
  next holds => exact h holds
  next fails => exact h' fails

/-- A result that may be absent. -/
theorem present {step : Step Node} {P : Node → Prop} (h : Nests d step P) :
    Nests d (some <$> step) fun o => Each P o.toList := by
  refine .map (h.mono fun n hn m hm => ?_)
  rw [List.mem_singleton.mp hm]
  exact hn

end Nests

section

variable {d : Nat} {P : α → Prop}

/-- A node that is left out. -/
theorem absent_nests {P : Node → Prop} :
    Nests d (pure none : Step (Option Node)) fun o => Each P o.toList :=
  .pure fun _ h => nomatch h

/-- A step that goes on with a result or without one. -/
theorem Nests.optional {c : Prop} [Decidable c] {step : Step Node} {next : Option Node → Step β}
    {P : Node → Prop} {Q : β → Prop} (h : Nests d step P)
    (rest : ∀ o, Each P o.toList → Nests d (next o) Q) :
    Nests d (if c then some <$> step >>= next else Pure.pure none >>= next) Q :=
  .ite (fun _ => h.present.bind rest) fun _ => absent_nests.bind rest

/-! ## Control -/

/-- The flag of the setting does not matter. -/
theorem withIn_nests {disallow : Bool} {step : Step α} (h : Nests d step P) :
    Nests d (withIn disallow step) P := by
  refine .pass .get fun s => .pass (.modify fun _ => rfl) fun _ => h.bind fun a ha => ?_
  exact .pass (.modify fun _ => rfl) fun _ => .pure ha

/-- A guarded step has one level less for what it reads, if there is one. -/
theorem guarded_nests {step otherwise : Step α} (h : ∀ k, d = k + 1 → Nests k step P)
    (h' : Nests d otherwise P) : Nests d (guarded step otherwise) P := by
  intro e s left
  rw [guarded_eq]
  by_cases full : e.limit ≤ s.depth
  · rw [if_pos full]
    have refused : Nests d (do reportHere .nestedTooDeeply; otherwise : Step α) P :=
      .pass (reportHere_keeps guards rfl) fun _ => h'
    exact refused e s left
  · -- the step ends one level deeper, and the level is left again
    rw [if_neg full]
    obtain ⟨k, rfl⟩ : ∃ k, d = k + 1 := ⟨d - 1, by omega⟩
    have inner := h k rfl e { s with depth := s.depth + 1 } (by dsimp only; omega)
    exact ⟨congrArg (· - 1) inner.1, inner.2⟩

/-- A turn that adds nothing. -/
theorem idle_nests {t : Turn α} (ht : t.items = []) : Nests d (pure t) (EachItem P) := by
  refine .pure ?_
  rw [EachItem, ht]
  exact .nil

/-- A turn with one item more. -/
theorem item_nests {a : α} (h : P a) {t : Turn α} (ht : t.items = [a]) :
    Nests d (pure t) (EachItem P) := by
  refine .pure ?_
  rw [EachItem, ht]
  exact .cons h .nil

/-- Every turn gives one more. -/
theorem collect_nests {step : Step (Turn α)} (h : Nests d step (EachItem P)) (n : Nat)
    (items : List α) (hi : Each P items) : Nests d (collect step n items) (Each P) := by
  have reversed {as : List α} (has : Each P as) : Each P as.reverse :=
    fun a ha => has a (List.mem_reverse.mp ha)
  -- by induction on the turns left; the items so far have the property
  induction n generalizing items with
  | zero => exact .pure (reversed hi)
  | succ n ih =>
      refine h.bind fun t ht => ?_
      cases t with
      | done => exact .pure (reversed hi)
      | last a => exact .pure (reversed (.cons (ht a (List.mem_singleton_self a)) hi))
      | more a => exact ih _ (.cons (ht a (List.mem_singleton_self a)) hi)
      | skipped => exact ih _ hi

/-- The items of a loop. -/
theorem many_nests {step : Step (Turn α)} (h : Nests d step (EachItem P)) :
    Nests d (many step) (Each P) :=
  .pass .read fun _ => collect_nests h _ _ .nil

/-- What each turn extends keeps the property. -/
theorem extendWhile_nests {step : Node → Step (Option Node)} {P : Node → Prop}
    (h : ∀ n, P n → Nests d (step n) fun o => ∀ m, o = some m → P m) {first : Node}
    (hf : P first) : Nests d (extendWhile step first) P := by
  refine .pass .read fun e => ?_
  generalize e.bound = n
  induction n generalizing first with
  | zero => exact .pure hf
  | succ n ih =>
      refine (h first hf).bind fun longer hl => ?_
      cases longer with
      | none => exact .pure hf
      | some longer => exact ih (hl longer rfl)

/-- A node that is extended by another one. -/
theorem longer_nests {step : Step Node} {P : Node → Prop} (h : Nests d step P) :
    Nests d (do return some (← step)) fun o => ∀ m, o = some m → P m := by
  refine h.bind fun n hn => .pure fun m same => ?_
  rw [← Option.some.inj same]
  exact hn

/-- An item between commas. -/
theorem separated_nests {item : Step α} (h : Nests d item P) :
    Nests d (separated item) (EachItem P) := by
  refine h.bind fun a ha => .pass (accept_keeps guards _) fun b => ?_
  exact .ite (fun _ => item_nests ha rfl) fun _ => item_nests ha rfl

end

end DeclCheck.Grammar
