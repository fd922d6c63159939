import DeclCheck.Proofs.Token.Text
import Mathlib.Data.List.Basic
import Mathlib.Data.List.GetD
import Mathlib.Data.List.Induction

/-! # Going back to saved states

    A reader of tokens may save its state, read on, and go back, any number of
    times and in any nesting.  Of a saved state only the number of faults is
    kept, and going back cuts the faults down to that number.  So it matters that
    the faults of a saved state are still the first ones when it is gone back to:
    reading only adds faults, but going back to an earlier state takes some away
    that a later one had.

    A saved state is `Usable` until an earlier one is gone back to.  Where only
    usable states are gone back to, every state is one that is reached by
    reading alone.  The number of tokens that it takes is found by the same
    moves, made with numbers. -/

namespace DeclCheck

/-! ## Sessions -/

/-- What a reader does that may go back. -/
inductive Move where
  | next
  | save
  /-- Go back to a saved state.  They are numbered in the order of saving. -/
  | restore (n : Nat)
  deriving DecidableEq, Repr, Inhabited

/-- The state that a reader is in, and those that it has saved. -/
structure Session (α : Type) where
  now : α
  saved : List α

namespace Session

/-- The states as they are seen through a function. -/
def map {α β : Type} (f : α → β) (s : Session α) : Session β := ⟨f s.now, s.saved.map f⟩

variable {α : Type} (next : α → α) (back : α → α → α)

/-- One move.  `back saved now` is the state in which `saved` is gone back to
    from `now`; a state that was never saved is not gone back to. -/
def move (s : Session α) : Move → Session α
  | .next => ⟨next s.now, s.saved⟩
  | .save => ⟨s.now, s.saved ++ [s.now]⟩
  | .restore n => ⟨back (s.saved.getD n s.now) s.now, s.saved⟩

/-- The moves of a script, one after the other. -/
def run (start : α) (moves : List Move) : Session α := moves.foldl (move next back) ⟨start, []⟩

theorem run_append_singleton (start : α) (moves : List Move) (m : Move) :
    run next back start (moves ++ [m]) = (run next back start moves).move next back m :=
  List.foldl_append

end Session

/-- The session of a lexer that makes some moves. -/
def Lexer.session (l : Lexer) (moves : List Move) : Session Lexer :=
  Session.run Lexer.next Lexer.restore l moves

namespace Move

/-- The session of a counter that makes some moves. -/
def counts (moves : List Move) : Session Nat :=
  Session.run (· + 1) (fun saved _ => saved) 0 moves

/-- The number of tokens that were read on the way to the current state.  Those
    that were given back are not among them. -/
def taken (moves : List Move) : Nat := (counts moves).now

variable {moves : List Move} {m : Move} {n : Nat}

theorem counts_append_singleton (moves : List Move) (m : Move) :
    counts (moves ++ [m]) = (counts moves).move (· + 1) (fun saved _ => saved) m :=
  Session.run_append_singleton _ _ _ _ _

theorem counts_next (moves : List Move) :
    counts (moves ++ [.next]) = ⟨taken moves + 1, (counts moves).saved⟩ :=
  counts_append_singleton moves .next

theorem counts_save (moves : List Move) :
    counts (moves ++ [.save]) = ⟨taken moves, (counts moves).saved ++ [taken moves]⟩ :=
  counts_append_singleton moves .save

theorem counts_restore {k : Nat} (saved : (counts moves).saved[n]? = some k) :
    counts (moves ++ [.restore n]) = ⟨k, (counts moves).saved⟩ := by
  rw [counts_append_singleton, Session.move, List.getD_eq_getElem?_getD, saved]
  rfl

/-! ## Usable states -/

/-- Whether a state was saved and no state saved before it was gone back to
    since. -/
def Usable (moves : List Move) (n : Nat) : Prop :=
  ∃ before since, moves = before ++ save :: since ∧ before.count save = n ∧
    ∀ i < n, restore i ∉ since

/-- Whether only usable states are gone back to. -/
def Nested (moves : List Move) : Prop :=
  ∀ before n behind, moves = before ++ restore n :: behind → Usable before n

/-- A list is taken apart before one of its members as it is at an index. -/
theorem exists_split_iff {a : Move} {P : List Move → List Move → Prop} :
    (∃ before behind, moves = before ++ a :: behind ∧ P before behind) ↔
      ∃ i < moves.length, moves[i]? = some a ∧ P (moves.take i) (moves.drop (i + 1)) := by
  constructor
  · rintro ⟨before, behind, rfl, holds⟩
    refine ⟨before.length, ?_, ?_, ?_⟩
    · rw [List.length_append, List.length_cons]
      omega
    · rw [List.getElem?_append_right (Nat.le_refl _), Nat.sub_self]
      rfl
    · rw [List.take_left, List.drop_append, List.drop_eq_nil_of_le (Nat.le_succ _),
        Nat.add_sub_cancel_left]
      exact holds
  · rintro ⟨i, lt, here, holds⟩
    obtain ⟨_, rfl⟩ := List.getElem?_eq_some_iff.mp here
    refine ⟨_, _, ?_, holds⟩
    rw [← List.drop_eq_getElem_cons lt, List.take_append_drop]

instance (moves : List Move) (n : Nat) : Decidable (Usable moves n) :=
  decidable_of_iff _ exists_split_iff.symm

/-- The saved state that a move goes back to. -/
def target? : Move → Option Nat
  | restore n => some n
  | _ => none

theorem nested_iff : Nested moves ↔
    ∀ i < moves.length, ∀ n ∈ moves[i]?.bind target?, Usable (moves.take i) n := by
  constructor
  · intro nested i lt n there
    obtain ⟨m, here, goes⟩ := Option.bind_eq_some_iff.mp there
    obtain rfl : m = restore n := by
      cases m with
      | restore k => exact congrArg restore (Option.some.inj goes)
      | _ => cases goes
    obtain ⟨before, behind, split, rfl⟩ := exists_split_iff (P := fun before _ =>
      before = moves.take i) |>.mpr ⟨i, lt, here, rfl⟩
    exact nested _ n behind split
  · intro each before n behind split
    obtain ⟨i, lt, here, rfl⟩ := exists_split_iff (P := fun front _ => before = front) |>.mp
      ⟨before, behind, split, rfl⟩
    exact each i lt n (Option.bind_eq_some_iff.mpr ⟨_, here, rfl⟩)

instance (moves : List Move) : Decidable (Nested moves) := decidable_of_iff _ nested_iff.symm

theorem Nested.of_isPrefix {front : List Move} (h : Nested moves) (starts : front <+: moves) :
    Nested front := by
  obtain ⟨rest, rfl⟩ := starts
  rintro before n behind rfl
  exact h before n (behind ++ rest) (List.append_assoc before _ rest)

/-- A state that is usable after a move was so before, and the move has not gone
    back to an earlier one, unless it was saved by the move. -/
theorem Usable.of_append_singleton (h : Usable (moves ++ [m]) n) :
    (m = save ∧ n = moves.count save) ∨ (Usable moves n ∧ ∀ i < n, m ≠ restore i) := by
  obtain ⟨before, since, split, number, none⟩ := h
  rcases List.eq_nil_or_concat' since with rfl | ⟨since, last, rfl⟩
  · obtain ⟨rfl, same⟩ := List.append_inj' split rfl
    exact .inl ⟨List.head_eq_of_cons_eq same, number.symm⟩
  · have ends : moves ++ [m] = (before ++ save :: since) ++ [last] := by
      rw [split, List.append_assoc]
      rfl
    obtain ⟨rfl, same⟩ := List.append_inj' ends rfl
    obtain rfl : m = last := List.head_eq_of_cons_eq same
    refine .inr ⟨⟨before, since, rfl, number, fun i lt among => ?_⟩, ?_⟩
    · exact none i lt (List.mem_append_left _ among)
    · rintro i lt rfl
      exact none i lt (List.mem_append_right _ (List.mem_singleton_self _))

/-! ## Counting -/

/-- What is known of the numbers of tokens with which states were saved: those
    of usable states increase, up to the current number. -/
structure Counted (moves : List Move) : Prop where
  length : (counts moves).saved.length = moves.count save
  reached : ∀ n, Usable moves n → ∃ k, (counts moves).saved[n]? = some k ∧ k ≤ taken moves
  ordered : ∀ m n j k, Usable moves m → Usable moves n → m ≤ n →
    (counts moves).saved[m]? = some j → (counts moves).saved[n]? = some k → j ≤ k

namespace Counted

theorem nil : Counted [] where
  length := rfl
  reached := by
    rintro n ⟨before, since, split, -⟩
    exact absurd split.symm (List.append_ne_nil_of_right_ne_nil _ (List.cons_ne_nil _ _))
  ordered := by
    intro m n j k _ _ _ none
    cases none

theorem next (h : Counted moves) : Counted (moves ++ [.next]) := by
  have usable {n : Nat} (later : Usable (moves ++ [.next]) n) : Usable moves n := by
    rcases later.of_append_singleton with ⟨other, -⟩ | ⟨before, -⟩
    · cases other
    · exact before
  refine ⟨?_, fun n later => ?_, fun m n j k hm hn => ?_⟩
  · rw [counts_next, List.count_append]
    exact h.length
  · obtain ⟨k, saved, le⟩ := h.reached n (usable later)
    rw [taken, counts_next]
    exact ⟨k, saved, Nat.le_succ_of_le le⟩
  · rw [counts_next]
    exact h.ordered m n j k (usable hm) (usable hn)

/-- After saving, a usable state is the one that was saved last, or it is where
    it was. -/
theorem usable_save (h : Counted moves) (later : Usable (moves ++ [.save]) n) :
    (n = moves.count .save ∧ (counts (moves ++ [.save])).saved[n]? = some (taken moves)) ∨
    (n < moves.count .save ∧ Usable moves n ∧
      (counts (moves ++ [.save])).saved[n]? = (counts moves).saved[n]?) := by
  rw [counts_save]
  rcases later.of_append_singleton with ⟨-, rfl⟩ | ⟨before, -⟩
  · refine .inl ⟨rfl, ?_⟩
    rw [← h.length]
    exact List.getElem?_concat_length
  · obtain ⟨k, saved, -⟩ := h.reached n before
    obtain ⟨lt, -⟩ := List.getElem?_eq_some_iff.mp saved
    exact .inr ⟨h.length ▸ lt, before, List.getElem?_append_left lt⟩

theorem save (h : Counted moves) : Counted (moves ++ [.save]) := by
  have current : taken (moves ++ [.save]) = taken moves := by
    rw [taken, counts_save]
  refine ⟨?_, fun n later => ?_, fun m n j k hm hn le hj hk => ?_⟩
  · rw [counts_save, List.length_append, List.count_append, h.length]
    rfl
  · rw [current]
    rcases h.usable_save later with ⟨-, last⟩ | ⟨-, before, same⟩
    · exact ⟨_, last, Nat.le_refl _⟩
    · rw [same]
      exact h.reached n before
  · rcases h.usable_save hn with ⟨-, last⟩ | ⟨lt, before, same⟩
    · rw [last] at hk
      cases hk
      rcases h.usable_save hm with ⟨-, last'⟩ | ⟨-, before', same'⟩
      · rw [last'] at hj
        cases hj
        exact Nat.le_refl _
      · obtain ⟨j', saved, le'⟩ := h.reached m before'
        rw [same', saved] at hj
        cases hj
        exact le'
    · rcases h.usable_save hm with ⟨number, -⟩ | ⟨-, before', same'⟩
      · omega
      · rw [same'] at hj
        rw [same] at hk
        exact h.ordered m n j k before' before le hj hk

/-- Going back keeps usable what was saved before, up to the state that is gone
    back to. -/
theorem restore (h : Counted moves) {n : Nat} (usable : Usable moves n) :
    Counted (moves ++ [.restore n]) := by
  obtain ⟨k, saved, -⟩ := h.reached n usable
  have counted := counts_restore saved
  have still {m : Nat} (later : Usable (moves ++ [.restore n]) m) : Usable moves m ∧ m ≤ n := by
    rcases later.of_append_singleton with ⟨other, -⟩ | ⟨before, none⟩
    · cases other
    · exact ⟨before, Nat.le_of_not_lt fun lt => none n lt rfl⟩
  refine ⟨?_, fun m later => ?_, fun m m' j j' hm hm' => ?_⟩
  · rw [counted, List.count_append]
    exact h.length
  · obtain ⟨before, le⟩ := still later
    obtain ⟨j, saved', -⟩ := h.reached m before
    rw [taken, counted]
    exact ⟨j, saved', h.ordered m n j k before usable le saved' saved⟩
  · rw [counted]
    exact h.ordered m m' j j' (still hm).1 (still hm').1

end Counted

/-- Nested moves keep the counts of saved states in order. -/
theorem Nested.counted (h : Nested moves) : Counted moves := by
  induction moves using List.reverseRecOn with
  | nil => exact .nil
  | append_singleton moves m ih =>
      have before := ih (h.of_isPrefix (List.prefix_append _ _))
      cases m with
      | next => exact before.next
      | save => exact before.save
      | restore n => exact before.restore (h moves n [] rfl)

end Move

/-! ## Lexers -/

namespace Lexer

open Move

theorem faults_prefix_after (l : Lexer) (k : Nat) : l.faults <+: (l.after k).faults := by
  induction k with
  | zero => exact List.prefix_refl _
  | succ k ih =>
      rw [after_succ]
      exact ih.trans (faults_prefix_next _)

/-- A saved state is brought back in full, whatever was read since. -/
theorem restore_after (l : Lexer) {j k : Nat} (le : j ≤ k) :
    (l.after j).restore (l.after k) = l.after j := by
  obtain ⟨more, rfl⟩ := Nat.exists_eq_add_of_le le
  rw [after_add]
  exact restore_of_prefix (faults_prefix_after _ more)

theorem session_append_singleton (l : Lexer) (moves : List Move) (m : Move) :
    l.session (moves ++ [m]) = (l.session moves).move Lexer.next Lexer.restore m :=
  Session.run_append_singleton _ _ _ _ _

/-- A session of nested moves goes through states that are reached by reading
    alone. -/
theorem session_eq (l : Lexer) {moves : List Move} (h : Nested moves) :
    l.session moves = (counts moves).map fun k => l.after k := by
  induction moves using List.reverseRecOn with
  | nil => rfl
  | append_singleton moves m ih =>
      have nested : Nested moves := h.of_isPrefix (List.prefix_append _ _)
      rw [session_append_singleton, ih nested]
      cases m with
      | next =>
          rw [counts_next]
          exact congrArg (Session.mk · _) (after_succ _ l).symm
      | save =>
          rw [counts_save]
          simp only [Session.move, Session.map, List.map_append, List.map_singleton, taken]
      | restore n =>
          obtain ⟨k, saved, le⟩ := nested.counted.reached n (h moves n [] rfl)
          rw [counts_restore saved, Session.move, Session.map,
            List.getD_map (counts moves).saved (counts moves).now fun k => l.after k,
            List.getD_eq_getElem?_getD, saved]
          exact congrArg (Session.mk · _) (l.restore_after le)

/-- Going back to a state behind one that was gone back to loses a fault. -/
example :
    ¬ Nested [.save, .next, .save, .restore 0, .restore 1] ∧
      ((ofString "#").session [.save, .next, .save, .restore 0, .restore 1]).now ≠
        (ofString "#").after 1 := by
  decide

end Lexer

end DeclCheck
