import DeclCheck.Proofs.Grammar.Steps
import DeclCheck.Proofs.Grammar.Loops
import DeclCheck.Proofs.Token.Text

/-! # Two runs in lockstep

    Reading never looks at the faults found so far, except to drop a fault, and
    at the setting only for the bound of a loop and for constructs that the
    language level lacks.  So two runs that start at the same place stay
    together and complete the same nodes, as long as neither reaches a bound.

    `Alike` states this of two steps started where the lexer has a property.
    Bounds are not reached because what is left to read, `Lexer.ahead`, falls:
    a step that begins by taking a token leaves strictly less to the steps
    behind it, and a turn of a loop that goes on leaves strictly less to the
    next turn. -/

namespace DeclCheck

namespace Lexer

/-- Taking tokens leaves no more of the text. -/
theorem ahead_after_le (n : Nat) (l : Lexer) : (after n l).ahead ≤ l.ahead := by
  induction n generalizing l with
  | zero => exact Nat.le_refl _
  | succ n ih => exact Nat.le_trans (ih l.next) (ahead_next_le l)

/-- Whether less than some amount is left to read, at the latest when the
    current token is taken. -/
def Ready (m : Nat) (l : Lexer) : Prop :=
  l.ahead < m ∨ (l.token.kind ≠ .endOfFile ∧ l.ahead ≤ m)

/-- Behind a token that is ready there is less to read. -/
theorem Ready.next {m : Nat} {l : Lexer} (h : l.Ready m) : l.next.ahead < m := by
  rcases h with below | ⟨started, most⟩
  · exact Nat.lt_of_le_of_lt (ahead_next_le l) below
  · exact Nat.lt_of_lt_of_le (ahead_next_lt started) most

end Lexer

namespace Grammar

open Token Ast

variable {α β : Type}

/-! ## Going on -/

/-- A state comes behind another one: tokens were taken, and what is noted
    about the construct being read is as it was. -/
structure Onward (s t : State) : Prop where
  lexer : ∃ n, t.lexer = s.lexer.after n
  depth : t.depth = s.depth
  noIn : t.noIn = s.noIn

namespace Onward

variable {s t u : State}

/-- To stay is to go on. -/
theorem refl (s : State) : Onward s s := ⟨⟨0, rfl⟩, rfl, rfl⟩

/-- One goes on by going on twice. -/
theorem trans (h : Onward s t) (h' : Onward t u) : Onward s u := by
  obtain ⟨m, first⟩ := h.lexer
  obtain ⟨n, second⟩ := h'.lexer
  refine ⟨⟨m + n, ?_⟩, h'.depth.trans h.depth, h'.noIn.trans h.noIn⟩
  rw [second, first, Lexer.after_add]

/-- To take a token is to go on. -/
theorem taken (s : State) : Onward s s.taken := ⟨⟨1, rfl⟩, rfl, rfl⟩

/-- Going on leaves no more of the text. -/
theorem ahead_le (h : Onward s t) : t.lexer.ahead ≤ s.lexer.ahead := by
  obtain ⟨n, same⟩ := h.lexer
  rw [same]
  exact Lexer.ahead_after_le n _

/-- Where the current token has changed, one was taken. -/
theorem ahead_lt (h : Onward s t) (started : s.lexer.token.kind ≠ .endOfFile)
    (moved : t.lexer ≠ s.lexer) : t.lexer.ahead < s.lexer.ahead := by
  obtain ⟨n, same⟩ := h.lexer
  cases n with
  | zero => exact absurd same moved
  | succ n =>
      rw [same]
      exact Nat.lt_of_le_of_lt (Lexer.ahead_after_le n _) (Lexer.ahead_next_lt started)

end Onward

/-! ## Pairs of runs -/

/-- The settings of two runs, and how their faults correspond. -/
structure Pair where
  first : Setting
  second : Setting
  limit : first.limit = second.limit
  Faults : List SyntaxFault → List SyntaxFault → Prop
  refl : ∀ fs, Faults fs fs
  report : ∀ fs gs f, Faults fs gs → Faults (reported f fs) (reported f gs)
  demand : ∀ (s : State) fs feature, Faults s.faults fs →
    Faults (s.demanded first feature) (State.demanded second feature { s with faults := fs })

/-- Two runs that report the same constructs of the youngest level. -/
def Pair.equal (e e' : Setting) (limit : e.limit = e'.limit)
    (same : e.level.hasBlockScope = e'.level.hasBlockScope) : Pair where
  first := e
  second := e'
  limit := limit
  Faults := Eq
  refl := fun _ => rfl
  report := fun _ _ f => congrArg (reported f)
  demand := by
    rintro s fs feature rfl
    rw [State.demanded, same]
    rfl

/-- A run paired with itself. -/
def Pair.twice (e : Setting) : Pair := .equal e e rfl rfl

/-- Two runs of one language level, with the bounds of their loops. -/
def Pair.bounds (level : LanguageLevel) (m n : Nat) : Pair :=
  .equal ⟨level, m, maxDepth⟩ ⟨level, n, maxDepth⟩ rfl rfl

namespace Pair

variable (p : Pair)

/-- The second run ends as the first one, but for its faults. -/
def Same (x y : α × State) : Prop :=
  y.1 = x.1 ∧ ∃ fs, p.Faults x.2.faults fs ∧ y.2 = { x.2 with faults := fs }

/-- Two steps end alike where they start alike and the lexer has a property,
    and they only go on. -/
def Alike (P : Lexer → Prop) (x y : Step α) : Prop :=
  ∀ s fs, P s.lexer → p.Faults s.faults fs →
    p.Same (x p.first s) (y p.second { s with faults := fs }) ∧ Onward s (x p.first s).2

/-- Alike where less than some amount is left to read. -/
abbrev Below (m : Nat) (x y : Step α) : Prop := p.Alike (fun l => l.ahead < m) x y

/-- Alike where less than some amount is left once the current token is
    taken. -/
abbrev Starting (m : Nat) (x y : Step α) : Prop := p.Alike (fun l => l.Ready m) x y

/-- Alike wherever they start alike, and taking no token. -/
def Still (x y : Step α) : Prop :=
  ∀ s fs, p.Faults s.faults fs →
    p.Same (x p.first s) (y p.second { s with faults := fs }) ∧
      (x p.first s).2.lexer = s.lexer ∧ Onward s (x p.first s).2

/-- Whether the loops of both runs have the same bound, or bounds that are not
    reached where less than some amount is left to read. -/
def Long (m : Nat) : Prop :=
  p.first.bound = p.second.bound ∨ (m ≤ p.first.bound ∧ m ≤ p.second.bound)

variable {p} {P Q : Lexer → Prop} {m n : Nat} {x y : Step α} {f g : α → Step β}

/-- Bounds that suffice for more text suffice for less. -/
theorem Long.mono (h : p.Long m) (le : n ≤ m) : p.Long n :=
  h.imp id fun ⟨h₁, h₂⟩ => ⟨Nat.le_trans le h₁, Nat.le_trans le h₂⟩

/-- Steps that are alike only go on. -/
theorem Alike.onward (h : p.Alike P x y) {s : State} (hs : P s.lexer) :
    Onward s (x p.first s).2 :=
  (h s s.faults hs (p.refl _)).2

/-! ### One step after the other -/

namespace Alike

/-- Steps stay alike where less is known to hold. -/
theorem mono (h : p.Alike Q x y) (hPQ : ∀ l, P l → Q l) : p.Alike P x y :=
  fun s fs hs => h s fs (hPQ _ hs)

/-- Nothing is read. -/
theorem pure (a : α) : p.Alike P (Pure.pure a) (Pure.pure a) :=
  fun s fs _ hF => ⟨⟨rfl, fs, hF, rfl⟩, .refl s⟩

/-- The second step starts where the first one has ended. -/
theorem follow (h : p.Alike P x y)
    (k : ∀ s, P s.lexer → Onward s (x p.first s).2 →
      p.Alike (fun l => l = (x p.first s).2.lexer) (f (x p.first s).1) (g (x p.first s).1)) :
    p.Alike P (x >>= f) (y >>= g) := by
  intro s fs hs hF
  obtain ⟨⟨result, gs, hG, state⟩, onward⟩ := h s fs hs hF
  obtain ⟨same, onward'⟩ := k s hs onward (x p.first s).2 gs rfl hG
  refine ⟨?_, onward.trans onward'⟩
  show p.Same (f (x p.first s).1 p.first (x p.first s).2)
    (g (y p.second _).1 p.second (y p.second _).2)
  rw [result, state]
  exact same

/-- A property that going on keeps holds where the second step starts. -/
theorem bind (h : p.Alike P x y) (stays : ∀ s t, P s.lexer → Onward s t → Q t.lexer)
    (k : ∀ a, p.Alike Q (f a) (g a)) : p.Alike P (x >>= f) (y >>= g) :=
  h.follow fun s hs onward => (k _).mono fun _ same => same ▸ stays s _ hs onward

/-- What is made of the same answers is the same. -/
theorem map (h : p.Alike P x y) (f : α → β) : p.Alike P (f <$> x) (f <$> y) := by
  intro s fs hs hF
  obtain ⟨⟨result, gs, hG, state⟩, onward⟩ := h s fs hs hF
  exact ⟨⟨congrArg f result, gs, hG, state⟩, onward⟩

/-- A step that takes no token is passed over. -/
theorem after (h : p.Still x y) (k : ∀ a, p.Alike P (f a) (g a)) :
    p.Alike P (x >>= f) (y >>= g) := by
  intro s fs hs hF
  obtain ⟨⟨result, gs, hG, state⟩, lexer, onward⟩ := h s fs hF
  obtain ⟨same, onward'⟩ := k (x p.first s).1 (x p.first s).2 gs (by rw [lexer]; exact hs) hG
  refine ⟨?_, onward.trans onward'⟩
  show p.Same (f (x p.first s).1 p.first (x p.first s).2)
    (g (y p.second _).1 p.second (y p.second _).2)
  rw [result, state]
  exact same

/-- The choice is the same on both sides, and may be used there. -/
theorem ite {c : Prop} [Decidable c] {x' y' : Step α} (hx : c → p.Alike P x y)
    (hy : ¬ c → p.Alike P x' y') : p.Alike P (if c then x else x') (if c then y else y') := by
  by_cases h : c
  · rw [if_pos h, if_pos h]
    exact hx h
  · rw [if_neg h, if_neg h]
    exact hy h

/-- A look at the current token. -/
theorem token {f g : Token → Step β}
    (k : ∀ t, p.Alike (fun l => P l ∧ l.token = t) (f t) (g t)) :
    p.Alike P (Grammar.token >>= f) (Grammar.token >>= g) :=
  fun s fs hs hF => k s.lexer.token s fs ⟨hs, rfl⟩ hF

/-- A look at the kind of the current token. -/
theorem kind {f g : Kind → Step β}
    (k : ∀ k, p.Alike (fun l => P l ∧ l.token.kind = k) (f k) (g k)) :
    p.Alike P (Grammar.kind >>= f) (Grammar.kind >>= g) :=
  fun s fs hs hF => k s.lexer.token.kind s fs ⟨hs, rfl⟩ hF

/-- Behind a look at the token its kind is known. -/
theorem at? {k : Kind} {f g : Bool → Step β}
    (hx : p.Alike (fun l => P l ∧ l.token.kind = k) (f true) (g true))
    (hy : p.Alike P (f false) (g false)) :
    p.Alike P (Grammar.at? k >>= f) (Grammar.at? k >>= g) := by
  intro s fs hs hF
  show p.Same (f (s.lexer.token.kind == k) p.first s)
      (g (s.lexer.token.kind == k) p.second { s with faults := fs }) ∧
    Onward s (f (s.lexer.token.kind == k) p.first s).2
  cases here : s.lexer.token.kind == k with
  | true => exact hx s fs ⟨hs, beq_iff_eq.mp here⟩ hF
  | false => exact hy s fs hs hF

/-- A look at the state that does not look at the faults. -/
theorem get {f g : State → Step β} (k : ∀ s fs, p.Alike P (f s) (g { s with faults := fs })) :
    p.Alike P (MonadState.get >>= f) (MonadState.get >>= g) :=
  fun s fs hs hF => k s fs s fs hs hF

/-- Taking a token leaves less to read. -/
theorem advance {f g : Unit → Step β} (ready : ∀ l, P l → l.Ready m)
    (k : p.Below m (f ()) (g ())) : p.Alike P (Grammar.advance >>= f) (Grammar.advance >>= g) := by
  intro s fs hs hF
  obtain ⟨same, onward⟩ := k s.taken fs (ready _ hs).next hF
  exact ⟨same, (Onward.taken s).trans onward⟩

/-- A token that was taken leaves less to read. -/
theorem accept {k : Kind} {f g : Bool → Step β}
    (ready : ∀ l, P l → l.token.kind = k → l.Ready m) (hx : p.Below m (f true) (g true))
    (hy : p.Alike P (f false) (g false)) :
    p.Alike P (Grammar.accept k >>= f) (Grammar.accept k >>= g) := by
  intro s fs hs hF
  show p.Same (f (Grammar.accept k p.first s).1 p.first (Grammar.accept k p.first s).2)
      (g (Grammar.accept k p.second { s with faults := fs }).1 p.second
        (Grammar.accept k p.second { s with faults := fs }).2) ∧
    Onward s (f (Grammar.accept k p.first s).1 p.first (Grammar.accept k p.first s).2).2
  rw [accept_eq, accept_eq]
  by_cases here : s.lexer.token.kind = k
  · rw [if_pos here, if_pos here]
    obtain ⟨same, onward⟩ := hx s.taken fs (ready _ hs here).next hF
    exact ⟨same, (Onward.taken s).trans onward⟩
  · rw [if_neg here, if_neg here]
    exact hy s fs hs hF

/-- Taking a token that is there leaves less to read. -/
theorem expect {k : Kind} {f g : Unit → Step β}
    (ready : ∀ l, P l → l.token.kind = k ∧ l.Ready m) (h : p.Below m (f ()) (g ())) :
    p.Alike P (Grammar.expect k >>= f) (Grammar.expect k >>= g) := by
  intro s fs hs hF
  obtain ⟨here, less⟩ := ready _ hs
  show p.Same (f () p.first (Grammar.expect k p.first s).2)
      (g () p.second (Grammar.expect k p.second { s with faults := fs }).2) ∧
    Onward s (f () p.first (Grammar.expect k p.first s).2).2
  rw [expect_eq_taken here, expect_eq_taken (s := { s with faults := fs }) here]
  obtain ⟨same, onward⟩ := h s.taken fs less.next hF
  exact ⟨same, (Onward.taken s).trans onward⟩

end Alike

/-! ### Steps that take no token -/

namespace Still

/-- Steps that do not move are alike. -/
theorem alike (h : p.Still x y) : p.Alike P x y := by
  intro s fs _ hF
  obtain ⟨same, _, onward⟩ := h s fs hF
  exact ⟨same, onward⟩

/-- An answer without a step. -/
theorem pure (a : α) : p.Still (Pure.pure a) (Pure.pure a) :=
  fun s fs hF => ⟨⟨rfl, fs, hF, rfl⟩, rfl, .refl s⟩

/-- Steps that do not move, one after the other. -/
theorem bind (h : p.Still x y) (k : ∀ a, p.Still (f a) (g a)) :
    p.Still (x >>= f) (y >>= g) := by
  intro s fs hF
  obtain ⟨⟨result, gs, hG, state⟩, lexer, onward⟩ := h s fs hF
  obtain ⟨same, lexer', onward'⟩ := k (x p.first s).1 (x p.first s).2 gs hG
  refine ⟨?_, lexer'.trans lexer, onward.trans onward'⟩
  show p.Same (f (x p.first s).1 p.first (x p.first s).2)
    (g (y p.second _).1 p.second (y p.second _).2)
  rw [result, state]
  exact same

/-- A choice between steps that do not move. -/
theorem ite {c : Prop} [Decidable c] {x' y' : Step α} (hx : p.Still x y)
    (hy : p.Still x' y') : p.Still (if c then x else x') (if c then y else y') := by
  by_cases h : c
  · rw [if_pos h, if_pos h]
    exact hx
  · rw [if_neg h, if_neg h]
    exact hy

/-- A step that only looks at the lexer. -/
theorem look {a : Lexer → α} (h : ∀ e s, x e s = (a s.lexer, s)) : p.Still x x := by
  intro s fs hF
  rw [h, h]
  exact ⟨⟨rfl, fs, hF, rfl⟩, rfl, .refl s⟩

/-- The next token is looked at. -/
theorem token : p.Still Grammar.token Grammar.token := look fun _ _ => rfl

/-- Its kind is looked at. -/
theorem kind : p.Still Grammar.kind Grammar.kind := .bind .token fun _ => .pure _

/-- Its offset is looked at. -/
theorem tokenStart : p.Still Grammar.tokenStart Grammar.tokenStart :=
  .bind .token fun _ => .pure _

/-- It is compared with a kind. -/
theorem at? (k : Kind) : p.Still (Grammar.at? k) (Grammar.at? k) := .bind .kind fun _ => .pure _

/-- The token behind it is looked at, and the lexer comes back. -/
theorem nextIs (k : Kind) : p.Still (Grammar.nextIs k) (Grammar.nextIs k) :=
  .look (a := fun l => l.next.token.kind == k) fun _ _ => nextIs_eq k _ _

/-- It is compared with a word. -/
theorem atWord (word : String) : p.Still (Grammar.atWord word) (Grammar.atWord word) :=
  .bind .token fun _ => .pure _

/-- It is compared with the end of a list. -/
theorem atEndOf (close : Mark) : p.Still (Grammar.atEndOf close) (Grammar.atEndOf close) :=
  .bind .kind fun _ => .pure _

/-- It is asked whether a statement can end before it. -/
theorem canEndStatement : p.Still Grammar.canEndStatement Grammar.canEndStatement :=
  .bind .token fun _ => .pure _

/-- The comments before it are read. -/
theorem docFlags : p.Still Grammar.docFlags Grammar.docFlags := by
  refine .bind .token fun t => ?_
  cases t.doc with
  | none => exact .pure _
  | some doc => exact .pure _

/-- A fault is added, and no token taken. -/
theorem report (start length : Nat) (error : SyntaxError) :
    p.Still (Grammar.report start length error) (Grammar.report start length error) := by
  intro s fs hF
  rw [report_eq, report_eq]
  exact ⟨⟨rfl, _, p.report _ _ _ hF, rfl⟩, rfl, ⟨⟨0, rfl⟩, rfl, rfl⟩⟩

/-- A fault at the token. -/
theorem reportHere (error : SyntaxError) :
    p.Still (Grammar.reportHere error) (Grammar.reportHere error) :=
  .bind .token fun _ => .report _ _ _

/-- An operand that cannot be stepped is reported. -/
theorem checkStepOperand (operand : Node) :
    p.Still (Grammar.checkStepOperand operand) (Grammar.checkStepOperand operand) :=
  .ite (.pure _) (.report _ _ _)

/-- A construct that a language level may lack. -/
theorem require (feature : Feature) :
    p.Still (Grammar.require feature) (Grammar.require feature) := by
  intro s fs hF
  rw [require_eq, require_eq]
  exact ⟨⟨rfl, _, p.demand s fs feature hF, rfl⟩, rfl, ⟨⟨0, rfl⟩, rfl, rfl⟩⟩

/-- Completing a node. -/
theorem complete (span : Span) (flags : Flags) (shape : Shape Node) :
    p.Still (Grammar.complete span flags shape) (Grammar.complete span flags shape) :=
  fun _ fs hF => ⟨⟨rfl, fs, hF, rfl⟩, rfl, ⟨⟨0, rfl⟩, rfl, rfl⟩⟩

/-- A node is numbered, and no token taken. -/
theorem finishWith (start : Nat) (flags : Flags) (shape : Shape Node) :
    p.Still (Grammar.finishWith start flags shape) (Grammar.finishWith start flags shape) :=
  fun _ fs hF => ⟨⟨rfl, fs, hF, rfl⟩, rfl, ⟨⟨0, rfl⟩, rfl, rfl⟩⟩

/-- A node without flags. -/
theorem finish (start : Nat) (shape : Shape Node) :
    p.Still (Grammar.finish start shape) (Grammar.finish start shape) :=
  .finishWith _ _ _

/-- A node without text. -/
theorem missing : p.Still Grammar.missing Grammar.missing :=
  .bind .tokenStart fun _ => .complete _ _ _

end Still

/-- A step with one behind it that takes no token. -/
theorem Alike.lastly (h : p.Alike P x y) (k : ∀ a, p.Still (f a) (g a)) :
    p.Alike P (x >>= f) (y >>= g) :=
  h.bind (Q := fun _ => True) (fun _ _ _ _ => trivial) fun a => (k a).alike

/-! ### Steps that take tokens -/

/-- One token is taken on both sides. -/
theorem advance_alike : p.Alike P advance advance :=
  fun s fs _ hF => ⟨⟨rfl, fs, hF, rfl⟩, .taken s⟩

/-- A token is taken on both sides or on none. -/
theorem accept_alike (k : Kind) : p.Alike P (accept k) (accept k) := by
  intro s fs _ hF
  rw [accept_eq, accept_eq]
  by_cases here : s.lexer.token.kind = k
  · rw [if_pos here, if_pos here]
    exact ⟨⟨rfl, fs, hF, rfl⟩, .taken s⟩
  · rw [if_neg here, if_neg here]
    exact ⟨⟨rfl, fs, hF, rfl⟩, .refl s⟩

/-- A token is taken or reported on both sides. -/
theorem expect_alike (k : Kind) : p.Alike P (expect k) (expect k) :=
  .lastly (accept_alike k) fun _ => .ite (.pure _) (.reportHere _)

/-- A statement ends in the same way on both sides. -/
theorem endStatement_alike : p.Alike P endStatement endStatement := by
  refine .lastly (accept_alike _) fun b => .ite (.pure _) ?_
  exact .bind .canEndStatement fun b => .ite (.pure _) (.reportHere _)

namespace Alike

/-- Steps below an amount, one after the other. -/
theorem seq (h : p.Below m x y) (k : ∀ a, p.Below m (f a) (g a)) :
    p.Below m (x >>= f) (y >>= g) :=
  h.bind (fun _ _ hs onward => Nat.lt_of_le_of_lt onward.ahead_le hs) k

/-- Where no amount is left, steps do not start at all. -/
theorem nowhere : p.Below 0 x y := fun _ _ none => absurd none (Nat.not_lt_zero _)

/-- A step that goes on with a part or without one. -/
theorem optional {c : Prop} [Decidable c] {x y : Step Node} {f g : Option Node → Step β}
    (h : p.Below m x y) (rest : ∀ o, p.Below m (f o) (g o)) :
    p.Below m (if c then some <$> x >>= f else Pure.pure none >>= f)
      (if c then some <$> y >>= g else Pure.pure none >>= g) :=
  .ite (fun _ => (h.map some).seq rest) fun _ => .seq (.pure none) rest

end Alike

/-! ### Control -/

/-- Both sides set the same flag, and put it back. -/
theorem withIn_alike (disallow : Bool) (h : p.Alike P x y) :
    p.Alike P (withIn disallow x) (withIn disallow y) := by
  intro s fs hs hF
  obtain ⟨⟨result, gs, hG, state⟩, onward⟩ := h { s with noIn := disallow } fs hs hF
  refine ⟨⟨result, gs, hG, ?_⟩, ⟨onward.lexer, onward.depth, rfl⟩⟩
  exact congrArg (fun t : State => { t with noIn := s.noIn }) state

/-- Both sides pass the guard, or none does. -/
theorem guarded_alike {x' y' : Step α} (h : p.Alike P x y) (h' : p.Alike P x' y') :
    p.Alike P (guarded x x') (guarded y y') := by
  intro s fs hs hF
  rw [guarded_eq, guarded_eq, ← p.limit]
  by_cases full : p.first.limit ≤ s.depth
  · rw [if_pos full, if_pos full]
    have otherwise : p.Alike P (do reportHere .nestedTooDeeply; x')
        (do reportHere .nestedTooDeeply; y') := .after (.reportHere _) fun _ => h'
    exact otherwise s fs hs hF
  · rw [if_neg full, if_neg full]
    obtain ⟨⟨result, gs, hG, state⟩, onward⟩ := h { s with depth := s.depth + 1 } fs hs hF
    refine ⟨⟨result, gs, hG, ?_⟩, ⟨onward.lexer, congrArg (· - 1) onward.depth, onward.noIn⟩⟩
    exact congrArg (fun t : State => { t with depth := t.depth - 1 }) state

/-! ### Loops -/

/-- Where a step that began with some amount left to read goes on, it leaves
    less. -/
def Lessens (e : Setting) (on : α → Bool) (amount : Nat) (s : State) (x : Step α) : Prop :=
  on (x e s).1 = true → (x e s).2.lexer.ahead < amount

namespace Lessens

variable {e : Setting} {on : β → Bool} {amount : Nat} {s : State}

/-- What is left of the amount is left for what follows. -/
theorem bind (h : p.Alike P x y) (hs : P s.lexer)
    (k : ∀ t, Onward s t → Lessens p.first on amount t (f (x p.first s).1)) :
    Lessens p.first on amount s (x >>= f) := k _ (h.onward hs)

/-- A step that starts with less to read. -/
theorem less {x y : Step β} (h : p.Alike P x y) (hs : P s.lexer) (below : s.lexer.ahead < amount) :
    Lessens p.first on amount s x :=
  fun _ => Nat.lt_of_le_of_lt (h.onward hs).ahead_le below

/-- A look at the kind takes nothing. -/
theorem kind {f : Kind → Step β} (h : Lessens e on amount s (f s.lexer.token.kind)) :
    Lessens e on amount s (Grammar.kind >>= f) := h

/-- A look at the state takes nothing. -/
theorem get {f : State → Step β} (h : Lessens e on amount s (f s)) :
    Lessens e on amount s (MonadState.get >>= f) := h

/-- A look at the offset takes nothing. -/
theorem tokenStart {f : Nat → Step β}
    (h : Lessens e on amount s (f s.lexer.token.span.start)) :
    Lessens e on amount s (Grammar.tokenStart >>= f) := h

/-- What is shown behind the token holds before it. -/
theorem advance {f : Unit → Step β} (h : Lessens e on amount s.taken (f ())) :
    Lessens e on amount s (Grammar.advance >>= f) := h

/-- A token that is there is taken. -/
theorem expect {k : Kind} {f : Unit → Step β} (here : s.lexer.token.kind = k)
    (h : Lessens e on amount s.taken (f ())) : Lessens e on amount s (Grammar.expect k >>= f) := by
  show Lessens e on amount (Grammar.expect k e s).2 (f ())
  rw [expect_eq_taken here]
  exact h

/-- Either the token is taken, or it is another one. -/
theorem accept {k : Kind} {f : Bool → Step β}
    (hx : s.lexer.token.kind = k → Lessens e on amount s.taken (f true))
    (hy : Lessens e on amount s (f false)) : Lessens e on amount s (Grammar.accept k >>= f) := by
  show Lessens e on amount (Grammar.accept k e s).2 (f (Grammar.accept k e s).1)
  rw [accept_eq]
  by_cases here : s.lexer.token.kind = k
  · rw [if_pos here]
    exact hx here
  · rw [if_neg here]
    exact hy

/-- The branch that is taken lessens the amount. -/
theorem ite {c : Prop} [Decidable c] {x y : Step β} (hx : c → Lessens e on amount s x)
    (hy : ¬ c → Lessens e on amount s y) : Lessens e on amount s (if c then x else y) := by
  by_cases h : c
  · rw [if_pos h]
    exact hx h
  · rw [if_neg h]
    exact hy h

end Lessens

/-- The turns of two lists are alike, and one that goes on leaves less to
    read. -/
structure Turns (p : Pair) (m : Nat) (x y : Step (Turn α)) : Prop where
  alike : p.Below m x y
  progress : ∀ s, s.lexer.ahead < m → Lessens p.first Turn.goesOn s.lexer.ahead s x

/-- The extensions of two nodes are alike, and one that extends its node leaves
    less to read. -/
structure Extends (p : Pair) (m : Nat) (x y : Node → Step (Option Node)) : Prop where
  alike : ∀ left, p.Below m (x left) (y left)
  progress : ∀ left s, s.lexer.ahead < m →
    Lessens p.first Option.isSome s.lexer.ahead s (x left)

/-- Two bounds that are the same, or both above what is left, make no
    difference. -/
theorem collect_alike {x y : Step (Turn α)} (h : p.Turns m x y) :
    ∀ k n b, b ≤ m → (k = n ∨ (b ≤ k ∧ b ≤ n)) → ∀ items,
      p.Below b (collect x k items) (collect y n items) := by
  intro k
  induction k with
  | zero =>
      intro n b _ long items
      cases n with
      | zero => exact .pure _
      | succ n =>
          obtain rfl : b = 0 := by omega
          exact .nowhere
  | succ k ih =>
      intro n b most long items
      cases n with
      | zero =>
          obtain rfl : b = 0 := by omega
          exact .nowhere
      | succ n =>
          have turn : p.Below b x y := h.alike.mono fun l hl => Nat.lt_of_lt_of_le hl most
          refine turn.follow fun s hs onward => ?_
          have progress := h.progress s (Nat.lt_of_lt_of_le hs most)
          have below : s.lexer.ahead < b := hs
          -- a turn that goes on leaves less to the turns behind it
          have rest (items : List α) (on : (x p.first s).1.goesOn = true) :
              p.Alike (fun l => l = (x p.first s).2.lexer)
                (collect x k items) (collect y n items) :=
            (ih n (b - 1) (by omega) (by omega) items).mono fun l same => by
              have := progress on
              rw [same]
              omega
          cases result : (x p.first s).1 with
          | done | last => exact .pure _
          | more a => exact rest _ (by rw [result]; rfl)
          | skipped => exact rest _ (by rw [result]; rfl)

/-- Two loops with the same turns make the same number of them. -/
theorem many_alike {x y : Step (Turn α)} (h : p.Turns m x y) (long : p.Long m) :
    p.Below m (many x) (many y) :=
  fun s fs hs hF => collect_alike h _ _ m (Nat.le_refl m) long [] s fs hs hF

/-- A node is extended alike as long as both bounds suffice. -/
theorem extendUpTo_alike {x y : Node → Step (Option Node)} (h : p.Extends m x y) :
    ∀ k n b, b ≤ m → (k = n ∨ (b ≤ k ∧ b ≤ n)) → ∀ left,
      p.Below b (extendUpTo x k left) (extendUpTo y n left) := by
  intro k
  induction k with
  | zero =>
      intro n b _ long left
      cases n with
      | zero => exact .pure _
      | succ n =>
          obtain rfl : b = 0 := by omega
          exact .nowhere
  | succ k ih =>
      intro n b most long left
      cases n with
      | zero =>
          obtain rfl : b = 0 := by omega
          exact .nowhere
      | succ n =>
          have turn : p.Below b (x left) (y left) :=
            (h.alike left).mono fun l hl => Nat.lt_of_lt_of_le hl most
          refine turn.follow fun s hs onward => ?_
          have progress := h.progress left s (Nat.lt_of_lt_of_le hs most)
          have below : s.lexer.ahead < b := hs
          cases result : (x left p.first s).1 with
          | none => exact .pure _
          | some longer =>
              refine (ih n (b - 1) (by omega) (by omega) longer).mono fun l same => ?_
              have := progress (by rw [result]; rfl)
              rw [same]
              omega

/-- The bound of the loop is long enough for the text. -/
theorem extendWhile_alike {x y : Node → Step (Option Node)} (h : p.Extends m x y)
    (long : p.Long m) (left : Node) : p.Below m (extendWhile x left) (extendWhile y left) :=
  fun s fs hs hF => extendUpTo_alike h _ _ m (Nat.le_refl m) long left s fs hs hF

/-! ### Names -/

/-- A name that is declared is one token. -/
theorem bindingName_alike : p.Alike P bindingName bindingName := by
  refine .after .token fun t => .ite (fun _ => ?_) fun _ => ?_
  · exact .lastly advance_alike fun _ => .finish _ _
  · exact .after (.reportHere _) fun _ => Still.alike .missing

/-- The name of a property is one token. -/
theorem propertyName_alike : p.Alike P propertyName propertyName := by
  refine .after .token fun t => .ite (fun _ => ?_) fun _ => ?_
  · exact .lastly advance_alike fun _ => .finish _ _
  · exact .after (.reportHere _) fun _ => Still.alike .missing

/-- A name that can be left out is one token or none. -/
theorem optionalName_alike : p.Alike P optionalName optionalName :=
  .after (.at? _) fun _ => .ite (fun _ => .map bindingName_alike _) fun _ => .pure _

/-- A list item with a comma behind it leaves less to read. -/
theorem separated_turns (h : p.Below m x y) : p.Turns m (separated x) (separated y) where
  alike := .seq h fun a => .seq (accept_alike _) fun b => .ite (fun _ => .pure _) fun _ => .pure _
  progress := fun s hs => .bind h hs fun t onward => .accept (fun comma _ => by
    refine Nat.lt_of_lt_of_le (Lexer.ahead_next_lt ?_) onward.ahead_le
    rw [comma]
    exact Kind.noConfusion) fun on => nomatch on

end Pair

end Grammar

end DeclCheck
