import DeclCheck.Proofs.Ast.Grouping
import DeclCheck.Proofs.Ast.Whole
import DeclCheck.Proofs.Grammar.Lockstep
import DeclCheck.Proofs.Grammar.Places

/-! # Readings that find nothing wrong

    Faults are only added, so where nothing is wrong at the end nothing was
    wrong on the way.  `Ensures` states of a step that, should nothing be wrong
    at its end, nothing was wrong at its start, and that what was known there
    leads to something known at the end.  A step that records a fault leads to
    nothing, which is how what it makes up for the text never gets into a
    reading that finds nothing wrong.

    What is known of a state besides is its *place*: where it stands in the
    text, and how much of it is read. -/

namespace DeclCheck.Grammar

open Token Ast

variable {α β : Type}

/-! ## Places in a reading -/

/-- A token of another kind stands before the end of the text. -/
theorem State.started {s : State} {k : Kind} (kind : s.lexer.token.kind = k)
    (hk : k ≠ .endOfFile) : s.lexer.token.kind ≠ .endOfFile := kind ▸ hk

/-- The end of the text stands for nothing. -/
theorem State.started_of_some {s : State} {f : Kind → Option α} {a : α}
    (found : f s.lexer.token.kind = some a) (none : f .endOfFile = none) :
    s.lexer.token.kind ≠ .endOfFile := by
  intro atEnd
  rw [atEnd, none] at found
  cases found

/-- Nothing was found wrong so far. -/
def State.Clean (s : State) : Prop := s.faults = [] ∧ s.lexer.faults = []

/-- Taking a token forgets no fault. -/
theorem State.Clean.before {s : State} (h : s.taken.Clean) : s.Clean :=
  ⟨h.1, List.prefix_nil.mp (h.2 ▸ Lexer.faults_prefix_next s.lexer)⟩

/-- What is known of how far a text was read: an offset up to which tokens were
    taken, an amount above what is left, and what is noted about `in`. -/
structure Place where
  low : Nat
  top : Nat
  noIn : Bool

/-- Whether a state is at a place. -/
structure Place.Holds (p : Place) (text : List Char) (e : Setting) (s : State) : Prop where
  stands : s.Stands text
  low : p.low ≤ s.lastEnd
  top : s.lexer.ahead ≤ p.top
  room : p.top < e.bound
  noIn : s.noIn = p.noIn

/-- The place from an offset on. -/
def Place.from (p : Place) (low : Nat) : Place := { p with low := low }

namespace Place.Holds

variable {p : Place} {text : List Char} {e : Setting} {s : State}

/-- The place begins before the current token. -/
theorem low_le (h : p.Holds text e s) : p.low ≤ s.here := Nat.le_trans h.low h.stands.lastEnd_le

/-- Behind a token the place still holds, and begins there. -/
theorem taken (h : p.Holds text e s) : (p.from s.here).Holds text e s.taken :=
  ⟨h.stands.taken, h.stands.here_le, Nat.le_trans (Lexer.ahead_next_le _) h.top, h.room, h.noIn⟩

/-- A token before the end of the text takes at least a byte. -/
theorem opened (h : p.Holds text e s) (started : s.lexer.token.kind ≠ .endOfFile) :
    (p.from (s.here + 1)).Holds text e s.taken :=
  { h.taken with low := h.stands.here_lt started }

/-- A place further on is a place before, too. -/
theorem lower {low : Nat} (h : (p.from low).Holds text e s) (le : p.low ≤ low) :
    p.Holds text e s :=
  ⟨h.stands, Nat.le_trans le h.low, h.top, h.room, h.noIn⟩

end Place.Holds

/-! ## What a step ensures -/

/-- Where nothing is wrong at the end of a step, nothing was at its start, and
    what is known there leads to something known at the end. -/
def Ensures (text : List Char) (e : Setting) (p : Place) (s : State) (A : Prop) (step : Step α)
    (Q : α → State → Prop) : Prop :=
  (step e s).2.Clean → s.Clean ∧
    (p.Holds text e s → A → p.Holds text e (step e s).2 ∧ Q (step e s).1 (step e s).2)

/-- What a step ensures wherever it starts. -/
def Yields (text : List Char) (step : Step α) (R : State → α → State → Prop) : Prop :=
  ∀ e p s, Ensures text e p s True step (R s)

/-- A step ensures something of its result. -/
abbrev Gives (text : List Char) (P : α → Prop) (step : Step α) : Prop :=
  Yields text step fun _ a _ => P a

section

variable {text : List Char} {e : Setting} {p : Place} {s : State} {A B : Prop}
variable {step : Step α} {Q : α → State → Prop} {R : State → α → State → Prop}

namespace Ensures

/-- Less may be known of the state before. -/
theorem weaken (h : Ensures text e p s B step Q) (hAB : A → B) : Ensures text e p s A step Q := by
  intro clean
  obtain ⟨before, known⟩ := h clean
  exact ⟨before, fun place ha => known place (hAB ha)⟩

/-- Less may be wanted of the state behind. -/
theorem mono {Q' : α → State → Prop} (h : Ensures text e p s A step Q)
    (hQ : ∀ a t, Q a t → Q' a t) : Ensures text e p s A step Q' := by
  intro clean
  obtain ⟨before, known⟩ := h clean
  exact ⟨before, fun place ha => (known place ha).imp_right (hQ _ _)⟩

/-- What does not depend on the state is known behind a step, too. -/
theorem remember {C : Prop} (h : Ensures text e p s A step Q) :
    Ensures text e p s (A ∧ C) step fun a t => Q a t ∧ C := by
  intro clean
  obtain ⟨before, known⟩ := h clean
  refine ⟨before, fun place ha => ?_⟩
  obtain ⟨last, result⟩ := known place ha.1
  exact ⟨last, result, ha.2⟩

/-- What is made of the answer is judged instead. -/
theorem map {x : Step β} {f : β → α} (h : Ensures text e p s A x fun b t => Q (f b) t) :
    Ensures text e p s A (f <$> x) Q := h

/-- A part that is present. -/
theorem present {P : Node → Prop} {x : Step Node} (h : Ensures text e p s A x fun n _ => P n) :
    Ensures text e p s A (some <$> x) fun o _ => Each P o.toList :=
  map (h.mono fun _ _ hn => Each.cons hn .nil)

/-- An answer is judged where it is given. -/
theorem pure {a : α} (h : p.Holds text e s → A → Q a s) : Ensures text e p s A (Pure.pure a) Q :=
  fun clean => ⟨clean, fun place ha => ⟨place, h place ha⟩⟩

/-- Both branches may use how the choice was made. -/
theorem ite {c : Prop} [Decidable c] {x y : Step α} (hx : c → Ensures text e p s A x Q)
    (hy : ¬ c → Ensures text e p s A y Q) : Ensures text e p s A (if c then x else y) Q := by
  by_cases h : c
  · rw [if_pos h]
    exact hx h
  · rw [if_neg h]
    exact hy h

section

variable {x : Step β} {f : β → Step α} {R : State → β → State → Prop}

/-- A step of its own, and what is behind it. -/
theorem bind (h : Yields text x R) (k : ∀ b t, Ensures text e p t (A ∧ R s b t) (f b) Q) :
    Ensures text e p s A (x >>= f) Q := by
  intro clean
  obtain ⟨between, known⟩ := k (x e s).1 (x e s).2 clean
  obtain ⟨before, first⟩ := h e p s between
  refine ⟨before, fun place ha => ?_⟩
  obtain ⟨place', result⟩ := first place trivial
  exact known place' ⟨ha, result⟩

/-- What a step ensures is known to the next one. -/
theorem andThen {R : β → State → Prop} (h : Ensures text e p s A x R)
    (k : ∀ b t, Ensures text e p t (R b t) (f b) Q) : Ensures text e p s A (x >>= f) Q := by
  intro clean
  obtain ⟨between, known⟩ := k (x e s).1 (x e s).2 clean
  obtain ⟨before, first⟩ := h between
  refine ⟨before, fun place ha => ?_⟩
  obtain ⟨place', result⟩ := first place ha
  exact known place' result

/-- Behind a step that takes a token, at least the current one is taken. -/
theorem andFrom {R : β → State → Prop} (h : Ensures text e p s A x R)
    (took : ∀ b t, R b t → s.here < t.lastEnd)
    (k : ∀ b t, Ensures text e (p.from (s.here + 1)) t (R b t) (f b) Q) :
    Ensures text e p s A (x >>= f) Q := by
  intro clean
  obtain ⟨between, known⟩ := k (x e s).1 (x e s).2 clean
  obtain ⟨before, first⟩ := h between
  refine ⟨before, fun place ha => ?_⟩
  obtain ⟨place', result⟩ := first place ha
  have further : (p.from (s.here + 1)).Holds text e (x e s).2 :=
    ⟨place'.stands, took _ _ result, place'.top, place'.room, place'.noIn⟩
  obtain ⟨last, all⟩ := known further result
  exact ⟨last.lower (Nat.le_succ_of_le place.low_le), all⟩

/-- The token is that of the state. -/
theorem token {f : Token → Step α} (h : Ensures text e p s A (f s.lexer.token) Q) :
    Ensures text e p s A (Grammar.token >>= f) Q := h

/-- So is its kind. -/
theorem kind {f : Kind → Step α} (h : Ensures text e p s A (f s.lexer.token.kind) Q) :
    Ensures text e p s A (Grammar.kind >>= f) Q := h

/-- Behind a comparison it is known what the token is. -/
theorem at? {k : Kind} {f : Bool → Step α}
    (hx : s.lexer.token.kind = k → Ensures text e p s A (f true) Q)
    (hy : s.lexer.token.kind ≠ k → Ensures text e p s A (f false) Q) :
    Ensures text e p s A (Grammar.at? k >>= f) Q := by
  show Ensures text e p s A (f (s.lexer.token.kind == k)) Q
  by_cases here : s.lexer.token.kind = k
  · rw [beq_iff_eq.mpr here]
    exact hx here
  · rw [beq_eq_false_iff_ne.mpr here]
    exact hy here

/-- A look at the state. -/
theorem get {f : State → Step α} (h : Ensures text e p s A (f s) Q) :
    Ensures text e p s A (MonadState.get >>= f) Q := h

/-- A look at the offset. -/
theorem tokenStart {f : Nat → Step α} (h : Ensures text e p s A (f s.here) Q) :
    Ensures text e p s A (Grammar.tokenStart >>= f) Q := h

/-- A step that only looks is passed over. -/
theorem peek (h : Keeps id x) (k : ∀ b, Ensures text e p s A (f b) Q) :
    Ensures text e p s A (x >>= f) Q := by
  have same : (x e s).2 = s := h e s
  intro clean
  have known := k (x e s).1
  rw [Ensures] at known
  have run : (x >>= f) e s = f (x e s).1 e s := by
    show f (x e s).1 e (x e s).2 = _
    rw [same]
  rw [run] at clean ⊢
  exact known clean

end

/-! ### Tokens -/

/-- Behind a token, the place and the state before it are known to have been clean. -/
theorem advance {f : Unit → Step α} (started : A → s.lexer.token.kind ≠ .endOfFile)
    (h : Ensures text e (p.from (s.here + 1)) s.taken (A ∧ p.Holds text e s ∧ s.taken.Clean) (f ())
      Q) : Ensures text e p s A (Grammar.advance >>= f) Q := by
  intro clean
  obtain ⟨between, known⟩ := h clean
  refine ⟨between.before, fun place ha => ?_⟩
  obtain ⟨last, all⟩ := known (place.opened (started ha)) ⟨ha, place, between⟩
  exact ⟨last.lower (Nat.le_succ_of_le place.low_le), all⟩

/-- A token is taken only if it is of the kind. -/
theorem accept {k : Kind} {f : Bool → Step α} (hk : k ≠ .endOfFile)
    (hx : s.lexer.token.kind = k →
      Ensures text e (p.from (s.here + 1)) s.taken (A ∧ p.Holds text e s ∧ s.taken.Clean)
        (f true) Q)
    (hy : s.lexer.token.kind ≠ k → Ensures text e p s A (f false) Q) :
    Ensures text e p s A (Grammar.accept k >>= f) Q := by
  by_cases here : s.lexer.token.kind = k
  · have run : (Grammar.accept k >>= f) e s = (Grammar.advance >>= fun _ => f true) e s := by
      show f (Grammar.accept k e s).1 e (Grammar.accept k e s).2 = _
      rw [accept_eq, if_pos here]
      rfl
    rw [Ensures, run]
    exact advance (f := fun _ => f true) (fun _ => here ▸ hk) (hx here)
  · have run : (Grammar.accept k >>= f) e s = f false e s := by
      show f (Grammar.accept k e s).1 e (Grammar.accept k e s).2 = _
      rw [accept_eq, if_neg here]
    rw [Ensures, run]
    exact hy here

/-! ### Faults -/

/-- Nothing follows from a step that records a fault. -/
theorem report {start length : Nat} {error : SyntaxError} {f : Unit → Step α}
    (h : ∀ t, Ensures text e p t False (f ()) Q) :
    Ensures text e p s A (Grammar.report start length error >>= f) Q := by
  intro clean
  have run : (Grammar.report start length error >>= f) e s =
      f () e { s with faults := reported ⟨start, length, error⟩ s.faults } := by
    show f () e (Grammar.report start length error e s).2 = _
    rw [report_eq]
  rw [run] at clean
  exact absurd (h _ clean).1.1 (reported_ne_nil _ _)

/-- Where something is reported nothing is ensured. -/
theorem reportHere {error : SyntaxError} {f : Unit → Step α}
    (h : ∀ t, Ensures text e p t False (f ()) Q) :
    Ensures text e p s A (Grammar.reportHere error >>= f) Q := report h

/-! ### Nodes -/

/-- A node with the next number is completed. -/
theorem complete {span : Span} {flags : Flags} {sh : Shape Node} {Q : Node → State → Prop}
    (h : p.Holds text e s → A → Q (.mk s.nextId span flags sh) s.completed) :
    Ensures text e p s A (Grammar.complete span flags sh) Q :=
  fun clean => ⟨clean, fun place ha =>
    ⟨⟨place.stands, place.low, place.top, place.room, place.noIn⟩, h place ha⟩⟩

/-- Its span ends where the last token does. -/
theorem finishWith {start : Nat} {flags : Flags} {sh : Shape Node} {Q : Node → State → Prop}
    (h : p.Holds text e s → A →
      Q (.mk s.nextId ⟨start, max s.lastEnd start⟩ flags sh) s.completed) :
    Ensures text e p s A (Grammar.finishWith start flags sh) Q :=
  complete h

/-! ### Control -/

/-- A guarded step is one level deeper, or something is reported. -/
theorem guarded {x y : Step α}
    (hx : Ensures text e p { s with depth := s.depth + 1 } A x fun a t =>
      Q a { t with depth := t.depth - 1 })
    (hy : ∀ s, Ensures text e p s False y Q) : Ensures text e p s A (Grammar.guarded x y) Q := by
  rw [Ensures, guarded_eq]
  split
  · exact report (f := fun _ => y) hy
  · intro clean
    obtain ⟨before, known⟩ := hx clean
    refine ⟨before, fun place ha => ?_⟩
    obtain ⟨last, all⟩ := known ⟨place.stands, place.low, place.top, place.room, place.noIn⟩ ha
    exact ⟨⟨last.stands, last.low, last.top, last.room, last.noIn⟩, all⟩

end Ensures

end

/-! ## Small steps -/

section

variable {text : List Char}

/-- A token that is taken is not looked at any more. -/
theorem accept_yields (k : Kind) : Gives text (fun _ => True) (accept k) := by
  intro e p s
  rw [Ensures, accept_eq]
  split
  · intro clean
    exact ⟨clean.before, fun place _ => ⟨place.taken.lower place.low_le, trivial⟩⟩
  · exact fun clean => ⟨clean, fun place _ => ⟨place, trivial⟩⟩

/-- Nor is one that has to be taken. -/
theorem advance_yields : Gives text (fun _ => True) advance := by
  intro e p s clean
  exact ⟨clean.before, fun place _ => ⟨place.taken.lower place.low_le, trivial⟩⟩

/-- A report is never made in a clean run. -/
theorem reportHere_ensures {e : Setting} {p : Place} {s : State} {A : Prop}
    {Q : Unit → State → Prop} {error : SyntaxError} : Ensures text e p s A (reportHere error) Q :=
  Ensures.reportHere (f := Pure.pure) fun _ => .pure fun _ => False.elim

/-- In a clean run a token that is expected is there. -/
theorem expect_yields (k : Kind) : Gives text (fun _ => True) (expect k) := fun _ _ _ =>
  .bind (accept_yields k) fun _ _ => .ite (fun _ => .pure fun _ _ => trivial) fun _ =>
    reportHere_ensures

/-- A token that is demanded is taken. -/
theorem expect_takes {k : Kind} (hk : k ≠ .endOfFile) :
    Yields text (expect k) fun s _ t => s.here < t.lastEnd := fun _ _ _ =>
  .accept hk (fun here => .pure fun _ h => h.2.1.stands.here_lt (here ▸ hk)) fun _ =>
    reportHere_ensures

/-- In a clean run a statement ends where it has to. -/
theorem endStatement_yields : Gives text (fun _ => True) endStatement := fun _ _ _ =>
  .bind (accept_yields _) fun _ _ => .ite (fun _ => .pure fun _ _ => trivial) fun _ =>
    .peek canEndStatement_keeps fun _ => .ite (fun _ => .pure fun _ _ => trivial) fun _ =>
      reportHere_ensures

/-- A construct that is at hand leaves everything as it was. -/
theorem require_yields (feature : Feature) : Yields text (require feature) fun s _ t => t = s :=
  fun _ _ _ => .peek .read fun _ => .ite (fun _ => .pure fun _ _ => rfl) fun _ =>
    reportHere_ensures

/-- In a clean run the level has the word. -/
theorem variableWord_yields (kind : VariableWord) :
    Gives text (fun _ => True) (variableWord kind) := fun _ _ _ =>
  .ite (fun _ => .bind (require_yields _) fun _ _ => .weaken (advance_yields _ _ _)
    fun _ => trivial)
    fun _ => advance_yields _ _ _

/-- An operand that can be stepped leaves everything as it was. -/
theorem checkStepOperand_yields (operand : Node) : Yields text (checkStepOperand operand)
    fun s _ t => t = s ∧ isTarget operand = true := fun _ _ _ =>
  .ite (fun target => .pure fun _ _ => ⟨rfl, target⟩) fun _ =>
    Ensures.report (f := Pure.pure) fun _ => .pure fun _ => False.elim

/-- In a clean run nothing is missing. -/
theorem missing_ensures {e : Setting} {p : Place} {s : State} {Q : Node → State → Prop} :
    Ensures text e p s False missing Q :=
  .peek tokenStart_keeps fun _ => .complete fun _ => False.elim

end

section

variable {text : List Char} {e : Setting} {p : Place} {s : State} {A B : Prop}
variable {step : Step α} {Q : α → State → Prop} {R : State → α → State → Prop}

namespace Gives

variable {P : α → Prop} {x : Step α}

/-- A weaker property of what is given. -/
theorem mono {P' : α → Prop} (h : Gives text P x) (hP : ∀ a, P a → P' a) : Gives text P' x :=
  fun e p s => (h e p s).mono fun a _ => hP a

/-- A property of what is made of it. -/
theorem map {f : α → β} {P : β → Prop} (h : Gives text (fun a => P (f a)) x) :
    Gives text P (f <$> x) := h

/-- The flag of the setting does not matter. -/
theorem withIn (disallow : Bool) (h : Gives text P x) : Gives text P (withIn disallow x) := by
  intro e p s clean
  obtain ⟨before, known⟩ := h e { p with noIn := disallow } { s with noIn := disallow } clean
  refine ⟨before, fun place _ => ?_⟩
  obtain ⟨last, all⟩ := known ⟨place.stands, place.low, place.top, place.room, rfl⟩ trivial
  exact ⟨⟨last.stands, last.low, last.top, last.room, place.noIn⟩, all⟩

/-- A part that is given. -/
theorem given {P : Node → Prop} {x : Step Node} (h : Gives text P x) :
    Gives text (fun o : Option Node => o.isSome ∧ Each P o.toList) (some <$> x) := by
  refine map (h.mono fun n hn => ⟨rfl, fun m hm => ?_⟩)
  rw [List.mem_singleton.mp hm]
  exact hn

/-- One node that is there. -/
theorem present {P : Node → Prop} {x : Step Node} (h : Gives text P x) :
    Gives text (fun o : Option Node => Each P o.toList) (some <$> x) :=
  h.given.mono fun _ => And.right

/-- No node. -/
theorem absent {P : Node → Prop} :
    Gives text (fun o : Option Node => Each P o.toList) (Pure.pure none) :=
  fun _ _ _ => .pure fun _ _ => .nil

/-- An item between commas. -/
theorem separated (h : Gives text P x) : Gives text (EachItem P) (Grammar.separated x) := by
  intro e p s
  have one {A : Prop} {a : α} {t : Turn α} {u : State} (same : t.items = [a]) :
      Ensures text e p u ((True ∧ P a) ∧ A) (Pure.pure t) fun t _ => EachItem P t :=
    .pure fun _ known => by
      rw [EachItem, same]
      exact Each.cons known.1.2 .nil
  refine .bind h fun a t => .bind (accept_yields _) fun b u => ?_
  exact .ite (fun _ => one rfl) fun _ => one rfl

/-! ### Loops -/

/-- Every turn gives one more. -/
theorem collect {turn : Step (Turn α)} (h : Gives text (EachItem P) turn) :
    ∀ n items p s,
      Ensures text e p s (Each P items) (collect turn n items) fun as _ => Each P as := by
  intro n
  induction n with
  | zero => exact fun items p s => .pure fun _ each a ha => each a (List.mem_reverse.mp ha)
  | succ n ih =>
      intro items p s
      refine .bind h fun t u => ?_
      have done (as : List α) : Ensures text e p u (Each P as) (Pure.pure as.reverse)
          fun as _ => Each P as := .pure fun _ each a ha => each a (List.mem_reverse.mp ha)
      have longer (h : Each P items ∧ EachItem P t) : Each P (t.items ++ items) := h.2.append h.1
      cases t with
      | done => exact (done items).weaken longer
      | last a => exact (done (a :: items)).weaken longer
      | more a => exact (ih (a :: items) p u).weaken longer
      | skipped => exact (ih items p u).weaken longer

/-- The items of a loop. -/
theorem many {turn : Step (Turn α)} (h : Gives text (EachItem P) turn) :
    Gives text (Each P) (many turn) :=
  fun _ _ _ => .peek .read fun _ => (collect h _ [] _ _).weaken fun _ => .nil

/-- A list does not lose its items. -/
theorem collect_ne_nil (turn : Step (Turn α)) (e : Setting) :
    ∀ n items s, items ≠ [] → (Grammar.collect turn n items e s).1 ≠ [] := by
  intro n
  induction n with
  | zero => exact fun items s some => mt List.reverse_eq_nil_iff.mp some
  | succ n ih =>
      intro items s some
      cases result : (turn e s).1 with
      | done =>
          rw [collect_done result]
          exact mt List.reverse_eq_nil_iff.mp some
      | last a =>
          rw [collect_last result]
          exact mt List.reverse_eq_nil_iff.mp (List.cons_ne_nil a items)
      | more a =>
          rw [collect_more result]
          exact ih _ _ (List.cons_ne_nil a items)
      | skipped =>
          rw [collect_skipped result]
          exact ih _ _ some

/-- There is an item in every turn between commas. -/
theorem separated_item (item : Step α) (e : Setting) (s : State) :
    ∃ a, (Grammar.separated item e s).1 = .more a ∨ (Grammar.separated item e s).1 = .last a := by
  refine ⟨(item e s).1, ?_⟩
  show ((if _ then _ else _ : Step (Turn α)) e _).1 = _ ∨
    ((if _ then _ else _ : Step (Turn α)) e _).1 = _
  split
  · exact .inl rfl
  · exact .inr rfl

/-- A list of items with commas between them holds at least one. -/
theorem manySeparated {item : Step α} (h : Gives text (EachItem P) (Grammar.separated item)) :
    Gives text (fun as => as ≠ [] ∧ Each P as) (Grammar.many (Grammar.separated item)) := by
  intro e p s clean
  obtain ⟨before, known⟩ := h.many e p s clean
  refine ⟨before, fun place _ => ?_⟩
  obtain ⟨last, each⟩ := known place trivial
  refine ⟨last, ?_, each⟩
  obtain ⟨n, bound⟩ : ∃ n, e.bound = n + 1 := ⟨e.bound - 1, by have := place.room; omega⟩
  show (Grammar.collect (Grammar.separated item) e.bound [] e s).1 ≠ []
  rw [bound]
  obtain ⟨a, more | last⟩ := separated_item item e s
  · rw [collect_more more]
    exact collect_ne_nil _ e n [a] _ (List.cons_ne_nil a [])
  · rw [collect_last last]
    exact List.cons_ne_nil a []

end Gives

namespace Ensures

/-- What an extension of a node keeps, all extensions keep. -/
theorem extendUpTo {turn : Node → Step (Option Node)} {I : Node → State → Prop}
    (h : ∀ left s, Ensures text e p s (I left s) (turn left) fun o t => I (o.getD left) t) :
    ∀ n left s, Ensures text e p s (I left s) (Grammar.extendUpTo turn n left) I := by
  intro n
  induction n with
  | zero => exact fun left s => .pure fun _ known => known
  | succ n ih =>
      intro left s
      refine .andThen (h left s) fun o t => ?_
      cases o with
      | none => exact .pure fun _ known => known
      | some longer => exact ih longer t

/-- An invariant of the turns holds behind the loop. -/
theorem extendWhile {turn : Node → Step (Option Node)} {I : Node → State → Prop} {left : Node}
    (h : ∀ left s, Ensures text e p s (I left s) (turn left) fun o t => I (o.getD left) t)
    (first : A → I left s) : Ensures text e p s A (extendWhile turn left) I :=
  .peek .read fun _ => (extendUpTo h _ left s).weaken first

/-- A step does not lead back in the text. -/
theorem ahead_le (h : Yields text step R) : Ensures text e p s A step fun a t =>
    A ∧ R s a t ∧ t.lexer.ahead ≤ s.lexer.ahead := by
  intro clean
  obtain ⟨before, known⟩ := h e p s clean
  refine ⟨before, fun place ha => ?_⟩
  obtain ⟨last, result⟩ := known place trivial
  -- nothing is left behind the step that was not left before it
  have near : Place.Holds { p with top := s.lexer.ahead } text e s :=
    ⟨place.stands, place.low, Nat.le_refl _, Nat.lt_of_le_of_lt place.top place.room, place.noIn⟩
  exact ⟨last, ha, result, ((h e _ s clean).2 near trivial).1.top⟩

/-- What an extension of a node keeps, and what is known where it ends. -/
def Extended (I J : Node → State → Prop) (left : Node) (s : State) (o : Option Node)
    (t : State) : Prop :=
  o.elim (J left t) fun longer => I longer t ∧ t.lexer.ahead < s.lexer.ahead

/-- Where each extension takes a token, the last one finds that there are no
    more. -/
theorem extendUpTo_ends {turn : Node → Step (Option Node)} {I J : Node → State → Prop}
    (h : ∀ left s, Ensures text e p s (I left s) (turn left) (Extended I J left s)) :
    ∀ n left s, Ensures text e p s (I left s ∧ s.lexer.ahead < n)
      (Grammar.extendUpTo turn n left) J := by
  intro n
  induction n with
  | zero => exact fun left s => .pure fun _ known => absurd known.2 (Nat.not_lt_zero _)
  | succ n ih =>
      intro left s
      -- the bound stays above what is left, so it is not what ends the extensions
      refine .andThen (.remember (h left s)) fun o t => ?_
      cases o with
      | none => exact .pure fun _ known => known.1
      | some longer => exact (ih longer t).weaken fun ⟨⟨known, less⟩, room⟩ => ⟨known, by omega⟩

/-- What ends the last turn holds behind the loop too. -/
theorem extendWhile_ends {turn : Node → Step (Option Node)} {I J : Node → State → Prop}
    {left : Node} (h : ∀ left s, Ensures text e p s (I left s) (turn left) (Extended I J left s))
    (first : A → I left s) : Ensures text e p s A (Grammar.extendWhile turn left) J := by
  intro clean
  obtain ⟨before, known⟩ := extendUpTo_ends h e.bound left s clean
  exact ⟨before, fun place ha => known place ⟨first ha, Nat.lt_of_le_of_lt place.top place.room⟩⟩

end Ensures

end

end DeclCheck.Grammar
