import DeclCheck.Grammar.Parse
import DeclCheck.Proofs.Token.Text

/-! # Reasoning about reading steps

    A statement about a step looks at the state through a *view*: the number
    of the next node, the faults so far, and so on.  `Keeps view step` says that
    `step` leaves the view as it was, so that it may be passed over in a proof.

    Taking a token and recording a fault change little of the state.  What
    relates the states before and after such changes is a *quiet* relation,
    and it relates those before and after every step that does no more. -/

namespace DeclCheck.Grammar

open Token Ast

variable {α β γ : Type} {view : State → γ}

/-- A step leads from every state to a related one. -/
def Leads (R : State → State → Prop) (step : Step α) : Prop := ∀ e s, R s (step e s).2

/-- A step leaves a view as it was. -/
abbrev Keeps (view : State → γ) (step : Step α) : Prop := Leads (fun s t => view t = view s) step

/-- A choice between steps that lead somewhere leads there. -/
theorem Leads.ite {R : State → State → Prop} {c : Prop} [Decidable c] {x y : Step α}
    (hx : Leads R x) (hy : Leads R y) : Leads R (if c then x else y) := by
  by_cases h : c
  · rw [if_pos h]
    exact hx
  · rw [if_neg h]
    exact hy

namespace Keeps

/-- An answer keeps every view. -/
theorem pure (a : α) : Keeps view (Pure.pure a : Step α) := fun _ _ => rfl

/-- A view is kept by steps that keep it, one after the other. -/
theorem bind {step : Step α} {next : α → Step β} (h : Keeps view step)
    (k : ∀ a, Keeps view (next a)) : Keeps view (step >>= next) :=
  fun e s => (k _ e _).trans (h e s)

/-- To look at the state keeps it. -/
theorem get : Keeps view (MonadState.get : Step State) := fun _ _ => rfl

/-- To look at the setting keeps the state. -/
theorem read : Keeps view (MonadReader.read : Step Setting) := fun _ _ => rfl

/-- A change outside the view keeps it. -/
theorem modify {f : State → State} (h : ∀ s, view (f s) = view s) :
    Keeps view (modify f : Step PUnit) := fun _ s => h s

end Keeps

/-! ## Steps that only look -/

/-- The token is only looked at. -/
theorem token_keeps : Keeps view token := Keeps.bind .get fun _ => .pure _

/-- So is its kind. -/
theorem kind_keeps : Keeps view kind := Keeps.bind token_keeps fun _ => .pure _

/-- So is its offset. -/
theorem tokenStart_keeps : Keeps view tokenStart := Keeps.bind token_keeps fun _ => .pure _

/-- A comparison with a kind. -/
theorem at?_keeps (k : Kind) : Keeps view (at? k) := Keeps.bind kind_keeps fun _ => .pure _

/-- A look at the token behind the current one takes nothing. -/
theorem nextIs_eq (k : Kind) (e : Setting) (s : State) :
    nextIs k e s = (s.lexer.next.token.kind == k, s) := by
  have restored : s.lexer.restore s.lexer.next = s.lexer := s.lexer.restore_next
  show (s.lexer.next.token.kind == k, { s with lexer := s.lexer.restore s.lexer.next }) = _
  rw [restored]

/-- A look beyond the token is taken back. -/
theorem nextIs_keeps (k : Kind) : Keeps view (nextIs k) := by
  intro e s
  rw [nextIs_eq]

/-- A comparison with a word. -/
theorem atWord_keeps (word : String) : Keeps view (atWord word) :=
  Keeps.bind token_keeps fun _ => .pure _

/-- A comparison with the end of a list. -/
theorem atEndOf_keeps (close : Mark) : Keeps view (atEndOf close) :=
  Keeps.bind kind_keeps fun _ => .pure _

/-- A statement's end is only looked for. -/
theorem canEndStatement_keeps : Keeps view canEndStatement :=
  Keeps.bind token_keeps fun _ => .pure _

/-- The comments before a token are only looked at. -/
theorem docFlags_keeps : Keeps view docFlags := by
  refine Keeps.bind token_keeps fun t => ?_
  cases t.doc with
  | none => exact .pure _
  | some doc => exact .pure _

/-! ## What steps do to the state -/

/-- The state with the current token taken. -/
def State.taken (s : State) : State :=
  { s with lastEnd := s.lexer.token.span.stop, lexer := s.lexer.next }

/-- The faults with one more, unless the last one was found at the same
    start. -/
def reported (f : SyntaxFault) (fs : List SyntaxFault) : List SyntaxFault :=
  if (fs.head?.map SyntaxFault.start) == some f.start then fs else f :: fs

/-- There is a fault behind every report. -/
theorem reported_ne_nil (f : SyntaxFault) (fs : List SyntaxFault) : reported f fs ≠ [] := by
  cases fs with
  | nil => exact List.cons_ne_nil _ _
  | cons g gs =>
      rw [reported]
      split <;> exact List.cons_ne_nil _ _

/-- A report adds at most its own fault. -/
theorem mem_of_mem_reported {f g : SyntaxFault} {fs : List SyntaxFault} (h : g ∈ reported f fs) :
    g = f ∨ g ∈ fs := by
  rw [reported] at h
  split at h
  · exact .inr h
  · exact List.mem_cons.mp h

/-- A report changes the faults and nothing else. -/
theorem report_eq (start length : Nat) (error : SyntaxError) (e : Setting) (s : State) :
    report start length error e s =
      ((), { s with faults := reported ⟨start, length, error⟩ s.faults }) := by
  show ((), if _ then s else _) = _
  rw [reported]
  split <;> rfl

/-- A token is taken if it is of the kind. -/
theorem accept_eq (k : Kind) (e : Setting) (s : State) :
    accept k e s = if s.lexer.token.kind = k then (true, s.taken) else (false, s) := by
  show (if (s.lexer.token.kind == k) = true then advance >>= fun _ => pure true
    else pure false : Step Bool) e s = _
  by_cases here : s.lexer.token.kind = k
  · rw [if_pos here, if_pos (beq_iff_eq.mpr here)]
    rfl
  · rw [if_neg here, if_neg (mt beq_iff_eq.mp here)]
    rfl

/-- An expected token that is there is taken. -/
theorem expect_eq_taken {k : Kind} {e : Setting} {s : State} (here : s.lexer.token.kind = k) :
    expect k e s = ((), s.taken) := by
  show (if (accept k e s).1 = true then pure PUnit.unit else reportHere (.expected k) : Step Unit) e
    (accept k e s).2 = _
  rw [accept_eq, if_pos here]
  rfl

/-- A fault at the current token. -/
def State.fault (s : State) (error : SyntaxError) : SyntaxFault :=
  ⟨s.lexer.token.span.start, s.lexer.token.span.length, error⟩

/-- A fault at the token has the span of the token. -/
theorem reportHere_eq (error : SyntaxError) (e : Setting) (s : State) :
    reportHere error e s = ((), { s with faults := reported (s.fault error) s.faults }) :=
  report_eq _ _ _ e s

/-- The faults behind the demand for a construct that a language level may
    lack. -/
def State.demanded (e : Setting) (feature : Feature) (s : State) : List SyntaxFault :=
  if e.level.hasBlockScope = true then s.faults
  else reported (s.fault (.needsNewerLevel feature)) s.faults

/-- A feature that the level lacks is reported, and nothing else happens. -/
theorem require_eq (feature : Feature) (e : Setting) (s : State) :
    require feature e s = ((), { s with faults := s.demanded e feature }) := by
  show (if e.level.hasBlockScope = true then pure PUnit.unit
    else reportHere (.needsNewerLevel feature) : Step Unit) e s = _
  rw [State.demanded]
  split
  · rfl
  · exact reportHere_eq _ e s

/-- A guarded step counts one level more, unless the limit is reached. -/
theorem guarded_eq (step otherwise : Step α) (e : Setting) (s : State) :
    guarded step otherwise e s =
      if e.limit ≤ s.depth then (do reportHere .nestedTooDeeply; otherwise : Step α) e s
      else
        let r := step e { s with depth := s.depth + 1 }
        (r.1, { r.2 with depth := r.2.depth - 1 }) := by
  show (if e.limit ≤ s.depth then _ else _ : Step α) e s = _
  split <;> rfl

/-! ## Steps that change nothing but the lexer and the faults -/

/-- The construct that an error misses at the language level. -/
def SyntaxError.feature? : SyntaxError → Option Feature
  | needsNewerLevel feature => some feature
  | _ => none

/-- Whether an error is one of the grammar that all language levels share. -/
def SyntaxError.isShared : SyntaxError → Bool
  | needsNewerLevel _ | lexical _ => false
  | _ => true

/-- Faults of all levels ask for no feature. -/
theorem SyntaxError.feature?_of_isShared {error : SyntaxError} (h : error.isShared = true) :
    error.feature? = none := by
  cases error <;> first | rfl | cases h

/-- A relation of states that taking tokens and recording faults of the grammar
    at them go along with. -/
structure Quiet (R : State → State → Prop) : Prop where
  refl : ∀ s, R s s
  trans : ∀ s t u, R s t → R t u → R s u
  taken : ∀ s, R s s.taken
  reported : ∀ (s : State) (error : SyntaxError), error.isShared = true →
    R s { s with faults := reported (s.fault error) s.faults }

/-- A view that shows neither the lexer nor the faults. -/
theorem Quiet.ofView (lexer : ∀ s l n, view { s with lexer := l, lastEnd := n } = view s)
    (faults : ∀ s fs, view { s with faults := fs } = view s) :
    Quiet fun s t => view t = view s where
  refl := fun _ => rfl
  trans := fun _ _ _ h h' => h'.trans h
  taken := fun s => lexer s _ _
  reported := fun s _ _ => faults s _

section

variable {R : State → State → Prop} (quiet : Quiet R)
include quiet

namespace Quiet

/-- To stay leads to every state that is led to. -/
theorem pure (a : α) : Leads R (Pure.pure a : Step α) := fun _ s => quiet.refl s

/-- Steps lead on from each other. -/
theorem bind {step : Step α} {next : α → Step β} (h : Leads R step)
    (k : ∀ a, Leads R (next a)) : Leads R (step >>= next) :=
  fun e s => quiet.trans _ _ _ (h e s) (k _ e _)

/-- A step that leaves the state as it was. -/
theorem peek {step : Step α} (h : Keeps id step) : Leads R step := by
  intro e s
  rw [show (step e s).2 = s from h e s]
  exact quiet.refl s

end Quiet

/-- Taking a token is one of the moves. -/
theorem advance_keeps : Leads R advance := fun _ s => quiet.taken s

/-- So is taking it if it is there. -/
theorem accept_keeps (k : Kind) : Leads R (accept k) := by
  refine quiet.bind (quiet.peek (at?_keeps k)) fun b => ?_
  exact .ite (quiet.bind (advance_keeps quiet) fun _ => quiet.pure _) (quiet.pure _)

/-- So is a report that every level makes. -/
theorem reportHere_keeps {error : SyntaxError} (h : error.isShared = true) :
    Leads R (reportHere error) := by
  intro e s
  rw [reportHere_eq]
  exact quiet.reported s error h

omit quiet in
/-- A fault at a node may lie anywhere. -/
theorem reportAt_keeps (faults : ∀ s fs, R s { s with faults := fs }) (n : Node)
    (error : SyntaxError) : Leads R (reportAt n error) := by
  intro e s
  rw [reportAt, report_eq]
  exact faults s _

/-- A missing token is reported with a fault of every level. -/
theorem expect_keeps (k : Kind) : Leads R (expect k) := by
  refine quiet.bind (accept_keeps quiet k) fun b => ?_
  exact .ite (quiet.pure _) (reportHere_keeps quiet rfl)

/-- A missing end is reported with a fault of every level. -/
theorem endStatement_keeps : Leads R endStatement := by
  refine quiet.bind (accept_keeps quiet _) fun b => .ite (quiet.pure _) ?_
  refine quiet.bind (quiet.peek canEndStatement_keeps) fun b => ?_
  exact .ite (quiet.pure _) (reportHere_keeps quiet rfl)

/-- An operand that cannot be stepped only adds faults. -/
theorem checkStepOperand_keeps (faults : ∀ s fs, R s { s with faults := fs }) (operand : Node) :
    Leads R (checkStepOperand operand) :=
  .ite (quiet.pure _) (reportAt_keeps faults _ _)

omit quiet in
/-- Demands for constructs of the youngest level record faults of the language
    level. -/
theorem require_keeps (faults : ∀ s fs, R s { s with faults := fs }) (feature : Feature) :
    Leads R (require feature) := by
  intro e s
  rw [require_eq]
  exact faults s _

/-- A word that the level lacks only adds faults. -/
theorem variableWord_keeps (faults : ∀ s fs, R s { s with faults := fs }) (kind : VariableWord) :
    Leads R (variableWord kind) :=
  .ite (quiet.bind (require_keeps faults _) fun _ => advance_keeps quiet)
    (advance_keeps quiet)

end

end DeclCheck.Grammar
