import DeclCheck.Proofs.Grammar.Steps

/-! # What the limit on nesting does

    A guarded step is refused where too many of them are under way, and the
    refusal is a fault.  So two runs on the same text, of which one has the lower
    limit, stay the same until the lower limit refuses a step that the higher one
    does not.  From there on they may differ in anything; but the run that was
    refused has reported that the text is nested too deeply, or a fault at the same
    place was reported before, by both runs.

    `Heeds step` says this of a step, and every step of the grammar heeds the
    limit.  The statement is closed under all ways of putting steps together since
    faults are never taken back. -/

namespace DeclCheck.Grammar

open Token Ast

variable {α β : Type}

/-- What is left of two runs that went apart: the one with the lower limit has a
    fault, and has reported the nesting, or the other one has a fault as well. -/
def Parted (fs gs : List SyntaxFault) : Prop :=
  fs ≠ [] ∧ ((∃ f ∈ fs, f.error = .nestedTooDeeply) ∨ gs ≠ [])

/-- More faults are some faults. -/
theorem ne_nil_of_suffix {fs fs' : List SyntaxFault} (ne : fs ≠ []) (more : fs <:+ fs') :
    fs' ≠ [] := by
  rintro rfl
  exact ne (List.suffix_nil.mp more)

/-- Further faults do not bring two runs together again. -/
theorem Parted.mono {fs fs' gs gs' : List SyntaxFault} (h : Parted fs gs) (more : fs <:+ fs')
    (more' : gs <:+ gs') : Parted fs' gs' := by
  refine ⟨ne_nil_of_suffix h.1 more, h.2.imp ?_ fun ne => ne_nil_of_suffix ne more'⟩
  rintro ⟨f, hf, deep⟩
  exact ⟨f, more.subset hf, deep⟩

/-- A step that takes no fault back, and does the same under a lower limit unless
    the runs go apart. -/
structure Heeds (step : Step α) : Prop where
  adds : Leads (fun s t => s.faults <:+ t.faults) step
  agrees : ∀ (e : Setting) (limit : Nat) (s : State), limit ≤ e.limit →
    step { e with limit := limit } s = step e s ∨
      Parted (step { e with limit := limit } s).2.faults (step e s).2.faults

/-- Faults are only added. -/
theorem reported_suffix (f : SyntaxFault) (fs : List SyntaxFault) : fs <:+ reported f fs := by
  rw [reported]
  split
  · exact List.suffix_rfl
  · exact List.suffix_cons f fs

/-- Taking tokens and recording faults takes no fault back. -/
theorem added : Quiet fun s t => s.faults <:+ t.faults where
  refl := fun _ => List.suffix_rfl
  trans := fun _ _ _ h h' => h.trans h'
  taken := fun _ => List.suffix_rfl
  reported := fun _ _ _ => reported_suffix _ _

namespace Heeds

variable {step other : Step α} {next : α → Step β}

/-- A step that does not look at the limit. -/
theorem steady (adds : Leads (fun s t => s.faults <:+ t.faults) step)
    (same : ∀ (e : Setting) (limit : Nat) (s : State),
      step { e with limit := limit } s = step e s) : Heeds step :=
  ⟨adds, fun e limit s _ => .inl (same e limit s)⟩

/-- A step that only looks, and not at the limit. -/
theorem look (keeps : Keeps id step)
    (same : ∀ (e : Setting) (limit : Nat) (s : State),
      step { e with limit := limit } s = step e s) : Heeds step :=
  steady (added.peek keeps) same

/-- What reads nothing heeds the limit. -/
theorem pure (a : α) : Heeds (Pure.pure a : Step α) := look (.pure a) fun _ _ _ => rfl

/-- Steps that heed the limit do so one after the other. -/
theorem bind (h : Heeds step) (k : ∀ a, Heeds (next a)) : Heeds (step >>= next) where
  adds := added.bind h.adds fun a => (k a).adds
  agrees := by
    intro e limit s le
    rcases h.agrees e limit s le with same | apart
    · -- the second step starts alike, so what holds of it holds of both
      have run (e : Setting) : (step >>= next) e s = next (step e s).1 e (step e s).2 := rfl
      rw [run, run, same]
      exact (k (step e s).1).agrees e limit (step e s).2 le
    · exact .inr (apart.mono ((k _).adds _ _) ((k _).adds _ _))

/-- What is made of the answer does not matter. -/
theorem map (h : Heeds step) (f : α → β) : Heeds (f <$> step) := by
  refine ⟨h.adds, fun e limit s le => (h.agrees e limit s le).imp (fun same => ?_) id⟩
  exact congrArg (fun r => (f r.1, r.2)) same

/-- Both branches have to heed the limit, as the choice does not see it. -/
theorem ite {c : Prop} [Decidable c] (h : Heeds step) (h' : Heeds other) :
    Heeds (if c then step else other) := by
  split
  · exact h
  · exact h'

/-- A step that goes on with a part or without one. -/
theorem optional {c : Prop} [Decidable c] (h : Heeds step) {rest : Option α → Step β}
    (k : ∀ o, Heeds (rest o)) :
    Heeds (if c then some <$> step >>= rest else Pure.pure none >>= rest) :=
  .ite ((h.map some).bind k) ((pure none).bind k)

/-- A step that is preceded by another one or not. -/
theorem preceded {c : Prop} [Decidable c] {first : Step Unit} (h : Heeds first)
    {rest : Unit → Step β} (k : Heeds (rest ())) :
    Heeds (if c then first >>= rest else rest ()) :=
  .ite (h.bind fun _ => k) k

end Heeds

/-! ## Small steps -/

/-- The state can be looked at. -/
theorem get_heeds : Heeds (MonadState.get : Step State) := .look .get fun _ _ _ => rfl

/-- The next token is read off the state. -/
theorem token_heeds : Heeds token := .look token_keeps fun _ _ _ => rfl

/-- So is its kind. -/
theorem kind_heeds : Heeds kind := .look kind_keeps fun _ _ _ => rfl

/-- So is its offset. -/
theorem tokenStart_heeds : Heeds tokenStart := .look tokenStart_keeps fun _ _ _ => rfl

/-- A token can be compared with a kind. -/
theorem at?_heeds (k : Kind) : Heeds (at? k) := .look (at?_keeps k) fun _ _ _ => rfl

/-- One more token can be looked at. -/
theorem nextIs_heeds (k : Kind) : Heeds (nextIs k) := .look (nextIs_keeps k) fun _ _ _ => rfl

/-- A token can be compared with a word. -/
theorem atWord_heeds (word : String) : Heeds (atWord word) :=
  .look (atWord_keeps word) fun _ _ _ => rfl

/-- The end of a list is told from the token. -/
theorem atEndOf_heeds (close : Mark) : Heeds (atEndOf close) :=
  .look (atEndOf_keeps close) fun _ _ _ => rfl

/-- Whether a statement can end is told from the token. -/
theorem canEndStatement_heeds : Heeds canEndStatement :=
  .look canEndStatement_keeps fun _ _ _ => rfl

/-- Flags are read off the comments before the token. -/
theorem docFlags_heeds : Heeds docFlags := by
  refine .bind token_heeds fun t => ?_
  cases t.doc with
  | none => exact .pure _
  | some doc => exact .pure _

/-- A token is taken under every limit. -/
theorem advance_heeds : Heeds advance := .steady (advance_keeps added) fun _ _ _ => rfl

/-- A token may be taken. -/
theorem accept_heeds (k : Kind) : Heeds (accept k) :=
  .bind (at?_heeds k) fun _ => .ite (.bind advance_heeds fun _ => .pure _) (.pure _)

/-- What is reported does not depend on the limit. -/
theorem report_heeds (start length : Nat) (error : SyntaxError) :
    Heeds (report start length error) := by
  refine .steady (fun e s => ?_) fun _ _ _ => rfl
  rw [report_eq]
  exact reported_suffix _ _

/-- A fault at the next token. -/
theorem reportHere_heeds (error : SyntaxError) : Heeds (reportHere error) :=
  .bind token_heeds fun _ => report_heeds _ _ _

/-- A fault at a node. -/
theorem reportAt_heeds (n : Node) (error : SyntaxError) : Heeds (reportAt n error) :=
  report_heeds _ _ _

/-- A token that is missing is reported under every limit. -/
theorem expect_heeds (k : Kind) : Heeds (expect k) :=
  .bind (accept_heeds k) fun _ => .ite (.pure _) (reportHere_heeds _)

/-- A statement ends by a mark or by what follows. -/
theorem endStatement_heeds : Heeds endStatement := by
  refine .bind (accept_heeds _) fun _ => .ite (.pure _) ?_
  exact .bind canEndStatement_heeds fun _ => .ite (.pure _) (reportHere_heeds _)

/-- What a language level lacks is told by the level alone. -/
theorem require_heeds (feature : Feature) : Heeds (require feature) := by
  refine .steady (fun e s => ?_) fun e limit s => ?_
  · rw [require_eq, State.demanded]
    split
    · exact List.suffix_rfl
    · exact reported_suffix _ _
  · rw [require_eq, require_eq]
    rfl

/-- Nodes are numbered in the same way under every limit. -/
theorem complete_heeds (span : Span) (flags : Flags) (sh : Shape Node) :
    Heeds (complete span flags sh) :=
  .steady (fun _ _ => List.suffix_rfl) fun _ _ _ => rfl

/-- A node ends where the last token does. -/
theorem finishWith_heeds (start : Nat) (flags : Flags) (sh : Shape Node) :
    Heeds (finishWith start flags sh) :=
  .bind get_heeds fun _ => complete_heeds _ _ _

/-- So does one without flags. -/
theorem finish_heeds (start : Nat) (sh : Shape Node) : Heeds (finish start sh) :=
  finishWith_heeds _ _ _

/-- A node that is missing has no text. -/
theorem missing_heeds : Heeds missing := .bind tokenStart_heeds fun _ => complete_heeds _ _ _

/-! ## Control -/

/-- Whether a word is an operator has nothing to do with the limit. -/
theorem withIn_heeds {disallow : Bool} {step : Step α} (h : Heeds step) :
    Heeds (withIn disallow step) := by
  refine ⟨fun e s => h.adds e { s with noIn := disallow }, fun e limit s le => ?_⟩
  refine (h.agrees e limit { s with noIn := disallow } le).imp (fun same => ?_) id
  exact congrArg (fun r => (r.1, { r.2 with noIn := s.noIn })) same

/-- Two runs go apart where the lower limit refuses a step and the higher one does
    not: the refusal is reported, unless a fault stands there already. -/
theorem guarded_heeds {step otherwise : Step α} (h : Heeds step) (h' : Heeds otherwise) :
    Heeds (guarded step otherwise) := by
  have refused : Heeds (do reportHere .nestedTooDeeply; otherwise : Step α) :=
    .bind (reportHere_heeds _) fun _ => h'
  refine ⟨fun e s => ?_, fun e limit s le => ?_⟩
  · rw [guarded_eq]
    split
    · exact refused.adds e s
    · exact h.adds e { s with depth := s.depth + 1 }
  · rw [guarded_eq, guarded_eq]
    by_cases full : e.limit ≤ s.depth
    · rw [if_pos full, if_pos (Nat.le_trans le full)]
      exact refused.agrees e limit s le
    · rw [if_neg full]
      by_cases full : limit ≤ s.depth
      · -- here the runs go apart
        rw [if_pos full]
        let f := s.fault .nestedTooDeeply
        have told : Parted (reported f s.faults) s.faults := by
          refine ⟨reported_ne_nil f s.faults, ?_⟩
          cases faults : s.faults with
          | nil => exact .inl ⟨f, List.mem_singleton_self f, rfl⟩
          | cons g gs => exact .inr (List.cons_ne_nil g gs)
        refine .inr (told.mono ?_ (h.adds e { s with depth := s.depth + 1 }))
        have run (e : Setting) : (do reportHere .nestedTooDeeply; otherwise : Step α) e s =
            otherwise e { s with faults := reported f s.faults } := by
          show otherwise e (reportHere .nestedTooDeeply e s).2 = _
          rw [reportHere_eq]
        rw [run]
        exact h'.adds _ { s with faults := reported f s.faults }
      · rw [if_neg full]
        have inner := h.agrees e limit { s with depth := s.depth + 1 } le
        refine inner.imp (fun same => ?_) id
        exact congrArg (fun r => (r.1, { r.2 with depth := r.2.depth - 1 })) same

/-- Turns that heed the limit do so in a loop. -/
theorem collect_heeds {turn : Step (Turn α)} (h : Heeds turn) (n : Nat) (items : List α) :
    Heeds (collect turn n items) := by
  induction n generalizing items with
  | zero => exact .pure _
  | succ n ih =>
      refine h.bind fun t => ?_
      cases t with
      | done | last => exact .pure _
      | more a => exact ih _
      | skipped => exact ih _

/-- The bound of a loop is the same in both runs. -/
theorem many_heeds {turn : Step (Turn α)} (h : Heeds turn) : Heeds (many turn) :=
  ⟨fun e s => (collect_heeds h e.bound []).adds e s,
    fun e limit s le => (collect_heeds h e.bound []).agrees e limit s le⟩

/-- So do the steps that extend a node a number of times. -/
theorem extendUpTo_heeds {extend : Node → Step (Option Node)} (h : ∀ n, Heeds (extend n)) (n : Nat)
    (first : Node) : Heeds (extendUpTo extend n first) := by
  induction n generalizing first with
  | zero => exact .pure _
  | succ n ih =>
      refine (h first).bind fun longer => ?_
      cases longer with
      | none => exact .pure _
      | some longer => exact ih longer

/-- And those that extend it as long as the text goes on. -/
theorem extendWhile_heeds {extend : Node → Step (Option Node)} (h : ∀ n, Heeds (extend n))
    (first : Node) : Heeds (extendWhile extend first) :=
  ⟨fun e s => (extendUpTo_heeds h e.bound first).adds e s,
    fun e limit s le => (extendUpTo_heeds h e.bound first).agrees e limit s le⟩

/-- And items between commas. -/
theorem separated_heeds {item : Step α} (h : Heeds item) : Heeds (separated item) :=
  h.bind fun _ => .bind (accept_heeds _) fun _ => .ite (.pure _) (.pure _)

/-- A node that is extended by another one. -/
theorem longer_heeds (start : Nat) (sh : Shape Node) :
    Heeds (do return some (← finish start sh)) :=
  .bind (finish_heeds _ _) fun _ => .pure _

end DeclCheck.Grammar
