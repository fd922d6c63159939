import DeclCheck.Proofs.Grammar.Places
import DeclCheck.Proofs.Grammar.Statements
import DeclCheck.Proofs.Token.Faults

/-! # Where the faults of a reading lie

    A fault of the grammar is reported at the current token or at a node that
    is completed, and both are bounded by tokens.  So it lies inside the text,
    as the faults of tokens do, hexadecimal escapes apart.  All faults together
    are sorted by where they start. -/

namespace DeclCheck

open Token

/-- Whether a span starts and stops between characters of a text. -/
structure Span.Lies (text : List Char) (span : Span) : Prop where
  start : Boundary text span.start
  stop : Boundary text span.stop
  le : span.start ≤ span.stop

namespace Grammar

open Ast

variable {text : List Char}

/-! ## The faults of a state -/

/-- Whether a fault is reported at its place in a text. -/
structure SyntaxFault.Lies (text : List Char) (f : SyntaxFault) : Prop where
  inside : f.error ≠ .lexical .invalidEscape → Inside text f.start f.length
  escapes : f.error = .lexical .invalidEscape → Escapes text f.start f.length

/-- A fault of the scan lies where the scan found it. -/
theorem SyntaxFault.lies_ofLexical {f : Token.Fault} (h : f.Lies text) :
    (SyntaxFault.ofLexical f).Lies text :=
  ⟨fun other => h.inside fun same => other (congrArg SyntaxError.lexical same),
    fun same => h.escapes (SyntaxError.lexical.inj same)⟩

/-- A fault at a span lies in the text if the span does. -/
theorem SyntaxFault.lies_of_span {span : Span} (h : span.Lies text) {error : SyntaxError}
    (other : error ≠ .lexical .invalidEscape) :
    SyntaxFault.Lies text ⟨span.start, span.length, error⟩ :=
  ⟨fun _ => h.start.inside h.stop h.le, fun same => absurd same other⟩

/-- Faults that lie at their places, with one more that does. -/
theorem reported_lie {f : SyntaxFault} {fs : List SyntaxFault} (h : f.Lies text)
    (h' : ∀ g ∈ fs, g.Lies text) : ∀ g ∈ reported f fs, g.Lies text := by
  intro g hg
  rcases mem_of_mem_reported hg with rfl | old
  · exact h
  · exact h' g old

namespace State

variable {s : State}

/-- The last token ends between two characters. -/
theorem Stands.boundary_lastEnd (h : s.Stands text) : Boundary text s.lastEnd := by
  obtain ⟨front, gap, lexeme, splits⟩ := h
  exact ⟨front, _, splits.text, splits.taken.symm⟩

/-- The current token lies in the text. -/
theorem Stands.token (h : s.Stands text) : s.lexer.token.span.Lies text := by
  have le := h.here_le
  obtain ⟨front, gap, lexeme, splits⟩ := h
  have here : Left text (lexeme ++ s.lexer.rest) s.lexer.token.span.start := by
    refine ⟨front ++ gap, ?_, ?_⟩
    · rw [splits.text, List.append_assoc]
    · rw [byteLength_append, splits.start, splits.taken]
  exact ⟨here.boundary, (here.behind lexeme splits.stop).boundary, le⟩

/-- What is left of the text begins at the offset of the lexer. -/
theorem Stands.left (h : s.Stands text) : Left text s.lexer.rest s.lexer.offset := by
  obtain ⟨front, gap, lexeme, splits⟩ := h
  refine ⟨front ++ (gap ++ lexeme), ?_, ?_⟩
  · rw [splits.text]
    simp only [List.append_assoc]
  · rw [byteLength_append, byteLength_append, splits.behind, splits.stop, splits.start,
      splits.taken, Nat.add_assoc]

/-- A state stands in a text, and the faults found so far are reported at their
    places there. -/
structure Reports (text : List Char) (s : State) : Prop where
  stands : s.Stands text
  tokens : AllLie text s.lexer.faults
  faults : ∀ f ∈ s.faults, f.Lies text

namespace Reports

/-- Behind a token, what was reported still lies in the text. -/
theorem taken (h : s.Reports text) : s.taken.Reports text :=
  ⟨h.stands.taken, Lexer.faults_next_lie h.stands.left h.tokens, h.faults⟩

/-- One fault more is reported at a span of the text. -/
theorem reported (h : s.Reports text) {span : Span} (lies : span.Lies text) {error : SyntaxError}
    (other : error ≠ .lexical .invalidEscape) :
    Reports text
      { s with faults := Grammar.reported ⟨span.start, span.length, error⟩ s.faults } :=
  ⟨h.stands, h.tokens, reported_lie (SyntaxFault.lies_of_span lies other) h.faults⟩

/-- The place of the current token lies in the text. -/
theorem tokenSpan (h : s.Reports text) : s.tokenSpan.Lies text := by
  have lies := h.stands.token
  have stop : s.tokenSpan.stop = s.lexer.token.span.stop := Nat.max_eq_left lies.le
  exact ⟨lies.start, stop ▸ lies.stop, Nat.le_max_right _ _⟩

end Reports

end State

/-! ## Runs -/

/-- A run goes on in its text, reports faults at their places, and completes
    nodes at spans of the text. -/
theorem Reads.reports {e : Setting} {s t : State} {ns : List Node} {owed : List Feature}
    (h : Reads e s ns owed t) :
    s.Reports text → t.Reports text ∧ ∀ n ∈ ns, n.span.Lies text := by
  induction h with
  | nil s => exact fun before => ⟨before, List.forall_mem_nil _⟩
  | append _ _ first rest =>
      intro before
      obtain ⟨between, spans⟩ := first before
      obtain ⟨behind, spans'⟩ := rest between
      exact ⟨behind, List.forall_mem_append.mpr ⟨spans, spans'⟩⟩
  | taken s => exact fun before => ⟨before.taken, List.forall_mem_nil _⟩
  | @noted s t lexer lastEnd nextId faults =>
      intro before
      refine ⟨⟨?_, lexer ▸ before.tokens, faults ▸ before.faults⟩, List.forall_mem_nil _⟩
      rw [State.Stands, lexer, lastEnd]
      exact before.stands
  | reported s shared =>
      intro before
      refine ⟨before.reported before.stands.token ?_, List.forall_mem_nil _⟩
      rintro rfl
      cases shared
  | reportedAt _ completed shared ih =>
      intro before
      obtain ⟨behind, spans⟩ := ih before
      refine ⟨behind.reported (spans _ completed) ?_, spans⟩
      rintro rfl
      cases shared
  | demanded s feature =>
      intro before
      refine ⟨⟨before.stands, before.tokens, ?_⟩, List.forall_mem_nil _⟩
      show ∀ f ∈ s.demanded e feature, f.Lies text
      rw [State.demanded]
      split
      · exact before.faults
      · refine reported_lie ?_ before.faults
        exact SyntaxFault.lies_of_span before.stands.token SyntaxError.noConfusion
  | missing s =>
      intro before
      have here := before.stands.token.start
      exact ⟨⟨before.stands, before.tokens, before.faults⟩,
        List.forall_mem_singleton.mpr ⟨here, here, Nat.le_refl _⟩⟩
  | token s _ =>
      intro before
      have behind := before.taken
      exact ⟨⟨behind.stands, behind.tokens, behind.faults⟩,
        List.forall_mem_singleton.mpr before.tokenSpan⟩
  | @shorthand s t i flags _ _ ih =>
      intro before
      obtain ⟨behind, spans⟩ := ih before
      refine ⟨⟨behind.stands, behind.tokens, behind.faults⟩, List.forall_mem_cons.mpr ⟨?_, ?_⟩⟩
      · exact before.tokenSpan
      · exact List.forall_mem_singleton.mpr before.tokenSpan
  | @node s t sh _ _ _ flags _ ih =>
      intro before
      obtain ⟨behind, -⟩ := ih before
      have here := before.stands.token.start
      have stop : Boundary text (max t.lastEnd s.here) := by
        rcases Nat.le_total t.lastEnd s.here with le | le
        · rw [Nat.max_eq_right le]
          exact here
        · rw [Nat.max_eq_left le]
          exact behind.stands.boundary_lastEnd
      exact ⟨⟨behind.stands, behind.tokens, behind.faults⟩,
        List.forall_mem_singleton.mpr ⟨here, stop, Nat.le_max_right _ _⟩⟩

/-! ## Whole texts -/

/-- Nothing was found when a text begins, but by its first token. -/
theorem State.start_reports (cs : List Char) : (State.start cs).Reports cs :=
  ⟨State.start_stands cs, Lexer.faults_next_lie ⟨[], rfl, rfl⟩ (List.forall_mem_nil _),
    List.forall_mem_nil _⟩

/-- The faults of a text are sorted by where they start. -/
theorem State.allFaults_sorted (s : State) : s.allFaults.Pairwise fun f g => f.start ≤ g.start := by
  have sorted := @List.pairwise_mergeSort _ (fun f g : SyntaxFault => decide (f.start ≤ g.start))
    (fun _ _ _ h h' => by simp only [decide_eq_true_eq] at *; exact Nat.le_trans h h')
    (fun f g => by simp only [Bool.or_eq_true, decide_eq_true_eq]; exact Nat.le_total _ _)
    (s.faults.reverse ++ s.lexer.faults.map SyntaxFault.ofLexical)
  exact sorted.imp of_decide_eq_true

/-- So every fault of a text lies in it. -/
theorem parse_faults_lie (level : LanguageLevel) (text : String) :
    ∀ f ∈ (parse level text).faults, f.Lies text.toList := by
  obtain ⟨statements, t, run, read⟩ := exists_reads level text
  obtain ⟨behind, -⟩ := run.reports (State.start_reports text.toList)
  rw [parse_eq_reading, read]
  intro f hf
  have found := (List.mergeSort_perm _ _).mem_iff.mp hf
  rcases List.mem_append.mp found with syntactic | lexical
  · exact behind.faults f (List.mem_reverse.mp syntactic)
  · obtain ⟨g, hg, rfl⟩ := List.mem_map.mp lexical
    exact SyntaxFault.lies_ofLexical (behind.tokens g hg)

/-- The faults of every text come in the order of where they start, and lie
    inside the text from one boundary between characters to another one.  Only
    a hexadecimal escape with wrong digits may not: it starts at its backslash
    and has the length of an escape with right digits, so that it ends
    elsewhere if the characters behind its letter take another number of
    bytes. -/
theorem faults_inside (level : LanguageLevel) (text : String) :
    ((parse level text).faults.Pairwise fun f g => f.start ≤ g.start) ∧
    ∀ f ∈ (parse level text).faults,
      (f.error ≠ .lexical .invalidEscape →
        Boundary text.toList f.start ∧ Boundary text.toList (f.start + f.length) ∧
          f.start + f.length ≤ byteLength text.toList) ∧
      (f.error = .lexical .invalidEscape →
        ∃ letter behind, Left text.toList ('\\' :: letter :: behind) f.start ∧
          (letter = 'x' ∧ f.length = 4 ∨ letter = 'u' ∧ f.length = 6) ∧
          (Boundary text.toList (f.start + f.length) ↔
            ∃ digits rest, behind = digits ++ rest ∧ byteLength digits + 2 = f.length)) := by
  refine ⟨State.allFaults_sorted _, fun f hf => ⟨fun other => ?_, fun same => ?_⟩⟩
  · obtain ⟨start, stop⟩ := (parse_faults_lie level text f hf).inside other
    exact ⟨start, stop, stop.le⟩
  · exact ((parse_faults_lie level text f hf).escapes same).boundary_iff

/-- An escape without digits at the end of a string is reported with the length
    of four bytes, of which the text has three. -/
theorem escape_beyond_end :
    (parse .es3 "\"\\x\"").faults = [⟨1, 4, .lexical .invalidEscape⟩] ∧
      byteLength "\"\\x\"".toList = 4 := by
  decide +kernel

end Grammar

end DeclCheck
