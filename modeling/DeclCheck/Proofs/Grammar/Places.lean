import DeclCheck.Proofs.Grammar.Trace
import DeclCheck.Proofs.Token.Text

/-! # Where a reading stands in its text

    At any point of a reading its text is split at the current token: what was
    taken before, the gap before the token, the token, and what is left. -/

namespace DeclCheck

/-- A lexer splits a text at the token it holds: what was taken up to an
    offset, the gap before the token, the token, and the rest. -/
structure Lexer.Splits (l : Lexer) (offset : Nat) (text front gap lexeme : List Char) : Prop where
  text : text = front ++ (gap ++ (lexeme ++ l.rest))
  taken : offset = Token.byteLength front
  start : l.token.span.start = offset + Token.byteLength gap
  stop : l.token.span.stop = l.token.span.start + Token.byteLength lexeme
  behind : l.offset = l.token.span.stop
  spells : l.token.kind.Spells lexeme
  named : l.token.kind = .identifier → l.token.value.toList = lexeme
  separates : l.token.kind ≠ .endOfFile → Token.Separates gap
  took : l.token.kind ≠ .endOfFile → l.token.span.start < l.token.span.stop

/-- The next token stands right behind the one before. -/
theorem Lexer.Splits.next {l : Lexer} {offset : Nat} {text front gap lexeme : List Char}
    (h : l.Splits offset text front gap lexeme) :
    ∃ gap' lexeme',
      l.next.Splits l.token.span.stop text (front ++ (gap ++ lexeme)) gap' lexeme' := by
  obtain ⟨gap', lexeme', cut⟩ := Lexer.exists_cut l
  refine ⟨gap', lexeme', ?_, ?_, ?_, cut.stop, cut.offset, cut.spells, cut.named, cut.separates,
    (Lexer.behind_next l).lt⟩
  · rw [h.text, cut.rest]
    simp only [List.append_assoc]
  · rw [Token.byteLength_append, Token.byteLength_append, h.stop, h.start, h.taken, Nat.add_assoc]
  · rw [cut.start, h.behind]

namespace Grammar

open Ast

variable {text : List Char}

namespace State

variable {s : State}

/-- Whether a state stands somewhere in a text. -/
def Stands (text : List Char) (s : State) : Prop :=
  ∃ front gap lexeme, s.lexer.Splits s.lastEnd text front gap lexeme

theorem Stands.taken (h : s.Stands text) : s.taken.Stands text := by
  obtain ⟨front, gap, lexeme, splits⟩ := h
  exact ⟨_, splits.next⟩

theorem Stands.lastEnd_le (h : s.Stands text) : s.lastEnd ≤ s.here := by
  obtain ⟨front, gap, lexeme, splits⟩ := h
  exact Nat.le.intro splits.start.symm

theorem Stands.here_le (h : s.Stands text) : s.here ≤ s.taken.lastEnd := by
  obtain ⟨front, gap, lexeme, splits⟩ := h
  exact Nat.le.intro splits.stop.symm

/-- A token before the end of the text takes some of it. -/
theorem Stands.here_lt (h : s.Stands text) (started : s.lexer.token.kind ≠ .endOfFile) :
    s.here < s.taken.lastEnd := by
  obtain ⟨front, gap, lexeme, splits⟩ := h
  exact splits.took started

/-- A text begins at its start. -/
theorem start_stands (cs : List Char) : (State.start cs).Stands cs := by
  obtain ⟨gap, lexeme, cut⟩ := Lexer.exists_cut (.ofChars cs)
  exact ⟨[], gap, lexeme, cut.rest, rfl, cut.start, cut.stop, cut.offset, cut.spells, cut.named,
    cut.separates, (Lexer.behind_next _).lt⟩

end State

/-- Reading goes on in its text. -/
theorem Reads.stands {e : Setting} {s t : State} {ns : List Node} {owed : List Feature}
    (h : Reads e s ns owed t) : s.Stands text → t.Stands text := by
  induction h with
  | nil | reported | demanded | missing => exact id
  | append _ _ first rest => exact fun before => rest (first before)
  | taken s | token s _ => exact State.Stands.taken
  | @noted s t lexer lastEnd _ _ =>
      rw [State.Stands, State.Stands, lexer, lastEnd]
      exact id
  | reportedAt _ _ _ ih | shorthand _ _ ih | node _ _ _ _ ih => exact ih

end Grammar

end DeclCheck
