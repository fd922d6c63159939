import DeclCheck.Grammar.Statement

/-! # Reading a whole text

    The recursive constructs are tied together under a bound on the depth of
    their recursion.  Between two tokens at most a statement and an
    expression begin, so the depth is bounded by the length of the text. -/

namespace DeclCheck.Grammar

open Token Ast

/-- How a recursive construct is read, given how those inside it are. -/
def produce (self : Self) : Self
  | .statement => statement self
  | .assignment => assignment self
  | .binary precedence => binary self precedence
  | .unary => unary self
  | .leftHandSide => leftHandSide self
  | .newExpression => newExpression self

/-- Read a recursive construct at most `n` constructs deep. -/
def parseUpTo : Nat → Self
  | 0, _ => missing
  | n + 1, rule => produce (parseUpTo n) rule

/-- A depth that the recursive constructs of a text of `size` bytes do not
    reach. -/
def depthBound (size : Nat) : Nat := 4 * (size + 2)

/-- The state before a text. -/
def State.initial (cs : List Char) : State := ⟨.ofChars cs, 0, 0, false, [], 0⟩

/-- The state with the first token of a text read. -/
def State.start (cs : List Char) : State :=
  { State.initial cs with lexer := (Lexer.ofChars cs).next }

/-- A text that was read: its tree, and what is wrong with it, ordered by
    where it starts. -/
structure Parsed where
  root : Node
  faults : List SyntaxFault
  deriving Inhabited

/-- All faults of a text: those of its syntax, then those of its tokens,
    sorted by start. -/
def State.allFaults (s : State) : List SyntaxFault :=
  (s.faults.reverse ++ s.lexer.faults.map SyntaxFault.ofLexical).mergeSort
    (fun a b => a.start ≤ b.start)

/-- Read the statements of a text and complete its root, which covers the
    text. -/
def sourceFile (self : Self) (size : Nat) : Step Node := do
  let statements ← statementsUntil self (fun _ => false)
  complete ⟨0, size⟩ Flags.none (.sourceFile statements)

/-- Read a text at a language level, with a limit on guarded steps. -/
def parseWithin (limit : Nat) (level : LanguageLevel) (text : String) : Parsed :=
  let size := byteLength text.toList
  let (root, final) :=
    sourceFile (parseUpTo (depthBound size)) size ⟨level, size + 2, limit⟩
      (State.start text.toList)
  ⟨root, final.allFaults⟩

/-- Read a text at a language level. -/
def parse (level : LanguageLevel) (text : String) : Parsed := parseWithin maxDepth level text

end DeclCheck.Grammar
