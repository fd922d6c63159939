import DeclCheck.Grammar.Error
import DeclCheck.Settings.Language

/-! # Reading with a state

    A reading step may look at the current token, take it, complete a node
    and record an error.  It never fails: where the text lacks something,
    the step records an error and goes on with what there is.  At most one
    error is recorded at a place in a row.

    Steps that read lists repeat a smaller step under a bound.  Every
    repetition that goes on takes a token, so a bound above the number of
    tokens is never reached. -/

namespace DeclCheck.Grammar

open Token Ast

/-- What stays the same while one text is read. -/
structure Setting where
  level : LanguageLevel
  /-- A number above the number of tokens of the text. -/
  bound : Nat
  /-- The greatest number of guarded steps that may be under way. -/
  limit : Nat
  deriving Repr, Inhabited

/-- How far one text has been read. -/
structure State where
  lexer : Lexer
  /-- The end of the token taken last. -/
  lastEnd : Nat
  /-- The number of guarded steps under way. -/
  depth : Nat
  /-- Whether `in` is no operator, as in the head of a loop. -/
  noIn : Bool
  /-- The faults found so far, the last one first. -/
  faults : List SyntaxFault
  /-- The number of the next node. -/
  nextId : Nat
  deriving Repr, Inhabited

/-- A reading step with a result. -/
abbrev Step (α : Type) := ReaderT Setting (StateM State) α

/-- The limit on guarded steps under which texts are read. -/
def maxDepth : Nat := 1000

/-! ## Tokens -/

/-- The current token. -/
def token : Step Token := return (← get).lexer.token

/-- The kind of the current token. -/
def kind : Step Kind := return (← token).kind

/-- The start of the current token. -/
def tokenStart : Step Nat := return (← token).span.start

/-- Whether the current token is of a kind. -/
def at? (k : Kind) : Step Bool := return (← kind) == k

/-- Take the current token. -/
def advance : Step Unit :=
  modify fun s => { s with lastEnd := s.lexer.token.span.stop, lexer := s.lexer.next }

/-- Whether the token behind the current one is of a kind.  The current one is
    taken for that, and given back. -/
def nextIs (k : Kind) : Step Bool := do
  let saved ← get
  advance
  let found ← at? k
  modify fun s => { s with lastEnd := saved.lastEnd, lexer := saved.lexer.restore s.lexer }
  return found

/-- Take the current token if it is of a kind. -/
def accept (k : Kind) : Step Bool := do
  if ← at? k then
    advance
    return true
  else
    return false

/-- Whether the current token is an identifier with the given text. -/
def atWord (word : String) : Step Bool := do
  let t ← token
  return t.kind == .identifier && t.value == word

/-- The annotations of the documentation comment before the current token. -/
def docFlags : Step Flags := do
  match (← token).doc with
  | some doc => return (DocTags.ofComment doc.text).flags
  | none => return Flags.none

/-! ## Errors -/

/-- Record an error, unless the last one was recorded at the same start. -/
def report (start length : Nat) (error : SyntaxError) : Step Unit :=
  modify fun s =>
    if (s.faults.head?.map SyntaxFault.start) == some start then s
    else { s with faults := ⟨start, length, error⟩ :: s.faults }

/-- Record an error at the current token. -/
def reportHere (error : SyntaxError) : Step Unit := do
  let t ← token
  report t.span.start t.span.length error

/-- Record an error at a node. -/
def reportAt (n : Node) (error : SyntaxError) : Step Unit :=
  report n.span.start n.span.length error

/-- Take a token of the given kind, or record that it is missing. -/
def expect (k : Kind) : Step Unit := do
  unless ← accept k do
    reportHere (.expected k)

/-- Record the use of a construct that the language level lacks. -/
def require (feature : Feature) : Step Unit := do
  unless (← read).level.hasBlockScope do
    reportHere (.needsNewerLevel feature)

/-- Whether a statement may end before the current token. -/
def canEndStatement : Step Bool := do
  let t ← token
  return t.kind == .mark .closeBrace || t.kind == .endOfFile || t.newlineBefore

/-- Read the end of a statement: a semicolon, or nothing where a statement
    may end without one. -/
def endStatement : Step Unit := do
  unless ← accept (.mark .semicolon) do
    unless ← canEndStatement do
      reportHere (.expected (.mark .semicolon))

/-! ## Nodes -/

/-- Complete a node with the given span. -/
def complete (span : Span) (flags : Flags) (shape : Shape Node) : Step Node := do
  let i := (← get).nextId
  modify fun s => { s with nextId := s.nextId + 1 }
  return .mk i span flags shape

/-- Complete an annotated node that reaches from `start` to the last token
    taken. -/
def finishWith (start : Nat) (flags : Flags) (shape : Shape Node) : Step Node := do
  complete ⟨start, max (← get).lastEnd start⟩ flags shape

/-- Complete a node that reaches from `start` to the last token taken. -/
def finish (start : Nat) (shape : Shape Node) : Step Node :=
  finishWith start Flags.none shape

/-- Complete the node of a missing part before the current token. -/
def missing : Step Node := do
  complete (.point (← tokenStart)) Flags.none .missing

/-! ## Control -/

/-- Run a step with `in` allowed as an operator or not. -/
def withIn {α : Type} (disallow : Bool) (step : Step α) : Step α := do
  let saved := (← get).noIn
  modify fun s => { s with noIn := disallow }
  let a ← step
  modify fun s => { s with noIn := saved }
  return a

/-- Run a step one level deeper, or another one where the text is nested too
    deeply. -/
def guarded {α : Type} (step otherwise : Step α) : Step α := do
  if (← read).limit ≤ (← get).depth then
    reportHere .nestedTooDeeply
    otherwise
  else
    modify fun s => { s with depth := s.depth + 1 }
    let a ← step
    modify fun s => { s with depth := s.depth - 1 }
    return a

/-- How the reading of a list goes on. -/
inductive Turn (α : Type) where
  /-- The list is complete. -/
  | done
  /-- One item more, and the list is complete. -/
  | last (item : α)
  /-- One item more. -/
  | more (item : α)
  /-- Something that is no item. -/
  | skipped

/-- Repeat a step until it completes the list, at most `n` times. -/
def collect {α : Type} (step : Step (Turn α)) : Nat → List α → Step (List α)
  | 0, items => return items.reverse
  | n + 1, items => do
      match ← step with
      | .done => return items.reverse
      | .last item => return (item :: items).reverse
      | .more item => collect step n (item :: items)
      | .skipped => collect step n items

/-- Read a list by repeating a step until it completes the list. -/
def many {α : Type} (step : Step (Turn α)) : Step (List α) := do
  collect step (← read).bound []

/-- Repeat a step that extends a node, at most `n` times. -/
def extendUpTo (step : Node → Step (Option Node)) : Nat → Node → Step Node
  | 0, node => return node
  | n + 1, node => do
      match ← step node with
      | none => return node
      | some longer => extendUpTo step n longer

/-- Extend a node as long as a step extends it. -/
def extendWhile (step : Node → Step (Option Node)) (node : Node) : Step Node := do
  extendUpTo step (← read).bound node

end DeclCheck.Grammar
