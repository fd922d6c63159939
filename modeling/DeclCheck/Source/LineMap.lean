/-! # Lines and columns

    A text is cut into lines by line terminators: a line feed, or a carriage
    return that no line feed follows.  A carriage return directly before a
    line feed belongs to the terminator that the line feed ends.  Lines and
    columns count from one, and columns count bytes. -/

namespace DeclCheck

/-- A line and a column, both counted from one. -/
structure Position where
  line : Nat
  column : Nat
  deriving DecidableEq, Repr, Inhabited

/-- The offsets at which the lines of a text start, in increasing order. -/
structure LineMap where
  starts : Array Nat
  deriving DecidableEq, Repr, Inhabited

namespace LineMap

/-- The offsets just behind each line terminator of the text `cs` that stands
    at `offset`. -/
def startsFrom (offset : Nat) : List Char → List Nat
  | [] => []
  | c :: rest =>
      let next := offset + c.utf8Size
      let ends := c == '\n' || (c == '\r' && rest.head? != some '\n')
      if ends then next :: startsFrom next rest else startsFrom next rest

/-- The line map of a text.  The first line starts at offset zero. -/
def ofChars (cs : List Char) : LineMap := ⟨(0 :: startsFrom 0 cs).toArray⟩

/-- The line map of a text. -/
def ofString (text : String) : LineMap := ofChars text.toList

/-- The number of lines; a text with no terminator has one. -/
def lineCount (m : LineMap) : Nat := m.starts.size

/-- The last line that starts at or before an offset, among those from `first`
    up to `behind`, which is left out.  The range is halved at most `n`
    times. -/
def search (m : LineMap) (offset : Nat) : Nat → Nat → Nat → Nat
  | 0, first, _ => first
  | n + 1, first, behind =>
      if first + 1 < behind then
        let middle := (first + behind) / 2
        if m.starts.getD middle 0 ≤ offset then search m offset n middle behind
        else search m offset n first middle
      else first

/-- The position of an offset: its line is the last one that starts at or
    before it, and its column the distance from that start.  Offsets behind
    the text lie on the last line. -/
def position (m : LineMap) (offset : Nat) : Position :=
  let line := m.search offset m.starts.size 0 m.starts.size
  ⟨line + 1, offset - m.starts.getD line 0 + 1⟩

end LineMap

end DeclCheck
