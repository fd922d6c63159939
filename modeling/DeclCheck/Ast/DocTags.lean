import DeclCheck.Ast.Flags
import DeclCheck.Text.Whitespace

/-! # Tags of documentation comments

    A tag is an at sign with the letters and digits behind it.  Three tags
    matter to declarations: a constant, a definition, which is a constant
    too, and the waiver of duplicates, whose braces list what is waived. -/

namespace DeclCheck.Ast

open Text

/-- The tags of a comment that matter to declarations. -/
structure DocTags where
  saysConst : Bool
  saysDefine : Bool
  suppressDuplicate : Bool
  deriving DecidableEq, Repr, Inhabited

namespace DocTags

/-- No tag. -/
def none : DocTags := ⟨false, false, false⟩

/-- The tags that either side holds. -/
def union (a b : DocTags) : DocTags :=
  ⟨a.saysConst || b.saysConst, a.saysDefine || b.saysDefine,
    a.suppressDuplicate || b.suppressDuplicate⟩

/-- Whether the list in braces at the start of a text names duplicates.  Its
    entries are separated by commas or bars. -/
def waivesDuplicates (behindTag : List Char) : Bool :=
  match trimStart behindTag with
  | '\x7b' :: body =>
      let list := body.takeWhile (· != '\x7d')
      list.length < body.length &&
        (pieces (fun c => c == ',' || c == '|') list).any
          (fun entry => trim entry == "duplicate".toList)
  | _ => false

/-- The tag whose name a text starts with. -/
def ofTag (text : List Char) : DocTags :=
  let name := String.ofList (text.takeWhile Char.isAlphanum)
  if name == "const" || name == "constant" then { none with saysConst := true }
  else if name == "define" then { none with saysDefine := true }
  else if name == "suppress" && waivesDuplicates (text.dropWhile Char.isAlphanum) then
    { none with suppressDuplicate := true }
  else none

/-- The tags of a comment. -/
def ofComment : List Char → DocTags
  | [] => none
  | c :: rest => if c == '@' then (ofTag rest).union (ofComment rest) else ofComment rest

/-- Whether a comment has no tag that matters. -/
def isEmpty (t : DocTags) : Bool := t == none

/-- The annotations that the tags give a node. -/
def flags (t : DocTags) : Flags :=
  { Flags.none with
    constant := t.saysConst || t.saysDefine
    suppressDuplicate := t.suppressDuplicate }

theorem flags_union (a b : DocTags) : (a.union b).flags = a.flags.union b.flags := by
  rcases a with ⟨_ | _, _ | _, _ | _⟩ <;> rcases b with ⟨_ | _, _ | _, _ | _⟩ <;> rfl

end DocTags

end DeclCheck.Ast
