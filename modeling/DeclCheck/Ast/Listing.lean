import DeclCheck.Ast.Node

/-! # Listings of nodes

    A listing holds the nodes of a tree in post-order, each with its parts
    and its parent given by number.  In the listing of a parsed text the
    number of a node is its place.

    The nodes of a text are completed without a parent, and are linked to it when
    the whole text is read.  The listing of a tree has both at once. -/

namespace DeclCheck.Ast

/-- A node with its parts and its parent given by number. -/
structure Entry where
  id : Nat
  span : Span
  flags : Flags
  parent : Option Nat
  shape : Shape Nat
  deriving Inhabited

namespace Listing

/-- The parts of the node with a number. -/
def childrenOf (entries : List Entry) (i : Nat) : List Nat :=
  (entries[i]?.map fun e => e.shape.parts).getD []

/-- Link the node with a number to its parent. -/
def setParent (entries : List Entry) (child parent : Nat) : List Entry :=
  entries.modify child fun e => { e with parent := some parent }

/-- Follow the parts from the nodes of a stack, the top of which comes first, and
    link each part to its whole, taking at most `n` nodes off the stack. -/
def linkUpTo : Nat → List Nat → List Entry → List Entry
  | 0, _, entries => entries
  | _ + 1, [], entries => entries
  | n + 1, i :: stack, entries =>
      let parts := childrenOf entries i
      linkUpTo n (parts.reverse ++ stack)
        (parts.foldl (fun entries part => setParent entries part i) entries)

/-- Link all nodes of a tree below its root. -/
def link (entries : List Entry) (root : Nat) : List Entry :=
  linkUpTo entries.length [root] entries

end Listing

namespace Node

/-- The listing of a node below the given parent. -/
def listingBelow (n : Node) : Option Nat → List Entry :=
  Prod.snd <| n.fold fun i span flags sh =>
    (i, fun parent =>
      sh.parts.flatMap (fun part => part.2 (some i)) ++
        [⟨i, span, flags, parent, sh.map Prod.fst⟩])

/-- The listing of a tree, whose root has no parent. -/
def listing (n : Node) : List Entry := n.listingBelow none

end Node

end DeclCheck.Ast
