import StackUnits.Tree.Basic

/-!
# Building trees by hand

One function per construct of the language, so that a program can be written
down without naming the child positions: `StackUnits.Tree.ofIfElse c t e` puts the
two branches where an if-else keeps them, and `StackUnits.Tree.ofList` strings
statements together into nested sequences.
-/

namespace StackUnits.Tree

/-! ### Nodes of a given kind -/

/-- A node with neither text nor children. -/
def bare (kind : Kind) : Tree :=
  .node ⟨kind, none⟩ none none

/-- A childless node with a text. -/
def leaf (kind : Kind) (value : String) : Tree :=
  .node ⟨kind, some value⟩ none none

/-- A node with a left child only. -/
def unary (kind : Kind) (child : Tree) : Tree :=
  .node ⟨kind, none⟩ (some child) none

/-- A node with two children. -/
def binary (kind : Kind) (left right : Tree) : Tree :=
  .node ⟨kind, none⟩ (some left) (some right)

/-- The tree with the given text at its root. -/
def withValue : Tree → String → Tree
  | .node tag left right, value => .node { tag with value := some value } left right

/-- The tree with the given left child. -/
def withLeft : Tree → Tree → Tree
  | .node tag _ right, child => .node tag (some child) right

/-- The tree with the given right child. -/
def withRight : Tree → Tree → Tree
  | .node tag left _, child => .node tag left (some child)

/-! ### Constructs of the language -/

/-- A boolean literal. -/
def ofBool (b : Bool) : Tree :=
  leaf .literalBoolean (if b then "true" else "false")

/-- A character literal. -/
def ofChar (c : Char) : Tree :=
  leaf .literalCharacter (String.singleton c)

/-- An integer literal with the given digits. -/
def ofInteger (digits : String) : Tree :=
  leaf .literalInteger digits

/-- A float literal with the given digits. -/
def ofFloat (digits : String) : Tree :=
  leaf .literalFloat digits

/-- A string literal. -/
def ofString (text : String) : Tree :=
  leaf .literalString text

/-- A variable. -/
def ofName (name : String) : Tree :=
  leaf .identifier name

/-- The assignment of a value to a variable. -/
def ofAssign (name : String) (value : Tree) : Tree :=
  binary .assign (ofName name) value

/-- A conditional with two branches, which share the right child. -/
def ofIfElse (condition thenBranch elseBranch : Tree) : Tree :=
  binary .ifElse condition (binary .sequence thenBranch elseBranch)

/-- The start of a task that is compiled elsewhere. -/
def ofSpawn (name : String) : Tree :=
  leaf .multitask name

/-- The start of a task whose body is given on the spot. -/
def ofInlineSpawn (name : String) (body : Tree) : Tree :=
  (leaf .multitask name).withLeft body

/-- Statements one after the other: each sequence node holds a statement and the
rest of the list, the last one a statement only. -/
def ofList : List Tree → Tree
  | [] => bare .sequence
  | [last] => unary .sequence last
  | first :: second :: rest => binary .sequence first (ofList (second :: rest))

end StackUnits.Tree
