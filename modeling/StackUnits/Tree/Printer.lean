import StackUnits.Json.Quoted
import StackUnits.Tree.Basic

/-!
# Writing a tree as JSON

A tree is written over several lines, one member of a node a line, two more spaces for
each level. Absent members are left out. `StackUnits.Tree.jsonBefore` puts the text of
a tree in front of what follows, so that the length of the work is that of the text,
however deep the tree.
-/

namespace StackUnits

open Json

namespace Tree

/-- A line break and the indentation of a level, in front of what follows. -/
def lineBefore (level : Nat) (rest : List Char) : List Char :=
  '\n' :: List.replicate (2 * level) ' ' ++ rest

/-- The name of a member and a colon, in front of its value. -/
def nameBefore (level : Nat) (name : String) (rest : List Char) : List Char :=
  lineBefore level (quoteBefore name (':' :: ' ' :: rest))

/-- **The text of a tree** at a level, in front of what follows. -/
def jsonBefore (level : Nat) : Tree → List Char → List Char
  | .node tag left right, rest =>
    let ending := lineBefore level ('\x7d' :: rest)
    let ending :=
      match right with
      | some child => ',' :: nameBefore (level + 1) "right" (jsonBefore (level + 1) child ending)
      | none => ending
    let ending :=
      match left with
      | some child => ',' :: nameBefore (level + 1) "left" (jsonBefore (level + 1) child ending)
      | none => ending
    let ending :=
      match tag.value with
      | some value => ',' :: nameBefore (level + 1) "value" (quoteBefore value ending)
      | none => ending
    '\x7b' :: nameBefore (level + 1) "kind" (quoteBefore tag.kind.name ending)

/-- **The JSON text of a tree.** -/
def toJson (tree : Tree) : String :=
  String.ofList (tree.jsonBefore 0 [])

end Tree

end StackUnits
