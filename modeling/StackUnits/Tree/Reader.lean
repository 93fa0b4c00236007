import StackUnits.Files.Problem
import StackUnits.Json.Record
import StackUnits.Tree.Basic

/-!
# Reading a tree from JSON

A node is a record with the members `kind`, `value`, `left` and `right`, of which only
the kind is required; a member that is `null` counts as absent. A kind is written as its
name, or as an object whose only key is the name and whose value is `null`.

The fuel bounds the depth of the tree. A tree inside another takes up at least one
character less than that, so the length of the text is always enough.
-/

namespace StackUnits

open Json

/-- What has been read of a node: of each member whether it was given, and if so
whether it is absent. -/
structure NodeDraft where
  kind : Option Kind := none
  value : Option (Option String) := none
  left : Option (Option Tree) := none
  right : Option (Option Tree) := none

/-- The kind of a name, as far as there is one. -/
def Kind.ofWritten (name : String) : Except Problem Kind :=
  match Kind.ofName? name with
  | some kind => .ok kind
  | none => .error (.unknownKind name)

/-- Read the name of a kind, from after its opening mark. -/
def Kind.readName : Reader Kind := do
  let name ← readString
  match Kind.ofWritten name with
  | .ok kind => return kind
  | .error e => throw e

/-- Read the `null` that may stand beside the name of a kind. -/
def Kind.readNull : Reader Unit := fun text =>
  match dropBlanks text with
  | 'n' :: rest =>
    match word ['u', 'l', 'l'] rest with
    | .ok rest => .ok ((), rest)
    | .error e => .error e
  | text => .error (wrongSort .unit text)

/-- Read a kind that is written as an object, from after its brace. The object has one
key; where it has none, or more than one, a value is missed. -/
def Kind.readObject : Reader Kind := do
  if ← nextKey true then
    let kind ← Kind.readName
    readColon
    Kind.readNull
    let text ← get
    match dropBlanks text with
    | [] => throw .endInObject
    | c :: rest =>
      if c ≠ '\x7d' then
        throw .expectedValue
      set rest
      return kind
  else throw .expectedValue

/-- **Read a kind.** -/
def Kind.read : Reader Kind := do
  let text ← get
  match dropBlanks text with
  | '"' :: rest =>
    set rest
    Kind.readName
  | '\x7b' :: rest =>
    set rest
    Kind.readObject
  | [] => throw .endInValue
  | _ => throw .expectedValue

namespace Tree

/-- The members of a node, given how to read a child. -/
def record (child : Reader Tree) : Record NodeDraft Tree where
  name := "Node"
  members := [
    { name := "kind"
      isGiven := fun draft => draft.kind.isSome
      read := fun draft => do return { draft with kind := some (← Kind.read) } },
    { name := "value"
      isGiven := fun draft => draft.value.isSome
      read := fun draft => do
        return { draft with value := some (← readOptional (readText .string)) } },
    { name := "left"
      isGiven := fun draft => draft.left.isSome
      read := fun draft => do return { draft with left := some (← readOptional child) } },
    { name := "right"
      isGiven := fun draft => draft.right.isSome
      read := fun draft => do return { draft with right := some (← readOptional child) } }]
  draft := {}
  finish := fun draft =>
    match draft.kind with
    | none => .error "kind"
    | some kind =>
      .ok (.node ⟨kind, draft.value.join⟩ draft.left.join draft.right.join)

/-- Read a tree. -/
def read : Nat → Reader Tree
  | 0 => throw .endInValue
  | fuel + 1 => (record (read fuel)).read fuel

/-- **The tree that a JSON text denotes.** -/
def ofJson (text : String) : Except Problem Tree :=
  Json.parse read text

end Tree

/-- Why a tree could not be had from a file. -/
inductive TreeError
  | malformed (problem : Problem)
  | file (problem : FileProblem)
  deriving DecidableEq, Inhabited

/-- The message of an error. -/
def TreeError.message : TreeError → String
  | malformed problem => s!"Malformed syntax tree: {problem.message}"
  | file problem => s!"IO error: {problem.message}"

end StackUnits
