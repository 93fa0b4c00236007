import StackUnits.Tree.Kind

/-!
# Syntax trees

A tree is a node with a kind, perhaps a text, and at most two children, each of
which may be absent (`StackUnits.Tree`). Which children a kind needs is *not* part
of the type: trees come from outside, and what is wrong with one is said by the
reading of it as a program, in `StackUnits.Program.Reading`.

Kind and text together are the **tag** of a node. The tag is what a message shows
of a node (`StackUnits.Tag.text`), so it is a type of its own: everything
downstream that has to point at a node carries its tag, and never the tree below.
-/

namespace StackUnits

/-- **The face of a node**: its kind and the text it carries. -/
structure Tag where
  kind : Kind
  value : Option String
  deriving DecidableEq, Inhabited

/-- How messages show a node: the name of its kind, followed by its text in
quotes if it has one. -/
def Tag.text (tag : Tag) : String :=
  match tag.value with
  | some value => s!"{tag.kind.name} '{value}'"
  | none => tag.kind.name

/-- **A syntax tree**: a tag and two children, either of which may be absent. -/
inductive Tree
  | node (tag : Tag) (left right : Option Tree)
  deriving Inhabited

namespace Tree

/-- Induction on trees, with the hypothesis for the children that are present. -/
@[induction_eliminator]
theorem induction {motive : Tree → Prop}
    (node : ∀ tag left right, (∀ l, left = some l → motive l) → (∀ r, right = some r → motive r) →
      motive (.node tag left right)) : ∀ t, motive t
  | .node tag left right =>
    node tag left right
      (fun l h => by subst h; exact induction node l)
      (fun r h => by subst h; exact induction node r)

/-! ### Parts of a tree -/

/-- The tag of the root. -/
def tag : Tree → Tag
  | .node tag _ _ => tag

/-- The left child of the root. -/
def left : Tree → Option Tree
  | .node _ left _ => left

/-- The right child of the root. -/
def right : Tree → Option Tree
  | .node _ _ right => right

/-- The kind of the root. -/
def kind (t : Tree) : Kind :=
  t.tag.kind

/-- The text at the root. -/
def value (t : Tree) : Option String :=
  t.tag.value

/-- How messages show the root. -/
def text (t : Tree) : String :=
  t.tag.text

/-! ### Comparison and measures -/

mutual

/-- Whether two trees are the same in every node. -/
def sameShape : Tree → Tree → Bool
  | .node tag left right, .node tag' left' right' =>
    tag == tag' && sameChild left left' && sameChild right right'

/-- Whether two children are both absent, or both present and the same in every
node. -/
def sameChild : Option Tree → Option Tree → Bool
  | some t, some u => t.sameShape u
  | none, none => true
  | _, _ => false

end

/-- The number of nodes. -/
def size : Tree → Nat
  | .node _ left right =>
    1 + (match left with | some l => l.size | none => 0)
      + (match right with | some r => r.size | none => 0)

/-- The number of nodes on the longest way down. -/
def depth : Tree → Nat
  | .node _ left right =>
    1 + max (match left with | some l => l.depth | none => 0)
      (match right with | some r => r.depth | none => 0)

/-- The number of statements of a statement list: a sequence counts those of its
children, everything else counts one. -/
def statementCount : Tree → Nat
  | .node tag left right =>
    if tag.kind = .sequence then
      (match left with | some l => l.statementCount | none => 0)
        + (match right with | some r => r.statementCount | none => 0)
    else 1

/-- Sameness of shape is equality of trees. -/
theorem sameShape_iff (t u : Tree) : t.sameShape u = true ↔ t = u := by
  induction t generalizing u with
  | node tag left right ihl ihr =>
    obtain ⟨tag', left', right'⟩ := u
    have hl : sameChild left left' = true ↔ left = left' := by
      cases left <;> cases left' <;> simp_all [sameChild]
    have hr : sameChild right right' = true ↔ right = right' := by
      cases right <;> cases right' <;> simp_all [sameChild]
    rw [sameShape, Bool.and_eq_true, Bool.and_eq_true, hl, hr, beq_iff_eq, Tree.node.injEq,
      and_assoc]

instance : DecidableEq Tree := fun t u =>
  decidable_of_iff _ (sameShape_iff t u)

end Tree

end StackUnits
