/-!
# Lists that know their length

Code being written and the stack of operand types both grow and shrink at one end,
and both are asked for their length at every step. A `StackUnits.Pile` is a list,
newest element first, together with its length; the two cannot come apart, since
their agreement is a field.
-/

namespace StackUnits

/-- **A list with its length**, newest element first. -/
structure Pile (α : Type) where
  items : List α
  size : Nat
  size_eq : size = items.length

namespace Pile

variable {α : Type}

/-- The pile without elements. -/
def empty : Pile α := ⟨[], 0, rfl⟩

instance : Inhabited (Pile α) := ⟨empty⟩

/-- One more element on top. -/
def push (p : Pile α) (a : α) : Pile α :=
  ⟨a :: p.items, p.size + 1, by simp [p.size_eq]⟩

/-- The top element and the pile below it. -/
def pop? : Pile α → Option (α × Pile α)
  | ⟨[], _, _⟩ => none
  | ⟨a :: rest, size, h⟩ => some (a, ⟨rest, size - 1, by simp [h]⟩)

/-- The top element. -/
def top? (p : Pile α) : Option α :=
  p.items.head?

/-- The elements, oldest first. -/
def toList (p : Pile α) : List α :=
  p.items.reverse

/-- A pile is determined by its elements. -/
@[ext]
theorem ext {p q : Pile α} (h : p.items = q.items) : p = q := by
  obtain ⟨items, size, hsize⟩ := p
  obtain ⟨items', size', hsize'⟩ := q
  subst h
  simp [hsize, hsize']

@[simp]
theorem items_empty : (empty : Pile α).items = [] := rfl

@[simp]
theorem items_push (p : Pile α) (a : α) : (p.push a).items = a :: p.items := rfl

@[simp]
theorem size_push (p : Pile α) (a : α) : (p.push a).size = p.size + 1 := rfl

@[simp]
theorem toList_empty : (empty : Pile α).toList = [] := rfl

@[simp]
theorem toList_push (p : Pile α) (a : α) : (p.push a).toList = p.toList ++ [a] := by
  simp [toList]

@[simp]
theorem length_toList (p : Pile α) : p.toList.length = p.size := by
  simp [toList, p.size_eq]

@[simp]
theorem pop?_push (p : Pile α) (a : α) : (p.push a).pop? = some (a, p) := rfl

theorem pop?_eq_none_iff (p : Pile α) : p.pop? = none ↔ p = empty := by
  obtain ⟨items, size, h⟩ := p
  cases items with
  | nil => simp [pop?, Pile.ext_iff]
  | cons a rest => simp [pop?, Pile.ext_iff]

end Pile

end StackUnits
