import StackUnits.Code.Unit
import Std.Data.TreeMap.Lemmas

/-!
# The symbol table

Variables are declared in **frames**, which form a stack: a name is looked for from
the innermost frame outwards, and a declaration goes into the innermost one. Every
declaration takes the next free slot, and leaving a frame gives its slots back. What
remains after a frame is left is the largest number of slots ever in use, and the
list of all declarations ever made.

A frame is a list of declarations, newest first, with an index for finding names in
it quickly. The two agree by a field of the structure, so whoever reasons about a
frame reasons about the list (`StackUnits.Frame.find?_eq_lookup`).
-/

namespace StackUnits

/-- A declared variable: its slot and its type. -/
structure VarInfo where
  slot : UInt16
  type : OperandType
  deriving DecidableEq, Inhabited

/-- **A frame of declarations**, newest first, with an index by name. -/
structure Frame where
  entries : List (String × VarInfo)
  index : Std.TreeMap String VarInfo
  index_eq : ∀ name, index[name]? = entries.lookup name

namespace Frame

/-- The frame without declarations. -/
def empty : Frame :=
  ⟨[], ∅, fun name => by simp⟩

instance : Inhabited Frame := ⟨empty⟩

/-- The frame with one more declaration. -/
def insert (frame : Frame) (name : String) (info : VarInfo) : Frame where
  entries := (name, info) :: frame.entries
  index := frame.index.insert name info
  index_eq other := by
    rw [Std.TreeMap.getElem?_insert, List.lookup_cons, frame.index_eq]
    by_cases h : other = name
    · subst h
      simp
    · have hne : ¬ name = other := fun h' => h h'.symm
      have hbeq : (other == name) = false := by simp [h]
      simp [hne, hbeq]

/-- The declaration of a name. -/
def find? (frame : Frame) (name : String) : Option VarInfo :=
  frame.index[name]?

/-- The number of declarations. -/
def size (frame : Frame) : Nat :=
  frame.entries.length

/-- Finding a name is looking it up in the list of declarations. -/
theorem find?_eq_lookup (frame : Frame) (name : String) :
    frame.find? name = frame.entries.lookup name :=
  frame.index_eq name

@[simp]
theorem entries_empty : empty.entries = [] := rfl

@[simp]
theorem entries_insert (frame : Frame) (name : String) (info : VarInfo) :
    (frame.insert name info).entries = (name, info) :: frame.entries := rfl

end Frame

/-- **The symbol table of a unit**: the open frames, innermost first, the next free
slot, the largest number of slots in use so far, and all declarations so far, newest
first. -/
structure SymbolTable where
  frames : List Frame := []
  nextSlot : UInt16 := 0
  slotCount : UInt16 := 0
  declared : List LocalVariable := []
  deriving Inhabited

namespace SymbolTable

/-- The declarations ever made, in order. -/
def locals (table : SymbolTable) : List LocalVariable :=
  table.declared.reverse

/-- Open a frame. -/
def enterScope (table : SymbolTable) : SymbolTable :=
  { table with frames := .empty :: table.frames }

/-- Leave the innermost frame and give its slots back. -/
def exitScope (table : SymbolTable) : Except CompileError SymbolTable :=
  match table.frames with
  | [] => .error (.structural "scope" .noOpenScope)
  | frame :: rest =>
    .ok { table with frames := rest, nextSlot := table.nextSlot - UInt16.ofNat frame.size }

/-- The variable that a name stands for: the declaration in the innermost frame that
has one. -/
def lookup (table : SymbolTable) (name : String) : Option VarInfo :=
  table.frames.findSome? fun frame => frame.find? name

/-- The tag of an identifier, by which messages show a name. -/
def nameText (name : String) : String :=
  Tag.text ⟨.identifier, some name⟩

/-- **Declare a name in the innermost frame.** A name that the frame has already keeps
its slot, provided the type is the same; otherwise the next free slot is taken. -/
def declare (table : SymbolTable) (name : String) (type : OperandType) :
    Except CompileError (UInt16 × SymbolTable) :=
  match table.frames with
  | [] => .error (.structural (nameText name) .declarationOutsideScope)
  | frame :: rest =>
    match frame.find? name with
    | some info =>
      if info.type = type then .ok (info.slot, table)
      else .error (.typeMismatch (nameText name) (.type info.type) type)
    | none =>
      let slot := table.nextSlot
      .ok (slot,
        { frames := frame.insert name ⟨slot, type⟩ :: rest
          nextSlot := slot + 1
          slotCount := max table.slotCount (slot + 1)
          declared := ⟨name, slot, type⟩ :: table.declared })

end SymbolTable

end StackUnits
