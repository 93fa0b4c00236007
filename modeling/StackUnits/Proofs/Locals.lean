import Mathlib.Algebra.Group.Nat.Defs
import StackUnits.Proofs.Units

/-!
# The table of local variables

A unit lists its variables, and its code refers to them by slot. The list is written down only
when the unit is finished, while the code is emitted as the compiler goes along, with the slots
that it knows at the time. This file shows that the two agree in the end.

* `StackUnits.Stmt.assigned` – the names that a statement assigns, in the order of the walk;
* `StackUnits.SymbolTable.Describes` – each load and each store of a piece of code is that of a
  variable, with the kind of its type. A table that describes a piece of code goes on doing so
  as variables are added, so the last table describes the whole unit
  (`StackUnits.Stmt.HasCode.describes`);
* `StackUnits.Session.tabulates_of_compileNamed` – **the list describes the code**, for every
  unit of a compilation: variables stand at their slots, in the order of their first assignment,
  each is stored to, and nothing else is accessed.
-/

namespace StackUnits

/-! ### Names in the order of assignment -/

/-- **The names that a statement assigns**, in the order of the walk and as often as they are
assigned. A task given on the spot assigns in its own unit. -/
def Stmt.assigned : Stmt → List String
  | .sequence _ first rest => first.assigned ++ rest.assigned
  | .block _ body => body.assigned
  | .assign _ name _ => [name]
  | .ifThen _ _ branch => branch.assigned
  | .ifElse _ _ thenBranch elseBranch => thenBranch.assigned ++ elseBranch.assigned
  | .loop _ _ body => body.assigned
  | .nothing | .fault _ _ | .print _ _ | .assert _ _ | .sleep _ _ | .spawn _ _
  | .spawnInline _ _ _ _ => []

namespace SymbolTable

variable {table table' : SymbolTable} {name : String} {type : OperandType} {slot : UInt16}

/-- The names of the variables of a table, in the order of declaration. -/
def names (table : SymbolTable) : List String :=
  table.locals.map LocalVariable.name

theorem mem_locals {v : LocalVariable} : v ∈ table.locals ↔ v ∈ table.declared :=
  List.mem_reverse

/-- What a name stands for is among the variables of a tidy table. -/
theorem Tidy.mem_names_of_lookup (h : table.Tidy) {info : VarInfo}
    (hlookup : table.lookup name = some info) : name ∈ table.names :=
  List.mem_map.2 ⟨_, mem_locals.2 (h.lookup_eq_some_iff.1 hlookup), rfl⟩

theorem Tidy.not_mem_names_of_lookup (h : table.Tidy) (hlookup : table.lookup name = none) :
    name ∉ table.names := by
  intro hmem
  obtain ⟨v, hv, rfl⟩ := List.mem_map.1 hmem
  have hsome : table.lookup v.name = some ⟨v.slot, v.type⟩ :=
    h.lookup_eq_some_iff.2 (mem_locals.1 hv)
  rw [hlookup] at hsome
  cases hsome

/-- **An assignment** adds its name to the names met so far, unless it is one of them. -/
theorem Tidy.names_assigns (h : table.Tidy) (hassigns : table.Assigns name type slot table')
    {met : List String} (hmet : table.names = met.eraseDups) :
    table'.names = (met ++ [name]).eraseDups := by
  rw [List.eraseDups_append, ← hmet]
  obtain ⟨hlookup, rfl⟩ | ⟨hlookup, -, frame, rest, -, rfl⟩ := hassigns.cases
  · have hmem := h.mem_names_of_lookup hlookup
    rw [hmet, List.mem_eraseDups] at hmem
    have hnew : [name].removeAll met = [] := by simp [List.removeAll, hmem]
    rw [hnew, List.eraseDups_nil, List.append_nil]
  · have hmem := h.not_mem_names_of_lookup hlookup
    rw [hmet, List.mem_eraseDups] at hmem
    have hnew : [name].removeAll met = [name] := by simp [List.removeAll, hmem]
    rw [hnew, List.eraseDups_cons, List.filter_nil, List.eraseDups_nil]
    simp [SymbolTable.names, locals]

/-- The number of slots of a table is that of its variables, as long as it can be told. -/
def Counted (table : SymbolTable) : Prop :=
  table.declared.length < 2 ^ 16 → table.slotCount.toNat = table.declared.length

/-- The count of slots keeps up with the variables. -/
theorem Tidy.counted_assigns (h : table.Tidy) (hassigns : table.Assigns name type slot table')
    (hcounted : table.Counted) : table'.Counted := by
  obtain ⟨-, rfl⟩ | ⟨-, rfl, frame, rest, -, rfl⟩ := hassigns.cases
  · exact hcounted
  · intro hfew
    rw [List.length_cons] at hfew ⊢
    have hcount : table.slotCount.toNat = table.declared.length := hcounted (by omega)
    have hnext : (table.nextSlot + 1).toNat = table.declared.length + 1 := by
      rw [h.nextSlot, UInt16.toNat_add, UInt16.toNat_ofNat_of_lt' (Nat.lt_of_succ_lt hfew)]
      exact Nat.mod_eq_of_lt hfew
    have hle : table.slotCount ≤ table.nextSlot + 1 := by
      rw [UInt16.le_iff_toNat_le]
      omega
    exact (congrArg UInt16.toNat (if_pos hle)).trans hnext

/-- **The variables stand at their slots.** Slots are handed out in the order of declaration, and
have 16 bits; with more variables than that they would be handed out again. -/
theorem Tidy.slot_of_getElem? (h : table.Tidy) (hfew : table.declared.length ≤ 2 ^ 16) {i : Nat}
    {v : LocalVariable} (hv : table.locals[i]? = some v) : v.slot.toNat = i := by
  have hslots : table.locals.map LocalVariable.slot =
      (List.range table.declared.length).map UInt16.ofNat := by
    rw [locals, List.map_reverse, h.slots, ← List.map_reverse, List.reverse_reverse]
  have hi : i < table.declared.length := by
    have hlt := (List.getElem?_eq_some_iff.1 hv).1
    rwa [locals, List.length_reverse] at hlt
  have hslot := congrArg (·[i]?) hslots
  simp only [List.getElem?_map, hv, List.getElem?_range hi, Option.map_some,
    Option.some.injEq] at hslot
  rw [hslot, UInt16.toNat_ofNat_of_lt' (Nat.lt_of_lt_of_le hi hfew)]

/-- **What a name stands for is listed** at its slot, with its name and its type. So the list can be
read by slots as well as by names. -/
theorem Tidy.getElem?_of_lookup (h : table.Tidy) (hfew : table.declared.length ≤ 2 ^ 16)
    {info : VarInfo} (hlookup : table.lookup name = some info) :
    table.locals[info.slot.toNat]? = some ⟨name, info.slot, info.type⟩ := by
  have hmem := mem_locals.2 (h.lookup_eq_some_iff.1 hlookup)
  obtain ⟨i, hi⟩ := List.mem_iff_getElem?.1 hmem
  obtain rfl : info.slot.toNat = i := h.slot_of_getElem? hfew hi
  exact hi

end SymbolTable

/-! ### Accesses -/

/-- The kind and the slot with which an instruction accesses a variable. -/
def Instruction.access? : Instruction → Option (SlotKind × UInt16)
  | .load kind slot | .store kind slot => some (kind, slot)
  | _ => none

/-- The accesses of a piece of code to variables, in order. -/
def Code.accesses (code : List Instruction) : List (SlotKind × UInt16) :=
  code.filterMap Instruction.access?

namespace SymbolTable

variable {table table' : SymbolTable}

/-- **A table describes a piece of code**: each access is to a variable, with the kind of its
type. -/
def Describes (table : SymbolTable) (code : List Instruction) : Prop :=
  ∀ access ∈ Code.accesses code, ∃ name info, table.lookup name = some info ∧
    info.slot = access.2 ∧ info.type.slotKind? = some access.1

/-- A table with more variables describes the same code. -/
theorem Describes.mono {code : List Instruction} (h : table.Describes code)
    (hwithin : table.Within table') : table'.Describes code := by
  intro access haccess
  obtain ⟨name, info, hlookup, hslot, hkind⟩ := h access haccess
  exact ⟨name, info, hwithin hlookup, hslot, hkind⟩

@[simp]
theorem describes_append {code code' : List Instruction} :
    table.Describes (code ++ code') ↔ table.Describes code ∧ table.Describes code' := by
  simp only [Describes, Code.accesses, List.filterMap_append, List.forall_mem_append]

/-- Code without accesses is described by every table. -/
theorem describes_plain {code : List Instruction} (h : Code.accesses code = []) :
    table.Describes code := by
  intro access haccess
  rw [h] at haccess
  cases haccess

theorem describes_singleton {instr : Instruction} {kind : SlotKind} {name : String}
    {info : VarInfo} (hinstr : instr.access? = some (kind, info.slot))
    (hlookup : table.lookup name = some info) (hkind : info.type.slotKind? = some kind) :
    table.Describes [instr] := by
  intro access haccess
  rw [Code.accesses, List.filterMap_cons_some hinstr, List.filterMap_nil,
    List.mem_singleton] at haccess
  subst haccess
  exact ⟨name, info, hlookup, rfl, hkind⟩

/-- A choice accesses what its parts do. -/
theorem describes_choice {k : Nat} {skip : ZeroTest} {c t e : List Instruction}
    (hc : table.Describes c) (ht : table.Describes t) (he : table.Describes e) :
    table.Describes (Code.choice k skip c t e) := by
  simp only [Code.choice, describes_append]
  exact ⟨⟨⟨⟨⟨hc, describes_plain rfl⟩, ht⟩, describes_plain rfl⟩, he⟩,
    describes_plain rfl⟩

end SymbolTable

/-! ### Along the code of a program -/

open SymbolTable

/-- **The accesses of an expression** are those of the table that it is compiled with. An expression
stores nothing, and declares nothing. -/
theorem Expr.HasCode.describes {table : SymbolTable} {k k' : Nat} {e : Expr}
    {code : List Instruction} {type : OperandType} (h : e.HasCode table k code type k') :
    table.Describes code := by
  induction h with
  | literal => exact describes_plain rfl
  | var hinfo hkind => exact describes_singleton rfl hinfo hkind
  | arith _ _ _ ihl ihr =>
    exact describes_append.2 ⟨describes_append.2 ⟨ihl, ihr⟩, describes_plain rfl⟩
  | @cast _ _ _ _ _ _ _ conversion _ _ ih =>
    refine describes_append.2 ⟨ih, describes_plain ?_⟩
    cases conversion <;> rfl
  | and _ _ _ _ ihl ihr | or _ _ _ _ ihl ihr =>
    exact describes_choice ihl ihr (describes_plain rfl)
  | not _ _ ih =>
    exact describes_choice ih (describes_plain rfl) (describes_plain rfl)
  | compare _ _ _ ihl ihr =>
    refine describes_choice ?_ (describes_plain rfl) (describes_plain rfl)
    exact describes_append.2 ⟨describes_append.2 ⟨ihl, ihr⟩, describes_plain rfl⟩

namespace Stmt.HasCode

variable {w : World} {d d' : Draft} {s : Stmt} {code : List Instruction}

/-- **The names of the variables** after a statement are those met before it and in it, each where
it was met first. The branches of a conditional are met one after the other, though a run takes only
one of them. -/
theorem names_eq (h : s.HasCode w d code d') (hd : d.table.Tidy) {met : List String}
    (hmet : d.table.names = met.eraseDups) :
    d'.table.names = (met ++ s.assigned).eraseDups := by
  induction h generalizing met with
  | nothing | print | assert | sleep | spawn | spawnInline =>
    rw [assigned, List.append_nil]
    exact hmet
  | sequence h₁ _ ih₁ ih₂ =>
    rw [assigned, ← List.append_assoc]
    exact ih₂ (h₁.tidy hd) (ih₁ hd hmet)
  | block _ ih | ifThen _ _ _ ih | loop _ _ _ ih => exact ih hd hmet
  | assign _ hslot => exact hd.names_assigns hslot hmet
  | ifElse _ _ ht _ iht ihe =>
    rw [assigned, ← List.append_assoc]
    exact ihe (ht.tidy hd) (iht hd hmet)

/-- The count of slots keeps up along the code of a statement. -/
theorem counted (h : s.HasCode w d code d') (hd : d.table.Tidy) (hcounted : d.table.Counted) :
    d'.table.Counted := by
  induction h with
  | nothing | print | assert | sleep | spawn | spawnInline => exact hcounted
  | sequence h₁ _ ih₁ ih₂ => exact ih₂ (h₁.tidy hd) (ih₁ hd hcounted)
  | block _ ih | ifThen _ _ _ ih | loop _ _ _ ih => exact ih hd hcounted
  | assign _ hslot => exact hd.counted_assigns hslot hcounted
  | ifElse _ _ ht _ iht ihe => exact ihe (ht.tidy hd) (iht hd hcounted)

/-- **The accesses of a statement** are those of the table after it, in which all that it assigns is
known. -/
theorem describes (h : s.HasCode w d code d') : d'.table.Describes code := by
  induction h with
  | nothing | spawn | spawnInline => exact describes_plain rfl
  | sequence _ h₂ ih₁ ih₂ => exact describes_append.2 ⟨ih₁.mono h₂.within, ih₂⟩
  | block _ ih => exact ih
  | assign hc hslot hkind =>
    refine describes_append.2 ⟨hc.describes.mono hslot.within, ?_⟩
    exact describes_singleton rfl ((hslot.lookup_eq _).trans (if_pos rfl)) hkind
  | print hc =>
    exact describes_append.2 ⟨describes_append.2
      ⟨describes_plain rfl, hc.describes⟩, describes_plain rfl⟩
  | assert hc | sleep hc =>
    exact describes_append.2 ⟨hc.describes, describes_plain rfl⟩
  | ifThen hc _ hb ih =>
    simp only [Code.option, describes_append]
    exact ⟨⟨⟨hc.describes.mono hb.within, describes_plain rfl⟩, ih⟩,
      describes_plain rfl⟩
  | ifElse hc _ ht he iht ihe =>
    exact describes_choice (hc.describes.mono (ht.within.trans he.within))
      (iht.mono he.within) ihe
  | loop hc _ hb ih =>
    simp only [Code.loop, describes_append]
    exact ⟨⟨⟨⟨describes_plain rfl, hc.describes.mono hb.within⟩,
      describes_plain rfl⟩, ih⟩, describes_plain rfl⟩

/-- **A variable that a statement adds** is stored to by its code: it is added by an assignment. By
induction on the code; of two parts it is the first that knows the variable which has stored to
it. -/
theorem exists_store (h : s.HasCode w d code d') {v : LocalVariable}
    (hv : v ∈ d'.table.declared) (hnew : v ∉ d.table.declared) :
    ∃ kind, .store kind v.slot ∈ code := by
  induction h with
  | nothing | print | assert | sleep | spawn | spawnInline => exact (hnew hv).elim
  | @sequence _ _ d₁ _ _ _ _ _ _ _ _ ih₁ ih₂ =>
    by_cases hmid : v ∈ d₁.table.declared
    · obtain ⟨kind, hmem⟩ := ih₁ hmid hnew
      exact ⟨kind, List.mem_append_left _ hmem⟩
    · obtain ⟨kind, hmem⟩ := ih₂ hv hmid
      exact ⟨kind, List.mem_append_right _ hmem⟩
  | block _ ih => exact ih hv hnew
  | assign _ hslot =>
    obtain ⟨-, rfl⟩ | ⟨-, rfl, frame, rest, -, rfl⟩ := hslot.cases
    · exact (hnew hv).elim
    · rcases List.mem_cons.1 hv with rfl | hold
      · exact ⟨_, List.mem_append_right _ List.mem_cons_self⟩
      · exact (hnew hold).elim
  | ifThen _ _ _ ih | loop _ _ _ ih =>
    obtain ⟨kind, hmem⟩ := ih hv hnew
    exact ⟨kind, by simp [Code.option, Code.loop, hmem]⟩
  | @ifElse _ _ d₁ _ _ _ _ _ _ _ _ _ _ _ _ _ _ iht ihe =>
    by_cases hmid : v ∈ d₁.table.declared
    · obtain ⟨kind, hmem⟩ := iht hmid hnew
      exact ⟨kind, by simp [Code.choice, hmem]⟩
    · obtain ⟨kind, hmem⟩ := ihe hv hmid
      exact ⟨kind, by simp [Code.choice, hmem]⟩

end Stmt.HasCode

/-! ### Units -/

/-- **The list of variables of a unit describes its code**, as that of a tree. -/
structure CodeUnit.Tabulates (unit : CodeUnit) (t : Tree) : Prop where
  /-- The variables stand at their slots. -/
  slots : ∀ i (v : LocalVariable), unit.locals[i]? = some v → v.slot.toNat = i
  /-- No name is listed twice. -/
  nodup : (unit.locals.map LocalVariable.name).Nodup
  /-- The names are those that the tree assigns, in the order of the first assignment. -/
  names : unit.locals.map LocalVariable.name = t.toStmt.assigned.eraseDups
  /-- There is room for just these variables. -/
  maxLocals : unit.maxLocals.toNat = unit.locals.length
  /-- What is loaded or stored is a variable of the list, with the kind of its type. -/
  accesses : ∀ kind slot, .load kind slot ∈ unit.instructions ∨
    .store kind slot ∈ unit.instructions → slot < unit.maxLocals ∧
      ∃ v, unit.locals[slot.toNat]? = some v ∧ v.type.slotKind? = some kind
  /-- Each variable is stored to. -/
  stored : ∀ v ∈ unit.locals, ∃ kind, .store kind v.slot ∈ unit.instructions

/-- **A unit of a tree** lists its variables as the tree assigns them, as long as slots are not used
twice. -/
theorem CodeUnit.IsOf.tabulates {unit : CodeUnit} {t : Tree} (h : unit.IsOf t)
    (hfew : unit.locals.length < 2 ^ 16) : unit.Tabulates t := by
  obtain ⟨w, units, code, d, hcode, heq, -⟩ := h
  rw [heq] at hfew ⊢
  have htidy := hcode.tidy (SymbolTable.tidy_fresh units)
  have hdeclared : d.table.declared.length < 2 ^ 16 := by
    simpa only [Draft.unit, SymbolTable.locals, List.length_reverse] using hfew
  have hcount : d.table.slotCount.toNat = d.table.locals.length := by
    rw [SymbolTable.locals, List.length_reverse]
    exact hcode.counted (SymbolTable.tidy_fresh units) (fun _ => rfl) hdeclared
  have hnames : d.table.names = t.toStmt.assigned.eraseDups :=
    hcode.names_eq (SymbolTable.tidy_fresh units) List.eraseDups_nil.symm
  refine ⟨?_, ?_, hnames, hcount, ?_, ?_⟩
  · intro i v hv
    exact htidy.slot_of_getElem? (Nat.le_of_lt hdeclared) hv
  · change (d.table.declared.reverse.map LocalVariable.name).Nodup
    rw [List.map_reverse, List.nodup_reverse]
    exact htidy.names
  · intro kind slot haccess
    have hmem : (kind, slot) ∈ Code.accesses (code ++ [.ret]) := by
      rcases haccess with hload | hstore
      · exact List.mem_filterMap.2 ⟨_, hload, rfl⟩
      · exact List.mem_filterMap.2 ⟨_, hstore, rfl⟩
    have hdescribes : d.table.Describes (code ++ [.ret]) :=
      describes_append.2 ⟨hcode.describes, describes_plain rfl⟩
    obtain ⟨name, info, hlookup, rfl, hkind⟩ := hdescribes _ hmem
    have hlisted := htidy.getElem?_of_lookup (Nat.le_of_lt hdeclared) hlookup
    refine ⟨?_, _, hlisted, hkind⟩
    rw [UInt16.lt_iff_toNat_lt]
    exact hcount ▸ (List.getElem?_eq_some_iff.1 hlisted).1
  · intro v hv
    obtain ⟨kind, hmem⟩ := hcode.exists_store (mem_locals.1 hv) List.not_mem_nil
    exact ⟨kind, List.mem_append_left _ hmem⟩

/-- **The list of variables describes the code**, in the unit of the program and in those of the
tasks that it gives on the spot.

The bound is one less than the number of slots, since the size of the list has to be stored in 16
bits as well. It is asked of each unit by itself. -/
theorem Session.tabulates_of_compileNamed {name : String} {tree : Tree}
    {session after : Session} {c : Compilation}
    (h : compileNamed name tree session = .ok c after) :
    (c.program.locals.length < 2 ^ 16 → c.program.Tabulates tree) ∧
      List.Forall₂ (fun task unit => unit.name = task.1 ∧
        (unit.locals.length < 2 ^ 16 → unit.Tabulates task.2)) tree.inlineTasks c.tasks := by
  obtain ⟨hprogram, htasks⟩ := units_of_compileNamed h
  refine ⟨hprogram.tabulates, htasks.imp ?_⟩
  rintro task unit ⟨hname, hunit⟩
  exact ⟨hname, hunit.tabulates⟩

/-- A program that assigns its second variable in a branch, before its first one again, and
starts a task with a variable of its own. -/
def Tree.interleaved : Tree :=
  ofList [ofAssign "b" (ofInteger "1"),
    binary .ifThen (ofBool true)
      (ofList [ofAssign "a" (ofBool false), ofAssign "b" (ofInteger "2")]),
    ofInlineSpawn "Worker" (ofAssign "c" (ofInteger "3")), ofAssign "a" (ofBool true)]

theorem Session.tabulates_interleaved :
    ∃ c after, compileNamed "Main" .interleaved .bare = .ok c after ∧
      c.program.locals.length < 2 ^ 16 ∧ c.program.Tabulates .interleaved ∧
      Tree.interleaved.toStmt.assigned = ["b", "a", "b", "a"] ∧
      c.program.locals.map LocalVariable.name = ["b", "a"] := by
  have hc : ∃ c after, compileNamed "Main" .interleaved .bare = .ok c after ∧
      c.program.locals.length < 2 ^ 16 := exists_compileNamed_bare (by decide +kernel)
  obtain ⟨c, after, h, hfew⟩ := hc
  have htabulates := (tabulates_of_compileNamed h).1 hfew
  have hassigned : Tree.interleaved.toStmt.assigned = ["b", "a", "b", "a"] := by decide +kernel
  refine ⟨c, after, h, hfew, htabulates, hassigned, ?_⟩
  rw [htabulates.names, hassigned]
  decide

end StackUnits
