import Mathlib.Algebra.Group.Nat.Defs
import Mathlib.Data.List.Nodup
import StackUnits.Proofs.Code

/-!
# Symbol tables while a unit is compiled

The code of a unit refers to variables by slot; a program refers to them by name. This
file is about the tables that lead from one to the other, between the beginning of a unit
and its end.

* `StackUnits.SymbolTable.Assigns.lookup_eq` – an assignment makes its name stand for its
  slot, and leaves all other names alone;
* `StackUnits.SymbolTable.Tidy` – the **invariant**: there is one frame, which has the
  declarations of the unit, and the slots are handed out in the order of declaration. It
  holds at the beginning of a unit and is kept by the code of every statement
  (`StackUnits.Stmt.HasCode.tidy`);
* `StackUnits.SymbolTable.Tidy.eq_of_slot_eq` – so two variables of a unit have different
  slots, as long as the slots do not run out.
-/

namespace StackUnits

/-- A declaration as it stands in a frame. -/
def LocalVariable.entry (v : LocalVariable) : String × VarInfo :=
  (v.name, ⟨v.slot, v.type⟩)

namespace SymbolTable

variable {table table' : SymbolTable} {name : String} {type : OperandType} {slot : UInt16}

/-! ### Assignments -/

/-- The innermost frame is asked first. -/
theorem lookup_cons {frame : Frame} {rest : List Frame} (h : table.frames = frame :: rest) :
    table.lookup name = (frame.find? name).or (rest.findSome? fun frame => frame.find? name) := by
  rw [lookup, h, List.findSome?_cons]
  cases frame.find? name with
  | none => rfl
  | some info => rfl

/-- **What an assignment does to the table**: nothing, if the name is known; otherwise the name goes
into the innermost frame, with the next slot. A name that is known in an outer frame is not declared
again. -/
theorem Assigns.cases (h : table.Assigns name type slot table') :
    table.lookup name = some ⟨slot, type⟩ ∧ table' = table ∨
      table.lookup name = none ∧ slot = table.nextSlot ∧ ∃ frame rest,
        table.frames = frame :: rest ∧
        table' =
          { frames := frame.insert name ⟨slot, type⟩ :: rest
            nextSlot := slot + 1
            slotCount := max table.slotCount (slot + 1)
            declared := ⟨name, slot, type⟩ :: table.declared } := by
  rw [Assigns] at h
  rcases hlookup : table.lookup name with _ | info
  · right
    rw [hlookup, declare] at h
    rcases hframes : table.frames with _ | ⟨frame, rest⟩
    · simp [hframes] at h
    · have hfind : frame.find? name = none := by
        rw [lookup_cons hframes] at hlookup
        exact (Option.or_eq_none_iff.1 hlookup).1
      simp only [hframes, hfind, Except.ok.injEq, Prod.mk.injEq] at h
      obtain ⟨rfl, rfl⟩ := h
      exact ⟨rfl, rfl, frame, rest, rfl, rfl⟩
  · left
    rw [hlookup] at h
    obtain ⟨rfl, rfl⟩ := h
    exact ⟨rfl, rfl⟩

/-- **An assignment makes its name stand for its slot**, and leaves all other names alone. This is
so whether the name is new or not. -/
theorem Assigns.lookup_eq (h : table.Assigns name type slot table') (other : String) :
    table'.lookup other = if other = name then some ⟨slot, type⟩ else table.lookup other := by
  obtain ⟨hlookup, rfl⟩ | ⟨-, -, frame, rest, hframes, rfl⟩ := h.cases
  · split
    · rename_i heq
      rw [heq, hlookup]
    · rfl
  · rw [lookup_cons rfl, lookup_cons hframes, Frame.find?_eq_lookup, Frame.find?_eq_lookup,
      Frame.entries_insert, List.lookup_cons]
    by_cases hname : other = name
    · rw [if_pos hname, beq_iff_eq.2 hname]
      rfl
    · rw [if_neg hname, beq_eq_false_iff_ne.2 hname]

/-- An assignment goes through if its name is new or known with the same type. -/
theorem exists_assigns (hframes : table.frames ≠ [])
    (h : ∀ info, table.lookup name = some info → info.type = type) :
    ∃ slot table', table.Assigns name type slot table' := by
  unfold Assigns
  rcases hlookup : table.lookup name with _ | info
  · obtain ⟨frame, rest, hcons⟩ := List.exists_cons_of_ne_nil hframes
    have hfind : frame.find? name = none := by
      rw [lookup_cons hcons] at hlookup
      exact (Option.or_eq_none_iff.1 hlookup).1
    exact ⟨_, _, by simp only [declare, hcons, hfind]; rfl⟩
  · obtain rfl := h info hlookup
    exact ⟨info.slot, table, rfl, rfl⟩

/-- Every variable of a table is a variable of another. -/
def Within (table table' : SymbolTable) : Prop :=
  ∀ ⦃name info⦄, table.lookup name = some info → table'.lookup name = some info

/-- Different names stand for different slots. -/
def Separates (table : SymbolTable) : Prop :=
  ∀ ⦃name name' info info'⦄, table.lookup name = some info → table.lookup name' = some info' →
    info.slot = info'.slot → name = name'

theorem Within.trans {table₁ table₂ table₃ : SymbolTable} (h : table₁.Within table₂)
    (h' : table₂.Within table₃) : table₁.Within table₃ :=
  fun _ _ hlookup => h' (h hlookup)

/-- No variable is lost by an assignment, and none is given another slot. -/
theorem Assigns.within (h : table.Assigns name type slot table') : table.Within table' := by
  intro other info hother
  rw [h.lookup_eq]
  split
  · rename_i heq
    subst heq
    obtain ⟨hlookup, -⟩ | ⟨hlookup, -⟩ := h.cases
    · rw [← hlookup, hother]
    · rw [hlookup] at hother
      cases hother
  · exact hother

/-! ### The invariant -/

/-- **A table of a unit being compiled**: one frame with all declarations, under different
names and of types that a variable can have, and the slots in the order of declaration. -/
structure Tidy (table : SymbolTable) : Prop where
  frames : table.frames.map Frame.entries = [table.declared.map LocalVariable.entry]
  names : (table.declared.map LocalVariable.name).Nodup
  slots : table.declared.map LocalVariable.slot =
    (List.range table.declared.length).reverse.map UInt16.ofNat
  nextSlot : table.nextSlot = UInt16.ofNat table.declared.length
  kinds : ∀ v ∈ table.declared, ∃ kind, v.type.slotKind? = some kind

theorem tidy_fresh (units : List CodeUnit) : (Draft.fresh units).table.Tidy where
  frames := rfl
  names := List.nodup_nil
  slots := rfl
  nextSlot := rfl
  kinds _ hv := (List.not_mem_nil hv).elim

namespace Tidy

theorem frames_ne_nil (h : table.Tidy) : table.frames ≠ [] := by
  intro hnil
  have hframes := h.frames
  rw [hnil] at hframes
  cases hframes

/-- A name is looked up among the declarations. There is one frame only, as tasks have tables of
their own and other statements open none. -/
theorem lookup_eq (h : table.Tidy) (name : String) :
    table.lookup name = (table.declared.map LocalVariable.entry).lookup name := by
  obtain ⟨frame, rest, hframes⟩ := List.exists_cons_of_ne_nil h.frames_ne_nil
  have hentries := h.frames
  rw [hframes, List.map_cons, List.cons.injEq, List.map_eq_nil_iff] at hentries
  obtain ⟨hentries, rfl⟩ := hentries
  rw [lookup_cons hframes, Frame.find?_eq_lookup, hentries]
  exact Option.or_none

/-- **A name stands for a variable** exactly if it was declared so. No name is declared twice. -/
theorem lookup_eq_some_iff (h : table.Tidy) {info : VarInfo} :
    table.lookup name = some info ↔ ⟨name, info.slot, info.type⟩ ∈ table.declared := by
  rw [h.lookup_eq]
  have hnames := h.names
  -- On the declarations, the last one first; what comes before it has other names.
  generalize table.declared = declared at hnames
  induction declared with
  | nil => simp
  | cons v rest ih =>
    rw [List.map_cons, List.nodup_cons] at hnames
    rw [List.map_cons, LocalVariable.entry, List.lookup_cons, List.mem_cons]
    by_cases hname : name = v.name
    · rw [beq_iff_eq.2 hname]
      constructor
      · rintro ⟨⟩
        exact .inl (by rw [hname])
      · rintro (hv | hmem)
        · rw [← hv]
        · exact (hnames.1 (hname ▸ List.mem_map_of_mem hmem)).elim
    · rw [beq_eq_false_iff_ne.2 hname]
      refine (ih hnames.2).trans ⟨.inr, ?_⟩
      rintro (hv | hmem)
      · exact (hname (congrArg LocalVariable.name hv)).elim
      · exact hmem

/-- The invariant is kept by an assignment, and assignments are all that changes a table. A name
that is declared was not known, and so was not declared before. -/
theorem assigns {kind : SlotKind} (h : table.Tidy) (hassigns : table.Assigns name type slot table')
    (hkind : type.slotKind? = some kind) : table'.Tidy := by
  obtain ⟨-, rfl⟩ | ⟨hlookup, rfl, frame, rest, hframes, rfl⟩ := hassigns.cases
  · exact h
  · have hentries := h.frames
    rw [hframes, List.map_cons, List.cons.injEq, List.map_eq_nil_iff] at hentries
    obtain ⟨hentries, rfl⟩ := hentries
    refine ⟨?_, ?_, ?_, ?_, ?_⟩
    · rw [List.map_cons, List.map_cons, Frame.entries_insert, hentries]
      rfl
    -- The name is new: it would have been looked up otherwise.
    · refine List.nodup_cons.2 ⟨fun hmem => ?_, h.names⟩
      obtain ⟨v, hv, hname⟩ := List.mem_map.1 hmem
      obtain rfl : v.name = name := hname
      have hsome : table.lookup v.name = some ⟨v.slot, v.type⟩ := h.lookup_eq_some_iff.2 hv
      rw [hlookup] at hsome
      cases hsome
    · rw [List.length_cons, List.range_succ, List.reverse_append, List.map_cons, h.slots,
        h.nextSlot]
      rfl
    · change table.nextSlot + 1 = UInt16.ofNat (table.declared.length + 1)
      rw [h.nextSlot, UInt16.ofNat_add]
      rfl
    · rintro v (_ | ⟨_, hv⟩)
      · exact ⟨kind, hkind⟩
      · exact h.kinds v hv

/-- **Different variables have different slots**, if there are enough of them. The next slot is
counted in 16 bits, without a check. -/
theorem eq_of_slot_eq (h : table.Tidy) (hlength : table.declared.length ≤ 2 ^ 16)
    {v v' : LocalVariable} (hv : v ∈ table.declared) (hv' : v' ∈ table.declared)
    (hslot : v.slot = v'.slot) : v = v' := by
  have hnodup : (table.declared.map LocalVariable.slot).Nodup := by
    rw [h.slots]
    refine List.Nodup.map_on (fun i hi j hj hij => ?_) (List.nodup_reverse.2 List.nodup_range)
    rw [List.mem_reverse, List.mem_range] at hi hj
    have hnat := congrArg UInt16.toNat hij
    rwa [UInt16.toNat_ofNat_of_lt' (Nat.lt_of_lt_of_le hi hlength),
      UInt16.toNat_ofNat_of_lt' (Nat.lt_of_lt_of_le hj hlength)] at hnat
  exact List.inj_on_of_nodup_map hnodup hv hv' hslot

/-- Different names stand for different slots, if there are enough of them. -/
theorem separates (h : table.Tidy) (hlength : table.declared.length ≤ 2 ^ 16) :
    table.Separates := by
  intro name name' info info' hname hname' hslot
  have heq := h.eq_of_slot_eq hlength (h.lookup_eq_some_iff.1 hname)
    (h.lookup_eq_some_iff.1 hname') hslot
  exact congrArg LocalVariable.name heq

end Tidy

end SymbolTable

/-! ### Along the code of a statement -/

namespace Stmt.HasCode

variable {w : World} {d d' : Draft} {s : Stmt} {code : List Instruction}

/-- **The invariant is kept by statements.** By induction on the code. -/
theorem tidy (h : s.HasCode w d code d') (hd : d.table.Tidy) : d'.table.Tidy := by
  induction h with
  | nothing | print | assert | sleep | spawn | spawnInline => exact hd
  | sequence _ _ ih₁ ih₂ => exact ih₂ (ih₁ hd)
  | block _ ih | ifThen _ _ _ ih | loop _ _ _ ih => exact ih hd
  | assign _ hslot hkind => exact hd.assigns hslot hkind
  | ifElse _ _ _ _ iht ihe => exact ihe (iht hd)

/-- No variable is lost by a statement. In a conditional the second branch begins with the table of
the first. -/
theorem within (h : s.HasCode w d code d') : d.table.Within d'.table := by
  induction h with
  | nothing | print | assert | sleep | spawn | spawnInline => exact fun _ _ => id
  | sequence _ _ ih₁ ih₂ => exact ih₁.trans ih₂
  | block _ ih | ifThen _ _ _ ih | loop _ _ _ ih => exact ih
  | assign _ hslot => exact hslot.within
  | ifElse _ _ _ _ iht ihe => exact iht.trans ihe

end Stmt.HasCode

end StackUnits
