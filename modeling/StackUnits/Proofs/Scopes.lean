import Mathlib.Data.List.Infix
import Mathlib.Order.Bounds.Basic
import StackUnits.Proofs.Extension

/-!
# The accounts of a symbol table

The compiler opens one frame in each unit, but the symbol table is made for any nesting of frames.
This file is about everything that can be done with it: frames are opened and left, names are
declared and looked up, in any order, and a call that fails is followed by others
(`StackUnits.TableCall`).

What a call can do to a table is said once (`StackUnits.SymbolTable.Step`): it opens a frame, leaves
one, adds a declaration, or does nothing. From this follows what holds after any calls
(`StackUnits.Context.Accounts`): the symbols that are **live** (`StackUnits.SymbolTable.live`),
those of the open frames, have the slots `0`, `1`, `2` and so on, the next slot is their number, and
the number of slots is the largest that there has been.

Slots have sixteen bits, so all of this is said of calls during which no more than 65535 symbols are
live.
-/

namespace StackUnits

open StackUnits.Action

/-! ### Live symbols -/

/-- The names that a frame has, newest first. -/
def Frame.names (frame : Frame) : List String :=
  frame.entries.map Prod.fst

/-- A frame finds the names that it has. -/
theorem Frame.find?_eq_none_iff {frame : Frame} {name : String} :
    frame.find? name = none ↔ name ∉ frame.names := by
  rw [find?_eq_lookup, names, List.lookup_eq_none_iff]
  simp only [List.mem_map, not_exists, not_and, bne_iff_ne]
  exact ⟨fun h entry hentry heq => h entry hentry heq.symm,
    fun h entry hentry heq => h entry hentry heq.symm⟩

/-- If a frame has no name twice, then it finds what it has. Otherwise it would find the newest
declaration of a name only. -/
theorem Frame.find?_eq_some_iff {frame : Frame} (h : frame.names.Nodup) {name : String}
    {info : VarInfo} : frame.find? name = some info ↔ (name, info) ∈ frame.entries := by
  rw [find?_eq_lookup]
  unfold names at h
  -- On the declarations: what comes after the one with the name has other names.
  generalize frame.entries = entries at h
  induction entries with
  | nil => simp
  | cons entry rest ih =>
    obtain ⟨other, info'⟩ := entry
    rw [List.map_cons, List.nodup_cons] at h
    rw [List.lookup_cons, List.mem_cons, Prod.mk.injEq]
    by_cases hname : name = other
    · subst hname
      have hrest : (name, info) ∉ rest := fun hmem => h.1 (List.mem_map.2 ⟨_, hmem, rfl⟩)
      simp [hrest, eq_comm]
    · rw [beq_eq_false_iff_ne.2 hname]
      simp [ih h.2, hname]

namespace SymbolTable

/-- **The live symbols** of a table: those of the open frames, from the outermost on, each in the
order of declaration. -/
def live (table : SymbolTable) : List (String × VarInfo) :=
  table.frames.reverse.flatMap fun frame => frame.entries.reverse

variable {table table' : SymbolTable} {new : List LocalVariable}

/-- The symbols of the innermost frame come last, so that a symbol's place in the list is its
slot. -/
theorem live_cons {frame : Frame} {rest : List Frame} (h : table.frames = frame :: rest) :
    table.live = live { frames := rest } ++ frame.entries.reverse := by
  simp [live, h]

/-- A declaration in the innermost frame comes last, and the places of the others stay. -/
theorem live_insert {frame : Frame} {rest : List Frame} {name : String} {info : VarInfo}
    (h : table.frames = frame :: rest) (h' : table'.frames = frame.insert name info :: rest) :
    table'.live = table.live ++ [(name, info)] := by
  rw [live_cons h, live_cons h', Frame.entries_insert, List.reverse_cons, List.append_assoc]

theorem live_enterScope (table : SymbolTable) : table.enterScope.live = table.live := by
  simp [live, enterScope]

/-- Whether the innermost frame has a name. -/
def hasInnermost (table : SymbolTable) (name : String) : Bool :=
  table.frames.head?.any fun frame => name ∈ frame.names

/-! ### What a call does to a table -/

/-- **A step of a table**, with the declarations that it adds. -/
inductive Step (table : SymbolTable) : List LocalVariable → SymbolTable → Prop
  /-- Nothing is changed. -/
  | same : Step table [] table
  /-- A frame is opened. -/
  | entered : Step table [] table.enterScope
  /-- The innermost frame is left, and its slots are given back. -/
  | left {frame rest} (h : table.frames = frame :: rest) :
      Step table []
        { table with frames := rest, nextSlot := table.nextSlot - UInt16.ofNat frame.size }
  /-- A name that is new in the innermost frame gets the next slot. -/
  | declared {frame rest name type} (h : table.frames = frame :: rest) (hnew : name ∉ frame.names) :
      Step table [⟨name, table.nextSlot, type⟩]
        { frames := frame.insert name ⟨table.nextSlot, type⟩ :: rest
          nextSlot := table.nextSlot + 1
          slotCount := max table.slotCount (table.nextSlot + 1)
          declared := ⟨name, table.nextSlot, type⟩ :: table.declared }

/-- **The live symbols have the first slots**, without gap or repetition, the next slot is their
number, and no frame has a name twice. -/
structure Compact (table : SymbolTable) : Prop where
  slots : table.live.map (fun symbol => symbol.2.slot.toNat) = List.range table.live.length
  nextSlot : table.nextSlot.toNat = table.live.length
  names : ∀ frame ∈ table.frames, frame.names.Nodup

theorem compact_empty : Compact {} where
  slots := rfl
  nextSlot := rfl
  names _ hframe := (List.not_mem_nil hframe).elim

/-- As many slots are given back as the innermost frame has, and they are there to be given. So the
subtraction does not wrap around. -/
theorem Compact.size_le (h : table.Compact) {frame : Frame} {rest : List Frame}
    (hframes : table.frames = frame :: rest) : frame.size ≤ table.nextSlot.toNat := by
  rw [h.nextSlot, live_cons hframes, List.length_append, List.length_reverse]
  exact Nat.le_add_left _ _

/-- The number of declarations in the innermost frame fits into sixteen bits. -/
theorem Compact.toNat_size (h : table.Compact) {frame : Frame} {rest : List Frame}
    (hframes : table.frames = frame :: rest) : (UInt16.ofNat frame.size).toNat = frame.size :=
  UInt16.toNat_ofNat_of_lt' (Nat.lt_of_le_of_lt (h.size_le hframes) table.nextSlot.toNat_lt)

theorem Compact.enterScope (h : table.Compact) : table.enterScope.Compact where
  slots := by
    rw [live_enterScope]
    exact h.slots
  nextSlot := by
    rw [live_enterScope]
    exact h.nextSlot
  names := by
    intro frame hframe
    rcases List.mem_cons.1 hframe with rfl | hold
    · exact List.nodup_nil
    · exact h.names frame hold

theorem Compact.exitScope (h : table.Compact) {frame : Frame} {rest : List Frame}
    (hframes : table.frames = frame :: rest) :
    Compact { table with frames := rest, nextSlot := table.nextSlot - .ofNat frame.size } where
  slots := by
    have hslots := h.slots
    rw [live_cons hframes, List.map_append, List.length_append, List.range_add] at hslots
    exact List.append_inj_left hslots (by simp)
  nextSlot := by
    have hsize : (UInt16.ofNat frame.size).toNat = frame.size := h.toNat_size hframes
    have hle : UInt16.ofNat frame.size ≤ table.nextSlot := by
      rw [UInt16.le_iff_toNat_le, hsize]
      exact h.size_le hframes
    have hlive := h.nextSlot
    rw [live_cons hframes, List.length_append, List.length_reverse] at hlive
    change (table.nextSlot - .ofNat frame.size).toNat = (live { frames := rest }).length
    rw [UInt16.toNat_sub_of_le _ _ hle, hsize, hlive]
    exact Nat.add_sub_cancel ..
  names := by
    intro frame' hframe'
    exact h.names frame' (hframes ▸ List.mem_cons_of_mem frame hframe')

theorem Compact.declare (h : table.Compact) {frame : Frame} {rest : List Frame} {name : String}
    {type : OperandType} (hframes : table.frames = frame :: rest)
    (hframes' : table'.frames = frame.insert name ⟨table.nextSlot, type⟩ :: rest)
    (hnew : name ∉ frame.names) (hslot : table'.nextSlot = table.nextSlot + 1)
    (hfew : table'.live.length ≤ 65535) : table'.Compact where
  slots := by
    rw [live_insert hframes hframes', List.map_append, h.slots, List.length_append,
      List.length_singleton, List.range_succ, ← h.nextSlot]
    rfl
  nextSlot := by
    rw [live_insert hframes hframes', List.length_append, List.length_singleton] at hfew ⊢
    rw [hslot, UInt16.toNat_add, h.nextSlot]
    exact Nat.mod_eq_of_lt (Nat.lt_succ_of_le hfew)
  names := by
    intro frame' hframe'
    rw [hframes'] at hframe'
    rcases List.mem_cons.1 hframe' with rfl | hold
    · exact List.nodup_cons.2 ⟨hnew, h.names frame (hframes ▸ List.mem_cons_self)⟩
    · exact h.names frame' (hframes ▸ List.mem_cons_of_mem frame hold)

/-- **A step keeps the invariant**, as long as there are slots. The bound is on the table after the
step, since only a declaration can use up a slot. -/
theorem Compact.step (h : table.Compact) (hstep : table.Step new table')
    (hfew : table'.live.length ≤ 65535) : table'.Compact := by
  cases hstep with
  | same => exact h
  | entered => exact h.enterScope
  | left hframes => exact h.exitScope hframes
  | declared hframes hnew => exact h.declare hframes rfl hnew rfl hfew

/-- **The number of slots is raised to the number of live symbols** where that is larger. It is
never lowered, also when a frame is left. -/
theorem Step.slotCount_eq (hstep : table.Step new table') (h' : table'.Compact)
    (hle : table.live.length ≤ table.slotCount.toNat) :
    table'.slotCount.toNat = max table'.live.length table.slotCount.toNat := by
  cases hstep with
  | same => exact (Nat.max_eq_right hle).symm
  | entered =>
    rw [live_enterScope]
    exact (Nat.max_eq_right hle).symm
  | left hframes =>
    rw [live_cons hframes, List.length_append] at hle
    exact (Nat.max_eq_right (Nat.le_trans (Nat.le_add_right _ _) hle)).symm
  | declared hframes hnew =>
    rw [← h'.nextSlot, Nat.max_comm]
    exact UInt16.toNat_max _ _

/-- The declarations that a step adds are listed after the others. -/
theorem Step.locals_eq (hstep : table.Step new table') : table'.locals = table.locals ++ new := by
  cases hstep with
  | same | entered | left => exact (List.append_nil _).symm
  | declared => exact List.reverse_cons

/-- What a step adds has a slot of those in use afterwards. -/
theorem Step.slot_lt (hstep : table.Step new table') (h : table.Compact) :
    ∀ v ∈ new, v.slot.toNat < table'.live.length := by
  intro v hv
  cases hstep with
  | same | entered | left => cases hv
  | declared hframes =>
    rw [List.mem_singleton.1 hv, live_insert hframes rfl, h.nextSlot, List.length_append]
    exact Nat.lt_succ_self _

/-! ### Lookups -/

/-- **A name stands for the symbol of the innermost frame that has it.** A name may be in several
frames, and at most once in each. -/
theorem Compact.lookup_eq_some_iff (h : table.Compact) {name : String} {info : VarInfo} :
    table.lookup name = some info ↔ ∃ inner frame outer, table.frames = inner ++ frame :: outer ∧
      (∀ frame' ∈ inner, name ∉ frame'.names) ∧ (name, info) ∈ frame.entries := by
  rw [lookup, List.findSome?_eq_some_iff]
  constructor
  · rintro ⟨inner, frame, outer, hframes, hfind, hinner⟩
    have hframe : frame ∈ table.frames := hframes ▸ List.mem_append_right _ List.mem_cons_self
    exact ⟨inner, frame, outer, hframes, fun f hf => Frame.find?_eq_none_iff.1 (hinner f hf),
      (Frame.find?_eq_some_iff (h.names frame hframe)).1 hfind⟩
  · rintro ⟨inner, frame, outer, hframes, hinner, hmem⟩
    have hframe : frame ∈ table.frames := hframes ▸ List.mem_append_right _ List.mem_cons_self
    exact ⟨inner, frame, outer, hframes, (Frame.find?_eq_some_iff (h.names frame hframe)).2 hmem,
      fun f hf => Frame.find?_eq_none_iff.2 (hinner f hf)⟩

/-- A declaration that goes through is a step, which adds it if its name is new in the innermost
frame. If the name is there already, with the same type, nothing is added. -/
theorem step_of_declare {name : String} {type : OperandType} {slot : UInt16}
    (h : table.declare name type = .ok (slot, table')) :
    table.Step (if table.hasInnermost name then [] else [⟨name, slot, type⟩]) table' := by
  unfold declare at h
  rcases hframes : table.frames with _ | ⟨frame, rest⟩
  · simp [hframes] at h
  have hhas : table.hasInnermost name = decide (name ∈ frame.names) := by
    rw [hasInnermost, hframes]
    rfl
  rcases hfind : frame.find? name with _ | info
  · have hnew : name ∉ frame.names := Frame.find?_eq_none_iff.1 hfind
    simp only [hframes, hfind, Except.ok.injEq, Prod.mk.injEq] at h
    obtain ⟨rfl, rfl⟩ := h
    rw [hhas, decide_eq_false hnew]
    exact .declared hframes hnew
  · have hold : name ∈ frame.names := by
      by_contra hnew
      rw [Frame.find?_eq_none_iff.2 hnew] at hfind
      cases hfind
    rw [hhas, decide_eq_true hold]
    by_cases htype : info.type = type
    · simp only [hframes, hfind, htype, if_true, Except.ok.injEq, Prod.mk.injEq] at h
      exact h.2 ▸ .same
    · simp [hframes, hfind, htype] at h

theorem step_of_exitScope (h : table.exitScope = .ok table') : table.Step [] table' := by
  unfold exitScope at h
  rcases hframes : table.frames with _ | ⟨frame, rest⟩
  · simp [hframes] at h
  · simp only [hframes, Except.ok.injEq] at h
    exact h ▸ .left hframes

end SymbolTable

/-! ### Calls -/

/-- **A call on the symbol table** of a unit that is being compiled. -/
inductive TableCall
  | enterScope
  | exitScope
  | declare (name : String) (type : OperandType)
  | lookup (name : String)

namespace TableCall

/-- What a call does. Its answer is not kept. -/
def action : TableCall → Emit Unit
  | enterScope => Emit.enterScope
  | exitScope => Emit.exitScope
  | declare name type => discard (Emit.declare name type)
  | lookup name => discard (Emit.lookup name)

/-- The declaration that a call adds, if any: it is one that goes through, of a name that the
innermost frame does not have. -/
def added (cx : Context) : TableCall → List LocalVariable
  | declare name type =>
    match Emit.declare name type cx with
    | .ok slot _ => if cx.symbols.hasInnermost name then [] else [⟨name, slot, type⟩]
    | .error _ _ => []
  | _ => []

/-- **What a call does**: it goes through and is a step of the table, or it fails and changes
nothing. Everything that follows about calls is derived from this. -/
theorem action_cases (call : TableCall) (cx : Context) :
    (∃ table, call.action cx = .ok () (cx.retabled table) ∧
      cx.symbols.Step (call.added cx) table) ∨
    (∃ e, call.action cx = .error e cx) ∧ call.added cx = [] := by
  cases call with
  | enterScope => exact .inl ⟨_, rfl, .entered⟩
  | lookup name => exact .inl ⟨_, rfl, .same⟩
  | exitScope =>
    change (∃ table, Emit.exitScope cx = _ ∧ cx.symbols.Step [] table) ∨
      (∃ e, Emit.exitScope cx = _) ∧ [] = []
    unfold Emit.exitScope
    rcases hexit : cx.symbols.exitScope with e | table
    · exact .inr ⟨⟨e, rfl⟩, rfl⟩
    · exact .inl ⟨table, rfl, SymbolTable.step_of_exitScope hexit⟩
  | declare name type =>
    rcases hdeclare : cx.symbols.declare name type with e | ⟨slot, table⟩
    · have hrun : Emit.declare name type cx = .error e cx := by
        rw [Emit.declare, hdeclare]
      refine .inr ⟨⟨e, ?_⟩, ?_⟩
      · change EStateM.map _ (Emit.declare name type) cx = _
        rw [EStateM.map, hrun]
      · rw [added, hrun]
    · have hrun : Emit.declare name type cx = .ok slot (cx.retabled table) :=
        Emit.declare_eq_ok.2 ⟨table, hdeclare, rfl⟩
      refine .inl ⟨table, discard_eq_ok.2 ⟨slot, hrun⟩, ?_⟩
      rw [added, hrun]
      exact SymbolTable.step_of_declare hdeclare

/-- **A call that fails leaves everything as it is**, also the number of slots and the list of
declarations. -/
theorem eq_of_action_eq_error {call : TableCall} {cx cx' : Context} {e : CompileError}
    (h : call.action cx = .error e cx') : cx' = cx := by
  obtain ⟨table, hok, -⟩ | ⟨⟨e', herror⟩, -⟩ := call.action_cases cx
  · rw [hok] at h
    cases h
  · rw [herror] at h
    cases h
    rfl

/-- **Every call is a step of the table**, also one that fails, which adds nothing. So the accounts
need not tell successful calls from others. -/
theorem step (call : TableCall) (cx : Context) :
    cx.symbols.Step (call.added cx) (final (call.action cx)).symbols := by
  obtain ⟨table, hok, hstep⟩ | ⟨⟨e, herror⟩, hadded⟩ := call.action_cases cx
  · rw [hok]
    exact hstep
  · rw [herror, hadded]
    exact .same

end TableCall

/-! ### Runs -/

/-- The context after some calls, of which any may fail. -/
def Context.afterCalls (cx : Context) (calls : List TableCall) : Context :=
  calls.foldl (fun cx call => final (call.action cx)) cx

/-- The declarations that some calls add, in order. -/
def TableCall.addedBy (cx : Context) : List TableCall → List LocalVariable
  | [] => []
  | call :: calls => call.added cx ++ addedBy (final (call.action cx)) calls

theorem TableCall.addedBy_concat (cx : Context) (calls : List TableCall) (call : TableCall) :
    addedBy cx (calls ++ [call]) = addedBy cx calls ++ call.added (cx.afterCalls calls) := by
  induction calls generalizing cx with
  | nil => exact List.append_nil _
  | cons first calls ih =>
    rw [List.cons_append, addedBy, ih, addedBy, List.append_assoc]
    rfl

theorem Context.afterCalls_concat (cx : Context) (calls : List TableCall) (call : TableCall) :
    cx.afterCalls (calls ++ [call]) = final (call.action (cx.afterCalls calls)) := by
  rw [afterCalls, List.foldl_append]
  rfl

/-- The numbers of symbols that were live at some time during some calls. -/
def Context.liveCounts (cx : Context) (calls : List TableCall) : Set Nat :=
  {n | ∃ before, before <+: calls ∧ (cx.afterCalls before).symbols.live.length = n}

theorem Context.liveCounts_concat (cx : Context) (calls : List TableCall) (call : TableCall) :
    cx.liveCounts (calls ++ [call]) =
      insert (cx.afterCalls (calls ++ [call])).symbols.live.length (cx.liveCounts calls) := by
  ext n
  simp [liveCounts, List.prefix_concat_iff, or_and_right, exists_or, eq_comm]

/-- **The accounts of a table** after some calls: its symbols have the first slots, it has counted
the largest number of them that were live at one time, and it lists what was declared. -/
structure Context.Accounts (cx : Context) (calls : List TableCall) : Prop where
  compact : (cx.afterCalls calls).symbols.Compact
  slotCount : IsGreatest (cx.liveCounts calls) (cx.afterCalls calls).symbols.slotCount.toNat
  locals : (cx.afterCalls calls).symbols.locals = TableCall.addedBy cx calls
  slot_lt : ∀ v ∈ (cx.afterCalls calls).symbols.locals,
    v.slot < (cx.afterCalls calls).symbols.slotCount

namespace Context.Accounts

variable {cx : Context} {calls : List TableCall}

theorem nil (h : cx.symbols = {}) : cx.Accounts [] := by
  have hempty : (cx.afterCalls []).symbols = {} := h
  refine ⟨?_, ⟨⟨[], List.prefix_rfl, ?_⟩, ?_⟩, ?_, ?_⟩
  · rw [hempty]
    exact SymbolTable.compact_empty
  · rw [hempty]
    rfl
  · rintro n ⟨before, hbefore, rfl⟩
    rw [List.prefix_nil.1 hbefore, hempty]
    exact Nat.le_refl 0
  · rw [hempty]
    rfl
  · rw [hempty]
    intro v hv
    cases hv

/-- One more call keeps the accounts. Calls are added at the end, as in a run, and what the last one
does depends on the table that those before it have left. -/
theorem concat (h : cx.Accounts calls) (call : TableCall)
    (hfew : (cx.afterCalls (calls ++ [call])).symbols.live.length ≤ 65535) :
    cx.Accounts (calls ++ [call]) := by
  have hstep := call.step (cx.afterCalls calls)
  rw [← afterCalls_concat] at hstep
  have hcompact := h.compact.step hstep hfew
  have hcount := hstep.slotCount_eq hcompact (h.slotCount.2 ⟨calls, List.prefix_rfl, rfl⟩)
  refine ⟨hcompact, ?_, ?_, ?_⟩
  · rw [liveCounts_concat, hcount]
    exact h.slotCount.insert _
  · rw [hstep.locals_eq, h.locals, TableCall.addedBy_concat]
  · intro v hv
    rw [UInt16.lt_iff_toNat_lt, hcount]
    rw [hstep.locals_eq, List.mem_append] at hv
    rcases hv with hold | hnew
    · exact Nat.lt_of_lt_of_le (UInt16.lt_iff_toNat_lt.1 (h.slot_lt v hold)) (Nat.le_max_right _ _)
    · exact Nat.lt_of_lt_of_le (hstep.slot_lt h.compact v hnew) (Nat.le_max_left _ _)

/-- **The accounts are right after all calls** on a new table, as long as there are slots. By
induction on the calls, the last one being the one that is added. -/
theorem of_calls (h : cx.symbols = {}) (hfew : ∀ n ∈ cx.liveCounts calls, n ≤ 65535) :
    cx.Accounts calls := by
  induction calls using List.reverseRecOn with
  | nil => exact nil h
  | append_singleton calls call ih =>
    rw [liveCounts_concat] at hfew
    exact (ih fun n hn => hfew n (.inr hn)).concat call (hfew _ (.inl rfl))

end Context.Accounts

namespace TableCall

/-- **The accounts of a symbol table.** After any calls on a new table, as long as no more than
65535 symbols are live at one time: the table accounts for its symbols (`Context.Accounts`); there
are always slots enough to be given back; a name stands for the symbol of the innermost frame that
has it; and a call that fails next changes nothing.

The bound is on the symbols live at one time and not on the declarations, since slots are given
back. It is one less than the number of slots, as the number of slots in use has to have 16 bits. -/
theorem afterCalls_accounts {cx : Context} (h : cx.symbols = {}) {calls : List TableCall}
    (hfew : ∀ n ∈ cx.liveCounts calls, n ≤ 65535) :
    cx.Accounts calls ∧
    (∀ frame rest, (cx.afterCalls calls).symbols.frames = frame :: rest →
      (UInt16.ofNat frame.size).toNat = frame.size ∧
      frame.size ≤ (cx.afterCalls calls).symbols.nextSlot.toNat) ∧
    (∀ name info, (cx.afterCalls calls).symbols.lookup name = some info ↔
      ∃ inner frame outer, (cx.afterCalls calls).symbols.frames = inner ++ frame :: outer ∧
        (∀ frame' ∈ inner, name ∉ frame'.names) ∧ (name, info) ∈ frame.entries) ∧
    ∀ call e cx', action call (cx.afterCalls calls) = .error e cx' → cx' = cx.afterCalls calls := by
  have haccounts : cx.Accounts calls := .of_calls h hfew
  refine ⟨haccounts, ?_, ?_, ?_⟩
  · intro frame rest hframes
    exact ⟨haccounts.compact.toNat_size hframes, haccounts.compact.size_le hframes⟩
  · intro name info
    exact haccounts.compact.lookup_eq_some_iff
  · intro call e cx' herror
    exact eq_of_action_eq_error herror

/-- Calls with two frames, in which a name is declared in both, slots are used again, and four
calls fail. -/
def nested : List TableCall :=
  [.exitScope, .declare "a" .int, .enterScope, .declare "a" .int, .enterScope, .declare "a" .float,
    .declare "b" .int, .declare "b" .long, .lookup "a", .exitScope, .declare "a" .int,
    .declare "a" .double, .declare "c" .double]

theorem afterCalls_accounts_nested :
    (∀ n ∈ Context.liveCounts ⟨.bare, "Main", {}, {}, {}⟩ nested, n ≤ 65535) ∧
    Context.Accounts ⟨.bare, "Main", {}, {}, {}⟩ nested ∧
    (Context.afterCalls ⟨.bare, "Main", {}, {}, {}⟩ nested).symbols.live =
      [("a", ⟨0, .int⟩), ("c", ⟨1, .double⟩)] ∧
    (Context.afterCalls ⟨.bare, "Main", {}, {}, {}⟩ nested).symbols.slotCount = 3 ∧
    (Context.afterCalls ⟨.bare, "Main", {}, {}, {}⟩ nested).symbols.locals =
      [⟨"a", 0, .int⟩, ⟨"a", 1, .float⟩, ⟨"b", 2, .int⟩, ⟨"c", 1, .double⟩] := by
  have hfew : ∀ n ∈ Context.liveCounts ⟨.bare, "Main", {}, {}, {}⟩ nested, n ≤ 65535 := by
    have hinits : ∀ before ∈ nested.inits,
        (Context.afterCalls ⟨.bare, "Main", {}, {}, {}⟩ before).symbols.live.length ≤ 65535 := by
      decide +kernel
    rintro n ⟨before, hbefore, rfl⟩
    exact hinits before ((List.mem_inits _ _).2 hbefore)
  exact ⟨hfew, (afterCalls_accounts rfl hfew).1, by decide +kernel, by decide +kernel,
    by decide +kernel⟩

end TableCall

end StackUnits
