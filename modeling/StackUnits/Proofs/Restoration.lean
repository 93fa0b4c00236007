import StackUnits.Proofs.Scopes

/-!
# Frames that are left again

Between the opening of a frame and its leaving, anything can be done with a symbol table: names are
declared in the frame, also such as have another meaning outside of it, further frames are opened
and left, and calls fail. When the frame is left, nothing of this is seen from outside
(`StackUnits.TableCall.afterCalls_restores`): every name stands for what it stood for, and a
declaration gets the answer that it would have got. Only the number of slots and the list of
declarations may have grown.

While the frame is open, the table is **above** the one from before
(`StackUnits.SymbolTable.Above`): the old frames lie under those opened since, and as many slots
have been handed out as the latter have symbols. A call keeps this as long as it does not reach the
old frames, and so do any calls of which this is true at all times.

The count of slots has sixteen bits and may go round. What was handed out and what is given back
cancel all the same, so there is no bound on the number of symbols here.
-/

namespace StackUnits

open StackUnits.Action

deriving instance DecidableEq for TableCall

/-- To drop the answer of an action does not change what it does. -/
theorem Action.final_discard {ε σ α : Type} (x : EStateM ε σ α) (s : σ) :
    final ((discard x : EStateM ε σ PUnit) s) = final (x s) := by
  change final (EStateM.map _ x s) = _
  rw [EStateM.map]
  rcases x s with _ | _
  · rfl
  · rfl

namespace SymbolTable

variable {base table table' : SymbolTable} {opened : List Frame}

/-- **A table looks like the one before it**: every name stands for the same, and a declaration
gets the same answer, a slot or an error. What is counted and listed has only grown. -/
structure Restores (before after : SymbolTable) : Prop where
  lookup : ∀ name, after.lookup name = before.lookup name
  declare : ∀ name type,
    (after.declare name type).map Prod.fst = (before.declare name type).map Prod.fst
  slotCount : before.slotCount ≤ after.slotCount
  locals : before.locals <+: after.locals

/-- **A table is above another**: it has opened some frames on top of those of the other, and has
handed out the slots of their symbols. -/
structure Above (base : SymbolTable) (opened : List Frame) (table : SymbolTable) : Prop where
  frames : table.frames = opened ++ base.frames
  nextSlot : table.nextSlot = base.nextSlot + .ofNat (opened.flatMap Frame.entries).length
  slotCount : base.slotCount ≤ table.slotCount
  locals : base.locals <+: table.locals

namespace Above

theorem refl (table : SymbolTable) : table.Above [] table where
  frames := rfl
  nextSlot := (UInt16.add_zero _).symm
  slotCount := UInt16.le_refl _
  locals := List.prefix_rfl

theorem enterScope (h : base.Above opened table) :
    base.Above (.empty :: opened) table.enterScope where
  frames := congrArg (Frame.empty :: ·) h.frames
  nextSlot := h.nextSlot
  slotCount := h.slotCount
  locals := h.locals

/-- The innermost frame takes its slots with it. As long as a frame is open above the old ones,
leaving one cannot fail. -/
theorem exitScope {frame : Frame} (h : base.Above (frame :: opened) table) :
    ∃ table', table.exitScope = .ok table' ∧ base.Above opened table' := by
  have hframes : table.frames = frame :: (opened ++ base.frames) := h.frames
  have hslot : table.nextSlot - .ofNat frame.size =
      base.nextSlot + .ofNat (opened.flatMap Frame.entries).length := by
    rw [h.nextSlot, List.flatMap_cons, List.length_append, Nat.add_comm, UInt16.ofNat_add,
      ← UInt16.add_assoc]
    exact UInt16.add_sub_cancel _ _
  exact ⟨{ table with frames := _, nextSlot := _ }, by simp only [SymbolTable.exitScope, hframes],
    rfl, hslot, h.slotCount, h.locals⟩

/-- A declaration goes into the innermost frame, and so not into one of the old ones. Its slot is
the next one, and is counted among those of the open frames. -/
theorem declare {frame : Frame} (h : base.Above (frame :: opened) table) {name : String}
    {type : OperandType} {slot : UInt16} (hdeclare : table.declare name type = .ok (slot, table')) :
    ∃ frame', base.Above (frame' :: opened) table' := by
  have hframes : table.frames = frame :: (opened ++ base.frames) := h.frames
  simp only [SymbolTable.declare, hframes] at hdeclare
  rcases hfind : frame.find? name with _ | info
  · simp only [hfind, Except.ok.injEq, Prod.mk.injEq] at hdeclare
    obtain ⟨-, rfl⟩ := hdeclare
    refine ⟨frame.insert name ⟨table.nextSlot, type⟩, rfl, ?_, ?_, ?_⟩
    · change table.nextSlot + 1 = _
      rw [h.nextSlot, List.flatMap_cons, List.flatMap_cons, Frame.entries_insert, List.cons_append,
        List.length_cons, UInt16.ofNat_add, UInt16.add_assoc]
      rfl
    · rw [UInt16.le_iff_toNat_le, UInt16.toNat_max]
      exact Nat.le_trans (UInt16.le_iff_toNat_le.1 h.slotCount) (Nat.le_max_left _ _)
    · exact h.locals.trans ⟨_, List.reverse_cons.symm⟩
  · by_cases htype : info.type = type
    · simp only [hfind, htype, if_true, Except.ok.injEq, Prod.mk.injEq] at hdeclare
      exact ⟨frame, hdeclare.2 ▸ h⟩
    · simp [hfind, htype] at hdeclare

/-- **A table with the frames from before looks like the one before**: all answers come from the
frames and from the number of slots in use, which leaving a frame has set back. -/
theorem restores (h : base.Above [] table) : base.Restores table := by
  have hframes : table.frames = base.frames := h.frames
  have hslot : table.nextSlot = base.nextSlot := h.nextSlot.trans (UInt16.add_zero _)
  refine ⟨fun name => ?_, fun name type => ?_, h.slotCount, h.locals⟩
  · rw [lookup, lookup, hframes]
  -- The answer to a declaration depends on the frames and on the next slot.
  · unfold SymbolTable.declare
    rw [hframes, hslot]
    rcases base.frames with _ | ⟨frame, rest⟩
    · rfl
    · rcases hfind : frame.find? name with _ | info
      · simp only [hfind, Except.map]
      · by_cases htype : info.type = type
        · simp only [hfind, htype, if_true, Except.map]
        · simp only [hfind, htype, if_false, Except.map]

end Above

end SymbolTable

/-! ### Calls within a frame -/

namespace TableCall

/-- **Calls within a frame**: at no time have they left more frames than they have opened, so the
frame in which they begin stays open; and in the end they have left all that they opened. -/
structure Balanced (calls : List TableCall) : Prop where
  inside : ∀ before, before <+: calls → before.count exitScope ≤ before.count enterScope
  matched : calls.count exitScope = calls.count enterScope

/-- What it means to be balanced, in a form that can be decided. -/
theorem balanced_iff {calls : List TableCall} :
    Balanced calls ↔
      (∀ before ∈ calls.inits, before.count exitScope ≤ before.count enterScope) ∧
        calls.count exitScope = calls.count enterScope := by
  simp only [List.mem_inits]
  exact ⟨fun h => ⟨h.inside, h.matched⟩, fun h => ⟨h.1, h.2⟩⟩

instance : DecidablePred Balanced :=
  fun _ => decidable_of_iff _ balanced_iff.symm

end TableCall

namespace SymbolTable.Above

variable {base : SymbolTable} {opened : List Frame} {cx : Context}

/-- **A call above the old frames stays above them**, whether it fails or not; it opens or leaves a
frame if that is what it is for. Only a declaration can fail here, and then it changes nothing. -/
theorem call (h : base.Above opened cx.symbols) (hopened : opened ≠ []) (call : TableCall) :
    ∃ opened', base.Above opened' (final (call.action cx)).symbols ∧
      opened'.length + [call].count .exitScope = opened.length + [call].count .enterScope := by
  obtain ⟨frame, rest, rfl⟩ := List.exists_cons_of_ne_nil hopened
  cases call with
  | enterScope => exact ⟨_, h.enterScope, rfl⟩
  | lookup name => exact ⟨_, h, rfl⟩
  | exitScope =>
    obtain ⟨table, hexit, habove⟩ := h.exitScope
    refine ⟨rest, ?_, rfl⟩
    change base.Above rest (final (Emit.exitScope cx)).symbols
    rw [Emit.exitScope, hexit]
    exact habove
  | declare name type =>
    change ∃ opened', base.Above opened' (final (discard (Emit.declare name type) cx)).symbols ∧
      opened'.length = rest.length + 1
    rw [final_discard, Emit.declare]
    rcases hdeclare : cx.symbols.declare name type with e | ⟨slot, table⟩
    · exact ⟨_, h, rfl⟩
    · obtain ⟨frame', habove⟩ := h.declare hdeclare
      exact ⟨_, habove, rfl⟩

/-- **Calls that keep the old frames stay above them.** By induction on the calls, from the last one
back: what is asked of all beginnings of a list is asked of those of a shorter one. -/
theorem afterCalls (h : base.Above opened cx.symbols) (hopened : opened ≠ [])
    {calls : List TableCall} (hinside : ∀ before, before <+: calls →
      before.count .exitScope ≤ before.count .enterScope) :
    ∃ opened', base.Above opened' (cx.afterCalls calls).symbols ∧
      opened'.length + calls.count .exitScope = opened.length + calls.count .enterScope := by
  induction calls using List.reverseRecOn with
  | nil => exact ⟨opened, h, rfl⟩
  | append_singleton calls call ih =>
    obtain ⟨opened', habove, hlength⟩ := ih fun before hbefore =>
      hinside before (hbefore.trans (List.prefix_append _ _))
    have hstill : opened' ≠ [] := by
      have hpos := List.length_pos_iff.2 hopened
      have hle := hinside calls (List.prefix_append _ _)
      exact List.length_pos_iff.1 (by omega)
    obtain ⟨opened'', habove', hlength'⟩ := habove.call hstill call
    refine ⟨opened'', ?_, ?_⟩
    · rwa [Context.afterCalls_concat]
    · rw [List.count_append, List.count_append]
      omega

end SymbolTable.Above

namespace TableCall

/-- **Leaving a frame restores the view from outside.** Whatever is done between the opening of a
frame and its leaving, the table afterwards looks like the one before.

What is done is a list of calls that is balanced: no beginning of it leaves more frames than it has
opened. A call may fail in the middle, and the next one is made all the same. -/
theorem afterCalls_restores (cx : Context) {calls : List TableCall} (h : Balanced calls) :
    cx.symbols.Restores (cx.afterCalls (enterScope :: (calls ++ [exitScope]))).symbols := by
  have hstart : cx.symbols.Above [.empty] (cx.afterCalls [enterScope]).symbols :=
    (SymbolTable.Above.refl cx.symbols).enterScope
  obtain ⟨opened, habove, hlength⟩ := hstart.afterCalls (List.cons_ne_nil _ _) h.inside
  have hone : opened.length = 1 := by
    have hmatched := h.matched
    rw [List.length_singleton] at hlength
    omega
  obtain ⟨opened', habove', hlength'⟩ :=
    habove.call (List.length_pos_iff.1 (by omega)) exitScope
  have hnone : opened' = [] := by
    rw [hone] at hlength'
    exact List.length_eq_zero_iff.1 (Nat.succ.inj hlength')
  rw [← Context.afterCalls_concat, hnone] at habove'
  exact habove'.restores

/-- Calls within a frame that give two names of the outside another meaning, one of them in a
further frame, and of which one fails. -/
def shadowing : List TableCall :=
  [.declare "a" .float, .declare "a" .int, .enterScope, .declare "c" .int, .declare "b" .double,
    .exitScope, .lookup "b", .declare "c" .char]

/-- A context with two variables in its only frame. -/
def twoVariables : Context :=
  Context.afterCalls ⟨.bare, "Main", {}, {}, {}⟩
    [.enterScope, .declare "a" .int, .declare "b" .long]

theorem afterCalls_restores_shadowing :
    Balanced shadowing ∧
    (twoVariables.afterCalls (enterScope :: shadowing)).symbols.lookup "a" = some ⟨2, .float⟩ ∧
    twoVariables.symbols.Restores
      (twoVariables.afterCalls (enterScope :: (shadowing ++ [exitScope]))).symbols ∧
    (twoVariables.afterCalls (enterScope :: (shadowing ++ [exitScope]))).symbols.lookup "a" =
      some ⟨0, .int⟩ ∧
    (twoVariables.afterCalls (enterScope :: (shadowing ++ [exitScope]))).symbols.slotCount = 5 := by
  have hbalanced : Balanced shadowing := by decide +kernel
  exact ⟨hbalanced, by decide +kernel, afterCalls_restores twoVariables hbalanced,
    by decide +kernel, by decide +kernel⟩

end TableCall

end StackUnits
