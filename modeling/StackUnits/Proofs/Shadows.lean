import StackUnits.Proofs.Walks

/-!
# Runs are walks

A run of a unit has a **shadow**: the walk that takes the same instructions, has as many values
on the stack, and has set the same slots. So what holds of all walks holds of all runs, be they
runs of the machine or runs without values (`StackUnits.CodeUnit.Shadow`).

The other way there is less to say, since a walk reads a variable that is not set and a run ends
there. Up to that point a walk is a run without values: if no run comes to a variable that is not
set, all walks are shadows (`StackUnits.Tags.exists_reachable_of_walks`).
-/

namespace StackUnits

namespace CodeUnit

variable {unit : CodeUnit} {pc pc' height height' : Nat} {stored : List UInt16}
  {instr : Instruction} {set set' : UInt16 → Prop}

/-! ### Steps -/

/-- In a unit that passed its check, a jump goes to a place where its label stands. The table of
labels alone would not say that. -/
theorem label_of_lookup (hlabels : unit.checkLabels = .ok ())
    (hinstr : unit.instructions[pc]? = some instr) {target : Label}
    (htarget : instr.target? = some target)
    (hlookup : unit.labelOffsets.lookup target = some pc') :
    unit.instructions[pc']? = some (.label target) := by
  have htargets : target ∈ targets unit.instructions :=
    List.mem_filterMap.2 ⟨instr, List.mem_of_getElem? hinstr, htarget⟩
  obtain ⟨i, hi⟩ := mem_placements_iff.1 ((checkLabels_eq_ok.1 hlabels).2 target htargets)
  have hsame := lookup_labelOffsets hlabels hi
  rw [hlookup] at hsame
  cases hsame
  exact hi

/-- **One step of a walk**, by what it does to the height of the stack and to the slots that are
set. -/
def Moves (unit : CodeUnit) (pc height : Nat) (set : UInt16 → Prop) (pc' height' : Nat)
    (set' : UInt16 → Prop) : Prop :=
  ∃ instr, unit.instructions[pc]? = some instr ∧ instr.Shifts height height' ∧
    (∀ slot, set' slot ↔ instr.stored? = some slot ∨ set slot) ∧
    (instr.goesOn = true ∧ pc' = pc + 1 ∨ ∃ target, instr.target? = some target ∧
      unit.instructions[pc']? = some (.label target))

/-- A step that only changes the stack. -/
theorem Moves.goOn (hinstr : unit.instructions[pc]? = some instr) (hgoes : instr.goesOn = true)
    (hstored : instr.stored? = none) (hshift : instr.Shifts height height') :
    unit.Moves pc height set (pc + 1) height' set := by
  refine ⟨instr, hinstr, hshift, fun slot => ?_, .inl ⟨hgoes, rfl⟩⟩
  simp [hstored]

theorem Moves.goTo (hlabels : unit.checkLabels = .ok ())
    (hinstr : unit.instructions[pc]? = some instr) {target : Label}
    (htarget : instr.target? = some target)
    (hlookup : unit.labelOffsets.lookup target = some pc')
    (hshift : instr.Shifts height height') : unit.Moves pc height set pc' height' set := by
  have hplace := label_of_lookup hlabels hinstr htarget hlookup
  refine ⟨instr, hinstr, hshift, fun slot => ?_, .inr ⟨target, htarget, hplace⟩⟩
  simp [Instruction.stored?_of_target? htarget]

/-- A step that sets a slot. -/
theorem Moves.store {α : Type} {kind : SlotKind} {slot : UInt16} {locals : UInt16 → Option α}
    {v : α} (hinstr : unit.instructions[pc]? = some (.store kind slot)) :
    unit.Moves pc (height + 1) (locals · ≠ none) (pc + 1) height
      (fun other => (if other = slot then some v else locals other) ≠ none) := by
  refine ⟨_, hinstr, ⟨1, height, rfl, rfl, rfl⟩, fun other => ?_, .inl ⟨rfl, rfl⟩⟩
  by_cases heq : other = slot
  · simp [Instruction.stored?, heq]
  · simp [Instruction.stored?, heq, Ne.symm heq]

/-- **What a run and its shadow have in common.** -/
def Shadow (unit : CodeUnit) (pc height : Nat) (set : UInt16 → Prop) : Prop :=
  ∃ stored, unit.Walks pc height stored ∧ ∀ slot, slot ∈ stored ↔ set slot

theorem Shadow.start (h : ∀ slot, ¬set slot) : unit.Shadow 0 0 set :=
  ⟨[], .start, fun slot => ⟨nofun, fun hset => (h slot hset).elim⟩⟩

/-- A shadow goes on with every step of a walk. -/
theorem Shadow.moves (h : unit.Shadow pc height set)
    (hmoves : unit.Moves pc height set pc' height' set') : unit.Shadow pc' height' set' := by
  obtain ⟨stored, hwalk, hset⟩ := h
  obtain ⟨instr, hinstr, hshift, hset', ⟨hgoes, rfl⟩ | ⟨target, htarget, hplace⟩⟩ := hmoves
  · refine ⟨_, hwalk.next hinstr hgoes hshift, fun slot => ?_⟩
    rw [List.mem_append, Option.mem_toList, hset, hset']
  · refine ⟨stored, hwalk.jump hinstr htarget hshift hplace, fun slot => ?_⟩
    rw [hset, hset', Instruction.stored?_of_target? htarget]
    simp

/-- A shadow that comes to a variable that is not set. -/
theorem Shadow.readsUnset (h : unit.Shadow pc height set) {kind : SlotKind} {slot : UInt16}
    (hinstr : unit.instructions[pc]? = some (.load kind slot)) (hunset : ¬set slot) :
    unit.ReadsUnset slot := by
  obtain ⟨stored, hwalk, hset⟩ := h
  exact ⟨pc, height, stored, kind, hwalk, hinstr, fun hmem => hunset ((hset slot).1 hmem)⟩

end CodeUnit

/-! ### Runs of the machine -/

namespace Machine

variable {floats : Floats} {unit : CodeUnit} {s s' : State} {effects : List Effect}

/-- A slot that is set. -/
def State.IsSet (s : State) (slot : UInt16) : Prop :=
  s.locals slot ≠ none

/-- How many values a routine takes from the stack. -/
def Routine.arity : Routine → Nat
  | .sleep | .initObject | .startThread => 1
  | .println | .initError | .initThread => 2

/-- What a routine takes from the stack; the line printer goes by the signature of the method. The
lengths are enough here, and the values do not matter. -/
theorem Routine.length_of_run {method : MemberRef} {routine : Routine} {stack stack' : List Value}
    {heap heap' : Heap} (h : routine.run method stack heap = some (effects, stack', heap')) :
    stack.length = stack'.length + routine.arity ∧
      (routine = .println → ∃ kind, method.arguments? = some [kind]) := by
  cases routine with
  | println =>
    simp only [run] at h
    split at h
    · split at h <;> cases h
      rename_i hargs
      exact ⟨rfl, fun _ => ⟨_, hargs⟩⟩
    · cases h
  | sleep =>
    simp only [run] at h
    split at h <;> cases h
    exact ⟨rfl, by rintro ⟨⟩⟩
  | initObject | initError | initThread =>
    simp only [run] at h
    split at h
    · split at h <;> cases h
      exact ⟨rfl, by rintro ⟨⟩⟩
    · cases h
  | startThread =>
    simp only [run] at h
    split at h
    · obtain ⟨task, -, htask⟩ := Option.map_eq_some_iff.1 h
      cases htask
      exact ⟨rfl, by rintro ⟨⟩⟩
    · cases h

/-- **A routine takes from the stack what the signature of its method says.** The machine goes by
the routine and the walk by the signature, so this is where the two are tied together. -/
theorem takes?_of_routine? {kind : InvokeKind} {method : MemberRef} {routine : Routine}
    (h : routine? kind method = some routine)
    (hprintln : routine = .println → ∃ kind, method.arguments? = some [kind]) :
    (Instruction.invoke kind method).takes? = some routine.arity := by
  obtain ⟨owner, name, descriptor⟩ := method
  unfold routine? at h
  split_ifs at h with hinit hprint hsleep herror hthread hstart
  · obtain ⟨rfl, rfl, rfl⟩ := hinit
    cases h
    exact Code.takes?_init owner
  · obtain ⟨rfl, -⟩ := hprint
    cases h
    obtain ⟨kind, hargs⟩ := hprintln rfl
    rw [Instruction.takes?, MemberRef.taken?, hargs]
    rfl
  · obtain ⟨rfl, ⟨⟩⟩ := hsleep
    cases h
    rfl
  · obtain ⟨rfl, ⟨⟩⟩ := herror
    cases h
    rfl
  · obtain ⟨rfl, ⟨⟩⟩ := hthread
    cases h
    rfl
  · obtain ⟨rfl, ⟨⟩⟩ := hstart
    cases h
    rfl

/-- **A step of the machine is a step of a walk**, from the height of its stack and the slots that
are set. By cases on the instruction. -/
theorem moves_of_step (hlabels : unit.checkLabels = .ok ())
    (h : step floats unit s = .next effects s') :
    unit.Moves s.pc s.stack.length s.IsSet s'.pc s'.stack.length s'.IsSet := by
  unfold step at h
  split at h
  case h_2 => cases h
  case h_1 instr hinstr =>
    obtain ⟨pc, stack, locals, heap⟩ := s
    cases instr with
    | push | label | new =>
      cases h
      exact .goOn hinstr rfl rfl ⟨0, _, rfl, rfl, rfl⟩
    | dup =>
      rcases stack with _ | ⟨v, rest⟩ <;> cases h
      exact .goOn hinstr rfl rfl ⟨1, rest.length, rfl, rfl, rfl⟩
    | load kind slot =>
      simp only [State.perform] at h
      split at h
      · cases h
      · split at h <;> cases h
        exact .goOn hinstr rfl rfl ⟨0, _, rfl, rfl, rfl⟩
    | store kind slot =>
      rcases stack with _ | ⟨v, rest⟩
      · cases h
      · simp only [State.perform] at h
        split at h <;> cases h
        exact .store hinstr
    | arith op family =>
      rcases stack with _ | ⟨b, _ | ⟨a, rest⟩⟩
      · cases h
      · cases h
      · simp only [State.perform] at h
        split at h <;> cases h
        exact .goOn hinstr rfl rfl ⟨2, rest.length, rfl, rfl, rfl⟩
    | convert conversion =>
      rcases stack with _ | ⟨v, rest⟩
      · cases h
      · simp only [State.perform] at h
        split at h <;> cases h
        exact .goOn hinstr rfl rfl ⟨1, rest.length, rfl, rfl, rfl⟩
    | jumpIf test target =>
      simp only [State.perform] at h
      split at h
      · rename_i n rest
        split at h
        · unfold State.goTo at h
          split at h
          · rename_i pc' hlookup
            cases h
            exact .goTo hlabels hinstr rfl hlookup ⟨1, rest.length, rfl, rfl, rfl⟩
          · cases h
        · cases h
          exact .goOn hinstr rfl rfl ⟨1, rest.length, rfl, rfl, rfl⟩
      · cases h
    | jump target =>
      simp only [State.perform, State.goTo] at h
      split at h
      · rename_i pc' hlookup
        cases h
        exact .goTo hlabels hinstr rfl hlookup ⟨0, _, rfl, rfl, rfl⟩
      · cases h
    | getStatic field =>
      simp only [State.perform] at h
      split at h <;> cases h
      exact .goOn hinstr rfl rfl ⟨0, _, rfl, rfl, rfl⟩
    | invoke kind method =>
      simp only [State.perform] at h
      split at h
      · cases h
      · rename_i routine hroutine
        split at h
        · cases h
        · rename_i hrun
          cases h
          obtain ⟨hlength, hprintln⟩ := Routine.length_of_run hrun
          have htakes := takes?_of_routine? hroutine hprintln
          exact .goOn hinstr rfl rfl ⟨_, _, htakes, hlength, rfl⟩
    | throw =>
      simp only [State.perform] at h
      split at h
      · split at h <;> cases h
      · cases h
    | ret => cases h

/-- **A run of the machine has a shadow**, by induction on its steps. So what holds of all walks
holds of all runs, also of those that do not end. -/
theorem Leads.shadow {n : Nat} (hlabels : unit.checkLabels = .ok ())
    (h : Leads floats unit n s effects (.ok s')) (hs : unit.Shadow s.pc s.stack.length s.IsSet) :
    unit.Shadow s'.pc s'.stack.length s'.IsSet := by
  generalize hresult : Except.ok s' = result at h
  induction h with
  | here =>
    cases hresult
    exact hs
  | ends => cases hresult
  | next hstep _ ih => exact ih (hs.moves (moves_of_step hlabels hstep)) hresult

/-- The one way in which arithmetic ends a run. Floating-point arithmetic never does. -/
theorem eq_dividedByZero_of_run {op : ArithOp} {family : Family} {a b : Value} {ending : Ending}
    (h : op.run floats family a b = some (.error ending)) : ending = .dividedByZero := by
  have hint : ∀ {m n : Int32}, op.int32 m n = .error ending → ending = .dividedByZero := by
    intro m n hmn
    cases op <;> simp only [ArithOp.int32] at hmn <;> grind
  have hlong : ∀ {m n : Int64}, op.int64 m n = .error ending → ending = .dividedByZero := by
    intro m n hmn
    cases op <;> simp only [ArithOp.int64] at hmn <;> grind
  unfold ArithOp.run at h
  split at h
  · rename_i m n
    rcases hrun : op.int32 m n with e | v <;> rw [hrun] at h <;> cases h
    exact hint hrun
  · rename_i m n
    rcases hrun : op.int64 m n with e | v <;> rw [hrun] at h <;> cases h
    exact hlong hrun
  all_goals cases h

/-- **A run comes to an unassigned variable** only where it reads one. All other endings of a step
are different ones. -/
theorem load_of_step (h : step floats unit s = .ends .unassigned) :
    ∃ kind slot, unit.instructions[s.pc]? = some (.load kind slot) ∧ ¬s.IsSet slot := by
  unfold step at h
  split at h
  case h_2 => cases h
  case h_1 instr hinstr =>
    cases instr with
    | load kind slot =>
      simp only [State.perform] at h
      split at h
      · rename_i hnone
        exact ⟨kind, slot, hinstr, fun hset => hset hnone⟩
      · split at h <;> cases h
    | arith op family =>
      simp only [State.perform] at h
      split at h
      · split at h
        · cases h
        · rename_i hrun
          cases h
          cases eq_dividedByZero_of_run hrun
        · cases h
      · cases h
    | push | label | new | ret => cases h
    | dup =>
      simp only [State.perform] at h
      split at h <;> cases h
    | store | convert | throw =>
      simp only [State.perform] at h
      split at h
      · split at h <;> cases h
      · cases h
    | getStatic =>
      simp only [State.perform] at h
      split at h <;> cases h
    | jump =>
      simp only [State.perform, State.goTo] at h
      split at h <;> cases h
    | jumpIf =>
      simp only [State.perform, State.goTo] at h
      split at h
      · split at h
        · split at h <;> cases h
        · cases h
      · cases h
    | invoke =>
      simp only [State.perform] at h
      split at h
      · cases h
      · split at h <;> cases h

end Machine

/-! ### Runs without values -/

namespace Tags

variable {unit : CodeUnit} {s s' : State} {states : List State}

/-- A slot that is set. -/
def State.IsSet (s : State) (slot : UInt16) : Prop :=
  s.locals slot ≠ none

/-- **A step of a run without values is a step of a walk.** Such a step may lead to several states,
and this holds for each of them. -/
theorem moves_of_tagMove (hlabels : unit.checkLabels = .ok ()) (h : unit.tagMove s = .next states)
    (hmem : s' ∈ states) :
    unit.Moves s.pc s.stack.length s.IsSet s'.pc s'.stack.length s'.IsSet := by
  unfold CodeUnit.tagMove at h
  split at h
  case h_2 => cases h
  case h_1 instr hinstr =>
    obtain ⟨pc, stack, locals⟩ := s
    cases instr with
    | push | label | new =>
      cases h
      cases List.mem_singleton.1 hmem
      exact .goOn hinstr rfl rfl ⟨0, _, rfl, rfl, rfl⟩
    | dup =>
      rcases stack with _ | ⟨kind, rest⟩ <;> cases h
      cases List.mem_singleton.1 hmem
      exact .goOn hinstr rfl rfl ⟨1, rest.length, rfl, rfl, rfl⟩
    | load kind slot =>
      simp only [State.move] at h
      split at h
      · cases h
      · split at h <;> cases h
        cases List.mem_singleton.1 hmem
        exact .goOn hinstr rfl rfl ⟨0, _, rfl, rfl, rfl⟩
    | store kind slot =>
      simp only [State.move] at h
      split at h
      · rename_i top rest
        split at h <;> cases h
        cases List.mem_singleton.1 hmem
        exact .store hinstr
      · cases h
    | arith op family =>
      simp only [State.move] at h
      split at h
      · rename_i right left rest
        split at h <;> cases h
        cases List.mem_singleton.1 hmem
        exact .goOn hinstr rfl rfl ⟨2, rest.length, rfl, rfl, rfl⟩
      · cases h
    | convert conversion =>
      simp only [State.move] at h
      split at h
      · rename_i kind rest
        split at h <;> cases h
        cases List.mem_singleton.1 hmem
        exact .goOn hinstr rfl rfl ⟨1, rest.length, rfl, rfl, rfl⟩
      · cases h
    | jumpIf test target =>
      simp only [State.move, State.goTo] at h
      split at h
      · rename_i rest
        split at h
        · rename_i pc' hlookup
          cases h
          rcases List.mem_cons.1 hmem with rfl | hmem
          · exact .goTo hlabels hinstr rfl hlookup ⟨1, rest.length, rfl, rfl, rfl⟩
          · cases List.mem_singleton.1 hmem
            exact .goOn hinstr rfl rfl ⟨1, rest.length, rfl, rfl, rfl⟩
        · cases h
      · cases h
    | jump target =>
      simp only [State.move, State.goTo] at h
      split at h
      · rename_i pc' hlookup
        cases h
        cases List.mem_singleton.1 hmem
        exact .goTo hlabels hinstr rfl hlookup ⟨0, _, rfl, rfl, rfl⟩
      · cases h
    | getStatic field =>
      simp only [State.move] at h
      split at h <;> cases h
      cases List.mem_singleton.1 hmem
      exact .goOn hinstr rfl rfl ⟨0, _, rfl, rfl, rfl⟩
    | invoke kind method =>
      simp only [State.move] at h
      split at h
      · rename_i taken htaken
        split at h <;> cases h
        rename_i htake
        cases List.mem_singleton.1 hmem
        have htakes : (Instruction.invoke kind method).takes? = some taken.length := by
          rw [Instruction.takes?, htaken]
          rfl
        -- What is taken is there, so the rest and what is taken are all of the stack.
        have hlength : stack.length = (stack.drop taken.length).length + taken.length := by
          have hle : (stack.take taken.length).length = taken.length := congrArg List.length htake
          rw [List.length_take] at hle
          rw [List.length_drop]
          omega
        exact .goOn hinstr rfl rfl ⟨_, _, htakes, hlength, rfl⟩
      · cases h
    | throw =>
      simp only [State.move] at h
      split at h <;> cases h
    | ret => cases h

/-- **A run without values has a shadow**, for the same reason. -/
theorem shadow_of_reachable (hlabels : unit.checkLabels = .ok ()) (h : unit.TagReachable s) :
    unit.Shadow s.pc s.stack.length s.IsSet := by
  induction h with
  | start => exact .start fun slot hset => hset rfl
  | move _ hmove hmem ih => exact ih.moves (moves_of_tagMove hlabels hmove hmem)

theorem load_of_tagMove (h : unit.tagMove s = .unset) :
    ∃ kind slot, unit.instructions[s.pc]? = some (.load kind slot) ∧ ¬s.IsSet slot := by
  unfold CodeUnit.tagMove at h
  split at h
  case h_2 => cases h
  case h_1 instr hinstr =>
    cases instr with
    | load kind slot =>
      simp only [State.move] at h
      split at h
      · rename_i hnone
        exact ⟨kind, slot, hinstr, fun hset => hset hnone⟩
      · split at h <;> cases h
    | push | label | new | ret => cases h
    | dup | throw =>
      simp only [State.move] at h
      split at h <;> cases h
    | store | arith | convert | invoke =>
      simp only [State.move] at h
      split at h
      · split at h <;> cases h
      · cases h
    | getStatic =>
      simp only [State.move] at h
      split at h <;> cases h
    | jump =>
      simp only [State.move, State.goTo] at h
      split at h <;> cases h
    | jumpIf =>
      simp only [State.move, State.goTo] at h
      split at h
      · split at h <;> cases h
      · cases h

/-- **A run without values goes wherever a walk goes**, unless it is stuck or comes to a variable
that is not set. Both go either way at a jump with a condition, so nothing is lost. -/
theorem exists_pc_of_moves (hlabels : unit.checkLabels = .ok ()) (hstuck : unit.tagMove s ≠ .stuck)
    (hunset : unit.tagMove s ≠ .unset) {pc' height' : Nat} {set' : UInt16 → Prop}
    (h : unit.Moves s.pc s.stack.length s.IsSet pc' height' set') :
    ∃ states s', unit.tagMove s = .next states ∧ s' ∈ states ∧ s'.pc = pc' := by
  obtain ⟨instr, hinstr, -, -, hway⟩ := h
  have hmove : unit.tagMove s = s.move unit.labelOffsets instr := by
    rw [CodeUnit.tagMove, hinstr]
  rw [hmove] at hstuck hunset ⊢
  rcases hway with ⟨hgoes, rfl⟩ | ⟨target, htarget, hplace⟩
  · -- On to the next instruction.
    cases instr with
    | push | label | new => exact ⟨_, _, rfl, List.mem_singleton_self _, rfl⟩
    | dup =>
      simp only [State.move] at hstuck ⊢
      split at hstuck
      · exact ⟨_, _, rfl, List.mem_singleton_self _, rfl⟩
      · exact (hstuck rfl).elim
    | load kind slot =>
      simp only [State.move] at hstuck hunset ⊢
      split at hstuck
      · rename_i hnone
        rw [hnone] at hunset
        exact (hunset rfl).elim
      · split at hstuck
        · rename_i hkind
          exact ⟨_, _, if_pos hkind, List.mem_singleton_self _, rfl⟩
        · exact (hstuck rfl).elim
    | store | arith | invoke =>
      simp only [State.move] at hstuck ⊢
      split at hstuck
      · split at hstuck
        · rename_i hkinds
          exact ⟨_, _, if_pos hkinds, List.mem_singleton_self _, rfl⟩
        · exact (hstuck rfl).elim
      · exact (hstuck rfl).elim
    | convert conversion =>
      simp only [State.move] at hstuck ⊢
      split at hstuck
      · split at hstuck
        · exact ⟨_, _, rfl, List.mem_singleton_self _, rfl⟩
        · exact (hstuck rfl).elim
      · exact (hstuck rfl).elim
    | getStatic field =>
      simp only [State.move] at hstuck ⊢
      split at hstuck
      · exact ⟨_, _, rfl, List.mem_singleton_self _, rfl⟩
      · exact (hstuck rfl).elim
    | jumpIf test target =>
      simp only [State.move, State.goTo] at hstuck ⊢
      split at hstuck
      · split at hstuck
        · exact ⟨_, _, rfl, List.mem_cons_of_mem _ (List.mem_singleton_self _), rfl⟩
        · exact (hstuck rfl).elim
      · exact (hstuck rfl).elim
    | jump | throw | ret => cases hgoes
  · -- To a label.
    have hlookup := CodeUnit.lookup_labelOffsets hlabels hplace
    cases instr with
    | jump =>
      cases htarget
      simp only [State.move, State.goTo, hlookup]
      exact ⟨_, _, rfl, List.mem_singleton_self _, rfl⟩
    | jumpIf =>
      cases htarget
      simp only [State.move, State.goTo, hlookup] at hstuck ⊢
      split at hstuck
      · exact ⟨_, _, rfl, List.mem_cons_self, rfl⟩
      · exact (hstuck rfl).elim
    | _ => cases htarget

/-- **A walk is a run without values**, if no such run gets stuck or comes to a variable that is not
set. By induction on the walk; the run has the height and the slots that the walk has. -/
theorem exists_reachable_of_walks (hlabels : unit.checkLabels = .ok ())
    (hgoes : ∀ s, unit.TagReachable s → unit.tagMove s ≠ .stuck ∧ unit.tagMove s ≠ .unset)
    {pc height : Nat} {stored : List UInt16} (h : unit.Walks pc height stored) :
    ∃ s, unit.TagReachable s ∧ s.pc = pc ∧ s.stack.length = height ∧
      ∀ slot, s.IsSet slot ↔ slot ∈ stored := by
  -- One more step of the walk is one more step of the run, to the same place.
  have hstep : ∀ {s pc' height' set'}, unit.TagReachable s →
      unit.Moves s.pc s.stack.length s.IsSet pc' height' set' →
      ∃ s', unit.TagReachable s' ∧ s'.pc = pc' ∧ s'.stack.length = height' ∧
        ∀ slot, s'.IsSet slot ↔ set' slot := by
    intro s pc' height' set' hs hmoves
    obtain ⟨hstuck, hunset⟩ := hgoes s hs
    obtain ⟨states, s', hmove, hmem, hpc⟩ := exists_pc_of_moves hlabels hstuck hunset hmoves
    obtain ⟨instr, hinstr, hshift, hset, -⟩ := hmoves
    obtain ⟨instr', hinstr', hshift', hset', -⟩ := moves_of_tagMove hlabels hmove hmem
    cases hinstr.symm.trans hinstr'
    refine ⟨s', hs.move hmove hmem, hpc, hshift'.unique hshift, fun slot => ?_⟩
    rw [hset, hset']
  induction h with
  | start => exact ⟨.start, .start, rfl, rfl, fun slot => ⟨fun hset => (hset rfl).elim, nofun⟩⟩
  | next _ hinstr hgo hshift ih =>
    obtain ⟨s, hs, rfl, rfl, hset⟩ := ih
    refine hstep hs ⟨_, hinstr, hshift, fun slot => ?_, .inl ⟨hgo, rfl⟩⟩
    rw [List.mem_append, Option.mem_toList, hset]
  | jump _ hinstr htarget hshift hplace ih =>
    obtain ⟨s, hs, rfl, rfl, hset⟩ := ih
    refine hstep hs ⟨_, hinstr, hshift, fun slot => ?_, .inr ⟨_, htarget, hplace⟩⟩
    rw [hset, Instruction.stored?_of_target? htarget]
    simp

end Tags

end StackUnits
