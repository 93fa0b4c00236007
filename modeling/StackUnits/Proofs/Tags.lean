import StackUnits.Proofs.Execution
import StackUnits.Proofs.Tables

/-!
# Runs without values

The stack machine as far as representations go: a state has the representation of each value on
the stack and in each variable that is set, but not the value. What depends on values can go
any way: a conditional jump is taken or not, and a division has a result of its family
(`StackUnits.Tags.State.move`). A state where an instruction does not find what it needs is
**stuck**, and so is one past the end of the code. Reading a variable that is not set is kept
apart from that: such runs exist, and they only end.

Runs of code are kept in order by a **certificate**, a list of stacks for the labels of the
code. `StackUnits.Tags.Fits` says what each instruction asks of the stack before it and what
stack is left for the instruction after it, if control can get there at all;
`StackUnits.Tags.Flows` goes through a piece of code in this way, from top to bottom. Only at
labels does control come from elsewhere, and there the certificate says with which stack. A
unit whose code flows never gets stuck (`StackUnits.Tags.Sound.of_reachable`).
-/

namespace StackUnits

/-! ### Signatures -/

/-- The representation of a field, by its signature. -/
def MemberRef.fieldKind? (field : MemberRef) : Option SlotKind :=
  match argumentKinds false (field.descriptor.toList ++ [')', 'V']) with
  | some [kind] => some kind
  | _ => none

/-- What a call takes from the stack below its arguments. -/
def InvokeKind.receiver : InvokeKind → List SlotKind
  | .static => []
  | .virtual | .special => [.reference]

/-- **What a call takes from the stack**, the top first: its arguments from last to first, and
the object that it is for. -/
def MemberRef.taken? (method : MemberRef) (kind : InvokeKind) : Option (List SlotKind) :=
  method.arguments?.map fun arguments => arguments.reverse ++ kind.receiver

namespace Tags

/-! ### Moves -/

/-- The representations of the variables that are set. -/
abbrev Locals := UInt16 → Option SlotKind

/-- **A state, without values.** -/
structure State where
  pc : Nat
  stack : List SlotKind
  locals : Locals

/-- The state at the start of a run. -/
def State.start : State :=
  ⟨0, [], fun _ => none⟩

/-- What can happen in a state. -/
inductive Move
  | next (states : List State)
  | ends
  | unset
  | stuck

namespace State

/-- Go on with the next instruction and another stack. -/
def goOn (s : State) (stack : List SlotKind) : State :=
  { s with pc := s.pc + 1, stack := stack }

/-- Go on at a label, or where else control may go. -/
def goTo (s : State) (offsets : List (Label × Nat)) (target : Label) (stack : List SlotKind)
    (others : List State) : Move :=
  match offsets.lookup target with
  | some pc => .next ({ s with pc := pc, stack := stack } :: others)
  | none => .stuck

/-- **What an instruction can do.** -/
def move (offsets : List (Label × Nat)) (s : State) : Instruction → Move
  | .push constant => .next [s.goOn (constant.toValue.kind :: s.stack)]
  | .dup =>
    match s.stack with
    | kind :: rest => .next [s.goOn (kind :: kind :: rest)]
    | [] => .stuck
  | .load kind slot =>
    match s.locals slot with
    | none => .unset
    | some found => if found = kind then .next [s.goOn (kind :: s.stack)] else .stuck
  | .store kind slot =>
    match s.stack with
    | top :: rest =>
      if top = kind then
        .next [⟨s.pc + 1, rest, fun other => if other = slot then some kind else s.locals other⟩]
      else .stuck
    | [] => .stuck
  | .arith _ family =>
    match s.stack with
    | right :: left :: rest =>
      if right = family.slotKind ∧ left = family.slotKind then
        .next [s.goOn (family.slotKind :: rest)]
      else .stuck
    | _ => .stuck
  | .convert conversion =>
    match s.stack with
    | kind :: rest =>
      match conversion.result? kind with
      | some kind' => .next [s.goOn (kind' :: rest)]
      | none => .stuck
    | [] => .stuck
  | .jumpIf _ target =>
    match s.stack with
    | .int :: rest => s.goTo offsets target rest [s.goOn rest]
    | _ => .stuck
  | .jump target => s.goTo offsets target s.stack []
  | .label _ => .next [s.goOn s.stack]
  | .new _ => .next [s.goOn (.reference :: s.stack)]
  | .getStatic field =>
    match field.fieldKind? with
    | some kind => .next [s.goOn (kind :: s.stack)]
    | none => .stuck
  | .invoke kind method =>
    match method.taken? kind with
    | some taken =>
      if s.stack.take taken.length = taken then .next [s.goOn (s.stack.drop taken.length)]
      else .stuck
    | none => .stuck
  | .throw =>
    match s.stack with
    | .reference :: _ => .ends
    | _ => .stuck
  | .ret => .ends

end State

end Tags

/-- What can happen in a state of a run of a unit. -/
def CodeUnit.tagMove (unit : CodeUnit) (s : Tags.State) : Tags.Move :=
  match unit.instructions[s.pc]? with
  | some instr => s.move unit.labelOffsets instr
  | none => .stuck

/-- **The states that runs of a unit come to**, however the conditions turn out. -/
inductive CodeUnit.TagReachable (unit : CodeUnit) : Tags.State → Prop
  | start : TagReachable unit .start
  | move {s states s'} (h : TagReachable unit s) (hmove : unit.tagMove s = .next states)
      (hmem : s' ∈ states) : TagReachable unit s'

namespace Tags

/-! ### Certificates -/

/-- **The variable of a slot** has this representation. -/
def Holds (table : SymbolTable) (slot : UInt16) (kind : SlotKind) : Prop :=
  ∃ name info, table.lookup name = some info ∧ info.slot = slot ∧ info.type.slotKind? = some kind

/-- In a table that separates names, a slot has one representation. Without that, a slot could be
set for one variable and read for another. -/
theorem Holds.unique {table : SymbolTable} {slot : UInt16} {kind kind' : SlotKind}
    (hsep : table.Separates) (h : Holds table slot kind) (h' : Holds table slot kind') :
    kind = kind' := by
  obtain ⟨name, info, hlookup, rfl, hkind⟩ := h
  obtain ⟨name', info', hlookup', hslot, hkind'⟩ := h'
  obtain rfl := hsep hlookup' hlookup hslot
  cases hlookup.symm.trans hlookup'
  exact Option.some.inj (hkind.symm.trans hkind')

/-- **What an instruction asks for and what it leaves**: the stack before it and the stack
after it, or `none` where control does not get to. A label is reached with the stack that
the certificate `labels` has for it. -/
inductive Fits (labels : List (Label × List SlotKind)) (table : SymbolTable) :
    Option (List SlotKind) → Instruction → Option (List SlotKind) → Prop
  | push {constant stack} :
      Fits labels table (some stack) (.push constant) (some (constant.toValue.kind :: stack))
  | dup {kind stack} :
      Fits labels table (some (kind :: stack)) .dup (some (kind :: kind :: stack))
  | load {kind slot stack} (h : Holds table slot kind) :
      Fits labels table (some stack) (.load kind slot) (some (kind :: stack))
  | store {kind slot stack} (h : Holds table slot kind) :
      Fits labels table (some (kind :: stack)) (.store kind slot) (some stack)
  | arith {op family stack} :
      Fits labels table (some (family.slotKind :: family.slotKind :: stack)) (.arith op family)
        (some (family.slotKind :: stack))
  | convert {conversion kind kind' stack} (h : conversion.result? kind = some kind') :
      Fits labels table (some (kind :: stack)) (.convert conversion) (some (kind' :: stack))
  | jumpIf (test) {target stack} (h : (target, stack) ∈ labels) :
      Fits labels table (some (.int :: stack)) (.jumpIf test target) (some stack)
  | jump {target stack} (h : (target, stack) ∈ labels) :
      Fits labels table (some stack) (.jump target) none
  | label {before place stack} (h : (place, stack) ∈ labels)
      (hbefore : before = none ∨ before = some stack) :
      Fits labels table before (.label place) (some stack)
  | new {cls stack} : Fits labels table (some stack) (.new cls) (some (.reference :: stack))
  | getStatic {field kind stack} (h : field.fieldKind? = some kind) :
      Fits labels table (some stack) (.getStatic field) (some (kind :: stack))
  | invoke {kind method taken stack} (h : method.taken? kind = some taken) :
      Fits labels table (some (taken ++ stack)) (.invoke kind method) (some stack)
  | throw {stack} : Fits labels table (some (.reference :: stack)) .throw none
  | ret : Fits labels table (some []) .ret none

/-- **A piece of code flows** from a stack before it to a stack after it. -/
inductive Flows (labels : List (Label × List SlotKind)) (table : SymbolTable) :
    Option (List SlotKind) → List Instruction → Option (List SlotKind) → Prop
  | nil {stack} : Flows labels table stack [] stack
  | cons {before between after instr code} (h : Fits labels table before instr between)
      (hrest : Flows labels table between code after) :
      Flows labels table before (instr :: code) after

variable {labels : List (Label × List SlotKind)} {table : SymbolTable}
  {before between after : Option (List SlotKind)} {code code' : List Instruction}
  {instr : Instruction} {unit : CodeUnit} {s : State}

theorem Flows.one (h : Fits labels table before instr after) :
    Flows labels table before [instr] after :=
  .cons h .nil

/-- Code flows piece by piece. -/
theorem Flows.append (h : Flows labels table before code between)
    (h' : Flows labels table between code' after) :
    Flows labels table before (code ++ code') after := by
  induction h with
  | nil => exact h'
  | cons hfits _ ih => exact .cons hfits (ih h')

/-- And code that flows does so through every place in it. -/
theorem Flows.split (h : Flows labels table before (code ++ code') after) :
    ∃ between, Flows labels table before code between ∧ Flows labels table between code' after := by
  induction code generalizing before with
  | nil => exact ⟨before, .nil, h⟩
  | cons instr code ih =>
    cases h with
    | cons hfits hrest =>
      obtain ⟨between, hleft, hright⟩ := ih hrest
      exact ⟨between, .cons hfits hleft, hright⟩

/-! ### Safety -/

/-- **A unit with a certificate**: it has a stack for each label of the unit, and all of the
code flows, up to where no control gets to. -/
structure Certifies (labels : List (Label × List SlotKind)) (table : SymbolTable)
    (unit : CodeUnit) : Prop where
  checked : unit.checkLabels = .ok ()
  separates : table.Separates
  places : labels.map Prod.fst = CodeUnit.placements unit.instructions
  flows : Flows labels table (some []) unit.instructions none

/-- **A state that fits the certificate**: the rest of the code flows from its stack, and its
variables are represented as the table says. -/
structure Sound (labels : List (Label × List SlotKind)) (table : SymbolTable) (unit : CodeUnit)
    (s : State) : Prop where
  flows : ∃ code, unit.HasAt s.pc code ∧ Flows labels table (some s.stack) code none
  locals : ∀ {slot kind kind'}, s.locals slot = some kind → Holds table slot kind' → kind = kind'

/-- Nothing goes wrong, and a property holds wherever control goes to. -/
def Move.Keeps (P : State → Prop) : Move → Prop
  | .next states => ∀ s ∈ states, P s
  | .ends | .unset => True
  | .stuck => False

theorem Sound.start (h : Certifies labels table unit) : Sound labels table unit .start where
  flows := ⟨unit.instructions, ⟨[], [], (List.append_nil _).symm, rfl⟩, h.flows⟩
  locals := nofun

/-- **A jump lands** where the code flows from the stack of the label. Behind the label it flows to
the end of the unit, since it does so from the start. -/
theorem Certifies.lands (h : Certifies labels table unit) {target : Label}
    {stack : List SlotKind} (hmem : (target, stack) ∈ labels) :
    ∃ pc code, unit.labelOffsets.lookup target = some pc ∧ unit.HasAt pc code ∧
      Flows labels table (some stack) code none := by
  have hplaced : target ∈ CodeUnit.placements unit.instructions :=
    h.places ▸ List.mem_map_of_mem hmem
  obtain ⟨instr, hinstr, hlabel⟩ := List.mem_filterMap.1 hplaced
  obtain rfl : instr = .label target := by
    cases instr <;> simp_all [Instruction.placed?]
  obtain ⟨front, rest, heq⟩ := List.append_of_mem hinstr
  have hat : unit.HasAt front.length (.label target :: rest) :=
    ⟨front, [], by rw [heq, List.append_nil], rfl⟩
  have hflows := h.flows
  rw [heq] at hflows
  -- The code flows up to the label and from there; the certificate has one stack for it.
  obtain ⟨between, -, hfrom⟩ := hflows.split
  cases hfrom with
  | cons hfits hrest =>
    cases hfits with
    | label hmem' _ =>
      have hnodup : (labels.map Prod.fst).Nodup :=
        h.places ▸ (CodeUnit.checkLabels_eq_ok.1 h.checked).1
      cases List.inj_on_of_nodup_map hnodup hmem hmem' rfl
      exact ⟨front.length, _, hat.label h.checked, hat, .cons (.label hmem (.inr rfl)) hrest⟩

namespace Sound

theorem goOn (h : Sound labels table unit s) (hat : unit.HasAt s.pc (instr :: code))
    {stack : List SlotKind} (hflows : Flows labels table (some stack) code none) :
    Sound labels table unit (s.goOn stack) :=
  ⟨⟨code, hat.tail, hflows⟩, h.locals⟩

/-- A jump to a label with its stack. -/
theorem goTo (h : Sound labels table unit s) (hcert : Certifies labels table unit)
    {target : Label} {stack : List SlotKind} (hmem : (target, stack) ∈ labels)
    {others : List State} (hothers : ∀ s' ∈ others, Sound labels table unit s') :
    (s.goTo unit.labelOffsets target stack others).Keeps (Sound labels table unit) := by
  obtain ⟨pc, code, hlookup, hat, hflows⟩ := hcert.lands hmem
  rw [State.goTo, hlookup]
  rintro s' (_ | ⟨_, hmem⟩)
  · exact ⟨⟨code, hat, hflows⟩, h.locals⟩
  · exact hothers s' hmem

/-- A variable is set to what its slot is for. Other slots keep what they have, and the slot itself
has one representation only. -/
theorem store (h : Sound labels table unit s) (hsep : table.Separates)
    (hat : unit.HasAt s.pc (instr :: code)) {stack : List SlotKind} {slot : UInt16}
    {kind : SlotKind} (hholds : Holds table slot kind)
    (hflows : Flows labels table (some stack) code none) :
    Sound labels table unit
      ⟨s.pc + 1, stack, fun other => if other = slot then some kind else s.locals other⟩ where
  flows := ⟨code, hat.tail, hflows⟩
  locals := by
    intro other found kind' hfound hother
    simp only at hfound
    split at hfound
    · rename_i heq
      subst heq
      cases hfound
      exact hholds.unique hsep hother
    · exact h.locals hfound hother

/-- **An instruction of a certified unit** does not get stuck, and leads to states that fit the
certificate. By cases on the instruction; what it finds on the stack is what the certificate
says. -/
theorem keeps_move (h : Sound labels table unit s) (hcert : Certifies labels table unit)
    (hat : unit.HasAt s.pc (instr :: code))
    (hfits : Fits labels table (some s.stack) instr after)
    (hflows : Flows labels table after code none) :
    (s.move unit.labelOffsets instr).Keeps (Sound labels table unit) := by
  generalize hstack : some s.stack = before at hfits
  -- Most instructions lead to the next one only.
  have hgo : ∀ {stack}, after = some stack →
      ∀ s' ∈ [s.goOn stack], Sound labels table unit s' := by
    rintro stack rfl s' (_ | ⟨_, ⟨⟩⟩)
    exact h.goOn hat hflows
  cases hfits with
  | push | new =>
    cases hstack
    exact hgo rfl
  | label hmem hbefore =>
    subst hstack
    rcases hbefore with hnone | hsame
    · cases hnone
    · cases hsame
      exact hgo rfl
  | dup =>
    simp only [State.move, Option.some.inj hstack]
    exact hgo rfl
  | load hholds =>
    cases hstack
    simp only [State.move]
    rcases hlocal : s.locals _ with _ | found
    -- A variable that is not set ends the run.
    · trivial
    · simp only [h.locals hlocal hholds, if_true]
      exact hgo rfl
  | store hholds =>
    simp only [State.move, Option.some.inj hstack, if_true]
    rintro s' (_ | ⟨_, ⟨⟩⟩)
    exact h.store hcert.separates hat hholds hflows
  | arith =>
    simp only [State.move, Option.some.inj hstack, and_self, if_true]
    exact hgo rfl
  | convert hresult =>
    simp only [State.move, Option.some.inj hstack, hresult]
    exact hgo rfl
  | jumpIf _ hmem =>
    simp only [State.move, Option.some.inj hstack]
    exact h.goTo hcert hmem (hgo rfl)
  | jump hmem =>
    cases hstack
    exact h.goTo hcert hmem nofun
  | getStatic hkind =>
    cases hstack
    simp only [State.move, hkind]
    exact hgo rfl
  | invoke htaken =>
    simp only [State.move, htaken, Option.some.inj hstack, List.take_left, List.drop_left, if_true]
    exact hgo rfl
  | throw =>
    simp only [State.move, Option.some.inj hstack]
    trivial
  | ret => trivial

/-- **A certified unit does not get stuck**, from a state that fits the certificate. The instruction
at the place of the state is the one that the certificate goes on with there. -/
theorem keeps_tagMove (h : Sound labels table unit s) (hcert : Certifies labels table unit) :
    (unit.tagMove s).Keeps (Sound labels table unit) := by
  obtain ⟨code, hat, hflows⟩ := h.flows
  cases hflows with
  | cons hfits hrest =>
    rw [CodeUnit.tagMove, hat.head]
    exact h.keeps_move hcert hat hfits hrest

/-- Where a certified unit returns, the stack is empty: a certificate allows a return only then. -/
theorem stack_eq_nil (h : Sound labels table unit s)
    (hret : unit.instructions[s.pc]? = some .ret) : s.stack = [] := by
  obtain ⟨code, hat, hflows⟩ := h.flows
  cases hflows with
  | cons hfits hrest =>
    cases hat.head.symm.trans hret
    generalize hstack : some s.stack = before at hfits
    cases hfits
    exact Option.some.inj hstack

/-- **Every state that a certified unit comes to fits the certificate.** By induction on the run,
with one step at a time. -/
theorem of_reachable (hcert : Certifies labels table unit) (h : unit.TagReachable s) :
    Sound labels table unit s := by
  induction h with
  | start => exact .start hcert
  | move _ hmove hmem ih =>
    have hkeeps := ih.keeps_tagMove hcert
    rw [hmove] at hkeeps
    exact hkeeps _ hmem

end Sound

end Tags

end StackUnits
