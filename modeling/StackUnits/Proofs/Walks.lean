import StackUnits.Proofs.Tags

/-!
# Walks through the code

A **walk** goes through the code of a unit from its first instruction on and looks at no value
at all: where a conditional jump stands it goes either way, and it reads a variable whether or
not that is set. What a walk keeps track of is how many values are on the stack and which slots
it has set (`StackUnits.CodeUnit.Walks`). Every run is a walk, and there are more walks than
runs; they are the paths of the control-flow graph.

Two questions are asked about walks. How high does the stack get
(`StackUnits.CodeUnit.Attains`)? Which variables are read without being set before
(`StackUnits.CodeUnit.ReadsUnset`)? Both are bounded by a **certificate**, as for
representations in `StackUnits.Proofs.Tags`: a list that has, for each label of the code, the
height of the stack there and names of variables that are set on every walk to it.
`StackUnits.Walk.Flows` goes through a piece of code from top to bottom with such a list. In a
unit whose code flows, no walk gets higher than the certificate allows
(`StackUnits.Walk.Certifies.le_of_attains`), and a variable that may be read before it is set is
one of those that the certificate sets free (`StackUnits.Walk.Certifies.free_of_readsUnset`).
-/

namespace StackUnits

/-! ### What a walk sees of an instruction -/

namespace Instruction

/-- How many values an instruction takes from the stack; a call, by its signature. -/
def takes? : Instruction → Option Nat
  | .push _ | .load _ _ | .jump _ | .label _ | .new _ | .getStatic _ | .ret => some 0
  | .dup | .store _ _ | .convert _ | .jumpIf _ _ | .throw => some 1
  | .arith _ _ => some 2
  | .invoke kind method => (method.taken? kind).map List.length

/-- How many values an instruction puts on the stack. -/
def leaves : Instruction → Nat
  | .dup => 2
  | .push _ | .load _ _ | .arith _ _ | .convert _ | .new _ | .getStatic _ => 1
  | _ => 0

/-- Whether control can go on with the next instruction. -/
def goesOn : Instruction → Bool
  | .jump _ | .throw | .ret => false
  | _ => true

/-- The slot that an instruction sets. -/
def stored? : Instruction → Option UInt16
  | .store _ slot => some slot
  | _ => none

/-- Whether all that an instruction does is done to the stack. -/
def isPlain : Instruction → Bool
  | .push _ | .dup | .arith _ _ | .convert _ | .new _ | .getStatic _ | .invoke _ _ => true
  | _ => false

/-- **What an instruction does to the height of the stack.** -/
def Shifts (instr : Instruction) (before after : Nat) : Prop :=
  ∃ taken rest, instr.takes? = some taken ∧ before = rest + taken ∧ after = rest + instr.leaves

variable {instr : Instruction} {before after after' taken : Nat}

theorem Shifts.eq_of_takes? (h : instr.Shifts before after) (htakes : instr.takes? = some taken) :
    before + instr.leaves = after + taken := by
  obtain ⟨taken', rest, htakes', rfl, rfl⟩ := h
  cases htakes.symm.trans htakes'
  omega

/-- The height after an instruction is known from the one before. -/
theorem Shifts.unique (h : instr.Shifts before after) (h' : instr.Shifts before after') :
    after = after' := by
  obtain ⟨taken, rest, htakes, rfl, rfl⟩ := h
  have heq := h'.eq_of_takes? htakes
  omega

theorem stored?_of_isPlain (h : instr.isPlain = true) : instr.stored? = none := by
  cases instr <;> first | rfl | cases h

theorem stored?_of_target? {target : Label} (h : instr.target? = some target) :
    instr.stored? = none := by
  cases instr <;> first | rfl | cases h

theorem target?_of_isPlain (h : instr.isPlain = true) : instr.target? = none := by
  cases instr <;> first | rfl | cases h

end Instruction

namespace Code

/-- A call that prints takes the value and the line printer, whatever the type of the value. -/
theorem takes?_println {type : OperandType} {descriptor : String}
    (h : type.printDescriptor? = some descriptor) : (println descriptor).takes? = some 2 := by
  cases type <;> cases h <;> rfl

/-- A constructor without arguments takes the new object. -/
theorem takes?_init (cls : String) :
    (Instruction.invoke .special ⟨cls, "<init>", "()V"⟩).takes? = some 1 := by
  simp [Instruction.takes?, MemberRef.taken?, MemberRef.arguments?, argumentKinds,
    InvokeKind.receiver]

end Code

/-! ### Walks -/

namespace CodeUnit

/-- **The places that walks come to**, with the height of the stack and the slots that have been
set on the way, the last one first. -/
inductive Walks (unit : CodeUnit) : Nat → Nat → List UInt16 → Prop
  | start : Walks unit 0 0 []
  | next {pc height height' stored instr} (h : Walks unit pc height stored)
      (hinstr : unit.instructions[pc]? = some instr) (hgoes : instr.goesOn = true)
      (hshift : instr.Shifts height height') :
      Walks unit (pc + 1) height' (instr.stored?.toList ++ stored)
  | jump {pc pc' height height' stored instr target} (h : Walks unit pc height stored)
      (hinstr : unit.instructions[pc]? = some instr) (htarget : instr.target? = some target)
      (hshift : instr.Shifts height height')
      (hplace : unit.instructions[pc']? = some (.label target)) : Walks unit pc' height' stored

/-- **A height that the stack has after an instruction**, on some walk. -/
def Attains (unit : CodeUnit) (height : Nat) : Prop :=
  ∃ pc before stored instr, unit.Walks pc before stored ∧
    unit.instructions[pc]? = some instr ∧ instr.Shifts before height

/-- **A slot that is read before it is set**, on some walk. -/
def ReadsUnset (unit : CodeUnit) (slot : UInt16) : Prop :=
  ∃ pc height stored kind, unit.Walks pc height stored ∧
    unit.instructions[pc]? = some (.load kind slot) ∧ slot ∉ stored

theorem exists_eq_append {unit : CodeUnit} {pc : Nat} {instr : Instruction}
    (h : unit.instructions[pc]? = some instr) :
    ∃ front rest, unit.instructions = front ++ instr :: rest ∧ front.length = pc := by
  obtain ⟨hlt, hget⟩ := List.getElem?_eq_some_iff.1 h
  refine ⟨unit.instructions.take pc, unit.instructions.drop (pc + 1), ?_, ?_⟩
  · rw [← hget, List.getElem_cons_drop, List.take_append_drop]
  · rw [List.length_take, Nat.min_eq_left (Nat.le_of_lt hlt)]

end CodeUnit

namespace Walk

/-! ### Certificates -/

/-- **What is known at a place of the code**: how high the stack is, and names of variables that
are set on every walk to it. -/
structure Point where
  height : Nat
  known : List String

/-- At a place where a point holds, the other one holds too. -/
def Point.Covers (p q : Point) : Prop :=
  p.height = q.height ∧ q.known ⊆ p.known

theorem Point.Covers.refl (p : Point) : p.Covers p :=
  ⟨rfl, List.Subset.refl _⟩

/-- **What a certificate is to show**: that the stack does not get higher than `top`, and that no
variable is read before it is set except those that are `free`. -/
structure Limits where
  table : SymbolTable
  top : Nat
  free : List String

/-- **What an instruction asks for and what it leaves**: the point before it and the point after
it, or `none` where control does not get to. -/
inductive Fits (limits : Limits) (labels : List (Label × Point)) :
    Option Point → Instruction → Option Point → Prop
  | plain {instr p height} (hplain : instr.isPlain = true) (hshift : instr.Shifts p.height height)
      (hle : height ≤ limits.top) :
      Fits limits labels (some p) instr (some ⟨height, p.known⟩)
  | load {kind name info p} (hinfo : limits.table.lookup name = some info)
      (hread : name ∈ p.known ∨ name ∈ limits.free) (hle : p.height + 1 ≤ limits.top) :
      Fits limits labels (some p) (.load kind info.slot) (some ⟨p.height + 1, p.known⟩)
  | store {kind name info height known known'} (hinfo : limits.table.lookup name = some info)
      (hsub : known' ⊆ name :: known) :
      Fits limits labels (some ⟨height + 1, known⟩) (.store kind info.slot)
        (some ⟨height, known'⟩)
  | jumpIf (test) {target height known q} (hmem : (target, q) ∈ labels)
      (hcovers : Point.Covers ⟨height, known⟩ q) :
      Fits limits labels (some ⟨height + 1, known⟩) (.jumpIf test target) (some ⟨height, known⟩)
  | jump {target p q} (hmem : (target, q) ∈ labels) (hcovers : p.Covers q) :
      Fits limits labels (some p) (.jump target) none
  | label {before place q} (hmem : (place, q) ∈ labels)
      (hbefore : ∀ p, before = some p → p.Covers q) :
      Fits limits labels before (.label place) (some q)
  | throw {height known} : Fits limits labels (some ⟨height + 1, known⟩) .throw none
  | ret {p} : Fits limits labels (some p) .ret none

/-- **A piece of code flows** from a point before it to a point after it. -/
inductive Flows (limits : Limits) (labels : List (Label × Point)) :
    Option Point → List Instruction → Option Point → Prop
  | nil {p} : Flows limits labels p [] p
  | cons {before between after instr code} (h : Fits limits labels before instr between)
      (hrest : Flows limits labels between code after) :
      Flows limits labels before (instr :: code) after

variable {limits : Limits} {labels : List (Label × Point)} {before between after : Option Point}
  {code code' : List Instruction} {instr : Instruction} {unit : CodeUnit} {pc height height' : Nat}
  {stored : List UInt16}

theorem Flows.one (h : Fits limits labels before instr after) :
    Flows limits labels before [instr] after :=
  .cons h .nil

/-- Code flows piece by piece. -/
theorem Flows.append (h : Flows limits labels before code between)
    (h' : Flows limits labels between code' after) :
    Flows limits labels before (code ++ code') after := by
  induction h with
  | nil => exact h'
  | cons hfits _ ih => exact .cons hfits (ih h')

theorem Flows.drop (h : Flows limits labels before (code ++ code') after) :
    ∃ between, Flows limits labels between code' after := by
  induction code generalizing before with
  | nil => exact ⟨before, h⟩
  | cons instr code ih =>
    cases h with
    | cons _ hrest => exact ih hrest

/-- **A unit with a certificate**: it has a point for each label of the unit, and all of the code
flows, up to where no control gets to. -/
structure Certifies (limits : Limits) (labels : List (Label × Point)) (unit : CodeUnit) :
    Prop where
  checked : unit.checkLabels = .ok ()
  places : labels.map Prod.fst = CodeUnit.placements unit.instructions
  flows : Flows limits labels (some ⟨0, []⟩) unit.instructions none

/-- **A place of a walk that fits the certificate**: the rest of the code flows from the height
that the stack has there, and what is known to be set has been set. -/
structure Sound (limits : Limits) (labels : List (Label × Point)) (unit : CodeUnit)
    (pc height : Nat) (stored : List UInt16) : Prop where
  flows : ∃ code known, unit.HasAt pc code ∧ Flows limits labels (some ⟨height, known⟩) code none ∧
    ∀ name ∈ known, ∀ info, limits.table.lookup name = some info → info.slot ∈ stored
  le : height ≤ limits.top

/-! ### Walks through certified code -/

/-- **A jump lands** where the code flows from the point of the label. The point is the same for all
jumps to the label, and says what they have in common. -/
theorem Certifies.lands (h : Certifies limits labels unit) {target : Label} {q : Point}
    (hmem : (target, q) ∈ labels) (hplace : unit.instructions[pc]? = some (.label target)) :
    ∃ code, unit.HasAt pc code ∧ Flows limits labels (some q) code none := by
  obtain ⟨front, rest, heq, hlength⟩ := CodeUnit.exists_eq_append hplace
  have hflows := h.flows
  rw [heq] at hflows
  obtain ⟨between, hfrom⟩ := hflows.drop
  cases hfrom with
  | cons hfits hrest =>
    cases hfits with
    | plain hplain => cases hplain
    | label hmem' _ =>
      -- The certificate has one point for a label, since the label is placed once.
      have hnodup : (labels.map Prod.fst).Nodup :=
        h.places ▸ (CodeUnit.checkLabels_eq_ok.1 h.checked).1
      cases List.inj_on_of_nodup_map hnodup hmem hmem' rfl
      refine ⟨.label target :: rest, ⟨front, [], by rw [heq, List.append_nil], hlength⟩, ?_⟩
      refine .cons (.label hmem fun p hp => ?_) hrest
      cases hp
      exact .refl q

namespace Sound

theorem start (h : Certifies limits labels unit) : Sound limits labels unit 0 0 [] where
  flows := ⟨unit.instructions, [], ⟨[], [], (List.append_nil _).symm, rfl⟩, h.flows, nofun⟩
  le := Nat.zero_le _

/-- What the certificate has for the instruction at a place. The names that are known to be set
there are set on the walk. -/
theorem exists_fits (h : Sound limits labels unit pc height stored)
    (hinstr : unit.instructions[pc]? = some instr) :
    ∃ known after code, Fits limits labels (some ⟨height, known⟩) instr after ∧
      unit.HasAt (pc + 1) code ∧ Flows limits labels after code none ∧
      ∀ name ∈ known, ∀ info, limits.table.lookup name = some info → info.slot ∈ stored := by
  obtain ⟨code, known, hat, hflows, hknown⟩ := h.flows
  cases hflows with
  | cons hfits hrest =>
    cases hat.head.symm.trans hinstr
    exact ⟨known, _, _, hfits, hat.tail, hrest, hknown⟩

/-- **No instruction gets the stack above the limit.** The certificate bounds the height after every
instruction. -/
theorem le_of_shifts (h : Sound limits labels unit pc height stored)
    (hinstr : unit.instructions[pc]? = some instr) (hshift : instr.Shifts height height') :
    height' ≤ limits.top := by
  obtain ⟨known, after, code, hfits, -⟩ := h.exists_fits hinstr
  have hle := h.le
  cases hfits with
  | plain _ hshift' hle' => exact hshift.unique hshift' ▸ hle'
  | load _ _ hle' =>
    obtain rfl : height + 1 = height' := hshift.eq_of_takes? rfl
    exact hle'
  | label | jump | ret =>
    have heq : height + 0 = height' + 0 := hshift.eq_of_takes? rfl
    omega
  | store | jumpIf | throw =>
    have heq : _ + 0 = height' + 1 := hshift.eq_of_takes? rfl
    omega

/-- **A step to the next instruction** keeps to the certificate. By cases on what the certificate
has for the instruction; only a store adds to what is known to be set. -/
theorem next (h : Sound limits labels unit pc height stored)
    (hinstr : unit.instructions[pc]? = some instr) (hgoes : instr.goesOn = true)
    (hshift : instr.Shifts height height') :
    Sound limits labels unit (pc + 1) height' (instr.stored?.toList ++ stored) := by
  refine ⟨?_, h.le_of_shifts hinstr hshift⟩
  obtain ⟨known, after, code, hfits, hat, hflows, hknown⟩ := h.exists_fits hinstr
  generalize hbefore : some (⟨height, known⟩ : Point) = before at hfits
  cases hfits with
  | plain hplain hshift' =>
    cases hbefore
    cases hshift.unique hshift'
    rw [Instruction.stored?_of_isPlain hplain]
    exact ⟨code, known, hat, hflows, hknown⟩
  | load =>
    cases hbefore
    obtain rfl : height + 1 = height' := hshift.eq_of_takes? rfl
    exact ⟨code, known, hat, hflows, hknown⟩
  | @store kind name info height₀ known₀ known' hinfo hsub =>
    cases hbefore
    have heq : height₀ + 1 + 0 = height' + 1 := hshift.eq_of_takes? rfl
    obtain rfl : height₀ = height' := by omega
    refine ⟨code, known', hat, hflows, fun other hother info' hinfo' => ?_⟩
    -- What is known now was known before, or is what has just been set.
    rcases List.mem_cons.1 (hsub hother) with rfl | hother
    · cases hinfo.symm.trans hinfo'
      exact List.mem_cons_self
    · exact List.mem_cons_of_mem _ (hknown other hother info' hinfo')
  | @jumpIf test target height₀ =>
    cases hbefore
    have heq : height₀ + 1 + 0 = height' + 1 := hshift.eq_of_takes? rfl
    obtain rfl : height₀ = height' := by omega
    exact ⟨code, known, hat, hflows, hknown⟩
  | @label _ place q hmem hcovers =>
    obtain ⟨hheight, hsub⟩ := hcovers _ hbefore.symm
    have heq : height + 0 = height' + 0 := hshift.eq_of_takes? rfl
    obtain rfl : q.height = height' := hheight.symm.trans heq
    exact ⟨code, q.known, hat, hflows, fun name hname => hknown name (hsub hname)⟩
  | jump | throw | ret => cases hgoes

/-- **A jump** keeps to the certificate: the label that it leads to has a point there, which covers
the one at the jump. -/
theorem jump (h : Sound limits labels unit pc height stored) (hcert : Certifies limits labels unit)
    (hinstr : unit.instructions[pc]? = some instr) {target : Label} {pc' : Nat}
    (htarget : instr.target? = some target) (hshift : instr.Shifts height height')
    (hplace : unit.instructions[pc']? = some (.label target)) :
    Sound limits labels unit pc' height' stored := by
  refine ⟨?_, h.le_of_shifts hinstr hshift⟩
  obtain ⟨known, after, code, hfits, -, -, hknown⟩ := h.exists_fits hinstr
  -- Wherever the jump comes from, its point covers that of the label.
  have hland : ∀ q, (target, q) ∈ labels → Point.Covers ⟨height', known⟩ q →
      ∃ code known, unit.HasAt pc' code ∧ Flows limits labels (some ⟨height', known⟩) code none ∧
        ∀ name ∈ known, ∀ info, limits.table.lookup name = some info → info.slot ∈ stored := by
    rintro q hmem ⟨rfl, hsub⟩
    obtain ⟨code, hat, hflows⟩ := hcert.lands hmem hplace
    exact ⟨code, q.known, hat, hflows, fun name hname => hknown name (hsub hname)⟩
  generalize hbefore : some (⟨height, known⟩ : Point) = before at hfits
  cases hfits with
  | plain hplain =>
    rw [Instruction.target?_of_isPlain hplain] at htarget
    cases htarget
  | @jumpIf test _ height₀ _ q hmem hcovers =>
    cases hbefore
    cases htarget
    have heq : height₀ + 1 + 0 = height' + 1 := hshift.eq_of_takes? rfl
    obtain rfl : height₀ = height' := by omega
    exact hland q hmem hcovers
  | @jump _ _ q hmem hcovers =>
    cases hbefore
    cases htarget
    obtain rfl : height + 0 = height' + 0 := hshift.eq_of_takes? rfl
    exact hland q hmem hcovers
  | load | store | label | throw | ret => cases htarget

/-- **Every place that a walk comes to fits the certificate.** By induction on the walk; both ways
of going on have been dealt with above. -/
theorem of_walks (hcert : Certifies limits labels unit) (h : unit.Walks pc height stored) :
    Sound limits labels unit pc height stored := by
  induction h with
  | start => exact .start hcert
  | next _ hinstr hgoes hshift ih => exact ih.next hinstr hgoes hshift
  | jump _ hinstr htarget hshift hplace ih => exact ih.jump hcert hinstr htarget hshift hplace

end Sound

namespace Certifies

/-- **No walk gets the stack above the limit**, at any place that it comes to. -/
theorem le_of_walks (h : Certifies limits labels unit) (hwalk : unit.Walks pc height stored) :
    height ≤ limits.top :=
  (Sound.of_walks h hwalk).le

theorem le_of_attains (h : Certifies limits labels unit) (hattains : unit.Attains height) :
    height ≤ limits.top := by
  obtain ⟨pc, before, stored, instr, hwalk, hinstr, hshift⟩ := hattains
  exact (Sound.of_walks h hwalk).le_of_shifts hinstr hshift

/-- **A variable that is read before it is set** is one of the free ones. On some walk it is not
set, and so the certificate cannot know it to be. -/
theorem free_of_readsUnset (h : Certifies limits labels unit) {slot : UInt16}
    (hread : unit.ReadsUnset slot) :
    ∃ name info, limits.table.lookup name = some info ∧ info.slot = slot ∧
      name ∈ limits.free := by
  obtain ⟨pc, height, stored, kind, hwalk, hinstr, hunset⟩ := hread
  obtain ⟨known, after, code, hfits, -, -, hknown⟩ := (Sound.of_walks h hwalk).exists_fits hinstr
  cases hfits with
  | plain hplain => cases hplain
  | @load _ name info _ hinfo hread =>
    rcases hread with hmem | hfree
    · exact (hunset (hknown name hmem info hinfo)).elim
    · exact ⟨name, info, hinfo, rfl, hfree⟩

end Certifies

end Walk

end StackUnits
