import StackUnits.Proofs.Verdicts

/-!
# What narrowing casts leave

A byte, a short and a character are numbers of 32 bits on the stack. The table of casts goes by
types: from another type it has an instruction that cuts a number down to the range of the target,
and from a type whose numbers fit it has none. But arithmetic is done in 32 bits whatever the type,
and its result keeps the type of the operands, so that a sum of bytes need not be a byte.

A cast to a narrow type therefore always leaves a number that is congruent to its operand. It leaves
one in range if it is made by an instruction; otherwise its code is that of the operand, and it
leaves the number of the operand as it is. That number is in range too, unless the operand is, under
the casts on it, an operation or a variable (`StackUnits.Tree.uncast`):
`StackUnits.narrowing_leaves`.
-/

namespace StackUnits

open Machine

/-! ### Narrow types -/

namespace OperandType

/-- A type of numbers of fewer than 32 bits. -/
def isNarrow : OperandType → Bool
  | byte | short | char => true
  | _ => false

/-- **The range of a narrow type.** -/
def InRange : OperandType → Int → Prop
  | byte, n => -128 ≤ n ∧ n ≤ 127
  | short, n => -32768 ≤ n ∧ n ≤ 32767
  | char, n => 0 ≤ n ∧ n ≤ 65535
  | _, _ => True

/-- How many numbers a narrow type has. -/
def modulus : OperandType → Int
  | byte => 256
  | short | char => 65536
  | _ => 4294967296

/-- The numbers of one type are numbers of the other. -/
def FitsIn (source target : OperandType) : Prop :=
  source = target ∨ source = byte ∧ target = short

instance (source target : OperandType) : Decidable (source.FitsIn target) :=
  inferInstanceAs (Decidable (_ ∨ _))

/-- The instruction that cuts numbers down to the range of a narrow type. -/
def narrowing? : OperandType → Option Conversion
  | byte => some .i2b
  | short => some .i2s
  | char => some .i2c
  | _ => none

variable {source target : OperandType} {conversion : Conversion}

/-- Numbers of a type that fits are in the range of the other. -/
theorem InRange.of_fitsIn {n : Int} (h : source.InRange n) (hfits : source.FitsIn target) :
    target.InRange n := by
  rcases hfits with rfl | ⟨rfl, rfl⟩
  · exact h
  · have hbyte : -128 ≤ n ∧ n ≤ 127 := h
    have hshort : -32768 ≤ n ∧ n ≤ 32767 := by omega
    exact hshort

theorem isIntCategory_of_isNarrow (h : target.isNarrow = true) : target.isIntCategory = true := by
  cases target <;> cases h <;> rfl

/-- What fits into a narrow type is narrow. -/
theorem isNarrow_of_fitsIn (hfits : source.FitsIn target) (hnarrow : target.isNarrow = true) :
    source.isNarrow = true := by
  rcases hfits with rfl | ⟨rfl, -⟩
  · exact hnarrow
  · rfl

/-- **The casts to a narrow type**: numbers that fit are kept, and the others are cut down. A
character fits into no other narrow type, and no other into a character, since characters have no
sign. -/
theorem conversion_of_isNarrow (h : source.conversionTo? target = some conversion)
    (hnarrow : target.isNarrow = true) :
    source.FitsIn target ∧ conversion = .identity ∨
      ¬source.FitsIn target ∧ target.narrowing? = some conversion := by
  cases target <;> cases hnarrow <;> cases source <;> simp [conversionTo?] at h <;> subst h <;>
    decide

end OperandType

/-! ### Cutting numbers down -/

/-- The lower half of a number, without a sign. -/
theorem toInt_and_mask (m : Int32) : (m &&& 0xFFFF).toInt = m.toInt % 65536 := by
  have hnat : (m &&& 0xFFFF).toBitVec.toNat = m.toBitVec.toNat % 65536 := by
    rw [Int32.toBitVec_and, BitVec.toNat_and]
    exact Nat.and_two_pow_sub_one_eq_mod _ 16
  have hm : m.toInt = m.toBitVec.toInt := rfl
  have hand : (m &&& 0xFFFF).toInt = (m &&& 0xFFFF).toBitVec.toInt := rfl
  rw [hm, hand, BitVec.toInt_eq_toNat_cond, BitVec.toInt_eq_toNat_cond, hnat]
  split <;> split <;> omega

/-- **What the instruction leaves**: a number in range, congruent to the one that it takes. There is
one such number only, so this is all that can be said about it. -/
theorem Conversion.narrows_of_run {floats : Floats} {target : OperandType}
    {conversion : Conversion} {v : Value} {n : Int32} (h : target.narrowing? = some conversion)
    (hrun : conversion.run floats v = some (.int n)) :
    ∃ m, v = .int m ∧ target.InRange n.toInt ∧
      n.toInt % target.modulus = m.toInt % target.modulus := by
  cases target <;> cases h <;> cases v <;> cases hrun <;> rename_i m <;> refine ⟨m, rfl, ?_⟩
  · simp only [OperandType.InRange, OperandType.modulus, toInt_and_mask]
    omega
  · have hbmod := Int.bmod_def m.toInt (2 ^ 8)
    simp only [OperandType.InRange, OperandType.modulus, Int8.toInt_toInt32, Int32.toInt_toInt8]
    omega
  · have hbmod := Int.bmod_def m.toInt (2 ^ 16)
    simp only [OperandType.InRange, OperandType.modulus, Int16.toInt_toInt32, Int32.toInt_toInt16]
    omega

theorem TypedValue.exists_of_cast {floats : Floats} {v w : TypedValue} {target : OperandType}
    (h : v.cast floats target = some (.ok w)) :
    ∃ conversion, v.type.conversionTo? target = some conversion ∧
      conversion.run floats v.value = some w.value ∧ w.type = target := by
  rw [cast] at h
  rcases hconv : v.type.conversionTo? target with _ | conversion
  · simp only [hconv] at h
    cases h
  · simp only [hconv] at h
    rcases hrun : conversion.run floats v.value with _ | result
    · simp only [hrun] at h
      cases h
    · simp only [hrun] at h
      cases h
      exact ⟨conversion, rfl, hrun, rfl⟩

/-- **A cast to a narrow type** keeps a number that fits by its type, and cuts another down. A
number that fits by its type need not be in range, and then it still is not. -/
theorem TypedValue.narrow_of_cast {floats : Floats} {v : TypedValue} {target type : OperandType}
    {n : Int32} (h : v.cast floats target = some (.ok ⟨type, .int n⟩))
    (hnarrow : type.isNarrow = true) :
    type = target ∧ ∃ m, v = ⟨v.type, .int m⟩ ∧
      n.toInt % target.modulus = m.toInt % target.modulus ∧
      if v.type.FitsIn target then n = m else target.InRange n.toInt := by
  obtain ⟨source, value⟩ := v
  obtain ⟨conversion, hconv, hrun, rfl⟩ := exists_of_cast h
  refine ⟨rfl, ?_⟩
  rcases OperandType.conversion_of_isNarrow hconv hnarrow with ⟨hfits, rfl⟩ | ⟨hfits, hinstr⟩
  · cases hrun
    exact ⟨n, rfl, rfl, by rw [if_pos hfits]⟩
  · obtain ⟨m, rfl, hrange, hmod⟩ := Conversion.narrows_of_run hinstr hrun
    exact ⟨m, rfl, hmod, by rwa [if_neg hfits]⟩

/-! ### Under the casts -/

/-- **An expression under the casts on it.** -/
def Tree.uncast : Tree → Tree
  | .node tag left right =>
    match tag.kind.castTarget?, left with
    | some _, some operand => operand.uncast
    | _, _ => .node tag left right

/-- **Where numbers out of range come from**: an operation, or a variable. -/
def Kind.mayStray (kind : Kind) : Bool :=
  kind.arithOp?.isSome || kind == .identifier

theorem Kind.castTarget?_of_mayStray {kind : Kind} (h : kind.mayStray = true) :
    kind.castTarget? = none := by
  revert h
  cases kind <;> decide

namespace Tree

variable {floats : Floats} {env : Env} {tag : Tag} {t operand : Tree} {right : Option Tree}
  {target : OperandType} {n : Int32}

theorem uncast_cast (hkind : tag.kind.castTarget? = some target) :
    (node tag (some operand) right).uncast = operand.uncast := by
  rw [uncast.eq_def]
  simp only [hkind]

/-- There are no casts around an operation or a variable. -/
theorem uncast_of_mayStray {left : Option Tree} (h : tag.kind.mayStray = true) :
    (node tag left right).uncast = node tag left right := by
  rw [uncast.eq_def]
  simp only [Kind.castTarget?_of_mayStray h]

/-- A literal of a narrow type is a character, and has a number in range. There are no literals for
bytes and shorts. -/
theorem inRange_of_literal {raw : String} {constant : Constant} {type : OperandType}
    (h : tag.literal raw = .ok (constant, type)) (hnarrow : type.isNarrow = true)
    (hvalue : constant.toValue = .int n) : type.InRange n.toInt := by
  unfold Tag.literal at h
  split at h
  · split at h
    · cases h
      cases hnarrow
    · split at h <;> cases h
      cases hnarrow
  · split at h
    · split at h <;> cases h
      rename_i c _ hc
      cases hvalue
      have hnat : (Int32.ofNat c.toNat).toInt = c.toNat := Int32.toInt_ofNat_of_lt (by omega)
      simp only [OperandType.InRange, hnat]
      omega
    · cases h
  · split at h <;> cases h
    cases hnarrow
  · split at h <;> cases h
    cases hnarrow
  · cases h
    cases hnarrow
  · cases h

/-- The value of a boolean operator is of no narrow type. -/
theorem HasType.not_isNarrow_of_eval {Γ : TypeEnv} {type : OperandType} {v : TypedValue}
    (h : t.HasType Γ type) (hkind : t.kind.isBooleanOperator = true)
    (heval : t.eval floats env = some (.ok v)) : ¬v.type.isNarrow = true := by
  obtain ⟨_, rfl, -⟩ := h.mayLeave_of_eval hkind heval
  rintro ⟨⟩

/-- **A number of a narrow type is in range**, unless it is that of an operation or a variable.
Casts that keep the number are looked through, and the first that does not puts it in range. -/
theorem HasType.inRange_or_strays {Γ : TypeEnv} {type type' : OperandType} (h : t.HasType Γ type)
    (heval : t.eval floats env = some (.ok ⟨type', .int n⟩)) (hnarrow : type'.isNarrow = true) :
    type'.InRange n.toInt ∨ t.uncast.kind.mayStray = true ∧
      ∃ type, t.uncast.eval floats env = some (.ok ⟨type, .int n⟩) := by
  -- Along the casts; the types are those of the values, so that nothing is asked of the variables.
  induction h generalizing type' with
  | literal hraw hliteral =>
    have heq := (eval_literal hraw hliteral).symm.trans heval
    obtain ⟨rfl, hvalue⟩ := TypedValue.mk.inj (Except.ok.inj (Option.some.inj heq))
    exact .inl (inRange_of_literal hliteral hnarrow hvalue)
  | @var tag _ _ _ _ hid =>
    have hstrays : tag.kind.mayStray = true := by
      rw [hid]
      rfl
    rw [uncast_of_mayStray hstrays]
    exact .inr ⟨hstrays, type', heval⟩
  | @arith tag op _ _ _ _ hop =>
    have hstrays : tag.kind.mayStray = true := by
      rw [Kind.mayStray, hop]
      rfl
    rw [uncast_of_mayStray hstrays]
    exact .inr ⟨hstrays, type', heval⟩
  | cast hkind _ _ ih =>
    rw [eval_cast hkind] at heval
    rw [uncast_cast hkind]
    obtain ⟨v, hv, hcast⟩ := Eval.bind_eq_ok.1 heval
    obtain ⟨rfl, m, hm, -, hkept⟩ := TypedValue.narrow_of_cast hcast hnarrow
    by_cases hfits : v.type.FitsIn type'
    · rw [if_pos hfits] at hkept
      subst hkept
      rw [hm] at hv
      rcases ih hv (OperandType.isNarrow_of_fitsIn hfits hnarrow) with hrange | hstrays
      · exact .inl (hrange.of_fitsIn hfits)
      · exact .inr hstrays
    · rw [if_neg hfits] at hkept
      exact .inl hkept
  | and hkind hl htl hr htr =>
    exact absurd hnarrow (not_isNarrow_of_eval (.and hkind hl htl hr htr) (congrArg _ hkind) heval)
  | or hkind hl htl hr htr =>
    exact absurd hnarrow (not_isNarrow_of_eval (.or hkind hl htl hr htr) (congrArg _ hkind) heval)
  | not hkind h htype =>
    exact absurd hnarrow (not_isNarrow_of_eval (.not hkind h htype) (congrArg _ hkind) heval)
  | @compare tag _ _ _ _ hkind hl hr htype =>
    have hboolean : tag.kind.isBooleanOperator = true := by
      cases hk : tag.kind <;> rw [hk] at hkind <;> cases hkind <;> rfl
    exact absurd hnarrow (not_isNarrow_of_eval (.compare hkind hl hr htype) hboolean heval)

end Tree

/-! ### Casts -/

section Running

variable {floats : Floats} {unit : CodeUnit} {cx cx' : Context} {tag : Tag} {e : Tree}
  {right : Option Tree} {target : OperandType} {env : Env} {locals : Locals}
  {code : List Instruction}

/-- **The code that an expression adds to a context.** -/
def Expr.Adds (expr : Expr) (cx : Context) (code : List Instruction) : Prop :=
  ∃ cx', expr.compile cx = .ok () cx' ∧ cx'.code.instructions = cx.code.instructions ++ code

/-- **What a cast adds to a context**: the code that its operand adds to it, which delivers the
operand, and the conversion, if it has an instruction. -/
theorem Expr.delivers_of_compile_cast (hcx : cx.Ordinary)
    (hkind : tag.kind.castTarget? = some target)
    (hcompile : (Tree.node tag (some e) right).toExpr.compile cx = .ok () cx') :
    ∃ code own source conversion, cx'.code.instructions = cx.code.instructions ++ code ∧
      e.toExpr.Adds cx own ∧ source.conversionTo? target = some conversion ∧
      code = own ++ Code.conversion conversion ∧ e.HasType cx.symbols.typeOf source ∧
      (Tree.node tag (some e) right).HasType cx.symbols.typeOf target ∧
      ∀ (floats : Floats) {unit pc env locals}, unit.checkLabels = .ok () → unit.HasAt pc code →
        Agrees cx.symbols env locals → ∀ stack heap,
          Delivers floats unit (.node tag (some e) right) env target ⟨pc, stack, locals, heap⟩
              (pc + code.length) ∧
            ∃ pc', Delivers floats unit e env source ⟨pc, stack, locals, heap⟩ pc' := by
  obtain ⟨code, type, k, hcode, harrives⟩ := compile_sound hcx.stands hcompile
  have hread := (Tree.ReadsExpr.cast hkind : Tree.ReadsExpr (.node tag (some e) right) _).eq
  have hwhole := hcode
  rw [hread] at hcode
  cases hcode with
  | cast hoperand hconv =>
    obtain ⟨cx'', hown, howns⟩ := compile_complete hoperand hcx.stands rfl rfl
    refine ⟨_, _, _, _, harrives.wrote.instructions, ⟨cx'', hown, howns.wrote.instructions⟩, hconv,
      rfl, hoperand.hasType rfl, hwhole.hasType rfl, ?_⟩
    intro floats unit pc env locals hlabels hat hagrees stack heap
    exact ⟨hwhole.delivers rfl hlabels hat (fun _ _ h => h) hagrees stack heap,
      _, hoperand.delivers rfl hlabels hat.left (fun _ _ h => h) hagrees stack heap⟩

/-- **A run that comes to the end of a unit** which ends in the code of an expression has delivered
the expression there: nothing comes after, so the run stays where it is. -/
theorem Delivers.eq_of_leads {t : Tree} {type : OperandType} {s s' : State} {steps : Nat}
    {effects : List Effect} (h : Delivers floats unit t env type s unit.instructions.length)
    (hrun : Leads floats unit steps s effects (.ok s'))
    (hend : s'.pc = unit.instructions.length) :
    ∃ v, t.eval floats env = some (.ok v) ∧ v.type = type ∧ v.Tagged ∧ effects = [] ∧
      s' = ⟨unit.instructions.length, v.value :: s.stack, s.locals, s.heap⟩ := by
  have hstuck : step floats unit s' = .stuck := step_eq_stuck (Nat.le_of_eq hend.symm)
  cases h with
  | ends _ hends =>
    obtain ⟨n, hends⟩ := hends
    exact absurd hends (hrun.not_ends hstuck)
  | @value v heval htype hv hreaches =>
    obtain ⟨n, hreaches⟩ := hreaches
    obtain ⟨heffects, heq⟩ := hrun.eq_of_stuck hstuck hreaches (step_eq_stuck (Nat.le_refl _))
    exact ⟨v, heval, htype, hv, heffects, heq⟩

/-- **What casts to a narrow type leave.** Any run of the code of such a cast that comes to the end
of it has there, on top of the stack, a number that is congruent to the one that the operand has as
a value. If the type of the operand fits, the code is that of the operand alone and the number is
its number; else the code goes on with the instruction for the target, and the number is in range.
A number that is not in range is that of an operation or a variable under the casts.

The statement is about a run and not about the value of the cast, since the value alone would not
say what becomes of the stack, the locals and the heap. -/
theorem narrowing_leaves (hcx : cx.Ordinary) (hkind : tag.kind.castTarget? = some target)
    (hnarrow : target.isNarrow = true)
    (hcompile : (Tree.node tag (some e) right).toExpr.compile cx = .ok () cx')
    (hcode : cx'.code.instructions = cx.code.instructions ++ code) {before : List Instruction}
    (hunit : unit.instructions = before ++ code) (hlabels : unit.checkLabels = .ok ())
    (hagrees : Agrees cx.symbols env locals) {stack : List Value} {heap : Heap} {steps : Nat}
    {effects : List Effect} {s : State}
    (hrun : Leads floats unit steps ⟨before.length, stack, locals, heap⟩ effects (.ok s))
    (hend : s.pc = before.length + code.length) :
    ∃ source m n, effects = [] ∧
      s = ⟨before.length + code.length, .int n :: stack, locals, heap⟩ ∧
      e.HasType cx.symbols.typeOf source ∧ e.eval floats env = some (.ok ⟨source, .int m⟩) ∧
      n.toInt % target.modulus = m.toInt % target.modulus ∧
      (if source.FitsIn target then n = m else target.InRange n.toInt) ∧
      (∃ own, e.toExpr.Adds cx own ∧
        if source.FitsIn target then code = own
        else ∃ conversion, target.narrowing? = some conversion ∧
          code = own ++ Code.conversion conversion) ∧
      (target.InRange n.toInt ∨ e.uncast.kind.mayStray = true ∧
        ∃ type, e.uncast.eval floats env = some (.ok ⟨type, .int n⟩)) := by
  obtain ⟨added, own, source, conversion, hadded, hown, hconv, hsplit, hsource, htarget,
    hdelivers⟩ := Expr.delivers_of_compile_cast hcx hkind hcompile
  obtain rfl : code = added := List.append_cancel_left (hcode.symm.trans hadded)
  have hat : unit.HasAt before.length code := ⟨before, [], by rw [hunit, List.append_nil], rfl⟩
  have hlength : before.length + code.length = unit.instructions.length := by
    rw [hunit, List.length_append]
  obtain ⟨hcast, pc', hoperand⟩ := hdelivers floats hlabels hat hagrees stack heap
  rw [hlength] at hend hcast ⊢
  obtain ⟨⟨type, value⟩, heval, htype, htagged, heffects, heq⟩ := hcast.eq_of_leads hrun hend
  obtain rfl : type = target := htype
  obtain ⟨n, rfl, -⟩ := htagged.toInt (OperandType.isIntCategory_of_isNarrow hnarrow)
  have hstrays := htarget.inRange_or_strays heval hnarrow
  rw [Tree.uncast_cast hkind] at hstrays
  rw [Tree.eval_cast hkind] at heval
  obtain ⟨v, hv, hcastv⟩ := Eval.bind_eq_ok.1 heval
  obtain ⟨rfl, -, -⟩ := hoperand.reaches_of_eval hv
  obtain ⟨-, m, hm, hmod, hkept⟩ := TypedValue.narrow_of_cast hcastv hnarrow
  rw [hm] at hv
  refine ⟨v.type, m, n, heffects, heq, hsource, hv, hmod, hkept, ⟨own, hown, ?_⟩, hstrays⟩
  rcases OperandType.conversion_of_isNarrow hconv hnarrow with ⟨hfits, rfl⟩ | ⟨hfits, hinstr⟩
  · rw [if_pos hfits, hsplit]
    exact List.append_nil own
  · rw [if_neg hfits]
    exact ⟨conversion, hinstr, hsplit⟩

/-- The number 200 as a byte, and that as a character. -/
def Tree.byteAsChar : Tree :=
  .unary .castChar (.unary .castByte (.ofInteger "200"))

theorem narrowing_leaves_byteAsChar :
    ∃ cx', Tree.byteAsChar.toExpr.compile (.starting .bare "Main" .program) = .ok () cx' ∧
      ∀ floats, Reaches floats (.ofCode cx'.code.instructions) .start []
          ⟨cx'.code.instructions.length, [.int 65480], fun _ => none, .empty⟩ ∧
        OperandType.char.InRange (65480 : Int32).toInt := by
  have hhas : Tree.byteAsChar.toExpr.HasCode (.enterScope {}) 0
      ([.push (.int 200)] ++ Code.conversion .i2b ++ Code.conversion .i2c) .char 0 :=
    .cast (.cast .literal rfl) rfl
  obtain ⟨cx', hcompile, hcode, hreaches⟩ :=
    hhas.exists_reaches rfl (v := ⟨.char, .int 65480⟩) fun _ => rfl
  have hunit : (CodeUnit.ofCode cx'.code.instructions).instructions =
      [] ++ cx'.code.instructions := rfl
  refine ⟨cx', hcompile, fun floats => ?_⟩
  rw [hcode] at hunit ⊢
  obtain ⟨steps, hrun⟩ := hreaches floats
  obtain ⟨source, m, n, -, hs, -, -, -, -, -, hrange⟩ := narrowing_leaves Context.ordinary_bare rfl
    rfl hcompile hcode hunit rfl (.empty _) hrun (Nat.zero_add _).symm
  cases congrArg State.stack hs
  refine ⟨⟨steps, hrun⟩, hrange.resolve_right ?_⟩
  rintro ⟨⟨⟩, -⟩

/-- The sum of 100 and 100 as bytes, cast to a byte. -/
def Tree.sumOfBytes : Tree :=
  .unary .castByte (.binary .add (.unary .castByte (.ofInteger "100"))
    (.unary .castByte (.ofInteger "100")))

/-- **A cast to byte leaves 200**: its operand, the sum of two bytes, is of that type already. So
what a cast to a narrow type leaves is not in range in general. -/
theorem leaves_twoHundred_sumOfBytes :
    ∃ cx', Tree.sumOfBytes.toExpr.compile (.starting .bare "Main" .program) = .ok () cx' ∧
      (∀ floats, Reaches floats (.ofCode cx'.code.instructions) .start []
        ⟨cx'.code.instructions.length, [.int 200], fun _ => none, .empty⟩) ∧
      ¬OperandType.byte.InRange (200 : Int32).toInt := by
  have hoperand : (Tree.unary .castByte (.ofInteger "100")).toExpr.HasCode (.enterScope {}) 0
      ([.push (.int 100)] ++ Code.conversion .i2b) .byte 0 := .cast .literal rfl
  have hhas : Tree.sumOfBytes.toExpr.HasCode (.enterScope {}) 0 (_ ++ Code.conversion .identity)
      .byte 0 := .cast (.arith hoperand hoperand rfl) rfl
  obtain ⟨cx', hcompile, hcode, hreaches⟩ :=
    hhas.exists_reaches rfl (v := ⟨.byte, .int 200⟩) fun _ => rfl
  rw [← hcode] at hreaches
  refine ⟨cx', hcompile, hreaches, ?_⟩
  rintro ⟨-, hle⟩
  exact absurd hle (by decide)

end Running

end StackUnits
