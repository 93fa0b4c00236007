import StackUnits.Proofs.Tags
import StackUnits.Proofs.Units

/-!
# Compiled code never gets stuck

The certificate of a unit is put together along the code. Each piece of code brings stacks for
the labels that it places, and flows as long as the certificate of the whole has them
(`StackUnits.Tags.HasFlow`); the labels of a piece can so be named before the piece that places
them. An expression adds one value to whatever stack it starts from, so the stacks of its labels
depend on where it stands (`StackUnits.Expr.HasCode.puts`). A statement starts and ends with an
empty stack (`StackUnits.Stmt.HasCode.hasFlow`).

The representations of the variables are those of the symbol table at the end of the unit, as
long as there are no more than `2 ^ 16` variables.
-/

namespace StackUnits

namespace Tags

/-! ### Pieces of certificates -/

/-- **A piece of code has a flow**: there are stacks for the labels that it places with
which it flows. -/
def HasFlow (table : SymbolTable) (before : Option (List SlotKind)) (code : List Instruction)
    (after : Option (List SlotKind)) : Prop :=
  ∃ own, own.map Prod.fst = CodeUnit.placements code ∧
    ∀ labels, own ⊆ labels → Flows labels table before code after

namespace HasFlow

variable {table : SymbolTable} {before between after : Option (List SlotKind)}
  {code code' condition thenArm elseArm body : List Instruction} {stack out : List SlotKind}
  {k : Nat} {skip : ZeroTest}

/-- Code without labels needs nothing from the certificate. -/
theorem plain (hplain : CodeUnit.placements code = [])
    (h : ∀ labels, Flows labels table before code after) : HasFlow table before code after :=
  ⟨[], hplain.symm, fun labels _ => h labels⟩

theorem nil : HasFlow table before [] before :=
  plain rfl fun _ => .nil

theorem push (constant : Constant) :
    HasFlow table (some stack) [.push constant] (some (constant.toValue.kind :: stack)) :=
  plain rfl fun _ => .one .push

theorem arith (op : ArithOp) (family : Family) :
    HasFlow table (some (family.slotKind :: family.slotKind :: stack)) [.arith op family]
      (some (family.slotKind :: stack)) :=
  plain rfl fun _ => .one .arith

theorem conversion {conversion : Conversion} {kind kind' : SlotKind}
    (h : conversion.result? kind = some kind') :
    HasFlow table (some (kind :: stack)) (Code.conversion conversion) (some (kind' :: stack)) := by
  cases conversion with
  | identity =>
    cases h
    exact nil
  | _ => exact plain rfl fun _ => .one (.convert h)

/-- Pieces of code are put together, if the one leaves the stack that the other one begins with. -/
theorem append (h : HasFlow table before code between) (h' : HasFlow table between code' after) :
    HasFlow table before (code ++ code') after := by
  obtain ⟨own, hown, hflows⟩ := h
  obtain ⟨own', hown', hflows'⟩ := h'
  refine ⟨own ++ own', ?_, fun labels hsub => ?_⟩
  · rw [List.map_append, hown, hown', CodeUnit.placements_append]
  · obtain ⟨hl, hr⟩ := List.append_subset.1 hsub
    exact (hflows labels hl).append (hflows' labels hr)

/-- **The two arms of a choice** end with the same stack, and so does the choice. -/
theorem choice (hc : HasFlow table (some stack) condition (some (.int :: stack)))
    (ht : HasFlow table (some stack) thenArm (some out))
    (he : HasFlow table (some stack) elseArm (some out)) :
    HasFlow table (some stack) (Code.choice k skip condition thenArm elseArm) (some out) := by
  obtain ⟨ownc, hownc, hc⟩ := hc
  obtain ⟨ownt, hownt, ht⟩ := ht
  obtain ⟨owne, howne, he⟩ := he
  refine ⟨ownc ++ ownt ++ [(.nth (k + 1), stack)] ++ owne ++ [(.nth k, out)], ?_,
    fun labels hsub => ?_⟩
  · simp only [List.map_append, hownc, hownt, howne, CodeUnit.placements_choice]
    rfl
  · simp only [List.append_subset, List.cons_subset, List.nil_subset, and_true] at hsub
    obtain ⟨⟨⟨⟨hsubc, hsubt⟩, helse⟩, hsube⟩, hend⟩ := hsub
    -- No control gets past the jump; the second arm starts with the stack of its label.
    have hif := (hc labels hsubc).append (.one (.jumpIf skip helse))
    have hthen := (hif.append (ht labels hsubt)).append
      (.cons (.jump hend) (.one (.label helse (.inl rfl))))
    exact (hthen.append (he labels hsube)).append (.one (.label hend (.inr rfl)))

/-- An arm that may be skipped leaves the stack as it was. -/
theorem option (hc : HasFlow table (some stack) condition (some (.int :: stack)))
    (ht : HasFlow table (some stack) thenArm (some stack)) :
    HasFlow table (some stack) (Code.option k skip condition thenArm) (some stack) := by
  obtain ⟨ownc, hownc, hc⟩ := hc
  obtain ⟨ownt, hownt, ht⟩ := ht
  refine ⟨ownc ++ ownt ++ [(.nth k, stack)], ?_, fun labels hsub => ?_⟩
  · simp only [List.map_append, hownc, hownt, CodeUnit.placements_option]
    rfl
  · simp only [List.append_subset, List.cons_subset, List.nil_subset, and_true] at hsub
    obtain ⟨⟨hsubc, hsubt⟩, hend⟩ := hsub
    have hif := (hc labels hsubc).append (.one (.jumpIf skip hend))
    exact (hif.append (ht labels hsubt)).append (.one (.label hend (.inr rfl)))

/-- A loop comes back to its start with the stack that it began with, so that the start needs one
stack only. -/
theorem loop (hc : HasFlow table (some stack) condition (some (.int :: stack)))
    (hb : HasFlow table (some stack) body (some stack)) :
    HasFlow table (some stack) (Code.loop k condition body) (some stack) := by
  obtain ⟨ownc, hownc, hc⟩ := hc
  obtain ⟨ownb, hownb, hb⟩ := hb
  refine ⟨[(.nth k, stack)] ++ ownc ++ ownb ++ [(.nth (k + 1), stack)], ?_,
    fun labels hsub => ?_⟩
  · simp only [List.map_append, hownc, hownb, CodeUnit.placements_loop]
    rfl
  · simp only [List.append_subset, List.cons_subset, List.nil_subset, and_true] at hsub
    obtain ⟨⟨⟨hstart, hsubc⟩, hsubb⟩, hend⟩ := hsub
    have htop := (Flows.one (.label hstart (.inr rfl))).append (hc labels hsubc)
    have hbody := (htop.append (.one (.jumpIf .eq hend))).append (hb labels hsubb)
    exact hbody.append (.cons (.jump hstart) (.one (.label hend (.inl rfl))))

/-- What follows a condition takes it off the stack; a failed one does not come to the end. -/
theorem assertion : HasFlow table (some (.int :: stack)) (Code.assertion k) (some stack) := by
  refine ⟨[(.nth k, stack)], rfl, fun labels hsub => ?_⟩
  have hend := List.cons_subset.1 hsub |>.1
  have htaken : MemberRef.taken? ⟨Emit.assertionClass, "<init>", "(Ljava/lang/Object;)V"⟩ .special =
      some [.reference, .reference] := rfl
  exact .cons (.jumpIf .ne hend) <| .cons .new <| .cons .dup <| .cons .push <|
    .cons (.invoke htaken) <| .cons .throw <| .one (.label hend (.inl rfl))

theorem println {type : OperandType} {descriptor : String} {kind : SlotKind}
    (h : type.printDescriptor? = some descriptor) (hkind : type.slotKind? = some kind) :
    HasFlow table (some (kind :: .reference :: stack)) [Code.println descriptor] (some stack) := by
  have htaken : MemberRef.taken? ⟨Emit.printerClass, "println", descriptor⟩ .virtual =
      some [kind, .reference] := by
    rw [MemberRef.taken?, OperandType.arguments?_of_printDescriptor? h hkind]
    rfl
  exact plain rfl fun _ => .one (.invoke htaken)

theorem sleep : HasFlow table (some (.int :: stack)) Code.sleep (some stack) :=
  plain rfl fun labels => by
    have htaken : MemberRef.taken? ⟨Emit.threadClass, "sleep", "(J)V"⟩ .static = some [.long] := rfl
    exact .cons (.convert rfl) (.one (.invoke htaken))

/-- The start of a task leaves nothing on the stack, neither the task nor its thread. -/
theorem spawn (task : String) : HasFlow table (some stack) (Code.spawn task) (some stack) :=
  plain rfl fun labels => by
    have hinit : MemberRef.taken? ⟨task, "<init>", "()V"⟩ .special = some [.reference] := by
      simp [MemberRef.taken?, MemberRef.arguments?, argumentKinds, InvokeKind.receiver]
    have hbind : MemberRef.taken? ⟨Emit.threadClass, "<init>", "(Ljava/lang/Runnable;)V"⟩
        .special = some [.reference, .reference] := rfl
    have hstart : MemberRef.taken? ⟨Emit.threadClass, "start", "()V"⟩ .virtual =
        some [.reference] := rfl
    exact .cons .new <| .cons .dup <| .cons .new <| .cons .dup <| .cons (.invoke hinit) <|
      .cons (.invoke hbind) <| .one (.invoke hstart)

end HasFlow

/-- **A piece of code puts a value of a type on the stack.** -/
def Puts (table : SymbolTable) (stack : List SlotKind) (code : List Instruction)
    (type : OperandType) : Prop :=
  ∃ kind, type.slotKind? = some kind ∧ HasFlow table (some stack) code (some (kind :: stack))

section Puts

variable {table : SymbolTable} {stack : List SlotKind} {code : List Instruction}
  {type : OperandType}

theorem Puts.hasFlow (h : Puts table stack code type) {kind : SlotKind}
    (hkind : type.slotKind? = some kind) :
    HasFlow table (some stack) code (some (kind :: stack)) := by
  obtain ⟨kind', hkind', hflow⟩ := h
  obtain rfl := Option.some.inj (hkind.symm.trans hkind')
  exact hflow

theorem Puts.int (h : Puts table stack code type) (hint : type.isIntCategory = true) :
    HasFlow table (some stack) code (some (.int :: stack)) :=
  h.hasFlow (OperandType.slotKind?_of_isIntCategory hint)

end Puts

end Tags

open Tags

variable {table : SymbolTable}

/-! ### Compiled code -/

/-- **The code of an expression puts its value on the stack**, above what is there already. By
induction on the code. -/
theorem Expr.HasCode.puts {t : Tree} {e : Expr} {T : SymbolTable} {k k' : Nat}
    {code : List Instruction} {type : OperandType} (h : e.HasCode T k code type k')
    (ht : t.toExpr = e) (hT : T.Within table) (stack : List SlotKind) :
    Puts table stack code type := by
  induction h generalizing t stack with
  | literal =>
    cases Tree.readsExpr_iff.2 ht with
    | literal _ hliteral => exact ⟨_, Tag.slotKind?_of_literal hliteral, .push _⟩
  | var hinfo hkind =>
    exact ⟨_, hkind, .plain rfl fun _ => .one (.load ⟨_, _, hT hinfo, rfl, hkind⟩)⟩
  | arith _ _ hfamily ihl ihr =>
    cases Tree.readsExpr_iff.2 ht
    have hslot := OperandType.slotKind?_of_family? hfamily
    have hoperands := ((ihl rfl stack).hasFlow hslot).append ((ihr rfl _).hasFlow hslot)
    exact ⟨_, hslot, hoperands.append (.arith _ _)⟩
  | cast _ hconv ih =>
    cases Tree.readsExpr_iff.2 ht
    obtain ⟨kind, hkind, hoperand⟩ := ih rfl stack
    obtain ⟨kind', hresult, hkind'⟩ := OperandType.result?_of_conversionTo? hconv hkind
    exact ⟨kind', hkind', hoperand.append (.conversion hresult)⟩
  | and _ htl _ htr ihl ihr | or _ htl _ htr ihl ihr =>
    cases Tree.readsExpr_iff.2 ht
    exact ⟨_, rfl, ((ihl rfl stack).int htl).choice ((ihr rfl stack).int htr) (.push _)⟩
  | not _ htype ih =>
    cases Tree.readsExpr_iff.2 ht
    exact ⟨_, rfl, ((ih rfl stack).int htype).choice (.push _) (.push _)⟩
  | compare _ _ htype ihl ihr =>
    cases Tree.readsExpr_iff.2 ht
    have hoperands := ((ihl rfl stack).int htype).append ((ihr rfl _).int htype)
    have hdifference := hoperands.append (.arith .sub .int)
    exact ⟨_, rfl, hdifference.choice (.push _) (.push _)⟩

/-- **The code of a statement starts and ends with an empty stack.** By induction on the code; the
table is that of the finished unit, in which all variables are known. -/
theorem Stmt.HasCode.hasFlow {s : Stmt} {w : World} {d d' : Draft} {code : List Instruction}
    (h : s.HasCode w d code d') {o : Option Tree} (ho : Tree.body o = s)
    (hd : d'.table.Within table) : HasFlow table (some []) code (some []) := by
  induction h generalizing o with
  | nothing => exact .nil
  | sequence _ h₂ ih₁ ih₂ =>
    obtain ⟨t, rfl, hreads⟩ := Tree.exists_readsStmt ho nofun
    cases hreads
    exact (ih₁ rfl (h₂.within.trans hd)).append (ih₂ rfl hd)
  | block _ ih =>
    obtain ⟨t, rfl, hreads⟩ := Tree.exists_readsStmt ho nofun
    cases hreads
    exact ih rfl hd
  | assign hc hslot hkind =>
    obtain ⟨t, rfl, hreads⟩ := Tree.exists_readsStmt ho nofun
    cases hreads
    have hvalue := (hc.puts rfl (hslot.within.trans hd) []).hasFlow hkind
    have hlookup := hd ((hslot.lookup_eq _).trans (if_pos rfl))
    exact hvalue.append (.plain rfl fun _ => .one (.store ⟨_, _, hlookup, rfl, hkind⟩))
  | print hc hprint =>
    obtain ⟨t, rfl, hreads⟩ := Tree.exists_readsStmt ho nofun
    cases hreads
    have hprinter : HasFlow table (some []) [Code.printer] (some [.reference]) :=
      .plain rfl fun _ => .one (.getStatic rfl)
    obtain ⟨kind, hkind, hvalue⟩ := hc.puts rfl hd [.reference]
    exact (hprinter.append hvalue).append (.println hprint hkind)
  | assert hc htype =>
    obtain ⟨t, rfl, hreads⟩ := Tree.exists_readsStmt ho nofun
    cases hreads
    exact ((hc.puts rfl hd []).int htype).append .assertion
  | sleep hc htype =>
    obtain ⟨t, rfl, hreads⟩ := Tree.exists_readsStmt ho nofun
    cases hreads
    exact ((hc.puts rfl hd []).int htype).append .sleep
  | ifThen hc htype hb ih =>
    obtain ⟨t, rfl, hreads⟩ := Tree.exists_readsStmt ho nofun
    cases hreads
    exact ((hc.puts rfl (hb.within.trans hd) []).int htype).option (ih (Tree.body_some _) hd)
  | ifElse hc htype ht he iht ihe =>
    obtain ⟨t, rfl, hreads⟩ := Tree.exists_readsStmt ho nofun
    cases hreads
    have hd₁ := he.within.trans hd
    exact ((hc.puts rfl (ht.within.trans hd₁) []).int htype).choice
      (iht (Tree.body_some _) hd₁) (ihe (Tree.body_some _) hd)
  | loop hc htype hb ih =>
    obtain ⟨t, rfl, hreads⟩ := Tree.exists_readsStmt ho nofun
    cases hreads
    exact ((hc.puts rfl (hb.within.trans hd) []).int htype).loop (ih (Tree.body_some _) hd)
  | spawn | spawnInline => exact .spawn _

/-! ### Whole units -/

/-- **A unit of a tree has a certificate**, if its variables have slots of their own. It says for
each label with which stack it is come to. -/
theorem CodeUnit.IsOf.certifies {unit : CodeUnit} {t : Tree} (h : unit.IsOf t)
    (hlocals : unit.locals.length ≤ 2 ^ 16) : ∃ labels table, Certifies labels table unit := by
  obtain ⟨w, units, code, d, hcode, hinstructions, hsep, hlabels⟩ := h.exists_code hlocals
  have hret : HasFlow d.table (some []) [.ret] none := .plain rfl fun _ => .one .ret
  obtain ⟨labels, hplaces, hflows⟩ :=
    (hcode.hasFlow (Tree.body_some t) fun _ _ => id).append hret
  rw [← hinstructions] at hplaces hflows
  exact ⟨labels, d.table, hlabels, hsep, hplaces, hflows labels (List.Subset.refl _)⟩

/-- **Compiled code never gets stuck.** In no state that a run can come to is there an instruction
that finds something else on the stack than it needs, and at the end of a run the stack is empty.

Runs are taken on representations instead of values, with both ways of a jump possible, so that the
result holds whatever the conditions are. -/
theorem Session.safe_of_compileNamed {name : String} {tree : Tree} {session after : Session}
    {c : Compilation} (h : compileNamed name tree session = .ok c after) {unit : CodeUnit}
    (hunit : unit ∈ c.units) (hlocals : unit.locals.length ≤ 2 ^ 16) {s : Tags.State}
    (hs : unit.TagReachable s) :
    unit.tagMove s ≠ .stuck ∧ (unit.instructions[s.pc]? = some .ret → s.stack = []) := by
  obtain ⟨t, hof⟩ := exists_isOf_of_compileNamed h hunit
  obtain ⟨labels, table, hcert⟩ := hof.certifies hlocals
  have hsound := Sound.of_reachable hcert hs
  refine ⟨fun hstuck => ?_, hsound.stack_eq_nil⟩
  have hkeeps := hsound.keeps_tagMove hcert
  rw [hstuck] at hkeeps
  exact hkeeps

theorem Session.safe_countdown :
    ∃ c after, compileNamed "Main" .countdown .bare = .ok c after ∧
      c.tasks.map CodeUnit.name = ["Worker"] ∧ ∀ unit ∈ c.units,
        unit.locals.length ≤ 2 ^ 16 ∧ unit.TagReachable .start ∧
        ∀ s, unit.TagReachable s → unit.tagMove s ≠ .stuck ∧
          (unit.instructions[s.pc]? = some .ret → s.stack = []) := by
  obtain ⟨c, after, h, htasks, hlocals⟩ := compileNamed_countdown
  refine ⟨c, after, h, htasks, fun unit hunit => ⟨hlocals unit hunit, .start, fun s hs => ?_⟩⟩
  exact safe_of_compileNamed h hunit (hlocals unit hunit) hs

end StackUnits
