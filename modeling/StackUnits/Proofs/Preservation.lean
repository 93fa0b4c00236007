import StackUnits.Proofs.Delivery
import StackUnits.Proofs.Units

/-!
# Compiled code does what the program does

A unit run on the stack machine shows the effects of the tree that it was compiled from, and
ends as the tree does (`StackUnits.Session.implements_of_compileNamed`).

From evaluation to run the argument is a simulation. Expressions are delivered
(`StackUnits.Proofs.Delivery`), and an evaluation of a statement is followed by a run of its code
(`StackUnits.Exec.follows`, by induction on the evaluation).

From run to evaluation it is enough that *some* evaluation exists, because the run is
deterministic and follows it. `StackUnits.Stmt.HasCode.exists_exec` finds one by induction
on the code; a loop is taken turn by turn, and each turn uses up steps of the run.
-/

namespace StackUnits

open Machine

variable {floats : Floats} {unit : CodeUnit} {table : SymbolTable} {env : Env} {locals : Locals}
  {heap : Heap} {pc : Nat}

/-! ### Statements -/

/-- **A run follows an evaluation**: it comes to a place with an empty stack and the variables
of the evaluation, or it ends as the evaluation does. -/
inductive Follows (floats : Floats) (unit : CodeUnit) (table : SymbolTable) (s : State) (pc : Nat)
    (effects : List Effect) : Except Ending Env → Prop
  | goesOn {env' locals' heap'} (hagrees : Agrees table env' locals')
      (hrun : Reaches floats unit s effects ⟨pc, [], locals', heap'⟩) :
      Follows floats unit table s pc effects (.ok env')
  | ends {ending} (hrun : Ends floats unit s effects ending) :
      Follows floats unit table s pc effects (.error ending)

namespace Follows

variable {s s' : State} {pc pc' : Nat} {effects effects' : List Effect}
  {result : Except Ending Env}

/-- A run follows from a state on, if it is reached. What is seen on the way there comes first. -/
theorem after (h : Follows floats unit table s' pc effects' result)
    (hrun : Reaches floats unit s effects s') :
    Follows floats unit table s pc (effects ++ effects') result := by
  cases h with
  | goesOn hagrees hrun' => exact .goesOn hagrees (hrun.trans hrun')
  | ends hrun' => exact .ends (hrun.ends hrun')

/-- A run follows up to a later place, if that is reached without effects. This is how the jump
behind an arm and the label at its end are passed. -/
theorem upTo (h : Follows floats unit table s pc effects result)
    (hrun : ∀ {locals heap}, Reaches floats unit ⟨pc, [], locals, heap⟩ []
      ⟨pc', [], locals, heap⟩) :
    Follows floats unit table s pc' effects result := by
  cases h with
  | goesOn hagrees hrun' =>
    have hend := hrun'.trans hrun
    rw [List.append_nil] at hend
    exact .goesOn hagrees hend
  | ends hrun' => exact .ends hrun'

end Follows

/-- **The expression that a statement evaluates first** is delivered before anything else is seen of
the run. So if it ends the run, the statement has no effects; this is one case for all statements
that have such an expression. -/
theorem Stmt.HasCode.operand_ends {t operand : Tree} {w : World} {d d' : Draft}
    {code : List Instruction} {ending : Ending} (h : t.toStmt.HasCode w d code d')
    (hoperand : t.operand? = some operand)
    (heval : operand.eval floats env = some (.error ending))
    (hlabels : unit.checkLabels = .ok ()) (hat : unit.HasAt pc code)
    (hd : d.table.Within table) (hagrees : Agrees table env locals) :
    Ends floats unit ⟨pc, [], locals, heap⟩ [] ending := by
  generalize hs : t.toStmt = s at h
  cases Tree.readsStmt_iff.2 hs with
  | fault => cases h
  | sequence hkind | block hkind | spawn hkind | spawnInline hkind =>
    simp [Tree.operand?, hkind] at hoperand
  | assign hkind =>
    obtain rfl : _ = operand := by simpa [Tree.operand?, hkind] using hoperand
    cases h with
    | assign hc => exact (hc.delivers rfl hlabels hat.left hd hagrees _ _).ends_of_eval heval
  | print hkind =>
    obtain rfl : _ = operand := by simpa [Tree.operand?, hkind] using hoperand
    cases h with
    | print hc =>
      exact (reaches_printer hat.left.left).ends
        ((hc.delivers rfl hlabels hat.left.right hd hagrees _ _).ends_of_eval heval)
  | assert hkind =>
    obtain rfl : _ = operand := by simpa [Tree.operand?, hkind] using hoperand
    cases h with
    | assert hc => exact (hc.delivers rfl hlabels hat.left hd hagrees _ _).ends_of_eval heval
  | sleep hkind =>
    obtain rfl : _ = operand := by simpa [Tree.operand?, hkind] using hoperand
    cases h with
    | sleep hc => exact (hc.delivers rfl hlabels hat.left hd hagrees _ _).ends_of_eval heval
  | ifThen hkind =>
    obtain rfl : _ = operand := by simpa [Tree.operand?, hkind] using hoperand
    cases h with
    | ifThen hc =>
      exact (hc.delivers rfl hlabels hat.left.left.left hd hagrees _ _).ends_of_eval heval
  | ifElse hkind =>
    obtain rfl : _ = operand := by simpa [Tree.operand?, hkind] using hoperand
    cases h with
    | ifElse hc =>
      exact (hc.delivers rfl hlabels hat.left.left.left.left.left hd hagrees _ _).ends_of_eval heval
  | loop hkind =>
    obtain rfl : _ = operand := by simpa [Tree.operand?, hkind] using hoperand
    cases h with
    | loop hc =>
      exact (reaches_label hat.left.left.left.left).ends
        ((hc.delivers rfl hlabels hat.left.left.left.right hd hagrees _ _).ends_of_eval heval)

/-- **Code follows evaluation**, from any state that agrees with the variables of the evaluation and
has an empty stack. By induction on the evaluation and not on the code, since a loop is evaluated
again after each turn and has the same code then.

The table is a later one than that of the code, so that it can be the same for all statements of a
unit: variables are only ever added. -/
theorem Exec.follows {o : Option Tree} {effects : List Effect} {result : Except Ending Env}
    (h : Exec floats env o effects result) {w : World} {d d' : Draft} {code : List Instruction}
    (hcode : (Tree.body o).HasCode w d code d') (hlabels : unit.checkLabels = .ok ())
    (hat : unit.HasAt pc code) (hd : d'.table.Within table) (hsep : table.Separates)
    (hagrees : Agrees table env locals) :
    Follows floats unit table ⟨pc, [], locals, heap⟩ (pc + code.length) effects result := by
  -- On the evaluation: a turn of a loop is followed by an evaluation of the same loop.
  induction h generalizing w d d' code pc locals heap with
  | absent =>
    cases hcode
    exact .goesOn hagrees .refl
  | sequence hkind _ _ ih₁ ih₂ =>
    rw [Tree.body, (Tree.ReadsStmt.sequence hkind).eq] at hcode
    cases hcode with
    | sequence h₁ h₂ =>
      rw [List.length_append, ← Nat.add_assoc]
      cases ih₁ h₁ hat.left (h₂.within.trans hd) hagrees with
      | goesOn hagrees₁ hrun => exact (ih₂ h₂ hat.right hd hagrees₁).after hrun
  | sequenceEnds hkind _ ih =>
    rw [Tree.body, (Tree.ReadsStmt.sequence hkind).eq] at hcode
    cases hcode with
    | sequence h₁ h₂ =>
      cases ih h₁ hat.left (h₂.within.trans hd) hagrees with
      | ends hrun => exact .ends hrun
  | block hkind _ ih =>
    rw [Tree.body, (Tree.ReadsStmt.block hkind).eq] at hcode
    cases hcode with
    | block hb => exact ih hb hat hd hagrees
  | assign hkind htarget hname heval =>
    rw [Tree.body, (Tree.ReadsStmt.assign hkind htarget hname).eq] at hcode
    cases hcode with
    | assign hc hslot hk =>
      obtain ⟨rfl, hv, hrun⟩ :=
        (hc.delivers rfl hlabels hat.left (hslot.within.trans hd) hagrees []
          heap).reaches_of_eval heval
      -- The name has its slot from here to the end of the unit.
      have hlookup := hd ((hslot.lookup_eq _).trans (if_pos rfl))
      rw [List.length_append, ← Nat.add_assoc]
      exact .goesOn (hagrees.set hsep hlookup rfl hv)
        (hrun.trans (reaches_store hat.right (Option.some.inj (hv.symm.trans hk))))
  | print hkind heval hprint =>
    rw [Tree.body, (Tree.ReadsStmt.print hkind).eq] at hcode
    cases hcode with
    | print hc hdescriptor =>
      obtain ⟨rfl, hv, hrun⟩ :=
        (hc.delivers rfl hlabels hat.left.right hd hagrees [.printer] heap).reaches_of_eval heval
      cases hprint.symm.trans hdescriptor
      have harguments := OperandType.arguments?_of_printDescriptor? hdescriptor hv
      have hvalue := (reaches_printer hat.left.left).trans hrun
      rw [Nat.add_assoc, ← List.length_append] at hvalue
      rw [List.length_append, ← Nat.add_assoc]
      exact .goesOn hagrees (hvalue.trans (reaches_println hat.right harguments))
  | assert hkind heval hn =>
    rw [Tree.body, (Tree.ReadsStmt.assert hkind).eq] at hcode
    cases hcode with
    | assert hc htype =>
      have hrun := (hc.delivers rfl hlabels hat.left hd hagrees []
        heap).reaches_of_toInt htype heval
      have hlabel := hat.right.tail.tail.tail.tail.tail.tail
      have hjump := hrun.trans (reaches_jumpIf hat.right hlabels hlabel
        (by rw [ZeroTest.holds_ne, decide_eq_true hn]))
      rw [List.length_append, ← Nat.add_assoc]
      exact .goesOn hagrees (hjump.trans (reaches_label hlabel))
  | assertFails hkind heval =>
    rw [Tree.body, (Tree.ReadsStmt.assert hkind).eq] at hcode
    cases hcode with
    | assert hc htype =>
      have hrun := (hc.delivers rfl hlabels hat.left hd hagrees []
        heap).reaches_of_toInt htype heval
      have hpass := hrun.trans (reaches_passJump hat.right (by rw [ZeroTest.holds_ne]; rfl))
      exact .ends (hpass.ends (ends_assertion hat.right))
  | sleep hkind heval =>
    rw [Tree.body, (Tree.ReadsStmt.sleep hkind).eq] at hcode
    cases hcode with
    | sleep hc htype =>
      have hrun := (hc.delivers rfl hlabels hat.left hd hagrees []
        heap).reaches_of_toInt htype heval
      rw [List.length_append, ← Nat.add_assoc]
      exact .goesOn hagrees (hrun.trans (reaches_sleep hat.right))
  | ifThen hkind heval hn _ ih =>
    rw [Tree.body, (Tree.ReadsStmt.ifThen hkind).eq] at hcode
    cases hcode with
    | ifThen hc htype hb =>
      obtain ⟨thenPc, elsePc, hforks⟩ := forks_option floats hlabels hat
      have hrun := (hc.delivers rfl hlabels hforks.conditionAt (hb.within.trans hd) hagrees []
        heap).reaches_of_toInt htype heval
      have henter := hrun.trans (hforks.enterThen (by rw [ZeroTest.holds_eq, decide_eq_false hn]))
      exact ((ih hb hforks.thenAt hd hagrees).after henter).upTo hforks.leaveThen
  | ifSkips hkind heval =>
    rw [Tree.body, (Tree.ReadsStmt.ifThen hkind).eq] at hcode
    cases hcode with
    | ifThen hc htype hb =>
      obtain ⟨thenPc, elsePc, hforks⟩ := forks_option floats hlabels hat
      have hrun := (hc.delivers rfl hlabels hforks.conditionAt (hb.within.trans hd) hagrees []
        heap).reaches_of_toInt htype heval
      have henter := hrun.trans (hforks.enterElse (by rw [ZeroTest.holds_eq]; rfl))
      exact .goesOn hagrees (henter.trans hforks.leaveElse)
  | @ifElse _ _ _ _ _ _ n _ _ hkind hinner heval _ ih =>
    rw [Tree.body, (Tree.ReadsStmt.ifElse hkind hinner).eq] at hcode
    cases hcode with
    | ifElse hc htype ht he =>
      obtain ⟨thenPc, elsePc, hforks⟩ := forks_choice floats hlabels hat
      have hd₁ := he.within.trans hd
      have hrun := (hc.delivers rfl hlabels hforks.conditionAt (ht.within.trans hd₁) hagrees []
        heap).reaches_of_toInt htype heval
      by_cases hn : n = 0
      · have henter := hrun.trans (hforks.enterElse (by rw [ZeroTest.holds_eq, decide_eq_true hn]))
        rw [if_pos hn] at ih
        exact ((ih he hforks.elseAt hd hagrees).after henter).upTo hforks.leaveElse
      · have henter := hrun.trans
          (hforks.enterThen (by rw [ZeroTest.holds_eq, decide_eq_false hn]))
        rw [if_neg hn] at ih
        exact ((ih ht hforks.thenAt hd₁ hagrees).after henter).upTo hforks.leaveThen
  | loopDone hkind heval =>
    rw [Tree.body, (Tree.ReadsStmt.loop hkind).eq] at hcode
    cases hcode with
    | loop hc htype hb =>
      obtain ⟨bodyPc, hloop⟩ := circles_loop floats hlabels hat
      have hrun := (hc.delivers rfl hlabels hloop.conditionAt (hb.within.trans hd) hagrees []
        heap).reaches_of_toInt htype heval
      exact .goesOn hagrees ((Reaches.trans ⟨1, hloop.start⟩ hrun).trans hloop.leave)
  | loopTurn hkind heval hn _ _ ihb ihl =>
    have hloopCode := hcode
    rw [Tree.body, (Tree.ReadsStmt.loop hkind).eq] at hcode
    cases hcode with
    | loop hc htype hb =>
      obtain ⟨bodyPc, hloop⟩ := circles_loop floats hlabels hat
      have hrun := (hc.delivers rfl hlabels hloop.conditionAt (hb.within.trans hd) hagrees []
        heap).reaches_of_toInt htype heval
      have henter := (Reaches.trans ⟨1, hloop.start⟩ hrun).trans (hloop.enter hn)
      cases ihb hb hloop.bodyAt hd hagrees with
      | goesOn hagrees₁ hturn =>
        have hback := (henter.trans hturn).trans hloop.back
        rw [List.append_nil] at hback
        exact (ihl hloopCode hat hd hagrees₁).after hback
  | loopEnds hkind heval hn _ ihb =>
    rw [Tree.body, (Tree.ReadsStmt.loop hkind).eq] at hcode
    cases hcode with
    | loop hc htype hb =>
      obtain ⟨bodyPc, hloop⟩ := circles_loop floats hlabels hat
      have hrun := (hc.delivers rfl hlabels hloop.conditionAt (hb.within.trans hd) hagrees []
        heap).reaches_of_toInt htype heval
      have henter := (Reaches.trans ⟨1, hloop.start⟩ hrun).trans (hloop.enter hn)
      cases ihb hb hloop.bodyAt hd hagrees with
      | ends hends => exact .ends (henter.ends hends)
  | @spawn _ _ left _ _ hkind hname =>
    cases left with
    | none =>
      rw [Tree.body, (Tree.ReadsStmt.spawn hkind hname).eq] at hcode
      cases hcode with
      | spawn =>
        obtain ⟨heap', hrun⟩ := reaches_spawn hat
        exact .goesOn hagrees hrun
    | some task =>
      rw [Tree.body, (Tree.ReadsStmt.spawnInline hkind hname).eq] at hcode
      cases hcode with
      | spawnInline =>
        obtain ⟨heap', hrun⟩ := reaches_spawn hat
        exact .goesOn hagrees hrun
  | operandEnds hoperand heval =>
    exact .ends (hcode.operand_ends hoperand heval hlabels hat (hcode.within.trans hd) hagrees)

/-! ### Runs that end -/

/-- **Where the code of a statement stops, the statement evaluates.** By induction on the code, and
for a loop by one on the number of steps, of which each turn takes some. -/
theorem Stmt.HasCode.exists_exec {s : Stmt} {w : World} {d d' : Draft} {code : List Instruction}
    (h : s.HasCode w d code d') {o : Option Tree} (ho : Tree.body o = s)
    (hlabels : unit.checkLabels = .ok ()) (hat : unit.HasAt pc code)
    (hd : d'.table.Within table) (hsep : table.Separates) (hagrees : Agrees table env locals)
    {n : Nat} (hstops : Stops floats unit n ⟨pc, [], locals, heap⟩) :
    ∃ effects result, Exec floats env o effects result := by
  induction h generalizing o pc env locals heap n with
  | nothing =>
    rcases o with _ | t
    · exact ⟨_, _, .absent⟩
    · cases Tree.readsStmt_iff.2 ho
  | sequence h₁ h₂ ih₁ ih₂ =>
    obtain ⟨t, rfl, hreads⟩ := Tree.exists_readsStmt ho nofun
    cases hreads with
    | sequence hkind =>
      have hd₁ := h₂.within.trans hd
      obtain ⟨effects₁, result₁, hexec⟩ := ih₁ rfl hat.left hd₁ hagrees hstops
      rcases result₁ with ending | env₁
      · exact ⟨_, _, .sequenceEnds hkind hexec⟩
      · cases hexec.follows h₁ hlabels hat.left hd₁ hsep hagrees with
        | goesOn hagrees₁ hrun =>
          obtain ⟨effects₂, result₂, hexec₂⟩ :=
            ih₂ rfl hat.right hd hagrees₁ (hstops.reaches hrun)
          exact ⟨_, _, .sequence hkind hexec hexec₂⟩
  | block _ ih =>
    obtain ⟨t, rfl, hreads⟩ := Tree.exists_readsStmt ho nofun
    cases hreads with
    | block hkind =>
      obtain ⟨effects, result, hexec⟩ := ih rfl hat hd hagrees hstops
      exact ⟨_, _, .block hkind hexec⟩
  | assign hc hslot _ =>
    obtain ⟨t, rfl, hreads⟩ := Tree.exists_readsStmt ho nofun
    cases hreads with
    | assign hkind htarget hname =>
      cases hc.delivers rfl hlabels hat.left (hslot.within.trans hd) hagrees [] heap with
      | value heval => exact ⟨_, _, .assign hkind htarget hname heval⟩
      | ends heval => exact ⟨_, _, .operandEnds (by simp [Tree.operand?, hkind]) heval⟩
  | print hc hdescriptor =>
    obtain ⟨t, rfl, hreads⟩ := Tree.exists_readsStmt ho nofun
    cases hreads with
    | print hkind =>
      cases hc.delivers rfl hlabels hat.left.right hd hagrees [] heap with
      | value heval htype => exact ⟨_, _, .print hkind heval (htype ▸ hdescriptor)⟩
      | ends heval => exact ⟨_, _, .operandEnds (by simp [Tree.operand?, hkind]) heval⟩
  | assert hc htype =>
    obtain ⟨t, rfl, hreads⟩ := Tree.exists_readsStmt ho nofun
    cases hreads with
    | assert hkind =>
      obtain ⟨n, hn, -⟩ | ⟨ending, heval, -⟩ :=
        (hc.delivers rfl hlabels hat.left hd hagrees [] heap).int_cases htype
      · by_cases hzero : n = 0
        · exact ⟨_, _, .assertFails hkind (hzero ▸ hn)⟩
        · exact ⟨_, _, .assert hkind hn hzero⟩
      · exact ⟨_, _, .operandEnds (by simp [Tree.operand?, hkind]) heval⟩
  | sleep hc htype =>
    obtain ⟨t, rfl, hreads⟩ := Tree.exists_readsStmt ho nofun
    cases hreads with
    | sleep hkind =>
      obtain ⟨n, hn, -⟩ | ⟨ending, heval, -⟩ :=
        (hc.delivers rfl hlabels hat.left hd hagrees [] heap).int_cases htype
      · exact ⟨_, _, .sleep hkind hn⟩
      · exact ⟨_, _, .operandEnds (by simp [Tree.operand?, hkind]) heval⟩
  | ifThen hc htype hb ih =>
    obtain ⟨t, rfl, hreads⟩ := Tree.exists_readsStmt ho nofun
    cases hreads with
    | ifThen hkind =>
      obtain ⟨thenPc, elsePc, hforks⟩ := forks_option floats hlabels hat
      obtain ⟨n, hn, hrun⟩ | ⟨ending, heval, -⟩ :=
        (hc.delivers rfl hlabels hforks.conditionAt (hb.within.trans hd) hagrees []
          heap).int_cases htype
      · by_cases hzero : n = 0
        · exact ⟨_, _, .ifSkips hkind (hzero ▸ hn)⟩
        · have henter := hrun.trans
            (hforks.enterThen (by rw [ZeroTest.holds_eq, decide_eq_false hzero]))
          obtain ⟨effects, result, hexec⟩ :=
            ih (Tree.body_some _) hforks.thenAt hd hagrees (hstops.reaches henter)
          exact ⟨_, _, .ifThen hkind hn hzero hexec⟩
      · exact ⟨_, _, .operandEnds (by simp [Tree.operand?, hkind]) heval⟩
  | ifElse hc htype ht he iht ihe =>
    obtain ⟨t, rfl, hreads⟩ := Tree.exists_readsStmt ho nofun
    cases hreads with
    | ifElse hkind hinner =>
      obtain ⟨thenPc, elsePc, hforks⟩ := forks_choice floats hlabels hat
      have hd₁ := he.within.trans hd
      obtain ⟨n, hn, hrun⟩ | ⟨ending, heval, -⟩ :=
        (hc.delivers rfl hlabels hforks.conditionAt (ht.within.trans hd₁) hagrees []
          heap).int_cases htype
      · by_cases hzero : n = 0
        · have henter := hrun.trans
            (hforks.enterElse (by rw [ZeroTest.holds_eq, decide_eq_true hzero]))
          obtain ⟨effects, result, hexec⟩ :=
            ihe (Tree.body_some _) hforks.elseAt hd hagrees (hstops.reaches henter)
          exact ⟨_, _, .ifElse hkind hinner hn (by rwa [if_pos hzero])⟩
        · have henter := hrun.trans
            (hforks.enterThen (by rw [ZeroTest.holds_eq, decide_eq_false hzero]))
          obtain ⟨effects, result, hexec⟩ :=
            iht (Tree.body_some _) hforks.thenAt hd₁ hagrees (hstops.reaches henter)
          exact ⟨_, _, .ifElse hkind hinner hn (by rwa [if_neg hzero])⟩
      · exact ⟨_, _, .operandEnds (by simp [Tree.operand?, hkind]) heval⟩
  | loop hc htype hb ih =>
    obtain ⟨t, rfl, hreads⟩ := Tree.exists_readsStmt ho nofun
    cases hreads with
    | loop hkind =>
      obtain ⟨bodyPc, hloop⟩ := circles_loop floats hlabels hat
      -- Each turn takes steps, so that the number of steps to go bounds the turns.
      induction n generalizing env locals heap with
      | zero => exact absurd hstops Stops.not_zero
      | succ n ihn =>
        have hstart : Stops floats unit n ⟨pc + 1, [], locals, heap⟩ :=
          Stops.leads (Nat.add_comm n 1 ▸ hstops) hloop.start
        obtain ⟨m, hm, hrun⟩ | ⟨ending, heval, -⟩ :=
          (hc.delivers rfl hlabels hloop.conditionAt (hb.within.trans hd) hagrees []
            heap).int_cases htype
        · by_cases hzero : m = 0
          · exact ⟨_, _, .loopDone hkind (hzero ▸ hm)⟩
          · have hbody := hstart.reaches (hrun.trans (hloop.enter hzero))
            obtain ⟨effects₁, result₁, hexec⟩ := ih (Tree.body_some _) hloop.bodyAt hd hagrees hbody
            rcases result₁ with ending | env₁
            · exact ⟨_, _, .loopEnds hkind hm hzero hexec⟩
            · cases hexec.follows hb hlabels hloop.bodyAt hd hsep hagrees with
              | goesOn hagrees₁ hturn =>
                obtain ⟨effects₂, result₂, hexec₂⟩ :=
                  ihn hagrees₁ ((hbody.reaches hturn).reaches hloop.back)
                exact ⟨_, _, .loopTurn hkind hm hzero hexec hexec₂⟩
        · exact ⟨_, _, .operandEnds (by simp [Tree.operand?, hkind]) heval⟩
  | spawn =>
    obtain ⟨t, rfl, hreads⟩ := Tree.exists_readsStmt ho nofun
    cases hreads with
    | spawn hkind hname => exact ⟨_, _, .spawn hkind hname⟩
  | spawnInline =>
    obtain ⟨t, rfl, hreads⟩ := Tree.exists_readsStmt ho nofun
    cases hreads with
    | spawnInline hkind hname => exact ⟨_, _, .spawn hkind hname⟩

/-! ### Whole units -/

/-- **A unit does what a tree says**: it halts with the effects and the ending with which the
tree evaluates, and only with those. -/
def CodeUnit.Implements (floats : Floats) (unit : CodeUnit) (t : Tree) : Prop :=
  ∀ effects ending, t.Evaluates floats effects ending ↔ unit.Halts floats effects ending

/-- A unit of a tree does what the tree says, if its variables have slots of their own. One
direction is that of an evaluation followed by the code, and the other one of a run that ends. -/
theorem CodeUnit.IsOf.implements {t : Tree} (h : unit.IsOf t)
    (hlocals : unit.locals.length ≤ 2 ^ 16) (floats : Floats) : unit.Implements floats t := by
  obtain ⟨w, units, code, d, hcode, hinstructions, hsep, hlabels⟩ := h.exists_code hlocals
  have hat : unit.HasAt 0 (code ++ [.ret]) := ⟨[], [], by rw [hinstructions]; simp, rfl⟩
  have hwithin : d.table.Within d.table := fun _ _ => id
  have hempty : Agrees d.table .empty (State.start).locals := .empty d.table
  have hhalts : ∀ {effects result}, Exec floats .empty (some t) effects result →
      unit.Halts floats effects (.ofResult result) := by
    intro effects result hexec
    cases hexec.follows hcode hlabels hat.left hwithin hsep hempty with
    | goesOn _ hrun =>
      have hends := hrun.ends (ends_ret hat.right)
      rw [List.append_nil] at hends
      exact hends
    | ends hends => exact hends
  intro effects ending
  constructor
  · rintro ⟨result, hexec, rfl⟩
    exact hhalts hexec
  · rintro ⟨n, hrun⟩
    obtain ⟨effects', result, hexec⟩ := hcode.exists_exec (Tree.body_some t) hlabels hat.left
      hwithin hsep hempty ⟨n, Nat.le_refl n, effects, ending, hrun⟩
    -- The evaluation that was found is the one asked for, because it is followed by the run.
    obtain ⟨m, hrun'⟩ := hhalts hexec
    obtain ⟨rfl, rfl⟩ := hrun'.unique hrun
    exact ⟨result, hexec, rfl⟩

/-- **Compiled code does what the program does**: so does the unit of the program, and so does the
unit of every task given on the spot.

The bound is the number of slots. A unit with more variables than that has two of them in one slot,
and the compiler does not refuse it. -/
theorem Session.implements_of_compileNamed {name : String} {tree : Tree}
    {session after : Session} {c : Compilation}
    (h : compileNamed name tree session = .ok c after) (floats : Floats) :
    (c.program.locals.length ≤ 2 ^ 16 → c.program.Implements floats tree) ∧
      List.Forall₂ (fun task unit => unit.name = task.1 ∧
        (unit.locals.length ≤ 2 ^ 16 → unit.Implements floats task.2))
        tree.inlineTasks c.tasks := by
  obtain ⟨hprogram, htasks⟩ := units_of_compileNamed h
  refine ⟨fun hlocals => hprogram.implements hlocals floats, htasks.imp ?_⟩
  rintro task unit ⟨hname, hunit⟩
  exact ⟨hname, fun hlocals => hunit.implements hlocals floats⟩

theorem Session.implements_countdown :
    ∃ c after, compileNamed "Main" .countdown .bare = .ok c after ∧
      (∀ unit ∈ c.units, unit.locals.length ≤ 2 ^ 16) ∧
      ∀ floats, c.program.Implements floats .countdown ∧ ∃ worker, c.tasks = [worker] ∧
        worker.name = "Worker" ∧ worker.Implements floats (.unary .assert (.ofBool false)) := by
  obtain ⟨c, after, h, -, hlocals⟩ := compileNamed_countdown
  refine ⟨c, after, h, hlocals, fun floats => ?_⟩
  obtain ⟨hprogram, htasks⟩ := implements_of_compileNamed h floats
  rw [show Tree.countdown.inlineTasks = [("Worker", .unary .assert (.ofBool false))] from rfl,
    List.forall₂_cons_left_iff] at htasks
  obtain ⟨worker, rest, ⟨hname, hworker⟩, hrest, heq⟩ := htasks
  rw [List.forall₂_nil_left_iff.1 hrest] at heq
  have hmem : worker ∈ c.units := by
    rw [Compilation.units, heq]
    exact .tail _ (.head _)
  exact ⟨hprogram (hlocals _ (.head _)), worker, heq, hname, hworker (hlocals worker hmem)⟩

end StackUnits
