import StackUnits.Proofs.Sessions

/-!
# The compiler writes the code of a program

`StackUnits.Expr.HasCode` and `StackUnits.Stmt.HasCode` describe code;
`StackUnits.Expr.compile` and `StackUnits.Stmt.compile` write it. Here the two are shown
to agree in both directions, from any context:

* **soundness**: a compilation that succeeds has written the code of its program
  (`StackUnits.Expr.compile_sound`, `StackUnits.Stmt.compile_sound`);
* **completeness**: a program that has code compiles
  (`StackUnits.Expr.compile_complete`, `StackUnits.Stmt.compile_complete`).

Both say the same about the context that is arrived at, in the terms of
`StackUnits.Proofs.Writing`, and both are used: what is proved of code is true of what the compiler
writes by the first, and what has code is accepted by the second.
-/

namespace StackUnits

/-- The arithmetic of the int category is that of `int`, in 32 bits whatever the type. -/
theorem OperandType.family?_of_isIntCategory {t : OperandType} (h : t.isIntCategory = true) :
    t.family? = some .int := by
  cases t <;> simp_all [isIntCategory, family?]

/-! ### Expressions -/

namespace Expr

open StackUnits.Action Emit Context

variable {w : World} {d : Draft} {cx cx' : Context}

/-- **An expression that compiles has code**, and that is what was written. By induction on the
expression; each case takes the run apart and puts the code together from that of the parts. -/
theorem compile_sound {e : Expr} (hat : cx.At w d) (h : e.compile cx = .ok () cx') :
    ∃ code type k, e.HasCode d.table d.labels code type k ∧
      cx.Arrives w { d with labels := k } code e.peak (some type) cx' := by
  induction e generalizing cx cx' d with
  | fault tag error =>
    simp only [Expr.compile, bind_eq_ok, throw_eq_ok, and_false, exists_false] at h
  | literal tag c type =>
    simp only [Expr.compile, bind_eq_ok, enterExpr_eq_ok, pushConstant_eq_ok] at h
    obtain ⟨⟨⟩, _, rfl, rfl⟩ := h
    exact ⟨_, type, _, .literal, .of_noted (.leaf (hat.noted _) _ type)⟩
  | var tag name =>
    simp only [Expr.compile, bind_eq_ok, enterExpr_eq_ok, variableValue_eq_ok] at h
    obtain ⟨⟨⟩, _, rfl, info, kind, hinfo, hkind, rfl⟩ := h
    have hlookup : d.table.lookup name = some info := hat.symbols ▸ hinfo
    exact ⟨_, _, _, .var hlookup hkind, .of_noted (.leaf (hat.noted _) _ info.type)⟩
  | arith tag op left right ihl ihr =>
    simp only [Expr.compile, bind_eq_ok, enterExpr_eq_ok, arith_eq_ok] at h
    obtain ⟨⟨⟩, _, rfl, cx₁, cx₂, type, rest, family, hl, hr, hentries, hfamily, rfl⟩ := h
    obtain ⟨cl, tl, k₁, hcl, hl⟩ := ihl (hat.noted _) hl
    obtain ⟨cr, tr, k₂, hcr, hr⟩ := ihr hl.stands hr
    obtain ⟨hrest, rfl⟩ := hr.top_eq hentries
    obtain ⟨rfl, rfl⟩ := hl.top_eq hrest.symm
    exact ⟨_, _, _, .arith hcl hcr hfamily, .of_noted (hl.arith op family left.peak_pos hr)⟩
  | cast tag target operand ih =>
    simp only [Expr.compile, bind_eq_ok, enterExpr_eq_ok, cast_eq_ok] at h
    obtain ⟨⟨⟩, _, rfl, cx₁, source, rest, conversion, h, hentries, hconv, rfl⟩ := h
    obtain ⟨c, type, k, hc, h⟩ := ih (hat.noted _) h
    obtain ⟨rfl, rfl⟩ := h.top_eq hentries
    exact ⟨_, _, _, .cast hc hconv, .of_noted (h.cast operand.peak_pos)⟩
  | and tag left right ihl ihr =>
    simp only [Expr.compile, bind_eq_ok, enterExpr_eq_ok, connective_eq_ok] at h
    obtain ⟨⟨⟩, _, rfl, cx₁, _, _, cx₂, _, _, hl, hentries, htl, hr, hentries', htr, rfl⟩ := h
    obtain ⟨cl, _, k₁, hcl, hl⟩ := ihl (hat.noted _) hl
    obtain ⟨rfl, rfl⟩ := hl.top_eq hentries
    obtain ⟨cr, _, k₂, hcr, hr⟩ := ihr (hl.popped.stands.labelled.labelled.wrote _) hr
    obtain ⟨rfl, rfl⟩ := hr.top_eq hentries'
    exact ⟨_, _, _, .and hcl htl hcr htr, .of_noted (hl.popped.connective left.peak_pos hr)⟩
  | or tag left right ihl ihr =>
    simp only [Expr.compile, bind_eq_ok, enterExpr_eq_ok, connective_eq_ok] at h
    obtain ⟨⟨⟩, _, rfl, cx₁, _, _, cx₂, _, _, hl, hentries, htl, hr, hentries', htr, rfl⟩ := h
    obtain ⟨cl, _, k₁, hcl, hl⟩ := ihl (hat.noted _) hl
    obtain ⟨rfl, rfl⟩ := hl.top_eq hentries
    obtain ⟨cr, _, k₂, hcr, hr⟩ := ihr (hl.popped.stands.labelled.labelled.wrote _) hr
    obtain ⟨rfl, rfl⟩ := hr.top_eq hentries'
    exact ⟨_, _, _, .or hcl htl hcr htr, .of_noted (hl.popped.connective left.peak_pos hr)⟩
  | not tag operand ih =>
    simp only [Expr.compile, bind_eq_ok, enterExpr_eq_ok, verdict_eq_ok] at h
    obtain ⟨⟨⟩, _, rfl, cx₁, _, _, h, hentries, htype, rfl⟩ := h
    obtain ⟨c, _, k, hc, h⟩ := ih (hat.noted _) h
    obtain ⟨rfl, rfl⟩ := h.top_eq hentries
    exact ⟨_, _, _, .not hc htype, .of_noted (h.popped.verdict operand.peak_pos)⟩
  | compare tag test left right ihl ihr =>
    simp only [Expr.compile, bind_eq_ok, enterExpr_eq_ok, verdict_eq_ok, arith_eq_ok] at h
    obtain ⟨⟨⟩, _, rfl, _, _, _, ⟨cx₁, cx₂, _, _, family, hl, hr, hentries', hfamily, rfl⟩,
      hentries, htype, rfl⟩ := h
    obtain ⟨cl, tl, k₁, hcl, hl⟩ := ihl (hat.noted _) hl
    obtain ⟨cr, tr, k₂, hcr, hr⟩ := ihr hl.stands hr
    obtain ⟨hrest, rfl⟩ := hr.top_eq hentries'
    obtain ⟨rfl, rfl⟩ := hl.top_eq hrest.symm
    have harith := hl.arith .sub family left.peak_pos hr
    obtain ⟨rfl, rfl⟩ := harith.top_eq hentries
    -- The difference is taken in the family of the operands, which is that of `int`.
    obtain rfl : family = .int :=
      Option.some.inj (hfamily.symm.trans (OperandType.family?_of_isIntCategory htype))
    exact ⟨_, _, _, .compare hcl hcr htype,
      .of_noted (harith.popped.verdict (compare tag test left right).peak_pos)⟩

/-- **An expression with code compiles**, and its code is what is written. The induction is on the
code: the conditions that its rules ask for are just those under which the actions succeed. -/
theorem compile_complete {e : Expr} {code : List Instruction} {type : OperandType} {k k' : Nat}
    {table : SymbolTable} (h : e.HasCode table k code type k') (hat : cx.At w d)
    (htable : d.table = table) (hk : d.labels = k) :
    ∃ cx', e.compile cx = .ok () cx' ∧
      cx.Arrives w { d with labels := k' } code e.peak (some type) cx' := by
  induction h generalizing cx d with
  | literal =>
    subst hk
    simp only [Expr.compile, bind_eq_ok, enterExpr_eq_ok, pushConstant_eq_ok]
    exact ⟨_, ⟨(), _, rfl, rfl⟩, .of_noted (.leaf (hat.noted _) _ _)⟩
  | var hinfo hkind =>
    subst hk
    simp only [Expr.compile, bind_eq_ok, enterExpr_eq_ok, variableValue_eq_ok]
    rw [← htable, ← hat.symbols] at hinfo
    exact ⟨_, ⟨(), _, rfl, _, _, hinfo, hkind, rfl⟩, .of_noted (.leaf (hat.noted _) _ _)⟩
  | @arith _ _ _ _ _ left _ _ _ _ _ _ _ hfamily ihl ihr =>
    obtain ⟨cx₁, hl, hla⟩ := ihl (hat.noted _) htable hk
    obtain ⟨cx₂, hr, hra⟩ := ihr hla.stands htable rfl
    have hentries := hra.wrote.entries.trans (congrArg (Pile.push · _) hla.wrote.entries)
    simp only [Expr.compile, bind_eq_ok, enterExpr_eq_ok, arith_eq_ok]
    exact ⟨_, ⟨(), _, rfl, cx₁, cx₂, _, _, _, hl, hr, hentries, hfamily, rfl⟩,
      .of_noted (hla.arith _ _ left.peak_pos hra)⟩
  | @cast _ _ _ _ operand _ _ _ _ hconv ih =>
    obtain ⟨cx₁, h, ha⟩ := ih (hat.noted _) htable hk
    simp only [Expr.compile, bind_eq_ok, enterExpr_eq_ok, cast_eq_ok]
    exact ⟨_, ⟨(), _, rfl, cx₁, _, _, _, h, ha.wrote.entries, hconv, rfl⟩,
      .of_noted (ha.cast operand.peak_pos)⟩
  | @and _ _ _ _ left _ _ _ _ _ _ htl _ htr ihl ihr
  | @or _ _ _ _ left _ _ _ _ _ _ htl _ htr ihl ihr =>
    obtain ⟨cx₁, hl, hla⟩ := ihl (hat.noted _) htable hk
    obtain ⟨cx₂, hr, hra⟩ := ihr (hla.popped.stands.labelled.labelled.wrote _) htable rfl
    simp only [Expr.compile, bind_eq_ok, enterExpr_eq_ok, connective_eq_ok]
    exact ⟨_, ⟨(), _, rfl, cx₁, _, _, cx₂, _, _, hl, hla.wrote.entries, htl, hr, hra.wrote.entries,
      htr, rfl⟩, .of_noted (hla.popped.connective left.peak_pos hra)⟩
  | @not _ _ _ operand _ _ _ htype ih =>
    obtain ⟨cx₁, h, ha⟩ := ih (hat.noted _) htable hk
    simp only [Expr.compile, bind_eq_ok, enterExpr_eq_ok, verdict_eq_ok]
    exact ⟨_, ⟨(), _, rfl, cx₁, _, _, h, ha.wrote.entries, htype, rfl⟩,
      .of_noted (ha.popped.verdict operand.peak_pos)⟩
  | @compare _ _ _ tag test left right _ _ _ _ _ htype ihl ihr =>
    obtain ⟨cx₁, hl, hla⟩ := ihl (hat.noted _) htable hk
    obtain ⟨cx₂, hr, hra⟩ := ihr hla.stands htable rfl
    have hentries := hra.wrote.entries.trans (congrArg (Pile.push · _) hla.wrote.entries)
    have harith := hla.arith .sub .int left.peak_pos hra
    simp only [Expr.compile, bind_eq_ok, enterExpr_eq_ok, verdict_eq_ok, arith_eq_ok]
    exact ⟨_, ⟨(), _, rfl, _, _, _, ⟨cx₁, cx₂, _, _, _, hl, hr, hentries,
      OperandType.family?_of_isIntCategory htype, rfl⟩, harith.wrote.entries, htype, rfl⟩,
      .of_noted (harith.popped.verdict (compare tag test left right).peak_pos)⟩

end Expr

/-! ### Statements -/

namespace Stmt

open StackUnits.Action Emit Context Session

variable {w : World} {d : Draft} {cx cx' : Context}

theorem enterStmt_eq_ok {tag : Tag} {u : Unit} :
    enterStmt tag cx = .ok u cx' ↔ cx' = cx.noted (.statement tag) :=
  modify_eq_ok

/-- **A statement that compiles has code**, and that is what was written. A task given on the spot
has a context of its own, from which only the session comes back. -/
theorem compile_sound {s : Stmt} (hat : cx.At w d) (h : s.compile cx = .ok () cx') :
    ∃ code d', s.HasCode w d code d' ∧ cx.Arrives w d' code s.peak none cx' := by
  induction s generalizing cx cx' w d with
  | nothing =>
    obtain ⟨-, rfl⟩ := pure_eq_ok.1 h
    exact ⟨_, _, .nothing, .refl hat⟩
  | fault tag error =>
    simp only [Stmt.compile, bind_eq_ok, throw_eq_ok, and_false, exists_false] at h
  | sequence tag first rest ih₁ ih₂ =>
    simp only [Stmt.compile, bind_eq_ok, enterStmt_eq_ok] at h
    obtain ⟨⟨⟩, _, rfl, ⟨⟩, cx₁, h₁, h₂⟩ := h
    obtain ⟨c₁, d₁, hc₁, h₁⟩ := ih₁ (hat.noted _) h₁
    obtain ⟨c₂, d₂, hc₂, h₂⟩ := ih₂ h₁.stands h₂
    exact ⟨_, _, .sequence hc₁ hc₂, .of_noted (h₁.trans h₂)⟩
  | block tag body ih =>
    simp only [Stmt.compile, bind_eq_ok, enterStmt_eq_ok] at h
    obtain ⟨⟨⟩, _, rfl, h⟩ := h
    obtain ⟨c, d₁, hc, h⟩ := ih (hat.noted _) h
    exact ⟨_, _, .block hc, .of_noted h⟩
  | assign tag name value =>
    simp only [Stmt.compile, bind_eq_ok, enterStmt_eq_ok, assign_eq_ok] at h
    obtain ⟨⟨⟩, _, rfl, cx₁, _, _, slot, table, kind, hv, hentries, hslot, hkind, rfl⟩ := h
    obtain ⟨c, type, k, hc, h⟩ := value.compile_sound (hat.noted _) hv
    obtain ⟨rfl, rfl⟩ := h.top_eq hentries
    rw [h.stands.symbols] at hslot
    exact ⟨_, _, .assign hc hslot hkind, .of_noted (h.popped.assigned table kind slot)⟩
  | print tag value =>
    simp only [Stmt.compile, bind_eq_ok, enterStmt_eq_ok, print_eq_ok] at h
    obtain ⟨⟨⟩, _, rfl, cx₁, _, rest, _, descriptor, hv, hentries, hprint, rfl⟩ := h
    obtain ⟨c, type, k, hc, h⟩ := value.compile_sound (((hat.noted _).wrote _).pushed _) hv
    obtain ⟨hrest, rfl⟩ := h.top_eq hentries
    obtain ⟨rfl, -⟩ := Pile.push_inj.1 hrest
    exact ⟨_, _, .print hc hprint, .of_noted (.printed (hat.noted _) h descriptor)⟩
  | assert tag condition =>
    simp only [Stmt.compile, bind_eq_ok, enterStmt_eq_ok, assert_eq_ok] at h
    obtain ⟨⟨⟩, _, rfl, cx₁, _, _, hv, hentries, htype, rfl⟩ := h
    obtain ⟨c, type, k, hc, h⟩ := condition.compile_sound (hat.noted _) hv
    obtain ⟨rfl, rfl⟩ := h.top_eq hentries
    exact ⟨_, _, .assert hc htype, .of_noted h.popped.asserted⟩
  | sleep tag duration =>
    simp only [Stmt.compile, bind_eq_ok, enterStmt_eq_ok, sleep_eq_ok] at h
    obtain ⟨⟨⟩, _, rfl, cx₁, _, _, hv, hentries, htype, rfl⟩ := h
    obtain ⟨c, type, k, hc, h⟩ := duration.compile_sound (hat.noted _) hv
    obtain ⟨rfl, rfl⟩ := h.top_eq hentries
    exact ⟨_, _, .sleep hc htype, .of_noted (h.popped.slept duration.peak_pos)⟩
  | ifThen tag condition branch ih =>
    simp only [Stmt.compile, bind_eq_ok, enterStmt_eq_ok, option_eq_ok] at h
    obtain ⟨⟨⟩, _, rfl, cx₁, _, _, cx₂, hv, hentries, htype, hb, rfl⟩ := h
    obtain ⟨c, type, k, hc, h⟩ := condition.compile_sound (hat.noted _) hv
    obtain ⟨rfl, rfl⟩ := h.top_eq hentries
    obtain ⟨cb, d₁, hcb, hb⟩ := ih (h.popped.stands.labelled.wrote _) hb
    exact ⟨_, _, .ifThen hc htype hcb, .of_noted (h.popped.option hb)⟩
  | ifElse tag condition thenBranch elseBranch iht ihe =>
    simp only [Stmt.compile, bind_eq_ok, enterStmt_eq_ok, choice_eq_ok] at h
    obtain ⟨⟨⟩, _, rfl, cx₁, _, _, cx₂, cx₃, hv, hentries, htype, ht, he, rfl⟩ := h
    obtain ⟨c, type, k, hc, h⟩ := condition.compile_sound (hat.noted _) hv
    obtain ⟨rfl, rfl⟩ := h.top_eq hentries
    obtain ⟨ct, d₁, hct, ht⟩ := iht (h.popped.stands.labelled.labelled.wrote _) ht
    obtain ⟨ce, d₂, hce, he⟩ := ihe ((ht.stands.wrote _).wrote _) he
    exact ⟨_, _, .ifElse hc htype hct hce, .of_noted (h.popped.choice ht he)⟩
  | loop tag condition body ih =>
    simp only [Stmt.compile, bind_eq_ok, enterStmt_eq_ok, loop_eq_ok] at h
    obtain ⟨⟨⟩, _, rfl, cx₁, _, _, cx₂, hv, hentries, htype, hb, rfl⟩ := h
    obtain ⟨c, type, k, hc, h⟩ :=
      condition.compile_sound ((hat.noted _).labelled.labelled.wrote _) hv
    obtain ⟨rfl, rfl⟩ := h.top_eq hentries
    obtain ⟨cb, d₁, hcb, hb⟩ := ih (h.popped.stands.wrote _) hb
    exact ⟨_, _, .loop hc htype hcb, .of_noted (.loop (hat.noted _) h.popped hb)⟩
  | spawn tag name =>
    simp only [Stmt.compile, bind_eq_ok, enterStmt_eq_ok, spawn_run] at h
    obtain ⟨⟨⟩, _, rfl, ⟨⟩, cx₁, h, ⟨⟩⟩ := h
    obtain ⟨hplain, hstart⟩ := (requireTask_iff (hat.noted _)).1 ⟨_, h⟩
    obtain ⟨notes, rfl⟩ := requireTask_notes h
    exact ⟨_, _, .spawn hplain hstart,
      .of_noted (.spawnedIn (hat.noted _) ((hat.noted _).session.noteAll notes) name)⟩
  | spawnInline tag name bodyTag body ih =>
    simp only [Stmt.compile, bind_eq_ok, enterStmt_eq_ok, spawn_run, inSession_eq_ok,
      compileTask_eq_ok] at h
    obtain ⟨⟨⟩, _, rfl, ⟨⟩, _, ⟨_, ⟨hunit, task, after, h, rfl⟩, rfl⟩, ⟨⟩⟩ := h
    -- The body is compiled in a context of its own, of which only the session comes back.
    obtain ⟨hplain, code, d₁, hcode, rfl, hlabels, hs⟩ :=
      compileUnit_sound (hat.noted (.statement tag)).session ih h
    have hunused := (hasUnit_eq_false (hat.noted (.statement tag)).session).1 hunit
    exact ⟨_, _, .spawnInline hplain hunused hcode hlabels,
      .of_noted (.spawnedIn (hat.noted _) (hs.finished _) name)⟩

/-- **A statement with code compiles**, and its code is what is written. Here the check of the
labels of a task is part of its code, so that there is nothing left that could fail. -/
theorem compile_complete {s : Stmt} {code : List Instruction} {d' : Draft}
    (h : s.HasCode w d code d') (hat : cx.At w d) :
    ∃ cx', s.compile cx = .ok () cx' ∧ cx.Arrives w d' code s.peak none cx' := by
  induction h generalizing cx with
  | nothing => exact ⟨cx, rfl, .refl hat⟩
  | sequence _ _ ih₁ ih₂ =>
    obtain ⟨cx₁, h₁, ha₁⟩ := ih₁ (hat.noted _)
    obtain ⟨cx₂, h₂, ha₂⟩ := ih₂ ha₁.stands
    simp only [Stmt.compile, bind_eq_ok, enterStmt_eq_ok]
    exact ⟨cx₂, ⟨(), _, rfl, (), cx₁, h₁, h₂⟩, .of_noted (ha₁.trans ha₂)⟩
  | block _ ih =>
    obtain ⟨cx₁, h, ha⟩ := ih (hat.noted _)
    simp only [Stmt.compile, bind_eq_ok, enterStmt_eq_ok]
    exact ⟨cx₁, ⟨(), _, rfl, h⟩, .of_noted ha⟩
  | assign hc hslot hkind =>
    obtain ⟨cx₁, h, ha⟩ := Expr.compile_complete hc (hat.noted _) rfl rfl
    simp only [Stmt.compile, bind_eq_ok, enterStmt_eq_ok, assign_eq_ok]
    exact ⟨_, ⟨(), _, rfl, cx₁, _, _, _, _, _, h, ha.wrote.entries, ha.stands.symbols ▸ hslot,
      hkind, rfl⟩, .of_noted (ha.popped.assigned _ _ _)⟩
  | print hc hprint =>
    obtain ⟨cx₁, h, ha⟩ := Expr.compile_complete hc (((hat.noted _).wrote _).pushed _) rfl rfl
    simp only [Stmt.compile, bind_eq_ok, enterStmt_eq_ok, print_eq_ok]
    exact ⟨_, ⟨(), _, rfl, cx₁, _, _, _, _, h, ha.wrote.entries, hprint, rfl⟩,
      .of_noted (.printed (hat.noted _) ha _)⟩
  | assert hc htype =>
    obtain ⟨cx₁, h, ha⟩ := Expr.compile_complete hc (hat.noted _) rfl rfl
    simp only [Stmt.compile, bind_eq_ok, enterStmt_eq_ok, assert_eq_ok]
    exact ⟨_, ⟨(), _, rfl, cx₁, _, _, h, ha.wrote.entries, htype, rfl⟩,
      .of_noted ha.popped.asserted⟩
  | @sleep _ _ _ _ duration _ _ hc htype =>
    obtain ⟨cx₁, h, ha⟩ := Expr.compile_complete hc (hat.noted _) rfl rfl
    simp only [Stmt.compile, bind_eq_ok, enterStmt_eq_ok, sleep_eq_ok]
    exact ⟨_, ⟨(), _, rfl, cx₁, _, _, h, ha.wrote.entries, htype, rfl⟩,
      .of_noted (ha.popped.slept duration.peak_pos)⟩
  | ifThen hc htype _ ih =>
    obtain ⟨cx₁, h, ha⟩ := Expr.compile_complete hc (hat.noted _) rfl rfl
    obtain ⟨cx₂, hb, hba⟩ := ih (ha.popped.stands.labelled.wrote _)
    simp only [Stmt.compile, bind_eq_ok, enterStmt_eq_ok, option_eq_ok]
    exact ⟨_, ⟨(), _, rfl, cx₁, _, _, cx₂, h, ha.wrote.entries, htype, hb, rfl⟩,
      .of_noted (ha.popped.option hba)⟩
  | ifElse hc htype _ _ iht ihe =>
    obtain ⟨cx₁, h, ha⟩ := Expr.compile_complete hc (hat.noted _) rfl rfl
    obtain ⟨cx₂, ht, hta⟩ := iht (ha.popped.stands.labelled.labelled.wrote _)
    obtain ⟨cx₃, he, hea⟩ := ihe ((hta.stands.wrote _).wrote _)
    simp only [Stmt.compile, bind_eq_ok, enterStmt_eq_ok, choice_eq_ok]
    exact ⟨_, ⟨(), _, rfl, cx₁, _, _, cx₂, cx₃, h, ha.wrote.entries, htype, ht, he, rfl⟩,
      .of_noted (ha.popped.choice hta hea)⟩
  | loop hc htype _ ih =>
    obtain ⟨cx₁, h, ha⟩ :=
      Expr.compile_complete hc ((hat.noted _).labelled.labelled.wrote _) rfl rfl
    obtain ⟨cx₂, hb, hba⟩ := ih (ha.popped.stands.wrote _)
    simp only [Stmt.compile, bind_eq_ok, enterStmt_eq_ok, loop_eq_ok]
    exact ⟨_, ⟨(), _, rfl, cx₁, _, _, cx₂, h, ha.wrote.entries, htype, hb, rfl⟩,
      .of_noted (.loop (hat.noted _) ha.popped hba)⟩
  | spawn hplain hstart =>
    obtain ⟨cx₁, h⟩ := (requireTask_iff (hat.noted _)).2 ⟨hplain, hstart⟩
    obtain ⟨notes, rfl⟩ := requireTask_notes h
    simp only [Stmt.compile, bind_eq_ok, enterStmt_eq_ok, spawn_run]
    exact ⟨_, ⟨(), _, rfl, (), _, h, rfl⟩,
      .of_noted (.spawnedIn (hat.noted _) ((hat.noted _).session.noteAll notes) _)⟩
  | @spawnInline _ _ _ tag name bodyTag _ _ hplain hunused hcode hlabels ih =>
    have hs := (hat.noted (.statement tag)).session
    have hframes := (hcode.tidy (SymbolTable.tidy_fresh _)).frames_ne_nil
    obtain ⟨after, h, hafter⟩ := compileUnit_complete bodyTag hs hplain ih hframes hlabels
    simp only [Stmt.compile, bind_eq_ok, enterStmt_eq_ok, spawn_run, inSession_eq_ok,
      compileTask_eq_ok]
    exact ⟨_, ⟨(), _, rfl, (), _, ⟨_, ⟨(hasUnit_eq_false hs).2 hunused, _, after, h, rfl⟩, rfl⟩,
      rfl⟩, .of_noted (.spawnedIn (hat.noted _) (hafter.finished _) name)⟩

end Stmt

/-! ### Programs -/

/-- The world in which the statements of a program are compiled. -/
def World.ofProgram (config : Config) (resolver : Resolver) (name : String) : World :=
  World.begin ⟨config, resolver, []⟩ name .program

/-- **A compilation of a program**: the unit of its code, and the tasks finished on the
way. -/
def Stmt.HasUnits (config : Config) (resolver : Resolver) (name : String) (s : Stmt)
    (c : Compilation) : Prop :=
  PlainName name ∧ ∃ code d, s.HasCode (.ofProgram config resolver name) (.fresh []) code d ∧
    c = ⟨d.unit name .program s.peak code, d.units⟩ ∧ c.program.checkLabels = .ok ()

namespace Session

/-- A session at the start of a compilation: what earlier compilations have finished is
forgotten. -/
theorem At.forget (session : Session) :
    session.forget.At ⟨session.config, session.resolver, []⟩ [] :=
  ⟨rfl, rfl, rfl, rfl⟩

/-- **The compiler finds the compilations of a program**, and nothing else. It finds one at most, so
that a program has no second compilation. The journal and what is left in the session are not spoken
of here. -/
theorem compileNamed_iff (session : Session) {name : String} {tree : Tree} {c : Compilation} :
    (∃ after, compileNamed name tree session = .ok c after) ↔
      tree.toStmt.HasUnits session.config session.resolver name c := by
  have hs := At.forget session
  constructor
  · rintro ⟨after, h⟩
    unfold compileNamed at h
    split at h
    · cases h
    · rename_i program after' hunit
      cases h
      obtain ⟨hplain, code, d, hcode, rfl, hlabels, hafter⟩ :=
        compileUnit_sound hs Stmt.compile_sound hunit
      refine ⟨hplain, code, d, hcode, ?_, hlabels⟩
      rw [hafter.units]
  · rintro ⟨hplain, code, d, hcode, rfl, hlabels⟩
    have hframes := (hcode.tidy (SymbolTable.tidy_fresh _)).frames_ne_nil
    obtain ⟨after, h, hafter⟩ := compileUnit_complete tree.tag hs hplain
      (Stmt.compile_complete hcode) hframes hlabels
    refine ⟨after.forget.note (.programDone name d.units.length), ?_⟩
    rw [compileNamed, h]
    simp only [hafter.units]

end Session

/-- The same of a compilation in a session of its own, under the name that the settings give. -/
theorem compile_eq_ok_iff {config : Config} {resolver : Resolver} {tree : Tree} {c : Compilation} :
    compile config resolver tree = .ok c ↔
      tree.toStmt.HasUnits config resolver config.programName c := by
  refine Iff.trans ?_ (Session.compileNamed_iff ⟨config, resolver, [], [], []⟩)
  unfold compile Session.compile
  rcases Session.compileNamed config.programName tree _ with ⟨c', after⟩ | ⟨e, after⟩
  · simp
  · simp

end StackUnits
