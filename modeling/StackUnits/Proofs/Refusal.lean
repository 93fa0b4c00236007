import StackUnits.Proofs.Complaints
import StackUnits.Proofs.Failures

/-!
# The compiler fails where the review does

A run of the compiler that fails is followed from its beginning. As long as it has not failed, it
has written the code of what it has come across (`StackUnits.Expr.compile_sound`,
`StackUnits.Stmt.compile_sound`); so what is on the type stack is known, and the table is tidy. The
action that fails is then one whose check the review makes as well, and the error is the same
(`StackUnits.Expr.review_of_fails`, `StackUnits.Stmt.review_of_fails`).

There is one exception. A unit whose labels have run out of numbers is refused only when it is
finished, and the review does not count labels (`StackUnits.Stmt.RunsOut`).

What is known of the complaints of a review is then known of the errors of the compiler, and in
particular that they point into the tree (`StackUnits.compile_error_points_into`).
-/

namespace StackUnits

/-! ### Expressions -/

namespace Expr

open StackUnits.Action Emit Context Result

variable {w : World} {d : Draft} {cx : Context} {err : CompileError}

/-- A value that is tested has code and a type of the int category. The type has been taken off
again by the test. -/
theorem value_sound {e : Expr} {tag : Tag} {start : Context} (hat : cx.At w d)
    (h : (Arm.value tag e.compile).action cx = .ok () start) :
    ∃ code type k, e.HasCode d.table d.labels code type k ∧ type.isIntCategory = true ∧
      cx.Arrives w { d with labels := k } code e.peak none start := by
  obtain ⟨cx₁, type, rest, hv, hentries, htype, rfl⟩ := value_eq_ok.1 h
  obtain ⟨code, _, k, hcode, harrives⟩ := compile_sound hat hv
  obtain ⟨rfl, rfl⟩ := harrives.top_eq hentries
  exact ⟨code, type, k, hcode, htype, harrives.popped⟩

/-- A value that is tested fails its review, if the expression does so where it fails. -/
theorem reviewTested_of_fails {e : Expr} {tag : Tag} (hat : cx.At w d)
    (ih : Fails e.compile cx err → e.review d.table.typeOf = .error err)
    (h : Fails (Arm.value tag e.compile).action cx err) :
    e.reviewTested d.table.typeOf tag = .error err := by
  rw [reviewTested]
  rcases fails_value h with h | ⟨cx₁, hv, h⟩
  · rw [ih h, error_bind]
  · obtain ⟨code, type, k, hcode, harrives⟩ := compile_sound hat hv
    rw [hcode.review_eq, ok_bind]
    exact tested_of_fails harrives.wrote.entries h

/-- Where one of two operands fails to compile, or their types do not go together, the review of the
operation has the same complaint. The right operand is looked at only after the left one has passed,
in both. -/
theorem review_arith_of_fails {tag : Tag} {op : ArithOp} {left right : Expr} (hat : cx.At w d)
    (ihl : ∀ {cx : Context} {d : Draft}, cx.At w d → d.table.typeOf.Holdable →
      Fails left.compile cx err → left.review d.table.typeOf = .error err)
    (ihr : ∀ {cx : Context} {d : Draft}, cx.At w d → d.table.typeOf.Holdable →
      Fails right.compile cx err → right.review d.table.typeOf = .error err)
    (htable : d.table.typeOf.Holdable) (h : Fails (arith tag op left right).compile cx err) :
    (arith tag op left right).review d.table.typeOf = .error err := by
  rw [compile, fails_enterExpr_bind] at h
  rw [review]
  rcases fails_arith h with h | ⟨cx₁, hl, h⟩
  · rw [ihl (hat.noted _) htable h, error_bind]
  obtain ⟨cl, tl, k₁, hcl, hl⟩ := compile_sound (hat.noted _) hl
  rw [hcl.review_eq, ok_bind]
  rcases h with h | ⟨cx₂, hr, h⟩
  · rw [ihr hl.stands htable h, error_bind]
  obtain ⟨cr, tr, k₂, hcr, hr⟩ := compile_sound hl.stands hr
  rw [hcr.review_eq, ok_bind]
  exact h (hr.wrote.entries.trans (congrArg (Pile.push · tr) hl.wrote.entries))

/-- A connective fails in its left operand or, after it, in its right one. -/
theorem reviewTested_of_fails_connective {tag : Tag} {left right : Expr} {skip : ZeroTest}
    {n : Int32} (hat : cx.At w d)
    (ihl : ∀ {cx : Context} {d : Draft}, cx.At w d → d.table.typeOf.Holdable →
      Fails left.compile cx err → left.review d.table.typeOf = .error err)
    (ihr : ∀ {cx : Context} {d : Draft}, cx.At w d → d.table.typeOf.Holdable →
      Fails right.compile cx err → right.review d.table.typeOf = .error err)
    (htable : d.table.typeOf.Holdable)
    (h : Fails (conditional tag left.compile skip (.value tag right.compile)
      (some (.constant tag n))) cx err) :
    (left.reviewTested d.table.typeOf tag >>= fun _ => right.reviewTested d.table.typeOf tag) =
      .error err := by
  have hyields : (Arm.constant tag n).yields = (Arm.value tag right.compile).yields := rfl
  rcases fails_conditional hyields h with h | ⟨start, hstart, h⟩
  · rw [reviewTested_of_fails hat (ihl hat htable) h, error_bind]
  obtain ⟨cl, tl, k₁, hcl, htl, hl⟩ := value_sound hat hstart
  rw [reviewTested, hcl.review_eq, ok_bind, OperandType.tested_eq_ok htl, ok_bind]
  rcases h with h | ⟨cx₂, -, h⟩
  · have hopened := hl.stands.labelled.labelled.wrote (.jumpIf skip start.labelled.label)
    have htested := reviewTested_of_fails hopened (ihr hopened htable) h
    exact htested
  · exact absurd h (not_fails (constant_eq_ok (u := ()).2 rfl))

/-- A verdict fails only where the value that it is about does: its two arms are constants, and
these always compile. -/
theorem fails_value_of_verdict {tag : Tag} {condition : Emit Unit} {skip : ZeroTest} {m n : Int32}
    (h : Fails (conditional tag condition skip (.constant tag m) (some (.constant tag n))) cx err) :
    Fails (Arm.value tag condition).action cx err := by
  have hyields : (Arm.constant tag n).yields = (Arm.constant tag m).yields := rfl
  rcases fails_conditional hyields h with h | ⟨start, -, h | ⟨cx₂, -, h⟩⟩
  · exact h
  · exact absurd h (not_fails (constant_eq_ok (u := ()).2 rfl))
  · exact absurd h (not_fails (constant_eq_ok (u := ()).2 rfl))

/-- **Where an expression fails to compile**, its review has the same complaint. By induction on the
expression; the context changes from operand to operand, but what is known of variables stays the
same. -/
theorem review_of_fails {e : Expr} (hat : cx.At w d) (htable : d.table.typeOf.Holdable)
    (h : Fails e.compile cx err) : e.review d.table.typeOf = .error err := by
  induction e generalizing cx d with
  | fault tag error =>
    rw [compile, fails_enterExpr_bind, fails_throw] at h
    rw [review, h]
  | literal tag c type => exact absurd h (not_fails rfl)
  | var tag name =>
    rw [compile, fails_enterExpr_bind] at h
    rw [review]
    rcases fails_variableValue h with ⟨hnone, rfl⟩ | ⟨info, hinfo, hkind⟩
    · have hunknown : d.table.typeOf name = none := by
        rw [SymbolTable.typeOf, ← hat.symbols]
        exact congrArg (Option.map VarInfo.type) hnone
      rw [hunknown]
    · have hknown : d.table.typeOf name = some info.type := by
        rw [SymbolTable.typeOf, ← hat.symbols]
        exact congrArg (Option.map VarInfo.type) hinfo
      obtain ⟨kind, hslot⟩ := htable hknown
      rw [hkind] at hslot
      cases hslot
  | arith tag op left right ihl ihr => exact review_arith_of_fails hat ihl ihr htable h
  | cast tag target operand ih =>
    rw [compile, fails_enterExpr_bind] at h
    rw [review]
    rcases fails_cast h with h | ⟨cx₁, hv, h⟩
    · rw [ih (hat.noted _) htable h, error_bind]
    obtain ⟨c, source, k, hc, hv⟩ := compile_sound (hat.noted _) hv
    rw [hc.review_eq, ok_bind]
    exact h hv.wrote.entries
  | and tag left right ihl ihr | or tag left right ihl ihr =>
    rw [compile, fails_enterExpr_bind] at h
    have hboth := reviewTested_of_fails_connective (hat.noted _) ihl ihr htable h
    rw [review, ← bind_assoc]
    change ((left.reviewTested d.table.typeOf tag >>= fun _ =>
      right.reviewTested d.table.typeOf tag) >>= fun _ => _) = _
    rw [hboth, error_bind]
  | not tag operand ih =>
    rw [compile, fails_enterExpr_bind] at h
    have htested := reviewTested_of_fails (hat.noted _) (ih (hat.noted _) htable)
      (fails_value_of_verdict h)
    rw [review]
    change (operand.reviewTested d.table.typeOf tag >>= fun _ => _) = _
    rw [htested, error_bind]
  | compare tag test left right ihl ihr =>
    rw [compile, fails_enterExpr_bind] at h
    -- The difference is entered with the tag of the comparison.
    have hvalue : Fails (Arm.value tag (arith tag .sub left right).compile).action cx err :=
      fails_value_of_verdict h
    have htested := reviewTested_of_fails hat (review_arith_of_fails hat ihl ihr htable) hvalue
    have hreview : (compare tag test left right).review d.table.typeOf =
        (arith tag .sub left right).reviewTested d.table.typeOf tag >>= fun _ => .ok .boolean := by
      rw [review, reviewTested, review, bind_assoc, bind_assoc]
      simp only [bind_assoc]
      rfl
    rw [hreview, htested, error_bind]

end Expr

/-! ### Tasks -/

namespace Session

open StackUnits.Action Emit Result

variable {session session' : Session} {w : World} {units : List CodeUnit} {name : String}
  {tag : Tag} {e : CompileError}

/-- A task that is found is the one that the review knows by that name. The review keeps names where
the compiler keeps units. -/
theorem taskNamed_of_ok {task : TaskInfo} (hs : session.At w units)
    (hunits : ∀ unit ∈ units, unit.kind = .task)
    (h : resolveTask name tag session = .ok task session') :
    w.taskNamed (units.map CodeUnit.name) name = .ok task := by
  obtain ⟨-, h⟩ := resolveTask_eq_ok.1 h
  rw [hs.units, hs.begun, hs.config, hs.resolver] at h
  rcases hfind : units.find? (fun unit => unit.name == name) with _ | unit
  · have hfinished := CodeUnit.find?_eq_none_iff.1 hfind
    rcases hbegun : w.begun.lookup name with _ | kind
    · simp only [hfind, hbegun] at h
      obtain ⟨list, path, hlist, hpath, houtcome, hname, -⟩ := h
      simp only [World.taskNamed, if_neg hfinished, hbegun, hlist, hpath, ok_bind, houtcome,
        if_pos hname]
    · simp only [hfind, hbegun] at h
      simp only [World.taskNamed, if_neg hfinished, hbegun, h.1]
  · have hname : unit.name = name := by simpa using List.find?_some hfind
    have hmem := List.mem_of_find?_eq_some hfind
    simp only [hfind] at h
    rw [World.taskNamed, if_pos (List.mem_map.2 ⟨unit, hmem, hname⟩), h.1, CodeUnit.taskInfo, hname,
      CodeUnit.hasConstructor, CodeUnit.isRunnable, hunits unit hmem]
    rfl

/-- **Where no task is found**, the review has the same complaint. There are several: the name is no
plain one, there is no search path or a malformed one, or the task is not found or cannot be
started. -/
theorem taskNamed_of_fails (hs : session.At w units) (h : Fails (resolveTask name tag) session e) :
    (checkUnitName name tag >>= fun _ => w.taskNamed (units.map CodeUnit.name) name) =
      .error e := by
  unfold resolveTask at h
  rcases hname : checkUnitName name tag with e' | ⟨⟩
  · rw [hname] at h
    rw [error_bind, fails_throw.1 h]
  rw [hname] at h
  change Fails (get >>= fun session => _) session e at h
  rw [fails_bind_of_ok (get_eq_ok.2 ⟨rfl, rfl⟩), hs.units, hs.begun, hs.config, hs.resolver] at h
  rw [ok_bind, World.taskNamed]
  rcases hfind : units.find? (fun unit => unit.name == name) with _ | unit
  · rw [if_neg (CodeUnit.find?_eq_none_iff.1 hfind)]
    rw [hfind] at h
    rcases hbegun : w.begun.lookup name with _ | kind
    · rw [hbegun] at h
      rcases hlist : w.config.taskSearchPath with _ | list
      · rw [hlist] at h
        exact congrArg Except.error (fails_throw.1 h)
      rw [hlist] at h
      rcases hpath : SearchPath.parse list with e' | path
      · simp only [hpath] at h
        simp only [hpath, error_bind, fails_throw.1 h]
      simp only [hpath] at h
      rw [fails_bind_of_ok (set_eq_ok (u := ⟨⟩).2 rfl)] at h
      rcases houtcome : (w.resolver name path).outcome with e' | task
      · simp only [houtcome] at h
        simp only [hpath, ok_bind, houtcome, error_bind, fails_throw.1 h]
      · simp only [houtcome] at h
        simp only [hpath, ok_bind, houtcome]
        split at h
        · exact absurd h (not_fails rfl)
        · rename_i hne
          rw [if_neg hne, fails_throw.1 h]
    · rw [hbegun] at h
      exact absurd h (not_fails rfl)
  · rw [hfind] at h
    exact absurd h (not_fails rfl)

end Session

/-! ### Statements -/

namespace Stmt

open StackUnits.Action Emit Context Session Result

variable {w : World} {d : Draft} {cx : Context} {err : CompileError}

/-- A task that is given on the spot has run out of numbers for its labels. -/
def RunsOut (s : Stmt) (e : CompileError) : Prop :=
  ¬s.TasksFit ∧ ∃ unit fault, e = .artifact unit fault

theorem RunsOut.mono {s s' : Stmt} (h : s.RunsOut err) (hfit : s'.TasksFit → s.TasksFit) :
    s'.RunsOut err :=
  ⟨fun hfit' => h.1 (hfit hfit'), h.2⟩

/-- The condition of a statement fails its review where it fails to compile. -/
theorem reviewTested_of_fails {condition : Expr} {tag : Tag} (hat : cx.At w d)
    (htable : d.table.Tidy) (h : Fails (Arm.value tag condition.compile).action cx err) :
    condition.reviewTested d.known.env tag = .error err :=
  condition.reviewTested_of_fails hat (condition.review_of_fails hat htable.holdable) h

/-- An assignment fails in its value, or its name is known with another type. There is no third
case, since slots do not run out. -/
theorem review_assign_of_fails {tag : Tag} {name : String} {value : Tree} (hat : cx.At w d)
    (htable : d.table.Tidy) (h : Fails (assign tag name value.toExpr).compile cx err) :
    (assign tag name value.toExpr).review w d.known = .error err := by
  rw [compile, fails_enterStmt_bind] at h
  rw [review, show d.known.env = d.table.typeOf from rfl]
  rcases fails_assign h with h | ⟨cx₁, hv, h⟩
  · rw [Expr.review_of_fails (hat.noted _) htable.holdable h, error_bind]
  obtain ⟨c, type, k, hc, hv⟩ := Expr.compile_sound (hat.noted _) hv
  rw [hc.review_eq, ok_bind, Known.assigned]
  -- The type of a value is one that a variable can have, and there is a frame for the variable.
  obtain ⟨kind, hslot⟩ := (hc.hasType rfl).exists_slotKind? htable.holdable
  have hsymbols : cx₁.symbols = d.table := hv.stands.symbols
  obtain ⟨info, hinfo, hne, rfl⟩ := h hv.wrote.entries hslot (hsymbols ▸ htable.frames_ne_nil)
  rw [hsymbols] at hinfo
  have hknown : d.known.env name = some info.type := congrArg (Option.map VarInfo.type) hinfo
  rw [hknown]
  exact if_neg hne

/-- A value that is printed fails, or it is of a type that is not printed. -/
theorem review_print_of_fails {tag : Tag} {value : Expr} (hat : cx.At w d) (htable : d.table.Tidy)
    (h : Fails (print tag value).compile cx err) :
    (print tag value).review w d.known = .error err := by
  rw [compile, fails_enterStmt_bind] at h
  rw [review, show d.known.env = d.table.typeOf from rfl]
  have hprinter := ((hat.noted (.statement tag)).wrote Code.printer).pushed .reference
  rcases fails_print h with h | ⟨cx₁, hv, h⟩
  · rw [Expr.review_of_fails hprinter htable.holdable h, error_bind]
  obtain ⟨c, type, k, hc, hv⟩ := Expr.compile_sound hprinter hv
  obtain ⟨hnone, rfl⟩ := h hv.wrote.entries
  rw [hc.review_eq, ok_bind, if_pos hnone]

/-- The start of a task by name fails where the task is looked for, and not after that. The code for
it pushes what it pops. -/
theorem review_spawn_of_fails {tag : Tag} {name : String} (hat : cx.At w d)
    (hd : ∀ unit ∈ d.units, unit.kind = .task) (h : Fails (spawn tag name).compile cx err) :
    (spawn tag name).review w d.known = .error err := by
  rw [compile, fails_enterStmt_bind] at h
  rw [review, ← bind_assoc, show d.known.finished = d.units.map CodeUnit.name from rfl]
  have hs := (hat.noted (.statement tag)).session
  rcases fails_bind.1 h with h | ⟨⟨⟩, cx₁, -, h⟩
  · rcases fails_requireTask h with h | ⟨task, session, hresolve, h⟩
    · rw [taskNamed_of_fails hs h, error_bind]
    · have hplain := (resolveTask_eq_ok.1 hresolve).1
      rw [checkUnitName_eq_ok.2 hplain, ok_bind, taskNamed_of_ok hs hd hresolve, ok_bind, h,
        error_bind]
  · exact absurd h (not_fails spawn_run)

/-- The start of a task that is given on the spot fails where the task is compiled: on account of
its name, in its body, or when its labels are looked at. -/
theorem review_spawnInline_of_fails {tag bodyTag : Tag} {name : String} {body : Stmt}
    (hat : cx.At w d)
    (ih : ∀ {cx : Context}, cx.At (w.begin name .task) (.fresh d.units) →
      Fails body.compile cx err →
        body.review (w.begin name .task) (Draft.fresh d.units).known = .error err ∨
          body.RunsOut err)
    (h : Fails (spawnInline tag name bodyTag body).compile cx err) :
    (spawnInline tag name bodyTag body).review w d.known = .error err ∨
      (spawnInline tag name bodyTag body).RunsOut err := by
  rw [compile, fails_enterStmt_bind] at h
  rw [review]
  have hs := (hat.noted (.statement tag)).session
  have hfree_iff : (cx.noted (.statement tag)).session.hasUnit name = false ↔
      ¬(name ∈ d.known.finished ∨ w.begun.lookup name ≠ none) := by
    rw [hasUnit_eq_false hs, World.unused_iff, not_or, not_not]
    rfl
  rcases fails_bind.1 h with h | ⟨⟨⟩, cx₁, -, h⟩
  · rcases fails_compileTask (fails_inSession h) with ⟨htaken, rfl⟩ | ⟨hfree, h⟩
    · have hused : name ∈ d.known.finished ∨ w.begun.lookup name ≠ none := by
        by_contra hnot
        rw [hfree_iff.2 hnot] at htaken
        cases htaken
      rw [if_pos hused]
      exact .inl rfl
    rw [if_neg (hfree_iff.1 hfree)]
    rcases fails_compileUnit hs h with hcheck | ⟨hcheck, ⟨cx', hat', h⟩ | ⟨code, d₁, hcode, h⟩⟩
    · rw [hcheck, error_bind]
      exact .inl rfl
    · rw [hcheck, ok_bind]
      rcases ih hat' h with hreview | hout
      · rw [show Known.mk .empty d.known.finished = (Draft.fresh d.units).known from rfl, hreview,
          error_bind]
        exact .inl rfl
      · exact .inr (hout.mono And.right)
    · obtain ⟨fault, rfl⟩ := CodeUnit.exists_of_checkLabels h
      refine .inr ⟨fun hfit => ?_, _, fault, rfl⟩
      rw [hcode.checkLabels_iff.2 hfit.1] at h
      cases h
  · exact absurd h (not_fails spawn_run)

/-- **Where a statement fails to compile**, its review has the same complaint, unless the labels of
a task have run out of numbers. That one is an error of the compiler and not of the program, and the
review does not count labels. -/
theorem review_of_fails {s : Stmt} {o : Option Tree} (ho : Tree.body o = s) (hat : cx.At w d)
    (htable : d.table.Tidy) (hd : ∀ unit ∈ d.units, unit.kind = .task)
    (h : Fails s.compile cx err) : s.review w d.known = .error err ∨ s.RunsOut err := by
  induction s generalizing cx w d o with
  | nothing => exact absurd h (not_fails rfl)
  | fault tag error =>
    rw [compile, fails_enterStmt_bind, fails_throw] at h
    exact .inl (congrArg Except.error h)
  | sequence tag first rest ih₁ ih₂ =>
    obtain ⟨t, rfl, hreads⟩ := Tree.exists_readsStmt ho (by rintro ⟨⟩)
    cases hreads with | sequence hkind => ?_
    rw [compile, fails_enterStmt_bind] at h
    rw [review]
    rcases fails_bind.1 h with h | ⟨⟨⟩, cx₁, h₁, h⟩
    · rcases ih₁ rfl (hat.noted _) htable hd h with hreview | hout
      · rw [hreview, error_bind]
        exact .inl rfl
      · exact .inr (hout.mono And.left)
    · obtain ⟨c₁, d₁, hc₁, h₁⟩ := compile_sound (hat.noted _) h₁
      rw [hc₁.review_eq hd, ok_bind]
      exact (ih₂ rfl h₁.stands (hc₁.tidy htable) (hc₁.tasks hd) h).imp_right (.mono · And.right)
  | block tag body ih =>
    obtain ⟨t, rfl, hreads⟩ := Tree.exists_readsStmt ho (by rintro ⟨⟩)
    cases hreads with | block hkind => ?_
    rw [compile, fails_enterStmt_bind] at h
    exact (ih rfl (hat.noted _) htable hd h).imp_right (.mono · id)
  | assign tag name value =>
    obtain ⟨t, rfl, hreads⟩ := Tree.exists_readsStmt ho (by rintro ⟨⟩)
    cases hreads with | assign hkind htarget hname => ?_
    exact .inl (review_assign_of_fails hat htable h)
  | print tag value => exact .inl (review_print_of_fails hat htable h)
  | assert tag condition =>
    rw [compile, fails_enterStmt_bind] at h
    rw [review, reviewTested_of_fails (hat.noted _) htable (fails_assert h), error_bind]
    exact .inl rfl
  | sleep tag duration =>
    rw [compile, fails_enterStmt_bind] at h
    rw [review, reviewTested_of_fails (hat.noted _) htable (fails_sleep h), error_bind]
    exact .inl rfl
  | ifThen tag condition branch ih =>
    obtain ⟨t, rfl, hreads⟩ := Tree.exists_readsStmt ho (by rintro ⟨⟩)
    cases hreads with | ifThen hkind => ?_
    rw [compile, fails_enterStmt_bind] at h
    rw [review]
    rcases fails_option h with h | ⟨start, hstart, h⟩
    · rw [reviewTested_of_fails (hat.noted _) htable h, error_bind]
      exact .inl rfl
    · obtain ⟨c, type, k, hc, htype, hstart⟩ := Expr.value_sound (hat.noted _) hstart
      rw [hc.reviewTested_eq htype, ok_bind]
      exact (ih (Tree.body_some _) (hstart.stands.labelled.wrote _) htable hd h).imp_right
        (.mono · id)
  | ifElse tag condition thenBranch elseBranch iht ihe =>
    obtain ⟨t, rfl, hreads⟩ := Tree.exists_readsStmt ho (by rintro ⟨⟩)
    cases hreads with | ifElse hkind hinner => ?_
    rw [compile, fails_enterStmt_bind] at h
    rw [review]
    rcases fails_choice h with h | ⟨start, hstart, h⟩
    · rw [reviewTested_of_fails (hat.noted _) htable h, error_bind]
      exact .inl rfl
    obtain ⟨c, type, k, hc, htype, hstart⟩ := Expr.value_sound (hat.noted _) hstart
    rw [hc.reviewTested_eq htype, ok_bind]
    have hopened := hstart.stands.labelled.labelled.wrote (.jumpIf .eq start.labelled.label)
    rcases h with h | ⟨cx₂, ht, h⟩
    · rcases iht (Tree.body_some _) hopened htable hd h with hreview | hout
      · rw [show d.known = Draft.known { d with labels := k + 2 } from rfl, hreview, error_bind]
        exact .inl rfl
      · exact .inr (hout.mono And.left)
    · obtain ⟨ct, d₁, hct, ht⟩ := compile_sound hopened ht
      rw [show d.known = Draft.known { d with labels := k + 2 } from rfl, hct.review_eq hd, ok_bind]
      exact (ihe (Tree.body_some _) ((ht.stands.wrote _).wrote _) (hct.tidy htable) (hct.tasks hd)
        h).imp_right (.mono · And.right)
  | loop tag condition body ih =>
    obtain ⟨t, rfl, hreads⟩ := Tree.exists_readsStmt ho (by rintro ⟨⟩)
    cases hreads with | @loop _ condition body hkind => ?_
    rw [compile, fails_enterStmt_bind] at h
    rw [review]
    have htop := (hat.noted (.statement tag)).labelled.labelled.wrote
      (.label (cx.noted (.statement tag)).label)
    rcases fails_loop h with h | ⟨start, hstart, h⟩
    · have htested := reviewTested_of_fails htop htable h
      change condition.toExpr.reviewTested d.known.env tag = .error err at htested
      rw [htested, error_bind]
      exact .inl rfl
    · obtain ⟨c, type, k, hc, htype, hstart⟩ := Expr.value_sound htop hstart
      have htested := hc.reviewTested_eq htype tag
      change condition.toExpr.reviewTested d.known.env tag = .ok () at htested
      rw [htested, ok_bind]
      exact (ih (Tree.body_some _) (hstart.stands.wrote _) htable hd h).imp_right (.mono · id)
  | spawn tag name => exact .inl (review_spawn_of_fails hat hd h)
  | spawnInline tag name bodyTag body ih =>
    obtain ⟨t, rfl, hreads⟩ := Tree.exists_readsStmt ho (by rintro ⟨⟩)
    cases hreads with | spawnInline hkind hname => ?_
    refine review_spawnInline_of_fails hat (fun hat' h => ?_) h
    exact ih (Tree.body_some _) hat' (SymbolTable.tidy_fresh _) hd h

end Stmt

/-! ### The places of a walk -/

/-- **The walk of the compiler comes to a statement**: everything before it has code. With the
statement, the world and the draft there. -/
inductive Stmt.ComesTo : World → Draft → Stmt → World → Draft → Stmt → Prop
  | here {w d s} : ComesTo w d s w d s
  | first {w d w' d' s tag first rest} (h : ComesTo w d first w' d' s) :
      ComesTo w d (.sequence tag first rest) w' d' s
  | rest {w d d₁ w' d' s tag first rest c} (hfirst : first.HasCode w d c d₁)
      (h : ComesTo w d₁ rest w' d' s) : ComesTo w d (.sequence tag first rest) w' d' s
  | block {w d w' d' s tag body} (h : ComesTo w d body w' d' s) :
      ComesTo w d (.block tag body) w' d' s
  | ifThen {w d k w' d' s tag condition branch c type}
      (hc : Expr.HasCode d.table d.labels condition c type k) (htype : type.isIntCategory = true)
      (h : ComesTo w { d with labels := k + 1 } branch w' d' s) :
      ComesTo w d (.ifThen tag condition branch) w' d' s
  | thenBranch {w d k w' d' s tag condition thenBranch elseBranch c type}
      (hc : Expr.HasCode d.table d.labels condition c type k) (htype : type.isIntCategory = true)
      (h : ComesTo w { d with labels := k + 2 } thenBranch w' d' s) :
      ComesTo w d (.ifElse tag condition thenBranch elseBranch) w' d' s
  | elseBranch {w d d₁ k w' d' s tag condition thenBranch elseBranch c ct type}
      (hc : Expr.HasCode d.table d.labels condition c type k) (htype : type.isIntCategory = true)
      (ht : thenBranch.HasCode w { d with labels := k + 2 } ct d₁)
      (h : ComesTo w d₁ elseBranch w' d' s) :
      ComesTo w d (.ifElse tag condition thenBranch elseBranch) w' d' s
  | loop {w d k w' d' s tag condition body c type}
      (hc : Expr.HasCode d.table (d.labels + 2) condition c type k)
      (htype : type.isIntCategory = true) (h : ComesTo w { d with labels := k } body w' d' s) :
      ComesTo w d (.loop tag condition body) w' d' s
  | task {w d w' d' s tag name bodyTag body} (hplain : PlainName name)
      (hunused : w.Unused d.units name)
      (h : ComesTo (w.begin name .task) (.fresh d.units) body w' d' s) :
      ComesTo w d (.spawnInline tag name bodyTag body) w' d' s

/-- The table is tidy wherever the walk comes to, also in a task, which begins with a table of its
own. -/
theorem Stmt.ComesTo.tidy {w w' : World} {d d' : Draft} {s s' : Stmt}
    (h : ComesTo w d s w' d' s') (hd : d.table.Tidy) : d'.table.Tidy := by
  induction h with
  | here => exact hd
  | first _ ih | block _ ih | ifThen _ _ _ ih | thenBranch _ _ _ ih | loop _ _ _ ih => exact ih hd
  | rest hfirst _ ih => exact ih (hfirst.tidy hd)
  | elseBranch _ _ ht _ ih => exact ih (ht.tidy hd)
  | task _ _ _ ih => exact ih (SymbolTable.tidy_fresh _)

/-- **A name that is not known can be declared**, with any type. There is always a frame to declare
it in, and the slots are counted without a check. -/
theorem SymbolTable.Tidy.exists_declare {table : SymbolTable} (h : table.Tidy) {name : String}
    (hname : table.lookup name = none) (type : OperandType) :
    ∃ slot table', table.declare name type = .ok (slot, table') := by
  have hsame : ∀ info, table.lookup name = some info → info.type = type := by
    intro info hinfo
    rw [hname] at hinfo
    cases hinfo
  obtain ⟨slot, table', hassigns⟩ := exists_assigns h.frames_ne_nil hsame
  rw [Assigns, hname] at hassigns
  exact ⟨slot, table', hassigns⟩

/-! ### Whole programs -/

namespace Tree

variable {config : Config} {resolver : Resolver} {tree : Tree} {e : CompileError}

/-- **Where a program fails to compile**, its review has the same complaint, unless the labels of a
unit have run out of numbers. The unit may be that of the program or that of a task. -/
theorem review_of_compile (h : compile config resolver tree = .error e) :
    tree.review config resolver config.programName = .error e ∨
      ¬tree.LabelsFit ∧ ∃ unit fault, e = .artifact unit fault := by
  have hfails : Action.Fails (Session.compileUnit config.programName .program tree.tag
      tree.toStmt.compile) { config := config, resolver := resolver } e := by
    unfold compile Session.compile Session.compileNamed at h
    split at h
    · cases h
    · rename_i e' after hrun
      cases h
      split at hrun
      · rename_i e' after' hunit
        cases hrun
        exact ⟨after', hunit⟩
      · cases hrun
  have hs := Session.At.forget { config := config, resolver := resolver }
  rw [review]
  rcases Session.fails_compileUnit hs hfails with
    hcheck | ⟨hcheck, ⟨cx, hat, h⟩ | ⟨code, d, hcode, h⟩⟩
  · rw [hcheck]
    exact .inl rfl
  · rw [hcheck, Result.ok_bind]
    exact (Stmt.review_of_fails (body_some tree) hat (SymbolTable.tidy_fresh []) nofun h).imp_right
      fun hout => ⟨fun hfit => hout.1 hfit.2, hout.2⟩
  · obtain ⟨fault, rfl⟩ := CodeUnit.exists_of_checkLabels h
    refine .inr ⟨fun hfit => ?_, _, fault, rfl⟩
    rw [hcode.checkLabels_iff.2 hfit.1] at h
    cases h

/-- A program that compiles passes its review. -/
theorem exists_review_of_compile {c : Compilation} (h : compile config resolver tree = .ok c) :
    ∃ known, tree.review config resolver config.programName = .ok known := by
  obtain ⟨hplain, code, d, hcode, -⟩ := compile_eq_ok_iff.1 h
  refine ⟨d.known, ?_⟩
  rw [review, checkUnitName_eq_ok.2 hplain, Result.ok_bind]
  exact hcode.review_eq nofun

/-- **A program fails to compile exactly if it fails its review**, with the same error, if there are
numbers enough for its labels. So the errors of the compiler can be read off a function that has
nothing to do with code. -/
theorem compile_error_iff_review (hfit : tree.LabelsFit) :
    compile config resolver tree = .error e ↔
      tree.review config resolver config.programName = .error e := by
  constructor
  · intro h
    rcases review_of_compile h with hreview | ⟨hnot, -⟩
    · exact hreview
    · exact absurd hfit hnot
  · intro h
    rcases hcompile : compile config resolver tree with e' | c
    · rcases review_of_compile hcompile with hreview | ⟨hnot, -⟩
      · cases hreview.symm.trans h
        rfl
      · exact absurd hfit hnot
    · obtain ⟨known, hreview⟩ := exists_review_of_compile hcompile
      rw [hreview] at h
      cases h

end Tree

/-- **The compiler fails only on account of the program.** With tasks that are known from a table,
no error is one of the compiler itself, short of a unit with more than `2 ^ 32` labels. A program
fails exactly if it fails its review; and wherever an assignment is come to whose name is not known,
the name can be declared.

That the labels fit is stated apart, with a bound on the tree that implies it, so that the exception
cannot be taken for more than it is. -/
theorem compile_error_answerable (config : Config) (registry : Registry) (tree : Tree) :
    (∀ e, compile config registry.resolver tree = .error e →
        e.isInternal = false ∨ ¬tree.LabelsFit ∧ ∃ unit fault, e = .artifact unit fault) ∧
      (tree.size ≤ 2 ^ 31 → tree.LabelsFit) ∧
      (tree.LabelsFit → ∀ e, compile config registry.resolver tree = .error e ↔
        tree.review config registry.resolver config.programName = .error e) ∧
      ∀ w d tag name value, Stmt.ComesTo (.ofProgram config registry.resolver config.programName)
          (.fresh []) tree.toStmt w d (.assign tag name value) →
        d.table.lookup name = none → ∀ type, ∃ slot table,
          d.table.declare name type = .ok (slot, table) := by
  refine ⟨fun e h => ?_, Tree.labelsFit_of_size_le,
    fun hfit e => Tree.compile_error_iff_review hfit, fun w d tag name value h hname type => ?_⟩
  · rcases Tree.review_of_compile h with hreview | hout
    · exact .inl (Tree.isInternal_of_review registry.isAnswerable_resolver hreview)
    · exact .inr hout
  · exact (h.tidy (SymbolTable.tidy_fresh [])).exists_declare hname type

/-- A task in which a variable is given a type, and then a value of another. -/
def Tree.retyping : Tree :=
  .ofInlineSpawn "Outer" (.ofList [.ofAssign "n" (.ofBool true), .ofAssign "n" (.ofString "no")])

theorem compile_error_retyping :
    Tree.retyping.size ≤ 2 ^ 31 ∧ Tree.retyping.LabelsFit ∧
      compile {} (Registry.mk []).resolver .retyping =
        .error (.typeMismatch (SymbolTable.nameText "n") (.type .boolean) .reference) ∧
      (CompileError.typeMismatch (SymbolTable.nameText "n") (.type .boolean)
        .reference).isInternal = false ∧
      ∃ slot table, (Draft.fresh []).table.declare "n" .boolean = .ok (slot, table) := by
  obtain ⟨hanswerable, hfit, hreview, hdeclare⟩ :=
    compile_error_answerable {} (Registry.mk []) .retyping
  have hsize : Tree.retyping.size ≤ 2 ^ 31 := by decide
  have herror := (hreview (hfit hsize) _).2 (rfl : Tree.retyping.review {} _ _ =
    .error (.typeMismatch (SymbolTable.nameText "n") (.type .boolean) .reference))
  have hplain : PlainName "Outer" := by
    unfold PlainName
    decide
  refine ⟨hsize, hfit hsize, herror, (hanswerable _ herror).resolve_right ?_, ?_⟩
  · rintro ⟨hnot, -⟩
    exact hnot (hfit hsize)
  · exact hdeclare _ _ _ _ _ (.task hplain ⟨nofun, by decide⟩ (.first .here)) rfl .boolean

/-- **Every error points into the tree**, if tasks are known from a table. Another resolver is free
to have errors that point anywhere.

The errors of the compiler itself are included: if the labels of a unit run out, there is an error
without a node, and then there is nothing to point with. -/
theorem compile_error_points_into (config : Config) (registry : Registry) (tree : Tree)
    (e : CompileError) (h : compile config registry.resolver tree = .error e) :
    e.PointsInto tree := by
  rcases Tree.review_of_compile h with hreview | ⟨-, unit, fault, rfl⟩
  · exact (Tree.complaint_of_review hreview).pointsInto
  · trivial

/-- A task starts one that is to be found, and then one that is not. -/
def Tree.searching : Tree :=
  .ofInlineSpawn "Outer" (.ofList [.ofSpawn "Job", .ofAssign "n" (.ofBool true), .ofSpawn "Lost"])

theorem compile_error_points_into_searching :
    compile { taskSearchPath := some "tasks" }
        (Registry.insert {} "tasks" ⟨"Job", true, true⟩).resolver .searching =
          .error (.unitNotFound "Lost" "tasks") ∧
      (CompileError.unitNotFound "Lost" "tasks").PointsInto .searching := by
  have herror : compile { taskSearchPath := some "tasks" }
      (Registry.insert {} "tasks" ⟨"Job", true, true⟩).resolver .searching =
        .error (.unitNotFound "Lost" "tasks") :=
    (Tree.compile_error_iff_review (Tree.labelsFit_of_size_le (by decide))).2 rfl
  exact ⟨herror, compile_error_points_into _ _ _ _ herror⟩

end StackUnits
