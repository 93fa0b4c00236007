import StackUnits.Proofs.Review

/-!
# What a review complains about

A review ends with the first complaint about the program, and every complaint is about something
that stands in the tree. The complaints are listed here once (`StackUnits.Complaint`), each with the
tag of the node that it is about, and it is shown that a review makes no others
(`StackUnits.Tree.complaint_of_review`). What is to be known of the errors of a program is then read
off the list:

* `StackUnits.Complaint.isInternal_eq_false` – no complaint is one that the compiler has about
  itself (`StackUnits.CompileError.isInternal`);
* `StackUnits.Complaint.pointsInto` – every complaint leads back to a node of the tree
  (`StackUnits.CompileError.PointsInto`).

A resolver is asked about tasks, and may answer with an error of its own. Such an error is a
complaint about the node that starts the task, whatever the resolver is.
-/

namespace StackUnits

/-! ### The nodes of a tree -/

/-- **The tags of all nodes of a tree**, that of the root first. -/
def Tree.tags : Tree → List Tag
  | .node tag left right =>
    tag :: ((match left with | some l => l.tags | none => [])
      ++ (match right with | some r => r.tags | none => []))

namespace Tree

variable {tag : Tag} {left right : Option Tree} {tags : List Tag}

/-- The nodes of a tree are its root and those of the children that are present. With this the walk
of a review hands down what it knows of the whole tree to the part that it comes to. -/
theorem tags_subset_iff : (node tag left right).tags ⊆ tags ↔
    tag ∈ tags ∧ (∀ l, left = some l → l.tags ⊆ tags) ∧ ∀ r, right = some r → r.tags ⊆ tags := by
  cases left <;> cases right <;> simp [Tree.tags, List.cons_subset, List.append_subset]

theorem tag_mem_tags (t : Tree) : t.tag ∈ t.tags := by
  obtain ⟨tag, left, right⟩ := t
  exact (tags_subset_iff.1 (List.Subset.refl _)).1

end Tree

/-! ### Errors of the compiler itself, and errors of the program -/

namespace CompileError

/-- **An error that the compiler makes, and not the program**: its type stack, its scopes or its
labels are not in order, or it has come to a node or a type that it never should come to. -/
def isInternal : CompileError → Bool
  | structural _ .stackUnderflow | structural _ .armsDisagree | structural _ (.valuesLeft _ _)
  | structural _ .noOpenScope | structural _ .declarationOutsideScope => true
  | unexpectedNode _ .literal | unexpectedNode _ .booleanOperator => true
  | unsupportedOperation operation _ _ => operation == "local variable access"
  | artifact _ _ => true
  | _ => false

/-- **An error points into a tree**: the text by which it shows a node is there and is that of a
node of the tree, a variable that it names is one of the tree, and a task that it names is started
in the tree. Errors that name none of these are about files, units and search paths. -/
def PointsInto (t : Tree) : CompileError → Prop
  | structural node _ | typeMismatch node _ _ | unexpectedNode node _
  | unsupportedPrintType _ node => ∃ tag ∈ t.tags, node = tag.text
  | unsupportedConversion _ _ node | unsupportedOperation _ _ node =>
    ∃ tag ∈ t.tags, node = some tag.text
  | unknownVariable name => ⟨.identifier, some name⟩ ∈ t.tags
  | unitNotFound name _ | invalidTaskUnit name _ => ⟨.multitask, some name⟩ ∈ t.tags
  | malformedSearchPath _ | artifact _ _ | file _ | decode _ => True

end CompileError

/-! ### Complaints -/

/-- **The complaints of a review**, about nodes with the given tags and with the given resolver. -/
inductive Complaint (resolver : Resolver) (tags : List Tag) : CompileError → Prop
  | malformed {tag fault} (htag : tag ∈ tags) (h : (tag.malformed fault).isInternal = false) :
      Complaint resolver tags (tag.malformed fault)
  | misplaced {tag position} (htag : tag ∈ tags)
      (h : (tag.misplaced position).isInternal = false) :
      Complaint resolver tags (tag.misplaced position)
  | mismatch {tag expected actual} (htag : tag ∈ tags) :
      Complaint resolver tags (.typeMismatch tag.text expected actual)
  | arithmetic {tag type} (htag : tag ∈ tags) :
      Complaint resolver tags (.unsupportedOperation "arithmetic" type (some tag.text))
  | conversion {tag source target} (htag : tag ∈ tags) :
      Complaint resolver tags (.unsupportedConversion source target (some tag.text))
  | print {tag type} (htag : tag ∈ tags) :
      Complaint resolver tags (.unsupportedPrintType type tag.text)
  | unknown {name} (hname : ⟨.identifier, some name⟩ ∈ tags) :
      Complaint resolver tags (.unknownVariable name)
  | searchPath {fault} : Complaint resolver tags (.malformedSearchPath fault)
  | notATask {name fault} (hname : ⟨.multitask, some name⟩ ∈ tags) :
      Complaint resolver tags (.invalidTaskUnit name fault)
  | unresolved {name path e} (hname : ⟨.multitask, some name⟩ ∈ tags)
      (h : (resolver name path).outcome = .error e) : Complaint resolver tags e

/-- Every error that a result may be has a property. -/
def ErrorsAre {ε α : Type} (P : ε → Prop) (result : Except ε α) : Prop :=
  ∀ ⦃e⦄, result = .error e → P e

namespace ErrorsAre

variable {ε α β : Type} {P : ε → Prop}

theorem ok (a : α) : ErrorsAre P (.ok a : Except ε α) := by
  rintro e ⟨⟩

theorem error {e : ε} (h : P e) : ErrorsAre P (.error e : Except ε α) := by
  rintro _ ⟨⟩
  exact h

/-- The errors of one step after the other are those of the first and those of the second. -/
theorem bind {x : Except ε α} {f : α → Except ε β} (hx : ErrorsAre P x)
    (hf : ∀ a, ErrorsAre P (f a)) : ErrorsAre P (x >>= f) := by
  rcases x with e | a
  · exact error (hx rfl)
  · exact hf a

/-- The errors of a choice are those of its branches; which of them is taken does not matter. -/
theorem ite {p : Prop} [Decidable p] {x y : Except ε α} (hx : ErrorsAre P x)
    (hy : ErrorsAre P y) : ErrorsAre P (if p then x else y) := by
  split
  · exact hx
  · exact hy

end ErrorsAre

/-- The errors of a result are complaints about nodes with the given tags. -/
def Complains {α : Type} (resolver : Resolver) (tags : List Tag) (result : Except CompileError α) :
    Prop :=
  ErrorsAre (Complaint resolver tags) result

variable {resolver : Resolver} {tags : List Tag} {tag : Tag}

/-! ### The checks of a review -/

/-- A name that is not plain is a complaint about the node that gives it. -/
theorem complains_checkUnitName (name : String) (htag : tag ∈ tags) :
    Complains resolver tags (checkUnitName name tag) :=
  .ite (.error (.malformed htag rfl)) (.ite (.error (.malformed htag rfl)) (.ok ()))

/-- A search path is no part of the tree, and a complaint about it names no node. -/
theorem SearchPath.complains_parse (list : String) :
    Complains resolver tags (SearchPath.parse list) :=
  .ite (.error .searchPath) (.ite (.error .searchPath) (.ok _))

namespace OperandType

/-- Operands that do not go together are a complaint about the node above them. -/
theorem complains_combined (htag : tag ∈ tags) (left right : OperandType) :
    Complains resolver tags (combined tag left right) := by
  refine .ite ?_ (.error (.mismatch htag))
  rcases left.family? with _ | family
  · exact .error (.arithmetic htag)
  · exact .ok _

theorem complains_converted (htag : tag ∈ tags) (source target : OperandType) :
    Complains resolver tags (converted tag source target) := by
  unfold converted
  rcases source.conversionTo? target with _ | conversion
  · exact .error (.conversion htag)
  · exact .ok _

theorem complains_tested (htag : tag ∈ tags) (type : OperandType) :
    Complains resolver tags (tested tag type) :=
  .ite (.ok _) (.error (.mismatch htag))

end OperandType

/-- The text of a literal may be wrong, but a literal is never out of place: the complaint that a
node is no literal after all is one of the compiler about itself, and is not made. -/
theorem Tag.complains_literal (htag : tag ∈ tags) (h : tag.kind.isLiteral = true) (raw : String) :
    Complains resolver tags (tag.literal raw) := by
  unfold Tag.literal
  cases hkind : tag.kind
  case literalBoolean => exact .ite (.ok _) (.ite (.ok _) (.error (.malformed htag rfl)))
  case literalCharacter =>
    dsimp only
    split
    · exact .ite (.ok _) (.error (.malformed htag rfl))
    · exact .error (.malformed htag rfl)
  case literalInteger =>
    dsimp only
    split
    · exact .ok _
    · exact .error (.malformed htag rfl)
  case literalFloat =>
    dsimp only
    split
    · exact .ok _
    · exact .error (.malformed htag rfl)
  case literalString => exact .ok _
  all_goals
    rw [hkind] at h
    cases h

/-- A node is one of those of its kind that carry its text. -/
theorem Tag.mem_of_value {kind : Kind} {name : String} (htag : tag ∈ tags) (hkind : tag.kind = kind)
    (hvalue : tag.value = some name) : ⟨kind, some name⟩ ∈ tags := by
  rw [← hkind, ← hvalue]
  exact htag

/-- A name that is assigned to is shown as its node. The node is made anew from the name, but it is
one of the tree all the same. -/
theorem Known.complains_assigned {name : String} (hname : ⟨.identifier, some name⟩ ∈ tags)
    (known : Known) (type : OperandType) : Complains resolver tags (known.assigned name type) := by
  unfold assigned
  rcases known.env name with _ | other
  · exact .ok _
  · exact .ite (.ok _) (.error (.mismatch hname))

theorem TaskInfo.complains_startable {name : String} (hname : ⟨.multitask, some name⟩ ∈ tags)
    (task : TaskInfo) : Complains resolver tags (task.startable name) :=
  .ite (.ite (.ok _) (.error (.notATask hname))) (.error (.notATask hname))

/-- **A task that cannot be started** is a complaint about the node that names it, or about the
search path, or it is the resolver's own. -/
theorem World.complains_taskNamed {name : String} (hname : ⟨.multitask, some name⟩ ∈ tags)
    (w : World) (finished : List String) :
    Complains w.resolver tags (w.taskNamed finished name) := by
  refine .ite (.ok _) ?_
  rcases w.begun.lookup name with _ | kind
  · rcases w.config.taskSearchPath with _ | list
    · exact .error .searchPath
    · exact .bind (SearchPath.complains_parse list) fun path =>
        .bind (fun _ h => .unresolved hname h) fun task => .ite (.ok _) (.error (.notATask hname))
  · exact .ok _

/-! ### The walk of a review -/

namespace Tree

open OperandType

/-- **A node that is no expression** is malformed or out of place; it is not looked at any
further. -/
theorem complaint_of_toExpr {t : Tree} {error : CompileError} (ht : t.tags ⊆ tags)
    (h : t.toExpr = .fault tag error) : Complaint resolver tags error := by
  obtain ⟨tag', left, right⟩ := t
  have htag := (tags_subset_iff.1 ht).1
  rw [toExpr_node, Expr.ofParts] at h
  cases hkind : tag'.kind
  all_goals simp only [hkind] at h
  case identifier =>
    unfold Expr.ofIdentifier at h
    split at h
    · cases h
    · cases h
      exact .malformed htag rfl
  case literalBoolean | literalCharacter | literalInteger | literalFloat | literalString =>
    unfold Expr.ofLiteral at h
    split at h
    · cases h
      exact .malformed htag rfl
    · split at h
      · cases h
      · rename_i hliteral
        cases h
        exact Tag.complains_literal htag (by rw [hkind]; rfl) _ hliteral
  case add | subtract | multiply | divide | modulo | and | or | equal | less | greater =>
    rcases left with _ | l
    · cases h
      exact .malformed htag rfl
    · rcases right with _ | r
      · cases h
        exact .malformed htag rfl
      · cases h
  case castChar | castByte | castShort | castInt | castLong | castFloat | castDouble | not =>
    rcases left with _ | l
    · cases h
      exact .malformed htag rfl
    · cases h
  -- Every other kind is that of a statement.
  all_goals
    cases h
    exact .misplaced htag rfl

/-- **A node that is no statement** is malformed or out of place. Only an assignment looks at the
node below, which is its target, so that the complaint may be about either of the two. -/
theorem complaint_of_toStmt {t : Tree} {error : CompileError} (ht : t.tags ⊆ tags)
    (h : t.toStmt = .fault tag error) : Complaint resolver tags error := by
  obtain ⟨tag', left, right⟩ := t
  obtain ⟨htag, hleft, -⟩ := tags_subset_iff.1 ht
  rw [toStmt.eq_def] at h
  cases hkind : tag'.kind
  all_goals simp only [hkind] at h
  case sequence => cases h
  case block =>
    rcases right with _ | r
    · cases h
    · cases h
      exact .malformed htag rfl
  case assign =>
    rcases left with _ | target
    · cases h
      exact .malformed htag rfl
    have htarget := hleft target rfl (tag_mem_tags target)
    simp only [Option.map_some, Stmt.ofAssign] at h
    split at h
    · cases h
      exact .malformed htag rfl
    · split at h
      · cases h
        exact .malformed htarget rfl
      · cases h
        exact .malformed htag rfl
      · cases h
  case print | assert | sleep =>
    rcases left with _ | l
    · cases h
      exact .malformed htag rfl
    · cases h
  case multitask =>
    unfold Stmt.ofSpawn at h
    split at h
    · cases h
      exact .malformed htag rfl
    · cases h
    · cases h
  case ifThen | loop =>
    rcases left with _ | c
    · cases h
      exact .malformed htag rfl
    · rcases right with _ | b
      · cases h
        exact .malformed htag rfl
      · cases h
  case ifElse =>
    unfold Stmt.ofIfElse at h
    split at h
    · cases h
      exact .malformed htag rfl
    · cases h
      exact .malformed htag rfl
    · split at h
      · cases h
        exact .malformed htag rfl
      · split at h
        · cases h
          exact .malformed htag rfl
        · cases h
          exact .malformed htag rfl
        · cases h
  -- Every other kind is that of an expression.
  all_goals
    cases h
    exact .misplaced htag rfl

/-- **The complaints about an expression** are about its nodes. The induction is on the tree, as the
complaint that a node is no expression is decided by the tree. -/
theorem complains_toExpr (t : Tree) (ht : t.tags ⊆ tags) (Γ : TypeEnv) :
    Complains resolver tags (t.toExpr.review Γ) := by
  induction t with
  | node tag left right ihl ihr =>
    obtain ⟨htag, hleft, hright⟩ := tags_subset_iff.1 ht
    generalize he : (node tag left right).toExpr = e
    cases readsExpr_of_eq he with
    | fault h => exact .error (complaint_of_toExpr ht h)
    | literal => exact .ok _
    | @var _ _ _ name hkind hname =>
      rw [Expr.review]
      rcases Γ name with _ | type
      · exact .error (.unknown (Tag.mem_of_value htag hkind hname))
      · exact .ok _
    | arith =>
      exact .bind (ihl _ rfl (hleft _ rfl)) fun tl => .bind (ihr _ rfl (hright _ rfl)) fun tr =>
        complains_combined htag tl tr
    | cast =>
      exact .bind (ihl _ rfl (hleft _ rfl)) fun source => complains_converted htag source _
    | and | or =>
      exact .bind (.bind (ihl _ rfl (hleft _ rfl)) (complains_tested htag)) fun _ =>
        .bind (.bind (ihr _ rfl (hright _ rfl)) (complains_tested htag)) fun _ => .ok _
    | not =>
      exact .bind (.bind (ihl _ rfl (hleft _ rfl)) (complains_tested htag)) fun _ => .ok _
    | compare =>
      exact .bind (ihl _ rfl (hleft _ rfl)) fun tl => .bind (ihr _ rfl (hright _ rfl)) fun tr =>
        .bind (.bind (complains_combined htag tl tr) (complains_tested htag)) fun _ => .ok _

theorem complains_reviewTested (t : Tree) (ht : t.tags ⊆ tags) (Γ : TypeEnv) (htag : tag ∈ tags) :
    Complains resolver tags (t.toExpr.reviewTested Γ tag) :=
  .bind (complains_toExpr t ht Γ) (complains_tested htag)

/-- **The complaints about a statement** are about its nodes, those of tasks given on the spot
included. -/
theorem complains_body (o : Option Tree) (ho : ∀ t, o = some t → t.tags ⊆ tags) (w : World)
    (known : Known) : Complains w.resolver tags ((body o).review w known) := by
  induction o using part_induction generalizing w known with
  | absent => exact .ok _
  | node tag left right ihl ihr =>
    have ht := ho _ rfl
    obtain ⟨htag, hleft, hright⟩ := tags_subset_iff.1 ht
    generalize hs : body (some (node tag left right)) = s
    cases readsStmt_of_eq hs with
    | fault h => exact .error (complaint_of_toStmt ht h)
    | sequence => exact .bind (ihl hleft w known) (ihr hright w)
    | block => exact ihl hleft w known
    | @assign _ target _ _ _ _ _ htarget hname =>
      have hmem := Tag.mem_of_value (hleft _ rfl (tag_mem_tags _)) htarget hname
      exact .bind (complains_toExpr _ (hright _ rfl) _) (known.complains_assigned hmem)
    | print =>
      exact .bind (complains_toExpr _ (hleft _ rfl) _) fun type =>
        .ite (.error (.print htag)) (.ok _)
    | assert | sleep =>
      exact .bind (complains_reviewTested _ (hleft _ rfl) _ htag) fun _ => .ok _
    | ifThen | loop =>
      exact .bind (complains_reviewTested _ (hleft _ rfl) _ htag) fun _ => ihr hright w known
    | ifElse _ hinner =>
      refine .bind (complains_reviewTested _ (hleft _ rfl) _ htag) fun _ => ?_
      -- The two branches are reviewed as the sequence in which they stand.
      have hbranches := ihr hright w known
      rw [body_some, (ReadsStmt.sequence hinner).eq] at hbranches
      exact hbranches
    | spawn hkind hname =>
      have hmem := Tag.mem_of_value htag hkind hname
      exact .bind (complains_checkUnitName _ htag) fun _ =>
        .bind (w.complains_taskNamed hmem _) fun task =>
          .bind (task.complains_startable hmem) fun _ => .ok _
    | @spawnInline _ task =>
      have hbody := hleft task rfl (tag_mem_tags task)
      exact .ite (.error (.malformed hbody rfl)) (.bind (complains_checkUnitName _ hbody) fun _ =>
        .bind (ihl hleft (w.begin _ _) _) fun _ => .ok _)

variable {t : Tree} {config : Config} {name : String} {e : CompileError}

/-- **The complaints about a program** are about its nodes. Of what a review complains, the compiler
complains as well (`StackUnits.Proofs.Refusal`), so that this is a result about its errors. -/
theorem complaint_of_review (h : t.review config resolver name = .error e) :
    Complaint resolver t.tags e := by
  have hreview : Complains resolver t.tags (t.review config resolver name) :=
    .bind (complains_checkUnitName name (tag_mem_tags t)) fun _ =>
      complains_body (some t) (fun _ ht => by cases ht; exact List.Subset.refl _)
        (.ofProgram config resolver name) _
  exact hreview h

end Tree

/-! ### What is read off the list -/

/-- The errors of a result are not errors of the compiler itself. -/
def Answerable {α : Type} (result : Except CompileError α) : Prop :=
  ErrorsAre (fun e => e.isInternal = false) result

/-- A resolver that does not complain about the compiler. -/
def Resolver.IsAnswerable (resolver : Resolver) : Prop :=
  ∀ name path, Answerable (resolver name path).outcome

/-- A table of tasks has one complaint: that a task is not in it, which names the task and the
directories. -/
theorem Registry.missing_of_outcome {registry : Registry} {name : String} {path : SearchPath}
    {e : CompileError} (h : (registry.resolver name path).outcome = .error e) :
    e = path.missing name := by
  unfold resolver at h
  split at h
  · cases h
  · cases h
    rfl

theorem Registry.isAnswerable_resolver (registry : Registry) :
    registry.resolver.IsAnswerable := by
  intro name path e h
  rw [missing_of_outcome h]
  rfl

namespace Complaint

variable {e : CompileError}

/-- **No complaint is an error of the compiler itself**, unless the resolver makes it one. A
resolver is any function, and so it has to be asked of it. -/
theorem isInternal_eq_false (h : Complaint resolver tags e) (hresolver : resolver.IsAnswerable) :
    e.isInternal = false := by
  cases h with
  | malformed _ h | misplaced _ h => exact h
  | mismatch | conversion | print | unknown | searchPath | notATask => rfl
  | arithmetic => exact (by decide : ("arithmetic" == "local variable access") = false)
  | unresolved _ h => exact hresolver _ _ h

/-- **Every complaint points into the tree**, if tasks are known from a table. A resolver could
answer with an error that names anything; a table names the task that it was asked for. -/
theorem pointsInto {registry : Registry} {t : Tree} (h : Complaint registry.resolver t.tags e) :
    e.PointsInto t := by
  cases h with
  | malformed htag | misplaced htag | mismatch htag | arithmetic htag | conversion htag
  | print htag => exact ⟨_, htag, rfl⟩
  | unknown hname | notATask hname => exact hname
  | searchPath => trivial
  | unresolved hname h =>
    rw [Registry.missing_of_outcome h]
    exact hname

end Complaint

namespace Tree

variable {t : Tree} {config : Config} {name : String} {e : CompileError}

/-- **No complaint of a review** is an error of the compiler itself. The review knows nothing of
stacks and labels, and so has no words for what could go wrong with them. -/
theorem isInternal_of_review (hresolver : resolver.IsAnswerable)
    (h : t.review config resolver name = .error e) : e.isInternal = false :=
  (complaint_of_review h).isInternal_eq_false hresolver

end Tree

end StackUnits
