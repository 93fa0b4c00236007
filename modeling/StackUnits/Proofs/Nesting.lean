import Mathlib.Algebra.Ring.Nat
import StackUnits.Proofs.Acceptance
import StackUnits.Proofs.Units

/-!
# Sequences and blocks are transparent

Statements can be put together in many ways: into sequences within sequences, on the left or on the
right, with children left out, into blocks. None of this is seen in the code. A program is as good
as the flat list of its statements (`StackUnits.Tree.statements`), where the bodies within the
statements have been flattened too.

Two statements are **the same to the compiler** if they have the same code wherever they stand, and
need the same room (`StackUnits.Stmt.Same`). For this relation sequences are associative, the empty
statement is neutral, and a block is its body; and the relation is kept by everything that can be
around a statement. So a tree is the same as the list of its statements one after the other
(`StackUnits.Tree.same_statements`).
-/

namespace StackUnits

/-! ### Code of compound statements -/

namespace Stmt

variable {w : World} {d d' : Draft} {code : List Instruction} {tag tag' : Tag} {s t u : Stmt}

theorem hasCode_nothing : HasCode w d .nothing code d' ↔ code = [] ∧ d' = d := by
  constructor
  · rintro ⟨⟩
    exact ⟨rfl, rfl⟩
  · rintro ⟨rfl, rfl⟩
    exact .nothing

/-- The code of a sequence is that of its parts, one behind the other. This and the following are
the rules of `StackUnits.Stmt.HasCode` read backwards. -/
theorem hasCode_sequence :
    HasCode w d (.sequence tag s t) code d' ↔
      ∃ c₁ d₁ c₂, s.HasCode w d c₁ d₁ ∧ t.HasCode w d₁ c₂ d' ∧ code = c₁ ++ c₂ := by
  constructor
  · intro h
    cases h with
    | sequence h₁ h₂ => exact ⟨_, _, _, h₁, h₂, rfl⟩
  · rintro ⟨c₁, d₁, c₂, h₁, h₂, rfl⟩
    exact .sequence h₁ h₂

/-- A block has the code of its body. -/
theorem hasCode_block : HasCode w d (.block tag s) code d' ↔ s.HasCode w d code d' := by
  constructor
  · intro h
    cases h with
    | block hs => exact hs
  · exact .block

theorem hasCode_ifThen {e : Expr} :
    HasCode w d (.ifThen tag e s) code d' ↔
      ∃ c type k cb, e.HasCode d.table d.labels c type k ∧ type.isIntCategory = true ∧
        s.HasCode w { d with labels := k + 1 } cb d' ∧ code = Code.option k .eq c cb := by
  constructor
  · intro h
    cases h with
    | ifThen hc htype hb => exact ⟨_, _, _, _, hc, htype, hb, rfl⟩
  · rintro ⟨c, type, k, cb, h, htype, hb, rfl⟩
    exact .ifThen h htype hb

theorem hasCode_ifElse {e : Expr} :
    HasCode w d (.ifElse tag e s t) code d' ↔
      ∃ c type k ct d₁ ce, e.HasCode d.table d.labels c type k ∧ type.isIntCategory = true ∧
        s.HasCode w { d with labels := k + 2 } ct d₁ ∧ t.HasCode w d₁ ce d' ∧
        code = Code.choice k .eq c ct ce := by
  constructor
  · intro h
    cases h with
    | ifElse hc htype ht he => exact ⟨_, _, _, _, _, _, hc, htype, ht, he, rfl⟩
  · rintro ⟨c, type, k, ct, d₁, ce, h, htype, ht, he, rfl⟩
    exact .ifElse h htype ht he

theorem hasCode_loop {e : Expr} :
    HasCode w d (.loop tag e s) code d' ↔
      ∃ c type k cb, e.HasCode d.table (d.labels + 2) c type k ∧ type.isIntCategory = true ∧
        s.HasCode w { d with labels := k } cb d' ∧ code = Code.loop d.labels c cb := by
  constructor
  · intro h
    cases h with
    | loop hc htype hb => exact ⟨_, _, _, _, hc, htype, hb, rfl⟩
  · rintro ⟨c, type, k, cb, h, htype, hb, rfl⟩
    exact .loop h htype hb

/-- The code around a task given on the spot has its name only; what the task is compiled to is
among the units. -/
theorem hasCode_spawnInline {name : String} :
    HasCode w d (.spawnInline tag name tag' s) code d' ↔
      PlainName name ∧ w.Unused d.units name ∧
        ∃ c d₁, s.HasCode (w.begin name .task) (.fresh d.units) c d₁ ∧
          (d₁.unit name .task s.peak c).checkLabels = .ok () ∧ code = Code.spawn name ∧
          d' = { d with units := d₁.units ++ [d₁.unit name .task s.peak c] } := by
  constructor
  · intro h
    cases h with
    | spawnInline hplain hunused hc hlabels =>
      exact ⟨hplain, hunused, _, _, hc, hlabels, rfl, rfl⟩
  · rintro ⟨hplain, hunused, c, d₁, h, hlabels, rfl, rfl⟩
    exact .spawnInline hplain hunused h hlabels

/-! ### Statements that are the same to the compiler -/

/-- **Two statements are the same to the compiler**: they have the same code wherever they stand,
and need the same room for values. -/
structure Same (s s' : Stmt) : Prop where
  peak : s.peak = s'.peak
  code : ∀ w d code d', s.HasCode w d code d' ↔ s'.HasCode w d code d'

namespace Same

variable {s' t' : Stmt} {e e' : Expr}

protected theorem refl (s : Stmt) : s.Same s :=
  ⟨rfl, fun _ _ _ _ => Iff.rfl⟩

protected theorem symm (h : s.Same t) : t.Same s :=
  ⟨h.peak.symm, fun w d code d' => (h.code w d code d').symm⟩

protected theorem trans (h : s.Same t) (h' : t.Same u) : s.Same u :=
  ⟨h.peak.trans h'.peak, fun w d code d' => (h.code w d code d').trans (h'.code w d code d')⟩

/-- A fault has no code, whatever is wrong. So two programs that do not compile are the same here,
also if their errors are not. -/
theorem fault {error error' : CompileError} : Same (.fault tag error) (.fault tag' error') where
  peak := rfl
  code _ _ _ _ := by
    constructor
    · rintro ⟨⟩
    · rintro ⟨⟩

/-! What is around a statement keeps the relation. -/

/-- **A sequence** of statements that are the same is the same, since the second one starts from the
same draft. -/
theorem sequence (hs : s.Same s') (ht : t.Same t') :
    Same (.sequence tag s t) (.sequence tag' s' t') where
  peak := by rw [Stmt.peak, Stmt.peak, hs.peak, ht.peak]
  code _ _ _ _ := by simp only [hasCode_sequence, hs.code, ht.code]

theorem ifThen (he : e = e') (hs : s.Same s') : Same (.ifThen tag e s) (.ifThen tag' e' s') where
  peak := by rw [Stmt.peak, Stmt.peak, he, hs.peak]
  code _ _ _ _ := by simp only [hasCode_ifThen, he, hs.code]

theorem ifElse (he : e = e') (hs : s.Same s') (ht : t.Same t') :
    Same (.ifElse tag e s t) (.ifElse tag' e' s' t') where
  peak := by rw [Stmt.peak, Stmt.peak, he, hs.peak, ht.peak]
  code _ _ _ _ := by simp only [hasCode_ifElse, he, hs.code, ht.code]

theorem loop (he : e = e') (hs : s.Same s') : Same (.loop tag e s) (.loop tag' e' s') where
  peak := by rw [Stmt.peak, Stmt.peak, he, hs.peak]
  code _ _ _ _ := by simp only [hasCode_loop, he, hs.code]

/-- **A task** whose body is the same has the same unit, and so leaves the same behind. -/
theorem spawnInline {name : String} {bodyTag bodyTag' : Tag} (hs : s.Same s') :
    Same (.spawnInline tag name bodyTag s) (.spawnInline tag' name bodyTag' s') where
  peak := rfl
  code _ _ _ _ := by simp only [hasCode_spawnInline, hs.code, hs.peak]

/-! Sequences and blocks. -/

/-- **A block is its body.** It opens no scope, so that what it declares is there after it. -/
theorem block : Same (.block tag s) s where
  peak := rfl
  code _ _ _ _ := hasCode_block

/-- **The empty statement is neutral** on the right, -/
theorem sequence_nothing : Same (.sequence tag s .nothing) s where
  peak := Nat.max_eq_left (Nat.zero_le _)
  code _ _ _ _ := by simp [hasCode_sequence, hasCode_nothing]

/-- and on the left. -/
theorem nothing_sequence : Same (.sequence tag .nothing s) s where
  peak := Nat.max_eq_right (Nat.zero_le _)
  code _ _ _ _ := by simp [hasCode_sequence, hasCode_nothing]

/-- **Sequences are associative**, and their tags make no difference. -/
theorem sequence_assoc {tag₁ tag₂ tag₃ tag₄ : Tag} :
    Same (.sequence tag₁ (.sequence tag₂ s t) u) (.sequence tag₃ s (.sequence tag₄ t u)) where
  peak := Nat.max_assoc _ _ _
  code _ _ _ _ := by
    simp only [hasCode_sequence]
    constructor
    · rintro ⟨_, d₂, c₃, ⟨c₁, d₁, c₂, h₁, h₂, rfl⟩, h₃, rfl⟩
      exact ⟨c₁, d₁, c₂ ++ c₃, h₁, ⟨c₂, d₂, c₃, h₂, h₃, rfl⟩, List.append_assoc _ _ _⟩
    · rintro ⟨c₁, d₁, _, h₁, ⟨c₂, d₂, c₃, h₂, h₃, rfl⟩, rfl⟩
      exact ⟨c₁ ++ c₂, d₂, c₃, ⟨c₁, d₁, c₂, h₁, h₂, rfl⟩, h₃, (List.append_assoc _ _ _).symm⟩

end Same

/-- Statements one after the other. -/
def chain : List Stmt → Stmt
  | [] => .nothing
  | s :: rest => .sequence ⟨.sequence, none⟩ s (chain rest)

/-- Two lists of statements in a sequence are the same as one list. -/
theorem same_chain_append (tag : Tag) (ss ss' : List Stmt) :
    (chain (ss ++ ss')).Same (.sequence tag (chain ss) (chain ss')) := by
  induction ss with
  | nil => exact Same.nothing_sequence.symm
  | cons s rest ih =>
    have hcons : (chain (s :: rest ++ ss')).Same
        (.sequence tag s (.sequence tag (chain rest) (chain ss'))) := .sequence (.refl s) ih
    exact hcons.trans Same.sequence_assoc.symm

/-- A statement on its own. -/
theorem Same.chain_singleton {s' : Stmt} (h : s.Same s') : s.Same (chain [s']) :=
  h.trans Same.sequence_nothing.symm

end Stmt

/-! ### The statements of a tree -/

namespace Tree

/-- **The flat list of the statements of a tree.** Sequences, and blocks without a right child, are
replaced by their statements; the bodies within the statements are put together anew from theirs.
The node that holds the branches of a conditional is no sequence of statements and stays. -/
def statements : Tree → List Tree
  | .node tag left right =>
    match tag.kind with
    | .sequence =>
      (match left with | some l => l.statements | none => [])
        ++ (match right with | some r => r.statements | none => [])
    | .block =>
      match right with
      | some _ => [.node tag left right]
      | none => match left with | some l => l.statements | none => []
    | .ifThen | .loop =>
      [.node tag left (match right with | some r => some (ofList r.statements) | none => none)]
    | .ifElse =>
      [.node tag left
        (match right with
          | some (.node inner l r) =>
            some (.node inner
              (match l with | some l => some (ofList l.statements) | none => none)
              (match r with | some r => some (ofList r.statements) | none => none))
          | none => none)]
    | .multitask =>
      [.node tag (match left with | some l => some (ofList l.statements) | none => none) right]
    | _ => [.node tag left right]

/-- The statements of a child; an absent one has none. -/
def bodyStatements : Option Tree → List Tree
  | some t => t.statements
  | none => []

theorem statements_sequence {tag : Tag} {left right : Option Tree} (h : tag.kind = .sequence) :
    (node tag left right).statements = bodyStatements left ++ bodyStatements right := by
  rw [statements.eq_def]
  simp only [h]
  cases left <;> cases right <;> rfl

theorem statements_block {tag : Tag} {left : Option Tree} (h : tag.kind = .block) :
    (node tag left none).statements = bodyStatements left := by
  rw [statements.eq_def]
  simp only [h]
  cases left <;> rfl

/-- A list of statements put together is read as the statements one after the other. The list is put
together from the right, with an empty sequence for an empty list. -/
theorem same_ofList (ts : List Tree) : (ofList ts).toStmt.Same (.chain (ts.map toStmt)) := by
  induction ts with
  | nil => exact .nothing_sequence
  | cons t rest ih =>
    rcases rest with _ | ⟨t', rest⟩
    · exact .sequence (.refl _) (.refl _)
    · exact .sequence (.refl _) ih

/-- Induction on the parts of a tree, with the hypothesis also for the parts of the right child:
there the branches of a conditional are, below a node that is no statement. -/
theorem part_induction_deep {P : Option Tree → Prop} (absent : P none)
    (node : ∀ tag left right, P left → P right →
      (∀ inner l r, right = some (.node inner l r) → P l ∧ P r) → P (some (.node tag left right)))
    (o : Option Tree) : P o := by
  have hboth : P o ∧ ∀ inner l r, o = some (.node inner l r) → P l ∧ P r := by
    induction o using part_induction with
    | absent => exact ⟨absent, by rintro _ _ _ ⟨⟩⟩
    | node tag left right ihl ihr =>
      refine ⟨node tag left right ihl.1 ihr.1 ihr.2, ?_⟩
      rintro _ _ _ ⟨⟩
      exact ⟨ihl.1, ihr.1⟩
  exact hboth.1

/-- A body that is the same as its statements is the same as the tree put together from them, and is
absent if that is. -/
theorem rel_ofList {o : Option Tree} :
    (body o).Same (.chain ((bodyStatements o).map toStmt)) →
      Option.Rel Stmt.Same (match o with | some t => some t.toStmt | none => none)
        (match (match o with | some t => some (ofList t.statements) | none => none) with
          | some t => some t.toStmt
          | none => none) := by
  intro h
  rcases o with _ | t
  · exact .none
  · exact .some (h.trans (same_ofList _).symm)

/-- **A tree is the same to the compiler as its statements**, one after the other. Since what is
around a statement keeps the relation, the bodies within the statements may be flattened at the same
time. -/
theorem same_statements (o : Option Tree) :
    (body o).Same (.chain ((bodyStatements o).map toStmt)) := by
  induction o using part_induction_deep with
  | absent => exact .refl _
  | node tag left right ihl ihr hdeep =>
    have hexpr : Option.Rel Eq (left.map toExpr) (left.map toExpr) := by
      rcases left.map toExpr with _ | e
      · exact .none
      · exact .some rfl
    rw [body_some, bodyStatements]
    cases hkind : tag.kind
    case sequence =>
      rw [(ReadsStmt.sequence hkind).eq, statements_sequence hkind, List.map_append]
      exact (Stmt.Same.sequence ihl ihr).trans (Stmt.same_chain_append tag _ _).symm
    case block =>
      rcases right with _ | r
      · rw [(ReadsStmt.block hkind).eq, statements_block hkind]
        exact Stmt.Same.block.trans ihl
      · rw [statements.eq_def]
        simp only [hkind]
        exact .chain_singleton (.refl _)
    -- Everything else is a single statement, and it is its bodies that may change.
    all_goals
      rw [statements.eq_def]
      simp only [hkind]
      refine .chain_singleton ?_
    case ifThen =>
      rw [toStmt.eq_def, toStmt.eq_def]
      simp only [hkind]
      exact Stmt.ofIf_rel .fault .ifThen hexpr (rel_ofList ihr)
    case loop =>
      rw [toStmt.eq_def, toStmt.eq_def]
      simp only [hkind]
      exact Stmt.ofLoop_rel .fault .loop hexpr (rel_ofList ihr)
    case ifElse =>
      rcases right with _ | ⟨inner, l, r⟩
      · exact .refl _
      · obtain ⟨hl, hr⟩ := hdeep inner l r rfl
        rw [toStmt.eq_def, toStmt.eq_def]
        simp only [hkind]
        exact Stmt.ofIfElse_rel .fault .ifElse hexpr fun _ => ⟨rel_ofList hl, rel_ofList hr⟩
    case multitask =>
      rcases left with _ | l
      · exact .refl _
      · rw [toStmt.eq_def, toStmt.eq_def]
        simp only [hkind]
        exact Stmt.ofSpawn_rel .fault (.refl _) .spawnInline
          (.some (ihl.trans (same_ofList _).symm))
    all_goals exact .refl _

/-! ### Other ways to put statements together -/

/-- **A nesting of statements**: they are put together, in order, by sequences and blocks. -/
inductive Nests : List Tree → Option Tree → Prop
  | absent : Nests [] none
  | single (t : Tree) : Nests [t] (some t)
  | sequence {tag left right ts ts'} (hkind : tag.kind = .sequence) (hl : Nests ts left)
      (hr : Nests ts' right) : Nests (ts ++ ts') (some (.node tag left right))
  | block {tag left ts} (hkind : tag.kind = .block) (hl : Nests ts left) :
      Nests ts (some (.node tag left none))

/-- A nesting has the statements of what is put together. -/
theorem Nests.bodyStatements_eq {ts : List Tree} {o : Option Tree} (h : Nests ts o) :
    bodyStatements o = ts.flatMap statements := by
  induction h with
  | absent => rfl
  | single t => exact (List.append_nil _).symm
  | sequence hkind _ _ ihl ihr =>
    rw [bodyStatements, statements_sequence hkind, ihl, ihr, List.flatMap_append]
  | block hkind _ ih => rw [bodyStatements, statements_block hkind, ih]

/-- The list put together is itself one of the nestings. -/
theorem nests_ofList (ts : List Tree) : Nests ts (some (ofList ts)) := by
  induction ts with
  | nil => exact .sequence rfl .absent .absent
  | cons t rest ih =>
    rcases rest with _ | ⟨t', rest⟩
    · exact .sequence rfl (.single t) .absent
    · exact .sequence rfl (.single t) ih

theorem statementCount_ofList (ts : List Tree) :
    (ofList ts).statementCount = (ts.map statementCount).sum := by
  induction ts with
  | nil => rfl
  | cons t rest ih =>
    rcases rest with _ | ⟨t', rest⟩
    · rfl
    · rw [List.map_cons, List.sum_cons, ← ih]
      rfl

end Tree

/-! ### Compilations -/

/-- Programs that are the same to the compiler have the same units. -/
theorem Stmt.Same.hasUnits_iff {s s' : Stmt} (h : s.Same s') {config : Config}
    {resolver : Resolver} {name : String} {c : Compilation} :
    s.HasUnits config resolver name c ↔ s'.HasUnits config resolver name c := by
  simp only [HasUnits, h.code, h.peak]

/-- **Two trees are compiled alike**: both into the same units, or neither into any. -/
def Session.CompilesAlike (name : String) (session : Session) (t t' : Tree) : Prop :=
  (∃ c after after', compileNamed name t session = .ok c after ∧
    compileNamed name t' session = .ok c after') ∨
  ∃ e after e' after', compileNamed name t session = .error e after ∧
    compileNamed name t' session = .error e' after'

/-- Two trees are compiled alike if each compilation of the one is one of the other. -/
theorem Session.compilesAlike_of_iff {name : String} {session : Session} {t t' : Tree}
    (h : ∀ c, (∃ after, compileNamed name t session = .ok c after) ↔
      ∃ after, compileNamed name t' session = .ok c after) : CompilesAlike name session t t' := by
  rcases ht : compileNamed name t session with ⟨c, after⟩ | ⟨e, after⟩
  · obtain ⟨after', ht'⟩ := (h c).1 ⟨after, ht⟩
    exact .inl ⟨c, after, after', ht, ht'⟩
  · rcases ht' : compileNamed name t' session with ⟨c, after'⟩ | ⟨e', after'⟩
    · obtain ⟨after, hok⟩ := (h c).2 ⟨after', ht'⟩
      rw [ht] at hok
      cases hok
    · exact .inr ⟨e, after, e', after', ht, ht'⟩

/-- **Trees with the same statements are compiled alike.** Each of the two is the same to the
compiler as the list of its statements. -/
theorem Session.compilesAlike_of_statements {name : String} {session : Session} {t t' : Tree}
    (h : t.statements = t'.statements) : CompilesAlike name session t t' := by
  have hsame : t.toStmt.Same t'.toStmt := by
    have ht := Tree.same_statements (some t)
    rw [Tree.bodyStatements, h] at ht
    exact ht.trans (Tree.same_statements (some t')).symm
  refine compilesAlike_of_iff fun c => ?_
  rw [compileNamed_iff, compileNamed_iff]
  exact hsame.hasUnits_iff

/-- **Sequences and blocks are transparent.** Trees with the same flat list of statements are
compiled alike. In particular the statements of a list put together are compiled as in any other
nesting of them by sequences and blocks; and they are as many as there are in the list.

Errors are not compared: an error shows the node that it is about, and the nodes of two nestings are
different ones. -/
theorem Session.compilesAlike_nestings (name : String) (session : Session) :
    (∀ t t', t.statements = t'.statements → CompilesAlike name session t t') ∧
    (∀ ts t, Tree.Nests ts (some t) → CompilesAlike name session (.ofList ts) t) ∧
    ∀ ts, (Tree.ofList ts).statementCount = (ts.map Tree.statementCount).sum := by
  refine ⟨fun t t' h => compilesAlike_of_statements h, ?_, Tree.statementCount_ofList⟩
  intro ts t h
  apply compilesAlike_of_statements
  exact (Tree.nests_ofList ts).bodyStatements_eq.trans h.bodyStatements_eq.symm

/-- The statements of `Tree.countdown` in other sequences and blocks, those in the loop and in the
task too. -/
def Tree.countdownNested : Tree :=
  unary .block (binary .sequence (binary .sequence (ofAssign "x" (ofInteger "3")) (bare .sequence))
    (unary .block (binary .sequence
      (binary .loop (binary .greater (ofName "x") (ofInteger "0"))
        (binary .sequence (unary .block (unary .print (ofName "x")))
          (unary .block (ofAssign "x" (binary .subtract (ofName "x") (ofInteger "1"))))))
      (ofInlineSpawn "Worker" (unary .block (unary .sequence (unary .assert (ofBool false))))))))

theorem Session.compilesAlike_countdown :
    Tree.countdown.statements = Tree.countdownNested.statements ∧
    (∃ c after after', compileNamed "Main" .countdown .bare = .ok c after ∧
      compileNamed "Main" .countdownNested .bare = .ok c after') ∧
    CompilesAlike "Main" .bare (.ofList [.ofName "x", .unary .sleep (.ofInteger "5")])
      (.binary .sequence (.unary .block (.ofName "x")) (.unary .sleep (.ofInteger "5"))) := by
  obtain ⟨halike, hnests, -⟩ := compilesAlike_nestings "Main" .bare
  have hstatements : Tree.countdown.statements = Tree.countdownNested.statements := by
    decide +kernel
  refine ⟨hstatements, ?_, ?_⟩
  · rcases halike _ _ hstatements with hok | ⟨e, after, _, _, herror, -⟩
    · exact hok
    · obtain ⟨c, after', hok, -⟩ := compileNamed_countdown
      rw [herror] at hok
      cases hok
  · exact hnests _ _ (.sequence rfl (.block rfl (.single _)) (.single _))

end StackUnits
