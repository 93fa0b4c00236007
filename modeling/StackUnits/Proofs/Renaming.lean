import Mathlib.Data.List.Forall2
import Mathlib.Logic.Equiv.Basic
import Mathlib.Logic.Relator
import StackUnits.Proofs.Compiled
import StackUnits.Proofs.Isolation

/-!
# Names of variables do not matter

A variable is found by its name while a program is compiled, and by its slot afterwards. So a
program in which the variables have other names has the same code: only the lists of local variables
show the names.

The names are compared by a relation rather than by a function, which need not be defined
everywhere: all that is needed is that a name corresponds to one name at most, in both directions
(`Relator.BiUnique`). Such a relation can be turned around, so it is enough to carry code over from
one program to the other (`StackUnits.Stmt.HasCode.renamed`). Symbol tables are compared by what the
names stand for in them (`StackUnits.SymbolTable.Renamed`), and not frame by frame.

What is wrong with a program may be reported under other names, so that nothing is said about two
faults except that both are faults.
-/

namespace StackUnits

open Relator

/-! ### Renamed trees -/

/-- The tag with another name, if it is that of an identifier. -/
def Tag.rename (r : String → String) (tag : Tag) : Tag :=
  if tag.kind = .identifier then { tag with value := tag.value.map r } else tag

/-- **The tree with other names for variables**: the text of every identifier is replaced. -/
def Tree.rename (r : String → String) : Tree → Tree
  | .node tag left right =>
    .node (tag.rename r)
      (match left with | some l => some (l.rename r) | none => none)
      (match right with | some l => some (l.rename r) | none => none)

/-- The local variable under another name. -/
def LocalVariable.rename (r : String → String) (v : LocalVariable) : LocalVariable :=
  { v with name := r v.name }

/-- The unit with other names in its list of local variables. -/
def CodeUnit.rename (r : String → String) (unit : CodeUnit) : CodeUnit :=
  { unit with locals := unit.locals.map (.rename r) }

/-- The compilation with other names in the lists of local variables. -/
def Compilation.rename (r : String → String) (c : Compilation) : Compilation :=
  ⟨c.program.rename r, c.tasks.map (.rename r)⟩

/-- Only what a node carries is renamed, and only if it is an identifier. -/
theorem Tag.kind_rename (r : String → String) (tag : Tag) : (tag.rename r).kind = tag.kind := by
  unfold rename
  split
  · rfl
  · rfl

theorem Tag.rename_of_ne {r : String → String} {tag : Tag} (h : tag.kind ≠ .identifier) :
    tag.rename r = tag :=
  if_neg h

/-! ### Renamed programs -/

/-- **Two expressions are the same but for the names of their variables**, which correspond. -/
inductive Expr.Renamed (R : String → String → Prop) : Expr → Expr → Prop
  | fault {tag tag' e e'} : Renamed R (.fault tag e) (.fault tag' e')
  | literal {tag tag' c type} : Renamed R (.literal tag c type) (.literal tag' c type)
  | var {tag tag' name name'} (h : R name name') : Renamed R (.var tag name) (.var tag' name')
  | arith {tag tag' op l l' r r'} (hl : Renamed R l l') (hr : Renamed R r r') :
      Renamed R (.arith tag op l r) (.arith tag' op l' r')
  | cast {tag tag' target e e'} (h : Renamed R e e') :
      Renamed R (.cast tag target e) (.cast tag' target e')
  | and {tag tag' l l' r r'} (hl : Renamed R l l') (hr : Renamed R r r') :
      Renamed R (.and tag l r) (.and tag' l' r')
  | or {tag tag' l l' r r'} (hl : Renamed R l l') (hr : Renamed R r r') :
      Renamed R (.or tag l r) (.or tag' l' r')
  | not {tag tag' e e'} (h : Renamed R e e') : Renamed R (.not tag e) (.not tag' e')
  | compare {tag tag' test l l' r r'} (hl : Renamed R l l') (hr : Renamed R r r') :
      Renamed R (.compare tag test l r) (.compare tag' test l' r')

/-- **Two statements are the same but for the names of their variables**, which correspond. -/
inductive Stmt.Renamed (R : String → String → Prop) : Stmt → Stmt → Prop
  | nothing : Renamed R .nothing .nothing
  | fault {tag tag' e e'} : Renamed R (.fault tag e) (.fault tag' e')
  | sequence {tag tag' s s' t t'} (hs : Renamed R s s') (ht : Renamed R t t') :
      Renamed R (.sequence tag s t) (.sequence tag' s' t')
  | block {tag tag' s s'} (h : Renamed R s s') : Renamed R (.block tag s) (.block tag' s')
  | assign {tag tag' name name' e e'} (hname : R name name') (h : e.Renamed R e') :
      Renamed R (.assign tag name e) (.assign tag' name' e')
  | print {tag tag' e e'} (h : e.Renamed R e') : Renamed R (.print tag e) (.print tag' e')
  | assert {tag tag' e e'} (h : e.Renamed R e') : Renamed R (.assert tag e) (.assert tag' e')
  | sleep {tag tag' e e'} (h : e.Renamed R e') : Renamed R (.sleep tag e) (.sleep tag' e')
  | ifThen {tag tag' e e' s s'} (h : e.Renamed R e') (hs : Renamed R s s') :
      Renamed R (.ifThen tag e s) (.ifThen tag' e' s')
  | ifElse {tag tag' e e' s s' t t'} (h : e.Renamed R e') (hs : Renamed R s s')
      (ht : Renamed R t t') : Renamed R (.ifElse tag e s t) (.ifElse tag' e' s' t')
  | loop {tag tag' e e' s s'} (h : e.Renamed R e') (hs : Renamed R s s') :
      Renamed R (.loop tag e s) (.loop tag' e' s')
  | spawn {tag tag' name} : Renamed R (.spawn tag name) (.spawn tag' name)
  | spawnInline {tag tag' name bodyTag bodyTag' s s'} (h : Renamed R s s') :
      Renamed R (.spawnInline tag name bodyTag s) (.spawnInline tag' name bodyTag' s')

section Reading

variable {R : String → String → Prop} {tag tag' : Tag}

/-- The relation can be turned around. This is why it is one between programs, and no function: the
other direction of the result is the same proof. -/
theorem Expr.Renamed.flip {e e' : Expr} (h : e.Renamed R e') : e'.Renamed (flip R) e := by
  induction h with
  | fault => exact .fault
  | literal => exact .literal
  | var h => exact .var h
  | arith _ _ ihl ihr => exact .arith ihl ihr
  | cast _ ih => exact .cast ih
  | and _ _ ihl ihr => exact .and ihl ihr
  | or _ _ ihl ihr => exact .or ihl ihr
  | not _ ih => exact .not ih
  | compare _ _ ihl ihr => exact .compare ihl ihr

theorem Stmt.Renamed.flip {s s' : Stmt} (h : s.Renamed R s') : s'.Renamed (flip R) s := by
  induction h with
  | nothing => exact .nothing
  | fault => exact .fault
  | sequence _ _ ih₁ ih₂ => exact .sequence ih₁ ih₂
  | block _ ih => exact .block ih
  | assign hname h => exact .assign hname h.flip
  | print h => exact .print h.flip
  | assert h => exact .assert h.flip
  | sleep h => exact .sleep h.flip
  | ifThen h _ ih => exact .ifThen h.flip ih
  | ifElse h _ _ iht ihe => exact .ifElse h.flip iht ihe
  | loop h _ ih => exact .loop h.flip ih
  | spawn => exact .spawn
  | spawnInline _ ih => exact .spawnInline ih

/-! ### Reading a renamed tree -/

theorem Expr.Renamed.ofOperands {make make' : Expr → Expr → Expr} {l l' r r' : Option Expr}
    (hmake : ∀ {a a' b b'}, Expr.Renamed R a a' → Expr.Renamed R b b' →
      (make a b).Renamed R (make' a' b'))
    (hl : Option.Rel (Expr.Renamed R) l l') (hr : Option.Rel (Expr.Renamed R) r r') :
    (Expr.ofOperands tag make l r).Renamed R (Expr.ofOperands tag' make' l' r') := by
  rcases hl with ⟨hl⟩ | _
  · rcases hr with ⟨hr⟩ | _
    · exact hmake hl hr
    · exact .fault
  · exact .fault

theorem Expr.Renamed.ofOperand {make make' : Expr → Expr} {missing : Malformation}
    {l l' : Option Expr} (hmake : ∀ {a a'}, Expr.Renamed R a a' → (make a).Renamed R (make' a'))
    (hl : Option.Rel (Expr.Renamed R) l l') :
    (Expr.ofOperand tag missing make l).Renamed R (Expr.ofOperand tag' missing make' l') := by
  rcases hl with ⟨hl⟩ | _
  · exact hmake hl
  · exact .fault

theorem Expr.Renamed.ofLiteral : (Expr.ofLiteral tag).Renamed R (Expr.ofLiteral tag) := by
  unfold Expr.ofLiteral
  rcases tag.value with _ | raw
  · exact .fault
  · dsimp only
    rcases tag.literal raw with e | ⟨constant, type⟩
    · exact .fault
    · exact .literal

/-- An identifier is renamed where it is read; one without a name is a fault before and after. -/
theorem Expr.Renamed.ofIdentifier {r : String → String} (h : tag.kind = .identifier) :
    (Expr.ofIdentifier tag).Renamed (r · = ·) (Expr.ofIdentifier (tag.rename r)) := by
  unfold Expr.ofIdentifier
  rw [Tag.rename, if_pos h]
  rcases tag.value with _ | name
  · exact .fault
  · exact .var rfl

/-- **A node of an expression is read alike** after a renaming, if its children are. -/
theorem Expr.Renamed.ofParts {n : String → String} {l l' r r' : Option Expr}
    (hl : Option.Rel (Expr.Renamed (n · = ·)) l l')
    (hr : Option.Rel (Expr.Renamed (n · = ·)) r r') :
    (Expr.ofParts tag l r).Renamed (n · = ·) (Expr.ofParts (tag.rename n) l' r') := by
  by_cases hid : tag.kind = .identifier
  · rw [Expr.ofParts, Expr.ofParts, Tag.kind_rename, hid]
    exact .ofIdentifier hid
  rw [Tag.rename_of_ne hid, Expr.ofParts, Expr.ofParts]
  cases hkind : tag.kind
  case identifier => exact absurd hkind hid
  case literalBoolean | literalCharacter | literalInteger | literalFloat | literalString =>
    exact .ofLiteral
  case add | subtract | multiply | divide | modulo => exact .ofOperands .arith hl hr
  case castChar | castByte | castShort | castInt | castLong | castFloat | castDouble =>
    exact .ofOperand .cast hl
  case and => exact .ofOperands .and hl hr
  case or => exact .ofOperands .or hl hr
  case not => exact .ofOperand .not hl
  case equal | less | greater => exact .ofOperands .compare hl hr
  all_goals exact .fault

theorem Stmt.Renamed.ofOperand {make make' : Expr → Stmt} {missing : Malformation}
    {e e' : Option Expr} (hmake : ∀ {a a'}, Expr.Renamed R a a' → (make a).Renamed R (make' a'))
    (he : Option.Rel (Expr.Renamed R) e e') :
    (Stmt.ofOperand tag missing make e).Renamed R (Stmt.ofOperand tag' missing make' e') := by
  rcases he with ⟨he⟩ | _
  · exact hmake he
  · exact .fault

theorem Stmt.Renamed.ofBlock {s s' : Stmt} {right : Option Tree} {f : Tree → Tree}
    (hs : s.Renamed R s') :
    (Stmt.ofBlock tag s right).Renamed R (Stmt.ofBlock tag' s' (right.map f)) := by
  rcases right with _ | _
  · exact .block hs
  · exact .fault

theorem Stmt.Renamed.ofAssign {n : String → String} {target : Option Tag} {e e' : Option Expr}
    (he : Option.Rel (Expr.Renamed (n · = ·)) e e') :
    (Stmt.ofAssign tag target e).Renamed (n · = ·)
      (Stmt.ofAssign tag' (target.map (.rename n)) e') := by
  rcases target with _ | target
  · exact .fault
  · simp only [Option.map_some, Stmt.ofAssign, Tag.kind_rename]
    by_cases hid : target.kind = .identifier
    · simp only [hid, ne_eq, not_true, if_false, Tag.rename, if_true]
      rcases target.value with _ | name
      · exact .fault
      · rcases he with ⟨he⟩ | _
        · exact .assign rfl he
        · exact .fault
    · simp only [hid, ne_eq, not_false_eq_true, if_true]
      exact .fault

end Reading

namespace Tree

variable {n : String → String}

theorem rename_node (n : String → String) (tag : Tag) (left right : Option Tree) :
    (node tag left right).rename n = node (tag.rename n) (left.map (rename n))
      (right.map (rename n)) := by
  cases left <;> cases right <;> rfl

theorem tag_rename (n : String → String) (t : Tree) : (t.rename n).tag = t.tag.rename n := by
  obtain ⟨tag, left, right⟩ := t
  rw [rename_node]
  rfl

/-- A property of the children that are there, as one of the children that may be there. -/
theorem rel_map {α : Type} {P : α → α → Prop} {f : Tree → α} {o : Option Tree}
    (h : ∀ t, o = some t → P (f t) (f (t.rename n))) :
    Option.Rel P (o.map f) ((o.map (rename n)).map f) := by
  rcases o with _ | t
  · exact .none
  · exact .some (h t rfl)

/-- **A renamed tree is read as the same expression** with other names. By induction on the tree. -/
theorem toExpr_rename (n : String → String) (t : Tree) :
    t.toExpr.Renamed (n · = ·) (t.rename n).toExpr := by
  induction t with
  | node tag left right ihl ihr =>
    rw [rename_node, toExpr_node, toExpr_node]
    exact .ofParts (rel_map ihl) (rel_map ihr)

theorem rel_toStmt {o : Option Tree} :
    (body o).Renamed (n · = ·) (body (o.map (rename n))) →
      Option.Rel (Stmt.Renamed (n · = ·)) (match o with | some t => some t.toStmt | none => none)
        (match o.map (rename n) with | some t => some t.toStmt | none => none) := by
  intro h
  rcases o with _ | t
  · exact .none
  · exact .some h

/-- **A renamed tree is read as the same statement** with other names. By induction on the tree,
which may be absent; names of tasks are not those of variables, and stay. -/
theorem body_rename (n : String → String) (o : Option Tree) :
    (body o).Renamed (n · = ·) (body (o.map (rename n))) := by
  induction o using part_induction with
  | absent => exact .nothing
  | node tag left right ihl ihr =>
    have hexpr : ∀ {o : Option Tree}, Option.Rel (Expr.Renamed (n · = ·)) (o.map toExpr)
        ((o.map (rename n)).map toExpr) := rel_map fun t _ => t.toExpr_rename n
    rw [Option.map_some, body_some, body_some, rename_node, toStmt.eq_def, toStmt.eq_def]
    simp only [Tag.kind_rename]
    cases hkind : tag.kind
    case sequence => exact .sequence ihl ihr
    case block => exact .ofBlock ihl
    case assign =>
      have htag : (left.map (rename n)).map Tree.tag = (left.map Tree.tag).map (.rename n) := by
        rcases left with _ | l
        · rfl
        · exact congrArg some (l.tag_rename n)
      rw [htag]
      exact .ofAssign hexpr
    case print => exact .ofOperand .print hexpr
    case assert => exact .ofOperand .assert hexpr
    case sleep => exact .ofOperand .sleep hexpr
    case multitask =>
      rw [Tag.rename_of_ne (by rw [hkind]; decide)]
      rcases left with _ | l
      · exact Stmt.ofSpawn_rel .fault .spawn .spawnInline .none
      · exact Stmt.ofSpawn_rel .fault .spawn .spawnInline (.some ihl)
    case ifThen => exact Stmt.ofIf_rel .fault .ifThen hexpr (rel_toStmt ihr)
    case loop => exact Stmt.ofLoop_rel .fault .loop hexpr (rel_toStmt ihr)
    case ifElse =>
      rcases right with _ | ⟨inner, l, r⟩
      · cases left <;> exact .fault
      simp only [Option.map_some, rename_node, Tag.kind_rename]
      refine Stmt.ofIfElse_rel .fault .ifElse hexpr fun hinner => ?_
      -- The branches are the parts of a sequence, for which the hypothesis has been proved.
      rw [Option.map_some, rename_node, body_some, body_some, (ReadsStmt.sequence hinner).eq,
        (ReadsStmt.sequence ((Tag.kind_rename n inner).trans hinner)).eq] at ihr
      cases ihr with
      | sequence hl hr => exact ⟨rel_toStmt hl, rel_toStmt hr⟩
    all_goals exact .fault

end Tree

/-! ### Renamed tables and units -/

/-- **Two local variables correspond**: they have corresponding names, the same slot and the same
type. -/
def LocalVariable.Renamed (R : String → String → Prop) (v v' : LocalVariable) : Prop :=
  R v.name v'.name ∧ v' = { v with name := v'.name }

/-- **Two units correspond**: their local variables do, and everything else is the same. -/
def CodeUnit.Renamed (R : String → String → Prop) (unit unit' : CodeUnit) : Prop :=
  List.Forall₂ (LocalVariable.Renamed R) unit.locals unit'.locals ∧
    unit' = { unit with locals := unit'.locals }

/-- **Two symbol tables correspond**: corresponding names stand for the same, and the same slots
have been given to corresponding declarations. -/
structure SymbolTable.Renamed (R : String → String → Prop) (table table' : SymbolTable) : Prop where
  lookup : ∀ ⦃name name'⦄, R name name' → table'.lookup name' = table.lookup name
  frames : table'.frames ≠ []
  nextSlot : table'.nextSlot = table.nextSlot
  slotCount : table'.slotCount = table.slotCount
  declared : List.Forall₂ (LocalVariable.Renamed R) table.declared table'.declared

/-- **Two drafts correspond** if their tables and their finished tasks do. -/
structure Draft.Renamed (R : String → String → Prop) (d d' : Draft) : Prop where
  table : d.table.Renamed R d'.table
  labels : d'.labels = d.labels
  units : List.Forall₂ (CodeUnit.Renamed R) d.units d'.units

section Transport

variable {R : String → String → Prop}

/-- **An assignment is carried over** to a corresponding name: it goes to the same slot. A name is
known exactly if the corresponding one is, which takes that names correspond one to one. -/
theorem SymbolTable.Assigns.renamed {table table' table₁ : SymbolTable} {name name' : String}
    {type : OperandType} {slot : UInt16} (h : table.Assigns name type slot table₁)
    (hR : BiUnique R) (htable : table.Renamed R table') (hname : R name name') :
    ∃ table₁', table'.Assigns name' type slot table₁' ∧ table₁.Renamed R table₁' := by
  have hlookup' := htable.lookup hname
  obtain ⟨hlookup, rfl⟩ | ⟨hlookup, rfl, frame, rest, hframes, rfl⟩ := h.cases
  · rw [hlookup] at hlookup'
    refine ⟨table', ?_, htable⟩
    unfold Assigns
    rw [hlookup']
    exact ⟨rfl, rfl⟩
  · rw [hlookup] at hlookup'
    obtain ⟨slot', table₁', h'⟩ : ∃ slot table₁', table'.Assigns name' type slot table₁' :=
      exists_assigns htable.frames (by rw [hlookup']; rintro _ ⟨⟩)
    obtain ⟨hknown, -⟩ | ⟨-, rfl, frame', rest', hframes', rfl⟩ := h'.cases
    · rw [hlookup'] at hknown
      cases hknown
    rw [htable.nextSlot] at h'
    refine ⟨_, h', ?_, List.cons_ne_nil _ _, rfl, ?_, ?_⟩
    · intro other other' hother
      -- Another name corresponds to another name, in both directions.
      have hiff : other' = name' ↔ other = name :=
        ⟨fun heq => hR.1 hother (heq ▸ hname), fun heq => hR.2 hother (heq ▸ hname)⟩
      rw [h'.lookup_eq, h.lookup_eq, htable.lookup hother]
      simp only [hiff]
    · exact congrArg (max · _) htable.slotCount
    · exact .cons ⟨hname, rfl⟩ htable.declared

theorem SymbolTable.Renamed.locals {table table' : SymbolTable} (h : table.Renamed R table') :
    List.Forall₂ (LocalVariable.Renamed R) table.locals table'.locals :=
  List.rel_reverse h.declared

theorem Draft.renamed_fresh {units units' : List CodeUnit}
    (h : List.Forall₂ (CodeUnit.Renamed R) units units') :
    (Draft.fresh units).Renamed R (Draft.fresh units') where
  table := ⟨fun _ _ _ => rfl, List.cons_ne_nil _ _, rfl, rfl, .nil⟩
  labels := rfl
  units := h

theorem Draft.Renamed.withLabels {d d' : Draft} (h : d.Renamed R d') (k : Nat) :
    Draft.Renamed R { d with labels := k } { d' with labels := k } :=
  ⟨h.table, rfl, h.units⟩

theorem Draft.Renamed.unit {d d' : Draft} (h : d.Renamed R d') (name : String) (kind : UnitKind)
    (peak : Nat) (code : List Instruction) :
    (d.unit name kind peak code).Renamed R (d'.unit name kind peak code) := by
  refine ⟨h.table.locals, ?_⟩
  rw [Draft.unit, Draft.unit, h.table.slotCount]

/-- Units that correspond have the same name, since variables have nothing to do with it. -/
theorem CodeUnit.Renamed.name_eq {unit unit' : CodeUnit} (h : unit.Renamed R unit') :
    unit'.name = unit.name := by
  rw [h.2]

theorem CodeUnit.Renamed.kind_eq {unit unit' : CodeUnit} (h : unit.Renamed R unit') :
    unit'.kind = unit.kind := by
  rw [h.2]

/-- The labels of a unit have nothing to do with its variables. -/
theorem CodeUnit.Renamed.checkLabels {unit unit' : CodeUnit} (h : unit.Renamed R unit') :
    unit'.checkLabels = unit.checkLabels := by
  rw [h.2]
  rfl

theorem CodeUnit.Renamed.find? {units units' : List CodeUnit}
    (h : List.Forall₂ (CodeUnit.Renamed R) units units') (name : String) :
    Option.Rel (CodeUnit.Renamed R) (units.find? fun unit => unit.name == name)
      (units'.find? fun unit => unit.name == name) := by
  induction h with
  | nil => exact .none
  | @cons unit unit' _ _ hunit _ ih =>
    rw [List.find?_cons, List.find?_cons, hunit.name_eq]
    cases unit.name == name with
    | true => exact .some hunit
    | false => exact ih

/-- Whether a task can be started does not depend on the variables of the units. -/
theorem World.CanStart.renamed {w : World} {units units' : List CodeUnit} {name : String}
    (h : w.CanStart units name) (hunits : List.Forall₂ (CodeUnit.Renamed R) units units') :
    w.CanStart units' name := by
  unfold CanStart at h ⊢
  have hfind := CodeUnit.Renamed.find? hunits name
  generalize units.find? (fun unit => unit.name == name) = found at h hfind
  generalize units'.find? (fun unit => unit.name == name) = found' at hfind
  rcases hfind with ⟨hunit⟩ | _
  · exact hunit.kind_eq.trans h
  · exact h

theorem World.Unused.renamed {w : World} {units units' : List CodeUnit} {name : String}
    (h : w.Unused units name) (hunits : List.Forall₂ (CodeUnit.Renamed R) units units') :
    w.Unused units' name := by
  rw [unused_iff, ← CodeUnit.find?_eq_none_iff] at h ⊢
  obtain ⟨hnone, hbegun⟩ := h
  have hfind := CodeUnit.Renamed.find? hunits name
  rw [hnone] at hfind
  generalize units'.find? (fun unit => unit.name == name) = found' at hfind ⊢
  cases hfind
  exact ⟨rfl, hbegun⟩

/-! ### Code of renamed programs -/

/-- The room that is needed has nothing to do with names. -/
theorem Expr.Renamed.peak_eq {e e' : Expr} (h : e.Renamed R e') : e'.peak = e.peak := by
  induction h with
  | fault | literal | var => rfl
  | arith _ _ ihl ihr | and _ _ ihl ihr | or _ _ ihl ihr | compare _ _ ihl ihr =>
    rw [peak, peak, ihl, ihr]
  | cast _ ih | not _ ih => exact ih

theorem Stmt.Renamed.peak_eq {s s' : Stmt} (h : s.Renamed R s') : s'.peak = s.peak := by
  induction h with
  | nothing | fault | spawn | spawnInline => rfl
  | sequence _ _ ih₁ ih₂ => rw [peak, peak, ih₁, ih₂]
  | block _ ih => exact ih
  | assign _ h | print h | assert h | sleep h => rw [peak, peak, h.peak_eq]
  | ifThen h _ ih | loop h _ ih => rw [peak, peak, h.peak_eq, ih]
  | ifElse h _ _ iht ihe => rw [peak, peak, h.peak_eq, iht, ihe]

/-- **The code of an expression is that of the renamed one.** Variables occur in it by their slots
only. -/
theorem Expr.HasCode.renamed {table table' : SymbolTable} {k k₁ : Nat} {e e' : Expr}
    {code : List Instruction} {type : OperandType} (h : e.HasCode table k code type k₁)
    (he : e.Renamed R e') (htable : table.Renamed R table') :
    e'.HasCode table' k code type k₁ := by
  induction h generalizing e' with
  | literal =>
    cases he
    exact .literal
  | var hinfo hkind =>
    cases he with
    | var hname => exact .var ((htable.lookup hname).trans hinfo) hkind
  | arith _ _ hfamily ihl ihr =>
    cases he with
    | arith hl hr => exact .arith (ihl hl) (ihr hr) hfamily
  | cast _ hconv ih =>
    cases he with
    | cast h => exact .cast (ih h) hconv
  | and _ htl _ htr ihl ihr =>
    cases he with
    | and hl hr => exact .and (ihl hl) htl (ihr hr) htr
  | or _ htl _ htr ihl ihr =>
    cases he with
    | or hl hr => exact .or (ihl hl) htl (ihr hr) htr
  | not _ htype ih =>
    cases he with
    | not h => exact .not (ih h) htype
  | compare _ _ htype ihl ihr =>
    cases he with
    | compare hl hr => exact .compare (ihl hl) (ihr hr) htype

theorem Draft.Renamed.hasCode {d d' : Draft} (h : d.Renamed R d') {e e' : Expr} {k : Nat}
    {code : List Instruction} {type : OperandType} (hc : e.HasCode d.table d.labels code type k)
    (he : e.Renamed R e') : e'.HasCode d'.table d'.labels code type k :=
  h.labels ▸ hc.renamed he h.table

/-- **The code of a statement is that of the renamed one**, and what it leads to corresponds. By
induction on the code; the drafts correspond before and after every part of it. -/
theorem Stmt.HasCode.renamed {w : World} {d d' d₁ : Draft} {s s' : Stmt} {code : List Instruction}
    (h : s.HasCode w d code d₁) (hR : BiUnique R) (hs : s.Renamed R s') (hd : d.Renamed R d') :
    ∃ d₁', s'.HasCode w d' code d₁' ∧ d₁.Renamed R d₁' := by
  induction h generalizing s' d' with
  | nothing =>
    cases hs
    exact ⟨d', .nothing, hd⟩
  | sequence _ _ ih₁ ih₂ =>
    cases hs with
    | sequence hs₁ hs₂ =>
      obtain ⟨d₁', h₁, hd₁⟩ := ih₁ hs₁ hd
      obtain ⟨d₂', h₂, hd₂⟩ := ih₂ hs₂ hd₁
      exact ⟨d₂', .sequence h₁ h₂, hd₂⟩
  | block _ ih =>
    cases hs with
    | block hs =>
      obtain ⟨d₁', h, hd₁⟩ := ih hs hd
      exact ⟨d₁', .block h, hd₁⟩
  | assign hc hslot hkind =>
    cases hs with
    | assign hname he =>
      obtain ⟨table', hslot', htable⟩ := hslot.renamed hR hd.table hname
      exact ⟨_, .assign (hd.hasCode hc he) hslot' hkind, htable, rfl, hd.units⟩
  | print hc hprint =>
    cases hs with
    | print he => exact ⟨_, .print (hd.hasCode hc he) hprint, hd.withLabels _⟩
  | assert hc htype =>
    cases hs with
    | assert he => exact ⟨_, .assert (hd.hasCode hc he) htype, hd.withLabels _⟩
  | sleep hc htype =>
    cases hs with
    | sleep he => exact ⟨_, .sleep (hd.hasCode hc he) htype, hd.withLabels _⟩
  | ifThen hc htype _ ih =>
    cases hs with
    | ifThen he hs =>
      obtain ⟨d₁', hb, hd₁⟩ := ih hs (hd.withLabels _)
      exact ⟨d₁', .ifThen (hd.hasCode hc he) htype hb, hd₁⟩
  | ifElse hc htype _ _ iht ihe =>
    cases hs with
    | ifElse he hs ht =>
      obtain ⟨d₁', hb₁, hd₁⟩ := iht hs (hd.withLabels _)
      obtain ⟨d₂', hb₂, hd₂⟩ := ihe ht hd₁
      exact ⟨d₂', .ifElse (hd.hasCode hc he) htype hb₁ hb₂, hd₂⟩
  | @loop w d _ _ _ _ _ _ _ _ hc htype _ ih =>
    cases hs with
    | loop he hs =>
      obtain ⟨d₁', hb, hd₁⟩ := ih hs (hd.withLabels _)
      have hc' := hc.renamed he hd.table
      rw [← hd.labels] at hc' ⊢
      exact ⟨d₁', .loop hc' htype hb, hd₁⟩
  | spawn hplain hstart =>
    cases hs
    exact ⟨d', .spawn hplain (hstart.renamed hd.units), hd⟩
  | @spawnInline _ _ _ _ name _ body c hplain hunused _ hlabels ih =>
    cases hs with
    | spawnInline hs =>
      obtain ⟨d₁', hb, hd₁⟩ := ih hs (Draft.renamed_fresh hd.units)
      have hunit := hd₁.unit name .task body.peak c
      rw [← hunit.checkLabels] at hlabels
      rw [← hs.peak_eq] at hlabels hunit ⊢
      exact ⟨_, .spawnInline hplain (hunused.renamed hd.units) hb hlabels, hd.table, hd.labels,
        List.rel_append hd₁.units (.cons hunit .nil)⟩

end Transport

/-! ### Compilations of renamed programs -/

section Compilations

variable {R : String → String → Prop} {config : Config} {resolver : Resolver} {name : String}

/-- **The compilation of a program is carried over to the renamed one.** The units correspond one by
one, in their order. -/
theorem Stmt.HasUnits.renamed {s s' : Stmt} {c : Compilation}
    (h : s.HasUnits config resolver name c) (hR : BiUnique R) (hs : s.Renamed R s') :
    ∃ c', s'.HasUnits config resolver name c' ∧ c.program.Renamed R c'.program ∧
      List.Forall₂ (CodeUnit.Renamed R) c.tasks c'.tasks := by
  obtain ⟨hplain, code, d, hcode, rfl, hlabels⟩ := h
  obtain ⟨d', hcode', hd⟩ := hcode.renamed hR hs (Draft.renamed_fresh .nil)
  have hunit := hd.unit name .program s.peak code
  refine ⟨⟨d'.unit name .program s.peak code, d'.units⟩, ?_, hunit, hd.units⟩
  exact ⟨hplain, code, d', hcode', by rw [hs.peak_eq], hunit.checkLabels.trans hlabels⟩

theorem biUnique_of_injective {r : String → String} (h : Function.Injective r) :
    BiUnique (r · = ·) :=
  ⟨fun _ _ _ hac hbc => h (hac.trans hbc.symm), fun _ _ _ hab hac => hab.symm.trans hac⟩

variable {r : String → String}

theorem forall₂_map_eq_iff {α β : Type} {f : α → β} {l : List α} {l' : List β} :
    List.Forall₂ (fun a b => f a = b) l l' ↔ l.map f = l' := by
  rw [← List.forall₂_map_left_iff (R := Eq), List.forall₂_eq_eq_eq]

theorem LocalVariable.renamed_eq :
    LocalVariable.Renamed (r · = ·) = fun v v' => v.rename r = v' := by
  funext v v'
  apply propext
  constructor
  · rintro ⟨hname, hv⟩
    rw [hv, ← hname]
    rfl
  · rintro rfl
    exact ⟨rfl, rfl⟩

theorem CodeUnit.renamed_eq :
    CodeUnit.Renamed (r · = ·) = fun unit unit' => unit.rename r = unit' := by
  funext unit unit'
  unfold CodeUnit.Renamed
  rw [LocalVariable.renamed_eq, forall₂_map_eq_iff]
  apply propext
  constructor
  · rintro ⟨hlocals, hunit⟩
    rw [hunit, ← hlocals]
    rfl
  · rintro rfl
    exact ⟨rfl, rfl⟩

end Compilations

namespace Session

variable {r : String → String} {name : String} {t : Tree} {session : Session} {c : Compilation}

/-- **A program that compiles, compiles with other names** for its variables, into the same units
with other names. -/
theorem exists_compileNamed_rename (hr : Function.Injective r)
    (h : ∃ after, compileNamed name t session = .ok c after) :
    ∃ after, compileNamed name (t.rename r) session = .ok (c.rename r) after := by
  rw [compileNamed_iff] at h ⊢
  obtain ⟨c', hunits, hprogram, htasks⟩ :=
    h.renamed (biUnique_of_injective hr) (Tree.body_rename r (some t))
  rw [CodeUnit.renamed_eq] at hprogram htasks
  have hc : c.rename r = c' := by
    rw [Compilation.rename, hprogram, forall₂_map_eq_iff.1 htasks]
  rw [hc]
  exact hunits

/-- Names can be changed back, though the function may have no inverse: the relation that it gives
can be turned around. -/
theorem exists_compileNamed_of_rename (hr : Function.Injective r)
    (h : ∃ after, compileNamed name (t.rename r) session = .ok c after) :
    ∃ c after, compileNamed name t session = .ok c after := by
  rw [compileNamed_iff] at h
  have hflip : BiUnique (flip (r · = ·)) :=
    ⟨fun _ _ _ hac hbc => (biUnique_of_injective hr).2 hac hbc,
      fun _ _ _ hab hac => (biUnique_of_injective hr).1 hab hac⟩
  obtain ⟨c', hunits, -⟩ := h.renamed hflip (Tree.body_rename r (some t)).flip
  exact ⟨c', (compileNamed_iff session).2 hunits⟩

/-- **Names of variables do not matter.** Under other names, given by an injective function, a
program compiles exactly if it does under its own. Then its units are the same one by one, in name,
kind, instructions and room for variables and values, with the other names in the lists of local
variables.

The function has to be injective on all names and not just on those that occur, to keep the
statement simple; names of tasks are not changed. Errors are not compared, as they show names. -/
theorem compileNamed_rename {r : String → String} (hr : Function.Injective r) (name : String)
    (t : Tree) (session : Session) :
    ((∃ c after, compileNamed name (t.rename r) session = .ok c after) ↔
      ∃ c after, compileNamed name t session = .ok c after) ∧
    ∀ c after c' after', compileNamed name t session = .ok c after →
      compileNamed name (t.rename r) session = .ok c' after' → c' = c.rename r := by
  refine ⟨⟨?_, ?_⟩, ?_⟩
  · rintro ⟨c, h⟩
    exact exists_compileNamed_of_rename hr h
  · rintro ⟨c, h⟩
    exact ⟨c.rename r, exists_compileNamed_rename hr h⟩
  · intro c after c' after' h h'
    obtain ⟨_, hrename⟩ := exists_compileNamed_rename hr ⟨after, h⟩
    rw [hrename] at h'
    cases h'
    rfl

end Session

/-- A program with two variables, and a task with one that has the name of the first. -/
def Tree.twoNames : Tree :=
  ofList [ofAssign "x" (ofInteger "1"), ofAssign "y" (ofFloat "2.5"),
    ofInlineSpawn "Worker" ownVariable, unary .print (ofName "y"), unary .print (ofName "x")]

/-- The two names are exchanged, in the program and in the task. -/
theorem Session.compileNamed_rename_swap :
    Function.Injective (Equiv.swap "x" "y") ∧
    ∃ c after after', compileNamed "Main" .twoNames .bare = .ok c after ∧
      compileNamed "Main" (.rename (Equiv.swap "x" "y") .twoNames) .bare =
        .ok (c.rename (Equiv.swap "x" "y")) after' ∧
      (c.rename (Equiv.swap "x" "y")).program.locals = [⟨"y", 0, .int⟩, ⟨"x", 1, .float⟩] := by
  have hr : Function.Injective (Equiv.swap "x" "y") := (Equiv.swap "x" "y").injective
  obtain ⟨hiff, heq⟩ := compileNamed_rename hr "Main" .twoNames .bare
  obtain ⟨c, after, h, hlocals⟩ : ∃ c after, compileNamed "Main" .twoNames .bare = .ok c after ∧
      (c.rename (Equiv.swap "x" "y")).program.locals =
        [⟨"y", 0, .int⟩, ⟨"x", 1, .float⟩] :=
    exists_compileNamed_bare (by decide +kernel)
  obtain ⟨c', after', h'⟩ := hiff.2 ⟨c, after, h⟩
  rw [heq c after c' after' h h'] at h'
  exact ⟨hr, c, after, after', h, h', hlocals⟩

end StackUnits
