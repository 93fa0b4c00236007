import StackUnits.Proofs.Code
import StackUnits.Proofs.Forms

/-!
# Well-typed programs

The rules by which a tree is a program, said of the tree itself. An expression has a type under
an **environment**, the types of the variables assigned so far (`StackUnits.Tree.HasType`). A
statement is checked under an environment and the names of the tasks finished so far, and leads
to others (`StackUnits.Checks`): an assignment adds a variable, and a task given on the spot adds
its name. There are no scopes inside of a unit: what a branch or the body of a loop assigns is
known after it. The body of a task is a unit of its own, and is checked without variables.

Nothing here depends on code. That the rules describe what compiles is proved in
`StackUnits.Proofs.Acceptance`.
-/

namespace StackUnits

/-! ### Expressions -/

/-- **The types of the variables** assigned so far. -/
abbrev TypeEnv := String → Option OperandType

namespace TypeEnv

/-- No variable is assigned. -/
def empty : TypeEnv :=
  fun _ => none

/-- The environment with a variable of the given type. -/
def set (Γ : TypeEnv) (name : String) (type : OperandType) : TypeEnv :=
  fun other => if other = name then some type else Γ other

end TypeEnv

/-- **The type of an expression.** -/
inductive Tree.HasType (Γ : TypeEnv) : Tree → OperandType → Prop
  | literal {tag left right raw constant type} (hraw : tag.value = some raw)
      (h : tag.literal raw = .ok (constant, type)) : HasType Γ (.node tag left right) type
  | var {tag left right name type} (hkind : tag.kind = .identifier)
      (hname : tag.value = some name) (h : Γ name = some type) :
      HasType Γ (.node tag left right) type
  | arith {tag op l r type family} (hkind : tag.kind.arithOp? = some op) (hl : HasType Γ l type)
      (hr : HasType Γ r type) (hfamily : type.family? = some family) :
      HasType Γ (.node tag (some l) (some r)) type
  | cast {tag target l right source conversion} (hkind : tag.kind.castTarget? = some target)
      (h : HasType Γ l source) (hconv : source.conversionTo? target = some conversion) :
      HasType Γ (.node tag (some l) right) target
  | and {tag l r tl tr} (hkind : tag.kind = .and) (hl : HasType Γ l tl)
      (htl : tl.isIntCategory = true) (hr : HasType Γ r tr) (htr : tr.isIntCategory = true) :
      HasType Γ (.node tag (some l) (some r)) .boolean
  | or {tag l r tl tr} (hkind : tag.kind = .or) (hl : HasType Γ l tl)
      (htl : tl.isIntCategory = true) (hr : HasType Γ r tr) (htr : tr.isIntCategory = true) :
      HasType Γ (.node tag (some l) (some r)) .boolean
  | not {tag l right type} (hkind : tag.kind = .not) (h : HasType Γ l type)
      (htype : type.isIntCategory = true) : HasType Γ (.node tag (some l) right) .boolean
  | compare {tag test l r type} (hkind : tag.kind.comparison? = some test)
      (hl : HasType Γ l type) (hr : HasType Γ r type) (htype : type.isIntCategory = true) :
      HasType Γ (.node tag (some l) (some r)) .boolean

/-! ### Statements -/

/-- **What statements are checked under**: the types of the variables, and the names of the
finished tasks. -/
structure Known where
  env : TypeEnv
  finished : List String

/-- A task of this name can be started: it is finished, or begun, or the resolver knows
it and it is not the program. -/
def World.MayStart (w : World) (finished : List String) (name : String) : Prop :=
  name ∈ finished ∨ w.begun.lookup name = some .task ∨
    (w.begun.lookup name = none ∧ w.Resolves name)

/-- **A statement is in order**, and what is known after it. -/
inductive Checks : World → Known → Option Tree → Known → Prop
  | absent {w known} : Checks w known none known
  | sequence {w known known₁ known₂ tag left right} (hkind : tag.kind = .sequence)
      (h₁ : Checks w known left known₁) (h₂ : Checks w known₁ right known₂) :
      Checks w known (some (.node tag left right)) known₂
  | block {w known known₁ tag left} (hkind : tag.kind = .block) (h : Checks w known left known₁) :
      Checks w known (some (.node tag left none)) known₁
  | assign {w known tag target left right value name type} (hkind : tag.kind = .assign)
      (htarget : target.kind = .identifier) (hname : target.value = some name)
      (h : value.HasType known.env type)
      (hbound : ∀ other, known.env name = some other → other = type) :
      Checks w known (some (.node tag (some (.node target left right)) (some value)))
        { known with env := known.env.set name type }
  | print {w known tag value right type descriptor} (hkind : tag.kind = .print)
      (h : value.HasType known.env type) (hprint : type.printDescriptor? = some descriptor) :
      Checks w known (some (.node tag (some value) right)) known
  | assert {w known tag condition right type} (hkind : tag.kind = .assert)
      (h : condition.HasType known.env type) (htype : type.isIntCategory = true) :
      Checks w known (some (.node tag (some condition) right)) known
  | sleep {w known tag duration right type} (hkind : tag.kind = .sleep)
      (h : duration.HasType known.env type) (htype : type.isIntCategory = true) :
      Checks w known (some (.node tag (some duration) right)) known
  | ifThen {w known known₁ tag condition branch type} (hkind : tag.kind = .ifThen)
      (h : condition.HasType known.env type) (htype : type.isIntCategory = true)
      (hb : Checks w known (some branch) known₁) :
      Checks w known (some (.node tag (some condition) (some branch))) known₁
  | ifElse {w known known₁ known₂ tag inner condition thenBranch elseBranch type}
      (hkind : tag.kind = .ifElse) (hinner : inner.kind = .sequence)
      (h : condition.HasType known.env type) (htype : type.isIntCategory = true)
      (ht : Checks w known (some thenBranch) known₁)
      (he : Checks w known₁ (some elseBranch) known₂) :
      Checks w known (some (.node tag (some condition)
        (some (.node inner (some thenBranch) (some elseBranch))))) known₂
  | loop {w known known₁ tag condition body type} (hkind : tag.kind = .loop)
      (h : condition.HasType known.env type) (htype : type.isIntCategory = true)
      (hb : Checks w known (some body) known₁) :
      Checks w known (some (.node tag (some condition) (some body))) known₁
  | spawn {w known tag right name} (hkind : tag.kind = .multitask) (hname : tag.value = some name)
      (hplain : PlainName name) (hstart : w.MayStart known.finished name) :
      Checks w known (some (.node tag none right)) known
  | spawnInline {w known known₁ tag task right name} (hkind : tag.kind = .multitask)
      (hname : tag.value = some name) (hplain : PlainName name)
      (hfinished : name ∉ known.finished) (hbegun : w.begun.lookup name = none)
      (h : Checks (w.begin name .task) ⟨.empty, known.finished⟩ (some task) known₁) :
      Checks w known (some (.node tag (some task) right))
        { known with finished := known₁.finished ++ [name] }

/-- **A well-typed program** of the given name: its tree is in order, with no variable known
and no task finished. -/
def Tree.WellTyped (t : Tree) (config : Config) (resolver : Resolver) (name : String) : Prop :=
  ∃ known, Checks ⟨config, resolver, [(name, .program)]⟩ ⟨.empty, []⟩ (some t) known

end StackUnits
