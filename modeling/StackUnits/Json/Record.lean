import StackUnits.Json.Skip

/-!
# Reading a record

Trees and settings are records: a fixed list of named members, some of which may be
left out. A record is written as an object, with its members in any order and others
passed over, or as an array of the members in their own order, from which the last ones
may be left out.

What has been read so far of a record is a **draft** of some type `σ`. A member
(`StackUnits.Json.Member`) knows whether a draft has it already and how to read it into
one; `StackUnits.Json.Record` is the list of members with a function that takes the
draft of a complete record to its value.
-/

namespace StackUnits.Json

/-- **A member of a record**, read into drafts of type `σ`. -/
structure Member (σ : Type) where
  name : String
  isGiven : σ → Bool
  read : σ → Reader σ

/-- **A record** of type `α` with drafts of type `σ`. A draft that lacks a required
member is refused with the name of the member. -/
structure Record (σ α : Type) where
  name : String
  members : List (Member σ)
  draft : σ
  finish : σ → Except String α

/-! ### Simple values -/

/-- Read a value that may be `null`. -/
def readOptional {α : Type} (read : Reader α) : Reader (Option α) := fun text =>
  match dropBlanks text with
  | 'n' :: rest =>
    match word ['u', 'l', 'l'] rest with
    | .ok rest => .ok (none, rest)
    | .error e => .error e
  | text =>
    match read text with
    | .ok (a, rest) => .ok (some a, rest)
    | .error e => .error e

/-- Read a string, or say that a value of the wanted sort is not there. -/
def readText (wanted : Wanted) : Reader String := fun text =>
  match dropBlanks text with
  | '"' :: rest => readString rest
  | text => .error (wrongSort wanted text)

/-- Read a boolean. -/
def readBoolean : Reader Bool := fun text =>
  match dropBlanks text with
  | 't' :: rest =>
    match word ['r', 'u', 'e'] rest with
    | .ok rest => .ok (true, rest)
    | .error e => .error e
  | 'f' :: rest =>
    match word ['a', 'l', 's', 'e'] rest with
    | .ok rest => .ok (false, rest)
    | .error e => .error e
  | text => .error (wrongSort .boolean text)

/-- Read the colon after a key. -/
def readColon : Reader Unit := fun text =>
  match dropBlanks text with
  | [] => .error .endInObject
  | c :: rest => if c = ':' then .ok ((), rest) else .error .expectedColon

/-! ### Objects and arrays -/

/-- What follows in an object: its end, or a key, from after the opening mark. -/
def nextKey (first : Bool) : Reader Bool := fun text =>
  match dropBlanks text with
  | [] => .error .endInObject
  | c :: rest =>
    if c = '\x7d' then .ok (false, rest)
    else if first then
      if c = '"' then .ok (true, rest) else .error .keyNotString
    else if c = ',' then
      match dropBlanks rest with
      | [] => .error .endInValue
      | c :: rest =>
        if c = '"' then .ok (true, rest)
        else if c = '\x7d' then .error .trailingComma
        else .error .keyNotString
    else .error .expectedCommaOrBrace

/-- Read the value of the member with the given key into a draft, or pass over it if
there is no such member. -/
def readMember {σ : Type} (members : List (Member σ)) (fuel : Nat) (key : String)
    (draft : σ) : Reader σ := do
  match members.find? fun field => field.name == key with
  | some field =>
    if field.isGiven draft then
      throw (.duplicateField key)
    readColon
    field.read draft
  | none =>
    readColon
    let text ← get
    match skipValue fuel text with
    | .ok rest => set rest
    | .error e => throw e
    return draft

/-- Read the members of an object into a draft. -/
def readMembers {σ : Type} (members : List (Member σ)) : Nat → Bool → σ → Reader σ
  | 0, _, _ => throw .endInObject
  | fuel + 1, first, draft => do
    if ← nextKey first then
      let key ← readString
      let draft ← readMember members fuel key draft
      readMembers members fuel false draft
    else return draft

/-- Whether another entry follows in an array; its end is not read. -/
def nextItem (first : Bool) : Reader Bool := fun text =>
  match dropBlanks text with
  | [] => .error .endInList
  | c :: rest =>
    if c = ']' then .ok (false, c :: rest)
    else if first then .ok (true, c :: rest)
    else if c = ',' then
      match dropBlanks rest with
      | [] => .error .endInValue
      | c :: rest => if c = ']' then .error .trailingComma else .ok (true, c :: rest)
    else .error .expectedCommaOrBracket

/-- Read the members of a record from an array into a draft. -/
def readItems {σ : Type} : List (Member σ) → Bool → σ → Reader σ
  | [], _, draft => return draft
  | field :: rest, first, draft => do
    if ← nextItem first then
      let draft ← field.read draft
      readItems rest false draft
    else return draft

/-- Read the end of an array that has all its entries. -/
def endOfItems : Reader Unit := fun text =>
  match dropBlanks text with
  | [] => .error .endInList
  | c :: rest =>
    if c = ']' then .ok ((), rest)
    else if c = ',' && (dropBlanks rest).head? == some ']' then .error .trailingComma
    else .error .trailingCharacters

/-- **Read a record.** -/
def Record.read {σ α : Type} (record : Record σ α) (fuel : Nat) : Reader α := do
  let text ← get
  match dropBlanks text with
  | '\x7b' :: rest =>
    set rest
    let draft ← readMembers record.members fuel true record.draft
    match record.finish draft with
    | .ok a => return a
    | .error name => throw (.missingField name)
  | '[' :: rest =>
    set rest
    let draft ← readItems record.members true record.draft
    match record.finish draft with
    | .ok a =>
      endOfItems
      return a
    | .error name =>
      let count := record.members.findIdx fun field => field.name == name
      throw (.tooFewItems count record.name record.members.length)
  | text => throw (wrongSort (.record record.name) text)

/-- **Read a whole text**: one value, and nothing but blanks after it. -/
def parse {α : Type} (read : Nat → Reader α) (text : String) : Except Problem α :=
  let chars := text.toList
  match read (chars.length + 1) chars with
  | .error e => .error e
  | .ok (a, rest) => if (dropBlanks rest).isEmpty then .ok a else .error .trailingCharacters

end StackUnits.Json
