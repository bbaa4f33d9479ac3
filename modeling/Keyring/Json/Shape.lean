import Keyring.Json.Value

/-!
Readers for values of a known form: strings, choices, lists and records. A record is an object, or
the array of its members in their order; `Shape` says what its members are.
-/
set_option autoImplicit false

namespace Keyring.Json

/-- What a record does without a member. A nullable one may be missing from an object, a defaulted
one also from the end of an array. -/
inductive Absence where
  | required
  | nullable
  | defaulted
  deriving DecidableEq, Repr

structure Member (σ : Type) where
  name : String
  absence : Absence
  isSeen : σ → Bool
  read : Reader (σ → σ)

/-- The form of a record. A strict one admits no members but its own. -/
structure Shape (σ : Type) where
  name : String
  isStrict : Bool
  members : List (Member σ)

namespace Reader

def mismatch {α : Type} (expected : String) : Reader α := do
  match ← peek with
  | none => fail .malformed
  | some b =>
    if b = 0x6E then do nullWord; fail (.invalidType .null expected)
    else if b = 0x74 then do trueWord; fail (.invalidType (.boolean true) expected)
    else if b = 0x66 then do falseWord; fail (.invalidType (.boolean false) expected)
    else if b = 0x22 then do take; fail (.invalidType (.string (← stringBody)) expected)
    else if b = 0x5B then fail (.invalidType .sequence expected)
    else if b = 0x7B then fail (.invalidType .map expected)
    else do fail (.invalidType (.number (← number)) expected)

def stringFor (expected : String) : Reader String := do
  if (← peek) = some 0x22 then do take; stringBody else mismatch expected

def string : Reader String := stringFor "a string"

def boolean : Reader Bool := do
  match ← peek with
  | some 0x74 => do trueWord; pure true
  | some 0x66 => do falseWord; pure false
  | _ => mismatch "a boolean"

def unit : Reader Unit := do
  if (← peek) = some 0x6E then nullWord else mismatch "unit"

def nullable {α : Type} (r : Reader α) : Reader (Option α) := do
  if (← peek) = some 0x6E then do nullWord; pure none else some <$> r

def listFrom {α : Type} (item : Reader α) : (fuel : Nat) → (isFirst : Bool) → Reader (List α)
  | 0, _ => fail .malformed
  | fuel + 1, isFirst => do
    if ← separate 0x5D isFirst then do take; pure []
    else do
      let x ← item
      let xs ← listFrom item fuel false
      pure (x :: xs)

/-- A list of items. It has fewer of them than the text has bytes. -/
def list {α : Type} (item : Reader α) : Reader (List α) := do
  if (← peek) = some 0x5B then do
    take
    fun bs => listFrom item (bs.length + 1) true bs
  else mismatch "a sequence"

def choiceNamed {α : Type} (table : List (String × α)) (name : String) : Reader α :=
  match table.find? (fun entry => entry.1 = name) with
  | none => fail (.unknownVariant name (table.map Prod.fst))
  | some (_, x) => pure x

/-- One of the named choices: its name, or an object with the name as its only member, which is null. -/
def choice {α : Type} (table : List (String × α)) : Reader α := do
  match ← peek with
  | some 0x22 => do
    take
    choiceNamed table (← stringBody)
  | some 0x7B => do
    take
    mark 0x22
    let x ← choiceNamed table (← stringBody)
    mark 0x3A
    unit
    mark 0x7D
    pure x
  | _ => fail .malformed

end Reader

namespace Shape

variable {σ : Type}

def title (s : Shape σ) : String := "struct " ++ s.name

def extent (s : Shape σ) : String :=
  s.title ++ " with " ++ toString s.members.length ++ (if s.members.length = 1 then " element" else " elements")

/-- The first member that is required and has not been seen. -/
def missing? (s : Shape σ) (draft : σ) : Option String :=
  (s.members.find? (fun m => m.absence = .required && !m.isSeen draft)).map Member.name

def readNamed (s : Shape σ) (name : String) (draft : σ) : Reader σ :=
  match s.members.find? (fun m => m.name = name) with
  | none =>
    if s.isStrict then Reader.fail (.unknownField name (s.members.map Member.name))
    else do
      Reader.mark 0x3A
      Reader.skipValue
      pure draft
  | some m =>
    if m.isSeen draft then Reader.fail (.duplicateField name)
    else do
      Reader.mark 0x3A
      return (← m.read) draft

def readObject (s : Shape σ) : (fuel : Nat) → (isFirst : Bool) → σ → Reader σ
  | 0, _, _ => Reader.fail .malformed
  | fuel + 1, isFirst, draft => do
    if ← Reader.separate 0x7D isFirst then
      match s.missing? draft with
      | some name => Reader.fail (.missingField name)
      | none => do Reader.take; pure draft
    else do
      Reader.mark 0x22
      let name ← Reader.stringBody
      let draft ← s.readNamed name draft
      readObject s fuel false draft

/-- Reads the given members from an array, of which `index` have been read. -/
def readArray (s : Shape σ) : (index : Nat) → List (Member σ) → σ → Reader σ
  | _, [], draft => do
    Reader.mark 0x5D
    pure draft
  | index, m :: more, draft => do
    if ← Reader.separate 0x5D (index = 0) then
      if m.absence = .defaulted then readArray s (index + 1) more draft
      else Reader.fail (.invalidLength index s.extent)
    else do
      let draft := (← m.read) draft
      readArray s (index + 1) more draft

def read (s : Shape σ) (empty : σ) : Reader σ := do
  match ← Reader.peek with
  | some 0x7B => do
    Reader.take
    fun bs => s.readObject (bs.length + 1) true empty bs
  | some 0x5B => do
    Reader.take
    s.readArray 0 s.members empty
  | _ => Reader.mismatch s.title

end Shape
end Keyring.Json
