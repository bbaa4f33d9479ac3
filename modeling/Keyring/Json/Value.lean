import Keyring.Json.Number

/-!
JSON values: their compact text, and the readers that take in or pass over any value. The members of
an object that was read are in the order of their names, and the last one of a name counts.
-/
set_option autoImplicit false

namespace Keyring.Json

inductive Value where
  | null
  | boolean (b : Bool)
  | number (n : Number)
  | string (s : String)
  | array (elements : List Value)
  | object (members : List (String × Value))

def unicodeEscape (n : Nat) : List Char := ['\\', 'u', '0', '0', Nat.digitChar (n / 16), Nat.digitChar (n % 16)]

def escapeChar (c : Char) : List Char :=
  if c = '"' then ['\\', '"']
  else if c = '\\' then ['\\', '\\']
  else if c = '\x08' then ['\\', 'b']
  else if c = '\x0c' then ['\\', 'f']
  else if c = '\n' then ['\\', 'n']
  else if c = '\r' then ['\\', 'r']
  else if c = '\t' then ['\\', 't']
  else if c.toNat < 0x20 then unicodeEscape c.toNat
  else [c]

def stringText (s : String) : List Char := '"' :: (s.toList.flatMap escapeChar ++ ['"'])

mutual

def Value.text : Value → List Char
  | .null => "null".toList
  | .boolean b => if b then "true".toList else "false".toList
  | .number n => n.text
  | .string s => stringText s
  | .array [] => ['[', ']']
  | .array (x :: xs) => '[' :: (x.text ++ elementsText xs)
  | .object [] => ['\x7b', '\x7d']
  | .object ((k, x) :: ms) => '\x7b' :: (stringText k ++ ':' :: (x.text ++ membersText ms))

def elementsText : List Value → List Char
  | [] => [']']
  | x :: xs => ',' :: (x.text ++ elementsText xs)

def membersText : List (String × Value) → List Char
  | [] => ['\x7d']
  | (k, x) :: ms => ',' :: (stringText k ++ ':' :: (x.text ++ membersText ms))

end

def putMember (name : String) (x : Value) : List (String × Value) → List (String × Value)
  | [] => [(name, x)]
  | (k, y) :: ms =>
    if name < k then (name, x) :: (k, y) :: ms
    else if name = k then (name, x) :: ms
    else (k, y) :: putMember name x ms

namespace Reader

/-- Before an element or a member: takes the comma that divides it from the one before. Gives whether
the end, whose mark is given, has come instead. -/
def separate (closing : UInt8) (isFirst : Bool) : Reader Bool := do
  match ← peek with
  | none => fail .malformed
  | some b =>
    if b = closing then pure true
    else if isFirst then pure false
    else if b = 0x2C then do
      take
      if (← peek) = some closing then fail .malformed else pure false
    else fail .malformed

mutual

/-- Reads any value. Less than `depth` arrays and objects may be open at a time. -/
def value : (fuel depth : Nat) → Reader Value
  | 0, _ => fail .malformed
  | fuel + 1, depth => do
    match ← peek with
    | none => fail .malformed
    | some b =>
      if b = 0x6E then do nullWord; pure .null
      else if b = 0x74 then do trueWord; pure (.boolean true)
      else if b = 0x66 then do falseWord; pure (.boolean false)
      else if b = 0x22 then do take; .string <$> stringBody
      else if b = 0x5B then
        if depth ≤ 1 then fail .malformed else do take; .array <$> elements fuel (depth - 1) true
      else if b = 0x7B then
        if depth ≤ 1 then fail .malformed else do take; .object <$> members fuel (depth - 1) true []
      else .number <$> number

def elements : (fuel depth : Nat) → (isFirst : Bool) → Reader (List Value)
  | 0, _, _ => fail .malformed
  | fuel + 1, depth, isFirst => do
    if ← separate 0x5D isFirst then do take; pure []
    else do
      let x ← value fuel depth
      let xs ← elements fuel depth false
      pure (x :: xs)

def members : (fuel depth : Nat) → (isFirst : Bool) → List (String × Value) →
    Reader (List (String × Value))
  | 0, _, _, _ => fail .malformed
  | fuel + 1, depth, isFirst, before => do
    if ← separate 0x7D isFirst then do take; pure before
    else do
      mark 0x22
      let name ← stringBody
      mark 0x3A
      let x ← value fuel depth
      members fuel depth false (putMember name x before)

end

mutual

def skip : (fuel : Nat) → Reader Unit
  | 0 => fail .malformed
  | fuel + 1 => do
    match ← peek with
    | none => fail .malformed
    | some b =>
      if b = 0x6E then nullWord
      else if b = 0x74 then trueWord
      else if b = 0x66 then falseWord
      else if b = 0x22 then do take; skipStringBody
      else if b = 0x5B then do take; skipElements fuel true
      else if b = 0x7B then do take; skipMembers fuel true
      else do let _ ← numeral; pure ()

def skipElements : (fuel : Nat) → (isFirst : Bool) → Reader Unit
  | 0, _ => fail .malformed
  | fuel + 1, isFirst => do
    if ← separate 0x5D isFirst then take
    else do
      skip fuel
      skipElements fuel false

def skipMembers : (fuel : Nat) → (isFirst : Bool) → Reader Unit
  | 0, _ => fail .malformed
  | fuel + 1, isFirst => do
    if ← separate 0x7D isFirst then take
    else do
      mark 0x22
      skipStringBody
      mark 0x3A
      skip fuel
      skipMembers fuel false

end

/-- Passes over a value. It has fewer parts than the text has bytes. -/
def skipValue : Reader Unit := fun bs => skip (2 * bs.length + 1) bs

end Reader

/-- How many arrays and objects may be open at a time, plus one. -/
def depthLimit : Nat := 128

def Reader.anyValue : Reader Value := fun bs => value (2 * bs.length + 1) depthLimit bs

def Value.ofBytes (bs : Bytes) : Except Fault Value := Reader.anyValue.run bs

def Value.toString (v : Value) : String := String.ofList v.text

end Keyring.Json
