import Keyring.Base64
import Keyring.Binary64.Shortest
import Keyring.Decimal
import Keyring.Text.Quoted

set_option autoImplicit false

namespace Keyring.Json

inductive Number where
  | integer (n : Int)
  | float (x : Binary64)
  deriving DecidableEq, Repr

inductive Found where
  | null
  | boolean (b : Bool)
  | number (n : Number)
  | string (s : String)
  | sequence
  | map
  deriving DecidableEq, Repr

def Found.text : Found → String
  | .null => "null"
  | .boolean b => "boolean `" ++ (if b then "true" else "false") ++ "`"
  | .number (.integer n) => "integer `" ++ String.ofList (Decimal.signed n) ++ "`"
  | .number (.float x) => "floating point `" ++ String.ofList x.text ++ "`"
  | .string s => "string " ++ Text.quoted s
  | .sequence => "sequence"
  | .map => "map"

inductive Fault where
  | malformed
  | missingField (name : String)
  | unknownField (name : String) (known : List String)
  | duplicateField (name : String)
  | unknownVariant (name : String) (known : List String)
  | invalidType (found : Found) (expected : String)
  | invalidLength (length : Nat) (expected : String)
  | invalidValue (found : Found) (expected : String)
  | base64 (fault : Base64.Fault)
  deriving DecidableEq, Repr

def ticked (name : String) : String := "`" ++ name ++ "`"

def choices : List String → String
  | [] => "nothing"
  | [a] => ticked a
  | [a, b] => ticked a ++ " or " ++ ticked b
  | names => "one of " ++ ", ".intercalate (names.map ticked)

def Fault.message : Fault → String
  | .malformed => "malformed"
  | .missingField name => "missing field " ++ ticked name
  | .unknownField name known => "unknown field " ++ ticked name ++ ", expected " ++ choices known
  | .duplicateField name => "duplicate field " ++ ticked name
  | .unknownVariant name known => "unknown variant " ++ ticked name ++ ", expected " ++ choices known
  | .invalidType found expected => "invalid type: " ++ found.text ++ ", expected " ++ expected
  | .invalidLength length expected => "invalid length " ++ toString length ++ ", expected " ++ expected
  | .invalidValue found expected => "invalid value: " ++ found.text ++ ", expected " ++ expected
  | .base64 fault => fault.message

end Keyring.Json
