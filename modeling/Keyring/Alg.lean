import Keyring.Json.Shape

set_option autoImplicit false

namespace Keyring

inductive Alg where
  | rs256
  | es256
  | edDsa
  deriving DecidableEq, Repr

namespace Alg

def all : List Alg := [.rs256, .es256, .edDsa]

def name : Alg → String
  | .rs256 => "RS256"
  | .es256 => "ES256"
  | .edDsa => "EdDSA"

def logName : Alg → String
  | .rs256 => "Rs256"
  | .es256 => "Es256"
  | .edDsa => "EdDsa"

def ofName? (s : String) : Option Alg := all.find? (fun a => a.name = s)

def isPrehashed : Alg → Bool
  | .rs256 => true
  | .es256 => true
  | .edDsa => false

def rank : Alg → Nat
  | .rs256 => 0
  | .es256 => 1
  | .edDsa => 2

def order (a b : Alg) : Ordering := compare a.rank b.rank

def read : Json.Reader Alg := Json.Reader.choice (all.map (fun a => (a.name, a)))

def toJson (a : Alg) : Json.Value := .string a.name

theorem mem_all (a : Alg) : a ∈ all := by cases a <;> decide

theorem ofName?_name (a : Alg) : ofName? a.name = some a := by cases a <;> decide

end Alg
end Keyring
