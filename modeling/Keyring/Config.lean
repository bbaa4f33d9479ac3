import Keyring.Duration.Text
import Keyring.Error

set_option autoImplicit false

namespace Keyring

namespace Json

def ofDuration (d : Duration) : Value := .string (String.ofList d.text)

def Reader.duration : Reader Duration := do
  let s ← stringFor "a duration"
  match Duration.ofText? s.toList with
  | none => fail (.invalidValue (.string s) "a duration")
  | some d => pure d

end Json

structure Config where
  algorithms : List Alg
  keyTtl : Duration
  rotationCheckInterval : Duration
  deriving DecidableEq

namespace Config

def standard : Config where
  algorithms := Alg.all
  keyTtl := .days 30
  rotationCheckInterval := .minutes 60

structure Draft where
  algorithms : Option (List Alg) := none
  keyTtl : Option Duration := none
  rotationCheckInterval : Option Duration := none

def shape : Json.Shape Draft where
  name := "KeyManagerConfig"
  isStrict := true
  members := [
    ⟨"algorithms", .defaulted, fun d => d.algorithms.isSome,
      (fun x d => { d with algorithms := some x }) <$> Json.Reader.list Alg.read⟩,
    ⟨"key_ttl", .defaulted, fun d => d.keyTtl.isSome,
      (fun x d => { d with keyTtl := some x }) <$> Json.Reader.duration⟩,
    ⟨"rotation_check_interval", .defaulted, fun d => d.rotationCheckInterval.isSome,
      (fun x d => { d with rotationCheckInterval := some x }) <$> Json.Reader.duration⟩]

def Draft.complete (d : Draft) : Config where
  algorithms := d.algorithms.getD standard.algorithms
  keyTtl := d.keyTtl.getD standard.keyTtl
  rotationCheckInterval := d.rotationCheckInterval.getD standard.rotationCheckInterval

def read : Json.Reader Config := Draft.complete <$> shape.read {}

def ofJson (text : String) : Except Json.Fault Config := read.run (Utf8.ofString text)

def toJson (c : Config) : Json.Value :=
  .object [("algorithms", .array (c.algorithms.map Alg.toJson)), ("key_ttl", Json.ofDuration c.keyTtl),
    ("rotation_check_interval", Json.ofDuration c.rotationCheckInterval)]

def validate (c : Config) : Except KeyError Unit :=
  if c.algorithms = [] then .error (.configuration .noAlgorithms)
  else if c.keyTtl.isZero then .error (.configuration .ttlNotPositive)
  else if c.rotationCheckInterval.isZero then .error (.configuration .intervalNotPositive)
  else .ok ()

end Config

/-- A rotation policy: the answer to the question how long a new key is to live. -/
abbrev Policy := Except KeyError Duration

namespace Policy

def fixed (ttl : Duration) : Policy := .ok ttl

def ofCallback : Except Source Duration → Policy
  | .ok ttl => .ok ttl
  | .error source => .error (.policy .callback source)

def resolve : Policy → Except KeyError Duration
  | .error error => .error error
  | .ok ttl => if ttl.isZero then .error (.policy .ttlNotPositive .absent) else .ok ttl

end Policy

def Config.rotationPolicy (c : Config) : Policy := .fixed c.keyTtl

end Keyring
