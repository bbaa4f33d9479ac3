import Keyring.Error

set_option autoImplicit false

namespace Keyring

inductive Level where
  | debug
  | info
  | warn
  deriving DecidableEq, Repr

def Level.name : Level → String
  | .debug => "DEBUG"
  | .info => "INFO"
  | .warn => "WARN"

inductive Event where
  | multipleActive (alg : Alg) (active ignored : String)
  | staleReload (generation installed : Nat)
  | reloaded (keys generation : Nat)
  | activeHit (alg : Alg)
  | activeMiss (alg : Alg)
  | keyHit (kid : String)
  | keyMiss (kid : String)
  | missReloadFailed (error : String)
  | rotated (kid : String)
  | rotationFailed (alg : Alg) (error : String)
  | initialKeys (created : List Alg)
  | algorithmMismatch (kid : String) (header key : Alg)
  | keyKindSkipped (kid : String) (alg : Alg)
  | sweepRotated (rotated : List Alg)
  | sweepFailed (error : String)
  | taskStopped
  deriving DecidableEq, Repr

namespace Event

def level : Event → Level
  | multipleActive _ _ _ | missReloadFailed _ | rotationFailed _ _ | sweepFailed _ => .warn
  | rotated _ | initialKeys _ | sweepRotated _ | taskStopped => .info
  | staleReload _ _ | reloaded _ _ | activeHit _ | activeMiss _ | keyHit _ | keyMiss _
  | algorithmMismatch _ _ _ | keyKindSkipped _ _ => .debug

def message : Event → String
  | multipleActive _ _ _ => "multiple active keys for algorithm"
  | staleReload _ _ => "discarding stale reload"
  | reloaded _ _ => "key cache reloaded"
  | activeHit _ => "active key cache hit"
  | activeMiss _ => "active key cache miss"
  | keyHit _ => "key cache hit"
  | keyMiss _ => "key cache miss"
  | missReloadFailed _ => "reload after cache miss failed"
  | rotated _ | rotationFailed _ _ => "audit_event"
  | initialKeys _ => "created initial signing keys"
  | algorithmMismatch _ _ _ => "JWS algorithm mismatch"
  | keyKindSkipped _ _ => "skipping key with mismatched public key kind"
  | sweepRotated _ => "rotated expired keys"
  | sweepFailed _ => "scheduled key rotation failed"
  | taskStopped => "key rotation task shutting down"

def algsText (algs : List Alg) : String := "[" ++ ", ".intercalate (algs.map Alg.logName) ++ "]"

def auditFields (resource result : String) : List (String × String) :=
  [("audit.action", "rotate_key"), ("audit.resource", resource), ("audit.result", result)]

def fields : Event → List (String × String)
  | multipleActive alg active ignored =>
    [("alg", alg.name), ("active_kid", active), ("ignored_kid", ignored)]
  | staleReload generation installed =>
    [("generation", toString generation), ("installed", toString installed)]
  | reloaded keys generation => [("keys", toString keys), ("generation", toString generation)]
  | activeHit alg | activeMiss alg => [("alg", alg.name)]
  | keyHit kid | keyMiss kid => [("kid", kid)]
  | missReloadFailed error | sweepFailed error => [("error", error)]
  | rotated kid => auditFields kid "success"
  | rotationFailed alg error => auditFields alg.name ("failure: " ++ error)
  | initialKeys created => [("created", algsText created)]
  | algorithmMismatch kid header key => [("kid", kid), ("header_alg", header.name), ("key_alg", key.name)]
  | keyKindSkipped kid alg => [("kid", kid), ("alg", alg.name)]
  | sweepRotated algs => [("rotated", algsText algs)]
  | taskStopped => []

end Event
end Keyring
