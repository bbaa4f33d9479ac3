import Keyring.Alg
import Keyring.EcdsaSignature
import Keyring.Rsa

set_option autoImplicit false

namespace Keyring

inductive TokenPart where
  | header
  | claims
  | signature
  deriving DecidableEq, Repr

def TokenPart.text : TokenPart → String
  | .header => "header"
  | .claims => "claims"
  | .signature => "signature"

inductive DecodeFault where
  | signature (fault : EcdsaSignature.Fault)
  | oddSignature (length : Nat)
  | document
  | keyKind (oid : String)
  | keyBody
  | otherKind (kid : String) (recorded held : Alg)
  | partCount
  | partText (part : TokenPart) (fault : Base64.Fault)
  | partJson (part : TokenPart) (fault : Json.Fault)
  | note (text : String)
  deriving DecidableEq, Repr

def DecodeFault.message : DecodeFault → String
  | .signature fault => fault.message
  | .oddSignature length => "ECDSA signature length must be even, got " ++ toString length
  | .document => "invalid PKCS#8: not a private key document"
  | .keyKind oid => "unsupported PKCS#8 key algorithm " ++ oid
  | .keyBody => "invalid PKCS#8 key body: not a key of its algorithm"
  | .otherKind kid recorded held =>
    "key " ++ kid ++ " is recorded as " ++ recorded.name ++ " but holds a " ++ held.name ++ " key"
  | .partCount => "compact JWS must have exactly three parts"
  | .partText part fault => "invalid base64url in JWS " ++ part.text ++ ": " ++ fault.message
  | .partJson part fault => "invalid JSON in JWS " ++ part.text ++ ": " ++ fault.message
  | .note text => text

inductive ConfigurationFault where
  | noAlgorithms
  | ttlNotPositive
  | intervalNotPositive
  | checkIntervalNotPositive
  | masterKeyLength (length : Nat)
  | masterKeyText (fault : Base64.Fault)
  | note (text : String)
  deriving DecidableEq, Repr

def ConfigurationFault.message : ConfigurationFault → String
  | .noAlgorithms => "at least one algorithm must be configured"
  | .ttlNotPositive => "key_ttl must be positive"
  | .intervalNotPositive => "rotation_check_interval must be positive"
  | .checkIntervalNotPositive => "rotation check interval must be positive"
  | .masterKeyLength length => "master key must be 32 bytes, got " ++ toString length
  | .masterKeyText fault => "master key is not base64: " ++ fault.message
  | .note text => text

inductive PolicyFault where
  | ttlNotPositive
  | ttlOutOfRange
  | callback
  | note (text : String)
  deriving DecidableEq, Repr

def PolicyFault.message : PolicyFault → String
  | .ttlNotPositive => "rotation TTL must be positive"
  | .ttlOutOfRange => "rotation TTL out of range"
  | .callback => "policy callback failed"
  | .note text => text

inductive InternalFault where
  | keyEncoding
  | keyGeneration (alg : Alg)
  | rsaSigning (fault : Rsa.Fault)
  | ecdsaSigning
  | beforeReload
  | note (text : String)
  deriving DecidableEq, Repr

def InternalFault.message : InternalFault → String
  | .keyEncoding => "PKCS#8 encoding failed: PKCS#8 cryptographic key data malformed"
  | .keyGeneration alg => alg.name ++ " key generation failed"
  | .rsaSigning fault => "RSA signing failed: " ++ fault.message
  | .ecdsaSigning => "ECDSA signing failed: signature error"
  | .beforeReload => "injected failure before reload"
  | .note text => text

mutual

inductive StorageError where
  | notFound (kid : String)
  | conflict (kid : String)
  | connection (message : String) (source : Source)
  | internal (message : String) (source : Source)
  | timeout

inductive KeyError where
  | configuration (fault : ConfigurationFault)
  | decode (fault : DecodeFault)
  | integerTooLarge (length most : Nat)
  | decryption
  | encryption (message : String)
  | invalidSignature
  | wrongKeyType (expected : Alg)
  | unsupportedAlgorithm (name : String)
  | storage (error : StorageError)
  | policy (fault : PolicyFault) (source : Source)
  | payload (source : Source)
  | noActiveKey (alg : Alg)
  | keyNotFound (kid : String)
  | rotationFailed (failures : List (Alg × KeyError))
  | internal (fault : InternalFault)

inductive Source where
  | absent
  | storage (error : StorageError)
  | key (error : KeyError)
  | text (message : String)

end

def StorageError.message : StorageError → String
  | .notFound kid => "Key record not found: " ++ kid
  | .conflict kid => "Key record already exists: " ++ kid
  | .connection message _ => "Connection error: " ++ message
  | .internal message _ => "Internal error: " ++ message
  | .timeout => "Operation timeout"

def StorageError.isTransient : StorageError → Bool
  | .connection _ _ => true
  | .timeout => true
  | _ => false

mutual

def KeyError.message : KeyError → String
  | .configuration fault => "Configuration error: " ++ fault.message
  | .decode fault => "Decode error: " ++ fault.message
  | .integerTooLarge length most =>
    "Integer too large: " ++ toString length ++ " bytes exceeds " ++ toString most
  | .decryption => "Decryption failed"
  | .encryption message => "Encryption failed: " ++ message
  | .invalidSignature => "Invalid signature"
  | .wrongKeyType expected => "Wrong key type for " ++ expected.name
  | .unsupportedAlgorithm name => "Unsupported algorithm: " ++ name
  | .storage error => "Key storage error: " ++ error.message
  | .policy fault _ => "Rotation policy error: " ++ fault.message
  | .payload source => "Payload builder error: " ++ source.message
  | .noActiveKey alg => "No active key for " ++ alg.name
  | .keyNotFound kid => "Signing key not found: " ++ kid
  | .rotationFailed failures => "Rotation failed for " ++ failuresText failures
  | .internal fault => "Internal error: " ++ fault.message

def Source.message : Source → String
  | .absent => ""
  | .storage error => error.message
  | .key error => error.message
  | .text message => message

def failuresText : List (Alg × KeyError) → String
  | [] => ""
  | [(alg, error)] => alg.name ++ ": " ++ error.message
  | (alg, error) :: more => alg.name ++ ": " ++ error.message ++ "; " ++ failuresText more

end

mutual

def StorageError.sources : StorageError → List String
  | .connection _ source => source.chain
  | .internal _ source => source.chain
  | _ => []

/-- The sources of an error, nearest first, each by its message. -/
def KeyError.sources : KeyError → List String
  | .storage error => error.message :: error.sources
  | .policy _ source => source.chain
  | .payload source => source.chain
  | _ => []

/-- A source and its own sources. -/
def Source.chain : Source → List String
  | .absent => []
  | .storage error => error.message :: error.sources
  | .key error => error.message :: error.sources
  | .text message => [message]

end

def KeyError.ofSignatureFault : EcdsaSignature.Fault → KeyError
  | .integerTooLarge length most => .integerTooLarge length most
  | fault => .decode (.signature fault)

instance : Inhabited KeyError := ⟨.decryption⟩
instance : Inhabited StorageError := ⟨.timeout⟩
instance : Inhabited Source := ⟨.absent⟩

end Keyring
