import Keyring.Alg

set_option autoImplicit false

namespace Keyring.KeyId

def randomLength : Nat := 12

def ofRandom (alg : Alg) (random : Bytes) : String := alg.name ++ "_" ++ Base64.text Base64.url random

def isShaped (alg : Alg) (kid : String) : Bool :=
  kid.toList.take (alg.name.length + 1) == (alg.name ++ "_").toList &&
    match Base64.decode Base64.url (Utf8.encode (kid.toList.drop (alg.name.length + 1))) with
    | .ok bs => bs.length == randomLength
    | .error _ => false

end Keyring.KeyId
