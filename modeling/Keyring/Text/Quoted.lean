import Keyring.Text.Printable

set_option autoImplicit false

namespace Keyring.Text

def hexDigits (n : Nat) : List Char := Nat.toDigits 16 n

def quotedChar (c : Char) : List Char :=
  if c = '\x00' then ['\\', '0']
  else if c = '\t' then ['\\', 't']
  else if c = '\r' then ['\\', 'r']
  else if c = '\n' then ['\\', 'n']
  else if c = '\\' then ['\\', '\\']
  else if c = '"' then ['\\', '"']
  else if isPlain c then [c]
  else ['\\', 'u', '{'] ++ hexDigits c.toNat ++ ['}']

def quoted (s : String) : String :=
  String.ofList ('"' :: s.toList.flatMap quotedChar ++ ['"'])

end Keyring.Text
