import Keyring.Catalog
import Keyring.Error
import Keyring.Record

set_option autoImplicit false

namespace Keyring

structure Store where
  records : List Record
  distinct : (records.map Record.kid).Nodup

namespace Store

def empty : Store := ⟨[], by simp⟩

instance : Inhabited Store := ⟨empty⟩

def get? (s : Store) (kid : String) : Option Record := Catalog.find? Record.kid kid s.records

def contains (s : Store) (kid : String) : Bool := (s.get? kid).isSome

def size (s : Store) : Nat := s.records.length

def insert (s : Store) (r : Record) : Store :=
  ⟨Catalog.put Record.kid r s.records, Catalog.put_nodup Record.kid r s.records s.distinct⟩

/-- Puts a new record in, and an old one back in its changed form. Both are done or neither: the old
record must be there and the id of the new one must be free. -/
def rotate (s : Store) (new : Record) (old : Option Record) : Except StorageError Store :=
  match old with
  | none => if s.contains new.kid then .error (.conflict new.kid) else .ok (s.insert new)
  | some old =>
    if !s.contains old.kid then .error (.notFound old.kid)
    else if s.contains new.kid then .error (.conflict new.kid)
    else .ok ((s.insert old).insert new)

theorem get?_insert_self (s : Store) (r : Record) : (s.insert r).get? r.kid = some r :=
  Catalog.find?_put_self Record.kid r s.records

theorem get?_insert_of_ne (s : Store) (r : Record) (kid : String) (h : r.kid ≠ kid) :
    (s.insert r).get? kid = s.get? kid :=
  Catalog.find?_put_of_ne Record.kid r kid s.records h

end Store
end Keyring
