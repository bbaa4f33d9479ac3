import Keyring.Proofs.Base64.Codec
import Keyring.Proofs.Json.Typed
import Keyring.Proofs.Time.Text
import Keyring.Record

set_option autoImplicit false

namespace Keyring

open Json Json.Reader

theorem Alg.reads_toJson (a : Alg) : Alg.read.Reads a.toJson a := reads_choice (by cases a <;> decide)

theorem Json.reads_ofBytes (bs : Bytes) : Reader.bytes.Reads (ofBytes bs) bs := by
  refine (reads_string _).bind ?_
  rw [Base64.ofString_text Base64.url_lawful, (Base64.decode_eq_ok_iff Base64.url_lawful).mpr rfl]

theorem Json.reads_ofTime {t : Time} (h : t.IsCivil) : Reader.time.Reads (ofTime t) t := by
  refine (reads_stringFor _ _).bind ?_
  rw [String.toList_ofList, Time.ofText?_text h]

theorem EncryptedKey.reads_toJson (k : EncryptedKey) : EncryptedKey.read.Reads k.toJson k := by
  have htakes : shape.Takes {} [("nonce", ofBytes k.nonce), ("ciphertext", ofBytes k.ciphertext)]
      ⟨some k.nonce, some k.ciphertext⟩ :=
    .cons _ (fun d => { d with nonce := some k.nonce }) rfl rfl ((reads_ofBytes _).map _)
      (.cons _ (fun d => { d with ciphertext := some k.ciphertext }) rfl rfl ((reads_ofBytes _).map _) (.nil _))
  exact (Shape.reads_object htakes rfl).bind rfl

namespace Record

/-- The times of a record are moments of the calendar. -/
structure IsDated (r : Record) : Prop where
  created : r.createdAt.IsCivil
  expires : ∀ t, r.expiresAt = some t → t.IsCivil

theorem reads_expiresAt {r : Record} (h : r.IsDated) :
    (nullable Reader.time).Reads ((r.expiresAt.map ofTime).getD .null) r.expiresAt := by
  cases hr : r.expiresAt with
  | none => exact reads_nullable_null _
  | some t => exact (reads_ofTime (h.expires t hr)).nullable

theorem takes_toJson {r : Record} (h : r.IsDated) : shape.Takes {}
    [("kid", .string r.kid), ("alg", r.alg.toJson), ("is_active", .boolean r.isActive),
      ("created_at", ofTime r.createdAt), ("expires_at", (r.expiresAt.map ofTime).getD .null),
      ("encrypted_key", r.encryptedKey.toJson)]
    ⟨some r.kid, some r.alg, some r.isActive, some r.createdAt, some r.expiresAt, some r.encryptedKey⟩ := by
  refine .cons _ (fun d => { d with kid := some r.kid }) rfl rfl ?_
    (.cons _ (fun d => { d with alg := some r.alg }) rfl rfl ?_
    (.cons _ (fun d => { d with isActive := some r.isActive }) rfl rfl ?_
    (.cons _ (fun d => { d with createdAt := some r.createdAt }) rfl rfl ?_
    (.cons _ (fun d => { d with expiresAt := some r.expiresAt }) rfl rfl ?_
    (.cons _ (fun d => { d with encryptedKey := some r.encryptedKey }) rfl rfl ?_ (.nil _))))))
  · exact (reads_string _).map _
  · exact (Alg.reads_toJson _).map _
  · exact (reads_boolean _).map _
  · exact (reads_ofTime h.created).map _
  · exact (reads_expiresAt h).map _
  · exact (EncryptedKey.reads_toJson _).map _

theorem reads_toJson {r : Record} (h : r.IsDated) : Record.read.Reads r.toJson r :=
  (Shape.reads_object (takes_toJson h) rfl).bind rfl

theorem ofJson_toString {r : Record} (h : r.IsDated) : ofJson r.toJson.toString = .ok r := (reads_toJson h).run

end Record
end Keyring
