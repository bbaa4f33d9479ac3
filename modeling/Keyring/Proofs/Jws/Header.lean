import Keyring.Jws
import Keyring.Proofs.Json.Record

set_option autoImplicit false

namespace Keyring.Jws.Header

open Json

theorem takes_toJson (alg kid : String) (typ : Option String) :
    shape.Takes {} ([("alg", .string alg), ("kid", .string kid)] ++ Jwk.optionalMember "typ" typ)
      ⟨some alg, some kid, typ.map some⟩ := by
  refine .cons _ (fun d => { d with alg := some alg }) rfl rfl (fun rest _ => ?_)
    (.cons _ (fun d => { d with kid := some kid }) rfl rfl (fun rest _ => ?_) ?_)
  · exact Reader.map_ok _ (Reader.string_text alg rest)
  · exact Reader.map_ok _ (Reader.string_text kid rest)
  cases typ with
  | none => exact .nil _
  | some t =>
    refine .cons _ (fun d => { d with typ := some (some t) }) rfl rfl (fun rest _ => ?_) (.nil _)
    exact Reader.map_ok _ (Reader.nullable_string_text t rest)

theorem read_text (h : Header) : read.run (Utf8.encode h.toJson.text) = .ok h := by
  have hmissing : shape.missing? ⟨some h.alg, some h.kid, h.typ.map some⟩ = none := by
    cases h.typ <;> rfl
  have hread := Shape.read_object (takes_toJson h.alg h.kid h.typ) hmissing []
  rw [List.append_nil] at hread
  have hheader : read (Utf8.encode h.toJson.text) = .ok (h, []) := by
    refine (Reader.bind_ok hread).trans ?_
    obtain ⟨alg, kid, typ⟩ := h
    cases typ <;> rfl
  simp [Reader.run, hheader, finish_nil]

end Keyring.Jws.Header
