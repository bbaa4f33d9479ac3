import Keyring.Json.Shape
import Keyring.Proofs.Json.RoundTrip

set_option autoImplicit false

namespace Keyring.Json

open Reader

theorem Reader.stringFor_text (expected s : String) (rest : Bytes) :
    stringFor expected (Utf8.encode (stringText s) ++ rest) = .ok (s, rest) := by
  have htake : take (0x22 :: (Utf8.encode (s.toList.flatMap escapeChar) ++ [0x22] ++ rest)) =
      .ok ((), Utf8.encode (s.toList.flatMap escapeChar) ++ 0x22 :: rest) := by simp [take]
  rw [stringFor, encode_stringText, List.cons_append, bind_ok (peek_cons rfl _)]
  exact (bind_ok htake).trans (stringBody_text s rest)

theorem Reader.string_text (s : String) (rest : Bytes) :
    string (Utf8.encode (Value.string s).text ++ rest) = .ok (s, rest) := by
  rw [Value.text]
  exact stringFor_text _ s rest

theorem Reader.nullable_string_text (s : String) (rest : Bytes) :
    nullable string (Utf8.encode (Value.string s).text ++ rest) = .ok (some s, rest) := by
  have hs := string_text s rest
  rw [Value.text, encode_stringText, List.cons_append] at hs ⊢
  rw [nullable, bind_ok (peek_cons rfl _)]
  exact map_ok _ hs

namespace Shape

variable {σ : Type}

/-- A draft takes in members one after another: each is one of the record's, has not been seen, and reads
from its text. -/
inductive Takes (s : Shape σ) : σ → List (String × Value) → σ → Prop where
  | nil (draft : σ) : Takes s draft [] draft
  | cons {draft draft' : σ} {name : String} {x : Value} {ms : List (String × Value)} (m : Member σ)
      (f : σ → σ) (hm : s.members.find? (fun m => m.name = name) = some m) (hseen : m.isSeen draft = false)
      (hread : ∀ rest, EndsNumeral rest → m.read (Utf8.encode x.text ++ rest) = .ok (f, rest))
      (h : Takes s (f draft) ms draft') : Takes s draft ((name, x) :: ms) draft'

variable {s : Shape σ} {draft draft' : σ}

theorem readObject_step {name : String} {x : Value} {m : Member σ} {f : σ → σ} {fuel : Nat} {isFirst : Bool}
    {bs rest : Bytes} {result : σ × Bytes}
    (hsep : separate 0x7D isFirst bs =
      .ok (false, Utf8.encode (stringText name) ++ 0x3A :: (Utf8.encode x.text ++ rest)))
    (hm : s.members.find? (fun m => m.name = name) = some m) (hseen : m.isSeen draft = false)
    (hread : m.read (Utf8.encode x.text ++ rest) = .ok (f, rest))
    (h : s.readObject fuel false (f draft) rest = .ok result) :
    s.readObject (fuel + 1) isFirst draft bs = .ok result := by
  have hnamed : s.readNamed name draft (0x3A :: (Utf8.encode x.text ++ rest)) = .ok (f draft, rest) := by
    rw [readNamed, hm]
    simp only [hseen, Bool.false_eq_true, if_false]
    rw [bind_ok (mark_cons rfl _), bind_ok hread]
    rfl
  rw [encode_stringText, List.cons_append, List.append_assoc] at hsep
  rw [readObject, bind_ok hsep]
  simp only [Bool.false_eq_true, if_false]
  rw [bind_ok (mark_cons rfl _), List.singleton_append, bind_ok (stringBody_text name _), bind_ok hnamed, h]

theorem readObject_end {fuel : Nat} {isFirst : Bool} (h : s.missing? draft = none) (rest : Bytes) :
    s.readObject (fuel + 1) isFirst draft (0x7D :: rest) = .ok (draft, rest) := by
  rw [readObject, bind_ok (separate_closing rfl isFirst)]
  simp only [if_true, h]
  rfl

theorem readObject_members {ms : List (String × Value)} (h : s.Takes draft ms draft')
    (hmissing : s.missing? draft' = none) {fuel : Nat} (hf : (Utf8.encode (membersText ms)).length ≤ fuel)
    (rest : Bytes) :
    s.readObject fuel false draft (Utf8.encode (membersText ms) ++ rest) = .ok (draft', rest) := by
  induction h generalizing fuel with
  | nil draft =>
    obtain ⟨fuel, rfl⟩ : ∃ k, fuel = k + 1 := ⟨fuel - 1, by have : 1 ≤ fuel := hf; omega⟩
    exact readObject_end hmissing rest
  | @cons draft draft' name x ms m f hm hseen hread h ih =>
    rw [membersText, encode_cons_ascii (by decide), List.length_cons, Utf8.encode_append,
      encode_cons_ascii (by decide), Utf8.encode_append, List.length_append, List.length_cons,
      List.length_append] at hf
    obtain ⟨fuel, rfl⟩ : ∃ k, fuel = k + 1 := ⟨fuel - 1, by omega⟩
    refine readObject_step ?_ hm hseen (hread _ (endsNumeral_membersText ms rest)) (ih hmissing (by omega))
    rw [membersText, encode_cons_ascii (by decide), Utf8.encode_append, encode_cons_ascii (by decide),
      Utf8.encode_append]
    simp only [List.append_assoc, List.cons_append]
    rw [encode_stringText]
    exact separate_comma (by decide) rfl (by decide)

theorem read_object {ms : List (String × Value)} (h : s.Takes draft ms draft')
    (hmissing : s.missing? draft' = none) (rest : Bytes) :
    s.read draft (Utf8.encode (Value.object ms).text ++ rest) = .ok (draft', rest) := by
  have htake (u : Bytes) : take (0x7B :: u) = .ok ((), u) := rfl
  cases h with
  | nil =>
    have htext : Utf8.encode (Value.object []).text ++ rest = 0x7B :: 0x7D :: rest := rfl
    rw [htext, Shape.read, bind_ok (peek_cons rfl _)]
    exact (bind_ok (htake _)).trans (readObject_end hmissing rest)
  | @cons _ _ name x ms m f hm hseen hread h =>
    have htext : Utf8.encode (Value.object ((name, x) :: ms)).text ++ rest = 0x7B ::
        (Utf8.encode (stringText name) ++ 0x3A :: (Utf8.encode x.text ++ (Utf8.encode (membersText ms) ++ rest))) := by
      rw [Value.text, encode_cons_ascii (by decide), Utf8.encode_append, encode_cons_ascii (by decide),
        Utf8.encode_append]
      simp only [List.append_assoc, List.cons_append]
      rfl
    rw [htext, Shape.read, bind_ok (peek_cons rfl _)]
    refine (bind_ok (htake _)).trans (readObject_step ?_ hm hseen (hread _ (endsNumeral_membersText ms rest))
      (readObject_members h hmissing ?_ rest))
    · rw [encode_stringText]
      exact separate_first rfl (by decide)
    · simp only [List.length_append, List.length_cons]
      omega

end Shape
end Keyring.Json
