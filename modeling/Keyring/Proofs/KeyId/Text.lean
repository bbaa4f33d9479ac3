import Keyring.KeyId
import Keyring.Proofs.Base64.Codec
import Mathlib.Data.List.TakeDrop

set_option autoImplicit false

namespace Keyring

section

variable {a : Base64.Alphabet} {alg alg' : Alg} {bs bs' : Bytes} {kid : String}

namespace Base64

theorem length_encode_of_groups {n : Nat} (h : bs.length = 3 * n) : (encode a bs).length = 4 * n := by
  induction n generalizing bs with
  | zero => rw [List.length_eq_zero_iff.mp h, encode, List.length_nil]
  | succ n ih =>
    obtain _ | ⟨x, _ | ⟨y, _ | ⟨z, rest⟩⟩⟩ := bs
    all_goals simp only [List.length_cons, List.length_nil] at h
    · omega
    · omega
    · omega
    · have hrest : rest.length = 3 * n := by omega
      simp only [encode, List.length_cons, ih hrest]
      omega

def IsUrlSymbol (c : Char) : Prop := c.isAlphanum = true ∨ c = '-' ∨ c = '_'

theorem isUrlSymbol_of_mem_text {c : Char} (h : c ∈ (text url bs).toList) : IsUrlSymbol c := by
  have hsymbols : ∀ n < 64, (Char.ofNat (url.symbol n).toNat).isAlphanum = true ∨
      Char.ofNat (url.symbol n).toNat = '-' ∨ Char.ofNat (url.symbol n).toNat = '_' := by decide
  rw [text, String.toList_ofList] at h
  obtain ⟨b, hb, rfl⟩ := List.mem_map.mp h
  rcases mem_encode hb with ⟨hpadded, -⟩ | ⟨n, hn, rfl⟩
  · cases hpadded
  · exact hsymbols n hn

theorem decode_text (ha : a.Lawful) (bs : Bytes) : decode a (Utf8.ofString (text a bs)) = .ok bs :=
  (decode_text_eq_ok_iff ha).mpr rfl

end Base64

theorem Alg.underscore_not_mem_name (alg : Alg) : '_' ∉ alg.name.toList := by cases alg <;> decide

namespace KeyId

/-- What is in front of the first underscore of a text and what is behind it, if there is one. -/
def split? (kid : String) : Option (String × String) :=
  match kid.toList.span (· ≠ '_') with
  | (_, []) => none
  | (front, _ :: behind) => some (String.ofList front, String.ofList behind)

def alg? (kid : String) : Option Alg := (split? kid).bind fun parts => Alg.ofName? parts.1

theorem split?_append {front : String} (h : '_' ∉ front.toList) (behind : String) :
    split? (front ++ "_" ++ behind) = some (front, behind) := by
  have hfront : ∀ c ∈ front.toList, decide (c ≠ '_') = true := fun c hc =>
    decide_eq_true fun heq => h (heq ▸ hc)
  have hspan : (front ++ "_" ++ behind).toList.span (· ≠ '_') = (front.toList, '_' :: behind.toList) := by
    have htext : (front ++ "_" ++ behind).toList = front.toList ++ '_' :: behind.toList := by
      simp [String.toList_append]
    rw [htext, List.span_eq_takeWhile_dropWhile, List.takeWhile_append_of_pos hfront,
      List.dropWhile_append_of_pos hfront]
    simp
  rw [split?, hspan]
  simp only [String.ofList_toList]

theorem split?_ofRandom (alg : Alg) (bs : Bytes) :
    split? (ofRandom alg bs) = some (alg.name, Base64.text Base64.url bs) :=
  split?_append alg.underscore_not_mem_name _

theorem alg?_ofRandom (alg : Alg) (bs : Bytes) : alg? (ofRandom alg bs) = some alg := by
  rw [alg?, split?_ofRandom, Option.bind_some, Alg.ofName?_name]

theorem ofRandom_eq_iff : ofRandom alg bs = ofRandom alg' bs' ↔ alg = alg' ∧ bs = bs' := by
  constructor
  · intro h
    have halg : some alg = some alg' := by rw [← alg?_ofRandom alg bs, h, alg?_ofRandom]
    have hparts : some (alg.name, Base64.text Base64.url bs) = some (alg'.name, Base64.text Base64.url bs') := by
      rw [← split?_ofRandom, h, split?_ofRandom]
    have htext : Base64.text Base64.url bs = Base64.text Base64.url bs' :=
      congrArg Prod.snd (Option.some.inj hparts)
    have hbytes : (.ok bs : Except Base64.Fault Bytes) = .ok bs' := by
      rw [← Base64.decode_text Base64.url_lawful bs, htext, Base64.decode_text Base64.url_lawful]
    exact ⟨Option.some.inj halg, Except.ok.inj hbytes⟩
  · rintro ⟨rfl, rfl⟩
    rfl

/-- The text is the name of the algorithm and sixteen symbols that decode to the bytes, with an underscore between
them at which it is cut. -/
structure Tells (kid : String) (alg : Alg) (bs : Bytes) : Prop where
  told : alg? kid = some alg
  suffix : ∃ suffix, kid = alg.name ++ "_" ++ suffix ∧ split? kid = some (alg.name, suffix) ∧ suffix.length = 16 ∧
    (∀ c ∈ suffix.toList, Base64.IsUrlSymbol c) ∧ Base64.decode Base64.url (Utf8.ofString suffix) = .ok bs

theorem tells_ofRandom (alg : Alg) (h : bs.length = randomLength) : Tells (ofRandom alg bs) alg bs where
  told := alg?_ofRandom alg bs
  suffix := by
    have hlength : (Base64.text Base64.url bs).length = 16 := by
      rw [← String.length_toList, Base64.text, String.toList_ofList, List.length_map]
      exact Base64.length_encode_of_groups (n := 4) h
    exact ⟨_, rfl, split?_ofRandom alg bs, hlength, fun c => Base64.isUrlSymbol_of_mem_text,
      Base64.decode_text Base64.url_lawful bs⟩

/-- The texts of the form of an id are those that are made from enough bytes. -/
theorem isShaped_iff : isShaped alg kid = true ↔ ∃ bs : Bytes, bs.length = randomLength ∧ kid = ofRandom alg bs := by
  have hfront : (alg.name ++ "_").toList.length = alg.name.length + 1 := by
    simp [String.toList_append, String.length_toList]
  have htext (bs : Bytes) : (ofRandom alg bs).toList = (alg.name ++ "_").toList ++ (Base64.text Base64.url bs).toList :=
    String.toList_append
  simp only [isShaped, Bool.and_eq_true, beq_iff_eq]
  constructor
  · rintro ⟨htake, hdecode⟩
    split at hdecode
    · rename_i bs hbs
      have hdrop := (Base64.decode_text_eq_ok_iff Base64.url_lawful).mp hbs
      refine ⟨bs, by simpa using hdecode, String.toList_inj.mp ?_⟩
      rw [htext, ← htake, ← hdrop, List.take_append_drop]
    · cases hdecode
  · rintro ⟨bs, hlength, rfl⟩
    rw [htext, ← hfront, List.take_left, List.drop_left]
    refine ⟨rfl, ?_⟩
    rw [(Base64.decode_text_eq_ok_iff Base64.url_lawful).mpr rfl]
    exact beq_iff_eq.mpr hlength

end KeyId
end
end Keyring
