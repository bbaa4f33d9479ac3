import Keyring.Jws
import Keyring.Proofs.Base64.Codec

/-!
The text of a token. Its parts are what stands between its two dots, the signing input is all that
stands before the last dot, and a part is read as the bytes whose base64 it is.
-/
set_option autoImplicit false

namespace Keyring.Jws

theorem splitDots_ne_nil (s : List Char) : splitDots s ≠ [] := by
  cases s with
  | nil => simp [splitDots]
  | cons c s =>
    rw [splitDots]
    split
    · simp
    · split <;> simp

theorem splitDots_of_not_mem {s : List Char} (h : '.' ∉ s) : splitDots s = [s] := by
  induction s with
  | nil => rfl
  | cons c s ih =>
    rw [List.mem_cons, not_or] at h
    rw [splitDots, if_neg (Ne.symm h.1), ih h.2]

theorem splitDots_append {s : List Char} (h : '.' ∉ s) (t : List Char) :
    splitDots (s ++ '.' :: t) = s :: splitDots t := by
  induction s with
  | nil => rfl
  | cons c s ih =>
    rw [List.mem_cons, not_or] at h
    rw [List.cons_append, splitDots, if_neg (Ne.symm h.1), ih h.2]

theorem eq_of_splitDots {s part : List Char} {parts : List (List Char)} (h : splitDots s = part :: parts) :
    '.' ∉ part ∧ ((parts = [] ∧ s = part) ∨ ∃ t, s = part ++ '.' :: t ∧ splitDots t = parts) := by
  induction s generalizing part with
  | nil =>
    cases h
    exact ⟨List.not_mem_nil, .inl ⟨rfl, rfl⟩⟩
  | cons c s ih =>
    rw [splitDots] at h
    by_cases hc : c = '.'
    · rw [if_pos hc] at h
      cases h
      exact ⟨List.not_mem_nil, .inr ⟨s, by rw [hc]; rfl, rfl⟩⟩
    rw [if_neg hc] at h
    cases hs : splitDots s with
    | nil => exact absurd hs (splitDots_ne_nil s)
    | cons first more =>
      simp only [hs, List.cons.injEq] at h
      obtain ⟨rfl, rfl⟩ := h
      obtain ⟨hdot, hrest⟩ := ih hs
      refine ⟨by simp [hdot, Ne.symm hc], ?_⟩
      rcases hrest with ⟨rfl, rfl⟩ | ⟨t, rfl, ht⟩
      · exact .inl ⟨rfl, rfl⟩
      · exact .inr ⟨t, rfl, ht⟩

structure Parts.Of (p : Parts) (token : String) : Prop where
  token : token.toList = p.header ++ '.' :: (p.claims ++ '.' :: p.signature)
  header : '.' ∉ p.header
  claims : '.' ∉ p.claims
  signature : '.' ∉ p.signature

theorem Parts.ofToken_eq_ok_iff {token : String} {p : Parts} :
    Parts.ofToken token = .ok p ↔ p.Of token := by
  unfold Parts.ofToken
  constructor
  · intro h
    split at h
    · rename_i header claims signature hs
      cases h
      obtain ⟨hheader, ⟨hnil, -⟩ | ⟨t, ht, hrest⟩⟩ := eq_of_splitDots hs
      · cases hnil
      obtain ⟨hclaims, ⟨hnil, -⟩ | ⟨u, rfl, hlast⟩⟩ := eq_of_splitDots hrest
      · cases hnil
      obtain ⟨hsignature, ⟨-, rfl⟩ | ⟨v, -, hnil⟩⟩ := eq_of_splitDots hlast
      · exact ⟨ht, hheader, hclaims, hsignature⟩
      · exact absurd hnil (splitDots_ne_nil v)
    · cases h
  · intro h
    rw [h.token, splitDots_append h.header, splitDots_append h.claims, splitDots_of_not_mem h.signature]

theorem Parts.ofToken_eq_error {token : String} {error : KeyError} (h : Parts.ofToken token = .error error) :
    error = .decode .partCount ∧ ∀ p : Parts, ¬ p.Of token := by
  refine ⟨?_, fun p hp => ?_⟩
  · unfold Parts.ofToken at h
    split at h <;> cases h
    rfl
  · rw [Parts.ofToken_eq_ok_iff.mpr hp] at h
    cases h

def beforeLastDot (s : List Char) : List Char := (s.reverse.dropWhile (· ≠ '.')).tail.reverse

theorem Parts.Of.beforeLastDot_eq {p : Parts} {token : String} (h : p.Of token) :
    beforeLastDot token.toList = p.header ++ '.' :: p.claims := by
  have hdrop : ∀ c ∈ p.signature.reverse, decide (c ≠ '.') = true := by
    intro c hc
    exact decide_eq_true fun hdot => h.signature (hdot ▸ List.mem_reverse.mp hc)
  unfold beforeLastDot
  rw [h.token, show p.header ++ '.' :: (p.claims ++ '.' :: p.signature) =
    (p.header ++ '.' :: p.claims) ++ '.' :: p.signature by simp]
  rw [List.reverse_append, List.reverse_cons, List.append_assoc, List.dropWhile_append_of_pos hdrop]
  simp

/-- The parts of a token whose signing input is cut off by its length in bytes. -/
theorem Parts.Of.upTo?_eq {p : Parts} {token : String} (h : p.Of token) :
    Utf8.upTo? token.toList ((Utf8.encode p.header).length + 1 + (Utf8.encode p.claims).length) =
      some (beforeLastDot token.toList) := by
  have hlen : (Utf8.encode p.header).length + 1 + (Utf8.encode p.claims).length =
      (Utf8.encode (p.header ++ '.' :: p.claims)).length := by
    rw [Utf8.encode_append, Utf8.encode_cons, List.length_append, List.length_append, Nat.add_assoc]
    rfl
  rw [h.beforeLastDot_eq, hlen, h.token]
  have hcut := Utf8.upTo?_append (p.header ++ '.' :: p.claims) ('.' :: p.signature)
  rwa [List.append_assoc, List.cons_append] at hcut

def Encodes (text : List Char) (bs : Bytes) : Prop := text = (encodePart bs).toList

theorem decodePart_eq_ok_iff {part : TokenPart} {text : List Char} {bs : Bytes} :
    decodePart part text = .ok bs ↔ Encodes text bs := by
  rw [Encodes, encodePart, ← Base64.decode_text_eq_ok_iff Base64.url_lawful]
  unfold decodePart
  cases Base64.decode Base64.url (Utf8.encode text) <;> simp

theorem decodePart_eq_error_iff {part : TokenPart} {text : List Char} {error : KeyError} :
    decodePart part text = .error error ↔ ∃ fault,
      Base64.decode Base64.url (Utf8.encode text) = .error fault ∧ error = .decode (.partText part fault) := by
  unfold decodePart
  cases Base64.decode Base64.url (Utf8.encode text) <;> simp [eq_comm]

theorem decodeJson_eq_ok_iff {α : Type} {r : Json.Reader α} {part : TokenPart} {text : List Char} {x : α} :
    decodeJson r part text = .ok x ↔ ∃ bs, Encodes text bs ∧ r.run bs = .ok x := by
  have hpart (bs : Bytes) : Encodes text bs ↔ decodePart part text = .ok bs := decodePart_eq_ok_iff.symm
  simp only [hpart]
  unfold decodeJson
  cases decodePart part text with
  | error error => simp
  | ok bs => cases h : r.run bs <;> simp [h]

theorem decodeJson_eq_error_iff {α : Type} {r : Json.Reader α} {part : TokenPart} {text : List Char}
    {error : KeyError} : decodeJson r part text = .error error ↔
      (∃ fault, Base64.decode Base64.url (Utf8.encode text) = .error fault ∧
        error = .decode (.partText part fault)) ∨
      ∃ bs fault, Encodes text bs ∧ r.run bs = .error fault ∧ error = .decode (.partJson part fault) := by
  have hpart (bs : Bytes) : Encodes text bs ↔ decodePart part text = .ok bs := decodePart_eq_ok_iff.symm
  simp only [hpart, ← decodePart_eq_error_iff]
  unfold decodeJson
  cases decodePart part text with
  | error error => simp
  | ok bs => cases h : r.run bs <;> simp [h, eq_comm]

end Keyring.Jws
