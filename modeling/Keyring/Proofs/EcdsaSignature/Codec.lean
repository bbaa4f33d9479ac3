import Keyring.EcdsaSignature
import Keyring.Proofs.Bytes.Number
import Keyring.Proofs.Except

set_option autoImplicit false

namespace Keyring

namespace Der

/-- The bytes of a number as an integer holds them but for its sign: without zeros in front, or the one
byte of zero. -/
def naturalBytes (bs : Bytes) : Bytes := if Bytes.magnitude bs = [] then [0] else Bytes.magnitude bs

theorem magnitude_integerContent (bs : Bytes) :
    magnitude (integerContent bs) = .ok (naturalBytes bs) := by
  unfold integerContent naturalBytes
  split
  · simp [*, magnitude]
  · rename_i first rest h
    have hne := Bytes.head_magnitude_ne bs h
    simp only [h, reduceCtorEq, if_false]
    by_cases hs : 0x80 ≤ first
    · simp [hs, magnitude]
    · simp [hs, magnitude, hne]

theorem integerContent_of_magnitude {content m : Bytes} (h : magnitude content = .ok m) :
    integerContent m = content ∧ naturalBytes m = m := by
  cases content with
  | nil => simp [magnitude] at h
  | cons first rest =>
    by_cases hneg : 0x80 ≤ first
    · simp [magnitude, hneg] at h
    by_cases hzero : first = 0
    · subst hzero
      cases rest with
      | nil =>
        obtain rfl : [0] = m := by simpa [magnitude] using h
        exact ⟨rfl, rfl⟩
      | cons second rest =>
        by_cases hmin : second < 0x80
        · simp [magnitude, hmin] at h
        · obtain rfl : second :: rest = m := by simpa [magnitude, hmin] using h
          have hs : second ≠ 0 := by rintro rfl; exact hmin (by decide)
          simp [integerContent, naturalBytes, Bytes.magnitude_cons_of_ne rest hs, UInt8.not_lt.mp hmin]
    · obtain rfl : first :: rest = m := by simpa [magnitude, hneg, hzero] using h
      simp [integerContent, naturalBytes, Bytes.magnitude_cons_of_ne rest hzero, hneg]

theorem integerContent_length_le (bs : Bytes) : (integerContent bs).length ≤ bs.length + 1 := by
  have hle := Bytes.magnitude_length_le bs
  unfold integerContent
  split
  · simp
  · rename_i first rest h
    rw [h, List.length_cons] at hle
    split <;> simp only [List.length_cons] <;> omega

end Der

namespace EcdsaSignature

theorem ofNat_high_low (high low : UInt8) :
    UInt8.ofNat ((256 * high.toNat + low.toNat) / 256) = high ∧
      UInt8.ofNat ((256 * high.toNat + low.toNat) % 256) = low := by
  have hl := low.toNat_lt
  constructor
  · rw [show (256 * high.toNat + low.toNat) / 256 = high.toNat by omega]
    simp
  · rw [show (256 * high.toNat + low.toNat) % 256 = low.toNat by omega]
    simp

theorem readLength_lengthBytes {n : Nat} {l : Bytes} (h : lengthBytes n = .ok l) (rest : Bytes) :
    readLength (l ++ rest) = .ok (n, rest) := by
  unfold lengthBytes at h
  split at h
  · rename_i hn
    cases h
    have hb : (UInt8.ofNat n).toNat = n := by simp; omega
    have hlt : UInt8.ofNat n < 0x80 := by rw [UInt8.lt_iff_toNat_lt, hb]; exact hn
    simp [readLength, hlt, hb]
  split at h
  · rename_i hn hn'
    cases h
    have hb : (UInt8.ofNat n).toNat = n := by simp; omega
    have hlt : ¬ UInt8.ofNat n < 0x80 := by rw [UInt8.lt_iff_toNat_lt, hb]; exact hn
    simp [readLength, hlt, hb]
  split at h
  · rename_i hn hn' hn''
    cases h
    have hhigh : (UInt8.ofNat (n / 256)).toNat = n / 256 := by simp; omega
    have hlow : (UInt8.ofNat (n % 256)).toNat = n % 256 := by simp
    have hne : UInt8.ofNat (n / 256) ≠ 0 := by
      intro h0
      have := congrArg UInt8.toNat h0
      rw [hhigh] at this
      simp at this
      omega
    simp only [List.cons_append, List.nil_append, readLength]
    rw [if_neg (by decide), if_neg (by decide), if_pos trivial, if_neg hne, hhigh, hlow,
      show 256 * (n / 256) + n % 256 = n by omega]
  · cases h

theorem lengthBytes_of_readLength {bs rest : Bytes} {n : Nat} (h : readLength bs = .ok (n, rest)) :
    ∃ l, lengthBytes n = .ok l ∧ bs = l ++ rest := by
  cases bs with
  | nil => simp [readLength] at h
  | cons first tail =>
    by_cases hshort : first < 0x80
    · obtain ⟨rfl, rfl⟩ : first.toNat = n ∧ tail = rest := by simpa [readLength, hshort] using h
      have : first.toNat < 0x80 := UInt8.lt_iff_toNat_lt.mp hshort
      exact ⟨[first], by simp [lengthBytes, this], rfl⟩
    by_cases hone : first = 0x81
    · subst hone
      cases tail with
      | nil => simp [readLength] at h
      | cons b tail =>
        by_cases hb : b < 0x80
        · simp [readLength, hb] at h
        · obtain ⟨rfl, rfl⟩ : b.toNat = n ∧ tail = rest := by simpa [readLength, hb] using h
          have hge : ¬ b.toNat < 0x80 := fun hc => hb (UInt8.lt_iff_toNat_lt.mpr hc)
          exact ⟨[0x81, b], by simp [lengthBytes, hge, b.toNat_lt], rfl⟩
    by_cases htwo : first = 0x82
    · subst htwo
      cases tail with
      | nil => simp [readLength] at h
      | cons high tail =>
        cases tail with
        | nil => simp [readLength] at h
        | cons low tail =>
          by_cases hhigh : high = 0
          · simp [readLength, hhigh] at h
          · obtain ⟨rfl, rfl⟩ : 256 * high.toNat + low.toNat = n ∧ tail = rest := by
              simpa [readLength, hhigh] using h
            have hpos : 0 < high.toNat := by
              rw [Nat.pos_iff_ne_zero]
              exact fun hc => hhigh (UInt8.toNat_inj.mp hc)
            have h1 := high.toNat_lt
            have h2 := low.toNat_lt
            obtain ⟨e1, e2⟩ := ofNat_high_low high low
            refine ⟨[0x82, high, low], ?_, rfl⟩
            rw [lengthBytes, if_neg (by omega), if_neg (by omega), if_pos (by omega), e1, e2]
    · by_cases hindefinite : first = 0x80 <;> simp [readLength, hshort, hone, htwo, hindefinite] at h

theorem writeElement_eq_ok {tag : Der.Tag} {content e : Bytes} :
    writeElement tag content = .ok e ↔
      ∃ l, lengthBytes content.length = .ok l ∧ e = tag :: (l ++ content) := by
  unfold writeElement
  cases lengthBytes content.length with
  | error fault => simp [bind, Except.bind]
  | ok l => simp [bind, Except.bind, pure, Except.pure, eq_comm]

/-- The reader of elements accepts an element as it is written, and nothing else. -/
theorem readElement_eq_ok {tag : Der.Tag} {bs content rest : Bytes} :
    readElement tag bs = .ok (content, rest) ↔
      ∃ e, writeElement tag content = .ok e ∧ bs = e ++ rest := by
  constructor
  · intro h
    cases bs with
    | nil => simp [readElement] at h
    | cons actual tail =>
      by_cases htag : actual = tag
      · subst htag
        simp only [readElement, ne_eq, not_true_eq_false, if_false] at h
        cases hl : readLength tail with
        | error fault => simp [hl, bind, Except.bind] at h
        | ok result =>
          obtain ⟨n, after⟩ := result
          obtain ⟨l, hwrite, rfl⟩ := lengthBytes_of_readLength hl
          rw [hl] at h
          by_cases hlen : after.length < n
          · simp [bind, Except.bind, takeBytes, hlen] at h
          · obtain ⟨rfl, rfl⟩ : after.take n = content ∧ after.drop n = rest := by
              simpa [bind, Except.bind, takeBytes, hlen] using h
            have hn : (after.take n).length = n := by simp; omega
            refine ⟨actual :: (l ++ after.take n), writeElement_eq_ok.mpr ⟨l, by rw [hn]; exact hwrite, rfl⟩, ?_⟩
            simp
      · simp [readElement, htag] at h
  · intro h
    obtain ⟨e, he, rfl⟩ := h
    obtain ⟨l, hl, rfl⟩ := writeElement_eq_ok.mp he
    simp [readElement, readLength_lengthBytes hl, bind, Except.bind, takeBytes]

theorem readInteger_eq_ok {bs m rest : Bytes} :
    readInteger bs = .ok (m, rest) ↔ Der.naturalBytes m = m ∧
      ∃ e, writeElement .integer (Der.integerContent m) = .ok e ∧ bs = e ++ rest := by
  unfold readInteger
  constructor
  · intro h
    cases hr : readElement .integer bs with
    | error fault => simp [hr, bind, Except.bind] at h
    | ok result =>
      obtain ⟨content, after⟩ := result
      cases hm : Der.magnitude content with
      | error fault => simp [hr, hm, bind, Except.bind] at h
      | ok m' =>
        obtain ⟨rfl, rfl⟩ : m' = m ∧ after = rest := by simpa [hr, hm, bind, Except.bind] using h
        obtain ⟨hcontent, hnatural⟩ := Der.integerContent_of_magnitude hm
        exact ⟨hnatural, by rw [hcontent]; exact readElement_eq_ok.mp hr⟩
  · intro h
    obtain ⟨hnatural, he⟩ := h
    have hr := readElement_eq_ok.mpr he
    simp [hr, Der.magnitude_integerContent, hnatural, bind, Except.bind]

theorem coordinate_eq_ok {m half : Bytes} (hm : Der.naturalBytes m = m) :
    coordinate m = .ok half ↔ half.length = coordinateLength ∧ Der.naturalBytes half = m := by
  unfold coordinate
  constructor
  · intro h
    split at h
    · cases h
    · rename_i hlen
      cases h
      refine ⟨by simp; omega, ?_⟩
      simpa [Der.naturalBytes] using hm
  · intro h
    obtain ⟨hlen, rfl⟩ := h
    have hle := Bytes.magnitude_length_le half
    have heq := Bytes.replicate_append_magnitude half
    rw [hlen] at hle heq
    by_cases hzero : Bytes.magnitude half = []
    · rw [hzero] at heq
      have hnat : Der.naturalBytes half = [0] := by simp [Der.naturalBytes, hzero]
      rw [hnat, ← heq]
      rfl
    · have hnat : Der.naturalBytes half = Bytes.magnitude half := by simp [Der.naturalBytes, hzero]
      rw [hnat, if_neg (by omega), heq]

def writePair (r s : Bytes) : Except Fault Bytes := do
  let r ← writeElement .integer (Der.integerContent r)
  let s ← writeElement .integer (Der.integerContent s)
  writeElement .sequence (r ++ s)

theorem writePair_eq_ok {r s der : Bytes} : writePair r s = .ok der ↔
    ∃ er es, writeElement .integer (Der.integerContent r) = .ok er ∧
      writeElement .integer (Der.integerContent s) = .ok es ∧
      writeElement .sequence (er ++ es) = .ok der := by
  unfold writePair
  cases writeElement .integer (Der.integerContent r) <;>
    cases writeElement .integer (Der.integerContent s) <;> simp [bind, Except.bind]

theorem finish_eq_ok {rest : Bytes} {u : Unit} : finish rest = .ok u ↔ rest = [] := by
  unfold finish
  split <;> simp [*]

def readPair (der : Bytes) : Except Fault (Bytes × Bytes) := do
  let (body, rest) ← readElement .sequence der
  finish rest
  let (r, body) ← readInteger body
  let (s, body) ← readInteger body
  finish body
  return (r, s)

theorem rawOfDer_eq (der : Bytes) : rawOfDer der = (do
    let (r, s) ← readPair der
    let r ← coordinate r
    let s ← coordinate s
    return r ++ s) := by
  simp only [rawOfDer, readPair, bind_assoc, pure_bind]

theorem readPair_eq_ok {der r s : Bytes} : readPair der = .ok (r, s) ↔
    Der.naturalBytes r = r ∧ Der.naturalBytes s = s ∧ writePair r s = .ok der := by
  unfold readPair
  simp only [bind_eq_ok, pure_eq_ok, Prod.exists, readElement_eq_ok, readInteger_eq_ok, finish_eq_ok,
    writePair_eq_ok, Prod.mk.injEq]
  constructor
  · rintro ⟨body, _, ⟨e, he, rfl⟩, _, rfl, r, _, ⟨hr, er, her, rfl⟩, s, _, ⟨hs, es, hes, rfl⟩, _, rfl,
      rfl, rfl⟩
    exact ⟨hr, hs, er, es, her, hes, by simpa using he⟩
  · rintro ⟨hr, hs, er, es, her, hes, hder⟩
    exact ⟨er ++ es, [], ⟨der, hder, by simp⟩, (), rfl, r, es, ⟨hr, er, her, rfl⟩,
      s, [], ⟨hs, es, hes, by simp⟩, (), rfl, rfl, rfl⟩

theorem rawOfDer_eq_ok {der raw : Bytes} : rawOfDer der = .ok raw ↔
    ∃ r s, Der.naturalBytes r = r ∧ Der.naturalBytes s = s ∧ writePair r s = .ok der ∧
      ∃ r' s', coordinate r = .ok r' ∧ coordinate s = .ok s' ∧ raw = r' ++ s' := by
  rw [rawOfDer_eq]
  simp only [bind_eq_ok, pure_eq_ok, Prod.exists, readPair_eq_ok]
  constructor
  · rintro ⟨r, s, ⟨hr, hs, hpair⟩, r', hr', s', hs', rfl⟩
    exact ⟨r, s, hr, hs, hpair, r', s', hr', hs', rfl⟩
  · rintro ⟨r, s, hr, hs, hpair, r', s', hr', hs', rfl⟩
    exact ⟨r, s, ⟨hr, hs, hpair⟩, r', hr', s', hs', rfl⟩

theorem derOfRaw_eq_ok {raw der : Bytes} : derOfRaw raw = .ok der ↔
    raw ≠ [] ∧ raw.length % 2 = 0 ∧
      writePair (raw.take (raw.length / 2)) (raw.drop (raw.length / 2)) = .ok der := by
  unfold derOfRaw
  split
  · rename_i h
    rcases h with h | h <;> simp [h]
  · rename_i h
    obtain ⟨hne, heven⟩ : raw ≠ [] ∧ raw.length % 2 = 0 := by simpa [not_or] using h
    simp [hne, heven, writePair]

theorem integerContent_naturalBytes (bs : Bytes) :
    Der.integerContent (Der.naturalBytes bs) = Der.integerContent bs :=
  (Der.integerContent_of_magnitude (Der.magnitude_integerContent bs)).1

theorem naturalBytes_naturalBytes (bs : Bytes) :
    Der.naturalBytes (Der.naturalBytes bs) = Der.naturalBytes bs :=
  (Der.integerContent_of_magnitude (Der.magnitude_integerContent bs)).2

theorem writePair_naturalBytes (r s : Bytes) :
    writePair (Der.naturalBytes r) (Der.naturalBytes s) = writePair r s := by
  simp [writePair, integerContent_naturalBytes]

theorem writeElement_ok_of_short (tag : Der.Tag) {content : Bytes} (h : content.length < 0x80) :
    writeElement tag content = .ok (tag :: UInt8.ofNat content.length :: content) :=
  writeElement_eq_ok.mpr ⟨[UInt8.ofNat content.length], by simp [lengthBytes, h], rfl⟩

theorem writePair_ok_of_short {r s : Bytes} (hr : r.length ≤ 32) (hs : s.length ≤ 32) :
    ∃ der, writePair r s = .ok der := by
  have hcr := Der.integerContent_length_le r
  have hcs := Der.integerContent_length_le s
  refine ⟨_, writePair_eq_ok.mpr ⟨_, _, writeElement_ok_of_short _ (by omega),
    writeElement_ok_of_short _ (by omega), writeElement_ok_of_short _ ?_⟩⟩
  simp only [List.length_append, List.length_cons]
  omega

theorem derOfRaw_of_length {raw : Bytes} (h : raw.length = 2 * coordinateLength) :
    ∃ der, derOfRaw raw = .ok der := by
  have h32 : coordinateLength = 32 := rfl
  obtain ⟨der, hder⟩ := writePair_ok_of_short (r := raw.take (raw.length / 2))
    (s := raw.drop (raw.length / 2)) (by simp; omega) (by simp; omega)
  refine ⟨der, derOfRaw_eq_ok.mpr ⟨?_, by omega, hder⟩⟩
  rintro rfl
  cases h

/-- The reader inverts the writer, and it accepts nothing that the writer does not write. -/
theorem rawOfDer_eq_ok_iff {der raw : Bytes} : rawOfDer der = .ok raw ↔
    raw.length = 2 * coordinateLength ∧ derOfRaw raw = .ok der := by
  rw [rawOfDer_eq_ok, derOfRaw_eq_ok]
  -- a half is written as the number in it, so that zeros in front of it do not count
  constructor
  · rintro ⟨r, s, hr, hs, hpair, r', s', hr', hs', rfl⟩
    obtain ⟨hlr, rfl⟩ := (coordinate_eq_ok hr).mp hr'
    obtain ⟨hls, rfl⟩ := (coordinate_eq_ok hs).mp hs'
    have hlen : (r' ++ s').length = 2 * coordinateLength := by
      rw [List.length_append, hlr, hls, Nat.two_mul]
    have hhalf : (r' ++ s').length / 2 = r'.length := by rw [hlen, hlr]; rfl
    refine ⟨hlen, ?_, by rw [hlen]; rfl, ?_⟩
    · intro hnil
      rw [hnil] at hlen
      cases hlen
    · rw [hhalf, List.take_left, List.drop_left]
      rwa [writePair_naturalBytes] at hpair
  · rintro ⟨hlen, -, -, hpair⟩
    have hhalf : raw.length / 2 = coordinateLength := by rw [hlen]; rfl
    rw [hhalf] at hpair
    refine ⟨_, _, naturalBytes_naturalBytes _, naturalBytes_naturalBytes _,
      (writePair_naturalBytes _ _).trans hpair, raw.take coordinateLength,
      raw.drop coordinateLength, ?_, ?_, (List.take_append_drop _ _).symm⟩
    · exact (coordinate_eq_ok (naturalBytes_naturalBytes _)).mpr ⟨by simp [hlen]; omega, rfl⟩
    · exact (coordinate_eq_ok (naturalBytes_naturalBytes _)).mpr ⟨by simp [hlen]; omega, rfl⟩

/-- Raw signatures and the byte strings that are read as signatures are one to one: each raw signature
is written and read back, and what is read as a signature is what is written for it, and the only
such byte string. -/
theorem raw_der_bijection :
    (∀ raw : Bytes, raw.length = 2 * coordinateLength →
      ∃ der, derOfRaw raw = .ok der ∧ rawOfDer der = .ok raw) ∧
    ∀ der raw : Bytes, rawOfDer der = .ok raw → raw.length = 2 * coordinateLength ∧
      derOfRaw raw = .ok der ∧ ∀ der', rawOfDer der' = .ok raw → der' = der := by
  constructor
  · intro raw hlen
    obtain ⟨der, hder⟩ := derOfRaw_of_length hlen
    exact ⟨der, hder, rawOfDer_eq_ok_iff.mpr ⟨hlen, hder⟩⟩
  · intro der raw h
    obtain ⟨hlen, hder⟩ := rawOfDer_eq_ok_iff.mp h
    refine ⟨hlen, hder, fun der' h' => ?_⟩
    have heq := (rawOfDer_eq_ok_iff.mp h').2.symm.trans hder
    cases heq
    rfl

/-- The signature of the numbers 1 and 128, of which the second needs a byte for its sign. -/
theorem raw_der_of_small_numbers :
    let raw := Bytes.ofNat 32 1 ++ Bytes.ofNat 32 128
    rawOfDer [0x30, 0x07, 0x02, 0x01, 0x01, 0x02, 0x02, 0x00, 0x80] = .ok raw ∧
      derOfRaw raw = .ok [0x30, 0x07, 0x02, 0x01, 0x01, 0x02, 0x02, 0x00, 0x80] :=
  have h : rawOfDer [0x30, 0x07, 0x02, 0x01, 0x01, 0x02, 0x02, 0x00, 0x80] =
    .ok (Bytes.ofNat 32 1 ++ Bytes.ofNat 32 128) := by rfl
  ⟨h, (raw_der_bijection.2 _ _ h).2.1⟩

end EcdsaSignature
end Keyring
