import Keyring.Proofs.Json.Reading

set_option autoImplicit false

namespace Keyring.Json

mutual

def Value.numbers : Value → List Number
  | .null => []
  | .boolean _ => []
  | .number n => [n]
  | .string _ => []
  | .array xs => elementsNumbers xs
  | .object ms => membersNumbers ms

def elementsNumbers : List Value → List Number
  | [] => []
  | x :: xs => x.numbers ++ elementsNumbers xs

def membersNumbers : List (String × Value) → List Number
  | [] => []
  | (_, x) :: ms => x.numbers ++ membersNumbers ms

end

mutual

def Value.height : Value → Nat
  | .null => 0
  | .boolean _ => 0
  | .number _ => 0
  | .string _ => 0
  | .array xs => elementsHeight xs + 1
  | .object ms => membersHeight ms + 1

def elementsHeight : List Value → Nat
  | [] => 0
  | x :: xs => max x.height (elementsHeight xs)

def membersHeight : List (String × Value) → Nat
  | [] => 0
  | (_, x) :: ms => max x.height (membersHeight ms)

end

mutual

/-- The members of every object are in the order of their names. -/
def Value.IsOrdered : Value → Prop
  | .null => True
  | .boolean _ => True
  | .number _ => True
  | .string _ => True
  | .array xs => elementsOrdered xs
  | .object ms => (ms.map Prod.fst).Pairwise (· < ·) ∧ membersOrdered ms

def elementsOrdered : List Value → Prop
  | [] => True
  | x :: xs => x.IsOrdered ∧ elementsOrdered xs

def membersOrdered : List (String × Value) → Prop
  | [] => True
  | (_, x) :: ms => x.IsOrdered ∧ membersOrdered ms

end

/-- An integer that fits a signed or an unsigned word of 64 bits. -/
def FitsWord (n : Int) : Prop := -(wordLimit / 2 : Nat) ≤ n ∧ n < wordLimit

def Number.IsInteger : Number → Prop
  | .integer _ => True
  | .float _ => False

/-- The text of the number reads as the number again. -/
def Number.IsWord : Number → Prop
  | .integer n => FitsWord n
  | .float _ => False

namespace Reader

section separate

variable {closing b : UInt8} {bs : Bytes}

theorem separate_closing (h : isSpace closing = false) (isFirst : Bool) :
    separate closing isFirst (closing :: bs) = .ok (true, closing :: bs) := by
  rw [separate, bind_ok (peek_cons h bs)]
  simp

theorem separate_first (h : isSpace b = false) (hb : b ≠ closing) :
    separate closing true (b :: bs) = .ok (false, b :: bs) := by
  rw [separate, bind_ok (peek_cons h bs)]
  simp [hb]

theorem separate_comma (hc : (0x2C : UInt8) ≠ closing) (h : isSpace b = false) (hb : b ≠ closing) :
    separate closing false (0x2C :: b :: bs) = .ok (false, b :: bs) := by
  have htake : take (0x2C :: b :: bs) = .ok ((), b :: bs) := rfl
  rw [separate, bind_ok (peek_cons rfl _)]
  simp only [hc, if_false, Bool.false_eq_true, if_true]
  rw [bind_ok htake, bind_ok (peek_cons h bs)]
  simp [hb]

end separate

end Reader

theorem encode_cons_ascii {c : Char} (h : c.toNat < 0x80) (s : List Char) :
    Utf8.encode (c :: s) = UInt8.ofNat c.toNat :: Utf8.encode s := by
  rw [Utf8.encode_cons, Utf8.encodeChar_ascii h]
  rfl

theorem encode_array_cons (x : Value) (xs : List Value) : Utf8.encode (Value.array (x :: xs)).text =
    0x5B :: (Utf8.encode x.text ++ Utf8.encode (elementsText xs)) := by
  rw [Value.text, encode_cons_ascii (by decide), Utf8.encode_append]
  rfl

theorem encode_elements_cons (x : Value) (xs : List Value) : Utf8.encode (elementsText (x :: xs)) =
    0x2C :: (Utf8.encode x.text ++ Utf8.encode (elementsText xs)) := by
  rw [elementsText, encode_cons_ascii (by decide), Utf8.encode_append]
  rfl

theorem encode_object_cons (name : String) (x : Value) (ms : List (String × Value)) :
    Utf8.encode (Value.object ((name, x) :: ms)).text = 0x7B :: (Utf8.encode (stringText name) ++
      0x3A :: (Utf8.encode x.text ++ Utf8.encode (membersText ms))) := by
  rw [Value.text, encode_cons_ascii (by decide), Utf8.encode_append, encode_cons_ascii (by decide), Utf8.encode_append]
  rfl

theorem encode_members_cons (name : String) (x : Value) (ms : List (String × Value)) :
    Utf8.encode (membersText ((name, x) :: ms)) = 0x2C :: (Utf8.encode (stringText name) ++
      0x3A :: (Utf8.encode x.text ++ Utf8.encode (membersText ms))) := by
  rw [membersText, encode_cons_ascii (by decide), Utf8.encode_append, encode_cons_ascii (by decide), Utf8.encode_append]
  rfl

theorem head_number {n : Number} (h : n.IsWord) : ∃ b t, Utf8.encode n.text = b :: t ∧
    Reader.isSpace b = false ∧ b ≠ 0x6E ∧ b ≠ 0x74 ∧ b ≠ 0x66 ∧ b ≠ 0x22 ∧ b ≠ 0x5B ∧ b ≠ 0x7B ∧ b ≠ 0x5D := by
  match n, h with
  | .integer (.negSucc k), _ =>
    refine ⟨0x2D, Utf8.encode (Decimal.text (k + 1)), ?_, by decide, by decide, by decide, by decide,
      by decide, by decide, by decide, by decide⟩
    rw [Number.text, Decimal.signed, encode_cons_ascii (by decide)]
    rfl
  | .integer (.ofNat k), _ =>
    obtain ⟨c, cs, hc, -⟩ := Decimal.head_text k
    have hdigit : Decimal.isDigit c = true := Decimal.isDigit_of_mem_text (hc ▸ List.mem_cons_self)
    obtain ⟨b, d, hb, -, hdb, hspace, -⟩ := encodeChar_digit hdigit
    have hne {e : UInt8} (he : digit? e = none) : b ≠ e := by
      rintro rfl
      rw [he] at hdb
      cases hdb
    refine ⟨b, Utf8.encode cs, ?_, hspace, hne rfl, hne rfl, hne rfl, hne rfl, hne rfl, hne rfl, hne rfl⟩
    rw [Number.text, Decimal.signed, hc, Utf8.encode_cons, hb]
    rfl

theorem head_value {v : Value} (h : ∀ n ∈ v.numbers, n.IsWord) : ∃ b t, Utf8.encode v.text = b :: t ∧
    Reader.isSpace b = false ∧ b ≠ 0x5D := by
  cases v with
  | null => exact ⟨0x6E, _, rfl, by decide, by decide⟩
  | boolean b =>
    cases b
    · exact ⟨0x66, _, rfl, by decide, by decide⟩
    · exact ⟨0x74, _, rfl, by decide, by decide⟩
  | number n =>
    obtain ⟨b, t, hb, hspace, -, -, -, -, -, -, hend⟩ := head_number (h n (by simp [Value.numbers]))
    exact ⟨b, t, by rw [Value.text, hb], hspace, hend⟩
  | string s => exact ⟨0x22, _, by rw [Value.text, encode_stringText], by decide, by decide⟩
  | array xs =>
    cases xs with
    | nil => exact ⟨0x5B, _, rfl, by decide, by decide⟩
    | cons x xs => exact ⟨0x5B, _, encode_array_cons x xs, by decide, by decide⟩
  | object ms =>
    cases ms with
    | nil => exact ⟨0x7B, _, rfl, by decide, by decide⟩
    | cons m ms => exact ⟨0x7B, _, encode_object_cons m.1 m.2 ms, by decide, by decide⟩

theorem putMember_append {name : String} {x : Value} {ms : List (String × Value)}
    (h : ∀ m ∈ ms, m.1 < name) : putMember name x ms = ms ++ [(name, x)] := by
  induction ms with
  | nil => rfl
  | cons m ms ih =>
    have hm := h m List.mem_cons_self
    have hne : name ≠ m.1 := by
      intro heq
      rw [heq] at hm
      exact String.lt_irrefl _ hm
    rw [putMember, if_neg (String.lt_asymm hm), if_neg hne, ih fun k hk => h k (List.mem_cons_of_mem m hk)]
    rfl

theorem endsNumeral_elementsText (xs : List Value) (rest : Bytes) :
    EndsNumeral (Utf8.encode (elementsText xs) ++ rest) := by
  cases xs with
  | nil => exact endsNumeral_cons (by decide)
  | cons x xs =>
    rw [encode_elements_cons]
    exact endsNumeral_cons (by decide)

theorem endsNumeral_membersText (ms : List (String × Value)) (rest : Bytes) :
    EndsNumeral (Utf8.encode (membersText ms) ++ rest) := by
  cases ms with
  | nil => exact endsNumeral_cons (by decide)
  | cons m ms =>
    rw [encode_members_cons]
    exact endsNumeral_cons (by decide)

namespace Reader

section steps

variable {fuel depth : Nat} {isFirst : Bool} {bs bs₁ bs₂ rest : Bytes} {x : Value}

theorem elements_end : elements (fuel + 1) depth isFirst (0x5D :: rest) = .ok ([], rest) := by
  rw [elements, bind_ok (separate_closing rfl isFirst)]
  rfl

theorem elements_step {xs : List Value} (hsep : separate 0x5D isFirst bs = .ok (false, bs₁))
    (hx : value fuel depth bs₁ = .ok (x, bs₂)) (hxs : elements fuel depth false bs₂ = .ok (xs, rest)) :
    elements (fuel + 1) depth isFirst bs = .ok (x :: xs, rest) := by
  rw [elements, bind_ok hsep]
  simp only [Bool.false_eq_true, if_false]
  rw [bind_ok hx, bind_ok hxs]
  rfl

variable {before : List (String × Value)}

theorem members_end : members (fuel + 1) depth isFirst before (0x7D :: rest) = .ok (before, rest) := by
  rw [members, bind_ok (separate_closing rfl isFirst)]
  rfl

theorem members_step {name : String} {result : List (String × Value) × Bytes}
    (hsep : separate 0x7D isFirst bs = .ok (false, Utf8.encode (stringText name) ++ 0x3A :: bs₁))
    (hx : value fuel depth bs₁ = .ok (x, bs₂))
    (hms : members fuel depth false (putMember name x before) bs₂ = .ok result) :
    members (fuel + 1) depth isFirst before bs = .ok result := by
  rw [encode_stringText, List.cons_append, List.append_assoc] at hsep
  rw [members, bind_ok hsep]
  simp only [Bool.false_eq_true, if_false]
  rw [bind_ok (mark_cons rfl _), List.singleton_append, bind_ok (stringBody_text name _),
    bind_ok (mark_cons rfl _), bind_ok hx, hms]

theorem value_null : value (fuel + 1) depth (Utf8.encode Value.null.text ++ rest) = .ok (.null, rest) := by
  have hword : nullWord (Utf8.encode Value.null.text ++ rest) = .ok ((), rest) := literal_append _ _
  exact (bind_ok (peek_cons rfl _)).trans (bind_ok hword)

theorem value_boolean (b : Bool) :
    value (fuel + 1) depth (Utf8.encode (Value.boolean b).text ++ rest) = .ok (.boolean b, rest) := by
  cases b with
  | true =>
    have hword : trueWord (Utf8.encode (Value.boolean true).text ++ rest) = .ok ((), rest) := literal_append _ _
    exact (bind_ok (peek_cons rfl _)).trans (bind_ok hword)
  | false =>
    have hword : falseWord (Utf8.encode (Value.boolean false).text ++ rest) = .ok ((), rest) := literal_append _ _
    exact (bind_ok (peek_cons rfl _)).trans (bind_ok hword)

theorem value_string (s : String) :
    value (fuel + 1) depth (Utf8.encode (Value.string s).text ++ rest) = .ok (.string s, rest) := by
  rw [Value.text, encode_stringText, List.cons_append, List.append_assoc]
  exact (bind_ok (peek_cons rfl _)).trans ((bind_ok rfl).trans (map_ok _ (stringBody_text s rest)))

theorem value_number {n : Number} (hn : n.IsWord) (hr : EndsNumeral rest) :
    value (fuel + 1) depth (Utf8.encode (Value.number n).text ++ rest) = .ok (.number n, rest) := by
  obtain ⟨b, t, hb, hspace, h₁, h₂, h₃, h₄, h₅, h₆, -⟩ := head_number hn
  rw [value, Value.text, hb, List.cons_append, bind_ok (peek_cons hspace _)]
  simp only [h₁, h₂, h₃, h₄, h₅, h₆, if_false]
  rw [← List.cons_append, ← hb]
  cases n with
  | integer i => exact map_ok _ (number_text hn hr)
  | float x => cases hn

theorem value_array {xs : List Value} (hd : 1 < depth) (hxs : elements fuel (depth - 1) true bs = .ok (xs, rest)) :
    value (fuel + 1) depth (0x5B :: bs) = .ok (.array xs, rest) := by
  rw [value, bind_ok (peek_cons rfl _)]
  simp only [show ¬ depth ≤ 1 by omega, if_false]
  exact (bind_ok rfl).trans (map_ok _ hxs)

theorem value_array_cons {xs : List Value} (hn : ∀ n ∈ x.numbers, n.IsWord) (hd : 1 < depth)
    (hx : value fuel (depth - 1) (Utf8.encode x.text ++ bs) = .ok (x, bs))
    (hxs : elements fuel (depth - 1) false bs = .ok (xs, rest)) :
    value (fuel + 2) depth (0x5B :: (Utf8.encode x.text ++ bs)) = .ok (.array (x :: xs), rest) := by
  obtain ⟨b, t, hb, hspace, hend⟩ := head_value hn
  refine value_array hd (elements_step ?_ hx hxs)
  rw [hb]
  exact separate_first hspace hend

theorem value_object {ms : List (String × Value)} (hd : 1 < depth)
    (hms : members fuel (depth - 1) true [] bs = .ok (ms, rest)) :
    value (fuel + 1) depth (0x7B :: bs) = .ok (.object ms, rest) := by
  rw [value, bind_ok (peek_cons rfl _)]
  simp only [show ¬ depth ≤ 1 by omega, if_false]
  exact (bind_ok rfl).trans (map_ok _ hms)

theorem value_object_cons {name : String} {ms : List (String × Value)} (hd : 1 < depth)
    (hx : value fuel (depth - 1) (Utf8.encode x.text ++ bs) = .ok (x, bs))
    (hms : members fuel (depth - 1) false [(name, x)] bs = .ok (ms, rest)) :
    value (fuel + 2) depth (0x7B :: (Utf8.encode (stringText name) ++ 0x3A :: (Utf8.encode x.text ++ bs))) =
      .ok (.object ms, rest) := by
  refine value_object hd (members_step ?_ hx hms)
  rw [encode_stringText]
  exact separate_first rfl (by decide)

end steps

end Reader

open Reader in
mutual

/-- A value is read back from its text. A reading step is paid for by a byte of the text. -/
theorem value_text (v : Value) (fuel depth : Nat) {rest : Bytes} (hn : ∀ n ∈ v.numbers, n.IsWord)
    (ho : v.IsOrdered) (hd : v.height < depth) (hf : 2 * (Utf8.encode v.text).length ≤ fuel)
    (hr : EndsNumeral rest) : value fuel depth (Utf8.encode v.text ++ rest) = .ok (v, rest) := by
  have hpos : 0 < (Utf8.encode v.text).length := by
    obtain ⟨b, t, hb, -⟩ := head_value hn
    rw [hb]
    exact Nat.succ_pos _
  obtain ⟨fuel, rfl⟩ : ∃ k, fuel = k + 2 := ⟨fuel - 2, by omega⟩
  cases v with
  | null => exact value_null
  | boolean b => exact value_boolean b
  | string s => exact value_string s
  | number n => exact value_number (hn n (by simp [Value.numbers])) hr
  | array xs =>
    rw [Value.height] at hd
    rw [Value.IsOrdered] at ho
    rw [Value.numbers] at hn
    cases xs with
    | nil => exact value_array (by omega) elements_end
    | cons x xs =>
      rw [encode_array_cons] at hf ⊢
      rw [List.length_cons, List.length_append] at hf
      simp only [elementsNumbers, List.mem_append] at hn
      rw [elementsHeight] at hd
      have hx := value_text x fuel (depth - 1) (fun n h => hn n (.inl h)) ho.1 (by omega) (by omega)
        (endsNumeral_elementsText xs rest)
      have hxs := elements_text xs fuel (depth - 1) rest (fun n h => hn n (.inr h)) ho.2 (by omega) (by omega)
      rw [List.cons_append, List.append_assoc]
      exact value_array_cons (fun n h => hn n (.inl h)) (by omega) hx hxs
  | object ms =>
    rw [Value.height] at hd
    rw [Value.IsOrdered] at ho
    rw [Value.numbers] at hn
    cases ms with
    | nil => exact value_object (by omega) members_end
    | cons m ms =>
      obtain ⟨name, x⟩ := m
      rw [encode_object_cons] at hf ⊢
      rw [List.length_cons, List.length_append, List.length_cons, List.length_append] at hf
      simp only [membersNumbers, List.mem_append] at hn
      rw [membersHeight] at hd
      have hx := value_text x fuel (depth - 1) (fun n h => hn n (.inl h)) ho.2.1 (by omega) (by omega)
        (endsNumeral_membersText ms rest)
      have hms := members_text ms fuel (depth - 1) [(name, x)] rest (fun n h => hn n (.inr h)) ho.2.2 ho.1
        (by omega) (by omega)
      simp only [List.cons_append, List.append_assoc]
      exact value_object_cons (by omega) hx hms

theorem elements_text (xs : List Value) (fuel depth : Nat) (rest : Bytes)
    (hn : ∀ n ∈ elementsNumbers xs, n.IsWord) (ho : elementsOrdered xs) (hd : elementsHeight xs < depth)
    (hf : 2 * (Utf8.encode (elementsText xs)).length ≤ fuel) :
    elements fuel depth false (Utf8.encode (elementsText xs) ++ rest) = .ok (xs, rest) := by
  cases xs with
  | nil =>
    obtain ⟨fuel, rfl⟩ : ∃ k, fuel = k + 1 := ⟨fuel - 1, by have : 2 * 1 ≤ fuel := hf; omega⟩
    exact elements_end
  | cons x xs =>
    rw [encode_elements_cons] at hf ⊢
    rw [List.length_cons, List.length_append] at hf
    obtain ⟨fuel, rfl⟩ : ∃ k, fuel = k + 1 := ⟨fuel - 1, by omega⟩
    simp only [elementsNumbers, List.mem_append] at hn
    rw [elementsHeight] at hd
    obtain ⟨b, t, hb, hspace, hend⟩ := head_value fun n h => hn n (.inl h)
    have hx := value_text x fuel depth (fun n h => hn n (.inl h)) ho.1 (by omega) (by omega)
      (endsNumeral_elementsText xs rest)
    have hxs := elements_text xs fuel depth rest (fun n h => hn n (.inr h)) ho.2 (by omega) (by omega)
    refine elements_step ?_ hx hxs
    rw [List.cons_append, List.append_assoc, hb]
    exact separate_comma (by decide) hspace hend

theorem members_text (ms : List (String × Value)) (fuel depth : Nat) (before : List (String × Value))
    (rest : Bytes) (hn : ∀ n ∈ membersNumbers ms, n.IsWord) (ho : membersOrdered ms)
    (hs : ((before ++ ms).map Prod.fst).Pairwise (· < ·)) (hd : membersHeight ms < depth)
    (hf : 2 * (Utf8.encode (membersText ms)).length ≤ fuel) :
    members fuel depth false before (Utf8.encode (membersText ms) ++ rest) = .ok (before ++ ms, rest) := by
  cases ms with
  | nil =>
    obtain ⟨fuel, rfl⟩ : ∃ k, fuel = k + 1 := ⟨fuel - 1, by have : 2 * 1 ≤ fuel := hf; omega⟩
    rw [List.append_nil]
    exact members_end
  | cons m ms =>
    obtain ⟨name, x⟩ := m
    rw [encode_members_cons] at hf ⊢
    rw [List.length_cons, List.length_append, List.length_cons, List.length_append] at hf
    obtain ⟨fuel, rfl⟩ : ∃ k, fuel = k + 1 := ⟨fuel - 1, by omega⟩
    simp only [membersNumbers, List.mem_append] at hn
    rw [membersHeight] at hd
    -- the members come in order, so that each is filed behind those before it
    have hput : putMember name x before = before ++ [(name, x)] := by
      refine putMember_append fun m hm => ?_
      rw [List.map_append, List.pairwise_append] at hs
      exact hs.2.2 _ (List.mem_map_of_mem hm) _ (by simp)
    have hx := value_text x fuel depth (fun n h => hn n (.inl h)) ho.1 (by omega) (by omega)
      (endsNumeral_membersText ms rest)
    have hms := members_text ms fuel depth (before ++ [(name, x)]) rest (fun n h => hn n (.inr h)) ho.2
      (by simpa using hs) (by omega) (by omega)
    rw [List.append_assoc, List.singleton_append] at hms
    refine members_step ?_ hx (hput ▸ hms)
    simp only [List.append_assoc, List.cons_append]
    rw [encode_stringText]
    exact separate_comma (by decide) rfl (by decide)

end

def Number.Fits : Number → Prop
  | .integer n => FitsWord n
  | .float _ => True

theorem Numeral.fits_of_number? {m : Numeral} {n : Number} (h : m.number? = some n) : n.Fits := by
  have hfloat {o : Option Binary64} (h : o.map Number.float = some n) : n.Fits := by
    obtain ⟨x, -, rfl⟩ := Option.map_eq_some_iff.mp h
    trivial
  unfold Numeral.number? at h
  split at h
  · simp only at h
    split at h
    · rename_i hlt
      cases h
      simp only [Bool.and_eq_true, decide_eq_true_eq] at hlt
      exact ⟨by omega, by exact_mod_cast hlt.2⟩
    split at h
    · rename_i hlt
      cases h
      simp only [Bool.and_eq_true, decide_eq_true_eq] at hlt
      exact ⟨by omega, by omega⟩
    · exact hfloat h
  · exact hfloat h

/-- What is true of every value that was read. -/
structure Value.IsRead (v : Value) (depth : Nat) : Prop where
  numbers : ∀ n ∈ v.numbers, n.Fits
  ordered : v.IsOrdered
  height : v.height < depth

theorem isRead_array {xs : List Value} {depth : Nat} (h : ∀ x ∈ xs, x.IsRead (depth - 1)) (hd : 1 < depth) :
    (Value.array xs).IsRead depth := by
  suffices hall : (∀ n ∈ elementsNumbers xs, n.Fits) ∧ elementsOrdered xs ∧ elementsHeight xs < depth - 1 by
    refine ⟨by simpa [Value.numbers] using hall.1, by simpa [Value.IsOrdered] using hall.2.1, ?_⟩
    rw [Value.height]
    omega
  induction xs with
  | nil => exact ⟨by simp [elementsNumbers], trivial, by rw [elementsHeight]; omega⟩
  | cons x xs ih =>
    have hx := h x List.mem_cons_self
    obtain ⟨hn, ho, hh⟩ := ih fun y hy => h y (List.mem_cons_of_mem x hy)
    refine ⟨fun n hmem => ?_, ⟨hx.ordered, ho⟩, ?_⟩
    · rw [elementsNumbers, List.mem_append] at hmem
      exact hmem.elim (hx.numbers n) (hn n)
    · have := hx.height
      rw [elementsHeight]
      omega

theorem isRead_object {ms : List (String × Value)} {depth : Nat} (h : ∀ m ∈ ms, m.2.IsRead (depth - 1))
    (hs : (ms.map Prod.fst).Pairwise (· < ·)) (hd : 1 < depth) : (Value.object ms).IsRead depth := by
  suffices hall : (∀ n ∈ membersNumbers ms, n.Fits) ∧ membersOrdered ms ∧ membersHeight ms < depth - 1 by
    refine ⟨by simpa [Value.numbers] using hall.1, ⟨hs, hall.2.1⟩, ?_⟩
    rw [Value.height]
    omega
  clear hs
  induction ms with
  | nil => exact ⟨by simp [membersNumbers], trivial, by rw [membersHeight]; omega⟩
  | cons m ms ih =>
    obtain ⟨name, x⟩ := m
    have hx := h (name, x) List.mem_cons_self
    obtain ⟨hn, ho, hh⟩ := ih fun y hy => h y (List.mem_cons_of_mem _ hy)
    refine ⟨fun n hmem => ?_, ⟨hx.ordered, ho⟩, ?_⟩
    · rw [membersNumbers, List.mem_append] at hmem
      exact hmem.elim (hx.numbers n) (hn n)
    · have : x.height < depth - 1 := hx.height
      rw [membersHeight]
      omega

theorem mem_putMember {name : String} {x : Value} {ms : List (String × Value)} {m : String × Value}
    (h : m ∈ putMember name x ms) : m = (name, x) ∨ m ∈ ms := by
  induction ms with
  | nil => exact .inl (List.mem_singleton.mp h)
  | cons k ms ih =>
    unfold putMember at h
    split at h
    · exact List.mem_cons.mp h
    split at h
    · exact (List.mem_cons.mp h).imp_right (List.mem_cons_of_mem k)
    · rcases List.mem_cons.mp h with rfl | h
      · exact .inr List.mem_cons_self
      · exact (ih h).imp_right (List.mem_cons_of_mem k)

theorem putMember_ordered {name : String} {x : Value} {ms : List (String × Value)}
    (h : (ms.map Prod.fst).Pairwise (· < ·)) : ((putMember name x ms).map Prod.fst).Pairwise (· < ·) := by
  induction ms with
  | nil => simp [putMember]
  | cons k ms ih =>
    rw [List.map_cons, List.pairwise_cons] at h
    unfold putMember
    split
    · rename_i hlt
      rw [List.map_cons, List.pairwise_cons, List.map_cons, List.pairwise_cons]
      refine ⟨fun a ha => ?_, h⟩
      rcases List.mem_cons.mp ha with rfl | ha
      · exact hlt
      · exact String.lt_trans hlt (h.1 a ha)
    split
    · rename_i heq
      rw [List.map_cons, List.pairwise_cons]
      exact ⟨heq ▸ h.1, h.2⟩
    · rename_i hlt hne
      rw [List.map_cons, List.pairwise_cons]
      refine ⟨fun a ha => ?_, ih h.2⟩
      obtain ⟨m, hm, rfl⟩ := List.mem_map.mp ha
      rcases mem_putMember hm with rfl | hm
      · by_contra hle
        exact hne (String.le_antisymm (String.not_lt.mp hle) (String.not_lt.mp hlt))
      · exact h.1 _ (List.mem_map_of_mem hm)

section reading

variable {fuel depth : Nat} {bs rest : Bytes}

theorem isRead_scalar {v : Value} (hn : v.numbers = []) (ho : v.IsOrdered) (hh : v.height = 0)
    (hd : 1 ≤ depth) : v.IsRead depth := ⟨by simp [hn], ho, by omega⟩

theorem isRead_number {v : Value} (hd : 1 ≤ depth) (h : (Value.number <$> Reader.number) bs = .ok (v, rest)) :
    v.IsRead depth := by
  obtain ⟨n, rest₁, hnumber, h⟩ := Reader.map_eq_ok.mp h
  cases h
  obtain ⟨m, rest₂, -, hnumber⟩ := Reader.bind_eq_ok.mp hnumber
  cases hm : m.number? with
  | none => simp only [hm] at hnumber; cases hnumber
  | some k =>
    simp only [hm] at hnumber
    cases hnumber
    refine ⟨fun n' hn' => ?_, trivial, hd⟩
    rw [Value.numbers, List.mem_singleton] at hn'
    exact hn' ▸ Numeral.fits_of_number? hm

def ReadsElements (fuel : Nat) : Prop := ∀ {depth isFirst bs xs rest}, 1 ≤ depth →
  Reader.elements fuel depth isFirst bs = .ok (xs, rest) → ∀ x ∈ xs, x.IsRead depth

/-- So have the members, which are put in order with those before them. -/
def ReadsMembers (fuel : Nat) : Prop := ∀ {depth isFirst before bs ms rest}, 1 ≤ depth →
  Reader.members fuel depth isFirst before bs = .ok (ms, rest) →
  (∀ m ∈ before, m.2.IsRead depth) → (before.map Prod.fst).Pairwise (· < ·) →
  (∀ m ∈ ms, m.2.IsRead depth) ∧ (ms.map Prod.fst).Pairwise (· < ·)

def ReadsValues (fuel : Nat) : Prop := ∀ {depth bs v rest}, 1 ≤ depth →
  Reader.value fuel depth bs = .ok (v, rest) → v.IsRead depth

theorem readsValues_succ (ihe : ReadsElements fuel) (ihm : ReadsMembers fuel) : ReadsValues (fuel + 1) := by
  intro depth bs v rest hd h
  rw [Reader.value] at h
  obtain ⟨o, rest₁, -, h⟩ := Reader.bind_eq_ok.mp h
  cases o with
  | none => cases h
  | some b =>
  simp only at h
  split at h
  · obtain ⟨-, rest₂, -, h⟩ := Reader.bind_eq_ok.mp h
    cases h
    exact isRead_scalar rfl trivial rfl hd
  split at h
  · obtain ⟨-, rest₂, -, h⟩ := Reader.bind_eq_ok.mp h
    cases h
    exact isRead_scalar rfl trivial rfl hd
  split at h
  · obtain ⟨-, rest₂, -, h⟩ := Reader.bind_eq_ok.mp h
    cases h
    exact isRead_scalar rfl trivial rfl hd
  split at h
  · obtain ⟨-, rest₂, -, h⟩ := Reader.bind_eq_ok.mp h
    obtain ⟨s, rest₃, -, h⟩ := Reader.map_eq_ok.mp h
    cases h
    exact isRead_scalar rfl trivial rfl hd
  split at h
  · split at h
    · cases h
    · obtain ⟨-, rest₂, -, h⟩ := Reader.bind_eq_ok.mp h
      obtain ⟨xs, rest₃, hxs, h⟩ := Reader.map_eq_ok.mp h
      cases h
      exact isRead_array (ihe (by omega) hxs) (by omega)
  split at h
  · split at h
    · cases h
    · obtain ⟨-, rest₂, -, h⟩ := Reader.bind_eq_ok.mp h
      obtain ⟨ms, rest₃, hms, h⟩ := Reader.map_eq_ok.mp h
      cases h
      obtain ⟨hall, hs⟩ := ihm (by omega) hms (by simp) (by simp)
      exact isRead_object hall hs (by omega)
  · exact isRead_number hd h

theorem readsElements_succ (ihv : ReadsValues fuel) (ihe : ReadsElements fuel) : ReadsElements (fuel + 1) := by
  intro depth isFirst bs xs rest hd h
  rw [Reader.elements] at h
  obtain ⟨isEnd, rest₁, -, h⟩ := Reader.bind_eq_ok.mp h
  cases isEnd with
  | true =>
    obtain ⟨-, rest₂, -, h⟩ := Reader.bind_eq_ok.mp h
    cases h
    simp
  | false =>
    simp only [Bool.false_eq_true, if_false] at h
    obtain ⟨x, rest₂, hx, h⟩ := Reader.bind_eq_ok.mp h
    obtain ⟨xs', rest₃, hxs, h⟩ := Reader.bind_eq_ok.mp h
    cases h
    intro y hy
    rcases List.mem_cons.mp hy with rfl | hy
    · exact ihv hd hx
    · exact ihe hd hxs y hy

theorem readsMembers_succ (ihv : ReadsValues fuel) (ihm : ReadsMembers fuel) : ReadsMembers (fuel + 1) := by
  intro depth isFirst before bs ms rest hd h hbefore hs
  rw [Reader.members] at h
  obtain ⟨isEnd, rest₁, -, h⟩ := Reader.bind_eq_ok.mp h
  cases isEnd with
  | true =>
    obtain ⟨-, rest₂, -, h⟩ := Reader.bind_eq_ok.mp h
    cases h
    exact ⟨hbefore, hs⟩
  | false =>
    simp only [Bool.false_eq_true, if_false] at h
    obtain ⟨-, rest₂, -, h⟩ := Reader.bind_eq_ok.mp h
    obtain ⟨name, rest₃, -, h⟩ := Reader.bind_eq_ok.mp h
    obtain ⟨-, rest₄, -, h⟩ := Reader.bind_eq_ok.mp h
    obtain ⟨x, rest₅, hx, h⟩ := Reader.bind_eq_ok.mp h
    refine ihm hd h (fun m hm => ?_) (putMember_ordered hs)
    rcases mem_putMember hm with rfl | hm
    · exact ihv hd hx
    · exact hbefore m hm

theorem reads_fuel (fuel : Nat) : ReadsValues fuel ∧ ReadsElements fuel ∧ ReadsMembers fuel := by
  -- the three readers call one another with less fuel each time
  induction fuel with
  | zero => exact ⟨nofun, nofun, nofun⟩
  | succ fuel ih =>
    obtain ⟨ihv, ihe, ihm⟩ := ih
    exact ⟨readsValues_succ ihe ihm, readsElements_succ ihv ihe, readsMembers_succ ihv ihm⟩

end reading

theorem isRead_of_ofBytes {bs : Bytes} {v : Value} (h : Value.ofBytes bs = .ok v) : v.IsRead depthLimit := by
  unfold Value.ofBytes Reader.run at h
  cases hv : Reader.anyValue bs with
  | error fault => simp [hv] at h
  | ok p =>
    obtain ⟨v', rest⟩ := p
    have hread := (reads_fuel _).1 (by decide) hv
    simp only [hv] at h
    split at h
    · cases h
    · cases h
      exact hread

theorem finish_nil : Reader.finish [] = .ok ((), []) := rfl

/-- A value that was read, and whose numbers are all integers, is read again from its text. -/
theorem ofBytes_text {bs : Bytes} {v : Value} (h : Value.ofBytes bs = .ok v)
    (hi : ∀ n ∈ v.numbers, n.IsInteger) : Value.ofBytes (Utf8.encode v.text) = .ok v := by
  have hread := isRead_of_ofBytes h
  have hwords : ∀ n ∈ v.numbers, n.IsWord := by
    intro n hn
    have hfits := hread.numbers n hn
    have hinteger := hi n hn
    cases n with
    | integer i => exact hfits
    | float x => exact hinteger.elim
  have hv := value_text v (2 * (Utf8.encode v.text).length + 1) depthLimit hwords hread.ordered hread.height
    (by omega) endsNumeral_nil
  rw [List.append_nil] at hv
  have hany : Reader.anyValue (Utf8.encode v.text) = .ok (v, []) := hv
  simp [Value.ofBytes, Reader.run, hany, finish_nil]

end Keyring.Json
