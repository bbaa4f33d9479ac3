import Keyring.Proofs.Json.Echo

/-!
The grammar of JSON over bytes, apart from any reader. A string is told with the text that it spells, and an
object with its members: their names, and the texts of their values as they stand.
-/
set_option autoImplicit false

namespace Keyring.Json

def IsBlank (bs : Bytes) : Prop := ∀ b ∈ bs, Reader.isSpace b = true

inductive HexWord : Bytes → Nat → Prop where
  | mk {a b c d : UInt8} {i j k l : Nat} (ha : hexDigit? a = some i) (hb : hexDigit? b = some j)
      (hc : hexDigit? c = some k) (hd : hexDigit? d = some l) :
      HexWord [a, b, c, d] (((i * 16 + j) * 16 + k) * 16 + l)

inductive StringTail : Bytes → Prop where
  | close : StringTail [0x22]
  | plain {b : UInt8} {u : Bytes} (hb : IsPlainByte b) (h : StringTail u) : StringTail (b :: u)
  | escape {b : UInt8} {u : Bytes} (hb : (unescape? b).isSome = true) (h : StringTail u) :
      StringTail (0x5C :: b :: u)
  | unit {ds u : Bytes} {n : Nat} (hd : HexWord ds n) (h : StringTail u) : StringTail (0x5C :: 0x75 :: (ds ++ u))

/-- The first half of a surrogate pair, and the second. -/
def IsHigh (n : Nat) : Prop := 0xD800 ≤ n ∧ n < 0xDC00
def IsLow (n : Nat) : Prop := 0xDC00 ≤ n ∧ n < 0xE000

def pairValue (high low : Nat) : Nat := 0x10000 + (high - 0xD800) * 0x400 + (low - 0xDC00)

/-- The rest of a string behind its opening quote, and the bytes that it spells. Code points above the first
plane may be escaped by two halves, and no half stands alone. -/
inductive StringSpells : Bytes → Bytes → Prop where
  | close : StringSpells [0x22] []
  | plain {b : UInt8} {u s : Bytes} (hb : IsPlainByte b) (h : StringSpells u s) : StringSpells (b :: u) (b :: s)
  | escape {b c : UInt8} {u s : Bytes} (hb : unescape? b = some c) (h : StringSpells u s) :
      StringSpells (0x5C :: b :: u) (c :: s)
  | unit {ds u s : Bytes} {n : Nat} {c : Char} (hd : HexWord ds n) (hc : Utf8.char? n = some c)
      (h : StringSpells u s) : StringSpells (0x5C :: 0x75 :: (ds ++ u)) (Utf8.encodeChar c ++ s)
  | pair {ds es u s : Bytes} {high low : Nat} {c : Char} (hd : HexWord ds high) (hhigh : IsHigh high)
      (he : HexWord es low) (hlow : IsLow low) (hc : Utf8.char? (pairValue high low) = some c)
      (h : StringSpells u s) :
      StringSpells (0x5C :: 0x75 :: (ds ++ 0x5C :: 0x75 :: (es ++ u))) (Utf8.encodeChar c ++ s)

def StringTail.Spells (u : Bytes) (s : String) : Prop := ∃ bytes, StringSpells u bytes ∧ Utf8.string? bytes = some s

def IsString (v : Bytes) (s : String) : Prop := ∃ u, v = 0x22 :: u ∧ StringTail.Spells u s

def IsDigits (ds : Bytes) : Prop := ds ≠ [] ∧ ∀ b ∈ ds, (digit? b).isSome = true

def IsFraction (u : Bytes) : Prop := u = [] ∨ ∃ ds, IsDigits ds ∧ u = 0x2E :: ds

def IsExponent (u : Bytes) : Prop :=
  u = [] ∨ ∃ mark sign ds, mark ∈ ([0x65, 0x45] : Bytes) ∧ sign ∈ ([[], [0x2B], [0x2D]] : List Bytes) ∧
    IsDigits ds ∧ u = mark :: (sign ++ ds)

/-- A numeral. A zero in front stands alone. -/
inductive IsNumeral : Bytes → Prop where
  | mk {sign whole fraction exponent : Bytes} (hsign : sign ∈ ([[], [0x2D]] : List Bytes)) (hwhole : IsDigits whole)
      (hlead : 1 < whole.length → whole.head? ≠ some 0x30) (hfraction : IsFraction fraction)
      (hexponent : IsExponent exponent) : IsNumeral (sign ++ (whole ++ (fraction ++ exponent)))

/-- A value, or what is left of an array or an object once some of it stands there. -/
inductive Part where
  | value
  | elements (isFirst : Bool)
  | members (isFirst : Bool)

def comma (isFirst : Bool) : Bytes := if isFirst then [] else [0x2C]

/-- The grammar. What strings spell is left open. -/
inductive IsJson : Part → Bytes → Prop where
  | nullWord : IsJson .value [0x6E, 0x75, 0x6C, 0x6C]
  | trueWord : IsJson .value [0x74, 0x72, 0x75, 0x65]
  | falseWord : IsJson .value [0x66, 0x61, 0x6C, 0x73, 0x65]
  | numeral {u : Bytes} (h : IsNumeral u) : IsJson .value u
  | string {u : Bytes} (h : StringTail u) : IsJson .value (0x22 :: u)
  | array {u : Bytes} (h : IsJson (.elements true) u) : IsJson .value (0x5B :: u)
  | object {u : Bytes} (h : IsJson (.members true) u) : IsJson .value (0x7B :: u)
  | arrayEnd {isFirst : Bool} {b : Bytes} (hb : IsBlank b) : IsJson (.elements isFirst) (b ++ [0x5D])
  | element {isFirst : Bool} {b c v u : Bytes} (hb : IsBlank b) (hc : IsBlank c) (hv : IsJson .value v)
      (h : IsJson (.elements false) u) : IsJson (.elements isFirst) (b ++ (comma isFirst ++ (c ++ (v ++ u))))
  | objectEnd {isFirst : Bool} {b : Bytes} (hb : IsBlank b) : IsJson (.members isFirst) (b ++ [0x7D])
  | member {isFirst : Bool} {b c n d e v u : Bytes} (hb : IsBlank b) (hc : IsBlank c) (hn : StringTail n)
      (hd : IsBlank d) (he : IsBlank e) (hv : IsJson .value v) (h : IsJson (.members false) u) :
      IsJson (.members isFirst) (b ++ (comma isFirst ++ (c ++ 0x22 :: (n ++ (d ++ 0x3A :: (e ++ (v ++ u)))))))

/-- The name of a member, if it is one, and the text of the member's value. -/
abbrev RawMember : Type := Option String × Bytes

def Names (u : Bytes) (name : Option String) : Prop := ∀ s, name = some s ↔ StringTail.Spells u s

/-- What is left of an object, with its members. -/
inductive Members : (isFirst : Bool) → Bytes → List RawMember → Prop where
  | nil {isFirst : Bool} {b : Bytes} (hb : IsBlank b) : Members isFirst (b ++ [0x7D]) []
  | cons {isFirst : Bool} {b c n d e v u : Bytes} {name : Option String} {ms : List RawMember} (hb : IsBlank b)
      (hc : IsBlank c) (hn : StringTail n) (hname : Names n name) (hd : IsBlank d) (he : IsBlank e)
      (hv : IsJson .value v) (h : Members false u ms) :
      Members isFirst (b ++ (comma isFirst ++ (c ++ 0x22 :: (n ++ (d ++ 0x3A :: (e ++ (v ++ u)))))))
        ((name, v) :: ms)

inductive Elements : (isFirst : Bool) → Bytes → List Bytes → Prop where
  | nil {isFirst : Bool} {b : Bytes} (hb : IsBlank b) : Elements isFirst (b ++ [0x5D]) []
  | cons {isFirst : Bool} {b c v u : Bytes} {vs : List Bytes} (hb : IsBlank b) (hc : IsBlank c)
      (hv : IsJson .value v) (h : Elements false u vs) :
      Elements isFirst (b ++ (comma isFirst ++ (c ++ (v ++ u)))) (v :: vs)

def IsObject (text : Bytes) (ms : List RawMember) : Prop :=
  ∃ b u c, text = b ++ 0x7B :: (u ++ c) ∧ IsBlank b ∧ Members true u ms ∧ IsBlank c

def IsArray (text : Bytes) (vs : List Bytes) : Prop :=
  ∃ b u c, text = b ++ 0x5B :: (u ++ c) ∧ IsBlank b ∧ Elements true u vs ∧ IsBlank c

section

variable {b : UInt8} {bs u v rest : Bytes} {isFirst : Bool}

theorem isBlank_nil : IsBlank [] := nofun

theorem IsBlank.append {bs' : Bytes} (h : IsBlank bs) (h' : IsBlank bs') : IsBlank (bs ++ bs') :=
  fun b hb => (List.mem_append.mp hb).elim (h b) (h' b)

theorem endsNumeral_of_blank (hb : IsBlank bs) (h : EndsNumeral rest) : EndsNumeral (bs ++ rest) := by
  cases bs with
  | nil => exact h
  | cons b bs =>
    have hspace : Reader.isSpace b = true := hb b List.mem_cons_self
    simp only [Reader.isSpace, Bool.or_eq_true, decide_eq_true_eq] at hspace
    rcases hspace with ((rfl | rfl) | rfl) | rfl <;> exact endsNumeral_cons (by decide)

theorem IsDigits.head (h : IsDigits u) : ∃ b t, u = b :: t ∧ (digit? b).isSome = true := by
  cases u with
  | nil => exact absurd rfl h.1
  | cons b t => exact ⟨b, t, rfl, h.2 b List.mem_cons_self⟩

/-- A byte that a numeral can begin with is no blank, begins no other value, and ends nothing. -/
theorem numeralHead {b : UInt8} (h : b = 0x2D ∨ (digit? b).isSome = true) : Reader.isSpace b = false ∧
    b ∉ ([0x6E, 0x74, 0x66, 0x22, 0x5B, 0x7B, 0x5D, 0x7D, 0x2C] : Bytes) := by
  rcases h with rfl | h
  · exact ⟨rfl, by decide⟩
  · have hrange : 48 ≤ b.toNat ∧ b.toNat ≤ 57 := by
      unfold digit? at h
      split at h
      · assumption
      · cases h
    have hne {c : UInt8} (hc : c.toNat < 48 ∨ 57 < c.toNat) : b ≠ c := by
      rintro rfl
      omega
    simp only [Reader.isSpace, Bool.or_eq_false_iff, decide_eq_false_iff_not, List.mem_cons, List.not_mem_nil, or_false,
      not_or]
    exact ⟨⟨⟨⟨hne (by decide), hne (by decide)⟩, hne (by decide)⟩, hne (by decide)⟩, hne (by decide), hne (by decide),
      hne (by decide), hne (by decide), hne (by decide), hne (by decide), hne (by decide), hne (by decide),
      hne (by decide)⟩

theorem IsNumeral.head (h : IsNumeral v) : ∃ b t, v = b :: t ∧ (b = 0x2D ∨ (digit? b).isSome = true) := by
  obtain ⟨hsign, hwhole, -, -, -⟩ := h
  simp only [List.mem_cons, List.not_mem_nil, or_false] at hsign
  rcases hsign with rfl | rfl
  · obtain ⟨b, t, rfl, hb⟩ := hwhole.head
    exact ⟨b, _, rfl, .inr hb⟩
  · exact ⟨0x2D, _, rfl, .inl rfl⟩

theorem IsNumeral.not_head (h : IsNumeral (b :: u)) :
    b ∉ ([0x6E, 0x74, 0x66, 0x22, 0x5B, 0x7B, 0x5D, 0x7D, 0x2C] : Bytes) := by
  obtain ⟨b', t, heq, hb⟩ := h.head
  cases heq
  exact (numeralHead hb).2

theorem IsJson.of_n (h : IsJson .value (0x6E :: u)) : u = [0x75, 0x6C, 0x6C] := by
  cases h with
  | nullWord => rfl
  | numeral h => exact absurd (by decide) h.not_head

theorem IsJson.of_quote (h : IsJson .value (0x22 :: u)) : StringTail u := by
  cases h with
  | string h => exact h
  | numeral h => exact absurd (by decide) h.not_head

theorem IsJson.of_bracket (h : IsJson .value (0x5B :: u)) : IsJson (.elements true) u := by
  cases h with
  | array h => exact h
  | numeral h => exact absurd (by decide) h.not_head

theorem IsJson.of_brace (h : IsJson .value (0x7B :: u)) : IsJson (.members true) u := by
  cases h with
  | object h => exact h
  | numeral h => exact absurd (by decide) h.not_head

theorem IsJson.value_head (h : IsJson .value v) : ∃ b t, v = b :: t ∧ Reader.isSpace b = false ∧
    b ∉ ([0x5D, 0x7D, 0x2C] : Bytes) := by
  cases h with
  | numeral h =>
    obtain ⟨b, t, rfl, hb⟩ := h.head
    obtain ⟨hspace, hother⟩ := numeralHead hb
    refine ⟨b, t, rfl, hspace, fun hmem => hother ?_⟩
    simp only [List.mem_cons, List.not_mem_nil, or_false] at hmem ⊢
    tauto
  | nullWord => exact ⟨_, _, rfl, by decide, by decide⟩
  | trueWord => exact ⟨_, _, rfl, by decide, by decide⟩
  | falseWord => exact ⟨_, _, rfl, by decide, by decide⟩
  | string h => exact ⟨_, _, rfl, by decide, by decide⟩
  | array h => exact ⟨_, _, rfl, by decide, by decide⟩
  | object h => exact ⟨_, _, rfl, by decide, by decide⟩

theorem IsJson.length_pos {part : Part} (h : IsJson part u) : 0 < u.length := by
  refine List.length_pos_iff.mpr ?_
  cases part with
  | value =>
    obtain ⟨b, t, rfl, -⟩ := h.value_head
    exact List.cons_ne_nil b t
  | elements isFirst =>
    cases h with
    | arrayEnd hb => simp
    | element hb hc hv h =>
      obtain ⟨b, t, rfl, -⟩ := hv.value_head
      simp
  | members isFirst => cases h <;> simp

theorem IsJson.endsNumeral_elements (h : IsJson (.elements false) u) (rest : Bytes) : EndsNumeral (u ++ rest) := by
  cases h with
  | arrayEnd hb =>
    rw [List.append_assoc]
    exact endsNumeral_of_blank hb (endsNumeral_cons (b := 0x5D) (by decide))
  | element hb _ _ _ =>
    rw [List.append_assoc]
    exact endsNumeral_of_blank hb (endsNumeral_cons (b := 0x2C) (by decide))

theorem IsJson.endsNumeral_members (h : IsJson (.members false) u) (rest : Bytes) : EndsNumeral (u ++ rest) := by
  cases h with
  | objectEnd hb =>
    rw [List.append_assoc]
    exact endsNumeral_of_blank hb (endsNumeral_cons (b := 0x7D) (by decide))
  | member hb _ _ _ _ _ _ =>
    rw [List.append_assoc]
    exact endsNumeral_of_blank hb (endsNumeral_cons (b := 0x2C) (by decide))

theorem Members.isJson {ms : List RawMember} (h : Members isFirst u ms) : IsJson (.members isFirst) u := by
  induction h with
  | nil hb => exact .objectEnd hb
  | cons hb hc hn _ hd he hv _ ih => exact .member hb hc hn hd he hv ih

theorem Elements.isJson {vs : List Bytes} (h : Elements isFirst u vs) : IsJson (.elements isFirst) u := by
  induction h with
  | nil hb => exact .arrayEnd hb
  | cons hb hc hv _ ih => exact .element hb hc hv ih

theorem Members.value_isJson {ms : List RawMember} (h : Members isFirst u ms) : ∀ m ∈ ms, IsJson .value m.2 := by
  induction h with
  | nil => nofun
  | cons _ _ _ _ _ _ hv _ ih => exact List.forall_mem_cons.mpr ⟨hv, ih⟩

theorem Elements.value_isJson {vs : List Bytes} (h : Elements isFirst u vs) : ∀ v ∈ vs, IsJson .value v := by
  induction h with
  | nil => nofun
  | cons _ _ hv _ ih => exact List.forall_mem_cons.mpr ⟨hv, ih⟩

theorem IsObject.value_isJson {ms : List RawMember} (h : IsObject bs ms) : ∀ m ∈ ms, IsJson .value m.2 := by
  obtain ⟨b, u, c, -, -, hu, -⟩ := h
  exact hu.value_isJson

theorem IsArray.value_isJson {vs : List Bytes} (h : IsArray bs vs) : ∀ v ∈ vs, IsJson .value v := by
  obtain ⟨b, u, c, -, -, hu, -⟩ := h
  exact hu.value_isJson

theorem IsJson.exists_elements (h : IsJson (.elements isFirst) u) : ∃ vs, Elements isFirst u vs := by
  generalize hpart : Part.elements isFirst = part at h
  induction h generalizing isFirst with
  | arrayEnd hb =>
    cases hpart
    exact ⟨[], .nil hb⟩
  | element hb hc hv _ _ ih =>
    cases hpart
    obtain ⟨vs, hvs⟩ := ih rfl
    exact ⟨_ :: vs, .cons hb hc hv hvs⟩
  | _ => cases hpart

theorem Elements.of_closing {vs : List Bytes} {t : Bytes} (h : Elements false u vs) (heq : u ++ rest = 0x5D :: t) :
    u = [0x5D] ∧ rest = t := by
  have hblank {b : Bytes} {x : UInt8} {w : Bytes} (hb : IsBlank b) (heq : b ++ x :: w = 0x5D :: t) :
      b = [] ∧ x = 0x5D := by
    cases b with
    | nil => exact ⟨rfl, (List.cons.inj heq).1⟩
    | cons c b =>
      have hc := hb c List.mem_cons_self
      rw [(List.cons.inj heq).1] at hc
      cases hc
  cases h with
  | nil hb =>
    rw [List.append_assoc] at heq
    obtain ⟨rfl, -⟩ := hblank hb heq
    exact ⟨rfl, (List.cons.inj heq).2⟩
  | cons hb hc hv h =>
    rw [List.append_assoc] at heq
    cases (hblank hb heq).2

end
end Keyring.Json
