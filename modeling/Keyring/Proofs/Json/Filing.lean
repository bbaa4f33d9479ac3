import Keyring.Proofs.Json.Echo

/-!
What is read as any value is a text that was taken as it stands, with the members of its objects filed by their
names: in the order of these, and of one name the last.
-/
set_option autoImplicit false

namespace Keyring.Json

mutual

/-- The value with the members of all objects filed. -/
def Value.filed : Value → Value
  | .array vs => .array (filedElements vs)
  | .object ms => .object (filedMembers [] ms)
  | .null => .null
  | .boolean b => .boolean b
  | .number n => .number n
  | .string s => .string s

def filedElements : List Value → List Value
  | [] => []
  | v :: vs => v.filed :: filedElements vs

def filedMembers (before : List (String × Value)) : List (String × Value) → List (String × Value)
  | [] => before
  | (name, v) :: ms => filedMembers (putMember name v.filed before) ms

end

namespace Reader

section numerals

variable {α β : Type} {bs rest : Bytes}

theorem digitRun_length (bs : Bytes) : (digitRun bs).1.length + (digitRun bs).2.length = bs.length := by
  induction bs with
  | nil => rfl
  | cons b bs ih =>
    rw [digitRun]
    split
    · simp
    · simp only [List.length_cons]
      omega

theorem digits_length {ds : List Nat} (h : digits bs = .ok (ds, rest)) : rest.length < bs.length := by
  have hlength := digitRun_length bs
  unfold digits at h
  split at h
  · cases h
  · rename_i hrun hds
    cases h
    rw [hds] at hlength
    have hne : 0 < ds.length := List.length_pos_iff.mpr hrun
    simp only at hlength
    omega

/-- The reader gives nothing back to the text. -/
def Consumes (r : Reader α) : Prop := ∀ bs x rest, r bs = .ok (x, rest) → rest.length ≤ bs.length

theorem consumes_pure (x : α) : Consumes (pure x) := by
  intro bs y rest h
  cases h
  exact Nat.le_refl _

theorem Consumes.bind {r : Reader α} {f : α → Reader β} (h : Consumes r) (hf : ∀ x, Consumes (f x)) :
    Consumes (r >>= f) := by
  intro bs y rest hread
  obtain ⟨x, t, hx, hread⟩ := bind_eq_ok.mp hread
  exact Nat.le_trans (hf x _ _ _ hread) (h _ _ _ hx)

theorem Consumes.map {r : Reader α} (g : α → β) (h : Consumes r) : Consumes (g <$> r) := by
  intro bs y rest hread
  obtain ⟨x, t, hx, heq⟩ := map_eq_ok.mp hread
  cases heq
  exact h _ _ _ hx

theorem Consumes.ite {c : Prop} [Decidable c] {r s : Reader α} (hr : Consumes r) (hs : Consumes s) :
    Consumes (if c then r else s) := by
  split
  · exact hr
  · exact hs

theorem Consumes.join {c : Prop} [Decidable c] {r s : Reader α} {f : α → Reader β} (hr : Consumes r) (hs : Consumes s)
    (hf : ∀ x, Consumes (f x)) : Consumes (if c then r >>= f else s >>= f) := .ite (hr.bind hf) (hs.bind hf)

theorem consumes_digits : Consumes digits := fun _ _ _ h => Nat.le_of_lt (digits_length h)

theorem consumes_optional (accepted : List UInt8) : Consumes (optional accepted) := by
  intro bs o rest h
  unfold optional at h
  split at h
  · cases h
    exact Nat.le_refl _
  · split at h
    · cases h
      exact Nat.le_succ _
    · cases h
      exact Nat.le_refl _

theorem numeral_length {n : Numeral} (h : numeral bs = .ok (n, rest)) : rest.length < bs.length := by
  obtain ⟨minus, t₁, hminus, h⟩ := bind_eq_ok.mp h
  obtain ⟨whole, t₂, hwhole, h⟩ := bind_eq_ok.mp h
  split at h
  · obtain ⟨_, _, hfail, _⟩ := bind_eq_ok.mp h
    cases hfail
  have htail : rest.length ≤ t₂.length := by
    refine (?_ : Consumes _) _ _ _ h
    refine (consumes_optional _).bind fun point => ?_
    refine .join (consumes_digits.map some) (consumes_pure none) fun fraction => ?_
    refine (consumes_optional _).bind fun exponentMark => ?_
    refine .ite ?_ ((consumes_pure none).bind fun exponent => consumes_pure _)
    refine (consumes_optional _).bind fun sign => ?_
    exact consumes_digits.bind fun ds => (consumes_pure _).bind fun exponent => consumes_pure _
  have hminus := consumes_optional _ _ _ _ hminus
  have hwhole := digits_length hwhole
  omega

theorem number_length {n : Number} (h : number bs = .ok (n, rest)) : rest.length < bs.length := by
  obtain ⟨m, t, hnumeral, h⟩ := bind_eq_ok.mp h
  have hlength := numeral_length hnumeral
  cases hn : m.number? with
  | none =>
    rw [hn] at h
    cases h
  | some n' =>
    rw [hn] at h
    cases h
    exact hlength

theorem spells_number {b : UInt8} {t : Bytes} {n : Number} (hpeek : peek bs = .ok (some b, t))
    (hb : b ∉ ([0x6E, 0x74, 0x66, 0x22, 0x5B, 0x7B] : List UInt8)) (h : number t = .ok (n, rest)) :
    Spells bs (.number n) rest := by
  obtain ⟨t', rfl, hlength⟩ := peek_eq_some hpeek
  have hnumber := number_length h
  simp only [List.length_cons] at hnumber
  refine .of_step (by omega) fun fuel _ => ?_
  simp only [List.mem_cons, List.not_mem_nil, or_false, not_or] at hb
  rw [verbatim, bind_ok hpeek]
  simp only [hb, if_false]
  exact map_ok _ h

end numerals

/-- With this much fuel, all that is read spells what was read, but for the filing. -/
structure Files (fuel : Nat) : Prop where
  value : ∀ depth bs w rest, value fuel depth bs = .ok (w, rest) → ∃ v, Spells bs v rest ∧ v.filed = w
  elements : ∀ depth isFirst bs ws rest, elements fuel depth isFirst bs = .ok (ws, rest) →
    ∃ vs, SpellsElements isFirst bs vs rest ∧ filedElements vs = ws
  members : ∀ depth isFirst before bs ws rest, members fuel depth isFirst before bs = .ok (ws, rest) →
    ∃ ms, SpellsMembers isFirst bs ms rest ∧ filedMembers before ms = ws

theorem files_zero : Files 0 := ⟨nofun, nofun, nofun⟩

variable {fuel : Nat}

theorem Files.value_step (ih : Files fuel) {depth : Nat} {bs rest : Bytes} {w : Value}
    (h : Reader.value (fuel + 1) depth bs = .ok (w, rest)) : ∃ v, Spells bs v rest ∧ v.filed = w := by
  rw [Reader.value] at h
  obtain ⟨o, t, hpeek, h⟩ := bind_eq_ok.mp h
  cases o with
  | none => cases h
  | some b =>
    simp only at h
    split at h
    · rename_i hb
      subst hb
      obtain ⟨_, t', hword, h⟩ := bind_eq_ok.mp h
      cases h
      exact ⟨.null, spells_null hpeek hword, by simp only [Value.filed]⟩
    split at h
    · rename_i hb
      subst hb
      obtain ⟨_, t', hword, h⟩ := bind_eq_ok.mp h
      cases h
      exact ⟨.boolean true, spells_true hpeek hword, by simp only [Value.filed]⟩
    split at h
    · rename_i hb
      subst hb
      obtain ⟨_, t', hword, h⟩ := bind_eq_ok.mp h
      cases h
      exact ⟨.boolean false, spells_false hpeek hword, by simp only [Value.filed]⟩
    split at h
    · rename_i hb
      subst hb
      obtain ⟨_, t', htake, h⟩ := bind_eq_ok.mp h
      cases htake
      obtain ⟨s, t'', hbody, heq⟩ := map_eq_ok.mp h
      cases heq
      exact ⟨.string s, spells_string hpeek hbody, by simp only [Value.filed]⟩
    split at h
    · rename_i hb
      subst hb
      split at h
      · cases h
      obtain ⟨_, t', htake, h⟩ := bind_eq_ok.mp h
      cases htake
      obtain ⟨ws, t'', helements, heq⟩ := map_eq_ok.mp h
      cases heq
      obtain ⟨vs, hvs, rfl⟩ := ih.elements _ _ _ _ _ helements
      exact ⟨.array vs, spells_array hpeek hvs, by simp only [Value.filed]⟩
    split at h
    · rename_i hb
      subst hb
      split at h
      · cases h
      obtain ⟨_, t', htake, h⟩ := bind_eq_ok.mp h
      cases htake
      obtain ⟨ws, t'', hmembers, heq⟩ := map_eq_ok.mp h
      cases heq
      obtain ⟨ms, hms, rfl⟩ := ih.members _ _ _ _ _ _ hmembers
      exact ⟨.object ms, spells_object hpeek hms, by simp only [Value.filed]⟩
    · obtain ⟨n, t', hnumber, heq⟩ := map_eq_ok.mp h
      cases heq
      exact ⟨.number n, spells_number hpeek (by simp [*]) hnumber, by simp only [Value.filed]⟩

theorem Files.elements_step (ih : Files fuel) {depth : Nat} {isFirst : Bool} {bs rest : Bytes} {ws : List Value}
    (h : Reader.elements (fuel + 1) depth isFirst bs = .ok (ws, rest)) :
    ∃ vs, SpellsElements isFirst bs vs rest ∧ filedElements vs = ws := by
  rw [Reader.elements] at h
  obtain ⟨isEnd, t₁, hsep, h⟩ := bind_eq_ok.mp h
  cases isEnd with
  | true =>
    obtain ⟨_, t₂, htake, h⟩ := bind_eq_ok.mp h
    cases htake
    cases h
    exact ⟨[], spellsElements_end hsep, by simp only [filedElements]⟩
  | false =>
    simp only [Bool.false_eq_true, if_false] at h
    obtain ⟨w, t₂, hvalue, h⟩ := bind_eq_ok.mp h
    obtain ⟨ws, t₃, helements, h⟩ := bind_eq_ok.mp h
    cases h
    obtain ⟨v, hv, rfl⟩ := ih.value _ _ _ _ hvalue
    obtain ⟨vs, hvs, rfl⟩ := ih.elements _ _ _ _ _ helements
    exact ⟨v :: vs, spellsElements_step hsep hv hvs, by simp only [filedElements]⟩

theorem Files.members_step (ih : Files fuel) {depth : Nat} {isFirst : Bool} {before : List (String × Value)}
    {bs rest : Bytes} {ws : List (String × Value)}
    (h : Reader.members (fuel + 1) depth isFirst before bs = .ok (ws, rest)) :
    ∃ ms, SpellsMembers isFirst bs ms rest ∧ filedMembers before ms = ws := by
  rw [Reader.members] at h
  obtain ⟨isEnd, t₁, hsep, h⟩ := bind_eq_ok.mp h
  cases isEnd with
  | true =>
    obtain ⟨_, t₂, htake, h⟩ := bind_eq_ok.mp h
    cases htake
    cases h
    exact ⟨[], spellsMembers_end hsep, by simp only [filedMembers]⟩
  | false =>
    simp only [Bool.false_eq_true, if_false] at h
    obtain ⟨_, t₂, hquote, h⟩ := bind_eq_ok.mp h
    obtain ⟨name, t₃, hname, h⟩ := bind_eq_ok.mp h
    obtain ⟨_, t₄, hcolon, h⟩ := bind_eq_ok.mp h
    obtain ⟨w, t₅, hvalue, h⟩ := bind_eq_ok.mp h
    obtain ⟨v, hv, rfl⟩ := ih.value _ _ _ _ hvalue
    obtain ⟨ms, hms, rfl⟩ := ih.members _ _ _ _ _ _ h
    exact ⟨(name, v) :: ms, spellsMembers_step hsep hquote hname hcolon hv hms, by simp only [filedMembers]⟩

theorem files (fuel : Nat) : Files fuel := by
  induction fuel with
  | zero => exact files_zero
  | succ fuel ih =>
    exact ⟨fun _ _ _ _ => ih.value_step, fun _ _ _ _ _ => ih.elements_step, fun _ _ _ _ _ _ => ih.members_step⟩

theorem echoes_anyValue : anyValue.Echoes fun v w => v.filed = w := fun _ _ _ h => (files _).value _ _ _ _ h

end Reader

/-- A text that is read as any value is also read as it stands, and the filing is all that sets them apart. -/
theorem Value.filed_ofTextVerbatim {text : String} {w : Value} (h : Value.ofBytes (Utf8.ofString text) = .ok w) :
    ∃ v, Value.ofTextVerbatim text = .ok v ∧ v.filed = w := Reader.echoes_anyValue.run h

end Keyring.Json
