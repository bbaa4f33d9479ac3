import Keyring.Proofs.Json.Record
import Mathlib.Data.List.TakeWhile

/-!
JSON texts taken as they stand: the members of an object in their order, and also several of one name. The
readers for values of a known form are measured against it. What a text spells is put together from its parts,
one rule for each kind of value.
-/
set_option autoImplicit false

namespace Keyring.Json

namespace Reader

mutual

def verbatim : (fuel : Nat) → Reader Value
  | 0 => fail .malformed
  | fuel + 1 => do
    match ← peek with
    | none => fail .malformed
    | some b =>
      if b = 0x6E then do nullWord; pure .null
      else if b = 0x74 then do trueWord; pure (.boolean true)
      else if b = 0x66 then do falseWord; pure (.boolean false)
      else if b = 0x22 then do take; .string <$> stringBody
      else if b = 0x5B then do take; .array <$> verbatimElements fuel true
      else if b = 0x7B then do take; .object <$> verbatimMembers fuel true
      else .number <$> number

def verbatimElements : (fuel : Nat) → (isFirst : Bool) → Reader (List Value)
  | 0, _ => fail .malformed
  | fuel + 1, isFirst => do
    if ← separate 0x5D isFirst then do take; pure []
    else do
      let x ← verbatim fuel
      let xs ← verbatimElements fuel false
      pure (x :: xs)

/-- Reads the members of an object up to its end, with what is their order and their names. -/
def verbatimMembers : (fuel : Nat) → (isFirst : Bool) → Reader (List (String × Value))
  | 0, _ => fail .malformed
  | fuel + 1, isFirst => do
    if ← separate 0x7D isFirst then do take; pure []
    else do
      mark 0x22
      let name ← stringBody
      mark 0x3A
      let x ← verbatim fuel
      let ms ← verbatimMembers fuel false
      pure ((name, x) :: ms)

end

end Reader

/-- A whole text as it stands. It has fewer parts than bytes. -/
def Value.ofTextVerbatim (text : String) : Except Fault Value :=
  Reader.run (fun bs => Reader.verbatim bs.length bs) (Utf8.ofString text)

namespace Reader

section consumption

variable {b : UInt8} {bs bs' rest : Bytes}

theorem peek_eq_some (h : peek bs = .ok (some b, bs')) : ∃ t, bs' = b :: t ∧ t.length < bs.length := by
  have hlength : (bs.dropWhile isSpace).length ≤ bs.length := List.length_dropWhile_le _ _
  unfold peek at h
  simp only [Except.ok.injEq, Prod.mk.injEq] at h
  obtain ⟨hhead, rfl⟩ := h
  cases hdrop : bs.dropWhile isSpace with
  | nil =>
    rw [hdrop] at hhead
    cases hhead
  | cons c t =>
    rw [hdrop] at hhead hlength
    cases hhead
    exact ⟨t, rfl, hlength⟩

theorem mark_eq_ok (h : mark b bs = .ok ((), rest)) : peek bs = .ok (some b, b :: rest) ∧ rest.length < bs.length := by
  obtain ⟨o, bs', hpeek, h⟩ := bind_eq_ok.mp h
  split at h
  · rename_i ho
    subst ho
    obtain ⟨t, rfl, hlength⟩ := peek_eq_some hpeek
    cases h
    exact ⟨hpeek, hlength⟩
  · cases h

theorem separate_eq_ok {closing : UInt8} {isFirst isEnd : Bool} (h : separate closing isFirst bs = .ok (isEnd, bs')) :
    bs'.length ≤ bs.length ∧ (isEnd = true → bs'.head? = some closing) := by
  have hdrop (u : Bytes) : (u.dropWhile isSpace).length ≤ u.length := List.length_dropWhile_le _ _
  obtain ⟨o, bs₁, hpeek, h⟩ := bind_eq_ok.mp h
  cases o with
  | none => cases h
  | some b =>
    obtain ⟨t, rfl, hlength⟩ := peek_eq_some hpeek
    simp only at h
    split at h
    · rename_i hb
      cases h
      exact ⟨hlength, fun _ => congrArg some hb⟩
    split at h
    · cases h
      exact ⟨hlength, nofun⟩
    split at h
    · obtain ⟨x, bs₂, htake, h⟩ := bind_eq_ok.mp h
      obtain ⟨o', bs₃, hpeek', h⟩ := bind_eq_ok.mp h
      cases htake
      cases hpeek'
      split at h
      · cases h
      · cases h
        exact ⟨Nat.le_trans (hdrop t) (Nat.le_of_lt hlength), nofun⟩
    · cases h

theorem literal_length {word : Bytes} (h : literal word bs = .ok ((), rest)) :
    bs.length = word.length + rest.length := by
  induction word generalizing bs with
  | nil =>
    cases h
    simp
  | cons b word ih =>
    cases bs with
    | nil => cases h
    | cons c bs =>
      simp only [literal] at h
      split at h
      · rw [List.length_cons, List.length_cons, ih h]
        omega
      · cases h

theorem map_snd_eq_ok {β γ δ : Type} {x : Except Fault (β × δ)} {g : β → γ} {y : γ} {d : δ}
    (h : x.map (fun r => (g r.1, r.2)) = .ok (y, d)) : ∃ z, x = .ok (z, d) := by
  cases x with
  | error fault => cases h
  | ok r =>
    cases h
    exact ⟨r.1, rfl⟩

theorem stringFrom_length {stage : Stage} {bytes : Bytes} (h : stringFrom stage bs = .ok (bytes, rest)) :
    rest.length < bs.length := by
  induction bs generalizing stage bytes with
  | nil => cases stage <;> cases h
  | cons b bs ih =>
    have hmore {stage : Stage} {bytes : Bytes} (h : stringFrom stage bs = .ok (bytes, rest)) :
        rest.length < (b :: bs).length := Nat.lt_succ_of_lt (ih h)
    cases stage with
    | plain =>
      rw [stringFrom] at h
      split at h
      · cases h
        exact Nat.lt_succ_self _
      split at h
      · exact hmore h
      split at h
      · cases h
      · exact (map_snd_eq_ok h).elim fun _ => hmore
    | escape =>
      rw [stringFrom] at h
      split at h
      · exact hmore h
      split at h
      · cases h
      · exact (map_snd_eq_ok h).elim fun _ => hmore
    | backslash high =>
      rw [stringFrom] at h
      split at h
      · exact hmore h
      · cases h
    | letter high =>
      rw [stringFrom] at h
      split at h
      · exact hmore h
      · cases h
    | digits count value high =>
      rw [stringFrom] at h
      split at h
      · cases h
      split at h
      · exact hmore h
      split at h
      · cases h
      · exact (map_snd_eq_ok h).elim fun _ => hmore

theorem stringBody_length {s : String} (h : stringBody bs = .ok (s, rest)) : rest.length < bs.length := by
  unfold stringBody at h
  split at h
  · cases h
  · rename_i hstring
    split at h
    · cases h
    · cases h
      exact stringFrom_length hstring

end consumption

/-- The text begins with the value as it stands, and the rest comes behind it. -/
def Spells (bs : Bytes) (v : Value) (rest : Bytes) : Prop :=
  rest.length < bs.length ∧ ∀ fuel, bs.length ≤ fuel + rest.length → verbatim fuel bs = .ok (v, rest)

def SpellsElements (isFirst : Bool) (bs : Bytes) (vs : List Value) (rest : Bytes) : Prop :=
  rest.length < bs.length ∧
    ∀ fuel, bs.length ≤ fuel + rest.length → verbatimElements fuel isFirst bs = .ok (vs, rest)

def SpellsMembers (isFirst : Bool) (bs : Bytes) (ms : List (String × Value)) (rest : Bytes) : Prop :=
  rest.length < bs.length ∧
    ∀ fuel, bs.length ≤ fuel + rest.length → verbatimMembers fuel isFirst bs = .ok (ms, rest)

section spelling

variable {bs bs₁ bs₂ bs₃ bs₄ rest t : Bytes} {isFirst : Bool}

/-- There is fuel for one step, and one less for what is in it. -/
theorem exists_fuel {fuel : Nat} (h : rest.length < bs.length) (hf : bs.length ≤ fuel + rest.length) :
    ∃ n, fuel = n + 1 ∧ bs.length ≤ n + 1 + rest.length := ⟨fuel - 1, by omega, by omega⟩

theorem Spells.of_step {v : Value} (hshort : rest.length < bs.length)
    (h : ∀ n, bs.length ≤ n + 1 + rest.length → verbatim (n + 1) bs = .ok (v, rest)) : Spells bs v rest := by
  refine ⟨hshort, fun fuel hf => ?_⟩
  obtain ⟨n, rfl, hn⟩ := exists_fuel hshort hf
  exact h n hn

theorem Spells.of_word {b : UInt8} {word : Bytes} {v : Value} (hpeek : peek bs = .ok (some b, t))
    (hword : literal word t = .ok ((), rest)) (hne : 0 < word.length)
    (hv : ∀ n, verbatim (n + 1) bs = (literal word >>= fun _ => pure v) t) : Spells bs v rest := by
  obtain ⟨t', rfl, hlength⟩ := peek_eq_some hpeek
  have hlong := literal_length hword
  simp only [List.length_cons] at hlong
  refine .of_step (by omega) fun n _ => ?_
  rw [hv, bind_ok hword]
  rfl

theorem spells_null (hpeek : peek bs = .ok (some 0x6E, t)) (h : nullWord t = .ok ((), rest)) :
    Spells bs .null rest := .of_word hpeek h (by decide) fun n => by
  rw [verbatim, bind_ok hpeek]
  rfl

theorem spells_true (hpeek : peek bs = .ok (some 0x74, t)) (h : trueWord t = .ok ((), rest)) :
    Spells bs (.boolean true) rest := .of_word hpeek h (by decide) fun n => by
  rw [verbatim, bind_ok hpeek]
  rfl

theorem spells_false (hpeek : peek bs = .ok (some 0x66, t)) (h : falseWord t = .ok ((), rest)) :
    Spells bs (.boolean false) rest := .of_word hpeek h (by decide) fun n => by
  rw [verbatim, bind_ok hpeek]
  rfl

theorem spells_string {s : String} (hpeek : peek bs = .ok (some 0x22, t)) (h : stringBody (t.drop 1) = .ok (s, rest)) :
    Spells bs (.string s) rest := by
  obtain ⟨t', rfl, hlength⟩ := peek_eq_some hpeek
  have hbody := stringBody_length h
  refine .of_step (Nat.lt_trans hbody hlength) fun n _ => ?_
  rw [verbatim, bind_ok hpeek]
  exact map_ok _ h

theorem spells_array {vs : List Value} (hpeek : peek bs = .ok (some 0x5B, t))
    (h : SpellsElements true (t.drop 1) vs rest) : Spells bs (.array vs) rest := by
  obtain ⟨t', rfl, hlength⟩ := peek_eq_some hpeek
  obtain ⟨hshort, h⟩ := h
  refine .of_step (Nat.lt_trans hshort hlength) fun n hn => ?_
  rw [verbatim, bind_ok hpeek]
  exact map_ok _ (h n (show t'.length ≤ _ by omega))

theorem spells_object {ms : List (String × Value)} (hpeek : peek bs = .ok (some 0x7B, t))
    (h : SpellsMembers true (t.drop 1) ms rest) : Spells bs (.object ms) rest := by
  obtain ⟨t', rfl, hlength⟩ := peek_eq_some hpeek
  obtain ⟨hshort, h⟩ := h
  refine .of_step (Nat.lt_trans hshort hlength) fun n hn => ?_
  rw [verbatim, bind_ok hpeek]
  exact map_ok _ (h n (show t'.length ≤ _ by omega))

theorem spellsElements_end (hsep : separate 0x5D isFirst bs = .ok (true, t)) :
    SpellsElements isFirst bs [] (t.drop 1) := by
  obtain ⟨hlength, hend⟩ := separate_eq_ok hsep
  obtain ⟨t', rfl⟩ : ∃ t', t = 0x5D :: t' := List.head?_eq_some_iff.mp (hend rfl)
  have hshort : (List.drop 1 (0x5D :: t')).length < bs.length := hlength
  refine ⟨hshort, fun fuel hf => ?_⟩
  obtain ⟨n, rfl, -⟩ := exists_fuel hshort hf
  rw [verbatimElements, bind_ok hsep]
  rfl

theorem spellsElements_step {v : Value} {vs : List Value} (hsep : separate 0x5D isFirst bs = .ok (false, bs₁))
    (hv : Spells bs₁ v bs₂) (hvs : SpellsElements false bs₂ vs rest) : SpellsElements isFirst bs (v :: vs) rest := by
  have hlength := (separate_eq_ok hsep).1
  obtain ⟨hvshort, hv⟩ := hv
  obtain ⟨hvsshort, hvs⟩ := hvs
  have hshort : rest.length < bs.length := by omega
  refine ⟨hshort, fun fuel hf => ?_⟩
  obtain ⟨n, rfl, hn⟩ := exists_fuel hshort hf
  rw [verbatimElements, bind_ok hsep]
  simp only [Bool.false_eq_true, if_false]
  rw [bind_ok (hv n (by omega)), bind_ok (hvs n (by omega))]
  rfl

theorem spellsMembers_end (hsep : separate 0x7D isFirst bs = .ok (true, t)) :
    SpellsMembers isFirst bs [] (t.drop 1) := by
  obtain ⟨hlength, hend⟩ := separate_eq_ok hsep
  obtain ⟨t', rfl⟩ : ∃ t', t = 0x7D :: t' := List.head?_eq_some_iff.mp (hend rfl)
  have hshort : (List.drop 1 (0x7D :: t')).length < bs.length := hlength
  refine ⟨hshort, fun fuel hf => ?_⟩
  obtain ⟨n, rfl, -⟩ := exists_fuel hshort hf
  rw [verbatimMembers, bind_ok hsep]
  rfl

theorem spellsMembers_step {name : String} {x : Value} {ms : List (String × Value)}
    (hsep : separate 0x7D isFirst bs = .ok (false, bs₁)) (hquote : mark 0x22 bs₁ = .ok ((), bs₂))
    (hname : stringBody bs₂ = .ok (name, bs₃)) (hcolon : mark 0x3A bs₃ = .ok ((), bs₄)) {bs₅ : Bytes}
    (hx : Spells bs₄ x bs₅) (hms : SpellsMembers false bs₅ ms rest) :
    SpellsMembers isFirst bs ((name, x) :: ms) rest := by
  have h₁ := (separate_eq_ok hsep).1
  have h₂ := (mark_eq_ok hquote).2
  have h₃ := stringBody_length hname
  have h₄ := (mark_eq_ok hcolon).2
  obtain ⟨hxshort, hx⟩ := hx
  obtain ⟨hmsshort, hms⟩ := hms
  have hshort : rest.length < bs.length := by omega
  refine ⟨hshort, fun fuel hf => ?_⟩
  obtain ⟨n, rfl, hn⟩ := exists_fuel hshort hf
  rw [verbatimMembers, bind_ok hsep]
  simp only [Bool.false_eq_true, if_false]
  rw [bind_ok hquote, bind_ok hname, bind_ok hcolon, bind_ok (hx n (by omega)), bind_ok (hms n (by omega))]
  rfl

end spelling
end Reader
end Keyring.Json
