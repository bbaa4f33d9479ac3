import Keyring.Proofs.Json.Record

set_option autoImplicit false

namespace Keyring.Json

open Reader

variable {α β : Type}

/-- The reader takes the text of the value for `x`, whatever comes behind it. -/
def Reader.Reads (r : Reader α) (v : Value) (x : α) : Prop :=
  ∀ rest, EndsNumeral rest → r (Utf8.encode v.text ++ rest) = .ok (x, rest)

namespace Reader

variable {r : Reader α} {v : Value} {x : α}

theorem Reads.map (g : α → β) (h : r.Reads v x) : (g <$> r).Reads v (g x) :=
  fun rest hrest => map_ok g (h rest hrest)

theorem Reads.bind {f : α → Reader β} {y : β} (h : r.Reads v x) (hf : f x = pure y) : (r >>= f).Reads v y := by
  intro rest hrest
  rw [bind_ok (h rest hrest), hf]
  rfl

theorem Reads.run (h : r.Reads v x) : r.run (Utf8.ofString v.toString) = .ok x := by
  have hread := h [] endsNumeral_nil
  rw [List.append_nil] at hread
  rw [Reader.run, Utf8.ofString, Value.toString, String.toList_ofList, hread]
  rfl

theorem reads_stringFor (expected s : String) : (stringFor expected).Reads (.string s) s := by
  intro rest _
  rw [Value.text]
  exact stringFor_text expected s rest

theorem reads_string (s : String) : string.Reads (.string s) s := reads_stringFor _ s

theorem reads_boolean (b : Bool) : boolean.Reads (.boolean b) b := by
  intro rest _
  cases b
  · exact (bind_ok (peek_cons rfl _)).trans (bind_ok (literal_append [0x66, 0x61, 0x6c, 0x73, 0x65] rest))
  · exact (bind_ok (peek_cons rfl _)).trans (bind_ok (literal_append [0x74, 0x72, 0x75, 0x65] rest))

theorem reads_choice {table : List (String × α)} {name : String}
    (h : table.find? (fun entry => entry.1 = name) = some (name, x)) :
    (choice table).Reads (.string name) x := by
  intro rest _
  have htake : take (0x22 :: (Utf8.encode (name.toList.flatMap escapeChar) ++ [0x22] ++ rest)) =
      .ok ((), Utf8.encode (name.toList.flatMap escapeChar) ++ 0x22 :: rest) := by simp [take]
  rw [Value.text, choice, encode_stringText, List.cons_append, bind_ok (peek_cons rfl _)]
  refine (bind_ok htake).trans ((bind_ok (stringBody_text name rest)).trans ?_)
  rw [choiceNamed, h]
  rfl

theorem reads_nullable_null (r : Reader α) : (nullable r).Reads .null none := by
  intro rest _
  exact (bind_ok (peek_cons rfl _)).trans (bind_ok (literal_append [0x6e, 0x75, 0x6c, 0x6c] rest))

theorem Reads.nullable {s : String} (h : r.Reads (.string s) x) : (nullable r).Reads (.string s) (some x) := by
  intro rest hrest
  have hread := h rest hrest
  rw [Value.text, encode_stringText, List.cons_append] at hread ⊢
  rw [Reader.nullable, bind_ok (peek_cons rfl _)]
  exact map_ok _ hread

def IsItem (v : Value) : Prop := ∃ b t, Utf8.encode v.text = b :: t ∧ isSpace b = false ∧ b ≠ 0x5D

theorem isItem_object (ms : List (String × Value)) : IsItem (.object ms) := by
  cases ms with
  | nil => exact ⟨0x7B, _, rfl, by decide, by decide⟩
  | cons m ms =>
    obtain ⟨k, x⟩ := m
    exact ⟨0x7B, _, by rw [Value.text, encode_cons_ascii (by decide)]; rfl, by decide, by decide⟩

section list

variable {fuel : Nat} {isFirst : Bool} {bs bs₁ bs₂ rest : Bytes}

theorem listFrom_end : listFrom r (fuel + 1) isFirst (0x5D :: rest) = .ok ([], rest) := by
  rw [listFrom, bind_ok (separate_closing rfl isFirst)]
  rfl

theorem listFrom_step {xs : List α} (hsep : separate 0x5D isFirst bs = .ok (false, bs₁))
    (hx : r bs₁ = .ok (x, bs₂)) (hxs : listFrom r fuel false bs₂ = .ok (xs, rest)) :
    listFrom r (fuel + 1) isFirst bs = .ok (x :: xs, rest) := by
  rw [listFrom, bind_ok hsep]
  simp only [Bool.false_eq_true, if_false]
  rw [bind_ok hx, bind_ok hxs]
  rfl

theorem listFrom_elementsText {vs : List Value} {xs : List α} (h : List.Forall₂ r.Reads vs xs)
    (hitem : ∀ v ∈ vs, IsItem v) (hf : (Utf8.encode (elementsText vs)).length ≤ fuel) (rest : Bytes) :
    listFrom r fuel false (Utf8.encode (elementsText vs) ++ rest) = .ok (xs, rest) := by
  induction h generalizing fuel with
  | nil =>
    obtain ⟨fuel, rfl⟩ : ∃ k, fuel = k + 1 := ⟨fuel - 1, by have : 1 ≤ fuel := hf; omega⟩
    exact listFrom_end
  | @cons v x vs xs hv hvs ih =>
    obtain ⟨b, t, hb, hspace, hend⟩ := hitem v List.mem_cons_self
    rw [elementsText, encode_cons_ascii (by decide), List.length_cons, Utf8.encode_append,
      List.length_append] at hf
    obtain ⟨fuel, rfl⟩ : ∃ k, fuel = k + 1 := ⟨fuel - 1, by omega⟩
    refine listFrom_step ?_ (hv _ (endsNumeral_elementsText vs rest))
      (ih (fun w hw => hitem w (List.mem_cons_of_mem v hw)) (by omega))
    rw [elementsText, encode_cons_ascii (by decide), Utf8.encode_append, List.cons_append, List.append_assoc, hb]
    exact separate_comma (by decide) hspace hend

theorem reads_list {vs : List Value} {xs : List α} (h : List.Forall₂ r.Reads vs xs)
    (hitem : ∀ v ∈ vs, IsItem v) : (list r).Reads (.array vs) xs := by
  intro rest _
  have htake (u : Bytes) : take (0x5B :: u) = .ok ((), u) := rfl
  cases h with
  | nil =>
    have htext : Utf8.encode (Value.array []).text ++ rest = 0x5B :: 0x5D :: rest := rfl
    rw [htext, list, bind_ok (peek_cons rfl _)]
    exact (bind_ok (htake _)).trans listFrom_end
  | @cons v x vs xs hv hvs =>
    obtain ⟨b, t, hb, hspace, hend⟩ := hitem v List.mem_cons_self
    have htext : Utf8.encode (Value.array (v :: vs)).text ++ rest =
        0x5B :: (Utf8.encode v.text ++ (Utf8.encode (elementsText vs) ++ rest)) := by
      rw [Value.text, encode_cons_ascii (by decide), Utf8.encode_append, List.cons_append, List.append_assoc]
      rfl
    rw [htext, list, bind_ok (peek_cons rfl _)]
    refine (bind_ok (htake _)).trans (listFrom_step ?_ (hv _ (endsNumeral_elementsText vs rest))
      (listFrom_elementsText hvs (fun w hw => hitem w (List.mem_cons_of_mem v hw)) ?_ rest))
    · rw [hb]
      exact separate_first hspace hend
    · simp only [List.length_append]
      omega

end list

end Reader

namespace Shape

variable {σ : Type} {s : Shape σ} {draft draft' draft'' : σ} {ms ms' : List (String × Value)}

theorem Takes.append (h : s.Takes draft ms draft') (h' : s.Takes draft' ms' draft'') :
    s.Takes draft (ms ++ ms') draft'' := by
  induction h with
  | nil draft => exact h'
  | cons m f hm hseen hread _ ih => exact .cons m f hm hseen hread (ih h')

theorem reads_object (h : s.Takes draft ms draft') (hmissing : s.missing? draft' = none) :
    (s.read draft).Reads (.object ms) draft' :=
  fun rest _ => read_object h hmissing rest

end Shape
end Keyring.Json
