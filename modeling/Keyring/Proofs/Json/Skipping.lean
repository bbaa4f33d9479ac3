import Keyring.Proofs.Json.Scalars

set_option autoImplicit false

namespace Keyring.Json

namespace Reader

section marks

variable {c x : UInt8} {bs blank blank' rest t : Bytes} {isFirst : Bool}

theorem peek_blank (hblank : IsBlank blank) (hx : isSpace x = false) (t : Bytes) :
    peek (blank ++ x :: t) = .ok (some x, x :: t) := by
  have hdrop : (blank ++ x :: t).dropWhile isSpace = x :: t := by
    rw [List.dropWhile_append_of_pos hblank]
    simp [List.dropWhile, hx]
  simp [peek, hdrop]

theorem peek_append (hblank : IsBlank blank) (bs : Bytes) : peek (blank ++ bs) = peek bs := by
  simp only [peek, List.dropWhile_append_of_pos hblank]

theorem peek_bind_append {α : Type} {f : Option UInt8 → Reader α} (hblank : IsBlank blank) (bs : Bytes) :
    (peek >>= f) (blank ++ bs) = (peek >>= f) bs := by
  simp only [bind, StateT.bind, peek_append hblank]

theorem exists_peek {o : Option UInt8} (h : peek bs = .ok (o, t)) :
    ∃ blank, bs = blank ++ t ∧ IsBlank blank ∧ o = t.head? := by
  cases h
  refine ⟨bs.takeWhile isSpace, List.takeWhile_append_dropWhile.symm, fun b hb => ?_, rfl⟩
  exact List.mem_takeWhile_imp hb

theorem exists_peek_some (h : peek bs = .ok (some x, t)) :
    ∃ blank t', bs = blank ++ x :: t' ∧ IsBlank blank ∧ t = x :: t' := by
  obtain ⟨blank, rfl, hblank, hx⟩ := exists_peek h
  obtain ⟨t', rfl⟩ := List.head?_eq_some_iff.mp hx.symm
  exact ⟨blank, t', rfl, hblank, rfl⟩

theorem mark_blank (hblank : IsBlank blank) (hx : isSpace x = false) (t : Bytes) :
    mark x (blank ++ x :: t) = .ok ((), t) := by
  rw [mark, bind_ok (peek_blank hblank hx t)]
  simp [take]

theorem exists_mark (h : mark x bs = .ok ((), rest)) : ∃ blank, bs = blank ++ x :: rest ∧ IsBlank blank := by
  obtain ⟨blank, t, rfl, hblank, heq⟩ := exists_peek_some (mark_eq_ok h).1
  cases heq
  exact ⟨blank, rfl, hblank⟩

theorem separate_blank (hblank : IsBlank blank) (hc : isSpace c = false) (isFirst : Bool) (t : Bytes) :
    separate c isFirst (blank ++ c :: t) = .ok (true, c :: t) := by
  rw [separate, bind_ok (peek_blank hblank hc t)]
  simp

theorem separate_item (hblank : IsBlank blank) (hblank' : IsBlank blank') (hx : isSpace x = false) (hxc : x ≠ c)
    (hc : c ≠ 0x2C) (isFirst : Bool) (t : Bytes) :
    separate c isFirst (blank ++ (comma isFirst ++ (blank' ++ x :: t))) = .ok (false, x :: t) := by
  cases isFirst with
  | true =>
    have hboth : IsBlank (blank ++ blank') := fun b hb => (List.mem_append.mp hb).elim (hblank b) (hblank' b)
    have hpeek := peek_blank hboth hx t
    rw [List.append_assoc] at hpeek
    rw [comma, if_pos rfl, List.nil_append, separate, bind_ok hpeek]
    simp [hxc]
  | false =>
    have hpeek := peek_blank hblank (x := 0x2C) rfl (blank' ++ x :: t)
    have hpeek' := peek_blank hblank' hx t
    have htake (u : Bytes) : take (0x2C :: u) = .ok ((), u) := rfl
    rw [comma, if_neg (by decide), List.singleton_append, separate, bind_ok hpeek]
    simp only [Ne.symm hc, if_false, if_true, Bool.false_eq_true]
    rw [bind_ok (htake _), bind_ok hpeek', if_neg (by simpa using hxc)]
    rfl

theorem exists_separate {isEnd : Bool} (h : separate c isFirst bs = .ok (isEnd, t)) :
    (isEnd = true ∧ ∃ blank t', bs = blank ++ c :: t' ∧ IsBlank blank ∧ t = c :: t') ∨
    (isEnd = false ∧
      ∃ blank blank', bs = blank ++ (comma isFirst ++ (blank' ++ t)) ∧ IsBlank blank ∧ IsBlank blank') := by
  obtain ⟨o, u, hpeek, hread⟩ := bind_eq_ok.mp h
  cases o with
  | none => cases hread
  | some b =>
    obtain ⟨blank, t', rfl, hblank, rfl⟩ := exists_peek_some hpeek
    simp only at hread
    split at hread
    · rename_i hb
      subst hb
      cases hread
      exact .inl ⟨rfl, blank, t', rfl, hblank, rfl⟩
    split at hread
    · rename_i hfirst
      subst hfirst
      cases hread
      exact .inr ⟨rfl, blank, [], rfl, hblank, isBlank_nil⟩
    rename_i hfirst
    rw [Bool.not_eq_true] at hfirst
    subst hfirst
    split at hread
    · rename_i hb
      subst hb
      obtain ⟨_, t₁, htake, hnext⟩ := bind_eq_ok.mp hread
      cases htake
      obtain ⟨o', t₂, hpeek', hread⟩ := bind_eq_ok.mp hnext
      obtain ⟨blank', htail, hblank', -⟩ := exists_peek hpeek'
      split at hread
      · cases hread
      · cases hread
        refine .inr ⟨rfl, blank, blank', ?_, hblank, hblank'⟩
        exact congrArg (fun u => blank ++ 0x2C :: u) htail
    · cases hread

end marks
theorem exists_literal {word bs rest : Bytes} (h : literal word bs = .ok ((), rest)) : bs = word ++ rest := by
  induction word generalizing bs with
  | nil =>
    cases h
    rfl
  | cons b word ih =>
    cases bs with
    | nil => cases h
    | cons c bs =>
      simp only [literal] at h
      split at h
      · subst_vars
        exact congrArg _ (ih h)
      · cases h

section skipping

variable {bs u v rest : Bytes} {fuel : Nat} {part : Part}

def pass : Part → (fuel : Nat) → Reader Unit
  | .value, fuel => skip fuel
  | .elements isFirst, fuel => skipElements fuel isFirst
  | .members isFirst, fuel => skipMembers fuel isFirst

theorem skip_append {blank : Bytes} (hblank : IsBlank blank) (bs : Bytes) :
    skip fuel (blank ++ bs) = skip fuel bs := by
  cases fuel with
  | zero => rfl
  | succ fuel =>
    rw [skip]
    exact peek_bind_append hblank bs

theorem pass_isJson (h : IsJson part u) (hfuel : u.length ≤ fuel) (hrest : part = .value → EndsNumeral rest) :
    pass part fuel (u ++ rest) = .ok ((), rest) := by
  have htake (b : UInt8) (t : Bytes) : take (b :: t) = .ok ((), t) := rfl
  induction h generalizing fuel rest with
  | nullWord =>
    obtain ⟨k, rfl⟩ : ∃ k, fuel = k + 1 := ⟨fuel - 1, by simp only [List.length_cons] at hfuel; omega⟩
    exact (bind_ok (peek_cons rfl _)).trans (literal_append [0x6E, 0x75, 0x6C, 0x6C] rest)
  | trueWord =>
    obtain ⟨k, rfl⟩ : ∃ k, fuel = k + 1 := ⟨fuel - 1, by simp only [List.length_cons] at hfuel; omega⟩
    exact (bind_ok (peek_cons rfl _)).trans (literal_append [0x74, 0x72, 0x75, 0x65] rest)
  | falseWord =>
    obtain ⟨k, rfl⟩ : ∃ k, fuel = k + 1 := ⟨fuel - 1, by simp only [List.length_cons] at hfuel; omega⟩
    exact (bind_ok (peek_cons rfl _)).trans (literal_append [0x66, 0x61, 0x6C, 0x73, 0x65] rest)
  | numeral h =>
    obtain ⟨n, hn⟩ := numeral_append h
    obtain ⟨b, t, rfl, hb⟩ := h.head
    obtain ⟨hspace, hother⟩ := numeralHead hb
    obtain ⟨k, rfl⟩ : ∃ k, fuel = k + 1 := ⟨fuel - 1, by simp only [List.length_cons] at hfuel; omega⟩
    simp only [List.mem_cons, List.not_mem_nil, or_false, not_or] at hother
    rw [List.cons_append, pass, skip, bind_ok (peek_cons hspace _)]
    simp only [hother, if_false]
    exact bind_ok (hn rest (hrest rfl))
  | string h =>
    obtain ⟨k, rfl⟩ : ∃ k, fuel = k + 1 := ⟨fuel - 1, by simp only [List.length_cons] at hfuel; omega⟩
    exact (bind_ok (peek_cons rfl _)).trans ((bind_ok (htake _ _)).trans (skipStringBody_tail h rest))
  | array h ih =>
    simp only [List.length_cons] at hfuel
    obtain ⟨k, rfl⟩ : ∃ k, fuel = k + 1 := ⟨fuel - 1, by omega⟩
    exact (bind_ok (peek_cons rfl _)).trans ((bind_ok (htake _ _)).trans (ih (by omega) (by simp)))
  | object h ih =>
    simp only [List.length_cons] at hfuel
    obtain ⟨k, rfl⟩ : ∃ k, fuel = k + 1 := ⟨fuel - 1, by omega⟩
    exact (bind_ok (peek_cons rfl _)).trans ((bind_ok (htake _ _)).trans (ih (by omega) (by simp)))
  | @arrayEnd isFirst b hb =>
    obtain ⟨k, rfl⟩ : ∃ k, fuel = k + 1 := ⟨fuel - 1, by simp at hfuel; omega⟩
    rw [List.append_assoc]
    exact bind_ok (separate_blank hb (c := 0x5D) rfl isFirst rest)
  | @element isFirst b c v u hb hc hv h ihv ih =>
    have hlong := hv.length_pos
    have hlong' := h.length_pos
    simp only [List.length_append] at hfuel
    obtain ⟨k, rfl⟩ : ∃ k, fuel = k + 1 := ⟨fuel - 1, by omega⟩
    obtain ⟨x, t, rfl, hspace, hx⟩ := hv.value_head
    simp only [List.mem_cons, List.not_mem_nil, or_false, not_or] at hx
    simp only [List.append_assoc, List.cons_append]
    refine (bind_ok (separate_item hb hc hspace hx.1 (by decide) isFirst _)).trans ?_
    exact (bind_ok (ihv (by omega) fun _ => h.endsNumeral_elements rest)).trans (ih (by omega) (by simp))
  | @objectEnd isFirst b hb =>
    obtain ⟨k, rfl⟩ : ∃ k, fuel = k + 1 := ⟨fuel - 1, by simp at hfuel; omega⟩
    rw [List.append_assoc]
    exact bind_ok (separate_blank hb (c := 0x7D) rfl isFirst rest)
  | @member isFirst b c n d e v u hb hc hn hd he hv h ihv ih =>
    simp only [List.length_append, List.length_cons] at hfuel
    obtain ⟨k, rfl⟩ : ∃ k, fuel = k + 1 := ⟨fuel - 1, by omega⟩
    simp only [List.append_assoc, List.cons_append]
    refine (bind_ok (separate_item hb hc (x := 0x22) rfl (by decide) (by decide) isFirst _)).trans ?_
    refine (bind_ok (mark_cons rfl _)).trans ((bind_ok (skipStringBody_tail hn _)).trans ?_)
    have hvalue : pass .value k (v ++ (u ++ rest)) = .ok ((), u ++ rest) :=
      ihv (by omega) fun _ => h.endsNumeral_members rest
    rw [pass, ← skip_append he] at hvalue
    exact (bind_ok (mark_blank hd rfl _)).trans ((bind_ok hvalue).trans (ih (by omega) (by simp)))

/-- All that is passed over with this much fuel is in the grammar. -/
structure Passes (fuel : Nat) : Prop where
  value : ∀ bs rest, skip fuel bs = .ok ((), rest) →
    ∃ blank v, bs = blank ++ (v ++ rest) ∧ IsBlank blank ∧ IsJson .value v
  elements : ∀ isFirst bs rest, skipElements fuel isFirst bs = .ok ((), rest) →
    ∃ u, bs = u ++ rest ∧ IsJson (.elements isFirst) u
  members : ∀ isFirst bs rest, skipMembers fuel isFirst bs = .ok ((), rest) →
    ∃ u, bs = u ++ rest ∧ IsJson (.members isFirst) u

theorem Passes.value_step (ih : Passes fuel) (h : skip (fuel + 1) bs = .ok ((), rest)) :
    ∃ blank v, bs = blank ++ (v ++ rest) ∧ IsBlank blank ∧ IsJson .value v := by
  rw [skip] at h
  obtain ⟨o, t, hpeek, hread⟩ := bind_eq_ok.mp h
  cases o with
  | none => cases hread
  | some b =>
    obtain ⟨blank, t', rfl, hblank, rfl⟩ := exists_peek_some hpeek
    -- the first byte says which value it is
    suffices hv : ∃ v, b :: t' = v ++ rest ∧ IsJson .value v by
      obtain ⟨v, htext, hv⟩ := hv
      exact ⟨blank, v, by rw [htext], hblank, hv⟩
    simp only at hread
    split at hread
    · exact ⟨_, exists_literal hread, .nullWord⟩
    split at hread
    · exact ⟨_, exists_literal hread, .trueWord⟩
    split at hread
    · exact ⟨_, exists_literal hread, .falseWord⟩
    split at hread
    · subst_vars
      obtain ⟨_, t, htake, hbody⟩ := bind_eq_ok.mp hread
      cases htake
      obtain ⟨u, hu, htail⟩ := exists_skipStringBody hbody
      exact ⟨0x22 :: u, congrArg (0x22 :: ·) hu, .string htail⟩
    split at hread
    · subst_vars
      obtain ⟨_, t, htake, helements⟩ := bind_eq_ok.mp hread
      cases htake
      obtain ⟨u, hu, hjson⟩ := ih.elements _ _ _ helements
      exact ⟨0x5B :: u, congrArg (0x5B :: ·) hu, .array hjson⟩
    split at hread
    · subst_vars
      obtain ⟨_, t, htake, hmembers⟩ := bind_eq_ok.mp hread
      cases htake
      obtain ⟨u, hu, hjson⟩ := ih.members _ _ _ hmembers
      exact ⟨0x7B :: u, congrArg (0x7B :: ·) hu, .object hjson⟩
    · obtain ⟨n, t, hnumeral, heq⟩ := bind_eq_ok.mp hread
      cases heq
      obtain ⟨u, hu, hn⟩ := exists_numeral hnumeral
      exact ⟨u, hu, .numeral hn⟩

theorem Passes.elements_step (ih : Passes fuel) {isFirst : Bool}
    (h : skipElements (fuel + 1) isFirst bs = .ok ((), rest)) :
    ∃ u, bs = u ++ rest ∧ IsJson (.elements isFirst) u := by
  rw [skipElements] at h
  obtain ⟨isEnd, t, hsep, hread⟩ := bind_eq_ok.mp h
  rcases exists_separate hsep with ⟨rfl, blank, t', rfl, hblank, rfl⟩ | ⟨rfl, blank, blank', rfl, hblank, hblank'⟩
  · cases hread
    exact ⟨blank ++ [0x5D], by simp, .arrayEnd hblank⟩
  · obtain ⟨_, t', hitem, hmore⟩ := bind_eq_ok.mp hread
    obtain ⟨blank'', v, rfl, hblank'', hv⟩ := ih.value _ _ hitem
    obtain ⟨u, rfl, hu⟩ := ih.elements _ _ _ hmore
    refine ⟨_, ?_, .element hblank (hblank'.append hblank'') hv hu⟩
    simp

theorem Passes.members_step (ih : Passes fuel) {isFirst : Bool}
    (h : skipMembers (fuel + 1) isFirst bs = .ok ((), rest)) :
    ∃ u, bs = u ++ rest ∧ IsJson (.members isFirst) u := by
  rw [skipMembers] at h
  obtain ⟨isEnd, t, hsep, hread⟩ := bind_eq_ok.mp h
  rcases exists_separate hsep with ⟨rfl, blank, t', rfl, hblank, rfl⟩ | ⟨rfl, blank, blank', rfl, hblank, hblank'⟩
  · cases hread
    exact ⟨blank ++ [0x7D], by simp, .objectEnd hblank⟩
  · obtain ⟨_, t₁, hquote, hread₁⟩ := bind_eq_ok.mp hread
    obtain ⟨_, t₂, hname, hread₂⟩ := bind_eq_ok.mp hread₁
    obtain ⟨_, t₃, hcolon, hread₃⟩ := bind_eq_ok.mp hread₂
    obtain ⟨_, t₄, hitem, hmore⟩ := bind_eq_ok.mp hread₃
    obtain ⟨blank'', rfl, hblank''⟩ := exists_mark hquote
    obtain ⟨n, rfl, hn⟩ := exists_skipStringBody hname
    obtain ⟨d, rfl, hd⟩ := exists_mark hcolon
    obtain ⟨e, v, rfl, he, hv⟩ := ih.value _ _ hitem
    obtain ⟨u, rfl, hu⟩ := ih.members _ _ _ hmore
    refine ⟨_, ?_, .member hblank (hblank'.append hblank'') hn hd he hv hu⟩
    simp

theorem passes (fuel : Nat) : Passes fuel := by
  induction fuel with
  | zero => exact ⟨nofun, nofun, nofun⟩
  | succ fuel ih => exact ⟨fun _ _ => ih.value_step, fun _ _ _ => ih.elements_step, fun _ _ _ => ih.members_step⟩

theorem skipValue_isJson {blank : Bytes} (hblank : IsBlank blank) (h : IsJson .value v) (hrest : EndsNumeral rest) :
    skipValue (blank ++ (v ++ rest)) = .ok ((), rest) := by
  have hfuel : v.length ≤ 2 * (blank ++ (v ++ rest)).length + 1 := by
    simp only [List.length_append]
    omega
  rw [skipValue, skip_append hblank]
  exact pass_isJson h hfuel fun _ => hrest

theorem exists_skipValue (h : skipValue bs = .ok ((), rest)) :
    ∃ blank v, bs = blank ++ (v ++ rest) ∧ IsBlank blank ∧ IsJson .value v :=
  (passes _).value _ _ h

end skipping
end Reader
end Keyring.Json
