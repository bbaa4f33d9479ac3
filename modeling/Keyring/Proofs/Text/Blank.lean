import Keyring.Text.Blank

set_option autoImplicit false

namespace Keyring.Text

def Surrounded (t s : List Char) : Prop :=
  ∃ before after, (∀ c ∈ before, isBlank c = true) ∧ (∀ c ∈ after, isBlank c = true) ∧ s = before ++ t ++ after

variable {s t : List Char}

theorem exists_skipBlank (s : List Char) : ∃ before, (∀ c ∈ before, isBlank c = true) ∧ s = before ++ skipBlank s := by
  refine ⟨s.takeWhile isBlank, fun c hc => ?_, List.takeWhile_append_dropWhile.symm⟩
  exact List.all_eq_true.mp List.all_takeWhile c hc

theorem surrounded_trim (s : List Char) : Surrounded (trim s) s := by
  obtain ⟨before, hbefore, hs⟩ := exists_skipBlank s
  obtain ⟨after, hafter, hrest⟩ := exists_skipBlank (skipBlank s).reverse
  have hskip : skipBlank s = trim s ++ after.reverse := by
    rw [trim, ← List.reverse_append, ← hrest, List.reverse_reverse]
  exact ⟨before, after.reverse, hbefore, by simpa using hafter, by rw [List.append_assoc, ← hskip, ← hs]⟩

theorem skipBlank_eq_self (h : ∀ c ∈ t, isBlank c = false) : skipBlank t = t := by
  cases t with
  | nil => rfl
  | cons c t => exact List.dropWhile_cons_of_neg (by simp [h c List.mem_cons_self])

theorem skipBlank_append {before : List Char} (h : ∀ c ∈ before, isBlank c = true) (rest : List Char) :
    skipBlank (before ++ rest) = skipBlank rest := List.dropWhile_append_of_pos h

theorem trim_of_surrounded (ht : ∀ c ∈ t, isBlank c = false) (h : Surrounded t s) : trim s = t := by
  obtain ⟨before, after, hbefore, hafter, rfl⟩ := h
  rw [trim, List.append_assoc, skipBlank_append hbefore]
  cases t with
  -- nothing but white space is left, and all of it is in front
  | nil =>
    have hnone := skipBlank_append hafter []
    rw [List.append_nil] at hnone
    rw [List.nil_append, hnone]
    rfl
  | cons c t =>
    have hfirst : skipBlank (c :: t ++ after) = c :: t ++ after :=
      List.dropWhile_cons_of_neg (by simp [ht c List.mem_cons_self])
    rw [hfirst, List.reverse_append, skipBlank_append (by simpa using hafter),
      skipBlank_eq_self fun d hd => ht d (List.mem_reverse.mp hd), List.reverse_reverse]

theorem trim_eq_iff (ht : ∀ c ∈ t, isBlank c = false) : trim s = t ↔ Surrounded t s :=
  ⟨fun h => h ▸ surrounded_trim s, trim_of_surrounded ht⟩

end Keyring.Text
