set_option autoImplicit false

namespace Keyring.Catalog

variable {κ α : Type} [DecidableEq κ]

def find? (key : α → κ) (k : κ) (xs : List α) : Option α := xs.find? (fun x => key x = k)

def put (key : α → κ) (x : α) : List α → List α
  | [] => [x]
  | y :: ys => if key y = key x then x :: ys else y :: put key x ys

theorem find?_put_self (key : α → κ) (x : α) (xs : List α) :
    find? key (key x) (put key x xs) = some x := by
  induction xs with
  | nil => simp [find?, put]
  | cons y ys ih =>
    unfold put
    split
    · simp [find?]
    · rename_i h
      simpa [find?, List.find?_cons, h] using ih

theorem find?_put_of_ne (key : α → κ) (x : α) (k : κ) (xs : List α) (h : key x ≠ k) :
    find? key k (put key x xs) = find? key k xs := by
  induction xs with
  | nil => simp [find?, put, h]
  | cons y ys ih =>
    unfold put
    split
    · rename_i hy
      have hk : key y ≠ k := hy ▸ h
      simp [find?, h, hk]
    · simp only [find?, List.find?_cons] at ih ⊢
      split
      · rfl
      · exact ih

theorem mem_keys_put (key : α → κ) (x : α) (xs : List α) (k : κ) :
    k ∈ (put key x xs).map key ↔ k = key x ∨ k ∈ xs.map key := by
  induction xs with
  | nil => simp [put]
  | cons y ys ih =>
    unfold put
    split
    · rename_i h; simp [h]
    · simp only [List.map_cons, List.mem_cons, ih]
      constructor
      · rintro (h | h | h) <;> simp [h]
      · rintro (h | h | h) <;> simp [h]

theorem put_nodup (key : α → κ) (x : α) (xs : List α) (h : (xs.map key).Nodup) :
    ((put key x xs).map key).Nodup := by
  induction xs with
  | nil => simp [put]
  | cons y ys ih =>
    rw [List.map_cons, List.nodup_cons] at h
    unfold put
    split
    · rename_i hk
      rw [List.map_cons, List.nodup_cons, ← hk]
      exact h
    · rename_i hk
      rw [List.map_cons, List.nodup_cons]
      refine ⟨?_, ih h.2⟩
      rw [mem_keys_put]
      rintro (hy | hy)
      · exact hk hy
      · exact h.1 hy

end Keyring.Catalog
