import Keyring.Proofs.Store.Handover
import Keyring.Store.Memory

/-!
The law of rotations. A store refuses one if the old record is not there, and else if the id of the new
one is taken; then nothing has changed. If it takes one in, nothing but those two records has changed.
-/
set_option autoImplicit false

namespace Keyring

theorem Catalog.length_put {κ α : Type} [DecidableEq κ] (key : α → κ) (x : α) (xs : List α) :
    (put key x xs).length = if (find? key (key x) xs).isSome then xs.length else xs.length + 1 := by
  induction xs with
  | nil => simp [put, find?]
  | cons y ys ih =>
    by_cases hy : key y = key x
    · simp [put, find?, hy]
    · simp only [find?] at ih
      simp only [put, find?, hy, List.find?_cons, decide_false, if_false, List.length_cons, ih]
      split <;> simp_all

namespace Store

variable {s s' : Store} {new : Record} {old : Option Record}

theorem get?_eq_some_iff {kid : String} {r : Record} : s.get? kid = some r ↔ r ∈ s.records ∧ r.kid = kid := by
  constructor
  · intro h
    exact ⟨List.mem_of_find?_eq_some h, by simpa using List.find?_some h⟩
  · rintro ⟨hr, rfl⟩
    obtain ⟨r', hr'⟩ := Option.isSome_iff_exists.mp (contains_of_mem hr)
    have hkid : r'.kid = r.kid := by simpa using List.find?_some hr'
    rw [hr', s.eq_of_kid_eq (List.mem_of_find?_eq_some hr') hr hkid]

theorem contains_eq_false_iff {kid : String} : s.contains kid = false ↔ s.get? kid = none := by
  simp [contains]

theorem size_insert (s : Store) (r : Record) :
    (s.insert r).size = if s.contains r.kid then s.size else s.size + 1 :=
  Catalog.length_put Record.kid r s.records

structure Filed (s : Store) (new : Record) (old : Option Record) (s' : Store) : Prop where
  get?_new : s'.get? new.kid = some new
  get?_old : ∀ o, old = some o → s'.get? o.kid = some o
  get?_other : ∀ kid, kid ≠ new.kid → (∀ o, old = some o → kid ≠ o.kid) → s'.get? kid = s.get? kid
  size_eq : s'.size = s.size + 1

theorem filed_insert (h : s.get? new.kid = none) : s.Filed new none (s.insert new) where
  get?_new := get?_insert_self s new
  get?_old := by simp
  get?_other := fun kid hkid _ => get?_insert_of_ne s new kid (Ne.symm hkid)
  size_eq := by simp [size_insert, contains, h]

theorem filed_insert_insert {o : Record} (ho : s.get? o.kid ≠ none) (h : s.get? new.kid = none) :
    s.Filed new (some o) ((s.insert o).insert new) := by
  have hne : o.kid ≠ new.kid := fun hk => ho (hk ▸ h)
  have hfree : (s.insert o).contains new.kid = false := by
    rw [contains_insert_of_ne hne, contains_eq_false_iff, h]
  have hstored : s.contains o.kid = true := by
    rwa [contains, Option.isSome_iff_ne_none]
  refine ⟨get?_insert_self _ new, ?_, ?_, by simp [size_insert, hfree, hstored]⟩
  · intro o' ho'
    cases ho'
    rw [get?_insert_of_ne _ new _ (Ne.symm hne), get?_insert_self]
  · intro kid hkid hother
    rw [get?_insert_of_ne _ new _ (Ne.symm hkid), get?_insert_of_ne _ o _ (Ne.symm (hother o rfl))]

/-- The three ways in which a rotation can end. -/
inductive Ended (s : Store) (new : Record) (old : Option Record) : Except StorageError Store → Prop where
  | missing {o : Record} (ho : old = some o) (h : s.get? o.kid = none) :
      Ended s new old (.error (.notFound o.kid))
  | taken (ho : ∀ o, old = some o → s.get? o.kid ≠ none) (h : s.get? new.kid ≠ none) :
      Ended s new old (.error (.conflict new.kid))
  | filed {s' : Store} (ho : ∀ o, old = some o → s.get? o.kid ≠ none) (h : s.get? new.kid = none)
      (hs : s.Filed new old s') : Ended s new old (.ok s')

theorem rotate_ended (s : Store) (new : Record) (old : Option Record) :
    s.Ended new old (s.rotate new old) := by
  have hkid (kid : String) : s.contains kid = (s.get? kid).isSome := rfl
  cases old with
  | none =>
    simp only [rotate, hkid]
    cases h : s.get? new.kid with
    | none => exact .filed (by simp) h (filed_insert h)
    | some r => exact .taken (by simp) (by simp [h])
  | some o =>
    simp only [rotate, hkid]
    cases ho : s.get? o.kid with
    | none => exact .missing rfl ho
    | some r =>
      have hstored : ∀ o', some o = some o' → s.get? o'.kid ≠ none := by simp [ho]
      cases h : s.get? new.kid with
      | none => exact .filed hstored h (filed_insert_insert (hstored o rfl) h)
      | some r' => exact .taken hstored (by simp [h])

theorem rotate_eq_notFound_iff {kid : String} : s.rotate new old = .error (.notFound kid) ↔
    ∃ o, old = some o ∧ o.kid = kid ∧ s.get? kid = none := by
  have hend := rotate_ended s new old
  generalize s.rotate new old = outcome at hend
  cases hend with
  | missing ho h =>
    subst ho
    simp only [Except.error.injEq, StorageError.notFound.injEq, Option.some.injEq, exists_eq_left']
    exact ⟨fun hk => ⟨hk, hk ▸ h⟩, fun hk => hk.1⟩
  | taken ho h =>
    simp only [Except.error.injEq, reduceCtorEq, false_iff]
    rintro ⟨o, hold, rfl, hnone⟩
    exact ho o hold hnone
  | filed ho h hs =>
    simp only [reduceCtorEq, false_iff]
    rintro ⟨o, hold, rfl, hnone⟩
    exact ho o hold hnone

theorem rotate_eq_conflict_iff {kid : String} : s.rotate new old = .error (.conflict kid) ↔
    (∀ o, old = some o → s.get? o.kid ≠ none) ∧ new.kid = kid ∧ s.get? kid ≠ none := by
  have hend := rotate_ended s new old
  generalize s.rotate new old = outcome at hend
  cases hend with
  | missing ho h =>
    simp only [Except.error.injEq, reduceCtorEq, false_iff]
    exact fun hk => hk.1 _ ho h
  | taken ho h =>
    simp only [Except.error.injEq, StorageError.conflict.injEq]
    exact ⟨fun hk => ⟨ho, hk, hk ▸ h⟩, fun hk => hk.2.1⟩
  | filed ho h hs =>
    simp only [reduceCtorEq, false_iff]
    rintro ⟨-, rfl, hstored⟩
    exact hstored h

namespace Memory

variable (m : Memory)

/-- A store is what the changes make of it, whichever of the handles on it they go through. -/
theorem stores_run (steps : List Step) (place : Nat) : (m.run steps).stores place =
    (changesAt place m steps).foldl (fun s c => (s.change c).2) (m.stores place) := by
  induction steps generalizing m with
  | nil => rfl
  | cons step more ih =>
    cases step with
    | clone handle target => exact ih (m.clone handle target)
    | change handle c =>
      have hmore := ih (m.change handle c).2
      rw [changesAt]
      split
      · rename_i hplace
        simpa [run, Memory.step, Memory.change, store, hplace] using hmore
      · rename_i hplace
        simpa [run, Memory.step, Memory.change, store, Ne.symm hplace] using hmore

theorem change_store (handle other : Nat) (c : Change) : (m.change handle c).2.store other =
    if m.places other = m.places handle then ((m.store handle).change c).2 else m.store other := by
  simp [Memory.change, store]

theorem change_of_unchanged {handle : Nat} {c : Change} (h : ((m.store handle).change c).2 = m.store handle) :
    (m.change handle c).2 = m := by
  obtain ⟨stores, places⟩ := m
  simp only [Memory.change, h, Memory.mk.injEq, and_true]
  funext place
  split
  · rename_i hplace
    rw [store, hplace]
  · rfl

theorem change_rotate_eq_error {handle : Nat} {error : StorageError} :
    (m.change handle (.rotate new old)).1 = .error error ↔ (m.store handle).rotate new old = .error error := by
  simp only [Memory.change, Store.change]
  cases (m.store handle).rotate new old <;> simp

theorem change_rotate_of_error {handle : Nat} {error : StorageError}
    (h : (m.store handle).rotate new old = .error error) : (m.change handle (.rotate new old)).2 = m :=
  m.change_of_unchanged (by simp [Store.change, h])

@[simp] theorem store_clone (handle target other : Nat) :
    (m.clone handle target).store other = if other = target then m.store handle else m.store other := by
  simp only [clone, store]
  split <;> rfl

theorem places_run {later : List Step} {handle : Nat} (h : ∀ source, .clone source handle ∉ later) :
    (m.run later).places handle = m.places handle := by
  induction later generalizing m with
  | nil => rfl
  | cons step later ih =>
    have hlater := ih (m.step step) fun source hmem => h source (List.mem_cons_of_mem _ hmem)
    refine hlater.trans ?_
    cases step with
    | clone source target =>
      refine if_neg ?_
      rintro rfl
      exact h source List.mem_cons_self
    | change other c => rfl

/-- Two handles that lead to one store: what is in it is seen through both, and a change does the same through
either. -/
structure Shared (m : Memory) (handle other : Nat) : Prop where
  store_eq : m.store other = m.store handle
  change_eq : ∀ c, m.change other c = m.change handle c

variable {m}

theorem shared_of_places {handle other : Nat} (h : m.places other = m.places handle) : m.Shared handle other where
  store_eq := congrArg m.stores h
  change_eq c := by simp only [Memory.change, store, h]

/-- A clone is not parted from what it was cloned from by anything that leaves the two handles where they lead. -/
theorem shared_clone {handle target : Nat} {later : List Step}
    (h : ∀ source, .clone source handle ∉ later ∧ .clone source target ∉ later) :
    ((m.clone handle target).run later).Shared handle target := by
  refine shared_of_places ?_
  rw [places_run _ fun source => (h source).1, places_run _ fun source => (h source).2]
  simp [clone]

/-- Whatever has been done to stores through whichever handles, a clone leads to the store of its handle, a
store has one record for each id in its listing, and a rotation files both of its records or neither. Which of
the two it is, and why, is told by the ids that the store has. -/
theorem rotations_file_both_or_neither (steps : List Step) (handle : Nat) :
    let m := fresh.run steps
    let s := m.store handle
    s = (changesAt (m.places handle) fresh steps).foldl (fun s c => (s.change c).2) .empty ∧
    (∀ target, (∀ other, (m.clone handle target).store other = if other = target then s else m.store other) ∧
      ∀ later, (∀ source, .clone source handle ∉ later ∧ .clone source target ∉ later) →
        ((m.clone handle target).run later).Shared handle target) ∧
    (∀ listing : List Record, listing.Perm s.records → (listing.map Record.kid).Nodup ∧
      ∀ kid r, s.get? kid = some r ↔ r ∈ listing ∧ r.kid = kid) ∧
    ∀ new old,
      let done := m.change handle (.rotate new old)
      (∀ kid, done.1 = .error (.notFound kid) ↔ ∃ o, old = some o ∧ o.kid = kid ∧ s.get? kid = none) ∧
      (∀ kid, done.1 = .error (.conflict kid) ↔
        (∀ o, old = some o → s.get? o.kid ≠ none) ∧ new.kid = kid ∧ s.get? kid ≠ none) ∧
      (done.2 = m ∧ (∃ kid, done.1 = .error (.notFound kid) ∨ done.1 = .error (.conflict kid)) ∨
        done.1 = .ok () ∧ ∃ s', s.Filed new old s' ∧
          ∀ other, done.2.store other = if m.places other = m.places handle then s' else m.store other) := by
  intro m s
  refine ⟨stores_run fresh steps (m.places handle), fun target => ⟨m.store_clone handle target, fun later => shared_clone⟩,
    fun listing hperm => ⟨?_, fun kid r => ?_⟩, ?_⟩
  · exact (hperm.map Record.kid).nodup_iff.mpr s.distinct
  · rw [get?_eq_some_iff, hperm.mem_iff]
  intro new old done
  refine ⟨fun kid => m.change_rotate_eq_error.trans rotate_eq_notFound_iff,
    fun kid => m.change_rotate_eq_error.trans rotate_eq_conflict_iff, ?_⟩
  have hend := rotate_ended s new old
  generalize houtcome : s.rotate new old = outcome at hend
  cases hend with
  | missing ho h =>
    exact .inl ⟨m.change_rotate_of_error houtcome, _, .inl (m.change_rotate_eq_error.mpr houtcome)⟩
  | taken ho h =>
    exact .inl ⟨m.change_rotate_of_error houtcome, _, .inr (m.change_rotate_eq_error.mpr houtcome)⟩
  | @filed s' ho h hs =>
    have hchange : s.change (.rotate new old) = (.ok (), s') := by simp [Store.change, houtcome]
    refine .inr ⟨congrArg Prod.fst hchange, s', hs, fun other => ?_⟩
    have hstore := m.change_store handle other (.rotate new old)
    rwa [show (m.store handle).change (.rotate new old) = (.ok (), s') from hchange] at hstore

def Sample.record (kid : String) : Record where
  kid := kid
  alg := .edDsa
  isActive := true
  createdAt := ⟨0, 0⟩
  expiresAt := none
  encryptedKey := ⟨[], []⟩

/-- The handle 1 is a clone of the handle 0, through which a record was filed before. -/
def Sample.cloned : List Step := [.change 0 (.insert (Sample.record "EdDSA_a")), .clone 0 1]

/-- A record filed through a handle is replaced through the clone, and then the id of the new one is taken for
both. -/
theorem clone_rotates_for_its_handle :
    let old := (Sample.record "EdDSA_a").deactivated
    let new := Sample.record "EdDSA_b"
    let done := (fresh.run Sample.cloned).change 1 (.rotate new (some old))
    done.1 = .ok () ∧ (done.2.store 0).get? "EdDSA_a" = some old ∧ (done.2.store 0).get? "EdDSA_b" = some new ∧
      done.2.store 2 = .empty ∧ (done.2.change 0 (.rotate new none)).1 = .error (.conflict "EdDSA_b") := by
  intro old new done
  obtain ⟨-, hclone, -⟩ := rotations_file_both_or_neither [.change 0 (.insert (Sample.record "EdDSA_a"))] 0
  obtain ⟨-, -, -, hrotate⟩ := rotations_file_both_or_neither Sample.cloned 1
  obtain ⟨hmissing, htaken, hdone⟩ := hrotate new (some old)
  have hshared : done.2.Shared 0 1 := (hclone 1).2 [.change 1 (.rotate new (some old))] (by simp)
  obtain ⟨hok, s', hfiled, hstores⟩ := hdone.resolve_left <| by
    rintro ⟨-, kid, h | h⟩
    · obtain ⟨o, ho, rfl, hnone⟩ := (hmissing kid).mp h
      cases ho
      revert hnone
      decide
    · obtain ⟨-, rfl, hstored⟩ := (htaken kid).mp h
      revert hstored
      decide
  have hstore : done.2.store 0 = s' := hshared.store_eq.symm.trans (hstores 1)
  have htwice := hshared.change_eq (.rotate new none)
  obtain ⟨-, -, -, hagain⟩ :=
    rotations_file_both_or_neither (Sample.cloned ++ [.change 1 (.rotate new (some old))]) 1
  refine ⟨hok, ?_, ?_, hstores 2, ?_⟩
  · rw [hstore]
    exact hfiled.get?_old old rfl
  · rw [hstore]
    exact hfiled.get?_new
  · rw [← htwice]
    refine ((hagain new none).2.1 "EdDSA_b").mpr ⟨nofun, rfl, ?_⟩
    show (done.2.store 1).get? new.kid ≠ none
    rw [hshared.store_eq, hstore, hfiled.get?_new]
    exact Option.some_ne_none new

end Memory
end Store
end Keyring
