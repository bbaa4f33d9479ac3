import Keyring.Proofs.Except
import Keyring.Proofs.Snapshot.WellFormed
import Keyring.Proofs.Text.Order
import Keyring.Proofs.Fleet.Soundness
import Mathlib.Data.List.Sort

/-!
What a snapshot answers, told by the listing that it is made from: which record cannot be opened first, and
otherwise the last record of each id and the elected one of each algorithm. Main statement: these are the
answers of a snapshot of any listing, and those of records of distinct ids do not depend on their order.
-/
set_option autoImplicit false

namespace Keyring

/-- The order of records by the times of creation, and by the bytes of the ids where those are the same. -/
def Record.Before (a b : Record) : Prop :=
  a.createdAt < b.createdAt ∨ (a.createdAt = b.createdAt ∧ Utf8.ofString a.kid < Utf8.ofString b.kid)

theorem Record.precedes_iff_before {a b : Record} : a.Precedes b ↔ a.Before b := by
  rw [Precedes, Before, Utf8.ofString_lt_iff]

def Record.IsLastListed (records : List Record) (r : Record) : Prop :=
  ∃ former later, records = former ++ r :: later ∧ ∀ other ∈ later, other.kid ≠ r.kid

/-- An active record of the algorithm that comes after all active ones of it that are listed in front of it,
and before none of those behind it: the greatest of them, and of equal ones the first. -/
def Record.IsElected (alg : Alg) (records : List Record) (r : Record) : Prop :=
  (r.isActive = true ∧ r.alg = alg) ∧ ∃ former later, records = former ++ r :: later ∧
    (∀ other ∈ former, other.isActive = true ∧ other.alg = alg → other.Before r) ∧
    ∀ other ∈ later, other.isActive = true ∧ other.alg = alg → ¬ r.Before other

namespace Snapshot

variable {e : Encryptor} {alg : Alg}

/-- A record cannot be opened for a reason, and all listed in front of it can be opened. -/
def FirstFault (e : Encryptor) (records : List Record) (error : KeyError) : Prop :=
  ∃ former r later, records = former ++ r :: later ∧ (∀ r' ∈ former, ∃ k, CachedKey.ofRecord e r' = .ok k) ∧
    CachedKey.ofRecord e r = .error error

section opened

variable {rs : List Record} {ks : List CachedKey}

theorem opened_of_mem (h : List.Forall₂ (fun r k => CachedKey.ofRecord e r = .ok k) rs ks) {r : Record}
    (hr : r ∈ rs) : ∃ k, CachedKey.ofRecord e r = .ok k := by
  rw [← records_of_opened h] at hr
  obtain ⟨k, hk, rfl⟩ := List.mem_map.mp hr
  exact ⟨k, opened_self h k hk⟩

theorem opened_split_iff (h : List.Forall₂ (fun r k => CachedKey.ofRecord e r = .ok k) rs ks) {k : CachedKey}
    {P Q : Record → Prop} :
    (∃ former later, ks = former ++ k :: later ∧ (∀ other ∈ former, P other.record) ∧
      ∀ other ∈ later, Q other.record) ↔
    CachedKey.ofRecord e k.record = .ok k ∧ ∃ former later, rs = former ++ k.record :: later ∧
      (∀ other ∈ former, P other) ∧ ∀ other ∈ later, Q other := by
  have hself := opened_self h
  rw [← records_of_opened h]
  constructor
  · rintro ⟨former, later, rfl, hformer, hlater⟩
    refine ⟨hself k (by simp), former.map CachedKey.record, later.map CachedKey.record, by simp, ?_, ?_⟩
    · simpa using hformer
    · simpa using hlater
  · rintro ⟨hk, former, later, heq, hformer, hlater⟩
    obtain ⟨former, rest, rfl, rfl, hrest⟩ := List.map_eq_append_iff.mp heq
    obtain ⟨k', later, rfl, hrecord, rfl⟩ := List.map_eq_cons_iff.mp hrest
    -- the key is opened from the record, and there is one such
    have hk' := hself k' (by simp)
    rw [hrecord, hk] at hk'
    cases hk'
    exact ⟨former, later, rfl, by simpa using hformer, by simpa using hlater⟩

end opened

section faults

variable {r : Record} {rs : List Record} {error : KeyError}

theorem firstFault_cons_of_error {fault : KeyError} (h : CachedKey.ofRecord e r = .error fault) :
    FirstFault e (r :: rs) error ↔ error = fault := by
  constructor
  · rintro ⟨former, r', later, heq, hopen, hfault⟩
    cases former with
    | nil =>
      obtain ⟨rfl, -⟩ := List.cons.inj heq
      exact Except.error.inj (hfault.symm.trans h)
    | cons r₀ former =>
      obtain ⟨rfl, -⟩ := List.cons.inj heq
      obtain ⟨k, hk⟩ := hopen r List.mem_cons_self
      rw [h] at hk
      cases hk
  · rintro rfl
    exact ⟨[], r, rs, rfl, nofun, h⟩

theorem firstFault_cons_of_ok {k : CachedKey} (h : CachedKey.ofRecord e r = .ok k) :
    FirstFault e (r :: rs) error ↔ FirstFault e rs error := by
  constructor
  · rintro ⟨former, r', later, heq, hopen, hfault⟩
    cases former with
    | nil =>
      obtain ⟨rfl, -⟩ := List.cons.inj heq
      rw [h] at hfault
      cases hfault
    | cons r₀ former =>
      obtain ⟨-, rfl⟩ := List.cons.inj heq
      exact ⟨former, r', later, rfl, fun a ha => hopen a (List.mem_cons_of_mem r₀ ha), hfault⟩
  · rintro ⟨former, r', later, rfl, hopen, hfault⟩
    exact ⟨r :: former, r', later, rfl, List.forall_mem_cons.mpr ⟨⟨k, h⟩, hopen⟩, hfault⟩

theorem extend_eq_error_iff (s : Snapshot) : (s.extend e rs).1 = .error error ↔ FirstFault e rs error := by
  induction rs generalizing s with
  | nil => simp [extend, FirstFault]
  | cons r rs ih =>
    unfold extend
    cases h : CachedKey.ofRecord e r with
    | error fault => rw [firstFault_cons_of_error h, Except.error.injEq, eq_comm]
    | ok k => rw [firstFault_cons_of_ok h, ← ih]

theorem ofRecords_fails_iff : (∃ error, (ofRecords e rs).1 = .error error) ↔
    ∃ r ∈ rs, ∃ error, CachedKey.ofRecord e r = .error error := by
  constructor
  · rintro ⟨error, h⟩
    obtain ⟨former, r, later, rfl, -, hfault⟩ := (extend_eq_error_iff empty).mp h
    exact ⟨r, by simp, error, hfault⟩
  · rintro ⟨r, hr, hfault⟩
    refine exists_error_iff.mpr fun ⟨s, hs⟩ => exists_error_iff.mp hfault ?_
    obtain ⟨ks, hks, -⟩ := (extend_eq_ok_iff e empty s rs).mp hs
    exact opened_of_mem hks hr

end faults

section last

variable {kid : String} {k : CachedKey} {rs : List Record} {ks : List CachedKey}

theorem get?_addAll (ks : List CachedKey) (kid : String) :
    (empty.addAll ks).get? kid = ks.reverse.find? fun k => decide (k.kid = kid) := by
  induction ks using List.reverseRecOn with
  | nil => rfl
  | append_singleton ks k ih =>
    rw [List.reverse_append, List.reverse_singleton, List.singleton_append, List.find?_cons, ← ih]
    simp only [addAll, List.foldl_append, List.foldl_cons, List.foldl_nil, get?_add]
    by_cases h : k.kid = kid <;> simp [h]

theorem get?_addAll_eq_some_iff_last : (empty.addAll ks).get? kid = some k ↔ k.kid = kid ∧
    ∃ former later, ks = former ++ k :: later ∧ ∀ other ∈ later, other.kid ≠ kid := by
  rw [get?_addAll, List.find?_eq_some_iff_append]
  simp only [decide_eq_true_eq, Bool.not_eq_true', decide_eq_false_iff_not, List.reverse_eq_iff]
  refine and_congr_right fun _ => ⟨?_, ?_⟩
  · rintro ⟨later, former, rfl, hlater⟩
    exact ⟨former.reverse, later.reverse, by simp, by simpa using hlater⟩
  · rintro ⟨former, later, rfl, hlater⟩
    exact ⟨later.reverse, former.reverse, by simp, by simpa using hlater⟩

end last

section elected

variable {ks : List CachedKey}

/-- Of two places in a list one is in front of the other, unless they are the same. -/
theorem places_of_split {α : Type} {former later former' later' : List α} {a b : α}
    (h : former ++ a :: later = former' ++ b :: later') :
    a = b ∨ (a ∈ former' ∧ b ∈ later) ∨ (b ∈ former ∧ a ∈ later') := by
  rcases List.append_eq_append_iff.mp h with ⟨between, rfl, heq⟩ | ⟨between, rfl, heq⟩
  · cases between with
    | nil => exact .inl (List.cons.inj heq).1
    | cons c between =>
      obtain ⟨rfl, rfl⟩ := List.cons.inj heq
      exact .inr (.inl ⟨by simp, by simp⟩)
  · cases between with
    | nil => exact .inl (List.cons.inj heq).1.symm
    | cons c between =>
      obtain ⟨rfl, rfl⟩ := List.cons.inj heq
      exact .inr (.inr ⟨by simp, by simp⟩)

theorem Elects.unique {o o' : Option CachedKey} (h : Elects alg ks o) (h' : Elects alg ks o') : o = o' := by
  cases o with
  | none =>
    cases o' with
    | none => rfl
    | some k' =>
      obtain ⟨hk', former, later, rfl, -⟩ := h'
      exact absurd hk' (h k' (by simp))
  | some k =>
    obtain ⟨hk, former, later, rfl, hformer, hlater⟩ := h
    cases o' with
    | none => exact absurd hk (h' k (by simp))
    | some k' =>
      obtain ⟨hk', former', later', heq, hformer', hlater'⟩ := h'
      rcases places_of_split heq with rfl | ⟨hin, hbehind⟩ | ⟨hin, hbehind⟩
      · rfl
      · exact absurd (hformer' k hin hk) (hlater k' hbehind hk')
      · exact absurd (hformer k' hin hk') (hlater' k hbehind hk)

theorem active?_addAll_eq_iff {o : Option CachedKey} : (empty.addAll ks).active? alg = o ↔ Elects alg ks o :=
  ⟨fun h => h ▸ elects_addAll ks, (elects_addAll ks).unique⟩

end elected

/-- The answers of a snapshot of a listing. -/
structure Answers (e : Encryptor) (records : List Record) (s : Snapshot) : Prop where
  get : ∀ kid k, s.get? kid = some k ↔
    k.kid = kid ∧ CachedKey.ofRecord e k.record = .ok k ∧ k.record.IsLastListed records
  absent : ∀ kid, s.get? kid = none ↔ ∀ r ∈ records, r.kid ≠ kid
  active : ∀ alg k, s.active? alg = some k ↔
    CachedKey.ofRecord e k.record = .ok k ∧ k.record.IsElected alg records
  inactive : ∀ alg, s.active? alg = none ↔ ∀ r ∈ records, ¬ (r.isActive = true ∧ r.alg = alg)

theorem answers_of_ofRecords {records : List Record} {s : Snapshot} (h : (ofRecords e records).1 = .ok s) :
    s.Answers e records := by
  obtain ⟨ks, hks, rfl⟩ := (extend_eq_ok_iff e empty s records).mp h
  constructor
  case get =>
    intro kid k
    rw [get?_addAll_eq_some_iff_last]
    refine and_congr_right fun hkid => ?_
    have hsplit := opened_split_iff hks (k := k) (P := fun _ => True) (Q := fun r => r.kid ≠ k.record.kid)
    simpa [Record.IsLastListed, ← hkid, CachedKey.kid] using hsplit
  case absent =>
    intro kid
    rw [get?_addAll, List.find?_eq_none, ← records_of_opened hks, List.forall_mem_map]
    simp only [List.mem_reverse, decide_eq_true_eq]
    rfl
  case active =>
    intro alg k
    have hsplit := opened_split_iff hks (k := k)
      (P := fun r => r.isActive = true ∧ r.alg = alg → r.Before k.record)
      (Q := fun r => r.isActive = true ∧ r.alg = alg → ¬ k.record.Before r)
    simp only [active?_addAll_eq_iff, Elects, Record.IsElected, Record.precedes_iff_before]
    rw [and_left_comm, ← hsplit]
    rfl
  case inactive =>
    intro alg
    rw [active?_addAll_eq_iff, ← records_of_opened hks, List.forall_mem_map]
    rfl

theorem Agrees.kids_eq {s s' : Snapshot} (h : s.Agrees s') (hs : s.WellFormed) (hs' : s'.WellFormed) :
    s.kids = s'.kids := by
  have hmem (kid : String) : kid ∈ s.kids ↔ kid ∈ s'.kids := by rw [mem_kids_iff, mem_kids_iff, h.get]
  have hnodup {kids : List String} (hsorted : kids.Pairwise (· < ·)) : kids.Nodup :=
    hsorted.imp fun {a b} (hlt : a < b) (heq : a = b) => String.lt_irrefl b (heq ▸ hlt)
  exact ((List.perm_ext_iff_of_nodup (hnodup hs.sorted) (hnodup hs'.sorted)).mpr hmem).eq_of_pairwise
    (fun a b _ _ hab hba => absurd (String.lt_trans hab hba) (String.lt_irrefl a)) hs.sorted hs'.sorted

/-- Records of distinct ids have all the same answers in any other order, or cannot be opened in either. -/
theorem ofRecords_order_irrelevant {records others : List Record} (hp : others.Perm records)
    (hd : (records.map Record.kid).Nodup) :
    ((∃ error, (ofRecords e records).1 = .error error) ∧ ∃ error, (ofRecords e others).1 = .error error) ∨
      ∃ s s', (ofRecords e records).1 = .ok s ∧ (ofRecords e others).1 = .ok s' ∧ s.Agrees s' ∧
        s.kids = s'.kids ∧ s.size = s'.size := by
  by_cases hok : ∃ s, (ofRecords e records).1 = .ok s
  · obtain ⟨s, hs⟩ := hok
    obtain ⟨s', hs', hagrees⟩ := ofRecords_perm hs hp hd
    have hkids : s.kids = s'.kids := hagrees.kids_eq (wellFormed_ofRecords (Prod.ext hs rfl) hd)
      (wellFormed_ofRecords (Prod.ext hs' rfl) ((hp.map Record.kid).nodup_iff.mpr hd))
    exact .inr ⟨s, s', hs, hs', hagrees, hkids, by rw [← kids_length, hkids, kids_length]⟩
  · have hfault := exists_error_iff.mpr hok
    obtain ⟨r, hr, hunopened⟩ := ofRecords_fails_iff.mp hfault
    exact .inl ⟨hfault, ofRecords_fails_iff.mpr ⟨r, hp.mem_iff.mpr hr, hunopened⟩⟩

/-- A listing that has a record which cannot be opened gives the error of the first one. Any other one, with
whatever ids and active records in whatever order, gives a snapshot that answers for each id with the key of the
last record of it and for each algorithm with the key of the greatest active record of it, and of no others. So
the order of records of distinct ids does not count. -/
theorem answers_are_told_by_listing (e : Encryptor) (records : List Record) :
    (∀ error, (ofRecords e records).1 = .error error ↔ FirstFault e records error) ∧
    ((∃ error, (ofRecords e records).1 = .error error) ↔
      ∃ r ∈ records, ∃ error, CachedKey.ofRecord e r = .error error) ∧
    (∀ s, (ofRecords e records).1 = .ok s → s.Answers e records) ∧
    ∀ others : List Record, others.Perm records → (records.map Record.kid).Nodup →
      ((∃ error, (ofRecords e records).1 = .error error) ∧ ∃ error, (ofRecords e others).1 = .error error) ∨
      ∃ s s', (ofRecords e records).1 = .ok s ∧ (ofRecords e others).1 = .ok s' ∧ s.Agrees s' ∧
        s.kids = s'.kids ∧ s.size = s'.size :=
  ⟨fun _ => extend_eq_error_iff empty, ofRecords_fails_iff, fun _ => answers_of_ofRecords,
    fun _ => ofRecords_order_irrelevant⟩

/-- Of two records that were made at one moment the one with the greater id is active, in either order. -/
theorem greater_id_is_active_in_either_order :
    let a : Record := { Fleet.Sample.record with kid := "RS256_a" }
    let b : Record := { Fleet.Sample.record with kid := "RS256_b" }
    ∃ s s', (ofRecords .plain [a, b]).1 = .ok s ∧ (ofRecords .plain [b, a]).1 = .ok s' ∧
      s.Answers .plain [a, b] ∧ s.Agrees s' ∧ (s.active? .rs256).map CachedKey.kid = some "RS256_b" := by
  intro a b
  obtain ⟨-, hfails, hanswers, horders⟩ := answers_are_told_by_listing .plain [a, b]
  have hopen : [a, b].all (fun r => (CachedKey.ofRecord .plain r).isOk) = true := by decide +kernel
  have hactive : (ofRecords .plain [a, b]).1.toOption.bind
      (fun s => (s.active? .rs256).map CachedKey.kid) = some "RS256_b" := by decide +kernel
  rcases horders [b, a] (List.Perm.swap a b []) (by decide) with ⟨hfault, -⟩ | ⟨s, s', hs, hs', hagrees, -⟩
  · obtain ⟨r, hr, error, hfault⟩ := hfails.mp hfault
    have hok := List.all_eq_true.mp hopen r hr
    rw [hfault] at hok
    cases hok
  · rw [hs] at hactive
    exact ⟨s, s', hs, hs', hanswers s hs, hagrees, hactive⟩

end Snapshot
end Keyring
