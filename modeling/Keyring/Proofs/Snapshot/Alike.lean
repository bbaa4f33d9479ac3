import Keyring.Proofs.Snapshot.Content
import Mathlib.Data.List.Forall2

/-!
Stores and snapshots that differ in their secrets only: in the keys, and in the encryptors that the keys are
sealed with. Main statement: the snapshots of two such listings are again alike, and so are the failures to
take them and the reports.
-/
set_option autoImplicit false

namespace Keyring

inductive Agree {α β : Type} (related : α → β → Prop) : Except KeyError α → Except KeyError β → Prop where
  | error (error : KeyError) : Agree related (.error error) (.error error)
  | ok {x : α} {y : β} (h : related x y) : Agree related (.ok x) (.ok y)

theorem Agree.eq {α : Type} {x y : Except KeyError α} (h : Agree Eq x y) : x = y := by
  cases h with
  | error error => rfl
  | ok h => rw [h]

theorem Agree.refl {α : Type} (x : Except KeyError α) : Agree Eq x x := by
  cases x with
  | error error => exact .error error
  | ok x => exact .ok rfl

section options

variable {α β γ δ : Type} {R : α → β → Prop} {S : γ → δ → Prop} {o : Option α} {o' : Option β}

theorem rel_map {f : α → γ} {g : β → δ} (hfg : ∀ x y, R x y → S (f x) (g y)) (h : Option.Rel R o o') :
    Option.Rel S (o.map f) (o'.map g) := by
  cases h with
  | none => exact .none
  | some hxy => exact .some (hfg _ _ hxy)

theorem any_eq_of_rel {p : α → Bool} {q : β → Bool} (hpq : ∀ x y, R x y → p x = q y) (h : Option.Rel R o o') :
    o.any p = o'.any q := by
  cases h with
  | none => rfl
  | some hxy => exact hpq _ _ hxy

theorem isSome_eq_of_rel (h : Option.Rel R o o') : o.isSome = o'.isSome := by
  cases h <;> rfl

end options

theorem rel_mergeSort {α β : Type} {R : α → β → Prop} {le : α → α → Bool} {le' : β → β → Bool} {xs : List α}
    {ys : List β} (hle : ∀ x y x' y', R x y → R x' y' → le x x' = le' y y') (h : List.Forall₂ R xs ys) :
    List.Forall₂ R (xs.mergeSort le) (ys.mergeSort le') := by
  -- the two lists are the sides of a list of pairs, which is sorted in place of them
  obtain ⟨hlength, hzip⟩ := List.forall₂_iff_zip.mp h
  let sorted := (xs.zip ys).mergeSort fun p q => le p.1 q.1
  have hleft : sorted.map Prod.fst = xs.mergeSort le := by
    rw [List.map_mergeSort (s := le) fun _ _ _ _ => rfl, List.map_fst_zip (Nat.le_of_eq hlength)]
  have hright : sorted.map Prod.snd = ys.mergeSort le' := by
    rw [List.map_mergeSort (s := le') fun p hp q hq => hle _ _ _ _ (hzip hp) (hzip hq),
      List.map_snd_zip (Nat.le_of_eq hlength.symm)]
  rw [← hleft, ← hright, List.forall₂_map_left_iff, List.forall₂_map_right_iff, List.forall₂_same]
  exact fun p hp => hzip (List.mem_mergeSort.mp hp)

namespace Catalog

variable {κ α β : Type} [DecidableEq κ] {R : α → β → Prop} {key : α → κ} {key' : β → κ} {x : α} {y : β}
  {xs : List α} {ys : List β}

theorem rel_find? (hkey : ∀ x y, R x y → key x = key' y) (h : List.Forall₂ R xs ys) (k : κ) :
    Option.Rel R (find? key k xs) (find? key' k ys) := by
  induction h with
  | nil => exact .none
  | @cons a b as bs hab _ ih =>
    simp only [find?, List.find?_cons, hkey a b hab] at ih ⊢
    cases decide (key' b = k) with
    | true => exact .some hab
    | false => exact ih

theorem rel_put (hkey : ∀ x y, R x y → key x = key' y) (hx : R x y) (h : List.Forall₂ R xs ys) :
    List.Forall₂ R (put key x xs) (put key' y ys) := by
  induction h with
  | nil => exact .cons hx .nil
  | @cons a b as bs hab hmore ih =>
    simp only [put, hkey a b hab, hkey x y hx]
    split
    · exact .cons hx hmore
    · exact .cons hab ih

end Catalog

/-- The encryptors of two runs: both fail alike, or both do what those of the runs do. -/
structure Encryptor.Twin (e e' x x' : Encryptor) : Prop where
  encrypt : (∃ error, ∀ nonce plaintext, x.encrypt nonce plaintext = .error error ∧
    x'.encrypt nonce plaintext = .error error) ∨ (x.encrypt = e.encrypt ∧ x'.encrypt = e'.encrypt)
  decrypt : (∃ error, ∀ sealed, x.decrypt sealed = .error error ∧ x'.decrypt sealed = .error error) ∨
    (x.decrypt = e.decrypt ∧ x'.decrypt = e'.decrypt)

structure Record.Alike (e e' : Encryptor) (r r' : Record) : Prop where
  kid : r.kid = r'.kid
  alg : r.alg = r'.alg
  isActive : r.isActive = r'.isActive
  createdAt : r.createdAt = r'.createdAt
  expiresAt : r.expiresAt = r'.expiresAt
  opens : ∃ key, CachedKey.ofRecord e r = .ok key
  opens' : ∃ key, CachedKey.ofRecord e' r' = .ok key

structure CachedKey.Alike (e e' : Encryptor) (k k' : CachedKey) : Prop where
  record : Record.Alike e e' k.record k'.record
  kind : k.privateKey.alg = k.record.alg
  kind' : k'.privateKey.alg = k'.record.alg

structure Snapshot.Alike (e e' : Encryptor) (s s' : Snapshot) : Prop where
  keys : List.Forall₂ (CachedKey.Alike e e') s.keys s'.keys
  actives : List.Forall₂ (CachedKey.Alike e e') s.actives s'.actives

def Store.Alike (e e' : Encryptor) (s s' : Store) : Prop :=
  List.Forall₂ (Record.Alike e e') s.records s'.records

variable {e e' x x' : Encryptor}

namespace Record

variable {r r' q q' : Record}

theorem Alike.precedes (h : Alike e e' r r') (h' : Alike e e' q q') : r.Precedes q ↔ r'.Precedes q' := by
  simp only [Precedes, h.createdAt, h'.createdAt, h.kid, h'.kid]

theorem Alike.isExpiredAt (h : Alike e e' r r') (now : Time) : r.isExpiredAt now = r'.isExpiredAt now := by
  simp only [Record.isExpiredAt, h.expiresAt]

theorem ofRecord_deactivated (h : ∃ key, CachedKey.ofRecord e r = .ok key) :
    ∃ key, CachedKey.ofRecord e r.deactivated = .ok key := by
  obtain ⟨key, hkey⟩ := h
  obtain ⟨-, hkind, hder⟩ := CachedKey.ofRecord_eq_ok_iff.mp hkey
  exact ⟨⟨r.deactivated, key.privateKey⟩, CachedKey.ofRecord_eq_ok_iff.mpr ⟨rfl, hkind, hder⟩⟩

theorem Alike.deactivated (h : Alike e e' r r') : Alike e e' r.deactivated r'.deactivated :=
  ⟨h.kid, h.alg, rfl, h.createdAt, h.expiresAt, ofRecord_deactivated h.opens, ofRecord_deactivated h.opens'⟩

theorem rel_newestActive? (alg : Alg) {records records' : List Record}
    (h : List.Forall₂ (Alike e e') records records') :
    Option.Rel (Alike e e') (newestActive? alg records) (newestActive? alg records') := by
  have hfilter : List.Forall₂ (Alike e e') (records.filter fun r => r.alg = alg && r.isActive)
      (records'.filter fun r => r.alg = alg && r.isActive) := by
    refine List.rel_filter (fun r r' hr => ?_) h
    simp only [hr.alg, hr.isActive]
  refine List.rel_foldl (P := Option.Rel (Alike e e')) (fun best best' hbest r r' hr => ?_) .none hfilter
  cases hbest with
  | none => exact .some hr
  | some hb =>
    refine .some ?_
    simp only [later, hr.precedes hb]
    split
    · exact hb
    · exact hr

end Record

namespace CachedKey

variable {r r' : Record} {k k' : CachedKey}

theorem rel_ofRecord (hx : Encryptor.Twin e e' x x') (h : Record.Alike e e' r r') :
    Agree (Alike e e') (ofRecord x r) (ofRecord x' r') := by
  obtain ⟨error, hfail⟩ | ⟨hbase, hbase'⟩ := hx.decrypt
  · simp only [ofRecord, (hfail _).1, (hfail _).2]
    exact .error error
  · obtain ⟨key, hkey⟩ := h.opens
    obtain ⟨key', hkey'⟩ := h.opens'
    obtain ⟨rfl, hkind, -⟩ := ofRecord_eq_ok_iff.mp hkey
    obtain ⟨rfl, hkind', -⟩ := ofRecord_eq_ok_iff.mp hkey'
    simp only [ofRecord] at hkey hkey'
    simp only [ofRecord, hbase, hbase', hkey, hkey']
    exact .ok ⟨h, hkind, hkind'⟩

theorem Alike.logText (h : Alike e e' k k') : k.privateKey.logText = k'.privateKey.logText := by
  have hkind : k.privateKey.alg = k'.privateKey.alg := h.kind.trans (h.record.alg.trans h.kind'.symm)
  revert hkind
  cases k.privateKey <;> cases k'.privateKey <;> simp [PrivateKey.alg, PrivateKey.logText]

end CachedKey

namespace Snapshot

variable {s s' : Snapshot} {k k' : CachedKey}

theorem alike_empty : Alike e e' empty empty := ⟨.nil, .nil⟩

theorem Alike.get? (h : Alike e e' s s') (kid : String) :
    Option.Rel (CachedKey.Alike e e') (s.get? kid) (s'.get? kid) :=
  Catalog.rel_find? (fun _ _ hk => hk.record.kid) h.keys kid

theorem Alike.active? (h : Alike e e' s s') (alg : Alg) :
    Option.Rel (CachedKey.Alike e e') (s.active? alg) (s'.active? alg) :=
  Catalog.rel_find? (fun _ _ hk => hk.record.alg) h.actives alg

theorem Alike.size (h : Alike e e' s s') : s.size = s'.size := h.keys.length_eq

theorem Alike.kinds (h : Alike e e' s s') : (∀ k ∈ s.keys, k.privateKey.alg = k.record.alg) ∧
    ∀ k ∈ s'.keys, k.privateKey.alg = k.record.alg := by
  obtain ⟨hkeys, -⟩ := h
  generalize s.keys = ks, s'.keys = ks' at hkeys ⊢
  induction hkeys with
  | nil => exact ⟨nofun, nofun⟩
  | cons hk _ ih => exact ⟨List.forall_mem_cons.mpr ⟨hk.kind, ih.1⟩, List.forall_mem_cons.mpr ⟨hk.kind', ih.2⟩⟩

theorem rel_elect (hk : CachedKey.Alike e e' k k') {o o' : Option CachedKey}
    (ho : Option.Rel (CachedKey.Alike e e') o o') :
    CachedKey.Alike e e' (elect k o).1 (elect k' o').1 ∧ (elect k o).2 = (elect k' o').2 := by
  cases ho with
  | none => exact ⟨hk, rfl⟩
  | @some other other' hother =>
    have hsupersedes : k.Supersedes other ↔ k'.Supersedes other' := hother.record.precedes hk.record
    simp only [elect, hsupersedes, CachedKey.alg, CachedKey.kid, hk.record.alg, hk.record.kid, hother.record.kid]
    split
    · exact ⟨hk, rfl⟩
    · exact ⟨hother, rfl⟩

theorem Alike.add (h : Alike e e' s s') (hk : CachedKey.Alike e e' k k') :
    Alike e e' (s.add k).1 (s'.add k').1 ∧ (s.add k).2 = (s'.add k').2 := by
  have hkeys := Catalog.rel_put (fun _ _ h => h.record.kid) hk h.keys
  have hactive : k.isActive = k'.isActive := hk.record.isActive
  have halg : k.alg = k'.alg := hk.record.alg
  obtain ⟨hbest, hevents⟩ := rel_elect hk (h.active? k.alg)
  simp only [Snapshot.add, hactive]
  split
  · rw [halg] at hbest hevents ⊢
    exact ⟨⟨hkeys, Catalog.rel_put (fun _ _ h => h.record.alg) hbest h.actives⟩, hevents⟩
  · exact ⟨⟨hkeys, h.actives⟩, rfl⟩

theorem Alike.extend (hx : Encryptor.Twin e e' x x') {records records' : List Record}
    (hr : List.Forall₂ (Record.Alike e e') records records') (h : Alike e e' s s') :
    Agree (Alike e e') (s.extend x records).1 (s'.extend x' records').1 ∧
      (s.extend x records).2 = (s'.extend x' records').2 := by
  induction hr generalizing s s' with
  | nil => exact ⟨.ok h, rfl⟩
  | @cons r r' rs rs' hrecord _ ih =>
    have hopened := CachedKey.rel_ofRecord hx hrecord
    unfold Snapshot.extend
    generalize CachedKey.ofRecord x r = outcome, CachedKey.ofRecord x' r' = outcome' at hopened
    cases hopened with
    | error error => exact ⟨.error error, rfl⟩
    | ok hk =>
      obtain ⟨hadd, hevents⟩ := h.add hk
      obtain ⟨hmore, hlater⟩ := ih hadd
      exact ⟨hmore, by simp only [hevents, hlater]⟩

/-- What is told of a listing on opening it does not depend on the keys in it. -/
theorem rel_ofRecords (hx : Encryptor.Twin e e' x x') {records records' : List Record}
    (hr : List.Forall₂ (Record.Alike e e') records records') :
    Agree (Alike e e') (ofRecords x records).1 (ofRecords x' records').1 ∧
      (ofRecords x records).2 = (ofRecords x' records').2 := alike_empty.extend hx hr

end Snapshot

namespace Store

variable {s s' : Store} {r r' : Record}

theorem Alike.contains (h : Alike e e' s s') (kid : String) : s.contains kid = s'.contains kid :=
  isSome_eq_of_rel (Catalog.rel_find? (fun _ _ hr => hr.kid) h kid)

theorem Alike.insert (h : Alike e e' s s') (hr : Record.Alike e e' r r') : Alike e e' (s.insert r) (s'.insert r') :=
  Catalog.rel_put (fun _ _ h => h.kid) hr h

inductive SameOutcome (e e' : Encryptor) : Except StorageError Store → Except StorageError Store → Prop where
  | error (error : StorageError) : SameOutcome e e' (.error error) (.error error)
  | ok {s s' : Store} (h : Alike e e' s s') : SameOutcome e e' (.ok s) (.ok s')

theorem Alike.rotate (h : Alike e e' s s') {new new' : Record} (hnew : Record.Alike e e' new new')
    {old old' : Option Record} (hold : Option.Rel (Record.Alike e e') old old') :
    SameOutcome e e' (s.rotate new old) (s'.rotate new' old') := by
  cases hold with
  | none =>
    simp only [Store.rotate, h.contains, hnew.kid]
    split
    · exact .error _
    · exact .ok (h.insert hnew)
  | some ho =>
    simp only [Store.rotate, h.contains, hnew.kid, ho.kid]
    split
    · exact .error _
    · split
      · exact .error _
      · exact .ok ((h.insert ho).insert hnew)

end Store
end Keyring
