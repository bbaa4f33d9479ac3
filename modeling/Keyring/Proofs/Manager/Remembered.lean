import Keyring.Proofs.Key.Verify
import Keyring.Proofs.Manager.Sequence
import Keyring.Proofs.Snapshot.Order

/-!
What a manager by itself does not lose. A key of the snapshot in use stays in use: its record stays in
the store, and whenever a later snapshot is taken it opens to the same private key.
-/
set_option autoImplicit false

namespace Keyring

namespace CachedKey

theorem privateKey_eq {e : Encryptor} {r r' : Record} {k k' : CachedKey} (h : ofRecord e r = .ok k)
    (h' : ofRecord e r' = .ok k') (hr : r'.encryptedKey = r.encryptedKey) :
    k'.privateKey = k.privateKey := by
  obtain ⟨-, -, der, hder, hkey⟩ := ofRecord_eq_ok_iff.mp h
  obtain ⟨-, -, der', hder', hkey'⟩ := ofRecord_eq_ok_iff.mp h'
  rw [hr, hder] at hder'
  cases hder'
  exact Except.ok.inj (hkey'.symm.trans hkey)

end CachedKey

theorem Record.BecameFrom.encryptedKey_eq {a b : Record} (h : b.BecameFrom a) :
    b.encryptedKey = a.encryptedKey := by rcases h with rfl | rfl <;> rfl

def Store.Retains (s s' : Store) : Prop := ∀ r ∈ s.records, ∃ r' ∈ s'.records, r'.BecameFrom r

theorem Store.retains_of_eq {s s' : Store} (h : s' = s) : s.Retains s' :=
  fun r hr => ⟨r, h ▸ hr, .refl r⟩

theorem Store.Retains.becameFrom {s s' : Store} (h : s.Retains s') {a : Record}
    (ha : ∃ r ∈ s.records, r.BecameFrom a) : ∃ r ∈ s'.records, r.BecameFrom a := by
  obtain ⟨r, hr, hbecame⟩ := ha
  obtain ⟨r', hr', hbecame'⟩ := h r hr
  exact ⟨r', hr', hbecame'.trans hbecame⟩

theorem Store.Retains.trans {s s' s'' : Store} (h : s.Retains s') (h' : s'.Retains s'') : s.Retains s'' :=
  fun r hr => h'.becameFrom (h r hr)

/-- The keys are opened from records that the store has retained, and the active ones are among them. -/
structure Snapshot.Backed (e : Encryptor) (s : Snapshot) (store : Store) : Prop where
  opened : ∀ k ∈ s.keys, CachedKey.ofRecord e k.record = .ok k
  retained : ∀ k ∈ s.keys, ∃ r ∈ store.records, r.BecameFrom k.record
  active : ∀ alg k, s.active? alg = some k → s.get? k.kid = some k

theorem Snapshot.backed_empty (e : Encryptor) (store : Store) : Snapshot.Backed e .empty store where
  opened := fun _ hk => absurd hk List.not_mem_nil
  retained := fun _ hk => absurd hk List.not_mem_nil
  active := by
    intro alg k hk
    cases hk

structure Snapshot.Holds (key : CachedKey) (s : Snapshot) (store : Store) : Prop where
  retained : ∃ r ∈ store.records, r.BecameFrom key.record
  found : ∃ k, s.get? key.kid = some k ∧ k.record.BecameFrom key.record ∧ k.privateKey = key.privateKey

theorem Snapshot.Backed.holds {e : Encryptor} {s : Snapshot} {store : Store} {alg : Alg} {k : CachedKey}
    (h : s.Backed e store) (hk : s.active? alg = some k) : s.Holds k store :=
  have hget := h.active alg k hk
  ⟨h.retained k (mem_of_get? hget).1, k, hget, .refl _, rfl⟩

namespace Manager

open Manager.Action

variable {outside : Outside} {e : Encryptor} {w w' v : World}

/-- There is one encryptor, which may fail at any moment. -/
def DecryptsWith (outside : Outside) (e : Encryptor) : Prop :=
  ∀ moment sealed plaintext, (outside moment).encryptor.decrypt sealed = .ok plaintext →
    e.decrypt sealed = .ok plaintext

theorem DecryptsWith.ofRecord (he : DecryptsWith outside e) {moment : Nat} {r : Record} {k : CachedKey}
    (h : CachedKey.ofRecord (outside moment).encryptor r = .ok k) : CachedKey.ofRecord e r = .ok k := by
  obtain ⟨hr, halg, der, hder, hkey⟩ := CachedKey.ofRecord_eq_ok_iff.mp h
  exact CachedKey.ofRecord_eq_ok_iff.mpr ⟨hr, halg, der, he moment _ _ hder, hkey⟩

theorem TakenBetween.backed {store : Store} {s : Snapshot} (h : TakenBetween outside w w' store s)
    (he : DecryptsWith outside e) : s.Backed e store := by
  obtain ⟨moment, records, events, -, -, hperm, hs⟩ := h
  refine ⟨fun k hk => ?_, fun k hk => ?_, fun alg k hk => ?_⟩
  · exact he.ofRecord (Snapshot.opened_of_mem_keys hs hk).2
  · exact ⟨k.record, hperm.mem_iff.mp (Snapshot.opened_of_mem_keys hs hk).1, .refl _⟩
  · have hdistinct := (hperm.map Record.kid).nodup_iff.mpr store.distinct
    exact Snapshot.get?_of_active? (congrArg Prod.fst hs) hdistinct hk

theorem TakenBetween.holds {store : Store} {s : Snapshot} {key : CachedKey}
    (h : TakenBetween outside w w' store s) (he : DecryptsWith outside e)
    (hkey : CachedKey.ofRecord e key.record = .ok key)
    (hr : ∃ r ∈ store.records, r.BecameFrom key.record) : s.Holds key store := by
  obtain ⟨moment, records, events, -, -, hperm, hs⟩ := h
  obtain ⟨r, hmem, hbecame⟩ := hr
  -- the listing has the record in its present form, whose encrypted key is still the same
  obtain ⟨k, hget, hk⟩ := (Snapshot.reflects_of_listing hs hperm).get r hmem
  have hopened := (Snapshot.opened_of_mem_keys hs (Snapshot.mem_of_get? hget).1).2
  have hkid : r.kid = key.kid := hbecame.kid_eq
  refine ⟨⟨r, hmem, hbecame⟩, k, hkid ▸ hget, hk.trans hbecame, ?_⟩
  exact CachedKey.privateKey_eq hkey (he.ofRecord hopened) (hk.trans hbecame).encryptedKey_eq

/-- What reloads and rotations have in common, wherever they stop. -/
structure Moved (outside : Outside) (w w' : World) : Prop where
  store : w.store.Retains w'.store
  published : w.published.Kept w'.published ∨
    ∃ s, TakenBetween outside w w' w'.store s ∧ w'.published = w.published.reloaded s

theorem Reloaded.moved {outcome : Except KeyError Unit} (h : Reloaded outside w outcome w') :
    Moved outside w w' := by
  refine ⟨Store.retains_of_eq h.store, ?_⟩
  rcases h.published with ⟨-, -, hkept⟩ | ⟨-, s, hs, hp⟩
  · exact .inl hkept
  · exact .inr ⟨s, h.store ▸ hs, hp⟩

theorem Rotated.moved {alg : Alg} {outcome : Except KeyError String} (h : Rotated outside alg w outcome w') :
    Moved outside w w' := by
  cases h with
  | refused error hs hp => exact ⟨Store.retains_of_eq hs, .inl (.of_eq hp)⟩
  | unpublished error new hs hkept => exact ⟨hs.evolves.kept, .inl hkept⟩
  | published new s hs htaken hp => exact ⟨hs.evolves.kept, .inr ⟨s, htaken, hp⟩⟩

theorem invariant_retains (outside : Outside) (store : Store) :
    Invariant outside fun v => store.Retains v.store where
  reloaded := fun hv h => hv.trans h.moved.store
  rotated := fun hv h => hv.trans h.moved.store

/-- A relation between snapshot and store that lasts: it stays true while the store retains its records,
and it is true again of each snapshot that is taken. -/
structure Lasting (outside : Outside) (holds : Snapshot → Store → Prop) : Prop where
  retained : ∀ {s store store'}, holds s store → store.Retains store' → holds s store'
  taken : ∀ {v v' s store s'}, holds s store → TakenBetween outside v v' store s' → holds s' store

namespace Lasting

variable {holds : Snapshot → Store → Prop}

theorem moved (h : Lasting outside holds)
    (hw : w.published.Settled ∧ holds w.published.snapshot w.store) (hm : Moved outside w w') :
    w'.published.Settled ∧ holds w'.published.snapshot w'.store := by
  have hretained := h.retained hw.2 hm.store
  rcases hm.published with hkept | ⟨s, hs, hp⟩
  · exact ⟨hw.1.of_kept hkept, hkept.snapshot ▸ hretained⟩
  · refine ⟨hp ▸ hw.1.reloaded s, ?_⟩
    rw [hp, hw.1.reloaded_eq]
    exact h.taken hretained hs

theorem invariant (h : Lasting outside holds) :
    Invariant outside fun w => w.published.Settled ∧ holds w.published.snapshot w.store where
  reloaded := fun hw hr => h.moved hw hr.moved
  rotated := fun hw hr => h.moved hw hr.moved

theorem reaches (h : Lasting outside holds) (hr : Reaches outside Store.Retains w v)
    (hw : w.published.Settled ∧ holds w.published.snapshot w.store) :
    v.published.Settled ∧ holds v.published.snapshot v.store :=
  h.invariant.reaches hr hw fun _ _ hv he => ⟨hv.1, h.retained hv.2 he⟩

end Lasting

theorem lasting_backed (he : DecryptsWith outside e) : Lasting outside (Snapshot.Backed e) where
  retained := fun h hretains => ⟨h.opened, fun k hk => hretains.becameFrom (h.retained k hk), h.active⟩
  taken := fun _ hs => hs.backed he

theorem lasting_holds (he : DecryptsWith outside e) {key : CachedKey}
    (hkey : CachedKey.ofRecord e key.record = .ok key) : Lasting outside (Snapshot.Holds key) where
  retained := fun h hretains => ⟨hretains.becameFrom h.retained, h.found⟩
  taken := fun h hs => hs.holds he hkey h.retained

theorem holds_of_active {store : Store} {alg : Alg} {key : CachedKey} (he : DecryptsWith outside e)
    (hw : Reaches outside Store.Retains (World.fresh store) w)
    (hkey : w.published.snapshot.active? alg = some key)
    (hv : Reaches outside Store.Retains w v) :
    CachedKey.ofRecord e key.record = .ok key ∧ v.published.snapshot.Holds key v.store := by
  obtain ⟨hsettled, hbacked⟩ :=
    (lasting_backed he).reaches hw ⟨Published.settled_fresh, Snapshot.backed_empty e store⟩
  have hopened := hbacked.opened key (Snapshot.mem_of_get? (hbacked.active alg key hkey)).1
  exact ⟨hopened, ((lasting_holds he hopened).reaches hv ⟨hsettled, hbacked.holds hkey⟩).2⟩

end Manager
end Keyring
