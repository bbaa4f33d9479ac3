import Keyring.Proofs.Fleet.Deeds
import Keyring.Proofs.Snapshot.Content
import Mathlib.Data.List.Induction

/-!
Histories in which each entry fits those before it. What a manager has published can be read off its
history. Numbers are given in increasing order, and a snapshot with a number is listed after the number
has been given; where the store only evolves, what is published therefore reflects the store as it was
when any number up to the published one was given.
-/
set_option autoImplicit false

namespace Keyring

open Fleet Manager

namespace Manager.Published

def after (p : Published) : Deed → Published
  | .numbered _ => { p with nextGeneration := p.nextGeneration + 1 }
  | .installed generation s => { p with generation := generation, snapshot := s }
  | _ => p

/-- Whether the deed is that of a call made with this published, which leaves the store as given. -/
def Explains (p : Published) (store : Store) : Deed → Prop
  | .read s => s = p.snapshot
  | .numbered generation => generation = p.nextGeneration
  | .listed (.ok records) => records.Perm store.records
  | .handedIn new old (.ok ()) => new ∈ store.records ∧ ∀ o, old = some o → o ∈ store.records
  | .installed generation _ => p.generation ≤ generation
  | .discarded generation _ => generation < p.generation
  | _ => True

theorem generation_le_after {p : Published} {store : Store} {d : Deed} (h : p.Explains store d) :
    p.generation ≤ (p.after d).generation := by
  cases d with
  | installed generation s => exact h
  | _ => exact Nat.le_refl _

end Manager.Published

namespace Fleet

def deedsOf (job : Nat) (h : List Entry) : List Deed :=
  (h.filter fun e => e.job = job).map Entry.deed

def publishedAfter (manager : Nat) (h : List Entry) : Published :=
  ((h.filter fun e => e.manager = manager).map Entry.deed).foldl Published.after .fresh

structure Entry.Fits (past : List Entry) (e : Entry) : Prop where
  lawful : Lawful (deedsOf e.job past) e.deed
  explained : (publishedAfter e.manager past).Explains e.store e.deed
  manager : ∀ e' ∈ past, e'.job = e.job → e'.manager = e.manager

def Consistent (h : List Entry) : Prop :=
  ∀ past e more, h = past ++ e :: more → e.Fits past

theorem consistent_nil : Consistent [] := by
  intro past e more h
  simp at h

theorem Consistent.append {h : List Entry} (hc : Consistent h) {e : Entry} (he : e.Fits h) :
    Consistent (h ++ [e]) := by
  intro past e' more heq
  rcases List.eq_nil_or_concat more with rfl | ⟨more, last, rfl⟩
  · obtain ⟨rfl, h'⟩ := List.append_inj' heq rfl
    cases h'
    exact he
  · have heq' : h ++ [e] = (past ++ e' :: more) ++ [last] := by simpa using heq
    exact hc past e' more (List.append_inj' heq' rfl).1

theorem Consistent.left {h more : List Entry} (hc : Consistent (h ++ more)) : Consistent h := by
  intro past e rest heq
  exact hc past e (rest ++ more) (by simp [heq])

theorem Consistent.last {h : List Entry} {e : Entry} (hc : Consistent (h ++ [e])) : e.Fits h :=
  hc h e [] rfl

theorem deedsOf_append (job : Nat) (h h' : List Entry) :
    deedsOf job (h ++ h') = deedsOf job h ++ deedsOf job h' := by
  simp [deedsOf]

theorem deedsOf_single (job : Nat) (e : Entry) :
    deedsOf job [e] = if e.job = job then [e.deed] else [] := by
  by_cases he : e.job = job <;> simp [deedsOf, he]

theorem publishedAfter_single (manager : Nat) (h : List Entry) (e : Entry) :
    publishedAfter manager (h ++ [e]) = if e.manager = manager then
      (publishedAfter manager h).after e.deed else publishedAfter manager h := by
  by_cases he : e.manager = manager <;> simp [publishedAfter, he]

theorem entries_of_sublist {job : Nat} {h : List Entry} {ds : List Deed}
    (hs : ds.Sublist (deedsOf job h)) :
    ∃ es : List Entry, es.Sublist h ∧ es.map Entry.deed = ds ∧ ∀ e ∈ es, e.job = job := by
  obtain ⟨es, hes, rfl⟩ := List.sublist_map_iff.mp hs
  refine ⟨es, hes.trans List.filter_sublist, rfl, fun e he => ?_⟩
  simpa using (List.mem_filter.mp (hes.subset he)).2

theorem entries_of_three {job : Nat} {h : List Entry} {d₁ d₂ d₃ : Deed}
    (hs : [d₁, d₂, d₃].Sublist (deedsOf job h)) :
    ∃ e₁ e₂ e₃ : Entry, [e₁, e₂, e₃].Sublist h ∧ (e₁.deed = d₁ ∧ e₂.deed = d₂ ∧ e₃.deed = d₃) ∧
      ∀ e ∈ [e₁, e₂, e₃], e.job = job := by
  obtain ⟨es, hes, hmap, hjob⟩ := entries_of_sublist hs
  obtain ⟨e₁, es, rfl, h₁, hmap⟩ := List.map_eq_cons_iff.mp hmap
  obtain ⟨e₂, es, rfl, h₂, hmap⟩ := List.map_eq_cons_iff.mp hmap
  obtain ⟨e₃, es, rfl, h₃, hmap⟩ := List.map_eq_cons_iff.mp hmap
  obtain rfl := List.map_eq_nil_iff.mp hmap
  exact ⟨e₁, e₂, e₃, hes, ⟨h₁, h₂, h₃⟩, hjob⟩

theorem entry_of_mem {job : Nat} {h : List Entry} {d : Deed} (hd : d ∈ deedsOf job h) :
    ∃ e ∈ h, e.deed = d ∧ e.job = job := by
  obtain ⟨e, he, rfl⟩ := List.mem_map.mp hd
  obtain ⟨he, hj⟩ := List.mem_filter.mp he
  exact ⟨e, he, rfl, by simpa using hj⟩

theorem eq_or_sublist_of_mem {α : Type} {l : List α} {a b : α} (ha : a ∈ l) (hb : b ∈ l) :
    a = b ∨ [a, b].Sublist l ∨ [b, a].Sublist l := by
  obtain ⟨past, more, rfl⟩ := List.append_of_mem ha
  rcases List.mem_append.mp hb with h | h
  · refine .inr (.inr ?_)
    exact (List.singleton_sublist.mpr h).append (List.singleton_sublist.mpr List.mem_cons_self)
  · refine (List.mem_cons.mp h).imp Eq.symm fun h => .inl ?_
    exact ((List.singleton_sublist.mpr h).cons_cons a).trans (List.sublist_append_right past _)

theorem split_of_sublist {α : Type} {l l' : List α} {b : α} (h : (l ++ [b]).Sublist l') :
    ∃ past more, l' = past ++ b :: more ∧ l.Sublist past := by
  obtain ⟨r₁, r₂, rfl, h₁, h₂⟩ := List.append_sublist_iff.mp h
  obtain ⟨a, more, rfl⟩ := List.append_of_mem (List.singleton_sublist.mp h₂)
  exact ⟨r₁ ++ a, more, by simp, h₁.trans (List.sublist_append_left r₁ a)⟩

section consistent

variable {h more : List Entry}

theorem Consistent.fits (hc : Consistent h) {e : Entry} (he : e ∈ h) :
    ∃ past more, h = past ++ e :: more ∧ e.Fits past := by
  obtain ⟨past, more, rfl⟩ := List.append_of_mem he
  exact ⟨past, more, rfl, hc past e more rfl⟩

theorem Consistent.manager_eq (hc : Consistent h) {e e' : Entry} (he : e ∈ h) (he' : e' ∈ h)
    (hj : e'.job = e.job) : e'.manager = e.manager := by
  induction h using List.reverseRecOn with
  | nil => cases he
  | append_singleton past last ih =>
    rcases List.mem_append.mp he with h | h <;> rcases List.mem_append.mp he' with h' | h'
    · exact ih hc.left h h'
    · cases List.mem_singleton.mp h'
      exact (hc.last.manager e h hj.symm).symm
    · cases List.mem_singleton.mp h
      exact hc.last.manager e' h' hj
    · rw [List.mem_singleton.mp h, List.mem_singleton.mp h']

theorem Consistent.generation_le (hc : Consistent (h ++ more)) (m : Nat) :
    (publishedAfter m h).generation ≤ (publishedAfter m (h ++ more)).generation := by
  induction more using List.reverseRecOn with
  | nil => simp
  | append_singleton more e ih =>
    rw [← List.append_assoc] at hc ⊢
    refine Nat.le_trans (ih hc.left) ?_
    rw [publishedAfter_single]
    split
    · rename_i hm
      have hx := hc.last.explained
      rw [hm] at hx
      exact Published.generation_le_after hx
    · exact Nat.le_refl _

theorem one_le_nextGeneration (m : Nat) (h : List Entry) :
    1 ≤ (publishedAfter m h).nextGeneration := by
  induction h using List.reverseRecOn with
  | nil => exact Nat.le_refl 1
  | append_singleton past e ih =>
    rw [publishedAfter_single]
    split
    · cases e.deed <;> simp only [Published.after] <;> omega
    · exact ih

theorem nextGeneration_le (m : Nat) (h more : List Entry) :
    (publishedAfter m h).nextGeneration ≤ (publishedAfter m (h ++ more)).nextGeneration := by
  induction more using List.reverseRecOn with
  | nil => simp
  | append_singleton more e ih =>
    rw [← List.append_assoc, publishedAfter_single]
    split
    · cases e.deed <;> simp only [Published.after] <;> omega
    · exact ih

theorem Consistent.number_eq (hc : Consistent h) {e : Entry} (he : e ∈ h) {g : Nat}
    (hd : e.deed = .numbered g) :
    ∃ past more, h = past ++ e :: more ∧ g = (publishedAfter e.manager past).nextGeneration := by
  obtain ⟨past, more, rfl, hf⟩ := hc.fits he
  refine ⟨past, more, rfl, ?_⟩
  have hx := hf.explained
  rw [hd] at hx
  exact hx

theorem Consistent.one_le_number (hc : Consistent h) {e : Entry} (he : e ∈ h) {g : Nat}
    (hd : e.deed = .numbered g) : 1 ≤ g := by
  obtain ⟨past, _, _, rfl⟩ := hc.number_eq he hd
  exact one_le_nextGeneration _ _

theorem Consistent.number_lt (hc : Consistent h) {e : Entry} (he : e ∈ h) {g : Nat}
    (hd : e.deed = .numbered g) : g < (publishedAfter e.manager h).nextGeneration := by
  obtain ⟨past, more, rfl, rfl⟩ := hc.number_eq he hd
  have hlt : (publishedAfter e.manager past).nextGeneration <
      (publishedAfter e.manager (past ++ [e])).nextGeneration := by
    rw [publishedAfter_single, if_pos rfl, hd]
    exact Nat.lt_succ_self _
  have hle := nextGeneration_le e.manager (past ++ [e]) more
  rw [← List.append_cons] at hle
  omega

/-- Numbers of a manager are given in increasing order. -/
theorem Consistent.numbers_increase (hc : Consistent h) : h.Pairwise fun e e' =>
    e.manager = e'.manager → ∀ g g', e.deed = .numbered g → e'.deed = .numbered g' → g < g' := by
  induction h using List.reverseRecOn with
  | nil => exact .nil
  | append_singleton past last ih =>
    refine List.pairwise_append.mpr ⟨ih hc.left, List.pairwise_singleton _ _, ?_⟩
    intro e he e' he' hm g g' hd hd'
    cases List.mem_singleton.mp he'
    have hx := hc.last.explained
    rw [hd', ← hm] at hx
    rw [show g' = _ from hx]
    exact hc.left.number_lt he hd

theorem Consistent.finish_le (hc : Consistent h) {e : Entry} (he : e ∈ h) {g : Nat} {s : Snapshot}
    (hf : e.deed.finish? = some (g, s)) : g ≤ (publishedAfter e.manager h).generation := by
  obtain ⟨past, more, rfl, hfits⟩ := hc.fits he
  rw [List.append_cons] at hc ⊢
  refine Nat.le_trans ?_ (hc.generation_le e.manager)
  rw [publishedAfter_single, if_pos rfl]
  have hx := hfits.explained
  cases hd : e.deed with
  | installed g' s' =>
    rw [hd] at hf
    cases hf
    exact Nat.le_refl _
  | discarded g' s' =>
    rw [hd] at hf hx
    cases hf
    exact Nat.le_of_lt hx
  | _ =>
    rw [hd] at hf
    cases hf

theorem published_installed (m : Nat) (h : List Entry) :
    ((publishedAfter m h).generation = 0 ∧ (publishedAfter m h).snapshot = .empty) ∨
    ∃ e ∈ h, e.manager = m ∧
      e.deed = .installed (publishedAfter m h).generation (publishedAfter m h).snapshot := by
  induction h using List.reverseRecOn with
  | nil => exact .inl ⟨rfl, rfl⟩
  | append_singleton past e ih =>
    rw [publishedAfter_single]
    have hmem : ∀ e' ∈ past, e' ∈ past ++ [e] := fun e' he' => List.mem_append_left [e] he'
    split
    · rename_i hm
      cases hd : e.deed with
      | installed g s => exact .inr ⟨e, by simp, hm, hd⟩
      | _ => exact ih.imp_right fun ⟨e', he', h'⟩ => ⟨e', hmem e' he', h'⟩
    · exact ih.imp_right fun ⟨e', he', h'⟩ => ⟨e', hmem e' he', h'⟩

/-- Where a snapshot with a number comes from: the number is given at `start`, the records are listed
later, at `listing`, and opened under the setting observed at `opening`. -/
structure Origin (h : List Entry) (manager generation : Nat) (s : Snapshot)
    (start listing opening : Entry) : Prop where
  ordered : [start, listing, opening].Sublist h
  manager : start.manager = manager ∧ opening.manager = manager
  numbered : start.deed = .numbered generation
  opened : ∃ (records : List Record) (setting : Setting) (events : List Event),
    listing.deed = .listed (.ok records) ∧ opening.deed = .observed setting ∧
    records.Perm listing.store.records ∧
      Snapshot.ofRecords setting.encryptor records = (.ok s, events)

theorem Entry.Fits.prepared {past : List Entry} {e : Entry} (he : e.Fits past) {g : Nat}
    {s : Snapshot} (hf : e.deed.finish? = some (g, s)) : Prepared (deedsOf e.job past) g s := by
  have hl := he.lawful
  cases hd : e.deed with
  | installed g' s' =>
    rw [hd] at hf hl
    cases hf
    exact hl
  | discarded g' s' =>
    rw [hd] at hf hl
    cases hf
    exact hl
  | _ =>
    rw [hd] at hf
    cases hf

theorem Entry.Fits.origin {past : List Entry} {e : Entry} (he : e.Fits past) (hc : Consistent past)
    {g : Nat} {s : Snapshot} (hf : e.deed.finish? = some (g, s)) :
    ∃ start listing opening, Origin past e.manager g s start listing opening := by
  obtain ⟨earlier, records, setting, events, heq, ho⟩ := he.prepared hf
  have hs : [.numbered g, .listed (.ok records), .observed setting].Sublist
      (deedsOf e.job past) := by
    rw [heq]
    exact (List.prefix_append _ [.reported events]).sublist.trans (List.sublist_append_right _ _)
  obtain ⟨start, listing, opening, hes, ⟨hstart, hlisting, hopening⟩, hjob⟩ := entries_of_three hs
  have hm : ∀ e' ∈ [start, listing, opening], e'.manager = e.manager :=
    fun e' he' => he.manager e' (hes.subset he') (hjob e' he')
  obtain ⟨before, after, -, hlf⟩ := hc.fits (hes.subset (show listing ∈ _ by simp))
  have hperm := hlf.explained
  rw [hlisting] at hperm
  exact ⟨start, listing, opening, hes, ⟨hm start (by simp), hm opening (by simp)⟩, hstart, records,
    setting, events, hlisting, hopening, hperm, ho⟩

theorem Consistent.published_origin (hc : Consistent h) (m : Nat) :
    ((publishedAfter m h).generation = 0 ∧ (publishedAfter m h).snapshot = .empty) ∨
    ∃ start listing opening, Origin h m (publishedAfter m h).generation (publishedAfter m h).snapshot
      start listing opening := by
  rcases published_installed m h with h0 | ⟨e, he, rfl, hd⟩
  · exact .inl h0
  · obtain ⟨past, more, heq, hfits⟩ := hc.fits he
    obtain ⟨start, listing, opening, ho⟩ := hfits.origin (heq ▸ hc).left (by rw [hd]; rfl)
    refine .inr ⟨start, listing, opening, ?_, ho.manager, ho.numbered, ho.opened⟩
    exact heq ▸ ho.ordered.trans (List.sublist_append_left past _)

theorem Consistent.generation_lt (hc : Consistent h) (m : Nat) :
    (publishedAfter m h).generation < (publishedAfter m h).nextGeneration := by
  rcases hc.published_origin m with ⟨h0, -⟩ | ⟨start, listing, opening, ho⟩
  · have := one_le_nextGeneration m h
    omega
  · have hlt := hc.number_lt (ho.ordered.subset (by simp)) ho.numbered
    rwa [ho.manager.1] at hlt

/-- A number that is given later is at an entry that comes later. -/
theorem Consistent.evolves_of_number_le (hc : Consistent h)
    (hev : h.Pairwise fun e e' => e.store.EvolvesTo e'.store) {e e' : Entry} (he : e ∈ h)
    (he' : e' ∈ h) (hm : e.manager = e'.manager) {g g' : Nat} (hd : e.deed = .numbered g)
    (hd' : e'.deed = .numbered g') (hg : g ≤ g') : e.store.EvolvesTo e'.store := by
  rcases eq_or_sublist_of_mem he he' with rfl | hs | hs
  · exact .refl _
  · exact hev.forall_sublist hs
  · have := hc.numbers_increase.forall_sublist hs hm.symm g' g hd' hd
    omega

/-- The store has only evolved, so that what is published reflects the store as it was when any number
up to the published one was given. -/
theorem Consistent.reflects (hc : Consistent h)
    (hev : h.Pairwise fun e e' => e.store.EvolvesTo e'.store) {e : Entry} (he : e ∈ h) {g : Nat}
    (hd : e.deed = .numbered g)
    (hg : g ≤ (publishedAfter e.manager h).generation) :
    (publishedAfter e.manager h).snapshot.Reflects e.store := by
  rcases hc.published_origin e.manager with ⟨h0, _⟩ | ⟨start, listing, opening, ho⟩
  · have := hc.one_le_number he hd
    omega
  -- the published number is given at `start`, so not before `e`, and the listing is made after that
  obtain ⟨records, setting, events, -, -, hperm, hopen⟩ := ho.opened
  have hsub : [start, listing].Sublist h :=
    (List.sublist_append_left [start, listing] [opening]).trans ho.ordered
  have hstart := hc.evolves_of_number_le hev he
    (hsub.subset (by simp)) ho.manager.1.symm hd ho.numbered hg
  exact (Snapshot.reflects_of_listing hopen hperm).of_evolvesTo
    (hstart.trans (hev.forall_sublist hsub))

theorem Consistent.reflects_of_finish (hc : Consistent h)
    (hev : h.Pairwise fun e e' => e.store.EvolvesTo e'.store)
    {start fin : Entry} (hs : start ∈ h) (hf : fin ∈ h) (hm : fin.manager = start.manager) {g : Nat}
    {s : Snapshot} (hd : start.deed = .numbered g) (hd' : fin.deed.finish? = some (g, s)) :
    (publishedAfter start.manager h).snapshot.Reflects start.store :=
  hc.reflects hev hs hd (hm ▸ hc.finish_le hf hd')

end consistent

end Fleet
end Keyring
