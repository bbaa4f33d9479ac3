import Keyring.Proofs.Fleet.History
import Keyring.Proofs.Fleet.Operations

/-!
What every move of a fleet keeps: its history is consistent and tells what is published and how far each
job has come. Without edits, the store only evolves.
-/
set_option autoImplicit false

namespace Keyring

open Fleet Manager

namespace Fleet

def Shared.entry (x : Shared) (job manager : Nat) (s : Setting) {β : Type} (c : Call β) : Entry where
  job := job
  manager := manager
  deed := .ofCall (x.published manager) c (x.perform job manager s c).1
  store := (x.perform job manager s c).2.store

@[simp] theorem entry_job (x : Shared) (job manager : Nat) (s : Setting) {β : Type} (c : Call β) :
    (x.entry job manager s c).job = job := rfl

theorem perform_history (x : Shared) (job manager : Nat) (s : Setting) {β : Type} (c : Call β) :
    (x.perform job manager s c).2.history = x.history ++ [x.entry job manager s c] := rfl

theorem perform_published (x : Shared) (job manager : Nat) (s : Setting) {β : Type} (c : Call β) :
    (x.perform job manager s c).2.published = fun m => if m = manager then
      (x.published manager).after (x.entry job manager s c).deed else x.published m := by
  cases c with
  | install g t =>
    by_cases hg : g < (x.published manager).generation
    · simp [Shared.entry, Shared.perform, Shared.world, Call.perform, Deed.ofCall,
        Published.install, Published.after, World.report, hg]
    · simp [Shared.entry, Shared.perform, Shared.world, Call.perform, Deed.ofCall,
        Published.install, Published.after, World.report, hg]
  | rotateStore new old =>
    simp only [Shared.entry, Shared.perform, Shared.world, Call.perform, Deed.ofCall,
      Published.after]
    split <;> rfl
  | _ => rfl

theorem perform_explains (x : Shared) (job manager : Nat) (s : Setting) {β : Type} (c : Call β) :
    (x.published manager).Explains (x.entry job manager s c).store
      (x.entry job manager s c).deed := by
  cases c with
  | install g t =>
    simp only [Shared.entry, Deed.ofCall]
    split
    · assumption
    · exact Nat.le_of_not_lt ‹_›
  | list =>
    simp only [Shared.entry, Shared.perform, Shared.world, Call.perform, Deed.ofCall, Setting.list]
    split
    · trivial
    · exact s.arrangement.perm _
  | rotateStore new old =>
    simp only [Shared.entry, Shared.perform, Shared.world, Call.perform, Deed.ofCall,
      Setting.rotate, World.fresh]
    cases s.rotateFault with
    | some error => trivial
    | none =>
      cases h : x.store.rotate new old with
      | error error => simp [Published.Explains]
      | ok store => simpa [ Published.Explains] using Store.mem_of_rotate h
  | _ => trivial

structure Sound (x : Fleet) : Prop where
  consistent : Consistent x.shared.history
  published : ∀ m, x.shared.published m = publishedAfter m x.shared.history
  follows : ∀ i job, x.jobs[i]? = some job →
    Action.Follows job.operation.action (deedsOf i x.shared.history) job.rest
  owned : ∀ e ∈ x.shared.history, ∃ job, x.jobs[e.job]? = some job ∧ job.manager = e.manager

theorem sound_fresh (store : Store) : Sound (fresh store) :=
  ⟨consistent_nil, fun _ => rfl, by simp [fresh], by simp [fresh]⟩

section advance

variable {x : Fleet} {i manager : Nat} {operation : Operation} {β : Type} {c : Call β}
  {next : β → Action Answer}

theorem advance_eq (h : x.jobs[i]? = some ⟨manager, operation, .call c next⟩) (s : Setting) :
    x.move (.advance i s) = ⟨(x.shared.perform i manager s c).2,
      x.jobs.set i ⟨manager, operation, next (x.shared.perform i manager s c).1⟩⟩ := by
  simp only [move, h]

/-- An advance of a job carries out its next call. It changes nothing if there is none. -/
theorem advance_cases (x : Fleet) (i : Nat) (s : Setting) :
    (x.move (.advance i s) = x ∧
      ∀ job, x.jobs[i]? = some job → ∃ outcome, job.rest = .done outcome) ∨
    ∃ manager operation, ∃ (β : Type) (c : Call β) (next : β → Action Answer),
      x.jobs[i]? = some ⟨manager, operation, .call c next⟩ := by
  cases h : x.jobs[i]? with
  | none => exact .inl ⟨by simp [move, h], by simp⟩
  | some job =>
    obtain ⟨manager, operation, rest⟩ := job
    cases rest with
    | done outcome => exact .inl ⟨by simp [move, h], by simp⟩
    | call c next => exact .inr ⟨manager, operation, _, c, next, rfl⟩

theorem Sound.manager_eq (hx : Sound x) {e : Entry} (he : e ∈ x.shared.history) {job : Job}
    (hj : x.jobs[e.job]? = some job) : e.manager = job.manager := by
  obtain ⟨job', hj', hm⟩ := hx.owned e he
  rw [hj] at hj'
  cases hj'
  exact hm.symm

theorem Sound.lawful (hx : Sound x) (h : x.jobs[i]? = some ⟨manager, operation, .call c next⟩)
    (p : Published) (answer : β) : Lawful (deedsOf i x.shared.history) (.ofCall p c answer) :=
  ((hx.follows i _ h).along (operation.alwaysLawful []) p answer).1

theorem Sound.fits (hx : Sound x) (h : x.jobs[i]? = some ⟨manager, operation, .call c next⟩)
    (s : Setting) : (x.shared.entry i manager s c).Fits x.shared.history := by
  refine ⟨hx.lawful h _ _, ?_, fun e he hj => ?_⟩
  · have hx' := perform_explains x.shared i manager s c
    rw [hx.published] at hx'
    exact hx'
  · rw [entry_job] at hj
    exact hx.manager_eq he (by rw [hj, h])

end advance

theorem sound_start {x : Fleet} (hx : Sound x) (manager : Nat) (operation : Operation) :
    Sound (x.move (.start manager operation)) := by
  have hnone : deedsOf x.jobs.length x.shared.history = [] := by
    simp only [deedsOf, List.map_eq_nil_iff, List.filter_eq_nil_iff, decide_eq_true_eq]
    intro e he hj
    obtain ⟨job, hjob, _⟩ := hx.owned e he
    simp [hj] at hjob
  refine ⟨hx.consistent, hx.published, ?_, ?_⟩
  · intro i job hi
    simp only [move] at hi
    rcases Nat.lt_trichotomy i x.jobs.length with hlt | rfl | hgt
    · rw [List.getElem?_append_left hlt] at hi
      exact hx.follows i job hi
    · simp at hi
      subst hi
      show Action.Follows _ (deedsOf _ x.shared.history) _
      rw [hnone]
      exact .start
    · rw [List.getElem?_eq_none (by simp; omega)] at hi
      cases hi
  · intro e he
    obtain ⟨job, hjob, hm⟩ := hx.owned e he
    refine ⟨job, ?_, hm⟩
    simp only [move]
    rw [List.getElem?_append_left (List.getElem?_eq_some_iff.mp hjob).1]
    exact hjob

theorem sound_advance {x : Fleet} (hx : Sound x) (i : Nat) (s : Setting) :
    Sound (x.move (.advance i s)) := by
  rcases advance_cases x i s with ⟨h, -⟩ | ⟨manager, operation, β, c, next, h⟩
  · rw [h]
    exact hx
  rw [advance_eq h]
  have hlt := (List.getElem?_eq_some_iff.mp h).1
  refine ⟨hx.consistent.append (hx.fits h s), ?_, ?_, ?_⟩
  · intro m
    simp only [perform_published, perform_history, publishedAfter_single, hx.published]
    by_cases hm : (x.shared.entry i manager s c).manager = m
    · rw [if_pos hm, if_pos (show m = manager from hm.symm)]
      cases hm
      rfl
    · rw [if_neg hm, if_neg (show ¬m = manager from Ne.symm hm)]
  · intro j job hj
    simp only [perform_history, deedsOf_append, deedsOf_single]
    by_cases hij : (x.shared.entry i manager s c).job = j
    · rw [if_pos hij]
      cases hij
      rw [entry_job, List.getElem?_set_self hlt] at hj
      cases hj
      exact .step _ _ (hx.follows i _ h)
    · rw [if_neg hij, List.append_nil]
      rw [List.getElem?_set_ne (show i ≠ j from hij)] at hj
      exact hx.follows j job hj
  · intro e he
    have howned : ∀ job, x.jobs[e.job]? = some job → job.manager = e.manager →
        ∃ job', (x.jobs.set i ⟨manager, operation, next (x.shared.perform i manager s c).1⟩)[e.job]? =
          some job' ∧ job'.manager = e.manager := by
      intro job hjob hm
      by_cases hij : i = e.job
      · refine ⟨_, by rw [← hij]; exact List.getElem?_set_self hlt, ?_⟩
        rw [← hij, h] at hjob
        cases hjob
        exact hm
      · exact ⟨job, by rw [List.getElem?_set_ne hij]; exact hjob, hm⟩
    rcases List.mem_append.mp he with he | he
    · obtain ⟨job, hjob, hm⟩ := hx.owned e he
      exact howned job hjob hm
    · cases List.mem_singleton.mp he
      exact howned _ h rfl

theorem sound_move {x : Fleet} (hx : Sound x) (mv : Move) : Sound (x.move mv) := by
  cases mv with
  | start manager operation => exact sound_start hx manager operation
  | advance i s => exact sound_advance hx i s
  | edit store => exact ⟨hx.consistent, hx.published, hx.follows, hx.owned⟩

theorem sound_run {x : Fleet} (hx : Sound x) (moves : List Move) : Sound (x.run moves) := by
  induction moves generalizing x with
  | nil => exact hx
  | cons mv moves ih => exact ih (sound_move hx mv)

def Move.isAdvanceOf (i : Nat) : Move → Bool
  | .advance j _ => j = i
  | _ => false

/-- A job stays with its manager and its operation, and each of its moves takes it nearer to its end. -/
theorem job_move {x : Fleet} {i m : Nat} {operation : Operation} {rest : Action Answer}
    (h : x.jobs[i]? = some ⟨m, operation, rest⟩) (mv : Move) :
    ∃ rest', (x.move mv).jobs[i]? = some ⟨m, operation, rest'⟩ ∧
      ∀ n, rest.Within n → rest'.Within (n - if mv.isAdvanceOf i then 1 else 0) := by
  cases mv with
  | edit store => exact ⟨rest, h, fun _ hn => hn⟩
  | start manager operation' =>
    refine ⟨rest, ?_, fun _ hn => hn⟩
    simp only [move]
    rw [List.getElem?_append_left (List.getElem?_eq_some_iff.mp h).1]
    exact h
  | advance j s =>
    rcases advance_cases x j s with ⟨hsame, hdone⟩ | ⟨manager, operation', β, c, next, hj⟩
    · refine ⟨rest, by rw [hsame]; exact h, fun n hn => ?_⟩
      by_cases hij : j = i
      · subst hij
        obtain ⟨outcome, rfl⟩ := hdone _ h
        trivial
      · simpa [Move.isAdvanceOf, hij] using hn
    · rw [advance_eq hj]
      by_cases hij : j = i
      · subst hij
        rw [h] at hj
        cases hj
        refine ⟨_, List.getElem?_set_self (List.getElem?_eq_some_iff.mp h).1, fun n hn => ?_⟩
        cases n with
        | zero => exact hn.elim
        | succ n => simpa [Move.isAdvanceOf] using hn _
      · refine ⟨rest, by rw [List.getElem?_set_ne hij]; exact h, fun n hn => ?_⟩
        simpa [Move.isAdvanceOf, hij] using hn

theorem job_run {x : Fleet} {i m : Nat} {operation : Operation} {rest : Action Answer}
    (h : x.jobs[i]? = some ⟨m, operation, rest⟩) (moves : List Move) :
    ∃ rest', (x.run moves).jobs[i]? = some ⟨m, operation, rest'⟩ ∧
      ∀ n, rest.Within n → rest'.Within (n - moves.countP (Move.isAdvanceOf i)) := by
  induction moves generalizing x rest with
  | nil => exact ⟨rest, h, fun _ hn => hn⟩
  | cons mv moves ih =>
    obtain ⟨rest', h', hn'⟩ := job_move h mv
    obtain ⟨rest'', h'', hn''⟩ := ih h'
    refine ⟨rest'', h'', fun n hn => ?_⟩
    rw [List.countP_cons, Nat.add_comm, ← Nat.sub_sub]
    exact hn'' _ (hn' n hn)

theorem history_move (x : Fleet) (mv : Move) : x.shared.history <+: (x.move mv).shared.history := by
  cases mv with
  | start manager operation => exact List.prefix_rfl
  | edit store => exact List.prefix_rfl
  | advance i s =>
    rcases advance_cases x i s with ⟨h, -⟩ | ⟨manager, operation, β, c, next, h⟩
    · simp [h]
    · rw [advance_eq h]
      exact List.prefix_append _ _

theorem history_run (x : Fleet) (moves : List Move) :
    x.shared.history <+: (x.run moves).shared.history := by
  induction moves generalizing x with
  | nil => exact List.prefix_rfl
  | cons mv moves ih => exact (history_move x mv).trans (ih (x.move mv))

/-- The store has only evolved from entry to entry, and since the last one. -/
structure Evolved (x : Fleet) : Prop where
  pairwise : x.shared.history.Pairwise fun e e' => e.store.EvolvesTo e'.store
  current : ∀ e ∈ x.shared.history, e.store.EvolvesTo x.shared.store

theorem Evolved.stored_of_listed {x : Fleet} (hev : Evolved x) (hx : Sound x) {i : Nat}
    {records : List Record} (hl : .listed (.ok records) ∈ deedsOf i x.shared.history) {r : Record}
    (hr : r ∈ records) : ∃ r' ∈ x.shared.store.records, r'.BecameFrom r := by
  obtain ⟨e, he, hd, -⟩ := entry_of_mem hl
  obtain ⟨past, more, heq, hf⟩ := hx.consistent.fits he
  have hx := hf.explained
  rw [hd] at hx
  exact (hev.current e he).kept r (hx.mem_iff.mp hr)

theorem perform_evolves {x : Fleet} (hx : Sound x) (hev : Evolved x) {i manager : Nat}
    {operation : Operation} {β : Type} {c : Call β} {next : β → Action Answer}
    (h : x.jobs[i]? = some ⟨manager, operation, .call c next⟩) (s : Setting) :
    x.shared.store.EvolvesTo (x.shared.perform i manager s c).2.store := by
  cases c with
  | rotateStore new old =>
    obtain ⟨hnew, hold⟩ := hx.lawful h .fresh (.ok ())
    simp only [Shared.perform, Shared.world, Call.perform, Setting.rotate, World.fresh]
    cases s.rotateFault with
    | some error => exact .refl _
    | none =>
      cases hs : x.shared.store.rotate new old with
      | error error => exact .refl _
      | ok store =>
        refine Store.rotate_evolves hs hnew fun o ho => ?_
        -- the rotation has listed the record that it puts out of use some time ago
        obtain ⟨records, hl, r, hr, halg, rfl⟩ := hold o ho
        obtain ⟨r', hr', hb⟩ := hev.stored_of_listed hx hl hr
        exact ⟨r', hr', hb.alg_eq.trans halg, hb.deactivated_eq.symm⟩
  | _ => exact .refl _

structure GrowsTo (x y : Fleet) : Prop where
  store : x.shared.store.EvolvesTo y.shared.store
  history : ∃ more, y.shared.history = x.shared.history ++ more ∧
    ∀ e ∈ more, x.shared.store.EvolvesTo e.store

theorem growsTo_move {x : Fleet} (hx : Sound x) (hev : Evolved x) {mv : Move}
    (hmv : mv.isEdit = false) : x.GrowsTo (x.move mv) ∧ Evolved (x.move mv) := by
  cases mv with
  | edit store => cases hmv
  | start manager operation => exact ⟨⟨.refl _, [], by simp [move]⟩, hev.pairwise, hev.current⟩
  | advance i s =>
    rcases advance_cases x i s with ⟨h, -⟩ | ⟨manager, operation, β, c, next, h⟩
    · rw [h]
      exact ⟨⟨.refl _, [], by simp⟩, hev⟩
    · rw [advance_eq h]
      have hstore := perform_evolves hx hev h s
      refine ⟨⟨hstore, [_], rfl, ?_⟩, ?_, ?_⟩
      · intro e he
        cases List.mem_singleton.mp he
        exact hstore
      · refine List.pairwise_append.mpr ⟨hev.pairwise, List.pairwise_singleton _ _, ?_⟩
        intro e he e' he'
        cases List.mem_singleton.mp he'
        exact (hev.current e he).trans hstore
      · intro e he
        rcases List.mem_append.mp he with he | he
        · exact (hev.current e he).trans hstore
        · cases List.mem_singleton.mp he
          exact .refl _

theorem evolved_fresh (store : Store) : Evolved (fresh store) := ⟨.nil, by simp [fresh]⟩

theorem GrowsTo.trans {x y z : Fleet} (h : x.GrowsTo y) (h' : y.GrowsTo z) : x.GrowsTo z := by
  obtain ⟨more, heq, hmore⟩ := h.history
  obtain ⟨more', heq', hmore'⟩ := h'.history
  refine ⟨h.store.trans h'.store, more ++ more', by rw [heq', heq, List.append_assoc], ?_⟩
  intro e he
  rcases List.mem_append.mp he with he | he
  · exact hmore e he
  · exact h.store.trans (hmore' e he)

theorem growsTo_run {x : Fleet} (hx : Sound x) (hev : Evolved x) {moves : List Move}
    (hmoves : ∀ mv ∈ moves, mv.isEdit = false) :
    x.GrowsTo (x.run moves) ∧ Evolved (x.run moves) := by
  induction moves generalizing x with
  | nil => exact ⟨⟨.refl _, [], by simp [run]⟩, hev⟩
  | cons mv moves ih =>
    obtain ⟨hg, hev'⟩ := growsTo_move hx hev (hmoves mv List.mem_cons_self)
    obtain ⟨hg', hev''⟩ := ih (sound_move hx mv) hev'
      (fun mv' h => hmoves mv' (List.mem_cons_of_mem mv h))
    exact ⟨hg.trans hg', hev''⟩

/-- Any run without edits from the start, and what such a run goes on to. -/
theorem sound_evolved_run (store : Store) {moves : List Move}
    (hmoves : ∀ mv ∈ moves, mv.isEdit = false) :
    Sound ((fresh store).run moves) ∧ Evolved ((fresh store).run moves) :=
  ⟨sound_run (sound_fresh store) moves,
    (growsTo_run (sound_fresh store) (evolved_fresh store) hmoves).2⟩

theorem perform_congr {β : Type} (c : Call β) (s : Setting) {w w' : World} (hs : w.store = w'.store)
    (hp : w.published = w'.published) : (c.perform s w).1 = (c.perform s w').1 ∧
      (c.perform s w).2.store = (c.perform s w').2.store ∧
      (c.perform s w).2.published = (c.perform s w').2.published := by
  cases c with
  | rotateStore new old =>
    simp only [Call.perform, World.tick, hs]
    cases s.rotate w'.store new old <;> simp [hp]
  | _ => simp [Call.perform, World.tick, World.report, hs, hp]

/-- A job that is alone does what its action does when it is run. -/
theorem run_alone (outside : Outside) (a : Action Answer) (w : World) {x : Fleet} {i m : Nat}
    {operation : Operation} (hj : x.jobs[i]? = some ⟨m, operation, a⟩)
    (hs : x.shared.store = w.store)
    (hp : x.shared.published m = w.published) :
    ∃ moves, (∀ mv ∈ moves, mv.isAdvanceOf i) ∧
      (x.run moves).jobs[i]? = some ⟨m, operation, .done (a.run outside w).1⟩ ∧
      (x.run moves).shared.store = (a.run outside w).2.store ∧
      (x.run moves).shared.published m = (a.run outside w).2.published := by
  induction a generalizing w x with
  | done outcome => exact ⟨[], by simp, hj, hs, hp⟩
  | call c next ih =>
    obtain ⟨hanswer, hstore, hpublished⟩ := perform_congr c (outside w.moment)
      (w := x.shared.world m) hs hp
    have hmove := advance_eq hj (outside w.moment)
    -- fleet and world need not agree on the moment, only on the store and on what is published
    obtain ⟨moves, hmoves, hdone⟩ := ih (c.perform (outside w.moment) w).1
      (c.perform (outside w.moment) w).2 (x := x.move (.advance i (outside w.moment)))
      (by
        rw [hmove, ← hanswer]
        exact List.getElem?_set_self (List.getElem?_eq_some_iff.mp hj).1)
      (by rw [hmove]; exact hstore)
      (by
        rw [hmove, ← hpublished]
        exact if_pos rfl)
    exact ⟨.advance i (outside w.moment) :: moves, by simpa [Move.isAdvanceOf] using hmoves, hdone⟩

def Sample.key : PrivateKey := .rsa ⟨3233, 17, 2753, 61, 53, by decide⟩

def Sample.record : Record where
  kid := "RS256_first"
  alg := .rs256
  isActive := true
  createdAt := ⟨1600000000, 0⟩
  expiresAt := none
  encryptedKey := ⟨[], (Pkcs8.toDer Sample.key).toOption.getD []⟩

def Sample.store : Store := Store.empty.insert Sample.record

def Sample.setting : Setting where
  now := ⟨1700000000, 0⟩
  policy := .fixed Config.standard.keyTtl
  encryptor := .plain
  nonce := []
  random := List.replicate 12 0
  generate _ := .ok Sample.key
  arrangement := ⟨id, fun _ => .refl _⟩
  listFault := none
  rotateFault := none
  isInjected _ := false

def Sample.advances (i n : Nat) : List Move := List.replicate n (.advance i Sample.setting)

end Fleet
end Keyring
