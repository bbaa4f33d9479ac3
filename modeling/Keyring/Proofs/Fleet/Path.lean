import Keyring.Fleet

/-!
What an action does along its paths, whatever its calls are answered. `Along` follows all paths at
once: each deed must be allowed after the deeds before it, and the outcome must fit all of them.
`Follows` is one path: what is left of an action after some deeds.
-/
set_option autoImplicit false

namespace Keyring.Manager.Action
open Fleet

variable {α β : Type}

/-- Each deed of the action is allowed after the past and the deeds before it, and each end of it is
as expected. -/
def Along (allowed : List Deed → Deed → Prop) (expected : List Deed → Except KeyError α → Prop) :
    Action α → (past : List Deed) → Prop
  | .done outcome, past => expected past outcome
  | .call c next, past => ∀ p answer, allowed past (.ofCall p c answer) ∧
      (next answer).Along allowed expected (past ++ [.ofCall p c answer])

variable {allowed : List Deed → Deed → Prop}

theorem Along.mono {expected expected' : List Deed → Except KeyError α → Prop} {a : Action α}
    {past : List Deed} (h : a.Along allowed expected past)
    (hw : ∀ now outcome, expected now outcome → expected' now outcome) :
    a.Along allowed expected' past := by
  induction a generalizing past with
  | done outcome => exact hw _ _ h
  | call c next ih =>
    intro p answer
    obtain ⟨hd, hr⟩ := h p answer
    exact ⟨hd, ih answer hr⟩

theorem Along.of_allowed {allowed' : List Deed → Deed → Prop}
    {expected : List Deed → Except KeyError α → Prop} {a : Action α} {past : List Deed}
    (h : a.Along allowed expected past)
    (hw : ∀ now d, allowed now d → allowed' now d) : a.Along allowed' expected past := by
  induction a generalizing past with
  | done outcome => exact h
  | call c next ih =>
    intro p answer
    obtain ⟨hd, hr⟩ := h p answer
    exact ⟨hw _ _ hd, ih answer hr⟩

theorem Along.and {allowed' : List Deed → Deed → Prop}
    {expected expected' : List Deed → Except KeyError α → Prop} {a : Action α} {past : List Deed}
    (h : a.Along allowed expected past) (h' : a.Along allowed' expected' past) :
    a.Along (fun now d => allowed now d ∧ allowed' now d)
      (fun now outcome => expected now outcome ∧ expected' now outcome) past := by
  induction a generalizing past with
  | done outcome => exact ⟨h, h'⟩
  | call c next ih =>
    intro p answer
    obtain ⟨hd, hr⟩ := h p answer
    obtain ⟨hd', hr'⟩ := h' p answer
    exact ⟨⟨hd, hd'⟩, ih answer hr hr'⟩

theorem Along.bind {expected : List Deed → Except KeyError β → Prop} {a : Action α}
    {f : α → Action β} {past : List Deed}
    (h : a.Along allowed (fun now outcome => match outcome with
      | .error error => expected now (.error error)
      | .ok x => (f x).Along allowed expected now) past) :
    (a >>= f).Along allowed expected past := by
  induction a generalizing past with
  | done outcome => cases outcome <;> exact h
  | call c next ih =>
    intro p answer
    obtain ⟨hd, hr⟩ := h p answer
    exact ⟨hd, ih answer hr⟩

theorem Along.attempt {expected : List Deed → Except KeyError (Except KeyError α) → Prop}
    {a : Action α} {past : List Deed}
    (h : a.Along allowed (fun now outcome => expected now (.ok outcome)) past) :
    a.attempt.Along allowed expected past := by
  induction a generalizing past with
  | done outcome => exact h
  | call c next ih =>
    intro p answer
    obtain ⟨hd, hr⟩ := h p answer
    exact ⟨hd, ih answer hr⟩

section calls

variable {past : List Deed}

theorem along_observe {expected : List Deed → Except KeyError Setting → Prop}
    (h : ∀ setting, allowed past (.observed setting) ∧
      expected (past ++ [.observed setting]) (.ok setting)) :
    observe.Along allowed expected past := fun _ setting => h setting

theorem along_report {expected : List Deed → Except KeyError Unit → Prop} (events : List Event)
    (h : allowed past (.reported events) ∧ expected (past ++ [.reported events]) (.ok ())) :
    (report events).Along allowed expected past := fun _ _ => h

theorem along_snapshot {expected : List Deed → Except KeyError Snapshot → Prop}
    (h : ∀ s, allowed past (.read s) ∧ expected (past ++ [.read s]) (.ok s)) :
    snapshot.Along allowed expected past := fun _ s => h s

theorem along_takeGeneration {expected : List Deed → Except KeyError Nat → Prop}
    (h : ∀ g, allowed past (.numbered g) ∧ expected (past ++ [.numbered g]) (.ok g)) :
    takeGeneration.Along allowed expected past := fun _ g => h g

theorem along_list {expected : List Deed → Except KeyError (List Record) → Prop}
    (h : ∀ listing, allowed past (.listed listing) ∧ expected (past ++ [.listed listing]) listing) :
    list.Along allowed expected past := fun _ listing => h listing

theorem along_rotateStore {expected : List Deed → Except KeyError Unit → Prop} (new : Record)
    (old : Option Record)
    (h : ∀ outcome, allowed past (.handedIn new old outcome) ∧
      expected (past ++ [.handedIn new old outcome]) outcome) :
    (rotateStore new old).Along allowed expected past := fun _ outcome => h outcome

theorem along_install {expected : List Deed → Except KeyError Unit → Prop} (g : Nat) (s : Snapshot)
    (h : ∀ d, d = .installed g s ∨ d = .discarded g s →
      allowed past d ∧ expected (past ++ [d]) (.ok ())) :
    (install g s).Along allowed expected past := by
  intro p _
  refine h _ ?_
  show ite (g < p.generation) _ _ = _ ∨ ite (g < p.generation) _ _ = _
  split
  · exact .inr rfl
  · exact .inl rfl

end calls

def OnlyObserves (a : Action α) : Prop :=
  ∀ past, a.Along (fun _ d => ∃ setting, d = .observed setting)
    (fun now _ => ∃ ds, now = past ++ ds ∧ ∀ d ∈ ds, ∃ setting, d = .observed setting) past

theorem OnlyObserves.done (outcome : Except KeyError α) : (Action.done outcome).OnlyObserves :=
  fun _ => ⟨[], by simp, by simp⟩

theorem OnlyObserves.observe : observe.OnlyObserves :=
  fun _ => along_observe fun setting => ⟨⟨setting, rfl⟩, [.observed setting], rfl, by simp⟩

theorem OnlyObserves.bind {a : Action α} {f : α → Action β} (h : a.OnlyObserves)
    (hf : ∀ x, (f x).OnlyObserves) : (a >>= f).OnlyObserves := by
  refine fun past => .bind ((h past).mono ?_)
  intro now outcome hnow
  obtain ⟨ds, rfl, hds⟩ := hnow
  cases outcome with
  | error error => exact ⟨ds, rfl, hds⟩
  | ok x =>
    refine (hf x _).mono ?_
    intro now outcome hnow
    obtain ⟨ds', rfl, hds'⟩ := hnow
    refine ⟨ds ++ ds', by simp, fun d hd => ?_⟩
    exact (List.mem_append.mp hd).elim (hds d) (hds' d)

/-- An action that begins by observing and has to be as expected only where it goes well. -/
theorem OnlyObserves.along_bind {a : Action α} {f : α → Action β} {past : List Deed}
    {expected : List Deed → β → Prop} (h : a.OnlyObserves)
    (ha : ∀ now setting, allowed now (.observed setting))
    (hf : ∀ x ds, (∀ d ∈ ds, ∃ setting, d = .observed setting) →
      (f x).Along allowed (fun now outcome => ∀ y, outcome = .ok y → expected now y) (past ++ ds)) :
    (a >>= f).Along allowed (fun now outcome => ∀ y, outcome = .ok y → expected now y) past := by
  refine .bind (((h past).of_allowed ?_).mono ?_)
  · intro now d hd
    obtain ⟨setting, rfl⟩ := hd
    exact ha now setting
  · intro now outcome hnow
    obtain ⟨ds, rfl, hds⟩ := hnow
    cases outcome with
    | error error =>
      intro y hy
      cases hy
    | ok x => exact hf x ds hds

/-- What is left of an action after some deeds. -/
inductive Follows (a : Action α) : List Deed → Action α → Prop where
  | start : Follows a [] a
  | step {ds : List Deed} {γ : Type} {c : Call γ} {next : γ → Action α} (p : Published)
      (answer : γ) :
      Follows a ds (.call c next) → Follows a (ds ++ [.ofCall p c answer]) (next answer)

theorem Follows.along {expected : List Deed → Except KeyError α → Prop} {a rest : Action α}
    {ds : List Deed} (hf : Follows a ds rest) (h : a.Along allowed expected []) :
    rest.Along allowed expected ds := by
  induction hf with
  | start => exact h
  | step p answer _ ih => exact (ih p answer).2

theorem Follows.allows {expected : List Deed → Except KeyError α → Prop} {a rest : Action α}
    {ds : List Deed} (hf : Follows a ds rest) (h : a.Along allowed expected []) {past more : List Deed}
    {d : Deed} (hd : ds = past ++ d :: more) : allowed past d := by
  induction hf generalizing more with
  | start => simp at hd
  | @step ds _ c _ p answer hf ih =>
    rcases List.eq_nil_or_concat more with rfl | ⟨more, last, rfl⟩
    · obtain ⟨rfl, hlast⟩ := List.append_inj' hd rfl
      cases hlast
      exact (hf.along h p answer).1
    · have hd' : ds ++ [.ofCall p c answer] = (past ++ d :: more) ++ [last] := by simpa using hd
      exact ih (List.append_inj' hd' rfl).1

def Within : Action α → Nat → Prop
  | .done _, _ => True
  | .call _ _, 0 => False
  | .call _ next, n + 1 => ∀ answer, (next answer).Within n

theorem Within.done {a : Action α} (h : a.Within 0) : ∃ outcome, a = .done outcome := by
  cases a with
  | done outcome => exact ⟨outcome, rfl⟩
  | call c next => exact h.elim

theorem Within.mono {a : Action α} {n n' : Nat} (h : a.Within n) (hn : n ≤ n') : a.Within n' := by
  induction a generalizing n n' with
  | done outcome => trivial
  | call c next ih =>
    cases n with
    | zero => exact h.elim
    | succ n =>
      obtain ⟨n', rfl⟩ : ∃ k, n' = k + 1 := ⟨n' - 1, by omega⟩
      exact fun answer => ih answer (h answer) (by omega)

theorem Within.bind {a : Action α} {f : α → Action β} {n : Nat} (h : a.Within n) (n' : Nat)
    (hf : ∀ x, (f x).Within n') : (a >>= f).Within (n + n') := by
  induction a generalizing n with
  | done outcome =>
    cases outcome with
    | error error => trivial
    | ok x => exact (hf x).mono (by omega)
  | call c next ih =>
    cases n with
    | zero => exact h.elim
    | succ n =>
      rw [Nat.add_right_comm]
      exact fun answer => ih answer (h answer)

theorem Within.attempt {a : Action α} {n : Nat} (h : a.Within n) : a.attempt.Within n := by
  induction a generalizing n with
  | done outcome => trivial
  | call c next ih =>
    cases n with
    | zero => exact h.elim
    | succ n => exact fun answer => ih answer (h answer)

end Keyring.Manager.Action
