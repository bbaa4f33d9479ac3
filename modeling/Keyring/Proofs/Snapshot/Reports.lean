import Keyring.Proofs.Snapshot.Answers

/-!
What is reported while a snapshot is made. Each active record that meets another one of its algorithm ends in a
report, of the one that is kept and of the one that is ignored. Main statement: the ignored ones of all reports
are the active records of an algorithm but the one that is active in the end, and in each report the kept one is
the greatest of those seen until then.
-/
set_option autoImplicit false

namespace Keyring

namespace Record

def activesOf (alg : Alg) (records : List Record) : List Record :=
  records.filter fun r => decide (r.isActive = true ∧ r.alg = alg)

def IsGreatestOf (records : List Record) (r : Record) : Prop :=
  r ∈ records ∧ ∀ other ∈ records, ¬ r.Before other

variable {alg : Alg} {records : List Record} {r winner : Record}

theorem activesOf_concat (h : r.isActive = true ∧ r.alg = alg) :
    activesOf alg (records ++ [r]) = activesOf alg records ++ [r] := by
  simp [activesOf, List.filter_append, h]

theorem activesOf_concat_of_not (h : ¬ (r.isActive = true ∧ r.alg = alg)) :
    activesOf alg (records ++ [r]) = activesOf alg records := by
  simp only [activesOf, List.filter_append, List.filter_singleton, h, decide_false, cond_false, List.append_nil]

theorem isGreatestOf_singleton (r : Record) : IsGreatestOf [r] r :=
  ⟨List.mem_singleton_self r, List.forall_mem_singleton.mpr fun h =>
    not_precedes_self r (precedes_iff_before.mpr h)⟩

theorem IsGreatestOf.stay (h : IsGreatestOf records winner) (hr : ¬ winner.Before r) :
    IsGreatestOf (records ++ [r]) winner :=
  ⟨List.mem_append_left _ h.1, List.forall_mem_append.mpr ⟨h.2, List.forall_mem_singleton.mpr hr⟩⟩

theorem IsGreatestOf.replace (h : IsGreatestOf records winner) (hr : winner.Before r) :
    IsGreatestOf (records ++ [r]) r := by
  refine ⟨List.mem_append_right _ (List.mem_singleton_self r), List.forall_mem_append.mpr
    ⟨fun other ho hbefore => h.2 other ho ?_, (isGreatestOf_singleton r).2⟩⟩
  rw [← precedes_iff_before] at hr hbefore ⊢
  exact hr.trans hbefore

end Record

def Event.duplicates (alg : Alg) (events : List Event) : List (String × String) :=
  events.filterMap fun
    | .multipleActive alg' active ignored => if alg' = alg then some (active, ignored) else none
    | _ => none

theorem Event.duplicates_append (alg : Alg) (events more : List Event) :
    duplicates alg (events ++ more) = duplicates alg events ++ duplicates alg more :=
  List.filterMap_append

namespace Snapshot

open Record (activesOf)

/-- The reports of an algorithm account for all active records of it that have been listed, of which the
snapshot has taken one. -/
structure Accounts (alg : Alg) (records : List Record) (taken : Option Record)
    (reports : List (String × String)) : Prop where
  count : reports.length = (activesOf alg records).length - 1
  untaken : taken = none → activesOf alg records = []
  greatest : ∀ r, taken = some r → r.IsGreatestOf (activesOf alg records)
  ignored : ∀ r, taken = some r → ∃ former later, activesOf alg records = former ++ r :: later ∧
    (reports.map Prod.snd).Perm ((former ++ later).map Record.kid)
  /-- The first report is of the first two active records, and each further one is of one more. -/
  kept : ∀ (i : Nat) (report : String × String), reports[i]? = some report →
    ∃ r : Record, r.kid = report.1 ∧ r.IsGreatestOf ((activesOf alg records).take (i + 2))
  last : ∀ report, reports.getLast? = some report → taken.map Record.kid = some report.1

namespace Accounts

variable {alg : Alg} {records : List Record} {reports : List (String × String)} {r best : Record}

theorem nil (alg : Alg) : Accounts alg [] none [] where
  count := rfl
  untaken := fun _ => rfl
  greatest := nofun
  ignored := nofun
  kept := nofun
  last := nofun

theorem skip {taken : Option Record} (h : Accounts alg records taken reports)
    (hr : ¬ (r.isActive = true ∧ r.alg = alg)) : Accounts alg (records ++ [r]) taken reports := by
  have hsame : activesOf alg (records ++ [r]) = activesOf alg records := Record.activesOf_concat_of_not hr
  exact ⟨hsame ▸ h.count, hsame ▸ h.untaken, hsame ▸ h.greatest, hsame ▸ h.ignored, hsame ▸ h.kept, h.last⟩

theorem first (h : Accounts alg records none reports) (hr : r.isActive = true ∧ r.alg = alg) :
    Accounts alg (records ++ [r]) (some r) reports := by
  have hactives : activesOf alg (records ++ [r]) = [r] := by
    rw [Record.activesOf_concat hr, h.untaken rfl, List.nil_append]
  obtain rfl : reports = [] := List.length_eq_zero_iff.mp (by rw [h.count, h.untaken rfl]; rfl)
  constructor
  case count => rw [hactives]; rfl
  case untaken => nofun
  case greatest =>
    rintro _ ⟨rfl⟩
    rw [hactives]
    exact Record.isGreatestOf_singleton r
  case ignored =>
    rintro _ ⟨rfl⟩
    exact ⟨[], [], hactives, .refl _⟩
  case kept => nofun
  case last => nofun

theorem contest {winner loser : Record} (h : Accounts alg records (some best) reports)
    (hr : r.isActive = true ∧ r.alg = alg) (hwinner : winner.IsGreatestOf (activesOf alg records ++ [r]))
    (hloser : ∃ former later, activesOf alg records ++ [r] = former ++ winner :: later ∧
      (reports.map Prod.snd ++ [loser.kid]).Perm ((former ++ later).map Record.kid)) :
    Accounts alg (records ++ [r]) (some winner) (reports ++ [(winner.kid, loser.kid)]) := by
  have hactives : activesOf alg (records ++ [r]) = activesOf alg records ++ [r] := Record.activesOf_concat hr
  -- a record has been taken, so that no active one is lost in the subtraction
  have hcount : reports.length + 1 = (activesOf alg records).length := by
    have hpos := List.length_pos_of_mem (h.greatest best rfl).1
    have hold := h.count
    omega
  constructor
  case count => rw [hactives, List.length_append, List.length_append, ← hcount]; rfl
  case untaken => nofun
  case greatest =>
    rintro _ ⟨rfl⟩
    rw [hactives]
    exact hwinner
  case ignored =>
    rintro _ ⟨rfl⟩
    rw [hactives, List.map_append]
    exact hloser
  case kept =>
    intro i report hi
    rw [hactives]
    -- an earlier report is about earlier records only, and the new one about all of them
    rcases Nat.lt_trichotomy i reports.length with hlt | rfl | hgt
    · rw [List.getElem?_append_left hlt] at hi
      rw [List.take_append_of_le_length (by omega)]
      exact h.kept i report hi
    · rw [List.getElem?_concat_length] at hi
      cases hi
      rw [List.take_of_length_le (by rw [List.length_append, ← hcount]; rfl)]
      exact ⟨winner, rfl, hwinner⟩
    · rw [List.getElem?_eq_none (by rw [List.length_append]; exact hgt)] at hi
      cases hi
  case last =>
    intro report hlast
    rw [List.getLast?_concat] at hlast
    cases hlast
    rfl

theorem stay (h : Accounts alg records (some best) reports) (hr : r.isActive = true ∧ r.alg = alg)
    (hbefore : ¬ best.Before r) :
    Accounts alg (records ++ [r]) (some best) (reports ++ [(best.kid, r.kid)]) := by
  obtain ⟨former, later, hcut, hperm⟩ := h.ignored best rfl
  refine h.contest hr ((h.greatest best rfl).stay hbefore) ⟨former, later ++ [r], ?_, ?_⟩
  · rw [hcut, List.append_assoc, List.cons_append]
  · rw [← List.append_assoc, List.map_append]
    exact hperm.append_right [r.kid]

theorem replace (h : Accounts alg records (some best) reports) (hr : r.isActive = true ∧ r.alg = alg)
    (hbefore : best.Before r) :
    Accounts alg (records ++ [r]) (some r) (reports ++ [(r.kid, best.kid)]) := by
  obtain ⟨former, later, hcut, hperm⟩ := h.ignored best rfl
  refine h.contest hr ((h.greatest best rfl).replace hbefore) ⟨activesOf alg records, [], rfl, ?_⟩
  rw [List.append_nil, hcut, List.map_append, List.map_cons]
  rw [List.map_append] at hperm
  exact (List.perm_append_singleton _ _).trans ((hperm.cons best.kid).trans List.perm_middle.symm)

end Accounts

section add

variable {alg : Alg} {k : CachedKey} {s : Snapshot}

theorem duplicates_elect_of_ne (o : Option CachedKey) (h : k.alg ≠ alg) :
    Event.duplicates alg (elect k o).2 = [] := by
  cases o with
  | none => rfl
  | some other =>
    simp only [elect]
    split <;> simp [Event.duplicates, h]

theorem duplicates_add (s : Snapshot) (k : CachedKey) :
    Event.duplicates alg (s.add k).2 = if k.isActive = true ∧ k.alg = alg then
      Event.duplicates alg (elect k (s.active? alg)).2 else [] := by
  unfold add
  by_cases hactive : k.isActive = true
  · rw [if_pos hactive]
    by_cases halg : k.alg = alg
    · rw [if_pos ⟨hactive, halg⟩, halg]
    · rw [if_neg fun hc => halg hc.2]
      exact duplicates_elect_of_ne _ halg
  · rw [if_neg hactive, if_neg fun hc => hactive hc.1]
    rfl

theorem Accounts.add {records : List Record} {reports : List (String × String)}
    (h : Accounts alg records ((s.active? alg).map CachedKey.record) reports) (k : CachedKey) :
    Accounts alg (records ++ [k.record]) (((s.add k).1.active? alg).map CachedKey.record)
      (reports ++ Event.duplicates alg (s.add k).2) := by
  rw [active?_add, duplicates_add]
  by_cases hk : k.isActive = true ∧ k.alg = alg
  · rw [if_pos hk, if_pos hk]
    cases hbest : s.active? alg with
    | none =>
      rw [hbest] at h
      simpa [elect, Event.duplicates] using h.first hk
    | some best =>
      rw [hbest] at h
      by_cases hs : k.Supersedes best
      · simpa [elect, hs, Event.duplicates, hk.2, CachedKey.kid] using h.replace hk (Record.precedes_iff_before.mp hs)
      · simpa [elect, hs, Event.duplicates, hk.2, CachedKey.kid] using
          h.stay hk fun hbefore => hs (Record.precedes_iff_before.mpr hbefore)
  · rw [if_neg hk, if_neg hk, List.append_nil]
    exact h.skip hk

end add

def tell (s : Snapshot) : List CachedKey → List Event
  | [] => []
  | k :: ks => (s.add k).2 ++ (s.add k).1.tell ks

theorem tell_append (s : Snapshot) (ks ks' : List CachedKey) :
    s.tell (ks ++ ks') = s.tell ks ++ (s.addAll ks).tell ks' := by
  induction ks generalizing s with
  | nil => rfl
  | cons k ks ih =>
    rw [List.cons_append, tell, tell, ih, List.append_assoc]
    rfl

theorem extend_of_opened {e : Encryptor} {rs : List Record} {ks : List CachedKey} (s : Snapshot)
    (h : List.Forall₂ (fun r k => CachedKey.ofRecord e r = .ok k) rs ks) :
    s.extend e rs = (.ok (s.addAll ks), s.tell ks) := by
  induction h generalizing s with
  | nil => rfl
  | cons hk _ ih =>
    simp only [extend, hk, ih]
    rfl

theorem accounts_addAll (alg : Alg) (ks : List CachedKey) :
    Accounts alg (ks.map CachedKey.record) (((empty.addAll ks).active? alg).map CachedKey.record)
      (Event.duplicates alg (empty.tell ks)) := by
  induction ks using List.reverseRecOn with
  | nil => exact Accounts.nil alg
  | append_singleton ks k ih =>
    have hstep := ih.add k
    rw [tell_append, Event.duplicates_append, List.map_append]
    simpa [addAll, tell] using hstep

theorem accounts_of_ofRecords {e : Encryptor} {records : List Record} {s : Snapshot} {events : List Event}
    (h : ofRecords e records = (.ok s, events)) (alg : Alg) :
    Accounts alg records ((s.active? alg).map CachedKey.record) (Event.duplicates alg events) := by
  obtain ⟨ks, hks, rfl⟩ := (extend_eq_ok_iff e empty s records).mp (congrArg Prod.fst h)
  obtain ⟨-, rfl⟩ := Prod.mk.inj ((extend_of_opened empty hks).symm.trans h)
  rw [← records_of_opened hks]
  exact accounts_addAll alg ks

/-- The front part of a listing is itself one, and the first reports are those of it. -/
theorem ofRecords_of_prefix {e : Encryptor} {records seen : List Record} {s : Snapshot} {events : List Event}
    (h : ofRecords e records = (.ok s, events)) (hseen : seen <+: records) :
    ∃ s' events', ofRecords e seen = (.ok s', events') ∧ events' <+: events := by
  obtain ⟨ks, hks, rfl⟩ := (extend_eq_ok_iff e empty s records).mp (congrArg Prod.fst h)
  obtain ⟨-, rfl⟩ := Prod.mk.inj ((extend_of_opened empty hks).symm.trans h)
  have hfront := List.forall₂_take seen.length hks
  rw [← List.prefix_iff_eq_take.mp hseen] at hfront
  refine ⟨_, _, extend_of_opened empty hfront, ?_⟩
  rw [← List.take_append_drop seen.length ks, tell_append, List.take_append_drop]
  exact List.prefix_append _ _

/-- No active record is passed over in silence. Of each algorithm there are as many reports as active records
but one; the ignored ids of them are the ids of all active records but the one that is active in the end; the
kept id is each time that of the greatest record so far, and the last time that of the active one. All of this
holds of the front parts of the listing too, whose reports are the first ones of the whole. -/
theorem duplicates_are_reported {e : Encryptor} {records : List Record} {s : Snapshot} {events : List Event}
    (h : ofRecords e records = (.ok s, events)) :
    (∀ alg, Accounts alg records ((s.active? alg).map CachedKey.record) (Event.duplicates alg events)) ∧
    ∀ seen, seen <+: records → ∃ s' events', ofRecords e seen = (.ok s', events') ∧ events' <+: events ∧
      ∀ alg, Accounts alg seen ((s'.active? alg).map CachedKey.record) (Event.duplicates alg events') := by
  refine ⟨accounts_of_ofRecords h, fun seen hseen => ?_⟩
  obtain ⟨s', events', hfront, hevents⟩ := ofRecords_of_prefix h hseen
  exact ⟨s', events', hfront, hevents, accounts_of_ofRecords hfront⟩

/-- Of three active keys one is ignored as it comes and one once the greatest has come. -/
theorem two_of_three_are_reported :
    let made (kid : String) (second : Int) : Record := { Fleet.Sample.record with kid := kid, createdAt := ⟨second, 0⟩ }
    let records := [made "RS256_b" 2, { made "RS256_d" 4 with isActive := false }, made "RS256_a" 1, made "RS256_c" 3]
    let reports := [("RS256_b", "RS256_a"), ("RS256_c", "RS256_b")]
    ∃ s events, ofRecords .plain records = (.ok s, events) ∧ Event.duplicates .rs256 events = reports ∧
      (s.active? .rs256).map CachedKey.kid = some "RS256_c" ∧
      Accounts .rs256 records ((s.active? .rs256).map CachedKey.record) reports := by
  intro made records reports
  have hreports : Event.duplicates .rs256 (ofRecords .plain records).2 = reports := by decide +kernel
  have hactive : (ofRecords .plain records).1.toOption.bind
      (fun s => (s.active? .rs256).map CachedKey.kid) = some "RS256_c" := by decide +kernel
  rcases hmade : ofRecords .plain records with ⟨result, events⟩
  rw [hmade] at hreports hactive
  cases result with
  | error error => cases hactive
  | ok s =>
    obtain ⟨haccounts, -⟩ := duplicates_are_reported hmade
    exact ⟨s, events, rfl, hreports, hactive, hreports ▸ haccounts .rs256⟩

end Snapshot
end Keyring
