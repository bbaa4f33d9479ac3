import Keyring.Duration.Text
import Keyring.Proofs.Json.Reading
import Keyring.Proofs.Time.Text

set_option autoImplicit false

namespace Keyring.Duration

abbrev Term : Type := Nat × List Char

def termText (t : Term) : List Char := Decimal.text t.1 ++ t.2

def terms (d : Duration) : List Term :=
  let yearRest := d.seconds % 31557600
  let monthRest := yearRest % 2630016
  let dayRest := monthRest % 86400
  let years := d.seconds / 31557600
  let months := yearRest / 2630016
  let days := monthRest / 86400
  [(years, plural "year".toList years), (months, plural "month".toList months), (days, plural "day".toList days),
    (dayRest / 3600, ['h']), (dayRest % 3600 / 60, ['m']), (dayRest % 60, ['s']),
    (d.nanos / 1000000, ['m', 's']), (d.nanos / 1000 % 1000, ['u', 's']), (d.nanos % 1000, ['n', 's'])]

theorem parts_eq (d : Duration) : d.parts = (d.terms.filter (·.1 ≠ 0)).map termText := by
  have hpart (n : Nat) (name : List Char) (ts : List Term) :
      (((n, name) :: ts).filter (·.1 ≠ 0)).map termText = part n name ++ (ts.filter (·.1 ≠ 0)).map termText := by
    by_cases h : n = 0
    · subst h
      simp [part]
    · simp [part, h, termText]
  simp only [terms, hpart, parts, List.append_assoc, List.filter_nil, List.map_nil, List.append_nil]

def addTerms? (d : Duration) (ts : List Term) : Option Duration :=
  ts.foldlM (fun sum t => addQuantity? sum ⟨t.1, none⟩ t.2) d

section reading

variable {sum : Duration} {n : Nat} {name : List Char}

def IsUnitName (name : List Char) : Prop := name ≠ [] ∧ ∀ c ∈ name, isUnitLetter c = true

theorem toNat_of_isUnitLetter {c : Char} (h : isUnitLetter c = true) :
    (97 ≤ c.toNat ∧ c.toNat ≤ 122) ∨ (65 ≤ c.toNat ∧ c.toNat ≤ 90) ∨ c.toNat = 181 := by
  simp only [isUnitLetter, Bool.or_eq_true, Bool.and_eq_true, decide_eq_true_eq, Char.le_def,
    UInt32.le_iff_toNat_le] at h
  rcases h with (h | h) | rfl
  · exact .inl h
  · exact .inr (.inl h)
  · exact .inr (.inr rfl)

theorem digit?_of_isUnitLetter {c : Char} (h : isUnitLetter c = true) : Decimal.digit? c = none := by
  have hrange := toNat_of_isUnitLetter h
  rw [Decimal.digit?, if_neg (by omega)]

theorem isBlank_of_isUnitLetter {c : Char} (h : isUnitLetter c = true) : Text.isBlank c = false := by
  have hrange := toNat_of_isUnitLetter h
  simp only [Text.isBlank, Text.blankRanges, List.any_cons, List.any_nil, Bool.or_false, Bool.or_eq_false_iff,
    Bool.and_eq_false_imp, decide_eq_true_eq, decide_eq_false_iff_not]
  omega

theorem run?_digits (hn : n < secondsLimit) (t : List Char) :
    run? (.between sum) (Decimal.text n ++ t) = run? (.whole sum n) t := by
  induction n using Nat.strongRecOn generalizing t with
  | ind n ih =>
    by_cases h : n < 10
    · rw [Decimal.text_of_lt h, List.singleton_append, run?, Phase.step?, Decimal.digit?_digitChar, Nat.mod_eq_of_lt h]
      rfl
    · rw [Decimal.text_of_le (by omega), List.append_assoc, ih (n / 10) (by omega) (by omega), List.singleton_append,
        run?, Phase.step?, Decimal.digit?_digitChar]
      have hvalue : appendDigit? (n / 10) (n % 10) = some n := by
        rw [appendDigit?, Nat.div_add_mod, word?, if_pos hn]
      simp only [hvalue, Option.map_some, Option.bind_some]

theorem run?_letters {q : Quantity} {letters : List Char} (h : ∀ c ∈ name, isUnitLetter c = true) (t : List Char) :
    run? (.unit sum q letters) (name ++ t) = run? (.unit sum q (name.reverse ++ letters)) t := by
  induction name generalizing letters with
  | nil => rfl
  | cons c name ih =>
    have hc := h c List.mem_cons_self
    rw [List.cons_append, run?, Phase.step?, digit?_of_isUnitLetter hc]
    simp only [isBlank_of_isUnitLetter hc, Bool.false_eq_true, if_false, hc, if_true, Option.bind_some]
    rw [ih fun c hc => h c (List.mem_cons_of_mem _ hc), List.reverse_cons, List.append_assoc]
    rfl

theorem run?_term (hn : n < secondsLimit) (h : IsUnitName name) (t : List Char) :
    run? (.between sum) (termText (n, name) ++ t) = run? (.unit sum ⟨n, none⟩ name.reverse) t := by
  obtain ⟨c, cs, rfl⟩ := List.exists_cons_of_ne_nil h.1
  have hc := h.2 c List.mem_cons_self
  rw [termText, List.append_assoc, run?_digits hn, List.cons_append, run?, Phase.step?, digit?_of_isUnitLetter hc]
  simp only [isBlank_of_isUnitLetter hc, Bool.false_eq_true, if_false, hc, if_true, Option.bind_some]
  rw [run?_letters fun c hc => h.2 c (List.mem_cons_of_mem _ hc), List.reverse_cons]

theorem finish?_unit {q : Quantity} : Phase.finish? (.unit sum q name.reverse) = addQuantity? sum q name := by
  rw [Phase.finish?, List.reverse_reverse]

theorem run?_space {q : Quantity} (t : List Char) :
    run? (.unit sum q name.reverse) (' ' :: t) = (addQuantity? sum q name).bind fun sum => run? (.between sum) t := by
  have hdigit : Decimal.digit? ' ' = none := by decide
  have hblank : Text.isBlank ' ' = true := by decide
  rw [run?, Phase.step?, hdigit]
  simp only [hblank, if_true, List.reverse_reverse]
  cases addQuantity? sum q name <;> rfl

/-- Terms with a space between them are read as their sum. -/
theorem run?_terms {ts : List Term} (hts : ts ≠ []) (h : ∀ t ∈ ts, t.1 < secondsLimit ∧ IsUnitName t.2) :
    run? (.between sum) ([' '].intercalate (ts.map termText)) = addTerms? sum ts := by
  induction ts generalizing sum with
  | nil => exact absurd rfl hts
  | cons t ts ih =>
    obtain ⟨n, name⟩ := t
    obtain ⟨hn, hname⟩ := h _ List.mem_cons_self
    rw [addTerms?, List.foldlM_cons]
    cases ts with
    | nil =>
      have hread : run? (.between sum) (termText (n, name) ++ []) = _ := run?_term hn hname []
      rw [List.append_nil, run?, finish?_unit] at hread
      rw [List.map_cons, List.map_nil, List.intercalate_singleton, hread]
      cases addQuantity? sum ⟨n, none⟩ name <;> rfl
    | cons t ts =>
      have hmore (sum : Duration) : run? (.between sum) ([' '].intercalate ((t :: ts).map termText)) =
          addTerms? sum (t :: ts) := ih (List.cons_ne_nil t ts) fun t ht => h t (List.mem_cons_of_mem _ ht)
      rw [List.map_cons, List.intercalate_cons_of_ne_nil (by simp), List.append_assoc, run?_term hn hname,
        List.singleton_append, run?_space]
      cases addQuantity? sum ⟨n, none⟩ name with
      | none => rfl
      | some sum' => exact hmore sum'

end reading

section sums

variable {sum : Duration} {n each : Nat} {name : List Char} {u : Unit}

theorem word?_of_lt {n : Nat} (h : n < secondsLimit) : word? n = some n := if_pos h

theorem add?_eq {seconds nanos : Nat} (hs : sum.seconds + seconds < secondsLimit)
    (hn : sum.nanos + nanos < 1000000000) :
    add? sum seconds nanos = some ⟨sum.seconds + seconds, sum.nanos + nanos, hs, hn⟩ := by
  have hlimit : (1000000000 : Nat) < secondsLimit := by decide
  have hcarry : (sum.nanos + nanos) / 1000000000 = 0 := Nat.div_eq_of_lt hn
  have hleft : (sum.nanos + nanos) % 1000000000 = sum.nanos + nanos := Nat.mod_eq_of_lt hn
  simp only [add?, Option.bind_eq_bind, word?_of_lt (show sum.nanos + nanos < secondsLimit by omega), Option.bind_some,
    hcarry, hleft, Nat.add_zero, word?_of_lt (show seconds < secondsLimit by omega), ofParts?, dif_pos hs]

theorem addQuantity?_seconds (hu : Unit.ofName? name = some u) (hscale : u.scale = .seconds each)
    (h : sum.seconds + n * each < secondsLimit) :
    addQuantity? sum ⟨n, none⟩ name = some ⟨sum.seconds + n * each, sum.nanos, h, sum.nanos_lt⟩ := by
  have hn : sum.nanos + 0 < 1000000000 := sum.nanos_lt
  simp only [addQuantity?, hu, Option.bind_eq_bind, Option.bind_some, addScaled?, hscale,
    word?_of_lt (show n * each < secondsLimit by omega), Nat.mod_one, if_true, Nat.div_one, add?_eq h hn]
  rfl

theorem addQuantity?_nanos (hu : Unit.ofName? name = some u) (hscale : u.scale = .nanos each)
    (h : sum.nanos + n * each < 1000000000) :
    addQuantity? sum ⟨n, none⟩ name = some ⟨sum.seconds, sum.nanos + n * each, sum.seconds_lt, h⟩ := by
  have hlimit : (1000000000 : Nat) < secondsLimit := by decide
  have hs : sum.seconds + 0 < secondsLimit := sum.seconds_lt
  simp only [addQuantity?, hu, Option.bind_eq_bind, Option.bind_some, addScaled?, hscale,
    word?_of_lt (show n * each < secondsLimit by omega), Nat.mod_one, if_true, Nat.div_one, add?_eq hs h]
  rfl

def weight (t : Term) : Nat × Nat :=
  match (Unit.ofName? t.2).map Unit.scale with
  | some (.seconds each) => (t.1 * each, 0)
  | some (.nanos each) => (0, t.1 * each)
  | none => (0, 0)

def totalSeconds (ts : List Term) : Nat := (ts.map weight).foldr (fun w rest => w.1 + rest) 0

def totalNanos (ts : List Term) : Nat := (ts.map weight).foldr (fun w rest => w.2 + rest) 0

theorem weight_seconds (hu : Unit.ofName? name = some u) (hscale : u.scale = .seconds each) (n : Nat) :
    weight (n, name) = (n * each, 0) := by simp [weight, hu, hscale]

theorem weight_nanos (hu : Unit.ofName? name = some u) (hscale : u.scale = .nanos each) (n : Nat) :
    weight (n, name) = (0, n * each) := by simp [weight, hu, hscale]

theorem addQuantity?_weight {t : Term} (hu : (Unit.ofName? t.2).isSome = true)
    (hs : sum.seconds + (weight t).1 < secondsLimit) (hn : sum.nanos + (weight t).2 < 1000000000) :
    addQuantity? sum ⟨t.1, none⟩ t.2 = some ⟨sum.seconds + (weight t).1, sum.nanos + (weight t).2, hs, hn⟩ := by
  obtain ⟨u, hu⟩ := Option.isSome_iff_exists.mp hu
  cases hscale : u.scale with
  | seconds each =>
    have hweight : weight t = (t.1 * each, 0) := weight_seconds hu hscale t.1
    simp only [hweight] at hs ⊢
    exact addQuantity?_seconds hu hscale hs
  | nanos each =>
    have hweight : weight t = (0, t.1 * each) := weight_nanos hu hscale t.1
    simp only [hweight] at hn ⊢
    exact addQuantity?_nanos hu hscale hn

/-- No sum on the way is more than the whole. -/
theorem addTerms?_eq {ts : List Term} (hts : ∀ t ∈ ts, (Unit.ofName? t.2).isSome = true)
    (hs : sum.seconds + totalSeconds ts < secondsLimit) (hn : sum.nanos + totalNanos ts < 1000000000) :
    addTerms? sum ts = some ⟨sum.seconds + totalSeconds ts, sum.nanos + totalNanos ts, hs, hn⟩ := by
  induction ts generalizing sum with
  | nil => rfl
  | cons t ts ih =>
    simp only [totalSeconds, totalNanos, List.map_cons, List.foldr_cons] at hs hn
    have hs' : sum.seconds + (weight t).1 < secondsLimit := by omega
    have hn' : sum.nanos + (weight t).2 < 1000000000 := by omega
    rw [addTerms?, List.foldlM_cons, addQuantity?_weight (hts t List.mem_cons_self) hs' hn']
    have hs'' : sum.seconds + (weight t).1 + totalSeconds ts < secondsLimit := by
      unfold totalSeconds
      omega
    have hn'' : sum.nanos + (weight t).2 + totalNanos ts < 1000000000 := by
      unfold totalNanos
      omega
    refine (@ih ⟨_, _, hs', hn'⟩ (fun t ht => hts t (List.mem_cons_of_mem _ ht)) hs'' hn'').trans ?_
    simp only [totalSeconds, totalNanos, List.map_cons, List.foldr_cons, Nat.add_assoc]

theorem total_filter (ts : List Term) : totalSeconds (ts.filter (·.1 ≠ 0)) = totalSeconds ts ∧
    totalNanos (ts.filter (·.1 ≠ 0)) = totalNanos ts := by
  induction ts with
  | nil => exact ⟨rfl, rfl⟩
  | cons t ts ih =>
    by_cases h : t.1 = 0
    · have hweight : weight t = (0, 0) := by
        unfold weight
        split <;> simp [h]
      rw [List.filter_cons_of_neg (by simp [h]), ih.1, ih.2]
      simp [totalSeconds, totalNanos, hweight]
    · rw [List.filter_cons_of_pos (by simp [h])]
      exact ⟨congrArg ((weight t).1 + ·) ih.1, congrArg ((weight t).2 + ·) ih.2⟩

theorem ofName?_plural {name : List Char} {u : Unit} (h : Unit.ofName? name = some u)
    (h' : Unit.ofName? (name ++ ['s']) = some u) (n : Nat) : Unit.ofName? (plural name n) = some u := by
  unfold plural
  split
  · exact h
  · exact h'

theorem ofName?_year (n : Nat) : Unit.ofName? (plural "year".toList n) = some .year :=
  ofName?_plural (by decide) (by decide) n

theorem ofName?_month (n : Nat) : Unit.ofName? (plural "month".toList n) = some .month :=
  ofName?_plural (by decide) (by decide) n

theorem ofName?_day (n : Nat) : Unit.ofName? (plural "day".toList n) = some .day :=
  ofName?_plural (by decide) (by decide) n

theorem weights_terms (d : Duration) : d.terms.map weight =
    [(d.seconds / 31557600 * 31557600, 0), (d.seconds % 31557600 / 2630016 * 2630016, 0),
      (d.seconds % 31557600 % 2630016 / 86400 * 86400, 0),
      (d.seconds % 31557600 % 2630016 % 86400 / 3600 * 3600, 0),
      (d.seconds % 31557600 % 2630016 % 86400 % 3600 / 60 * 60, 0),
      (d.seconds % 31557600 % 2630016 % 86400 % 60, 0), (0, d.nanos / 1000000 * 1000000),
      (0, d.nanos / 1000 % 1000 * 1000), (0, d.nanos % 1000)] := by
  simp only [terms, List.map_cons, List.map_nil, weight_seconds (ofName?_year _) rfl,
    weight_seconds (ofName?_month _) rfl, weight_seconds (ofName?_day _) rfl, weight_seconds (by decide : Unit.ofName? ['h'] = some .hour) rfl,
    weight_seconds (by decide : Unit.ofName? ['m'] = some .minute) rfl,
    weight_seconds (by decide : Unit.ofName? ['s'] = some .second) rfl,
    weight_nanos (by decide : Unit.ofName? ['m', 's'] = some .millisecond) rfl,
    weight_nanos (by decide : Unit.ofName? ['u', 's'] = some .microsecond) rfl,
    weight_nanos (by decide : Unit.ofName? ['n', 's'] = some .nanosecond) rfl, Nat.mul_one]

theorem totals_of_weights {ts : List Term} {a b c d e f x y z : Nat}
    (h : ts.map weight = [(a, 0), (b, 0), (c, 0), (d, 0), (e, 0), (f, 0), (0, x), (0, y), (0, z)]) :
    totalSeconds ts = a + (b + (c + (d + (e + f)))) ∧ totalNanos ts = x + (y + z) := by
  simp [totalSeconds, totalNanos, h]

/-- A number is what is left of it by each of the units, from the greatest down. -/
theorem sum_of_rests (n : Nat) : n / 31557600 * 31557600 + (n % 31557600 / 2630016 * 2630016 +
    (n % 31557600 % 2630016 / 86400 * 86400 + (n % 31557600 % 2630016 % 86400 / 3600 * 3600 +
      (n % 31557600 % 2630016 % 86400 % 3600 / 60 * 60 + n % 31557600 % 2630016 % 86400 % 60)))) = n := by
  rw [← Nat.mod_mod_of_dvd (n % 31557600 % 2630016 % 86400) (show 60 ∣ 3600 by decide)]
  simp only [Nat.div_add_mod']

theorem totalSeconds_terms (d : Duration) : totalSeconds d.terms = d.seconds :=
  (totals_of_weights (weights_terms d)).1.trans (sum_of_rests d.seconds)

theorem totalNanos_terms (d : Duration) : totalNanos d.terms = d.nanos := by
  rw [(totals_of_weights (weights_terms d)).2]
  omega

theorem addTerms?_written (d : Duration) : addTerms? zero (d.terms.filter (·.1 ≠ 0)) = some d := by
  have hnames : ∀ t ∈ d.terms, (Unit.ofName? t.2).isSome = true := by
    simp only [terms, List.forall_mem_cons, ofName?_year, ofName?_month, ofName?_day, List.not_mem_nil, false_imp_iff,
      implies_true, and_true]
    decide
  obtain ⟨hseconds, hnanos⟩ := total_filter d.terms
  rw [totalSeconds_terms] at hseconds
  rw [totalNanos_terms] at hnanos
  have hs : zero.seconds + totalSeconds (d.terms.filter (·.1 ≠ 0)) = d.seconds := (Nat.zero_add _).trans hseconds
  have hn : zero.nanos + totalNanos (d.terms.filter (·.1 ≠ 0)) = d.nanos := (Nat.zero_add _).trans hnanos
  rw [addTerms?_eq (fun t ht => hnames t (List.mem_of_mem_filter ht)) (hs ▸ d.seconds_lt) (hn ▸ d.nanos_lt)]
  simp only [hs, hn]

theorem isUnitName_plural {name : List Char} (h : IsUnitName name) (n : Nat) : IsUnitName (plural name n) := by
  unfold plural
  split
  · exact h
  · refine ⟨by simp, fun c hc => ?_⟩
    rcases List.mem_append.mp hc with hc | hc
    · exact h.2 c hc
    · rw [List.mem_singleton.mp hc]
      decide

theorem terms_readable (d : Duration) : ∀ t ∈ d.terms, t.1 < secondsLimit ∧ IsUnitName t.2 := by
  have hdiv {n : Nat} (k : Nat) (h : n < secondsLimit) : n / k < secondsLimit :=
    Nat.lt_of_le_of_lt (Nat.div_le_self n k) h
  have hmod {n : Nat} (k : Nat) (h : n < secondsLimit) : n % k < secondsLimit := Nat.lt_of_le_of_lt (Nat.mod_le n k) h
  have hname {name : List Char} (h : name ≠ [] ∧ name.all isUnitLetter = true) : IsUnitName name :=
    ⟨h.1, List.all_eq_true.mp h.2⟩
  have hs := d.seconds_lt
  have hn : d.nanos < secondsLimit := Nat.lt_trans d.nanos_lt (by decide)
  simp only [terms, List.forall_mem_cons, List.not_mem_nil, false_imp_iff, implies_true, and_true]
  exact ⟨⟨hdiv _ hs, isUnitName_plural (hname (by decide)) _⟩,
    ⟨hdiv _ (hmod _ hs), isUnitName_plural (hname (by decide)) _⟩,
    ⟨hdiv _ (hmod _ (hmod _ hs)), isUnitName_plural (hname (by decide)) _⟩,
    ⟨hdiv _ (hmod _ (hmod _ (hmod _ hs))), hname (by decide)⟩,
    ⟨hdiv _ (hmod _ (hmod _ (hmod _ (hmod _ hs)))), hname (by decide)⟩,
    ⟨hmod _ (hmod _ (hmod _ (hmod _ hs))), hname (by decide)⟩, ⟨hdiv _ hn, hname (by decide)⟩,
    ⟨hmod _ (hdiv _ hn), hname (by decide)⟩, ⟨hmod _ hn, hname (by decide)⟩⟩

end sums

theorem termText_head {t : Term} (h : t.1 ≠ 0) : ∃ c cs, termText t = c :: cs ∧ Text.isBlank c = false ∧ c ≠ '0' := by
  obtain ⟨c, cs, hc, hzero⟩ := Decimal.head_text t.1
  refine ⟨c, cs ++ t.2, by rw [termText, hc]; rfl, ?_, ?_⟩
  · exact Decimal.isBlank_of_isDigit (Decimal.isDigit_of_mem_text (hc ▸ List.mem_cons_self))
  · rintro rfl
    exact hzero (Nat.pos_of_ne_zero h) rfl

/-- The text of a span reads back as the span. -/
theorem ofText?_text (d : Duration) : ofText? d.text = some d := by
  unfold text
  split
  · rename_i hzero
    have hd : d = zero := (toNanos_inj d zero).mp ((isZero_iff d).mp hzero)
    rw [hd]
    rfl
  · rename_i hzero
    have hsum := addTerms?_written d
    rw [parts_eq]
    have hkeep : ∀ t ∈ d.terms.filter (·.1 ≠ 0), t ∈ d.terms ∧ t.1 ≠ 0 := fun t ht => by
      simpa using List.mem_filter.mp ht
    generalize d.terms.filter (·.1 ≠ 0) = ts at hsum hkeep ⊢
    cases ts with
    | nil =>
      cases Option.some.inj hsum
      exact absurd rfl hzero
    | cons t ts =>
      obtain ⟨c, cs, hc, hblank, hne⟩ := termText_head (hkeep t List.mem_cons_self).2
      have hread : run? (.between zero) ([' '].intercalate ((t :: ts).map termText)) = some d :=
        (run?_terms (List.cons_ne_nil t ts) fun t ht => terms_readable d t (hkeep t ht).1).trans hsum
      obtain ⟨more, hmore⟩ : ∃ more, [' '].intercalate ((t :: ts).map termText) = c :: more := by
        cases ts with
        | nil => exact ⟨cs, by rw [List.map_cons, List.map_nil, List.intercalate_singleton, hc]⟩
        | cons t' ts =>
          rw [List.map_cons, List.intercalate_cons_of_ne_nil (by simp), hc]
          exact ⟨_, rfl⟩
      rw [hmore] at hread ⊢
      rw [ofText?, if_neg (by simp [hne]), if_neg (by simp [hblank]), hread]

example : (⟨90061, 5000, by decide, by decide⟩ : Duration).text = "1day 1h 1m 1s 5us".toList := by decide +kernel

end Keyring.Duration
