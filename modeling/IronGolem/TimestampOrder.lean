import Mathlib.Data.Char
import Mathlib.Tactic.IntervalCases
import IronGolem.Rfc3339
import IronGolem.OrderedPages

/-!
The order of RFC 3339 texts against the order of the times they stand for. All parts of a text down
to the second have a fixed width, so texts of different seconds are ordered as their times.
-/
namespace IronGolem.TimestampOrder

open Rfc3339 OrderedPages List

theorem append_lt_append_iff (a b x y : List Char) (h : a.length = b.length) :
    a ++ x < b ++ y ↔ a < b ∨ (a = b ∧ x < y) := by
  induction a generalizing b with
  | nil =>
    obtain rfl : b = [] := eq_nil_of_length_eq_zero h.symm
    simp
  | cons c a ih =>
    cases b with
    | nil => cases h
    | cons d b =>
      have hlen : a.length = b.length := by simpa using h
      simp only [cons_append, cons_lt_cons_iff, ih b hlen, cons.injEq]
      tauto

theorem digit_lt_digit {a b : ℕ} (ha : a < 10) (hb : b < 10) (h : a < b) : digit a < digit b := by
  have hall : ∀ a < 10, ∀ b < 10, a < b → digit a < digit b := by decide
  exact hall a ha b hb h

theorem toDigits_lt_toDigits (width n m : ℕ) (hm : m < 10 ^ width) (h : n < m) :
    toDigits width n < toDigits width m := by
  induction width generalizing n m with
  | zero => simp at hm; omega
  | succ width ih =>
    have hlen : (toDigits width (n / 10)).length = (toDigits width (m / 10)).length := by
      rw [length_toDigits, length_toDigits]
    have hdiv : m / 10 < 10 ^ width := by
      omega
    unfold toDigits
    rw [append_lt_append_iff _ _ _ _ hlen]
    by_cases heq : n / 10 = m / 10
    · refine .inr ⟨by rw [heq], ?_⟩
      rw [cons_lt_cons_iff]
      exact .inl (digit_lt_digit (Nat.mod_lt n (by omega)) (Nat.mod_lt m (by omega)) (by omega))
    · exact .inl (ih (n / 10) (m / 10) hdiv (by omega))

variable {width n m : ℕ}

theorem toDigits_lt_iff (hn : n < 10 ^ width) (hm : m < 10 ^ width) :
    toDigits width n < toDigits width m ↔ n < m := by
  rcases lt_trichotomy n m with hlt | heq | hgt
  · exact iff_of_true (toDigits_lt_toDigits width n m hm hlt) hlt
  · rw [heq]
    exact iff_of_false (lt_irrefl _) (lt_irrefl _)
  · exact iff_of_false (lt_asymm (toDigits_lt_toDigits width m n hn hgt)) (lt_asymm hgt)

theorem toDigits_inj (hn : n < 10 ^ width) (hm : m < 10 ^ width) :
    toDigits width n = toDigits width m ↔ n = m := by
  constructor
  · intro h
    rcases lt_trichotomy n m with hlt | heq | hgt
    · exact absurd (h ▸ toDigits_lt_toDigits width n m hm hlt) (lt_irrefl _)
    · exact heq
    · exact absurd (h ▸ toDigits_lt_toDigits width m n hn hgt) (lt_irrefl _)
  · intro h
    rw [h]

theorem digits_append_lt_iff (x y : List Char) (hn : n < 10 ^ width) (hm : m < 10 ^ width) :
    toDigits width n ++ x < toDigits width m ++ y ↔ n < m ∨ (n = m ∧ x < y) := by
  rw [append_lt_append_iff _ _ _ _ (by rw [length_toDigits, length_toDigits]),
    toDigits_lt_iff hn hm, toDigits_inj hn hm]

theorem cons_lt_cons_same (c : Char) (x y : List Char) : c :: x < c :: y ↔ x < y := by
  simp

def secondChars (t : CivilTime) : List Char :=
  toDigits 4 t.year.natAbs ++ '-' :: (toDigits 2 t.month ++ '-' :: (toDigits 2 t.day ++
    'T' :: (toDigits 2 t.hour ++ ':' :: (toDigits 2 t.minute ++ ':' :: toDigits 2 t.second))))

theorem body_eq (t : CivilTime) :
    t.body = secondChars t ++ (fractionText t.nanosecond ++ zoneText t.offset) := by
  simp [CivilTime.body, secondChars]

theorem length_secondChars (t : CivilTime) : (secondChars t).length = 19 := by
  simp [secondChars, length_toDigits]

/-- A time that the text can show in UTC. -/
structure UtcTime extends CivilTime where
  offset_eq : offset = 0
  year_mem : 0 ≤ year ∧ year ≤ 9999

namespace UtcTime

variable (t : UtcTime)

def instant : ℤ := t.toCivilTime.instant

def seconds : ℤ :=
  (daysBeforeYear t.year + daysBeforeMonth t.year t.month + t.day - 1 - 719528) * 86400 +
    t.hour * 3600 + t.minute * 60 + t.second

def text : String := String.ofList t.body

def fraction : List Char := trimZeros (toDigits 9 t.nanosecond)

theorem instant_eq (t : UtcTime) : t.instant = t.seconds * 1000000000 + t.nanosecond := by
  unfold instant CivilTime.instant instantOf seconds
  rw [t.offset_eq]
  ring

def Before (u : UtcTime) : Prop :=
  t.year < u.year ∨ (t.year = u.year ∧ (t.month < u.month ∨ (t.month = u.month ∧
    (t.day < u.day ∨ (t.day = u.day ∧ (t.hour < u.hour ∨ (t.hour = u.hour ∧
      (t.minute < u.minute ∨ (t.minute = u.minute ∧ t.second < u.second)))))))))

theorem day_lt (t : UtcTime) : t.day < 10 ^ 2 := by
  have hday := t.day_mem
  have hbound : daysIn t.year t.month ≤ 31 := by
    unfold daysIn
    split <;> split <;> omega
  omega

theorem secondChars_lt_iff (t u : UtcTime) :
    secondChars t.toCivilTime < secondChars u.toCivilTime ↔ Before t u := by
  have ht := t.year_mem
  have hu := u.year_mem
  have htm := t.month_mem
  have hum := u.month_mem
  have htd := t.day_lt
  have hud := u.day_lt
  have hth := t.hour_lt
  have huh := u.hour_lt
  have htmin := t.minute_lt
  have humin := u.minute_lt
  have hts := t.second_lt
  have hus := u.second_lt
  unfold secondChars Before
  rw [digits_append_lt_iff _ _ (by omega) (by omega), cons_lt_cons_same,
    digits_append_lt_iff _ _ (by omega) (by omega), cons_lt_cons_same,
    digits_append_lt_iff _ _ htd hud, cons_lt_cons_same,
    digits_append_lt_iff _ _ (by omega) (by omega), cons_lt_cons_same,
    digits_append_lt_iff _ _ (by omega) (by omega), cons_lt_cons_same,
    toDigits_lt_iff (by omega) (by omega)]
  have hyear : t.year.natAbs < u.year.natAbs ↔ t.year < u.year := by omega
  have hyear' : t.year.natAbs = u.year.natAbs ↔ t.year = u.year := by omega
  rw [hyear, hyear']

end UtcTime

variable (year : ℤ)

theorem daysBeforeMonth_succ {month : ℕ} (h : 1 ≤ month) :
    daysBeforeMonth year (month + 1) = daysBeforeMonth year month + daysIn year month := by
  obtain ⟨m, rfl⟩ : ∃ m, month = m + 1 := ⟨month - 1, by omega⟩
  unfold daysBeforeMonth
  rw [Nat.add_sub_cancel, Nat.add_sub_cancel, range_succ]
  simp

theorem daysBeforeMonth_mono (hm : 1 ≤ m) (h : m ≤ n) :
    daysBeforeMonth year m ≤ daysBeforeMonth year n := by
  induction n, h using Nat.le_induction with
  | base => exact le_refl _
  | succ n hmn ih =>
    rw [daysBeforeMonth_succ year (hm.trans hmn)]
    omega

theorem daysBeforeYear_succ :
    daysBeforeYear (year + 1) = daysBeforeYear year + daysBeforeMonth year 13 := by
  have hmonths : daysBeforeMonth year 13 = 337 + daysIn year 2 := by
    simp [daysBeforeMonth, range_succ, daysIn]
    omega
  rw [hmonths]
  unfold daysBeforeYear daysIn
  simp only [if_true]
  by_cases hleap : isLeap year = true
  · rw [if_pos hleap]
    simp only [isLeap, Bool.and_eq_true, Bool.or_eq_true, decide_eq_true_eq] at hleap
    omega
  · rw [if_neg hleap]
    simp only [isLeap, Bool.and_eq_true, Bool.or_eq_true, decide_eq_true_eq] at hleap
    omega

theorem daysBeforeYear_mono (y z : ℤ) (h : y ≤ z) : daysBeforeYear y ≤ daysBeforeYear z := by
  unfold daysBeforeYear
  omega

namespace UtcTime

def days (t : UtcTime) : ℤ :=
  daysBeforeYear t.year + daysBeforeMonth t.year t.month + t.day - 1

variable {t u : UtcTime}

theorem days_lt_of_year (h : t.year < u.year) : t.days < u.days := by
  have hday := t.day_mem
  have hmonth := t.month_mem
  have huday := u.day_mem
  have hend := daysBeforeMonth_mono t.year (m := t.month + 1) (n := 13) (by omega) (by omega)
  rw [daysBeforeMonth_succ t.year hmonth.1] at hend
  have hnext := daysBeforeYear_succ t.year
  have hmono := daysBeforeYear_mono (t.year + 1) u.year (by omega)
  unfold days
  omega

theorem days_lt_of_month (hyear : t.year = u.year) (h : t.month < u.month) : t.days < u.days := by
  have hday := t.day_mem
  have hmonth := t.month_mem
  have huday := u.day_mem
  have hend := daysBeforeMonth_mono t.year (m := t.month + 1) (n := u.month) (by omega) (by omega)
  rw [daysBeforeMonth_succ t.year hmonth.1] at hend
  unfold days
  rw [← hyear]
  omega

theorem seconds_eq (t : UtcTime) :
    t.seconds = (t.days - 719528) * 86400 + t.hour * 3600 + t.minute * 60 + t.second := rfl

theorem seconds_lt_of_days (h : t.days < u.days) : t.seconds < u.seconds := by
  have hth := t.hour_lt
  have htm := t.minute_lt
  have hts := t.second_lt
  rw [seconds_eq, seconds_eq]
  omega

theorem seconds_lt_of_before (t u : UtcTime) (h : Before t u) : t.seconds < u.seconds := by
  have hm := t.minute_lt
  have hs := t.second_lt
  rcases h with hyear | ⟨hyear, hmonth | ⟨hmonth, hday | ⟨hday, htime⟩⟩⟩
  · exact seconds_lt_of_days (days_lt_of_year hyear)
  · exact seconds_lt_of_days (days_lt_of_month hyear hmonth)
  · refine seconds_lt_of_days ?_
    unfold days
    rw [hyear, hmonth]
    omega
  · have hdays : t.days = u.days := by
      unfold days
      rw [hyear, hmonth, hday]
    rw [seconds_eq, seconds_eq, hdays]
    omega

theorem before_or_same (t u : UtcTime) :
    Before t u ∨ Before u t ∨
      (secondChars t.toCivilTime = secondChars u.toCivilTime ∧ t.seconds = u.seconds) := by
  rcases lt_trichotomy (secondChars t.toCivilTime) (secondChars u.toCivilTime) with hlt | heq | hgt
  · exact .inl ((secondChars_lt_iff t u).mp hlt)
  · refine .inr (.inr ⟨heq, ?_⟩)
    have hnot : ¬ Before t u := fun h => absurd ((secondChars_lt_iff t u).mpr h) (heq ▸ lt_irrefl _)
    have hnot' : ¬ Before u t := fun h => absurd ((secondChars_lt_iff u t).mpr h)
      (heq ▸ lt_irrefl _)
    unfold Before at hnot hnot'
    have hyear : t.year = u.year := by omega
    have hmonth : t.month = u.month := by omega
    have hday : t.day = u.day := by omega
    have hhour : t.hour = u.hour := by omega
    have hminute : t.minute = u.minute := by omega
    have hsecond : t.second = u.second := by omega
    unfold seconds
    rw [hyear, hmonth, hday, hhour, hminute, hsecond]
  · exact .inr (.inl ((secondChars_lt_iff u t).mp hgt))

end UtcTime

theorem lt_Z_of_digit {c : Char} (h : (digitValue c).isSome = true) : c < 'Z' := by
  unfold digitValue at h
  split at h
  · rename_i hc
    exact lt_of_le_of_lt hc.2 (by decide)
  · cases h

/-- Fractions are ordered as their texts with a Z, unless the first begins the second. -/
theorem fraction_Z_lt_iff (a b : List Char) {j k : ℕ}
    (ha : ∀ c ∈ a, (digitValue c).isSome = true) (hb : ∀ c ∈ b, (digitValue c).isSome = true)
    (hlen : a.length + j = b.length + k)
    (hlt : a ++ List.replicate j '0' < b ++ List.replicate k '0') :
    a ++ ['Z'] < b ++ ['Z'] ↔ ¬ a <+: b := by
  induction a generalizing b with
  | nil =>
    refine iff_of_false ?_ (not_not.mpr ⟨b, rfl⟩)
    cases b with
    | nil =>
      -- both fractions are zero
      have hjk : j = k := by simpa using hlen
      rw [hjk] at hlt
      exact absurd hlt (lt_irrefl _)
    | cons d b =>
      have hd := lt_Z_of_digit (hb d mem_cons_self)
      rw [nil_append, cons_append, cons_lt_cons_iff]
      rintro (h | ⟨h, -⟩)
      · exact lt_asymm h hd
      · exact absurd hd (h ▸ lt_irrefl _)
  | cons c a ih =>
    have hc := lt_Z_of_digit (ha c mem_cons_self)
    cases b with
    | nil =>
      refine iff_of_true ?_ (by simp)
      rw [cons_append, nil_append, cons_lt_cons_iff]
      exact .inl hc
    | cons d b =>
      rw [cons_append, cons_append, cons_lt_cons_iff] at hlt
      rw [cons_append, cons_append, cons_lt_cons_iff, cons_prefix_cons]
      rcases hlt with hcd | ⟨rfl, hrest⟩
      · refine iff_of_true (.inl hcd) ?_
        intro h
        exact absurd hcd (h.1 ▸ lt_irrefl _)
      · have hiff := ih b (fun x hx => ha x (mem_cons_of_mem _ hx))
          (fun x hx => hb x (mem_cons_of_mem _ hx)) (by simp at hlen; omega) hrest
        simpa using hiff

theorem trimZeros_digits {digits : List Char} (h : ∀ c ∈ digits, (digitValue c).isSome = true) :
    ∀ c ∈ trimZeros digits, (digitValue c).isSome = true := by
  obtain ⟨k, hk⟩ := trimZeros_split digits
  intro c hc
  exact h c (hk ▸ mem_append_left _ hc)

namespace UtcTime

/-- The earlier of two times in one second has a fraction that the later one goes on from. -/
def CutShort (t u : UtcTime) : Prop := t.seconds = u.seconds ∧ t.fraction <+: u.fraction

instance (t u : UtcTime) : Decidable (CutShort t u) :=
  inferInstanceAs (Decidable (t.seconds = u.seconds ∧ t.fraction <+: u.fraction))

variable (t : UtcTime)

theorem fraction_digits : ∀ c ∈ t.fraction, (digitValue c).isSome = true :=
  trimZeros_digits (toDigits_all 9 t.nanosecond)

theorem fractionText_lt_iff {t u : UtcTime} (h : t.nanosecond < u.nanosecond) :
    fractionText t.nanosecond ++ ['Z'] < fractionText u.nanosecond ++ ['Z'] ↔
      ¬ t.fraction <+: u.fraction := by
  obtain ⟨j, hj⟩ := trimZeros_split (toDigits 9 t.nanosecond)
  obtain ⟨k, hk⟩ := trimZeros_split (toDigits 9 u.nanosecond)
  have hlt := toDigits_lt_toDigits 9 _ _ u.nanosecond_lt h
  have hlen : t.fraction.length + j = u.fraction.length + k := by
    have ht := congrArg length hj
    have hu := congrArg length hk
    rw [length_toDigits, length_append, length_replicate] at ht hu
    exact ht.symm.trans hu
  have hpos : u.nanosecond ≠ 0 := by omega
  have hmain := fraction_Z_lt_iff t.fraction u.fraction t.fraction_digits u.fraction_digits
    hlen (hj ▸ hk ▸ hlt)
  unfold fractionText
  rw [if_neg hpos]
  by_cases hzero : t.nanosecond = 0
  · have hnil : t.fraction = [] := by
      unfold fraction
      rw [hzero]
      decide
    rw [if_pos hzero, hnil]
    refine iff_of_false ?_ (not_not.mpr ⟨_, rfl⟩)
    rw [nil_append, cons_append, cons_lt_cons_iff]
    rintro (hZ | ⟨hZ, -⟩)
    · exact absurd hZ (by decide)
    · exact absurd hZ (by decide)
  · rw [if_neg hzero, cons_append, cons_append, cons_lt_cons_same]
    exact hmain

theorem body_lt_iff (u : UtcTime) (h : t.instant < u.instant) :
    t.body < u.body ↔ ¬ CutShort t u := by
  have hu := u.nanosecond_lt
  rw [instant_eq, instant_eq] at h
  rw [body_eq, body_eq, t.offset_eq, u.offset_eq,
    append_lt_append_iff _ _ _ _ (by rw [length_secondChars, length_secondChars])]
  rcases before_or_same t u with hbefore | hbefore | ⟨hchars, hseconds⟩
  · have hlt := seconds_lt_of_before t u hbefore
    refine iff_of_true (.inl ((secondChars_lt_iff t u).mpr hbefore)) ?_
    intro hcut
    exact absurd hcut.1 (by omega)
  · have hlt := seconds_lt_of_before u t hbefore
    omega
  · have hfraction := fractionText_lt_iff (t := t) (u := u) (by omega)
    have hzone : zoneText 0 = ['Z'] := rfl
    rw [hzone, hchars]
    simp [hfraction, CutShort, hseconds]

theorem format_eq : t.format = .ok t.text := by
  have hyear := t.year_mem
  refine format_of_writable ⟨hyear.1, hyear.2, ?_⟩
  rw [t.offset_eq]
  decide

theorem parse_text : parse t.text = .ok t.instant := by
  have hparse := parse_format t.format_eq
  have hzone : zoneMinutes 0 = 0 := rfl
  rw [t.offset_eq, hzone] at hparse
  unfold instant
  simpa using hparse

theorem instant_of_body_eq (u : UtcTime) (h : t.body = u.body) : t.instant = u.instant := by
  have htext : t.text = u.text := congrArg String.ofList h
  have ht := t.parse_text
  rw [htext, u.parse_text] at ht
  exact (Except.ok.inj ht).symm

end UtcTime

section

variable {ρ : Type*} (time : ρ → UtcTime)

def textKey (r : ρ) : List Char := (time r).text.toList

theorem textKey_eq (r : ρ) : textKey time r = (time r).body := String.toList_ofList

theorem newestFirst_text_iff (l : List ρ) :
    (descending (textKey time) l).Pairwise (fun a b => (time b).instant ≤ (time a).instant) ↔
      ∀ a ∈ l, ∀ b ∈ l, (time a).instant < (time b).instant →
        ¬ UtcTime.CutShort (time a) (time b) := by
  have hfine : ∀ a ∈ l, ∀ b ∈ l, textKey time a = textKey time b →
      (time a).instant = (time b).instant := by
    intro a _ b _ h
    rw [textKey_eq, textKey_eq] at h
    exact UtcTime.instant_of_body_eq _ _ h
  rw [descending_pairwise_iff (textKey time) (fun r => (time r).instant) hfine]
  constructor
  · intro h a ha b hb hab
    have hlt := h a ha b hb hab
    rw [textKey_eq, textKey_eq] at hlt
    exact (UtcTime.body_lt_iff _ _ hab).mp hlt
  · intro h a ha b hb hab
    rw [textKey_eq, textKey_eq]
    exact (UtcTime.body_lt_iff _ _ hab).mpr (h a ha b hb hab)

end

end IronGolem.TimestampOrder
