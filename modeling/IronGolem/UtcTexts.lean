import IronGolem.TimestampOrder

/-!
Times of UTC with leap seconds and their text. The text has a fraction of no, three, six or nine
digits and the zone +00:00. A leap second belongs to the minute that it ends and is shown as its
second 60.
-/
namespace IronGolem.UtcTexts

open Rfc3339 TimestampOrder List

structure LeapTime extends UtcTime where
  /-- The second after the last one of the minute. -/
  leap : Bool
  leap_mem : leap = true → second = 59

namespace LeapTime

variable (t : LeapTime)

def minutes : ℤ := (t.days - 719528) * 1440 + t.hour * 60 + t.minute

def shownSecond : ℕ := t.second + t.leap.toNat

/-- The place of a time among all times: each second has room for a leap second after it. -/
def position : ℤ :=
  t.seconds * 2000000000 + t.leap.toNat * 1000000000 + t.nanosecond

def fractionDigits (nanosecond : ℕ) : List Char :=
  if nanosecond = 0 then []
  else if nanosecond % 1000000 = 0 then toDigits 3 (nanosecond / 1000000)
  else if nanosecond % 1000 = 0 then toDigits 6 (nanosecond / 1000)
  else toDigits 9 nanosecond

def zoneChars : List Char := ['+', '0', '0', ':', '0', '0']

def fractionChars (nanosecond : ℕ) : List Char :=
  if nanosecond = 0 then [] else '.' :: fractionDigits nanosecond

def minuteChars : List Char :=
  toDigits 4 t.year.natAbs ++ '-' :: (toDigits 2 t.month ++ '-' :: (toDigits 2 t.day ++
    'T' :: (toDigits 2 t.hour ++ ':' :: (toDigits 2 t.minute ++ [':']))))

def chars : List Char :=
  t.minuteChars ++ (toDigits 2 t.shownSecond ++ (fractionChars t.nanosecond ++ zoneChars))

def text : String := String.ofList t.chars

theorem toDigits_add (width more n : ℕ) :
    toDigits (width + more) n = toDigits width (n / 10 ^ more) ++ toDigits more n := by
  induction more generalizing n with
  | zero => simp [toDigits]
  | succ more ih =>
    have hdiv : n / 10 / 10 ^ more = n / 10 ^ (more + 1) := by
      rw [Nat.div_div_eq_div_mul, pow_succ, Nat.mul_comm]
    rw [← Nat.add_assoc, toDigits, ih, hdiv, append_assoc]
    rfl

theorem toDigits_of_dvd (width n : ℕ) (h : 10 ^ width ∣ n) :
    toDigits width n = List.replicate width '0' := by
  induction width generalizing n with
  | zero => rfl
  | succ width ih =>
    obtain ⟨k, hk⟩ := h
    have hten : n = 10 * (10 ^ width * k) := by
      rw [hk, pow_succ, Nat.mul_comm (10 ^ width) 10, Nat.mul_assoc]
    have hdiv : n / 10 = 10 ^ width * k := by omega
    have hmod : n % 10 = 0 := by omega
    rw [toDigits, ih (n / 10) ⟨k, hdiv⟩, hmod, replicate_succ']
    rfl

variable {nanosecond : ℕ}

theorem fractionDigits_pad (h : nanosecond ≠ 0) :
    ∃ k, fractionDigits nanosecond ++ List.replicate k '0' = toDigits 9 nanosecond := by
  unfold fractionDigits
  rw [if_neg h]
  split
  · rename_i hmilli
    refine ⟨6, ?_⟩
    rw [← toDigits_of_dvd 6 nanosecond (Nat.dvd_of_mod_eq_zero hmilli)]
    exact (toDigits_add 3 6 nanosecond).symm
  · split
    · rename_i hmicro
      refine ⟨3, ?_⟩
      rw [← toDigits_of_dvd 3 nanosecond (Nat.dvd_of_mod_eq_zero hmicro)]
      exact (toDigits_add 6 3 nanosecond).symm
    · exact ⟨0, by simp⟩

theorem fractionDigits_all (nanosecond : ℕ) :
    ∀ c ∈ fractionDigits nanosecond, (digitValue c).isSome = true := by
  unfold fractionDigits
  split
  · intro c hc
    exact absurd hc not_mem_nil
  · split
    · exact toDigits_all 3 _
    · split
      · exact toDigits_all 6 _
      · exact toDigits_all 9 _

theorem zero_le_digit {c : Char} (h : (digitValue c).isSome = true) : '0' ≤ c := by
  unfold digitValue at h
  split at h
  · rename_i hc
    exact hc.1
  · cases h

theorem not_lt_zeros (l : List Char) {k : ℕ} (h : ∀ c ∈ l, (digitValue c).isSome = true)
    (hlen : k ≤ l.length) : ¬ l < List.replicate k '0' := by
  induction k generalizing l with
  | zero => simp
  | succ k ih =>
    cases l with
    | nil => simp at hlen
    | cons c l =>
      have hc := zero_le_digit (h c mem_cons_self)
      have hrest := ih l (fun d hd => h d (mem_cons_of_mem c hd)) (by simpa using hlen)
      rw [replicate_succ, cons_lt_cons_iff]
      intro hlt
      rcases hlt with hlt | ⟨-, hlt⟩
      · exact absurd hlt (not_lt.mpr hc)
      · exact hrest hlt

/-- Digits that are followed by a plus sign are ordered as if they were filled up with zeros. -/
theorem digits_plus_lt (a b x y : List Char) {j k : ℕ}
    (ha : ∀ c ∈ a, (digitValue c).isSome = true) (hb : ∀ c ∈ b, (digitValue c).isSome = true)
    (hlen : a.length + j = b.length + k)
    (hlt : a ++ List.replicate j '0' < b ++ List.replicate k '0') :
    a ++ '+' :: x < b ++ '+' :: y := by
  induction a generalizing b with
  | nil =>
    cases b with
    | nil =>
      rw [length_nil, Nat.zero_add, Nat.zero_add] at hlen
      rw [hlen] at hlt
      exact absurd hlt (lt_irrefl _)
    | cons c b =>
      have hc := zero_le_digit (hb c mem_cons_self)
      have hplus : '+' < c := lt_of_lt_of_le (by decide) hc
      exact cons_lt_cons_iff.mpr (.inl hplus)
  | cons c a ih =>
    cases b with
    | nil =>
      have hzeros : ∀ d ∈ c :: a ++ replicate j '0', (digitValue d).isSome = true := by
        intro d hd
        rcases mem_append.mp hd with hd | hd
        · exact ha d hd
        · rw [eq_of_mem_replicate hd]
          decide
      refine absurd hlt (not_lt_zeros _ hzeros ?_)
      rw [length_append, length_replicate]
      omega
    | cons d b =>
      rw [cons_append, cons_append, cons_lt_cons_iff] at hlt ⊢
      rcases hlt with hcd | ⟨hcd, hrest⟩
      · exact .inl hcd
      · refine .inr ⟨hcd, ih b (fun e he => ha e (mem_cons_of_mem c he))
          (fun e he => hb e (mem_cons_of_mem d he)) ?_ hrest⟩
        simp only [length_cons] at hlen
        omega

variable {m n : ℕ}

theorem fractionChars_lt (hn : n < 10 ^ 9) (h : m < n) :
    fractionChars m ++ zoneChars < fractionChars n ++ zoneChars := by
  have hnpos : n ≠ 0 := by omega
  unfold fractionChars
  rw [if_neg hnpos]
  by_cases hm : m = 0
  · rw [if_pos hm]
    exact cons_lt_cons_iff.mpr (.inl (by decide))
  · rw [if_neg hm, cons_append, cons_append, cons_lt_cons_same]
    obtain ⟨j, hj⟩ := fractionDigits_pad hm
    obtain ⟨k, hk⟩ := fractionDigits_pad hnpos
    have hlenm := congrArg length hj
    have hlenn := congrArg length hk
    rw [length_append, length_replicate, length_toDigits] at hlenm hlenn
    refine digits_plus_lt _ _ _ _ (j := j) (k := k) (fractionDigits_all m) (fractionDigits_all n)
      (by omega) ?_
    rw [hj, hk]
    exact toDigits_lt_toDigits 9 m n hn h

theorem fractionChars_lt_iff (hm : m < 10 ^ 9) (hn : n < 10 ^ 9) :
    fractionChars m ++ zoneChars < fractionChars n ++ zoneChars ↔ m < n := by
  constructor
  · intro hlt
    by_contra hle
    rcases Nat.lt_or_eq_of_le (not_lt.mp hle) with hgt | heq
    · exact lt_asymm hlt (fractionChars_lt hm hgt)
    · rw [heq] at hlt
      exact lt_irrefl _ hlt
  · exact fractionChars_lt hn

def startOfMinute : UtcTime :=
  { t.toUtcTime with second := 0, second_lt := (Nat.zero_le t.second).trans_lt t.second_lt }

variable (t : LeapTime)

theorem length_minuteChars : t.minuteChars.length = 17 := by
  simp [minuteChars, length_toDigits]

theorem secondChars_startOfMinute :
    secondChars t.startOfMinute.toCivilTime = t.minuteChars ++ toDigits 2 0 := by
  simp [secondChars, minuteChars, startOfMinute]

theorem seconds_startOfMinute : t.startOfMinute.seconds = t.minutes * 60 := by
  have hseconds := t.startOfMinute.seconds_eq
  have hdays : t.startOfMinute.days = t.days := rfl
  have hhour : t.startOfMinute.hour = t.hour := rfl
  have hminute : t.startOfMinute.minute = t.minute := rfl
  have hsecond : t.startOfMinute.second = 0 := rfl
  unfold minutes
  omega

theorem seconds_eq_minutes : t.seconds = t.minutes * 60 + t.second := by
  have hseconds := t.toUtcTime.seconds_eq
  unfold minutes
  omega

theorem minuteChars_lt_iff_before (u : LeapTime) :
    t.minuteChars < u.minuteChars ↔ UtcTime.Before t.startOfMinute u.startOfMinute := by
  rw [← UtcTime.secondChars_lt_iff, secondChars_startOfMinute, secondChars_startOfMinute,
    append_lt_append_iff _ _ _ _ (by rw [length_minuteChars, length_minuteChars])]
  simp

theorem minuteChars_cases (u : LeapTime) :
    (t.minuteChars < u.minuteChars ∧ t.minutes < u.minutes) ∨
      (u.minuteChars < t.minuteChars ∧ u.minutes < t.minutes) ∨
        (t.minuteChars = u.minuteChars ∧ t.minutes = u.minutes) := by
  have ht := seconds_startOfMinute t
  have hu := seconds_startOfMinute u
  rcases UtcTime.before_or_same t.startOfMinute u.startOfMinute with hlt | hgt | ⟨hchars, hsame⟩
  · have hseconds := UtcTime.seconds_lt_of_before _ _ hlt
    exact .inl ⟨(minuteChars_lt_iff_before t u).mpr hlt, by omega⟩
  · have hseconds := UtcTime.seconds_lt_of_before _ _ hgt
    exact .inr (.inl ⟨(minuteChars_lt_iff_before u t).mpr hgt, by omega⟩)
  · rw [secondChars_startOfMinute, secondChars_startOfMinute] at hchars
    exact .inr (.inr ⟨append_cancel_right hchars, by omega⟩)

theorem shownSecond_lt : t.shownSecond < 10 ^ 2 := by
  have hsecond := t.second_lt
  have hleap := Bool.toNat_le t.leap
  unfold shownSecond
  omega

variable {u : LeapTime}

theorem position_lt_iff_of_minutes_eq (h : t.minutes = u.minutes) :
    t.position < u.position ↔ t.shownSecond < u.shownSecond ∨
      (t.shownSecond = u.shownSecond ∧ t.nanosecond < u.nanosecond) := by
  have ht := seconds_eq_minutes t
  have hu := seconds_eq_minutes u
  have htn := t.nanosecond_lt
  have hun := u.nanosecond_lt
  have hts := t.second_lt
  have hus := u.second_lt
  have htl : t.leap.toNat = 0 ∨ (t.leap.toNat = 1 ∧ t.second = 59) := by
    cases hleap : t.leap with
    | false => exact .inl rfl
    | true => exact .inr ⟨rfl, t.leap_mem hleap⟩
  have hul : u.leap.toNat = 0 ∨ (u.leap.toNat = 1 ∧ u.second = 59) := by
    cases hleap : u.leap with
    | false => exact .inl rfl
    | true => exact .inr ⟨rfl, u.leap_mem hleap⟩
  unfold position shownSecond
  omega

theorem position_lt_of_minutes_lt (h : t.minutes < u.minutes) : t.position < u.position := by
  have ht := seconds_eq_minutes t
  have hu := seconds_eq_minutes u
  have htn := t.nanosecond_lt
  have hts := t.second_lt
  have hleap := Bool.toNat_le t.leap
  unfold position
  omega

theorem chars_lt_iff (u : LeapTime) : t.chars < u.chars ↔ t.position < u.position := by
  unfold chars
  rw [append_lt_append_iff _ _ _ _ (by rw [length_minuteChars, length_minuteChars]),
    digits_append_lt_iff _ _ t.shownSecond_lt u.shownSecond_lt,
    fractionChars_lt_iff t.nanosecond_lt u.nanosecond_lt]
  rcases minuteChars_cases t u with ⟨hchars, hminutes⟩ | ⟨hchars, hminutes⟩ | ⟨hchars, hminutes⟩
  · exact iff_of_true (.inl hchars) (position_lt_of_minutes_lt t hminutes)
  · refine iff_of_false ?_ (lt_asymm (position_lt_of_minutes_lt u hminutes))
    intro h
    rcases h with h | ⟨h, -⟩
    · exact lt_asymm h hchars
    · rw [h] at hchars
      exact lt_irrefl _ hchars
  · rw [position_lt_iff_of_minutes_eq t hminutes, hchars]
    simp

theorem eq_of_fields (hyear : t.year = u.year) (hmonth : t.month = u.month)
    (hday : t.day = u.day) (hhour : t.hour = u.hour) (hminute : t.minute = u.minute)
    (hsecond : t.second = u.second) (hnano : t.nanosecond = u.nanosecond)
      (hleap : t.leap = u.leap) : t = u := by
  have hoffset : t.offset = u.offset := t.offset_eq.trans u.offset_eq.symm
  obtain ⟨⟨⟨_, _, _, _, _, _, _, _, _, _, _, _, _, _⟩, _, _⟩, _, _⟩ := t
  simp_all

def InRange (year month day hour minute second nanosecond : ℕ) (offset : ℤ) : Prop :=
  (1 ≤ month ∧ month ≤ 12) ∧ (1 ≤ day ∧ day ≤ daysIn year month) ∧ hour < 24 ∧ minute < 60 ∧
    second ≤ 60 ∧ nanosecond < 1000000000 ∧ year ≤ 9999 ∧ offset = 0

instance (year month day hour minute second nanosecond : ℕ) (offset : ℤ) :
    Decidable (InRange year month day hour minute second nanosecond offset) := by
  unfold InRange
  infer_instance

/-- Second 60 is read as the leap second after second 59. -/
def ofFields (year month day hour minute second nanosecond : ℕ) (offset : ℤ)
    (h : InRange year month day hour minute second nanosecond offset) : LeapTime where
  year := year
  month := month
  day := day
  hour := hour
  minute := minute
  second := if second = 60 then 59 else second
  nanosecond := nanosecond
  offset := offset
  month_mem := h.1
  day_mem := h.2.1
  hour_lt := h.2.2.1
  minute_lt := h.2.2.2.1
  second_lt := by
    have hsecond := h.2.2.2.2.1
    split <;> omega
  nanosecond_lt := h.2.2.2.2.2.1
  offset_eq := h.2.2.2.2.2.2.2
  year_mem := by
    have hyear := h.2.2.2.2.2.2.1
    omega
  leap := second = 60
  leap_mem := by
    intro hleap
    rw [if_pos (of_decide_eq_true hleap)]

/-- The time that a text denotes. Texts with another zone are not read. -/
def parse (text : String) : Except String LeapTime := do
  let (year, rest) ← takeNumber 4 text.toList
  let rest ← expect '-' rest
  let (month, rest) ← takeNumber 2 rest
  let rest ← expect '-' rest
  let (day, rest) ← takeNumber 2 rest
  let rest ← expect 'T' rest
  let (hour, rest) ← takeNumber 2 rest
  let rest ← expect ':' rest
  let (minute, rest) ← takeNumber 2 rest
  let rest ← expect ':' rest
  let (second, rest) ← takeNumber 2 rest
  let (nanosecond, rest) ← readFraction rest
  let offset ← readZone rest
  if h : InRange year month day hour minute second nanosecond offset then
    .ok (ofFields year month day hour minute second nanosecond offset h)
  else .error "input is out of range"

theorem readFraction_fractionChars (h : nanosecond < 10 ^ 9) :
    readFraction (fractionChars nanosecond ++ zoneChars) = .ok (nanosecond, zoneChars) := by
  unfold fractionChars
  by_cases hzero : nanosecond = 0
  · rw [if_pos hzero, hzero]
    rfl
  · rw [if_neg hzero, cons_append]
    obtain ⟨k, hk⟩ := fractionDigits_pad hzero
    have hlen := congrArg length hk
    rw [length_append, length_replicate, length_toDigits] at hlen
    have hvalue : ofDigits (toDigits 9 nanosecond) = some nanosecond := by
      rw [ofDigits_toDigits, Nat.mod_eq_of_lt h]
    refine readFraction_digits _ _ ?_ (fractionDigits_all nanosecond) (by decide) ?_
    · intro hnil
      rw [hnil, nil_append] at hk
      rw [← hk, ofDigits_zeros] at hvalue
      exact hzero (Option.some.inj hvalue).symm
    · rw [take_append, take_of_length_le (by omega), take_replicate,
        show min (9 - (fractionDigits nanosecond).length) 9 = k by omega, hk, hvalue]

theorem inRange_fields : InRange t.year.natAbs t.month t.day t.hour t.minute
    t.shownSecond t.nanosecond 0 := by
  have hyear := t.year_mem
  have hcast : (t.year.natAbs : ℤ) = t.year := by omega
  have hsecond := t.second_lt
  have hleap := Bool.toNat_le t.leap
  refine ⟨t.month_mem, ?_, t.hour_lt, t.minute_lt, ?_, t.nanosecond_lt, by omega, rfl⟩
  · rw [hcast]
    exact t.day_mem
  · unfold shownSecond
    omega

theorem ofFields_self :
    ofFields t.year.natAbs t.month t.day t.hour t.minute t.shownSecond t.nanosecond 0
      t.inRange_fields = t := by
  have hyear := t.year_mem
  have hsecond := t.second_lt
  apply eq_of_fields
  · exact Int.natAbs_of_nonneg hyear.1
  · rfl
  · rfl
  · rfl
  · rfl
  · cases hleap : t.leap with
    | false => simp [ofFields, shownSecond, hleap, show t.second ≠ 60 by omega]
    | true => simp [ofFields, shownSecond, hleap, t.leap_mem hleap]
  · rfl
  · cases hleap : t.leap with
    | false => simp [ofFields, shownSecond, hleap, show t.second ≠ 60 by omega]
    | true => simp [ofFields, shownSecond, hleap, t.leap_mem hleap]

theorem parse_text : parse t.text = .ok t := by
  have hmonth := t.month_mem
  have hday := t.toUtcTime.day_lt
  have hhour := t.hour_lt
  have hminute := t.minute_lt
  have hyear := t.year_mem
  unfold parse text
  rw [String.toList_ofList]
  simp only [chars, minuteChars, append_assoc, cons_append, nil_append,
    takeNumber_toDigits 4 t.year.natAbs _ (by omega),
    takeNumber_toDigits 2 t.month _ (by omega), takeNumber_toDigits 2 t.day _ hday,
    takeNumber_toDigits 2 t.hour _ (by omega), takeNumber_toDigits 2 t.minute _ (by omega),
    takeNumber_toDigits 2 t.shownSecond _ t.shownSecond_lt, expect_cons,
    readFraction_fractionChars t.nanosecond_lt, bind, Except.bind]
  have hzone : readZone zoneChars = .ok 0 := rfl
  simp only [hzone]
  rw [dif_pos t.inRange_fields, ofFields_self]

end LeapTime

end IronGolem.UtcTexts
