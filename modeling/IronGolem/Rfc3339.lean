import Mathlib.Data.List.Range
import Mathlib.Tactic.Ring

/-!
Calendar times and their RFC 3339 text. A calendar time is what a clock on a wall shows together
with the offset of its zone, and denotes an instant in nanoseconds since 1970. The text has a
four-digit year, the fraction of the second without trailing zeros, and the zone in whole minutes.
-/
namespace IronGolem.Rfc3339

open List

variable (year : ℤ)

def isLeap : Bool := year % 4 = 0 && (year % 100 ≠ 0 || year % 400 = 0)

variable (month : ℕ)

def daysIn : ℕ :=
  if month = 2 then (if isLeap year then 29 else 28)
  else if month = 4 ∨ month = 6 ∨ month = 9 ∨ month = 11 then 30
  else 31

def daysBeforeYear : ℤ :=
  365 * year + (year + 3) / 4 - (year + 99) / 100 + (year + 399) / 400

def daysBeforeMonth : ℕ :=
  ((List.range (month - 1)).map fun m => daysIn year (m + 1)).sum

def instantOf (day hour minute second nanosecond : ℕ) (offset : ℤ) : ℤ :=
  ((daysBeforeYear year + daysBeforeMonth year month + day - 1 - 719528) * 86400 +
    hour * 3600 + minute * 60 + second - offset) * 1000000000 + nanosecond

structure CivilTime where
  year : ℤ
  month : ℕ
  day : ℕ
  hour : ℕ
  minute : ℕ
  second : ℕ
  nanosecond : ℕ
  /-- Seconds east of UTC. -/
  offset : ℤ
  month_mem : 1 ≤ month ∧ month ≤ 12
  day_mem : 1 ≤ day ∧ day ≤ daysIn year month
  hour_lt : hour < 24
  minute_lt : minute < 60
  second_lt : second < 60
  nanosecond_lt : nanosecond < 1000000000

variable (t : CivilTime)

def CivilTime.instant : ℤ :=
  instantOf t.year t.month t.day t.hour t.minute t.second t.nanosecond t.offset

def digit (n : ℕ) : Char := "0123456789".toList.getD n '0'

def digitValue (c : Char) : Option ℕ :=
  if '0' ≤ c ∧ c ≤ '9' then some (c.toNat - '0'.toNat) else none

/-- The last `width` decimal digits of a number, most significant first. -/
def toDigits : ℕ → ℕ → List Char
  | 0, _ => []
  | width + 1, n => toDigits width (n / 10) ++ [digit (n % 10)]

def ofDigits (digits : List Char) : Option ℕ :=
  digits.foldlM (fun acc c => (digitValue c).map (10 * acc + ·)) 0

theorem digitValue_digit {n : ℕ} (h : n < 10) : digitValue (digit n) = some n := by
  have hall : ∀ m < 10, digitValue (digit m) = some m := by decide
  exact hall n h

theorem length_toDigits (width n : ℕ) : (toDigits width n).length = width := by
  induction width generalizing n with
  | zero => rfl
  | succ width ih => simp [toDigits, ih]

theorem ofDigits_toDigits (width n : ℕ) : ofDigits (toDigits width n) = some (n % 10 ^ width) := by
  induction width generalizing n with
  | zero => simp [toDigits, ofDigits, Nat.mod_one]
  | succ width ih =>
    have hdigit := digitValue_digit (Nat.mod_lt n (by omega))
    have happend : ofDigits (toDigits width (n / 10) ++ [digit (n % 10)]) =
        (ofDigits (toDigits width (n / 10))).bind
          (fun acc => (digitValue (digit (n % 10))).map (10 * acc + ·)) := by
      simp [ofDigits, foldlM_append]
    rw [toDigits, happend, ih]
    simp only [Option.bind_some, hdigit, Option.map_some, Option.some.injEq]
    rw [pow_succ, Nat.mul_comm (10 ^ width) 10, Nat.mod_mul]
    omega

theorem toDigits_all (width n : ℕ) : ∀ c ∈ toDigits width n, (digitValue c).isSome = true := by
  induction width generalizing n with
  | zero => simp [toDigits]
  | succ width ih =>
    intro c hc
    rcases mem_append.mp hc with hc | hc
    · exact ih (n / 10) c hc
    · rw [mem_singleton.mp hc, digitValue_digit (Nat.mod_lt n (by omega))]
      rfl

def trimZeros : List Char → List Char
  | [] => []
  | c :: rest =>
    match trimZeros rest with
    | [] => if c = '0' then [] else [c]
    | kept => c :: kept

def fractionText (nanosecond : ℕ) : List Char :=
  if nanosecond = 0 then [] else '.' :: trimZeros (toDigits 9 nanosecond)

def zoneMinutes (offset : ℤ) : ℤ := offset.tdiv 60

def zoneText (offset : ℤ) : List Char :=
  if offset = 0 then ['Z']
  else (if zoneMinutes offset < 0 then '-' else '+') ::
    (toDigits 2 ((zoneMinutes offset).natAbs / 60) ++
      ':' :: toDigits 2 ((zoneMinutes offset).natAbs % 60))

def CivilTime.body : List Char :=
  toDigits 4 t.year.natAbs ++ '-' :: (toDigits 2 t.month ++ '-' :: (toDigits 2 t.day ++
    'T' :: (toDigits 2 t.hour ++ ':' :: (toDigits 2 t.minute ++ ':' :: (toDigits 2 t.second ++
      (fractionText t.nanosecond ++ zoneText t.offset))))))

def CivilTime.Writable : Prop :=
  0 ≤ t.year ∧ t.year ≤ 9999 ∧ (zoneMinutes t.offset).natAbs / 60 < 24

instance (t : CivilTime) : Decidable t.Writable := by
  unfold CivilTime.Writable
  infer_instance

def CivilTime.format : Except String String :=
  if ¬ (0 ≤ t.year ∧ t.year ≤ 9999) then .error "year outside of range [0,9999]"
  else if ¬ (zoneMinutes t.offset).natAbs / 60 < 24 then
    .error "timezone hour outside of range [0,23]"
  else .ok (String.ofList t.body)

variable {t : CivilTime}

theorem format_of_writable (h : t.Writable) : t.format = .ok (String.ofList t.body) := by
  obtain ⟨hlow, hhigh, hzone⟩ := h
  unfold CivilTime.format
  rw [if_neg (not_not.mpr ⟨hlow, hhigh⟩), if_neg (not_not.mpr hzone)]

variable {text : String}

theorem writable_of_format (h : t.format = .ok text) :
    t.Writable ∧ text = String.ofList t.body := by
  unfold CivilTime.format at h
  split at h
  · cases h
  · rename_i hyear
    split at h
    · cases h
    · rename_i hzone
      rw [not_not] at hyear hzone
      cases h
      exact ⟨⟨hyear.1, hyear.2, hzone⟩, rfl⟩

def expect (c : Char) : List Char → Except String (List Char)
  | [] => .error "premature end of input"
  | d :: rest => if d = c then .ok rest else .error "input contains invalid characters"

def takeNumber (width : ℕ) (text : List Char) : Except String (ℕ × List Char) :=
  if text.length < width then .error "premature end of input"
  else match ofDigits (text.take width) with
    | some n => .ok (n, text.drop width)
    | none => .error "input contains invalid characters"

/-- The digits after the point, read as nanoseconds; digits beyond the ninth are dropped. -/
def readFraction : List Char → Except String (ℕ × List Char)
  | '.' :: rest =>
    let digits := rest.takeWhile (fun c => (digitValue c).isSome)
    match digits with
    | [] => .error "input contains invalid characters"
    | _ => match ofDigits ((digits ++ List.replicate 9 '0').take 9) with
      | some n => .ok (n, rest.dropWhile (fun c => (digitValue c).isSome))
      | none => .error "input contains invalid characters"
  | text => .ok (0, text)

def readOffset (sign : Char) (rest : List Char) : Except String ℤ := do
  let (hours, rest) ← takeNumber 2 rest
  let rest ← expect ':' rest
  let (minutes, rest) ← takeNumber 2 rest
  if rest ≠ [] then .error "trailing input"
  else if 24 ≤ hours ∨ 60 ≤ minutes then .error "input is out of range"
  else if sign = '+' then .ok (hours * 3600 + minutes * 60)
  else if sign = '-' then .ok (-(hours * 3600 + minutes * 60))
  else .error "input contains invalid characters"

def readZone : List Char → Except String ℤ
  | [] => .error "premature end of input"
  | sign :: rest => if sign = 'Z' ∧ rest = [] then .ok 0 else readOffset sign rest

/-- The instant that a text denotes. -/
def parse (text : String) : Except String ℤ := do
  let (year, rest) ← takeNumber 4 text.toList
  let rest ← expect '-' rest
  let (month, rest) ← takeNumber 2 rest
  let rest ← expect '-' rest
  let (day, rest) ← takeNumber 2 rest
  let rest ← expect 'T' rest
  let (hour, rest) ← takeNumber 2 rest
  let rest ← expect ':' rest
  let (minute, rest) ← takeNumber 2 rest
  let rest ← expect ':' rest
  let (second, rest) ← takeNumber 2 rest
  let (nanosecond, rest) ← readFraction rest
  let offset ← readZone rest
  if 1 ≤ month ∧ month ≤ 12 ∧ 1 ≤ day ∧ day ≤ daysIn year month ∧ hour < 24 ∧ minute < 60 ∧
      second < 60 then
    .ok (instantOf year month day hour minute second nanosecond offset)
  else .error "input is out of range"

@[simp] theorem expect_cons (c : Char) (rest : List Char) : expect c (c :: rest) = .ok rest := by
  simp [expect]

theorem takeNumber_toDigits (width n : ℕ) (rest : List Char) (h : n < 10 ^ width) :
    takeNumber width (toDigits width n ++ rest) = .ok (n, rest) := by
  have hlen := length_toDigits width n
  have htake : (toDigits width n ++ rest).take width = toDigits width n := by
    rw [take_append_of_le_length (by omega), take_of_length_le (by omega)]
  have hdrop : (toDigits width n ++ rest).drop width = rest := drop_left' hlen
  unfold takeNumber
  rw [if_neg (by rw [length_append]; omega), htake, hdrop, ofDigits_toDigits, Nat.mod_eq_of_lt h]

theorem trimZeros_split (digits : List Char) :
    ∃ k, digits = trimZeros digits ++ List.replicate k '0' := by
  induction digits with
  | nil => exact ⟨0, rfl⟩
  | cons c rest ih =>
    obtain ⟨k, hk⟩ := ih
    cases hkept : trimZeros rest with
    | nil =>
      rw [hkept, nil_append] at hk
      by_cases hc : c = '0'
      · refine ⟨k + 1, ?_⟩
        simp [trimZeros, hkept, hc, replicate_succ, ← hk]
      · refine ⟨k, ?_⟩
        simp [trimZeros, hkept, hc, ← hk]
    | cons d kept =>
      refine ⟨k, ?_⟩
      rw [hkept] at hk
      simp only [trimZeros, hkept]
      rw [hk, cons_append]
      rfl

theorem pad_trimZeros {digits : List Char} (h : digits.length = 9) :
    (trimZeros digits ++ List.replicate 9 '0').take 9 = digits := by
  obtain ⟨k, hk⟩ := trimZeros_split digits
  have hlen : (trimZeros digits).length + k = 9 := by
    rw [← h, congrArg length hk, length_append, length_replicate]
  rw [take_append, take_of_length_le (by omega), take_replicate,
    show min (9 - (trimZeros digits).length) 9 = k by omega]
  exact hk.symm

theorem zoneText_head (offset : ℤ) : ∃ c rest, zoneText offset = c :: rest ∧
    digitValue c = none ∧ c ≠ '.' := by
  unfold zoneText
  split
  · exact ⟨'Z', [], rfl, by decide, by decide⟩
  · split
    · exact ⟨'-', _, rfl, by decide, by decide⟩
    · exact ⟨'+', _, rfl, by decide, by decide⟩

theorem ofDigits_zeros (k : ℕ) : ofDigits (List.replicate k '0') = some 0 := by
  induction k with
  | zero => rfl
  | succ k ih =>
    exact ih

theorem readFraction_digits (digits tail : List Char) {c : Char} {n : ℕ} (hne : digits ≠ [])
    (hdigits : ∀ d ∈ digits, (digitValue d).isSome = true) (hc : digitValue c = none)
    (hvalue : ofDigits ((digits ++ List.replicate 9 '0').take 9) = some n) :
    readFraction ('.' :: (digits ++ c :: tail)) = .ok (n, c :: tail) := by
  have htake : (digits ++ c :: tail).takeWhile (fun d => (digitValue d).isSome) = digits := by
    rw [takeWhile_append_of_pos hdigits, takeWhile_cons_of_neg (by simp [hc]), append_nil]
  have hdrop : (digits ++ c :: tail).dropWhile (fun d => (digitValue d).isSome) = c :: tail := by
    rw [dropWhile_append_of_pos hdigits, dropWhile_cons_of_neg (by simp [hc])]
  simp only [readFraction, htake, hdrop, hvalue]

theorem readFraction_fractionText {nanosecond : ℕ} {rest : List Char} (h : nanosecond < 1000000000)
    (hrest : ∃ c tail, rest = c :: tail ∧ digitValue c = none ∧ c ≠ '.') :
    readFraction (fractionText nanosecond ++ rest) = .ok (nanosecond, rest) := by
  obtain ⟨c, tail, rfl, hc, hpoint⟩ := hrest
  unfold fractionText
  by_cases hzero : nanosecond = 0
  · rw [if_pos hzero, hzero, nil_append]
    unfold readFraction
    split
    · rename_i heq
      cases heq
      exact absurd rfl hpoint
    · rfl
  · rw [if_neg hzero, cons_append]
    obtain ⟨k, hk⟩ := trimZeros_split (toDigits 9 nanosecond)
    have hvalue : ofDigits (toDigits 9 nanosecond) = some nanosecond := by
      rw [ofDigits_toDigits, Nat.mod_eq_of_lt (by omega)]
    refine readFraction_digits _ tail ?_ ?_ hc ?_
    · -- only zeros would have been left out, so the number would be zero
      intro hnil
      rw [hnil, nil_append] at hk
      rw [hk, ofDigits_zeros] at hvalue
      cases hvalue
      exact hzero rfl
    · intro d hd
      apply toDigits_all 9 nanosecond
      rw [hk]
      exact mem_append_left _ hd
    · rw [pad_trimZeros (length_toDigits 9 nanosecond), hvalue]

theorem readZone_zoneText {offset : ℤ} (h : (zoneMinutes offset).natAbs / 60 < 24) :
    readZone (zoneText offset) = .ok (60 * zoneMinutes offset) := by
  unfold zoneText
  by_cases hzero : offset = 0
  · rw [if_pos hzero, hzero]
    rfl
  · rw [if_neg hzero]
    have hhours := takeNumber_toDigits 2 ((zoneMinutes offset).natAbs / 60)
      (':' :: toDigits 2 ((zoneMinutes offset).natAbs % 60)) (by omega)
    have hminutes := takeNumber_toDigits 2 ((zoneMinutes offset).natAbs % 60) [] (by omega)
    rw [append_nil] at hminutes
    by_cases hsign : zoneMinutes offset < 0
    · rw [if_pos hsign]
      rw [readZone, if_neg (by simp)]
      simp only [readOffset, hhours, hminutes, expect_cons, bind, Except.bind]
      rw [if_neg (by simp), if_neg (by omega), if_neg (by decide), if_pos trivial]
      congr 1
      omega
    · rw [if_neg hsign]
      rw [readZone, if_neg (by simp)]
      simp only [readOffset, hhours, hminutes, expect_cons, bind, Except.bind]
      rw [if_neg (by simp), if_neg (by omega), if_pos trivial]
      congr 1
      omega

theorem parse_format (h : t.format = .ok text) :
    parse text = .ok (t.instant + (t.offset - 60 * zoneMinutes t.offset) * 1000000000) := by
  obtain ⟨⟨hlow, hhigh, hzone⟩, rfl⟩ := writable_of_format h
  have hmonth := t.month_mem
  have hday := t.day_mem
  have hdays : daysIn t.year t.month ≤ 31 := by
    unfold daysIn
    split <;> split <;> omega
  have hhour := t.hour_lt
  have hminute := t.minute_lt
  have hsecond := t.second_lt
  have hyear : (t.year.natAbs : ℤ) = t.year := by omega
  unfold parse
  rw [String.toList_ofList]
  unfold CivilTime.body
  simp only [takeNumber_toDigits 4 t.year.natAbs _ (by omega),
    takeNumber_toDigits 2 t.month _ (by omega), takeNumber_toDigits 2 t.day _ (by omega),
    takeNumber_toDigits 2 t.hour _ (by omega), takeNumber_toDigits 2 t.minute _ (by omega),
    takeNumber_toDigits 2 t.second _ (by omega), expect_cons,
    readFraction_fractionText t.nanosecond_lt (zoneText_head t.offset),
    readZone_zoneText hzone, bind, Except.bind, hyear]
  rw [if_pos ⟨hmonth.1, hmonth.2, hday.1, hday.2, hhour, hminute, hsecond⟩]
  unfold CivilTime.instant instantOf
  ring_nf

theorem parse_format_iff (h : t.format = .ok text) :
    parse text = .ok t.instant ↔ t.offset = 60 * zoneMinutes t.offset := by
  rw [parse_format h, Except.ok.injEq]
  omega

/-- Noon of the first leap day of the millennium, in a zone of five and a half hours. -/
def leapDayNoon : CivilTime where
  year := 2000
  month := 2
  day := 29
  hour := 12
  minute := 0
  second := 0
  nanosecond := 500000000
  offset := 19800
  month_mem := by decide
  day_mem := by decide
  hour_lt := by decide
  minute_lt := by decide
  second_lt := by decide
  nanosecond_lt := by decide

example : leapDayNoon.format = .ok "2000-02-29T12:00:00.5+05:30" ∧
    parse "2000-02-29T12:00:00.5+05:30" = .ok 951805800500000000 := by decide

end IronGolem.Rfc3339
