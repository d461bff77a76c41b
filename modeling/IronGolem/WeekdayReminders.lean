import IronGolem.CivilDates
import IronGolem.RelativeReminders

/-!
Reminders for a day of the week. The extractor counts from today's date to the next day of the
name, lets the calendar carry the days over the ends of months and years, and sets the hour and the
minute that its pattern takes from the text. What time the text writes is said here on its own.
-/
namespace IronGolem.WeekdayReminders

open CommitmentStore CommitmentRuntime CommitmentExtraction InboundRequests MachineIntegers Option
  TextSearch Rfc3339 CivilDates RelativeReminders

def numberOf (digits : List Char) : ℕ := (ofDigits digits).getD 0

/-- The written hour and minute, if that is a time of day of 24 or of 12 hours. -/
def timeOfDay (c : ClockMatch) : Option (ℕ × ℕ) :=
  let h := numberOf c.hours
  let mm := numberOf c.minutes
  match c.half with
  | none => if h < 24 ∧ mm < 60 then some (h, mm) else none
  | some .am => if 1 ≤ h ∧ h ≤ 12 ∧ mm < 60 then some (h % 12, mm) else none
  | some .pm => if 1 ≤ h ∧ h ≤ 12 ∧ mm < 60 then some (h % 12 + 12, mm) else none

def dropBlanks (text : List Char) : List Char := text.dropWhile Char.isWhitespace

/-- `am` or `pm` as a word of its own, also with dots or in capitals. -/
def writtenHalf (text : List Char) : Option HalfDay × List Char :=
  let word := (dropBlanks text).map Char.toLower
  let dotted := word.take 3 = "a.m".toList ∨ word.take 3 = "p.m".toList
  let letters := if dotted then [word.headD ' ', 'm'] else word.take 2
  let rest := (dropBlanks text).drop (if dotted then 3 else 2)
  if rest.head?.any isWordChar then (none, text)
  else if letters = "am".toList then (some .am, rest)
  else if letters = "pm".toList then (some .pm, rest)
  else (none, text)

/-- A number, minutes after a colon, and a half of the day. -/
def numberText (text : List Char) : ClockMatch :=
  let hours := text.takeWhile isDigit
  let rest := text.dropWhile isDigit
  let minutes := if rest.head? = some ':' then rest.tail.takeWhile isDigit else []
  let rest := if minutes = [] then rest else rest.tail.dropWhile isDigit
  ⟨hours, minutes, (writtenHalf rest).1, (writtenHalf rest).2⟩

/-- The time that is written after the name of a day: a number after `at`, or a number without `at`
that has minutes or a half of the day. -/
def clockText (text : List Char) : Option ClockMatch :=
  let next := (text.dropWhile isWordChar).dropWhile (fun c => c.isWhitespace || c = ',')
  let after := next.drop 2
  let announced := (next.take 2).map Char.toLower = "at".toList ∧ after.head?.any Char.isWhitespace
  let c := numberText (if announced then dropBlanks after else next)
  if c.hours = [] then none
  else if announced ∨ c.minutes ≠ [] ∨ c.half ≠ none then some c
  else none

/-- The text goes on with what belongs to the number: `6th`, `6.30`, `6-7`. -/
def continues : List Char → Bool
  | [] => false
  | c :: rest => isWordChar c || (!c.isWhitespace && rest.head?.any isDigit)

/-- The hour and minute written after the name of a day, nine o'clock if none are, and none if what
is written is no time of day. -/
def writtenTime (text : List Char) : Option (ℕ × ℕ) :=
  match clockText text with
  | none => some (9, 0)
  | some c =>
      if c.hours.length ≤ 2 ∧ (c.minutes = [] ∨ c.minutes.length = 2) ∧ continues c.rest = false
      then timeOfDay c else none

/-- The first name of a day, and what follows it. -/
def namedAt (before : Option Char) (text : List Char) : Option (Weekday × List Char) :=
  if before.any isWordChar then none
  else
    ([Weekday.monday, .tuesday, .wednesday, .thursday, .friday, .saturday, .sunday].find?
      (fun d => d.text.isPrefixOf text)).map (fun d => (d, text.drop d.text.length))

variable {h mm : ℕ}

theorem timeOfDay_lt {c : ClockMatch} (hc : timeOfDay c = some (h, mm)) : h < 24 ∧ mm < 60 := by
  simp only [timeOfDay] at hc
  split at hc <;> split at hc
  all_goals cases hc
  all_goals omega

theorem writtenTime_lt {text : List Char} (ht : writtenTime text = some (h, mm)) :
    h < 24 ∧ mm < 60 := by
  unfold writtenTime at ht
  split at ht
  · cases ht
    decide
  · split at ht
    · exact timeOfDay_lt ht
    · cases ht

theorem digitValue_of_isDigit {c : Char} (h : isDigit c = true) :
    ∃ v, v < 10 ∧ digitValue c = some v := by
  simp only [isDigit, Bool.and_eq_true, decide_eq_true_eq] at h
  have hhigh : c.toNat ≤ '9'.toNat := h.2
  refine ⟨c.toNat - '0'.toNat, ?_, ?_⟩
  · have h0 : '0'.toNat = 48 := rfl
    have h9 : '9'.toNat = 57 := rfl
    omega
  · unfold digitValue
    rw [if_pos h]

theorem ofDigits_lt {digits : List Char} (hlen : digits.length ≤ 2)
    (hdigits : ∀ c ∈ digits, isDigit c = true) : ∃ v, v < 100 ∧ ofDigits digits = some v := by
  match digits, hlen, hdigits with
  | [], _, _ => exact ⟨0, by omega, rfl⟩
  | [a], _, hdigits =>
    obtain ⟨v, hv, ha⟩ := digitValue_of_isDigit (hdigits a (by simp))
    exact ⟨v, by omega, by simp [ofDigits, ha]⟩
  | [a, b], _, hdigits =>
    obtain ⟨v, hv, ha⟩ := digitValue_of_isDigit (hdigits a (by simp))
    obtain ⟨w, hw, hb⟩ := digitValue_of_isDigit (hdigits b (by simp))
    exact ⟨10 * v + w, by omega, by simp [ofDigits, ha, hb]⟩

theorem numberOf_lt {digits : List Char} (hlen : digits.length ≤ 2)
    (hdigits : ∀ c ∈ digits, isDigit c = true) : numberOf digits < 100 := by
  obtain ⟨v, hv, hof⟩ := ofDigits_lt hlen hdigits
  rw [numberOf, hof]
  exact hv

theorem parseInt_digits {digits : List Char} (hne : digits ≠ []) (hlen : digits.length ≤ 2)
    (hdigits : ∀ c ∈ digits, isDigit c = true) :
    parseInt (String.ofList digits) = some (numberOf digits : ℤ) := by
  obtain ⟨v, hv, hof⟩ := ofDigits_lt hlen hdigits
  have hrange : -2 ^ 63 ≤ (v : ℤ) ∧ (v : ℤ) < 2 ^ 63 := by omega
  unfold parseInt numberOf
  simp only [String.toList_ofList]
  split
  · exact absurd (hdigits '-' (by simp)) (by decide)
  · exact absurd (hdigits '+' (by simp)) (by decide)
  · rw [if_neg hne, hof]
    simp only [pure_def, bind_eq_bind, bind_some, map_some,
      getD_some, filter_some, hrange, and_self, decide_true, if_true]

/-- The hours are one or two digits, the minutes two digits or missing. -/
structure ReadsDigits (c : ClockMatch) : Prop where
  hours_ne : c.hours ≠ []
  hours_length : c.hours.length ≤ 2
  hours : ∀ d ∈ c.hours, isDigit d = true
  minutes_length : c.minutes.length ≤ 2
  minutes : ∀ d ∈ c.minutes, isDigit d = true

theorem minutesAt_digits (text : List Char) :
    (minutesAt text).1.length ≤ 2 ∧ ∀ d ∈ (minutesAt text).1, isDigit d = true := by
  unfold minutesAt
  split
  · split
    · rename_i a b rest hdigits
      rw [Bool.and_eq_true] at hdigits
      simp [hdigits.1, hdigits.2]
    · simp
  · simp

theorem clockAt_digits {text : List Char} {c : ClockMatch} (h : clockAt text = some c) :
    ReadsDigits c := by
  unfold clockAt at h
  simp only [bind_eq_bind] at h
  obtain ⟨rest, -, h⟩ := bind_eq_some_iff.mp h
  split at h
  · cases h
  · rename_i hne
    cases h
    refine ⟨hne, ?_, fun d hd => List.mem_takeWhile_imp hd, (minutesAt_digits _).1,
      (minutesAt_digits _).2⟩
    exact (List.takeWhile_sublist _).length_le.trans (by simp)

variable (before : Option Char) {text : List Char} {m : DayMatch} {c : ClockMatch}

theorem dayAt_eq : dayAt before text = (namedAt before text).map (fun (d, rest) =>
    ⟨d, clockAt rest, text.take (text.length -
      (((clockAt rest).map ClockMatch.rest).getD rest).length)⟩) := by
  unfold dayAt namedAt
  split
  · rfl
  · rw [Option.map_map]
    exact (map_eq_bind ..).symm

section

variable {weekday : Weekday} {rest : List Char}

theorem dayAt_of_named (h : namedAt before text = some (weekday, rest)) :
    ∃ m, dayAt before text = some m ∧ m.weekday = weekday ∧ m.clock = clockAt rest := by
  rw [dayAt_eq, h]
  exact ⟨_, rfl, rfl, rfl⟩

/-- The pattern finds the first name of a day, and takes its time from what follows. -/
theorem search_named (h : searchAfter namedAt before text = some (weekday, rest)) :
    ∃ m, searchAfter dayAt before text = some m ∧ m.weekday = weekday ∧ m.clock = clockAt rest := by
  induction text generalizing before with
  | nil => exact dayAt_of_named before h
  | cons a text ih =>
    rcases or_eq_some_iff.mp h with hhere | ⟨hnone, hlater⟩
    · obtain ⟨m, hm, hread⟩ := dayAt_of_named before hhere
      exact ⟨m, or_eq_some_iff.mpr (.inl hm), hread⟩
    · obtain ⟨m, hm, hread⟩ := ih (some a) hlater
      refine ⟨m, or_eq_some_iff.mpr (.inr ⟨?_, hm⟩), hread⟩
      rw [dayAt_eq, hnone, Option.map_none]

end

theorem read_minutes (hc : ReadsDigits c) : c.read.2 = numberOf c.minutes := by
  have hminutes : (if c.minutes = [] then 0
      else (parseInt (String.ofList c.minutes)).getD 0) = (numberOf c.minutes : ℤ) := by
    split
    · rename_i hnil
      rw [hnil]
      rfl
    · rename_i hne
      rw [parseInt_digits hne hc.minutes_length hc.minutes]
      rfl
  unfold ClockMatch.read
  simp only
  split <;> exact hminutes

theorem read_hours (hc : ReadsDigits c) :
    c.read.1 = match c.half with
      | some .pm => if (numberOf c.hours : ℤ) < 12 then (numberOf c.hours : ℤ) + 12
          else numberOf c.hours
      | some .am => if (numberOf c.hours : ℤ) = 12 then 0 else (numberOf c.hours : ℤ)
      | none => numberOf c.hours := by
  have hhours := parseInt_digits hc.hours_ne hc.hours_length hc.hours
  unfold ClockMatch.read
  simp only [hhours, getD_some]
  cases c.half with
  | none => rfl
  | some half => cases half <;> rfl

theorem read_mem (hc : ReadsDigits c) :
    (0 ≤ c.read.1 ∧ c.read.1 < 100) ∧ 0 ≤ c.read.2 ∧ c.read.2 < 100 := by
  have hhours := numberOf_lt hc.hours_length hc.hours
  have hminutes := numberOf_lt hc.minutes_length hc.minutes
  rw [read_minutes hc, read_hours hc]
  refine ⟨?_, by omega⟩
  split
  · split <;> omega
  · split <;> omega
  · omega

theorem read_of_timeOfDay (hc : ReadsDigits c)
    (ht : timeOfDay c = some (h, mm)) : c.read = ((h : ℤ), (mm : ℤ)) := by
  have hread : c.read = (c.read.1, c.read.2) := rfl
  rw [hread, read_minutes hc, read_hours hc]
  unfold timeOfDay at ht
  cases hhalf : c.half with
  | none =>
    simp only [hhalf] at ht
    split at ht
    · cases ht
      rfl
    · cases ht
  | some half =>
    cases half with
    | _ =>
      simp only [hhalf] at ht
      split at ht
      · cases ht
        simp only [Prod.mk.injEq, and_true]
        split <;> omega
      · cases ht

def dayNs : ℤ := 24 * hour

def epochDays : ℤ := 719528

def weekdayOf (day : ℤ) : ℤ := (day + 4) % 7

def dateAt (t : ℤ) : Date := dateOf (t / dayNs + epochDays)

def daysAhead (now : ℤ) (weekday : Weekday) : ℤ :=
  let ahead := weekday.number - weekdayOf (now / dayNs)
  if ahead ≤ 0 then ahead + 7 else ahead

/-- Days are added to the day of the month; hour and minute are set whatever they are. -/
def targetOf (now : ℤ) (m : DayMatch) : ℤ :=
  let today := dateAt now
  let target :=
    instantOf today.year today.month (today.day + (daysAhead now m.weekday).toNat) 9 0 0 0 0
  match m.clock with
  | none => target
  | some c =>
      let date := dateAt target
      instantOf date.year date.month date.day c.read.1.toNat c.read.2.toNat 0 0 0

theorem instantOf_date (d : Date) (more h mm : ℕ) :
    instantOf d.year d.month (d.day + more) h mm 0 0 0 =
      (d.days - epochDays + more) * dayNs + h * hour + mm * minute := by
  unfold instantOf Date.days epochDays dayNs hour minute second
  push_cast
  ring

theorem days_dateAt (t : ℤ) : (dateAt t).days - epochDays = t / dayNs := by
  unfold dateAt
  rw [days_dateOf]
  ring

theorem number_mem (weekday : Weekday) : 0 ≤ weekday.number ∧ weekday.number ≤ 6 := by
  cases weekday <;> decide

variable (now : ℤ) (weekday : Weekday)

theorem daysAhead_mem : 1 ≤ daysAhead now weekday ∧ daysAhead now weekday ≤ 7 := by
  have hnumber := number_mem weekday
  simp only [daysAhead, weekdayOf]
  omega

theorem weekdayOf_daysAhead : weekdayOf (now / dayNs + daysAhead now weekday) = weekday.number := by
  have hnumber := number_mem weekday
  simp only [daysAhead, weekdayOf]
  omega

theorem weekdayOf_ne_of_lt (day : ℤ) (hlow : now / dayNs < day)
    (hhigh : day < now / dayNs + daysAhead now weekday) : weekdayOf day ≠ weekday.number := by
  simp only [daysAhead, weekdayOf] at hhigh ⊢
  omega

theorem targetOf_eq (hclock : ∀ c, m.clock = some c → ReadsDigits c) :
    targetOf now m = (now / dayNs + daysAhead now m.weekday) * dayNs +
      ((m.clock.map ClockMatch.read).getD (9, 0)).1 * hour +
      ((m.clock.map ClockMatch.read).getD (9, 0)).2 * minute := by
  have hahead := daysAhead_mem now m.weekday
  have hnat : ((daysAhead now m.weekday).toNat : ℤ) = daysAhead now m.weekday := by omega
  have hmorning := instantOf_date (dateAt now) (daysAhead now m.weekday).toNat 9 0
  rw [days_dateAt, hnat] at hmorning
  unfold targetOf
  simp only [hmorning]
  cases hc : m.clock with
  | none =>
    simp only [map_none, getD_none]
    ring
  | some c =>
    have hread := read_mem (hclock c hc)
    have hday : ((now / dayNs + daysAhead now m.weekday) * dayNs + (9 : ℕ) * hour +
        (0 : ℕ) * minute) / dayNs = now / dayNs + daysAhead now m.weekday := by
      unfold dayNs hour minute second
      omega
    have hset := instantOf_date
      (dateAt ((now / dayNs + daysAhead now m.weekday) * dayNs + (9 : ℕ) * hour + (0 : ℕ) * minute))
      0 c.read.1.toNat c.read.2.toNat
    rw [days_dateAt, hday, Nat.add_zero] at hset
    simp only [map_some, getD_some, hset]
    rw [Int.toNat_of_nonneg hread.1.1, Int.toNat_of_nonneg hread.2.1]
    ring

def reminder (m : DayMatch) (target : ℤ) : Candidate where
  kind := .eventCheckIn
  sensitivity := .routine
  reason := "assistant promised a day-of-week check-in"
  suggestedText := "Reminder: " ++ String.ofList m.whole
  dedupeKey := ""
  confidence := dayConfidence
  dueWindow := windowOf (target - 30 * minute) (target + 30 * minute)

variable (nowMs : ℤ)

theorem matchDayOfWeek_eq {text : String} (hm : searchAfter dayAt none text.toList = some m)
    (hclock : ∀ c, m.clock = some c → ReadsDigits c) :
    matchDayOfWeek text nowMs = some (reminder m (targetOf (ofUnixMilli nowMs) m)) := by
  have htarget := targetOf_eq (ofUnixMilli nowMs) hclock
  unfold matchDayOfWeek
  simp only [hm, bind_eq_bind, bind_some, reminder, htarget]
  rfl

def dayMs : ℤ := 86400000

def InYears (nowMs : ℤ) : Prop :=
  1970 ≤ (dateAt (ofUnixMilli nowMs)).year ∧ (dateAt (ofUnixMilli nowMs)).year ≤ 9999

theorem ofUnixMilli_div (ms : ℤ) : ofUnixMilli ms / dayNs = ms / dayMs := by
  unfold ofUnixMilli dayNs hour minute second dayMs
  omega

theorem bounds_of_inYears {nowMs : ℤ} (h : InYears nowMs) :
    0 ≤ nowMs ∧ nowMs < 2932897 * dayMs := by
  unfold InYears dateAt at h
  rw [ofUnixMilli_div] at h
  have hyear := daysBeforeYear_yearOf (nowMs / dayMs + epochDays)
  have hlow := TimestampOrder.daysBeforeYear_mono 1970 (yearOf (nowMs / dayMs + epochDays)) h.1
  have hhigh := TimestampOrder.daysBeforeYear_mono (yearOf (nowMs / dayMs + epochDays) + 1) 10000
    (by have := h.2; simp only [dateOf] at this; omega)
  have h1970 : daysBeforeYear 1970 = 719528 := by decide
  have h10000 : daysBeforeYear 10000 = 3652425 := by decide
  unfold epochDays dayMs at *
  omega

/-- The centre of a window, as the reminder of the named day must have it. -/
structure OnNextDay (weekday : Weekday) (nowMs : ℤ) (h mm : ℕ) (centre : ℤ) : Prop where
  named : weekdayOf (centre / dayMs) = weekday.number
  after : nowMs < centre
  within : centre ≤ nowMs + 8 * dayMs
  next : ∀ day, nowMs / dayMs < day → day < centre / dayMs → weekdayOf day ≠ weekday.number
  clock : centre % dayMs = h * 3600000 + mm * 60000

/-- A reminder for the next such day at the written time, none if that is no time of day. -/
def RemindsOfNextDay (text : String) (nowMs : ℤ) : Prop :=
  ∀ weekday rest, searchAfter namedAt none text.toList = some (weekday, rest) →
    match writtenTime rest with
    | none => matchDayOfWeek text nowMs = none
    | some (h, mm) => ∃ c t, matchDayOfWeek text nowMs = some c ∧
        centre c.dueWindow = (t : ℤ) ∧ OnNextDay weekday nowMs h mm t

/-- The minute of the day that the pattern takes from what follows the name of the day. -/
def minutesRead (rest : List Char) : ℤ :=
  let time := ((clockAt rest).map ClockMatch.read).getD (9, 0)
  60 * time.1 + time.2

theorem minutesRead_mem (rest : List Char) : 0 ≤ minutesRead rest ∧ minutesRead rest < 7200 := by
  unfold minutesRead
  cases hc : clockAt rest with
  | none => simp
  | some c =>
    have hread := read_mem (clockAt_digits hc)
    simp only [Option.map_some, getD_some]
    omega

theorem centre_reminder {ms : ℤ} (hlow : 0 ≤ ms) (hhigh : ms < 2 ^ 53) :
    centre (reminder m (ofUnixMilli ms)).dueWindow = ms := by
  have hbefore : (ms * 1000000 - 30 * (60 * 1000000000)) / 1000000 = ms - 1800000 := by omega
  have hafter : (ms * 1000000 + 30 * (60 * 1000000000)) / 1000000 = ms + 1800000 := by omega
  have hearliest : (reminder m (ofUnixMilli ms)).dueWindow.earliestMs = ms - 1800000 := by
    unfold reminder windowOf unixMilli ofUnixMilli minute second
    simp only [hbefore]
    apply wrap_of_range <;> omega
  have hlatest : (reminder m (ofUnixMilli ms)).dueWindow.latestMs = ms + 1800000 := by
    unfold reminder windowOf unixMilli ofUnixMilli minute second
    simp only [hafter]
    apply wrap_of_range <;> omega
  unfold centre
  rw [hearliest, hlatest]
  push_cast
  ring

/-- A minute counted from the next such day is the written one if it is that of the clock; up to
four days more it would be on another day of the week. -/
theorem onNextDay_iff (hh : h < 24) (hmm : mm < 60) {minutes : ℤ} (hlow : 0 ≤ minutes)
    (hhigh : minutes < 7200) :
    OnNextDay weekday nowMs h mm ((nowMs / dayMs + daysAhead (ofUnixMilli nowMs) weekday) * dayMs +
      minutes * 60000) ↔ minutes = 60 * h + mm := by
  have hahead := daysAhead_mem (ofUnixMilli nowMs) weekday
  have hnamed := weekdayOf_daysAhead (ofUnixMilli nowMs) weekday
  have hbetween := weekdayOf_ne_of_lt (ofUnixMilli nowMs) weekday
  rw [ofUnixMilli_div] at hnamed hbetween
  generalize daysAhead (ofUnixMilli nowMs) weekday = k at hahead hnamed hbetween ⊢
  have hday : ((nowMs / dayMs + k) * dayMs + minutes * 60000) / dayMs =
      nowMs / dayMs + k + minutes / 1440 := by
    unfold dayMs
    omega
  constructor
  · intro hnext
    have hother := hnext.named
    have hclock := hnext.clock
    rw [hday, ← hnamed] at hother
    unfold weekdayOf at hother
    unfold dayMs at hclock
    omega
  · intro hminutes
    have hsame : minutes / 1440 = 0 := by omega
    rw [hsame, Int.add_zero] at hday
    refine ⟨?_, ?_, ?_, ?_, ?_⟩
    · rw [hday, hnamed]
    · unfold dayMs
      omega
    · unfold dayMs
      omega
    · intro day hlow hhigh
      rw [hday] at hhigh
      exact hbetween day hlow hhigh
    · unfold dayMs
      omega

/-- The answer to a text that names a day. -/
theorem matchDayOfWeek_named {text : String} {rest : List Char} (hnow : InYears nowMs)
    (hnamed : searchAfter namedAt none text.toList = some (weekday, rest)) :
    ∃ c, matchDayOfWeek text nowMs = some c ∧ centre c.dueWindow =
      (((nowMs / dayMs + daysAhead (ofUnixMilli nowMs) weekday) * dayMs +
        minutesRead rest * 60000 : ℤ) : ℚ) := by
  obtain ⟨m, hm, rfl, hclock⟩ := search_named none hnamed
  have hdigits : ∀ c, m.clock = some c → ReadsDigits c :=
    fun c hc => clockAt_digits (hclock ▸ hc)
  refine ⟨_, matchDayOfWeek_eq nowMs hm hdigits, ?_⟩
  have htarget : targetOf (ofUnixMilli nowMs) m =
      ofUnixMilli ((nowMs / dayMs + daysAhead (ofUnixMilli nowMs) m.weekday) * dayMs +
        minutesRead rest * 60000) := by
    rw [targetOf_eq _ hdigits, ofUnixMilli_div, hclock]
    unfold minutesRead dayNs dayMs hour minute second ofUnixMilli
    ring
  have hbounds := bounds_of_inYears hnow
  have hahead := daysAhead_mem (ofUnixMilli nowMs) m.weekday
  have hminutes := minutesRead_mem rest
  rw [htarget]
  apply centre_reminder
  · unfold dayMs at *
    omega
  · unfold dayMs at *
    omega

/-- A text that names a day is answered well exactly if a time of day is written and the pattern
makes it the same minute of the day. -/
theorem remindsOfNextDay_iff {text : String} {rest : List Char} (hnow : InYears nowMs)
    (hnamed : searchAfter namedAt none text.toList = some (weekday, rest)) :
    RemindsOfNextDay text nowMs ↔
      ∃ h mm, writtenTime rest = some (h, mm) ∧ minutesRead rest = 60 * h + mm := by
  obtain ⟨c, hc, hcentre⟩ := matchDayOfWeek_named weekday nowMs hnow hnamed
  obtain ⟨hlow, hhigh⟩ := minutesRead_mem rest
  constructor
  · intro hreminds
    have hanswer := hreminds weekday rest hnamed
    cases hw : writtenTime rest with
    | none =>
      rw [hw, hc] at hanswer
      cases hanswer
    | some time =>
      obtain ⟨hh, hmm⟩ := writtenTime_lt hw
      rw [hw] at hanswer
      obtain ⟨c', t, hc', ht, hnext⟩ := hanswer
      obtain rfl := some.inj (hc.symm.trans hc')
      rw [hcentre, Int.cast_inj] at ht
      rw [← ht, onNextDay_iff weekday nowMs hh hmm hlow hhigh] at hnext
      exact ⟨time.1, time.2, rfl, hnext⟩
  · rintro ⟨h, mm, hw, hminutes⟩ weekday' rest' hnamed'
    obtain ⟨rfl, rfl⟩ := Prod.mk.inj (some.inj (hnamed.symm.trans hnamed'))
    obtain ⟨hh, hmm⟩ := writtenTime_lt hw
    rw [hw]
    exact ⟨c, _, hc, hcentre, (onNextDay_iff weekday nowMs hh hmm hlow hhigh).mpr hminutes⟩

/-- What a clock says, without what follows it. -/
def ClockMatch.groups (c : ClockMatch) : List Char × List Char × Option HalfDay :=
  (c.hours, c.minutes, c.half)

/-- A written time that the pattern takes whole is read as it is written. -/
theorem minutesRead_of_whole {rest : List Char} (hw : writtenTime rest = some (h, mm))
    (hwhole : (clockAt rest).map ClockMatch.groups = (clockText rest).map ClockMatch.groups) :
    minutesRead rest = 60 * h + mm := by
  unfold minutesRead
  cases hc : clockAt rest with
  | none =>
    rw [hc, Option.map_none, eq_comm, Option.map_eq_none_iff] at hwhole
    rw [writtenTime, hwhole] at hw
    cases hw
    rfl
  | some c =>
    rw [hc, Option.map_some, eq_comm, Option.map_eq_some_iff] at hwhole
    obtain ⟨c', hc', hgroups⟩ := hwhole
    have htime : timeOfDay c' = timeOfDay c := by
      simp only [ClockMatch.groups, Prod.mk.injEq] at hgroups
      simp only [timeOfDay, hgroups.1, hgroups.2.1, hgroups.2.2]
    rw [writtenTime, hc'] at hw
    simp only at hw
    split at hw
    · rw [htime] at hw
      simp only [Option.map_some, getD_some, read_of_timeOfDay (clockAt_digits hc) hw]
    · cases hw

end IronGolem.WeekdayReminders
