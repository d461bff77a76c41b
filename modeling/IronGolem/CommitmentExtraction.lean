import Mathlib.Data.List.Infix
import IronGolem.CommitmentRuntime
import IronGolem.InboundRequests
import IronGolem.MachineIntegers
import IronGolem.TextSearch

/-!
The two extractors that turn a finished exchange into candidates for commitments. The heuristic one
looks for three shapes of language: a relative time, a day of the week and a promise without a
date.
-/
namespace IronGolem.CommitmentExtraction

open CommitmentStore CommitmentRuntime InboundRequests MachineIntegers TextSearch

/-- The texts and the clock of an exchange, which only the extractors read. -/
structure SpokenTurn extends Turn where
  userText : String
  assistantText : String
  nowMs : ℤ
  deriving DecidableEq

def minute : ℤ := 60 * second

def hour : ℤ := 60 * minute

/-- `time.UnixMilli` and the method of the same name. -/
def ofUnixMilli (ms : ℤ) : ℤ := ms * 1000000

def unixMilli (t : ℤ) : ℤ := wrap (t / 1000000)

def windowOf (earliest latest : ℤ) : DueWindow := ⟨unixMilli earliest, unixMilli latest, ""⟩

inductive TimeUnit
  | minute
  | hour
  | day
  deriving DecidableEq, Repr

def TimeUnit.text : TimeUnit → List Char
  | minute => "minute".toList
  | hour => "hour".toList
  | day => "day".toList

/-- The duration of `n` units, which is a product of 64 bits. -/
def TimeUnit.offset (n : ℤ) : TimeUnit → ℤ
  | minute => wrap (n * CommitmentExtraction.minute)
  | hour => wrap (n * CommitmentExtraction.hour)
  | day => wrap (wrap (n * 24) * CommitmentExtraction.hour)

def isDigit (c : Char) : Bool := '0' ≤ c && c ≤ '9'

structure RelativeMatch where
  digits : List Char
  unit : TimeUnit
  whole : List Char
  deriving DecidableEq, Repr

/-- `in (\d+) (minute|hour|day)s?`; a blank must follow, so all digits belong to the number. -/
def relativeAt (text : List Char) : Option RelativeMatch := do
  let rest ← text.dropPrefix? "in ".toList
  let digits := rest.takeWhile isDigit
  if digits = [] then none
  else
    let rest ← (rest.dropWhile isDigit).dropPrefix? [' ']
    let unit ← [TimeUnit.minute, .hour, .day].find? (fun u => u.text.isPrefixOf rest)
    let plural := (rest.drop unit.text.length).take 1 |>.filter (· = 's')
    some ⟨digits, unit, "in ".toList ++ digits ++ ' ' :: unit.text ++ plural⟩

def relativeConfidence : ℚ := 3 / 4

def matchRelativeTime (text : String) (nowMs : ℤ) : Option Candidate := do
  let m ← search relativeAt text.toList
  let n ← parseInt (String.ofList m.digits)
  if n ≤ 0 then none
  else
    let target := ofUnixMilli nowMs + m.unit.offset n
    some {
      kind := .eventCheckIn
      sensitivity := .routine
      reason := "user mentioned a relative time window"
      suggestedText := "Reminder: " ++ String.ofList m.whole
      dedupeKey := ""
      confidence := relativeConfidence
      dueWindow := windowOf (target - 5 * minute) (target + 5 * minute) }

inductive Weekday
  | sunday
  | monday
  | tuesday
  | wednesday
  | thursday
  | friday
  | saturday
  deriving DecidableEq, Repr

def Weekday.text : Weekday → List Char
  | sunday => "sunday".toList
  | monday => "monday".toList
  | tuesday => "tuesday".toList
  | wednesday => "wednesday".toList
  | thursday => "thursday".toList
  | friday => "friday".toList
  | saturday => "saturday".toList

def Weekday.number : Weekday → ℤ
  | sunday => 0
  | monday => 1
  | tuesday => 2
  | wednesday => 3
  | thursday => 4
  | friday => 5
  | saturday => 6

inductive HalfDay
  | am
  | pm
  deriving DecidableEq, Repr

/-- A time of day; absent minutes are no digits at all. -/
structure ClockMatch where
  hours : List Char
  minutes : List Char
  half : Option HalfDay
  rest : List Char
  deriving DecidableEq, Repr

def minutesAt : List Char → List Char × List Char
  | ':' :: a :: b :: rest =>
      if isDigit a && isDigit b then ([a, b], rest) else ([], ':' :: a :: b :: rest)
  | rest => ([], rest)

def halfAt : List Char → Option HalfDay × List Char
  | 'a' :: 'm' :: rest => (some .am, rest)
  | 'p' :: 'm' :: rest => (some .pm, rest)
  | rest => (none, rest)

def dropBlank : List Char → List Char
  | ' ' :: rest => rest
  | rest => rest

/-- ` at (\d{1,2})(?::(\d{2}))? ?(am|pm)?` at the start of a text. -/
def clockAt (text : List Char) : Option ClockMatch := do
  let rest ← text.dropPrefix? " at ".toList
  let hours := (rest.take 2).takeWhile isDigit
  if hours = [] then none
  else
    let (minutes, rest) := minutesAt (rest.drop hours.length)
    let (half, rest) := halfAt (dropBlank rest)
    some ⟨hours, minutes, half, rest⟩

structure DayMatch where
  weekday : Weekday
  clock : Option ClockMatch
  whole : List Char
  deriving DecidableEq, Repr

def isWordChar (c : Char) : Bool := isDigit c || c.isAlpha || c = '_'

/-- The name of a day that starts at a word boundary, and a time of day if one follows. -/
def dayAt (before : Option Char) (text : List Char) : Option DayMatch := do
  if before.any isWordChar then none
  else
    let weekday ← [Weekday.monday, .tuesday, .wednesday, .thursday, .friday, .saturday,
      .sunday].find? (fun d => d.text.isPrefixOf text)
    let rest := text.drop weekday.text.length
    let clock := clockAt rest
    let unread := (clock.map ClockMatch.rest).getD rest
    some ⟨weekday, clock, text.take (text.length - unread.length)⟩

def ClockMatch.read (m : ClockMatch) : ℤ × ℤ :=
  let h := (parseInt (String.ofList m.hours)).getD 0
  let mm := if m.minutes = [] then 0 else (parseInt (String.ofList m.minutes)).getD 0
  match m.half with
  | some .pm => (if h < 12 then h + 12 else h, mm)
  | some .am => (if h = 12 then 0 else h, mm)
  | none => (h, mm)

def dayConfidence : ℚ := 3152519739159347 / 4503599627370496

/-- 1970 began on a Thursday. Hours and minutes beyond a day run on into the next. -/
def matchDayOfWeek (text : String) (nowMs : ℤ) : Option Candidate := do
  let m ← searchAfter dayAt none text.toList
  let today := ofUnixMilli nowMs / (24 * hour)
  let ahead := m.weekday.number - (today + 4) % 7
  let daysAhead := if ahead ≤ 0 then ahead + 7 else ahead
  let (h, mm) := (m.clock.map ClockMatch.read).getD (9, 0)
  let target := (today + daysAhead) * (24 * hour) + h * hour + mm * minute
  some {
    kind := .eventCheckIn
    sensitivity := .routine
    reason := "assistant promised a day-of-week check-in"
    suggestedText := "Reminder: " ++ String.ofList m.whole
    dedupeKey := ""
    confidence := dayConfidence
    dueWindow := windowOf (target - 30 * minute) (target + 30 * minute) }

def openLoopPhrases : List String :=
  ["i'll follow up", "i'll check in", "i'll check on", "i'll keep an eye on",
    "i will follow up", "i'll remind you", "let me know if"]

def contains (text phrase : String) : Bool := decide (phrase.toList <:+: text.toList)

def openLoopConfidence : ℚ := 5404319552844595 / 9007199254740992

section

variable (toLower : String → String)

/-- Every phrase leads to the same candidate, so it does not matter which is found first. -/
def matchOpenLoop (assistant : String) (nowMs : ℤ) : Option Candidate :=
  let low := toLower assistant
  if openLoopPhrases.any (contains low) then
    let care := contains low "i'll check on"
    some {
      kind := if care then .careCheckIn else .openLoop
      sensitivity := if care then .care else .routine
      reason := "assistant signaled an open-loop follow-up"
      suggestedText := "Following up on what we discussed"
      dedupeKey := ""
      confidence := openLoopConfidence
      dueWindow := windowOf (ofUnixMilli nowMs + 24 * hour) (ofUnixMilli nowMs + 72 * hour) }
  else none

-- The digest is the hexadecimal text of the first half of a hash.
variable (digest : String → String)

def makeDedupeKey (turn : Turn) (reason : String) : String :=
  digest (turn.workspaceID ++ "|" ++ turn.sourceEventID ++ "|" ++ reason)

def withKey (turn : Turn) (c : Candidate) : Candidate :=
  { c with dedupeKey := makeDedupeKey digest turn c.reason }

def heuristicExtract (clockMs : ℤ) (turn : SpokenTurn) : List Candidate :=
  let now := if turn.nowMs = 0 then clockMs else turn.nowMs
  let combined := toLower (turn.userText ++ "\n" ++ turn.assistantText)
  ((matchRelativeTime combined now).toList ++ (matchDayOfWeek combined now).toList ++
    (matchOpenLoop toLower turn.assistantText now).toList).map (withKey digest turn.toTurn)

end

structure LlmCandidate where
  kind : String
  sensitivity : String
  reason : String
  suggestedText : String
  confidence : ℚ
  dedupeKey : String
  dueInEarliestMinutes : ℤ
  dueInLatestMinutes : ℤ
  deriving DecidableEq, Repr

def kindOfText : String → CommitmentKind
  | "event_check_in" => .eventCheckIn
  | "deadline_check" => .deadlineCheck
  | "care_check_in" => .careCheckIn
  | "open_loop" => .openLoop
  | text => .other text

def sensitivityOfText : String → CommitmentSensitivity
  | "routine" => .routine
  | "personal" => .personal
  | "care" => .care
  | text => .other text

def llmConfidenceThreshold : ℚ := 3242591731706757 / 4503599627370496

def llmCareConfidenceThreshold : ℚ := 7746191359077253 / 9007199254740992

def minuteMs : ℤ := 60000

def minLeadTimeMs : ℤ := 5 * minuteMs

def defaultDueWindowSpanMs : ℤ := 12 * 60 * minuteMs

def llmThresholdFor (s : CommitmentSensitivity) : ℚ :=
  if s = .care then llmCareConfidenceThreshold else llmConfidenceThreshold

namespace LlmCandidate

def threshold (rc : LlmCandidate) : ℚ :=
  if kindOfText rc.kind = .careCheckIn then llmCareConfidenceThreshold
  else llmThresholdFor (sensitivityOfText rc.sensitivity)

def passes (rc : LlmCandidate) : Bool :=
  (kindOfText rc.kind).valid && (sensitivityOfText rc.sensitivity).valid &&
    !(rc.confidence < 0 || 1 < rc.confidence) && !(rc.confidence < rc.threshold) &&
    !(rc.reason = "" || rc.suggestedText = "")

def earliest (rc : LlmCandidate) (nowMs : ℤ) : ℤ :=
  let minEarliest := wrap (nowMs + minLeadTimeMs)
  let earliest := wrap (nowMs + wrap (rc.dueInEarliestMinutes * minuteMs))
  if rc.dueInEarliestMinutes ≤ 0 ∨ earliest < minEarliest then minEarliest else earliest

def latest (rc : LlmCandidate) (nowMs : ℤ) : ℤ :=
  let latest := wrap (nowMs + wrap (rc.dueInLatestMinutes * minuteMs))
  if rc.dueInLatestMinutes ≤ 0 ∨ latest ≤ rc.earliest nowMs then
    wrap (rc.earliest nowMs + defaultDueWindowSpanMs)
  else latest

variable (rc : LlmCandidate)

theorem earliest_eq (nowMs : ℤ) : rc.earliest nowMs =
    if rc.dueInEarliestMinutes ≤ 0 ∨
      wrap (nowMs + rc.dueInEarliestMinutes * minuteMs) < wrap (nowMs + minLeadTimeMs)
    then wrap (nowMs + minLeadTimeMs) else wrap (nowMs + rc.dueInEarliestMinutes * minuteMs) := by
  simp [earliest]

theorem latest_eq (nowMs : ℤ) : rc.latest nowMs = if rc.dueInLatestMinutes ≤ 0 ∨
      wrap (nowMs + rc.dueInLatestMinutes * minuteMs) ≤ rc.earliest nowMs
    then wrap (rc.earliest nowMs + defaultDueWindowSpanMs)
    else wrap (nowMs + rc.dueInLatestMinutes * minuteMs) := by
  simp [latest]

end LlmCandidate

section

variable (digest : String → String)

def candidateOf (turn : Turn) (nowMs : ℤ) (rc : LlmCandidate) : Candidate where
  kind := kindOfText rc.kind
  sensitivity := sensitivityOfText rc.sensitivity
  reason := rc.reason
  suggestedText := rc.suggestedText
  dedupeKey := if rc.dedupeKey = "" then makeDedupeKey digest turn rc.reason else rc.dedupeKey
  confidence := rc.confidence
  dueWindow := ⟨rc.earliest nowMs, rc.latest nowMs, ""⟩

def validateLlmCandidates (raw : List LlmCandidate) (turn : Turn) (nowMs : ℤ) : List Candidate :=
  raw.foldl (fun out rc => if rc.passes then out ++ [candidateOf digest turn nowMs rc] else out) []

theorem validateLlmCandidates_eq (raw : List LlmCandidate) (turn : Turn) (nowMs : ℤ) :
    validateLlmCandidates digest raw turn nowMs =
      (raw.filter LlmCandidate.passes).map (candidateOf digest turn nowMs) := by
  have hloop : ∀ out : List Candidate,
      raw.foldl (fun out rc => if rc.passes then out ++ [candidateOf digest turn nowMs rc]
        else out) out =
        out ++ (raw.filter LlmCandidate.passes).map (candidateOf digest turn nowMs) := by
    induction raw with
    | nil =>
      simp
    | cons rc raw ih =>
      intro out
      rw [List.foldl_cons, ih]
      by_cases hpass : rc.passes = true <;> simp [hpass]
  exact hloop []

end

end IronGolem.CommitmentExtraction
