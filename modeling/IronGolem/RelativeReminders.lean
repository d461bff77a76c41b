import Mathlib.Tactic.Linarith
import IronGolem.CommitmentExtraction

/-!
Reminders for a relative time. The first mention of a time in a text is a matter of the text alone,
and the regular expression finds it. The number of units becomes a duration of 64 bits in
nanoseconds, so the window lies around the time that was said exactly if that duration is in range,
which ends at 292 years.
-/
namespace IronGolem.RelativeReminders

open Option CommitmentStore CommitmentRuntime CommitmentExtraction InboundRequests MachineIntegers
  List TextSearch

/-- After the given characters stands a number of units: `in`, the digits and the unit. -/
def MentionAt (text pre digits : List Char) (unit : TimeUnit) : Prop :=
  ∃ rest, text = pre ++ ("in ".toList ++ (digits ++ ' ' :: (unit.text ++ rest))) ∧
    digits ≠ [] ∧ ∀ c ∈ digits, isDigit c = true

def FirstMention (text digits : List Char) (unit : TimeUnit) : Prop :=
  ∃ pre, MentionAt text pre digits unit ∧
    ∀ pre' digits' unit', MentionAt text pre' digits' unit' → pre.length ≤ pre'.length

/-- The first mention is of `n` units, and the extractor accepts the number. -/
def Mentions (text : String) (n : ℤ) (unit : TimeUnit) : Prop :=
  ∃ digits, FirstMention text.toList digits unit ∧ parseInt (String.ofList digits) = some n ∧ 0 < n

theorem find_unit (unit : TimeUnit) (rest : List Char) :
    [TimeUnit.minute, .hour, .day].find? (fun u => u.text.isPrefixOf (unit.text ++ rest)) =
      some unit := by
  cases unit <;> rfl

theorem takeWhile_digits (digits rest : List Char) (h : ∀ c ∈ digits, isDigit c = true) :
    (digits ++ ' ' :: rest).takeWhile isDigit = digits := by
  rw [takeWhile_append_of_pos h, takeWhile_cons_of_neg (by decide), append_nil]

theorem dropWhile_digits (digits rest : List Char) (h : ∀ c ∈ digits, isDigit c = true) :
    (digits ++ ' ' :: rest).dropWhile isDigit = ' ' :: rest := by
  rw [dropWhile_append_of_pos h, dropWhile_cons_of_neg (by decide)]

variable {text digits : List Char} (unit : TimeUnit)

theorem relativeAt_of_mention (h : MentionAt text [] digits unit) :
    ∃ m, relativeAt text = some m ∧ m.digits = digits ∧ m.unit = unit := by
  obtain ⟨rest, htext, hne, hdigits⟩ := h
  have hin : text.dropPrefix? "in ".toList = some (digits ++ ' ' :: (unit.text ++ rest)) :=
    dropPrefix?_eq_some_iff.mpr ⟨"in ".toList, htext, by decide⟩
  have hblank : (' ' :: (unit.text ++ rest)).dropPrefix? [' '] = some (unit.text ++ rest) :=
    dropPrefix?_eq_some_iff.mpr ⟨[' '], rfl, by decide⟩
  unfold relativeAt
  simp only [hin, bind_eq_bind, bind_some, takeWhile_digits _ _ hdigits,
    dropWhile_digits _ _ hdigits, if_neg hne, hblank, find_unit]
  exact ⟨_, rfl, rfl, rfl⟩

variable {m : RelativeMatch}

theorem mention_of_relativeAt
    (h : relativeAt text = some m) : MentionAt text [] m.digits m.unit := by
  unfold relativeAt at h
  simp only [bind_eq_bind] at h
  obtain ⟨rest, hin, h⟩ := bind_eq_some_iff.mp h
  split at h
  · exact absurd h (by simp)
  · rename_i hne
    obtain ⟨rest', hblank, h⟩ := bind_eq_some_iff.mp h
    obtain ⟨unit, hunit, h⟩ := bind_eq_some_iff.mp h
    obtain ⟨_, htext, hpre⟩ := dropPrefix?_eq_some_iff.mp hin
    obtain ⟨_, htail, hpre'⟩ := dropPrefix?_eq_some_iff.mp hblank
    rw [beq_iff_eq] at hpre hpre'
    subst hpre hpre'
    have hfound := find?_some hunit
    obtain ⟨tail, htail'⟩ := isPrefixOf_iff_prefix.mp hfound
    cases h
    refine ⟨tail, ?_, hne, fun c hc => mem_takeWhile_imp hc⟩
    have hsplit := takeWhile_append_dropWhile (p := isDigit) (l := rest)
    rw [htail, ← htail'] at hsplit
    rw [nil_append, htext]
    exact congrArg ("in ".toList ++ ·) hsplit.symm

theorem mentionAt_append_iff (pre text digits : List Char) (unit : TimeUnit) :
    MentionAt (pre ++ text) pre digits unit ↔ MentionAt text [] digits unit := by
  unfold MentionAt
  simp

theorem search_of_firstMention (h : FirstMention text digits unit) :
    ∃ m, search relativeAt text = some m ∧ m.digits = digits ∧ m.unit = unit := by
  obtain ⟨pre, hmention, hfirst⟩ := h
  obtain ⟨rest, htext, hdigits⟩ := hmention
  have hhere : MentionAt ("in ".toList ++ (digits ++ ' ' :: (unit.text ++ rest))) [] digits unit :=
    ⟨rest, rfl, hdigits⟩
  obtain ⟨m, hm, hsame⟩ := relativeAt_of_mention unit hhere
  refine ⟨m, (search_eq_some_iff relativeAt text m).mpr ⟨pre, _, htext, hm, ?_⟩, hsame⟩
  intro pre' rest' hsplit hlt
  cases hat : relativeAt rest' with
  | none => rfl
  | some m' =>
    have hearlier : MentionAt text pre' m'.digits m'.unit := by
      rw [hsplit]
      exact (mentionAt_append_iff pre' rest' m'.digits m'.unit).mpr (mention_of_relativeAt hat)
    have hle := hfirst pre' m'.digits m'.unit hearlier
    omega

theorem firstMention_of_search
    (h : search relativeAt text = some m) : FirstMention text m.digits m.unit := by
  obtain ⟨pre, rest, htext, hm, hfirst⟩ := (search_eq_some_iff relativeAt text m).mp h
  refine ⟨pre, ?_, ?_⟩
  · rw [htext]
    exact (mentionAt_append_iff pre rest m.digits m.unit).mpr (mention_of_relativeAt hm)
  · intro pre' digits' unit' hmention
    by_contra hlt
    obtain ⟨rest', htext', hdigits⟩ := hmention
    have hnone := hfirst pre' _ htext' (by omega)
    obtain ⟨m', hm', _⟩ := relativeAt_of_mention unit' ⟨rest', rfl, hdigits⟩
    exact absurd (hm'.symm.trans hnone) (by simp)

theorem mentions_of_search {text : String} {n : ℤ}
    (h : search relativeAt text.toList = some m) (hparse : parseInt (String.ofList m.digits) =
      some n) (hn : 0 < n) : Mentions text n m.unit :=
  ⟨m.digits, firstMention_of_search h, hparse, hn⟩

def millis : TimeUnit → ℤ
  | .minute => 60000
  | .hour => 3600000
  | .day => 86400000

def OffsetFits (n : ℤ) (unit : TimeUnit) : Prop := n * millis unit * 1000000 < 2 ^ 63

/-- The window reaches from five minutes before to five minutes after a time. -/
structure PointsAt (target : ℤ) (w : DueWindow) : Prop where
  earliest : w.earliestMs = target - 300000
  latest : w.latestMs = target + 300000

def centre (w : DueWindow) : ℚ := (w.earliestMs + w.latestMs) / 2

theorem centre_of_pointsAt {target : ℤ} {w : DueWindow} (h : PointsAt target w) :
    centre w = target := by
  unfold centre
  rw [h.earliest, h.latest]
  push_cast
  ring

theorem offset_eq (n : ℤ) (unit : TimeUnit) : unit.offset n = wrap (n * millis unit * 1000000) := by
  cases unit with
  | minute =>
    have h : n * minute = n * 60000 * 1000000 := by
      unfold minute second
      ring
    exact congrArg wrap h
  | hour =>
    have h : n * hour = n * 3600000 * 1000000 := by
      unfold hour minute second
      ring
    exact congrArg wrap h
  | day =>
    have h : n * 24 * hour = n * 86400000 * 1000000 := by
      unfold hour minute second
      ring
    exact (wrap_wrap_mul (n * 24) hour).trans (congrArg wrap h)

theorem windowOf_offset (now offset : ℤ) (hnow : 0 ≤ now) (hbound : now ≤ 2 ^ 53)
    (hlow : -2 ^ 63 ≤ offset) (hhigh : offset < 2 ^ 63) :
    PointsAt (now + offset / 1000000)
      (windowOf (ofUnixMilli now + offset - 5 * minute)
        (ofUnixMilli now + offset + 5 * minute)) := by
  have hbefore : (now * 1000000 + offset - 5 * (60 * 1000000000)) / 1000000 =
      now + offset / 1000000 - 300000 := by omega
  have hafter : (now * 1000000 + offset + 5 * (60 * 1000000000)) / 1000000 =
      now + offset / 1000000 + 300000 := by omega
  constructor
  · unfold windowOf ofUnixMilli unixMilli minute second
    simp only [hbefore]
    apply wrap_of_range <;> omega
  · unfold windowOf ofUnixMilli unixMilli minute second
    simp only [hafter]
    apply wrap_of_range <;> omega

theorem wrap_div_eq_iff {ms : ℤ} (hpos : 0 < ms) :
    wrap (ms * 1000000) / 1000000 = ms ↔ ms * 1000000 < 2 ^ 63 := by
  have hrange := wrap_lt (ms * 1000000)
  constructor
  · omega
  · intro h
    rw [wrap_of_range (by omega) h]
    omega

theorem millis_pos : 0 < millis unit := by
  cases unit <;> decide

theorem pointsAt_offset_iff {now n : ℤ} (unit : TimeUnit) (hnow : 0 ≤ now)
    (hbound : now ≤ 2 ^ 53) (hn : 0 < n) :
    PointsAt (now + n * millis unit)
      (windowOf (ofUnixMilli now + unit.offset n - 5 * minute)
        (ofUnixMilli now + unit.offset n + 5 * minute)) ↔ OffsetFits n unit := by
  have hpos : 0 < n * millis unit := mul_pos hn (millis_pos unit)
  have hwindow := windowOf_offset now (unit.offset n) hnow hbound
    (by rw [offset_eq]; exact le_wrap _) (by rw [offset_eq]; exact wrap_lt _)
  have hdiv := wrap_div_eq_iff hpos
  rw [← offset_eq] at hdiv
  unfold OffsetFits
  rw [← hdiv]
  constructor
  · intro h
    have hsame := h.earliest.symm.trans hwindow.earliest
    omega
  · intro h
    rw [h] at hwindow
    exact hwindow

theorem matchRelativeTime_of_mentions {text : String} (now n : ℤ) {unit : TimeUnit}
    (h : Mentions text n unit) :
    ∃ c, matchRelativeTime text now = some c ∧
      c.dueWindow = windowOf (ofUnixMilli now + unit.offset n - 5 * minute)
        (ofUnixMilli now + unit.offset n + 5 * minute) := by
  obtain ⟨digits, hfirst, hparse, hn⟩ := h
  obtain ⟨m, hsearch, rfl, rfl⟩ := search_of_firstMention unit hfirst
  unfold matchRelativeTime
  simp only [hsearch, hparse, bind_eq_bind, bind_some, if_neg (not_le.mpr hn)]
  exact ⟨_, rfl, rfl⟩

theorem heuristicExtract_of_match (toLower digest : String → String) {clockMs : ℤ}
    {turn : SpokenTurn} {c : Candidate}
    (h : matchRelativeTime (toLower (turn.userText ++ "\n" ++ turn.assistantText))
      (if turn.nowMs = 0 then clockMs else turn.nowMs) = some c) :
    ∃ rest, heuristicExtract toLower digest clockMs turn =
      withKey digest turn.toTurn c :: rest := by
  unfold heuristicExtract
  simp only [h]
  exact ⟨_, rfl⟩

/-- A reminder points to the time that was said exactly if the duration is in range. -/
theorem reminder_points_at_iff_offsetFits (text : String) (now n : ℤ) (unit : TimeUnit)
    (hnow : 0 ≤ now) (hbound : now ≤ 2 ^ 53) (hmention : Mentions text n unit) :
    ∃ c, matchRelativeTime text now = some c ∧
      ((PointsAt (now + n * millis unit) c.dueWindow ∧ now < centre c.dueWindow) ↔
        OffsetFits n unit) ∧
      (OffsetFits n unit → ∀ text' n' unit' c', Mentions text' n' unit' → OffsetFits n' unit' →
        n * millis unit < n' * millis unit' → matchRelativeTime text' now = some c' →
        centre c.dueWindow < centre c'.dueWindow) ∧
      ∀ (toLower digest : String → String) (clockMs : ℤ) (turn : SpokenTurn),
        toLower (turn.userText ++ "\n" ++ turn.assistantText) = text →
        (if turn.nowMs = 0 then clockMs else turn.nowMs) = now →
        ∃ rest, heuristicExtract toLower digest clockMs turn =
          withKey digest turn.toTurn c :: rest := by
  have hn : 0 < n := by
    obtain ⟨_, _, _, hn⟩ := hmention
    exact hn
  obtain ⟨c, hmatch, hwindow⟩ := matchRelativeTime_of_mentions now n hmention
  have hpoints := pointsAt_offset_iff unit hnow hbound hn
  rw [← hwindow] at hpoints
  refine ⟨c, hmatch, ?_, ?_, ?_⟩
  · constructor
    · intro h
      exact hpoints.mp h.1
    · intro hfits
      have hat := hpoints.mpr hfits
      refine ⟨hat, ?_⟩
      have hpos : 0 < n * millis unit := mul_pos hn (millis_pos unit)
      rw [centre_of_pointsAt hat]
      exact_mod_cast (by omega : now < now + n * millis unit)
  · intro hfits text' n' unit' c' hmention' hfits' hlt hmatch'
    have hn' : 0 < n' := by
      obtain ⟨_, _, _, hn'⟩ := hmention'
      exact hn'
    obtain ⟨c'', hsome, hwindow'⟩ := matchRelativeTime_of_mentions now n' hmention'
    obtain rfl := some.inj (hmatch'.symm.trans hsome)
    have hat' := (pointsAt_offset_iff unit' hnow hbound hn').mpr hfits'
    rw [← hwindow'] at hat'
    rw [centre_of_pointsAt (hpoints.mpr hfits), centre_of_pointsAt hat']
    exact_mod_cast (by omega : now + n * millis unit < now + n' * millis unit')
  · intro toLower digest clockMs turn htext htime
    apply heuristicExtract_of_match
    rw [htext, htime]
    exact hmatch

theorem two_hours_reminder :
    ∃ c, matchRelativeTime "call me in 2 hours" 1700000000000 = some c ∧
      PointsAt 1700007200000 c.dueWindow ∧ 1700000000000 < centre c.dueWindow := by
  have hmention : Mentions "call me in 2 hours" 2 .hour :=
    mentions_of_search (m := ⟨['2'], .hour, "in 2 hours".toList⟩) (n := 2) (by decide) (by decide)
      (by decide)
  obtain ⟨c, hmatch, hiff, _⟩ := reminder_points_at_iff_offsetFits "call me in 2 hours"
    1700000000000 2 .hour (by decide) (by decide) hmention
  exact ⟨c, hmatch, hiff.mpr (by unfold OffsetFits; decide)⟩

/-- A reminder some 292 years ahead falls due long before it was asked for. -/
theorem far_reminder_in_the_past :
    Mentions "in 106752 days" 106752 .day ∧
      ∃ c, matchRelativeTime "in 106752 days" 1700000000000 = some c ∧
        c.dueWindow = ⟨-7523371573710, -7523370973710, ""⟩ ∧
        ¬ PointsAt (1700000000000 + 106752 * millis .day) c.dueWindow := by
  have hmention : Mentions "in 106752 days" 106752 .day :=
    mentions_of_search (m := ⟨"106752".toList, .day, "in 106752 days".toList⟩) (n := 106752)
      (by decide) (by decide) (by decide)
  obtain ⟨c, hmatch, hwindow⟩ :=
    matchRelativeTime_of_mentions 1700000000000 106752 hmention
  have hpast : c.dueWindow = ⟨-7523371573710, -7523370973710, ""⟩ :=
    hwindow.trans (by decide)
  refine ⟨hmention, c, hmatch, hpast, ?_⟩
  intro h
  have hearliest := h.earliest
  rw [hpast] at hearliest
  exact absurd hearliest (by decide)

end IronGolem.RelativeReminders
