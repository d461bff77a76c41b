import Mathlib.Tactic.Positivity
import IronGolem.WebhookConnector

/-!
The retries of the webhook connector against a target that keeps failing. Send makes one attempt
more than it has retries and waits before every attempt but the first. The delay is two to the
number of the retry, times one second, in 64 bits of nanoseconds, and is cut to the maximum only
then.
-/
namespace IronGolem.WebhookRetries

open MachineIntegers OwnLocks WebhookConnector List

def digitsFrom : ℕ → List Char → ℕ
  | n, [] => n
  | n, ch :: rest =>
      if isDigit ch then digitsFrom (10 * n + (ch.toNat - '0'.toNat)) rest else digitsFrom n rest

def digitsOf (rc : String) : ℕ := digitsFrom 0 rc.toList

theorem le_digitsFrom (n : ℕ) (text : List Char) : n ≤ digitsFrom n text := by
  induction text generalizing n with
  | nil => exact le_refl n
  | cons ch rest ih =>
    unfold digitsFrom
    split
    · have hrest := ih (10 * n + (ch.toNat - '0'.toNat))
      omega
    · exact ih n

theorem parseDigits_eq (rc : String) (h : digitsOf rc < 2 ^ 63) : parseDigits rc = digitsOf rc := by
  have hfold : ∀ (text : List Char) (n : ℕ), digitsFrom n text < 2 ^ 63 →
      text.foldl (fun parsed ch =>
        if isDigit ch then wrap (parsed * 10 + (ch.toNat - '0'.toNat : ℕ)) else parsed) (n : ℤ) =
      digitsFrom n text := by
    intro text
    induction text with
    | nil =>
      intro n _
      rfl
    | cons ch rest ih =>
      intro n hn
      rw [foldl_cons]
      unfold digitsFrom at hn ⊢
      split
      · rename_i hdigit
        rw [if_pos hdigit] at hn
        have hle := le_digitsFrom (10 * n + (ch.toNat - '0'.toNat)) rest
        have hexact : wrap ((n : ℤ) * 10 + (ch.toNat - '0'.toNat : ℕ)) =
            ((10 * n + (ch.toNat - '0'.toNat) : ℕ) : ℤ) := by
          rw [wrap_of_range (by omega) (by omega)]
          push_cast
          ring
        rw [hexact]
        exact ih _ hn
      · rename_i hdigit
        rw [if_neg hdigit] at hn
        exact ih n hn
  exact hfold rc.toList 0 h

theorem retryCountOf_eq {rc : String} (hlow : 1 ≤ digitsOf rc) (hhigh : digitsOf rc < 2 ^ 31) :
    retryCountOf rc = digitsOf rc := by
  have hparse := parseDigits_eq rc (by omega)
  have hne : rc ≠ "" := by
    intro hempty
    rw [hempty] at hlow
    exact absurd hlow (by decide)
  unfold retryCountOf
  rw [if_neg hne, hparse, if_pos (by omega)]

/-- No attempt gets an answer that counts as success, and the caller waits for all of them. -/
structure KeepsFailing (env : Conditions) : Prop where
  patient : ∀ k, env.gaveUp k = none
  failing : ∀ k code, env.answer k = .status code → 400 ≤ code

def isPace : Activity → Bool
  | .requested _ _ _ => false
  | _ => true

def pace (activity : List Activity) : List Activity := activity.filter isPace

section

variable (outOfRange : ℕ → ℤ)

def paceOf (attempt : ℕ) : List Activity :=
  (if attempt = 0 then [] else [.waited (max 0 (backoffDelay outOfRange attempt))]) ++
    [.attempted attempt]

variable {g : Guarded Sys}

theorem clientDo_run (method url : String) (body : Option String)
    (h : g.state.conn.httpClient = true) :
    (clientDo method url body).run g = (.ok (), { g with state :=
      { g.state with activity := g.state.activity ++ [.requested method url body] } }) := by
  unfold clientDo
  rw [run_read_bind, h]
  rfl

theorem doRequest_fails (method targetURL body : String) {answer : HttpAnswer}
    (hclient : g.state.conn.httpClient = true)
    (hfails : ∀ code, answer = .status code → 400 ≤ code) :
    ∃ e activity, (doRequest method targetURL body answer).run g =
      (.ok (.error e), { g with state := ⟨g.state.conn, activity⟩ }) ∧
      pace activity = pace g.state.activity := by
  have hpace : ∀ content, pace (g.state.activity ++ [.requested method targetURL content]) =
      pace g.state.activity := by
    intro content
    simp [pace, isPace]
  unfold doRequest
  generalize (if body ≠ "" ∧ method ≠ "GET" ∧ method ≠ "HEAD" then some body else none) = content
  have hsent := clientDo_run method targetURL content hclient
  cases answer with
  | badRequest e => exact ⟨_, g.state.activity, rfl, rfl⟩
  | failed e => exact ⟨_, _, run_bind_ok _ () hsent, hpace content⟩
  | status code =>
    have hcode := hfails code rfl
    by_cases hserver : 500 ≤ code
    · refine ⟨"server error: status " ++ toString code, _, ?_, hpace content⟩
      refine (run_bind_ok _ () hsent).trans ?_
      rw [if_pos hserver]
      rfl
    · refine ⟨"client error: status " ++ toString code, _, ?_, hpace content⟩
      refine (run_bind_ok _ () hsent).trans ?_
      rw [if_neg hserver, if_pos hcode]
      rfl

variable {env : Conditions}

theorem attempt_fails (henv : KeepsFailing env)
    (method targetURL body : String) (n : ℕ) (hclient : g.state.conn.httpClient = true) :
    ∃ e activity, (attempt outOfRange env method targetURL body n).run g =
      (.ok (.error e), { g with state := ⟨g.state.conn, activity⟩ }) ∧
      pace activity = pace g.state.activity ++ paceOf outOfRange n := by
  have hown : (paceOf outOfRange n).filter isPace = paceOf outOfRange n := by
    unfold paceOf
    split <;> rfl
  have hnoted : (attempt outOfRange env method targetURL body n).run g =
      (doRequest method targetURL body (env.answer n)).run { g with state :=
        ⟨g.state.conn, g.state.activity ++ paceOf outOfRange n⟩ } := by
    unfold attempt paceOf log
    by_cases hfirst : n = 0
    · rw [if_neg (not_not.mpr hfirst), if_pos hfirst]
      rfl
    · rw [if_pos hfirst, if_neg hfirst, run_write_bind, run_write_bind, append_assoc]
  obtain ⟨e, activity, hrun, hpace⟩ := doRequest_fails method targetURL body
    (g := { g with state := ⟨g.state.conn, g.state.activity ++ paceOf outOfRange n⟩ }) hclient
    (henv.failing n)
  refine ⟨e, activity, hnoted.trans hrun, ?_⟩
  rw [hpace]
  unfold pace
  rw [filter_append, hown]

theorem attempts_pace (henv : KeepsFailing env) (method targetURL body : String)
    (retryCount : ℤ) (remaining n : ℕ) (lastErr : String) (g : Guarded Sys)
    (hclient : g.state.conn.httpClient = true) :
    pace ((attempts outOfRange env method targetURL body retryCount remaining n lastErr).run
      g).2.state.activity = pace g.state.activity ++
        (List.range remaining).flatMap (fun i => paceOf outOfRange (n + i)) := by
  induction remaining generalizing n lastErr g with
  | zero =>
    rw [range_zero, flatMap_nil, append_nil]
    rfl
  | succ remaining ih =>
    have hpatient : (if n = 0 then none else env.gaveUp n) = none := by
      rw [henv.patient n, ite_self]
    obtain ⟨e, activity, hrun, hpace⟩ := attempt_fails outOfRange henv method targetURL body n
      hclient
    have hnext : (attempts outOfRange env method targetURL body retryCount (remaining + 1) n
        lastErr).run g = (attempts outOfRange env method targetURL body retryCount remaining
          (n + 1) e).run { g with state := ⟨g.state.conn, activity⟩ } := by
      rw [attempts, hpatient]
      exact run_bind_ok _ _ hrun
    have hshift : ∀ i, n + 1 + i = n + (i + 1) := fun i => by omega
    rw [hnext, ih (n + 1) e { g with state := ⟨g.state.conn, activity⟩ } hclient, hpace,
      range_succ_eq_map, flatMap_cons, flatMap_map, append_assoc]
    simp [hshift]

def waitOf : Activity → Option ℤ
  | .waited delay => some delay
  | _ => none

def pacedBy (delay : ℕ → ℤ) (r : ℕ) : List Activity :=
  .attempted 0 :: (List.range r).flatMap (fun k => [.waited (delay k), .attempted (k + 1)])

/-- The promised delay before the retry after `k` others. -/
def promised (k : ℕ) : ℤ := min (2 ^ k * baseBackoffDelay) maxBackoffDelay

/-- What is promised of the activity of `r` retries. -/
structure BacksOff (r : ℕ) (activity : List Activity) : Prop where
  paced : pace activity = pacedBy promised r
  sorted : (activity.filterMap waitOf).Pairwise (· ≤ ·)
  bounded : ∀ d ∈ activity.filterMap waitOf, baseBackoffDelay ≤ d

theorem waits_pace (activity : List Activity) :
    (pace activity).filterMap waitOf = activity.filterMap waitOf := by
  unfold pace
  rw [filterMap_filter]
  congr 1
  funext a
  cases a <;> rfl

theorem waits_pacedBy (delay : ℕ → ℤ) (r : ℕ) :
    (pacedBy delay r).filterMap waitOf = (List.range r).map delay := by
  unfold pacedBy
  rw [filterMap_cons_none rfl, filterMap_flatMap]
  exact flatMap_pure_eq_map delay (range r)

theorem pacedBy_inj (f g : ℕ → ℤ) (r : ℕ) : pacedBy f r = pacedBy g r ↔ ∀ k < r, f k = g k := by
  constructor
  · intro h
    have hwaits := congrArg (filterMap waitOf) h
    rw [waits_pacedBy, waits_pacedBy, map_inj_left] at hwaits
    intro k hk
    exact hwaits k (mem_range.mpr hk)
  · intro h
    unfold pacedBy
    congr 1
    apply flatMap_congr
    intro k hk
    rw [h k (mem_range.mp hk)]

theorem promised_mono {k l : ℕ} (h : k ≤ l) : promised k ≤ promised l := by
  have hpow : (2 : ℤ) ^ k ≤ 2 ^ l := pow_le_pow_right₀ (by decide) h
  unfold promised baseBackoffDelay maxBackoffDelay second
  omega

theorem backsOff_iff_paced (r : ℕ) (activity : List Activity) :
    BacksOff r activity ↔ pace activity = pacedBy promised r := by
  refine ⟨BacksOff.paced, ?_⟩
  intro h
  have hwaits : activity.filterMap waitOf = (range r).map promised := by
    rw [← waits_pace, h, waits_pacedBy]
  refine ⟨h, ?_, ?_⟩
  · rw [hwaits, pairwise_map]
    exact pairwise_lt_range.imp (fun hlt => promised_mono hlt.le)
  · rw [hwaits]
    intro d hd
    obtain ⟨k, -, rfl⟩ := mem_map.mp hd
    have hpow : (1 : ℤ) ≤ 2 ^ k := one_le_pow₀ (by decide)
    unfold promised baseBackoffDelay maxBackoffDelay second
    omega

theorem backoffDelay_of_le {k : ℕ} (h : k ≤ 33) :
    max 0 (backoffDelay outOfRange (k + 1)) = promised k := by
  have hpow : (2 : ℤ) ^ k ≤ 2 ^ 33 := pow_le_pow_right₀ (by decide) h
  have hpos : (0 : ℤ) < 2 ^ k := by positivity
  have hwrap : wrap (2 ^ k * baseBackoffDelay) = 2 ^ k * baseBackoffDelay := by
    apply wrap_of_range
    · unfold baseBackoffDelay second
      omega
    · unfold baseBackoffDelay second
      omega
  have hduration : durationOfPow outOfRange k = 2 ^ k := if_pos (by omega)
  unfold backoffDelay
  rw [Nat.add_sub_cancel, hduration, hwrap]
  unfold promised baseBackoffDelay maxBackoffDelay second
  simp only
  split <;> omega

theorem backoffDelay_thirtyFive : backoffDelay outOfRange 35 = -1266874889709551616 := by
  rfl

theorem delays_eq_iff (r : ℕ) :
    (∀ k < r, max 0 (backoffDelay outOfRange (k + 1)) = promised k) ↔ r ≤ 34 := by
  constructor
  · intro h
    by_contra hr
    have hlast := h 34 (by omega)
    rw [backoffDelay_thirtyFive] at hlast
    revert hlast
    decide
  · intro hr k hk
    exact backoffDelay_of_le outOfRange (by omega)

theorem send_pace (rc : String) (hlow : 1 ≤ digitsOf rc) (hhigh : digitsOf rc < 2 ^ 31)
    (config : String → String) (hconfig : config "retry_count" = rc) (c : Connector)
    (msg : Message) (env : Conditions) (henv : KeepsFailing env) :
    pace ((send outOfRange msg env).run ⟨⟨configured config c, []⟩, Hold.free⟩).2.state.activity =
      pacedBy (fun k => max 0 (backoffDelay outOfRange (k + 1))) (digitsOf rc) := by
  have hretries : (configured config c).retryCount = digitsOf rc := by
    rw [← retryCountOf_eq hlow hhigh, ← hconfig]
    rfl
  unfold send
  rw [run_bind_ok _ _ (rLocked_of_free _ rfl), attempts_pace _ henv _ _ _ _ _ _ _ _ rfl]
  simp only [hretries]
  have hcount : ((digitsOf rc : ℤ) + 1).toNat = digitsOf rc + 1 := by omega
  rw [hcount, range_succ_eq_map, flatMap_cons, flatMap_map]
  simp only [Nat.zero_add]
  rfl

/-- The attempts and the waits are the promised ones exactly if there are at most 34 retries. -/
theorem backsOff_iff_at_most_34 (rc : String) (hlow : 1 ≤ digitsOf rc)
    (hhigh : digitsOf rc < 2 ^ 31) (config : String → String)
    (hconfig : config "retry_count" = rc) (c : Connector) (msg : Message) (env : Conditions)
    (henv : KeepsFailing env) :
    BacksOff (digitsOf rc)
      ((send outOfRange msg env).run ⟨⟨configured config c, []⟩, Hold.free⟩).2.state.activity ↔
      digitsOf rc ≤ 34 := by
  rw [backsOff_iff_paced, send_pace outOfRange rc hlow hhigh config hconfig c msg env henv,
    pacedBy_inj, delays_eq_iff]

end

def retrying (rc : String) : String → String
  | "retry_count" => rc
  | _ => ""

def alwaysDown : Conditions := ⟨fun _ => none, fun _ => .status 503⟩

theorem alwaysDown_keepsFailing : KeepsFailing alwaysDown := by
  refine ⟨fun _ => rfl, ?_⟩
  intro k code h
  cases h
  decide

def ping : Message := ⟨"m-1", "ping", [], 0⟩

theorem three_retries_back_off :
    BacksOff (digitsOf "3")
      ((send (fun _ => 0) ping alwaysDown).run
        ⟨⟨configured (retrying "3") .zero, []⟩, Hold.free⟩).2.state.activity :=
  (backsOff_iff_at_most_34 (fun _ => 0) "3" (by decide) (by decide) (retrying "3") rfl .zero ping
    alwaysDown alwaysDown_keepsFailing).mpr (by decide)

/-- With 35 retries the last one comes without any wait. -/
theorem last_of_35_retries_does_not_wait :
    0 ∈ ((send (fun _ => 0) ping alwaysDown).run
      ⟨⟨configured (retrying "35") .zero, []⟩, Hold.free⟩).2.state.activity.filterMap waitOf ∧
    ¬ BacksOff (digitsOf "35")
      ((send (fun _ => 0) ping alwaysDown).run
        ⟨⟨configured (retrying "35") .zero, []⟩, Hold.free⟩).2.state.activity := by
  have hpace := send_pace (fun _ => 0) "35" (by decide) (by decide) (retrying "35") rfl .zero ping
    alwaysDown alwaysDown_keepsFailing
  have hwaits := congrArg (filterMap waitOf) hpace
  rw [waits_pace, waits_pacedBy] at hwaits
  have hzero : (0 : ℤ) ∈ (range (digitsOf "35")).map
      (fun k => max 0 (backoffDelay (fun _ => 0) (k + 1))) :=
    mem_map.mpr ⟨34, by decide, by decide⟩
  rw [← hwaits] at hzero
  refine ⟨hzero, ?_⟩
  intro h
  exact absurd (h.bounded 0 hzero) (by decide)

end IronGolem.WebhookRetries
