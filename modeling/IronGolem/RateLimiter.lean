import Mathlib.Data.Rat.Floor
import IronGolem.OutputMachines
import IronGolem.TokenBuckets

/-!
The rate limiter of the gateway: a token bucket for each client, and a cleanup that drops the
buckets which have not been used for an interval. A dropped bucket comes back full, so the bound on
what a client is allowed within a window holds for every sequence of requests and cleanups exactly
if a bucket is full again by the time it may be dropped.
-/
namespace IronGolem.RateLimiter

open TokenBuckets OutputMachines

structure RateLimitConfig where
  requestsPerMinute : ℤ
  burstSize : ℤ
  cleanupInterval : ℚ

def defaultRateLimitConfig : RateLimitConfig := ⟨60, 10, 5 * 60⟩

/-- What a limiter keeps of its configuration. -/
structure Limiter where
  rate : ℚ
  burst : ℤ
  interval : ℚ

def newRateLimiter (cfg : RateLimitConfig) : Limiter where
  rate := cfg.requestsPerMinute / 60
  burst := cfg.burstSize
  interval := if cfg.cleanupInterval ≤ 0 then 5 * 60 else cfg.cleanupInterval

theorem newRateLimiter_interval_pos (cfg : RateLimitConfig) :
    0 < (newRateLimiter cfg).interval := by
  unfold newRateLimiter
  split
  · norm_num
  · rename_i hpos
    exact not_le.mp hpos

abbrev Buckets := String → Option (Bucket ℚ)

def noBuckets : Buckets := fun _ => none

/-- A request or a cleanup, with the time that it reads under the lock. -/
inductive Event
  | request (ip : String) (now : ℚ)
  | cleanup (now : ℚ)
  deriving DecidableEq

def Event.time : Event → ℚ
  | request _ now => now
  | cleanup now => now

section

variable (rl : Limiter) (buckets : Buckets)

def allow (ip : String) (now : ℚ) : Buckets × Bool :=
  let b := (buckets ip).getD ⟨rl.burst, now⟩
  let tokens := b.tokens + (now - b.lastRefill) * rl.rate
  let tokens := if (rl.burst : ℚ) < tokens then (rl.burst : ℚ) else tokens
  if tokens < 1 then (Function.update buckets ip (some ⟨tokens, now⟩), false)
  else (Function.update buckets ip (some ⟨tokens - 1, now⟩), true)

def cleanup (now : ℚ) : Buckets :=
  fun ip => (buckets ip).filter (fun b => ¬ b.lastRefill < now - rl.interval)

def step : Event → Buckets × Option Bool
  | .request ip now => ((allow rl buckets ip now).1, some (allow rl buckets ip now).2)
  | .cleanup now => (cleanup rl buckets now, none)

variable (key : String)

def verdictOf : Event × Option Bool → Option (ℚ × Bool)
  | (.request ip now, some ok) => if ip = key then some (now, ok) else none
  | _ => none

def verdicts (buckets : Buckets) (events : List Event) : List (ℚ × Bool) :=
  (events.zip (outcomes (step rl) buckets events)).filterMap (verdictOf key)

/-- How many requests of a client are allowed from one time to another, both included. -/
def allowedWithin (start stop : ℚ) (buckets : Buckets) (events : List Event) : ℕ :=
  (verdicts rl key buckets events).countP (fun v => v.2 ∧ start ≤ v.1 ∧ v.1 ≤ stop)

def Chronological (events : List Event) : Prop :=
  events.Pairwise (fun e e' => e.time ≤ e'.time)

/-- In every window a client is allowed no more than the burst and what the rate adds. -/
def RateBound : Prop :=
  ∀ (key : String) (events : List Event), Chronological events → ∀ start length : ℚ, 0 ≤ length →
    (allowedWithin rl key start (start + length) noBuckets events : ℚ) ≤ rl.burst + rl.rate * length

def concerns : Event → Bool
  | .request ip _ => ip = key
  | .cleanup _ => true

def KeysApart : Prop :=
  ∀ (key : String) (events : List Event),
    verdicts rl key noBuckets events = verdicts rl key noBuckets (events.filter (concerns key))

theorem allow_eq (buckets : Buckets) (ip : String) (now : ℚ) :
    allow rl buckets ip now =
      (Function.update buckets ip (some (take rl.rate rl.burst (buckets ip) now).1),
        (take rl.rate rl.burst (buckets ip) now).2) := by
  have hlevel : ∀ x : ℚ, (if (rl.burst : ℚ) < x then (rl.burst : ℚ) else x) = min
    (rl.burst : ℚ) x := by
    intro x
    rw [min_def]
    by_cases hx : (rl.burst : ℚ) < x
    · rw [if_pos hx, if_pos hx.le]
    · rw [if_neg hx]
      split
      · rename_i hle
        exact le_antisymm (not_lt.mp hx) hle
      · rfl
  have hsame : min (rl.burst : ℚ) (((buckets ip).getD ⟨rl.burst, now⟩).tokens +
      (now - ((buckets ip).getD ⟨rl.burst, now⟩).lastRefill) * rl.rate) =
        available rl.rate rl.burst (buckets ip) now := by
    cases buckets ip with
    | none => simp [available]
    | some b => rfl
  unfold allow take
  simp only [hlevel, hsame]
  split <;> rfl

def bucketAfter (b : Option (Bucket ℚ)) : Event → Option (Bucket ℚ)
  | .request ip now => if ip = key then some (take rl.rate rl.burst b now).1 else b
  | .cleanup now => b.filter (fun c => ¬ c.lastRefill < now - rl.interval)

theorem bucketAfter_own (key : String) (b : Option (Bucket ℚ)) (now : ℚ) :
    bucketAfter rl key b (.request key now) = some (take rl.rate rl.burst b now).1 := if_pos rfl

variable {key} {ip : String}

theorem bucketAfter_other (b : Option (Bucket ℚ)) (now : ℚ) (hip : ip ≠ key) :
    bucketAfter rl key b (.request ip now) = b := if_neg hip

variable {b : Option (Bucket ℚ)} {now : ℚ}

theorem bucketAfter_stale (key : String) (hstale : ∀ c ∈ b, c.lastRefill < now - rl.interval) :
    bucketAfter rl key b (.cleanup now) = none := by
  apply Option.filter_eq_none_iff.mpr
  intro c hc hkept
  exact of_decide_eq_true hkept (hstale c hc)

theorem step_bucket (key : String) (buckets : Buckets) (e : Event) :
    (step rl buckets e).1 key = bucketAfter rl key (buckets key) e := by
  cases e with
  | cleanup now => rfl
  | request ip now =>
    simp only [step, allow_eq, bucketAfter]
    by_cases hip : ip = key
    · subst hip
      rw [if_pos rfl, Function.update_self]
    · rw [if_neg hip, Function.update_of_ne (Ne.symm hip)]

theorem verdicts_nil (key : String) (buckets : Buckets) : verdicts rl key buckets [] = [] := rfl

theorem verdicts_own (key : String) (buckets : Buckets) (now : ℚ) (events : List Event) :
    verdicts rl key buckets (.request key now :: events) =
      (now, (take rl.rate rl.burst (buckets key) now).2) ::
        verdicts rl key (step rl buckets (.request key now)).1 events := by
  have hverdict : verdictOf key (.request key now, some (allow rl buckets key now).2) =
      some (now, (take rl.rate rl.burst (buckets key) now).2) := by
    rw [allow_eq]
    exact if_pos rfl
  exact List.filterMap_cons_some hverdict

theorem verdicts_other (buckets : Buckets) (now : ℚ) (events : List Event) (hip : ip ≠ key) :
    verdicts rl key buckets (.request ip now :: events) =
      verdicts rl key (step rl buckets (.request ip now)).1 events := by
  exact List.filterMap_cons_none (if_neg hip)

theorem verdicts_cleanup (key : String) (buckets : Buckets) (now : ℚ) (events : List Event) :
    verdicts rl key buckets (.cleanup now :: events) =
      verdicts rl key (step rl buckets (.cleanup now)).1 events := by
  exact List.filterMap_cons_none rfl

theorem verdicts_filter (buckets buckets' : Buckets) (events : List Event)
    (h : buckets key = buckets' key) :
    verdicts rl key buckets events = verdicts rl key buckets' (events.filter (concerns key)) := by
  induction events generalizing buckets buckets' with
  | nil => rfl
  | cons e events ih =>
    have hafter : ∀ e', (step rl buckets e').1 key = (step rl buckets' e').1 key := by
      intro e'
      rw [step_bucket, step_bucket, h]
    cases e with
    | cleanup now =>
      exact ih _ _ (hafter _)
    | request ip now =>
      by_cases hip : ip = key
      · subst hip
        rw [List.filter_cons_of_pos (by simp [concerns]), verdicts_own, verdicts_own, h]
        rw [ih _ _ (hafter _)]
      · rw [List.filter_cons_of_neg (by simp [concerns, hip]), verdicts_other rl _ _ _ hip]
        apply ih
        rw [step_bucket, bucketAfter_other rl _ now hip]
        exact h

theorem keysApart : KeysApart rl :=
  fun _ events => verdicts_filter rl noBuckets noBuckets events rfl

section Bound

variable (hrate : 0 ≤ rl.rate) (hburst : 0 ≤ (rl.burst : ℚ))
  (hfull : (rl.burst : ℚ) ≤ rl.rate * rl.interval)

include hrate hfull in
theorem available_cleanup (key : String) (now : ℚ) (hb : SoundAt now b) :
    available rl.rate rl.burst (bucketAfter rl key b (.cleanup now)) now =
      available rl.rate rl.burst b now := by
  cases b with
  | none => rfl
  | some c =>
    by_cases hstale : c.lastRefill < now - rl.interval
    · have hdropped : bucketAfter rl key (some c) (.cleanup now) = none := by
        apply bucketAfter_stale
        intro c' hc'
        rw [← Option.some.inj hc']
        exact hstale
      rw [hdropped, available_eq_burst rl.rate rl.burst hrate (hb c rfl).1 hstale hfull]
      rfl
    · have hkept : bucketAfter rl key (some c) (.cleanup now) = some c := by
        simpa [bucketAfter] using hstale
      rw [hkept]

include hrate hburst in
theorem soundAt_bucketAfter (key : String) {e : Event}
    (hb : SoundAt e.time b) : SoundAt e.time (bucketAfter rl key b e) := by
  cases e with
  | cleanup now =>
    intro c hc
    exact hb c (Option.mem_filter_iff.mp hc).1
  | request ip now =>
    by_cases hip : ip = key
    · rw [hip, bucketAfter_own]
      exact soundAt_take rl.rate rl.burst hrate hburst hb
    · rw [bucketAfter_other rl b now hip]
      exact hb

theorem allowedWithin_own (key : String) (start stop : ℚ) (buckets : Buckets) (now : ℚ)
    (events : List Event) :
    (allowedWithin rl key start stop buckets (.request key now :: events) : ℚ) =
      (if (take rl.rate rl.burst (buckets key) now).2 = true ∧ start ≤ now ∧ now ≤ stop
        then 1 else 0) +
      allowedWithin rl key start stop (step rl buckets (.request key now)).1 events := by
  unfold allowedWithin
  rw [verdicts_own, List.countP_cons, Nat.cast_add, add_comm]
  simp

include hrate hburst hfull in
/-- By induction, what is still allowed within the window is at most the allowance. -/
theorem allowedWithin_le_allowance {start stop : ℚ} (hwindow : start ≤ stop)
    (buckets : Buckets) (now : ℚ) {events : List Event} (hb : SoundAt now (buckets key))
    (hlater : ∀ e ∈ events, now ≤ e.time) (hevents : Chronological events) :
    (allowedWithin rl key start stop buckets events : ℚ) ≤
      allowance rl.rate rl.burst start stop (buckets key) now := by
  induction events generalizing buckets now with
  | nil =>
    simpa [allowedWithin, verdicts_nil] using
      allowance_nonneg rl.rate rl.burst hrate hburst start stop hwindow (buckets key) hb
  | cons e events ih =>
    obtain ⟨hfirst, hrest⟩ := List.pairwise_cons.mp hevents
    have hsound : SoundAt e.time (buckets key) := hb.mono (hlater e List.mem_cons_self)
    have hpassed := allowance_antitone rl.rate rl.burst hrate hburst start stop hwindow
      (buckets key) (hlater e List.mem_cons_self) hb
    have hafter : SoundAt e.time ((step rl buckets e).1 key) := by
      rw [step_bucket]
      exact soundAt_bucketAfter rl hrate hburst key hsound
    have hremaining := ih (step rl buckets e).1 e.time hafter hfirst hrest
    rw [step_bucket] at hremaining
    cases e with
    | cleanup t =>
      have hsame : allowance rl.rate rl.burst start stop
          (bucketAfter rl key (buckets key) (.cleanup t)) t =
            allowance rl.rate rl.burst start stop (buckets key) t := by
        unfold allowance
        rw [available_cleanup rl hrate hfull key (b := buckets key) t hsound]
      unfold allowedWithin
      rw [verdicts_cleanup]
      exact (hremaining.trans_eq hsame).trans hpassed
    | request ip t =>
      by_cases hip : ip = key
      · subst hip
        have htaken := allowance_take rl.rate (rl.burst : ℚ) start stop (buckets ip) t
        rw [allowedWithin_own]
        rw [bucketAfter_own] at hremaining
        exact ((add_le_add_right hremaining _).trans htaken).trans hpassed
      · rw [bucketAfter_other rl _ t hip] at hremaining
        unfold allowedWithin
        rw [verdicts_other rl _ _ _ hip]
        exact hremaining.trans hpassed

include hrate hburst hfull in
theorem rateBound_of_full : RateBound rl := by
  intro key events hevents start length hlength
  have hwindow : start ≤ start + length := by linarith
  -- The empty table is sound at every time, so the first event may start the clock.
  have hall : ∀ now, (∀ e ∈ events, now ≤ e.time) →
      (allowedWithin rl key start (start + length) noBuckets events : ℚ) ≤
        rl.burst + rl.rate * length := by
    intro now hlater
    have hsound : SoundAt now (noBuckets key) := by
      intro c hc
      exact absurd hc (Option.not_mem_none c)
    have hle := allowedWithin_le_allowance rl hrate hburst hfull hwindow
      noBuckets now hsound hlater hevents
    have htotal := allowance_le rl.rate (rl.burst : ℚ) hrate hburst start (start + length) hwindow
      (noBuckets key) now
    have hlen : (start + length - start) * rl.rate = rl.rate * length := by ring
    linarith
  cases events with
  | nil => exact hall 0 (fun e he => absurd he List.not_mem_nil)
  | cons e rest =>
    apply hall e.time
    intro e' he'
    rcases List.mem_cons.mp he' with heq | hrest
    · rw [heq]
    · exact (List.pairwise_cons.mp hevents).1 e' hrest

end Bound

section Early

variable (hrate : 0 < rl.rate) (hburst : 1 ≤ rl.burst)

include hrate hburst in
theorem verdicts_burst (buckets : Buckets) {n : ℕ} (rest : List Event)
    (hb : SoundAt now (buckets key)) (hn : (n : ℚ) ≤ available rl.rate rl.burst (buckets key) now) :
    ∃ buckets' : Buckets, SoundAt now (buckets' key) ∧
      verdicts rl key buckets (List.replicate n (.request key now) ++ rest) =
        List.replicate n (now, true) ++ verdicts rl key buckets' rest := by
  induction n generalizing buckets with
  | zero => exact ⟨buckets, hb, rfl⟩
  | succ n ih =>
    rw [Nat.cast_succ] at hn
    have hone : ¬ available rl.rate rl.burst (buckets key) now < 1 := by
      have hnonneg : (0 : ℚ) ≤ n := Nat.cast_nonneg n
      exact not_lt.mpr (by linarith)
    have hok : (take rl.rate rl.burst (buckets key) now).2 = true := by
      rw [take, if_neg hone]
    have hbucket : (step rl buckets (.request key now)).1 key =
        some (take rl.rate rl.burst (buckets key) now).1 := by
      rw [step_bucket, bucketAfter_own]
    have hpos : (0 : ℚ) ≤ rl.burst := by exact_mod_cast (by omega : 0 ≤ rl.burst)
    have hsound : SoundAt now ((step rl buckets (.request key now)).1 key) := by
      rw [hbucket]
      exact soundAt_take rl.rate rl.burst hrate.le hpos hb
    have hleft : (n : ℚ) ≤ available rl.rate rl.burst
        ((step rl buckets (.request key now)).1 key) now := by
      rw [hbucket, available_take, if_pos hok]
      linarith
    obtain ⟨buckets', hafter, hverdicts⟩ := ih _ hsound hleft
    refine ⟨buckets', hafter, ?_⟩
    rw [List.replicate_succ, List.cons_append, verdicts_own, hok, hverdicts]
    rfl

theorem countP_replicate_within {start stop : ℚ} (n : ℕ) (hstart : start ≤ now)
    (hstop : now ≤ stop) :
    (List.replicate n (now, true)).countP (fun v => v.2 ∧ start ≤ v.1 ∧ v.1 ≤ stop) = n := by
  rw [List.countP_replicate, if_pos (by simp [hstart, hstop])]

def twoBursts (key : String) (n : ℕ) (t : ℚ) : List Event :=
  List.replicate n (.request key 0) ++ .cleanup t :: (List.replicate n (.request key t) ++ [])

theorem chronological_twoBursts (key : String) (n : ℕ) {t : ℚ} (ht : 0 ≤ t) :
    Chronological (twoBursts key n t) := by
  have hfirst : ∀ e ∈ List.replicate n (Event.request key 0), e.time = 0 := by
    intro e he
    rw [List.eq_of_mem_replicate he]
    rfl
  have hsecond : ∀ e ∈ Event.cleanup t :: (List.replicate n (Event.request key t) ++ []),
      e.time = t := by
    intro e he
    rw [List.append_nil] at he
    rcases List.mem_cons.mp he with hcleanup | hrequest
    · rw [hcleanup]
      rfl
    · rw [List.eq_of_mem_replicate hrequest]
      rfl
  apply List.pairwise_append.mpr
  refine ⟨?_, ?_, ?_⟩
  · apply List.pairwise_of_forall_mem_list
    intro e he e' he'
    rw [hfirst e he, hfirst e' he']
  · apply List.pairwise_of_forall_mem_list
    intro e he e' he'
    rw [hsecond e he, hsecond e' he']
  · intro e he e' he'
    rw [hfirst e he, hsecond e' he']
    exact ht

include hrate hburst in
theorem verdicts_twoBursts (key : String) {t : ℚ} (ht : rl.interval < t) :
    ∃ buckets' : Buckets, verdicts rl key noBuckets (twoBursts key rl.burst.toNat t) =
      List.replicate rl.burst.toNat (0, true) ++
        (List.replicate rl.burst.toNat (t, true) ++ verdicts rl key buckets' []) := by
  have hcast : (rl.burst.toNat : ℚ) = rl.burst := by
    exact_mod_cast Int.toNat_of_nonneg (by omega : 0 ≤ rl.burst)
  have hempty : ∀ now : ℚ, SoundAt now (none : Option (Bucket ℚ)) :=
    fun _ c hc => absurd hc (Option.not_mem_none c)
  obtain ⟨buckets, hsound, hfirst⟩ := verdicts_burst rl hrate hburst noBuckets
    (.cleanup t :: (List.replicate rl.burst.toNat (.request key t) ++ [])) (hempty 0) hcast.le
  have hdropped : (step rl buckets (.cleanup t)).1 key = none := by
    rw [step_bucket]
    apply bucketAfter_stale
    intro c hc
    linarith [(hsound c hc).2]
  obtain ⟨buckets', -, hsecond⟩ := verdicts_burst rl hrate hburst
    (step rl buckets (.cleanup t)).1 [] (by rw [hdropped]; exact hempty t)
    (by rw [hdropped]; exact hcast.le)
  refine ⟨buckets', ?_⟩
  rw [twoBursts, hfirst, verdicts_cleanup, hsecond]

include hrate hburst in
theorem full_of_rateBound (hinterval : 0 < rl.interval) (h : RateBound rl) :
    (rl.burst : ℚ) ≤ rl.rate * rl.interval := by
  by_contra hearly
  have hcast : (rl.burst.toNat : ℚ) = rl.burst := by
    exact_mod_cast Int.toNat_of_nonneg (by omega : 0 ≤ rl.burst)
  obtain ⟨t, hdrop, hlow⟩ := exists_between ((lt_div_iff₀' hrate).mpr (not_le.mp hearly))
  have ht : 0 ≤ t := (hinterval.trans hdrop).le
  have hlevel : rl.rate * t < rl.burst := (lt_div_iff₀' hrate).mp hlow
  obtain ⟨buckets', hverdicts⟩ := verdicts_twoBursts rl hrate hburst "" hdrop
  have hbound := h "" (twoBursts "" rl.burst.toNat t) (chronological_twoBursts "" _ ht) 0 t ht
  rw [allowedWithin, hverdicts, List.countP_append, List.countP_append,
    countP_replicate_within _ (le_refl 0) (by linarith),
    countP_replicate_within _ ht (by linarith), verdicts_nil, List.countP_nil,
    Nat.cast_add, Nat.cast_add, hcast, Nat.cast_zero] at hbound
  linarith

end Early

end

/-- The limits hold exactly if buckets are full again by the time a cleanup may drop them. -/
theorem limits_hold_iff_full_before_dropped (cfg : RateLimitConfig)
    (hrate : 0 < cfg.requestsPerMinute) (hburst : 1 ≤ cfg.burstSize) :
    (RateBound (newRateLimiter cfg) ∧ KeysApart (newRateLimiter cfg)) ↔
      ((newRateLimiter cfg).burst : ℚ) ≤
        (newRateLimiter cfg).rate * (newRateLimiter cfg).interval := by
  have hpos : 0 < (newRateLimiter cfg).rate := by
    have hcast : (0 : ℚ) < cfg.requestsPerMinute := by exact_mod_cast hrate
    exact div_pos hcast (by norm_num)
  have hnonneg : (0 : ℚ) ≤ (newRateLimiter cfg).burst := by
    exact_mod_cast (by omega : 0 ≤ cfg.burstSize)
  constructor
  · intro ⟨hbound, _⟩
    exact full_of_rateBound (newRateLimiter cfg) hpos hburst (newRateLimiter_interval_pos cfg)
      hbound
  · intro hfull
    exact ⟨rateBound_of_full (newRateLimiter cfg) hpos.le hnonneg hfull, keysApart _⟩

/-- The default configuration refills a bucket in ten seconds and keeps it for five minutes. -/
theorem default_limits_hold :
    RateBound (newRateLimiter defaultRateLimitConfig) ∧
      KeysApart (newRateLimiter defaultRateLimitConfig) :=
  (limits_hold_iff_full_before_dropped defaultRateLimitConfig (by decide) (by decide)).mpr
    (by decide +kernel)

def emptiedTwice : List Event :=
  List.replicate 10 (.request "10.0.0.1" 299) ++ [.cleanup 300, .cleanup 600] ++
    List.replicate 10 (.request "10.0.0.1" 601)

/-- A cleanup drops an emptied bucket: twenty requests pass where the bound is below sixteen. -/
theorem dropped_bucket_breaks_bound :
    Chronological emptiedTwice ∧
      allowedWithin (newRateLimiter ⟨1, 10, 5 * 60⟩) "10.0.0.1" 299 (299 + 302) noBuckets
        emptiedTwice = 20 ∧
      ((newRateLimiter ⟨1, 10, 5 * 60⟩).burst : ℚ) +
        (newRateLimiter ⟨1, 10, 5 * 60⟩).rate * 302 < 16 := by
  unfold Chronological
  decide +kernel

end IronGolem.RateLimiter
