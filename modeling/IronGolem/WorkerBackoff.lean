import Mathlib.Data.Rat.Floor
import IronGolem.MachineIntegers
import IronGolem.TransitionRuns

/-!
The reconnect schedule of the connector workers. RunWorker repeats an iteration until its context
is cancelled. A clean end resets the schedule, an error or a panic sleeps for the next delay, which
doubles up to a cap and is jittered by a quarter.
-/

namespace IronGolem.WorkerBackoff

open MachineIntegers TransitionRuns

def second : ℤ := 1000000000

def defaultInitialBackoff : ℤ := second

def defaultMaxBackoff : ℤ := 60 * second

/-- The two durations of a worker's configuration, which 64 bits hold. -/
structure WorkerConfig where
  initialBackoff : ℤ
  maxBackoff : ℤ
  initial_range : -2 ^ 63 ≤ initialBackoff ∧ initialBackoff < 2 ^ 63
  max_range : -2 ^ 63 ≤ maxBackoff ∧ maxBackoff < 2 ^ 63

structure Backoff where
  initial : ℤ
  max : ℤ
  current : ℤ
  deriving DecidableEq, Repr

def newBackoff (initial max : ℤ) : Backoff :=
  let initial := if initial ≤ 0 then defaultInitialBackoff else initial
  let max := if max ≤ 0 then defaultMaxBackoff else max
  let max := if max < initial then initial else max
  { initial, max, current := initial }

def truncate (x : ℚ) : ℤ := if 0 ≤ x then ⌊x⌋ else ⌈x⌉

def backoffJitterFraction : ℚ := 1 / 4

def Backoff.next (b : Backoff) (roll : ℚ) : ℤ × Backoff :=
  let base := b.current
  let next := wrap (b.current * 2)
  let next := if next > b.max then b.max else next
  let factor := 1 - backoffJitterFraction + 2 * backoffJitterFraction * roll
  (truncate (base * factor), { b with current := next })

variable (b : Backoff)

def Backoff.reset : Backoff := { b with current := b.initial }

inductive Outcome where
  | clean
  | error
  | panic
  deriving DecidableEq, Repr

def Outcome.failed : Outcome → Bool
  | .clean => false
  | .error => true
  | .panic => true

/-- What can be seen of a worker. -/
inductive Event where
  | started
  | ended (outcome : Outcome)
  | slept (delay : ℤ)
  | cancelled
  deriving DecidableEq, Repr

inductive Pc where
  | head
  | iterating
  | returned (failed : Bool)
  | sleeping
  | stopped
  deriving DecidableEq, Repr

structure Worker where
  backoff : Backoff
  pc : Pc
  cancelled : Bool
  trace : List Event
  deriving DecidableEq, Repr

def init (cfg : WorkerConfig) : Worker :=
  { backoff := newBackoff cfg.initialBackoff cfg.maxBackoff, pc := .head, cancelled := false
    trace := [] }

inductive Act where
  | cancel
  | enter
  | finish (outcome : Outcome)
  | settle (roll : ℚ)
  | wake
  | leave
  deriving DecidableEq, Repr

variable (w : Worker)

def Worker.log (e : Event) : Worker := { w with trace := w.trace ++ [e] }

/-- The context is checked at the head of the loop; `wake` and `leave` are the select. -/
def step : Act → Option Worker
  | .cancel => if w.cancelled then none else some { w.log .cancelled with cancelled := true }
  | .enter =>
    if w.pc = .head then
      if w.cancelled then some { w with pc := .stopped }
      else some { w.log .started with pc := .iterating }
    else none
  | .finish outcome =>
    if w.pc = .iterating then some { w.log (.ended outcome) with pc := .returned outcome.failed }
    else none
  | .settle roll =>
    match w.pc with
    | .returned failed =>
      if w.cancelled then some { w with pc := .stopped }
      else if failed = false then some { w with backoff := w.backoff.reset, pc := .head }
      else if 0 ≤ roll ∧ roll < 1 then
        some { w.log (.slept (w.backoff.next roll).1) with
          backoff := (w.backoff.next roll).2, pc := .sleeping }
      else none
    | _ => none
  | .wake => if w.pc = .sleeping then some { w with pc := .head } else none
  | .leave => if w.pc = .sleeping ∧ w.cancelled then some { w with pc := .stopped } else none

def failures (trace : List Event) : ℕ :=
  trace.foldl (fun n e => match e with
    | .ended outcome => if outcome.failed then n + 1 else 0
    | _ => n) 0

def lastMove (trace : List Event) : Option Event :=
  trace.foldl (fun m e => match e with
    | .cancelled => m
    | _ => some e) none

/-- The delay after failure number `j`, before the jitter. -/
def scheduled (j : ℕ) : ℤ := min (b.initial * 2 ^ (j - 1)) b.max

structure Follows (b : Backoff) (trace : List Event) : Prop where
  delays : ∀ pre d post, trace = pre ++ .slept d :: post →
    1 ≤ failures pre ∧ ⌊(3 / 4 : ℚ) * scheduled b (failures pre)⌋ ≤ d ∧
      (d : ℚ) < 5 / 4 * scheduled b (failures pre)
  onlyAfterFailure : ∀ pre d post, trace = pre ++ .slept d :: post →
    lastMove pre = some (.ended .error) ∨ lastMove pre = some (.ended .panic)
  restarts : ∀ pre post, trace = pre ++ .started :: post →
    lastMove pre = none ∨ lastMove pre = some (.ended .clean) ∨ ∃ d, lastMove pre = some (.slept d)
  noStart : ∀ pre post, trace = pre ++ .cancelled :: post → .started ∉ post

variable (trace : List Event)

@[simp] theorem failures_concat (e : Event) :
    failures (trace ++ [e]) = match e with
      | .ended outcome => if outcome.failed then failures trace + 1 else 0
      | _ => failures trace := by
  simp [failures]

@[simp] theorem lastMove_concat (e : Event) :
    lastMove (trace ++ [e]) = match e with
      | .cancelled => lastMove trace
      | _ => some e := by
  simp [lastMove]

variable {b : Backoff}

theorem follows_nil : Follows b [] := by
  refine ⟨?_, ?_, ?_, ?_⟩
  · intro pre d post h
    simp at h
  · intro pre d post h
    simp at h
  · intro pre post h
    simp at h
  · intro pre post h
    simp at h

theorem Follows.concat {trace : List Event} (h : Follows b trace) (e : Event)
    (hslept : ∀ d, e = .slept d → (1 ≤ failures trace ∧
      ⌊(3 / 4 : ℚ) * scheduled b (failures trace)⌋ ≤ d ∧
        (d : ℚ) < 5 / 4 * scheduled b (failures trace)) ∧
      (lastMove trace = some (.ended .error) ∨ lastMove trace = some (.ended .panic)))
    (hstarted : e = .started → .cancelled ∉ trace ∧ (lastMove trace = none ∨
      lastMove trace = some (.ended .clean) ∨ ∃ d, lastMove trace = some (.slept d))) :
    Follows b (trace ++ [e]) := by
  constructor
  · intro pre d post heq
    rcases concat_eq_split heq with ⟨-, rfl, he⟩ | ⟨post', -, hpre⟩
    · exact (hslept d he).1
    · exact h.delays pre d post' hpre
  · intro pre d post heq
    rcases concat_eq_split heq with ⟨-, rfl, he⟩ | ⟨post', -, hpre⟩
    · exact (hslept d he).2
    · exact h.onlyAfterFailure pre d post' hpre
  · intro pre post heq
    rcases concat_eq_split heq with ⟨-, rfl, he⟩ | ⟨post', -, hpre⟩
    · exact (hstarted he).2
    · exact h.restarts pre post' hpre
  · intro pre post heq
    rcases concat_eq_split heq with ⟨rfl, -, -⟩ | ⟨post', rfl, hpre⟩
    · simp
    · intro hmem
      rcases List.mem_append.mp hmem with hold | hnew
      · exact h.noStart pre post' hpre hold
      · refine (hstarted (List.mem_singleton.mp hnew).symm).1 ?_
        simp [hpre]

/-- Settings after the normalisation whose doubling fits in 64 bits. -/
structure Small (b : Backoff) : Prop where
  positive : 0 < b.initial
  ordered : b.initial ≤ b.max
  fits : b.max < 2 ^ 62

theorem newBackoff_ordered (initial max : ℤ) :
    0 < (newBackoff initial max).initial ∧
      (newBackoff initial max).initial ≤ (newBackoff initial max).max := by
  unfold newBackoff defaultInitialBackoff defaultMaxBackoff second
  dsimp only
  constructor
  · split <;> omega
  · split <;> split <;> split <;> omega

theorem newBackoff_max_lt_iff (initial max : ℤ) :
    (newBackoff initial max).max < 2 ^ 62 ↔ initial < 2 ^ 62 ∧ max < 2 ^ 62 := by
  unfold newBackoff defaultInitialBackoff defaultMaxBackoff second
  dsimp only
  split <;> split <;> split <;> omega

theorem scheduled_one (h : b.initial ≤ b.max) : scheduled b 1 = b.initial := by
  simp [scheduled, h]

theorem scheduled_pos (h : 0 < b.initial) (hle : b.initial ≤ b.max) (j : ℕ) :
    0 < scheduled b j := by
  have hpow : (0 : ℤ) < b.initial * 2 ^ (j - 1) := by positivity
  exact lt_min hpow (by omega)

theorem scheduled_succ {j : ℕ} (hj : 1 ≤ j) (hmax : 0 ≤ b.max) :
    scheduled b (j + 1) = min (scheduled b j * 2) b.max := by
  obtain ⟨k, rfl⟩ : ∃ k, j = k + 1 := ⟨j - 1, by omega⟩
  unfold scheduled
  rw [Nat.add_sub_cancel, Nat.add_sub_cancel, pow_succ, ← mul_assoc]
  omega

theorem next_current (roll : ℚ) (hpos : 0 < b.current) (hfits : b.current < 2 ^ 62) :
    (b.next roll).2.current = min (b.current * 2) b.max := by
  have hwrap : wrap (b.current * 2) = b.current * 2 := wrap_of_range (by omega) (by omega)
  simp only [Backoff.next, hwrap]
  split
  · next hgt => rw [min_eq_right (le_of_lt hgt)]
  · next hle => rw [min_eq_left (not_lt.mp hle)]

variable {roll : ℚ}

theorem next_delay (hlow : 0 ≤ roll) (hhigh : roll < 1) (hpos : 0 < b.current) :
    ⌊(3 / 4 : ℚ) * b.current⌋ ≤ (b.next roll).1 ∧ ((b.next roll).1 : ℚ) < 5 / 4 * b.current := by
  have hcurrent : (0 : ℚ) < b.current := by exact_mod_cast hpos
  have hfactor : (3 / 4 : ℚ) ≤ 1 - backoffJitterFraction + 2 * backoffJitterFraction * roll ∧
      1 - backoffJitterFraction + 2 * backoffJitterFraction * roll < 5 / 4 := by
    unfold backoffJitterFraction
    constructor <;> linarith
  have hbase : (3 / 4 : ℚ) * b.current ≤
      b.current * (1 - backoffJitterFraction + 2 * backoffJitterFraction * roll) := by
    rw [mul_comm (3 / 4 : ℚ)]
    exact mul_le_mul_of_nonneg_left hfactor.1 hcurrent.le
  have hceil : b.current * (1 - backoffJitterFraction + 2 * backoffJitterFraction * roll) <
      5 / 4 * b.current := by
    rw [mul_comm (5 / 4 : ℚ)]
    exact mul_lt_mul_of_pos_left hfactor.2 hcurrent
  have hnonneg : (0 : ℚ) ≤
      b.current * (1 - backoffJitterFraction + 2 * backoffJitterFraction * roll) := by
    linarith
  simp only [Backoff.next, truncate, if_pos hnonneg]
  exact ⟨Int.floor_le_floor hbase, lt_of_le_of_lt (Int.floor_le _) hceil⟩

/-- What the current delay and the trace say at each point of the loop. -/
def Placed (b : Backoff) (w : Worker) : Prop :=
  match w.pc with
  | .head => w.backoff.current = scheduled b (failures w.trace + 1) ∧
      (lastMove w.trace = none ∨ lastMove w.trace = some (.ended .clean) ∨
        ∃ d, lastMove w.trace = some (.slept d))
  | .iterating => w.backoff.current = scheduled b (failures w.trace + 1)
  | .returned false => lastMove w.trace = some (.ended .clean) ∧ failures w.trace = 0
  | .returned true => w.backoff.current = scheduled b (failures w.trace) ∧
      1 ≤ failures w.trace ∧
      (lastMove w.trace = some (.ended .error) ∨ lastMove w.trace = some (.ended .panic))
  | .sleeping => w.backoff.current = scheduled b (failures w.trace + 1) ∧
      ∃ d, lastMove w.trace = some (.slept d)
  | .stopped => True

structure Inv (b : Backoff) (w : Worker) : Prop where
  initial : w.backoff.initial = b.initial
  max : w.backoff.max = b.max
  flag : w.cancelled = false → .cancelled ∉ w.trace
  placed : Placed b w
  follows : Follows b w.trace

variable (cfg : WorkerConfig)

theorem inv_init : Inv (newBackoff cfg.initialBackoff cfg.maxBackoff) (init cfg) := by
  obtain ⟨-, hle⟩ := newBackoff_ordered cfg.initialBackoff cfg.maxBackoff
  refine ⟨rfl, rfl, by simp [init], ⟨?_, .inl rfl⟩, follows_nil⟩
  exact (scheduled_one hle).symm

variable {w : Worker}

theorem inv_cancel (h : Inv b w) : Inv b { w.log .cancelled with cancelled := true } := by
  refine ⟨h.initial, h.max, by simp, ?_, ?_⟩
  · have hplaced := h.placed
    simp only [Placed, Worker.log, failures_concat, lastMove_concat] at hplaced ⊢
    exact hplaced
  · exact h.follows.concat .cancelled (by simp) (by simp)

theorem inv_stop (h : Inv b w) : Inv b { w with pc := .stopped } :=
  ⟨h.initial, h.max, h.flag, trivial, h.follows⟩

theorem inv_start (h : Inv b w) (hpc : w.pc = .head)
    (hlive : w.cancelled = false) : Inv b { w.log .started with pc := .iterating } := by
  have hplaced := h.placed
  simp only [Placed, hpc] at hplaced
  refine ⟨h.initial, h.max, ?_, ?_, ?_⟩
  · intro hcancelled
    simpa [Worker.log] using h.flag hcancelled
  · simpa [Placed, Worker.log] using hplaced.1
  · exact h.follows.concat .started (by simp) fun _ => ⟨h.flag hlive, hplaced.2⟩

theorem inv_finish (h : Inv b w) (hpc : w.pc = .iterating) (outcome : Outcome) :
    Inv b { w.log (.ended outcome) with pc := .returned outcome.failed } := by
  have hplaced := h.placed
  simp only [Placed, hpc] at hplaced
  refine ⟨h.initial, h.max, ?_, ?_, ?_⟩
  · intro hcancelled
    simpa [Worker.log] using h.flag hcancelled
  · cases outcome with
    | clean => simp [Placed, Worker.log, Outcome.failed]
    | _ => simpa [Placed, Worker.log, Outcome.failed] using hplaced
  · exact h.follows.concat (.ended outcome) (by simp) (by simp)

theorem inv_reset (hsmall : Small b) (h : Inv b w) (hpc : w.pc = .returned false) :
    Inv b { w with backoff := w.backoff.reset, pc := .head } := by
  have hplaced := h.placed
  simp only [Placed, hpc] at hplaced
  refine ⟨h.initial, h.max, h.flag, ⟨?_, .inr (.inl hplaced.1)⟩, h.follows⟩
  rw [hplaced.2, scheduled_one hsmall.ordered]
  exact h.initial

theorem inv_sleep (hsmall : Small b) (h : Inv b w)
    (hpc : w.pc = .returned true) (hlow : 0 ≤ roll) (hhigh : roll < 1) :
    Inv b { w.log (.slept (w.backoff.next roll).1) with
      backoff := (w.backoff.next roll).2, pc := .sleeping } := by
  have hplaced := h.placed
  simp only [Placed, hpc] at hplaced
  obtain ⟨hcurrent, hcount, hmove⟩ := hplaced
  have hpos : 0 < w.backoff.current := by
    rw [hcurrent]
    exact scheduled_pos hsmall.positive hsmall.ordered _
  have hfits : w.backoff.current < 2 ^ 62 := by
    rw [hcurrent]
    exact lt_of_le_of_lt (min_le_right _ _) hsmall.fits
  have hmax : 0 ≤ b.max := by
    have := hsmall.positive
    have := hsmall.ordered
    omega
  refine ⟨h.initial, h.max, ?_, ⟨?_, (w.backoff.next roll).1, ?_⟩, ?_⟩
  · intro hcancelled
    simpa [Worker.log] using h.flag hcancelled
  · simp only [Worker.log, failures_concat]
    rw [next_current roll hpos hfits, scheduled_succ hcount hmax, hcurrent, h.max]
  · simp [Worker.log]
  · refine h.follows.concat _ ?_ (by simp)
    intro d hd
    cases hd
    have hdelay := next_delay hlow hhigh hpos
    rw [hcurrent] at hdelay
    exact ⟨⟨hcount, hdelay⟩, hmove⟩

theorem inv_step (hsmall : Small b) {w' : Worker} {a : Act} (h : Inv b w)
    (hstep : step w a = some w') : Inv b w' := by
  cases a with
  | cancel =>
    simp only [step] at hstep
    split at hstep
    · cases hstep
    · cases hstep
      exact inv_cancel h
  | enter =>
    simp only [step] at hstep
    split at hstep
    · next hpc =>
      split at hstep
      · cases hstep
        exact inv_stop h
      · next hlive =>
        cases hstep
        exact inv_start h hpc (by simpa using hlive)
    · cases hstep
  | finish outcome =>
    simp only [step] at hstep
    split at hstep
    · next hpc =>
      cases hstep
      exact inv_finish h hpc outcome
    · cases hstep
  | settle roll =>
    simp only [step] at hstep
    split at hstep
    · next failed hpc =>
      split at hstep
      · cases hstep
        exact inv_stop h
      · split at hstep
        · next hclean =>
          cases hstep
          exact inv_reset hsmall h (by rw [hpc, hclean])
        · next hfailed =>
          split at hstep
          · next hroll =>
            cases hstep
            exact inv_sleep hsmall h (by rw [hpc]; simpa using hfailed) hroll.1 hroll.2
          · cases hstep
    · cases hstep
  | wake =>
    simp only [step] at hstep
    split at hstep
    · next hpc =>
      cases hstep
      have hplaced := h.placed
      simp only [Placed, hpc] at hplaced
      exact ⟨h.initial, h.max, h.flag, ⟨hplaced.1, .inr (.inr hplaced.2)⟩, h.follows⟩
    · cases hstep
  | leave =>
    simp only [step] at hstep
    split at hstep
    · cases hstep
      exact inv_stop h
    · cases hstep

theorem inv_run (hsmall : Small (newBackoff cfg.initialBackoff cfg.maxBackoff)) {acts : List Act}
    (hrun : run step (init cfg) acts = some w) :
    Inv (newBackoff cfg.initialBackoff cfg.maxBackoff) w :=
  invariant step _ (inv_init cfg) (fun _ _ _ h => inv_step hsmall h) hrun

def failingRound : List Act := [.enter, .finish .error, .settle 0, .wake]

theorem run_failingRound (hpc : w.pc = .head) (hlive : w.cancelled = false) :
    run step w failingRound = some
      { backoff := (w.backoff.next 0).2, pc := .head, cancelled := false
        trace := (w.trace ++ [.started] ++ [.ended .error]) ++ [.slept (w.backoff.next 0).1] } := by
  simp [failingRound, run_cons, step, hpc, hlive, Worker.log, Outcome.failed]

/-- A worker at the head of its loop after failures only. -/
structure Failing (b : Backoff) (n : ℕ) (w : Worker) : Prop where
  pc : w.pc = .head
  live : w.cancelled = false
  count : failures w.trace = n
  initial : w.backoff.initial = b.initial
  max : w.backoff.max = b.max

theorem Failing.round {n : ℕ} (h : Failing b n w) :
    ∃ w', run step w failingRound = some w' ∧ Failing b (n + 1) w' ∧
      w'.backoff = (w.backoff.next 0).2 ∧
      ∃ pre, failures pre = n + 1 ∧ w'.trace = pre ++ [.slept (w.backoff.next 0).1] := by
  refine ⟨_, run_failingRound h.pc h.live, ⟨rfl, rfl, ?_, h.initial, h.max⟩, rfl,
    w.trace ++ [.started] ++ [.ended .error], ?_, rfl⟩
  · simp only [failures_concat, h.count, Outcome.failed, if_true]
  · simp only [failures_concat, h.count, Outcome.failed, if_true]

theorem exists_failing {n : ℕ} (hbelow : ∀ j, 1 ≤ j → j ≤ n →
      scheduled (newBackoff cfg.initialBackoff cfg.maxBackoff) j < 2 ^ 62) :
    ∃ acts w, run step (init cfg) acts = some w ∧
      Failing (newBackoff cfg.initialBackoff cfg.maxBackoff) n w ∧
      w.backoff.current = scheduled (newBackoff cfg.initialBackoff cfg.maxBackoff) (n + 1) := by
  obtain ⟨hpos, hle⟩ := newBackoff_ordered cfg.initialBackoff cfg.maxBackoff
  induction n with
  | zero => exact ⟨[], init cfg, rfl, ⟨rfl, rfl, rfl, rfl, rfl⟩, (scheduled_one hle).symm⟩
  | succ n ih =>
    obtain ⟨acts, w, hrun, hfailing, hcurrent⟩ := ih fun j hj hn => hbelow j hj (by omega)
    obtain ⟨w', hround, hfailing', hbackoff, -⟩ := hfailing.round
    refine ⟨acts ++ failingRound, w', ?_, hfailing', ?_⟩
    · rw [run_append, hrun]
      exact hround
    · have hdelay := scheduled_pos hpos hle (n + 1)
      rw [hbackoff, next_current 0 (by rw [hcurrent]; exact hdelay)
        (by rw [hcurrent]; exact hbelow (n + 1) (by omega) (le_refl _)), hcurrent, hfailing.max,
        scheduled_succ (j := n + 1) (by omega) (by omega)]

theorem next_current_neg (roll : ℚ) (hlow : 2 ^ 62 ≤ b.current)
    (hle : b.current ≤ b.max) (hmax : b.max < 2 ^ 63) : (b.next roll).2.current < 0 := by
  have hwrap : wrap (b.current * 2) = b.current * 2 - 2 ^ 64 := by
    rw [wrap_eq]
    omega
  simp only [Backoff.next]
  split <;> omega

theorem next_delay_nonpos (hneg : b.current < 0) : (b.next 0).1 ≤ 0 := by
  have hcurrent : (b.current : ℚ) < 0 := by exact_mod_cast hneg
  have hproduct : b.current * (1 - backoffJitterFraction + 2 * backoffJitterFraction * 0) < 0 := by
    unfold backoffJitterFraction
    linarith
  simp only [Backoff.next, truncate, if_neg (not_le.mpr hproduct)]
  exact Int.ceil_le.mpr (by exact_mod_cast hproduct.le)

theorem newBackoff_max_lt : (newBackoff cfg.initialBackoff cfg.maxBackoff).max < 2 ^ 63 := by
  have hinitial := cfg.initial_range.2
  have hmax := cfg.max_range.2
  unfold newBackoff defaultInitialBackoff defaultMaxBackoff second
  dsimp only
  split <;> split <;> split <;> omega

theorem exists_first_large (hpos : 0 < b.initial) (hmax : 2 ^ 62 ≤ b.max) :
    ∃ n, 2 ^ 62 ≤ scheduled b (n + 1) ∧ ∀ j, 1 ≤ j → j ≤ n → scheduled b j < 2 ^ 62 := by
  have hexists : ∃ n, 2 ^ 62 ≤ scheduled b (n + 1) := by
    refine ⟨62, le_min ?_ hmax⟩
    omega
  refine ⟨Nat.find hexists, Nat.find_spec hexists, ?_⟩
  intro j hj hn
  obtain ⟨k, rfl⟩ : ∃ k, j = k + 1 := ⟨j - 1, by omega⟩
  exact not_le.mp (Nat.find_min hexists (by omega))

/-- With such a cap some run of failures sleeps for a delay that is not positive. -/
theorem exists_not_follows (hmax : 2 ^ 62 ≤ (newBackoff cfg.initialBackoff cfg.maxBackoff).max) :
    ∃ acts w, run step (init cfg) acts = some w ∧
      ¬ Follows (newBackoff cfg.initialBackoff cfg.maxBackoff) w.trace := by
  obtain ⟨hpos, hle⟩ := newBackoff_ordered cfg.initialBackoff cfg.maxBackoff
  have hrange := newBackoff_max_lt cfg
  obtain ⟨n, hlarge, hbelow⟩ := exists_first_large hpos hmax
  obtain ⟨acts, w, hrun, hfailing, hcurrent⟩ := exists_failing cfg hbelow
  obtain ⟨w₁, hround₁, hfailing₁, hbackoff₁, -⟩ := hfailing.round
  obtain ⟨w₂, hround₂, -, -, pre, hcount, htrace⟩ := hfailing₁.round
  refine ⟨acts ++ (failingRound ++ failingRound), w₂, ?_, ?_⟩
  · rw [run_append, hrun, Option.bind_some, run_append, hround₁]
    exact hround₂
  · intro hfollows
    have hneg : w₁.backoff.current < 0 := by
      rw [hbackoff₁]
      have hmaxw := hfailing.max
      refine next_current_neg 0 ?_ ?_ ?_
      · rw [hcurrent]
        exact hlarge
      · rw [hcurrent, hmaxw]
        exact min_le_right _ _
      · rw [hmaxw]
        exact hrange
    have hdelay := next_delay_nonpos hneg
    obtain ⟨-, hfloor, -⟩ := hfollows.delays pre _ [] htrace
    -- the promised delay is still at least 2^62
    have hnext : 2 ^ 62 ≤ scheduled (newBackoff cfg.initialBackoff cfg.maxBackoff) (n + 1 + 1) := by
      rw [scheduled_succ (by omega) (by omega)]
      omega
    have hone : (1 : ℤ) ≤
        ⌊(3 / 4 : ℚ) * scheduled (newBackoff cfg.initialBackoff cfg.maxBackoff)
          (failures pre)⌋ := by
      rw [hcount, Int.le_floor]
      have hcast : ((2 : ℚ) ^ 62) ≤
          scheduled (newBackoff cfg.initialBackoff cfg.maxBackoff) (n + 1 + 1) := by
        exact_mod_cast hnext
      linarith
    omega

/-- The worker keeps its schedule exactly if both settings are below 2^62 nanoseconds. -/
theorem runWorker_schedule_iff :
    (∀ acts w, run step (init cfg) acts = some w →
      Follows (newBackoff cfg.initialBackoff cfg.maxBackoff) w.trace) ↔
    cfg.initialBackoff < 2 ^ 62 ∧ cfg.maxBackoff < 2 ^ 62 := by
  rw [← newBackoff_max_lt_iff]
  constructor
  · intro h
    by_contra hlarge
    obtain ⟨acts, w, hrun, hnot⟩ := exists_not_follows cfg (not_lt.mp hlarge)
    exact hnot (h acts w hrun)
  · intro hfits acts w hrun
    obtain ⟨hpos, hle⟩ := newBackoff_ordered cfg.initialBackoff cfg.maxBackoff
    exact (inv_run cfg ⟨hpos, hle, hfits⟩ hrun).follows

def largestConfig : WorkerConfig :=
  { initialBackoff := 2 ^ 62, maxBackoff := 2 ^ 62
    initial_range := by decide, max_range := by decide }

/-- After two failures with the largest settings the worker sleeps for a negative time. -/
theorem runWorker_sleeps_negative :
    ∃ acts w, run step (init largestConfig) acts = some w ∧
      w.trace = [.started, .ended .error, .slept (3 * 2 ^ 60),
        .started, .ended .panic, .slept (-3 * 2 ^ 61)] ∧
      ¬ Follows (newBackoff largestConfig.initialBackoff largestConfig.maxBackoff) w.trace := by
  obtain ⟨w, hrun, htrace⟩ := exists_run_of_check step
    (fun w => w.trace = [.started, .ended .error, .slept (3 * 2 ^ 60),
      .started, .ended .panic, .slept (-3 * 2 ^ 61)]) (init largestConfig)
    [.enter, .finish .error, .settle 0, .wake, .enter, .finish .panic, .settle 0]
    (by decide +kernel)
  refine ⟨_, w, hrun, htrace, ?_⟩
  intro hfollows
  rw [htrace] at hfollows
  have hdelay := (hfollows.delays [.started, .ended .error, .slept (3 * 2 ^ 60),
    .started, .ended .panic] (-3 * 2 ^ 61) [] rfl).2.1
  revert hdelay
  decide +kernel

end IronGolem.WorkerBackoff
