import IronGolem.ChannelSafety

/-!
The supervisor's restarts: how often it tries, how long it waits before each try, and what it does
with a child that could not be started. The counter of attempts is one ahead of the respawns from
the moment a crash is counted until the next child is spawned.
-/
namespace IronGolem.RestartBudget

open RuntimeClient ClientSteps ClientControl PendingLedger ChannelSafety TransitionRuns List

def uncounted : SupPc → Bool
  | .launch | .selecting | .killing _ | .joiningWriter | .joiningReader | .failing _
  | .delivering _ | .counting | .settingRunning => true
  | _ => false

def counted : SupPc → Bool
  | .settingDead | .settingRestarting | .backingOff | .spawning => true
  | _ => false

/-- How the supervisor's variables and what it has done belong together. -/
structure Counted (sup : Supervisor) : Prop where
  slept : sup.delays.length = sup.respawns.length + if sup.pc = .spawning then 1 else 0
  before : uncounted sup.pc = true → sup.attempts = sup.respawns.length
  after : counted sup.pc = true → sup.attempts = sup.respawns.length + 1
  handle : sup.cmd = false → sup.pc = .launch
  failed : sup.respawns.getLast? = some false → sup.cmd = false

variable {sup : Supervisor}

theorem Counted.cmd_of_ne_launch (h : Counted sup) (hpc : sup.pc ≠ .launch) : sup.cmd = true := by
  by_contra hcmd
  exact hpc (h.handle (Bool.not_eq_true _ ▸ hcmd))

theorem Counted.move (h : Counted sup) (pc : SupPc)
    (hcmd : sup.cmd = true) (hfrom : sup.pc ≠ .spawning) (hto : pc ≠ .spawning)
    (hbefore : uncounted pc = true → uncounted sup.pc = true)
    (hafter : counted pc = true → counted sup.pc = true) : Counted { sup with pc := pc } where
  slept := by simpa [hfrom, hto] using h.slept
  before hpc := h.before (hbefore hpc)
  after hpc := h.after (hafter hpc)
  handle hfalse := by
    rw [hcmd] at hfalse
    cases hfalse
  failed := h.failed

variable {cfg : Config} {s t : Sys} {a : SupAct}

theorem supTo_counted (hs : Counted s.sup) (h : SupTo cfg s a t) : Counted t.sup := by
  have hmove : ∀ pc, s.sup.pc ≠ .launch → s.sup.pc ≠ .spawning → pc ≠ .spawning →
      (uncounted pc = true → uncounted s.sup.pc = true) →
      (counted pc = true → counted s.sup.pc = true) → Counted { s.sup with pc := pc } :=
    fun pc hlaunch => hs.move pc (hs.cmd_of_ne_launch hlaunch)
  cases h with
  | launch hpc hcmd =>
    exact hs.move .selecting hcmd (by simp [hpc]) (by simp) (by simp [hpc, uncounted])
      (by simp [counted])
  | launchNil => exact hs
  | spawn hpc | spawnFails hpc =>
    have hslept : s.sup.delays.length = s.sup.respawns.length + 1 := by
      simpa [hpc] using hs.slept
    have hafter : s.sup.attempts = s.sup.respawns.length + 1 := hs.after (by rw [hpc]; rfl)
    constructor <;> simp [hslept, hafter, counted]
  | timer hpc =>
    have hslept : s.sup.delays.length = s.sup.respawns.length := by simpa [hpc] using hs.slept
    refine ⟨by simp [hslept], by simp [uncounted], ?_, ?_, hs.failed⟩
    · intro _
      exact hs.after (by rw [hpc]; rfl)
    · intro hfalse
      rw [hs.handle hfalse] at hpc
      cases hpc
  | countLast hpc | count hpc =>
    have hbefore : s.sup.attempts = s.sup.respawns.length := hs.before (by rw [hpc]; rfl)
    have hslept : s.sup.delays.length = s.sup.respawns.length := by simpa [hpc] using hs.slept
    have hcmd := hs.cmd_of_ne_launch (by simp [hpc])
    exact ⟨hslept, by simp [uncounted], fun _ => by simp [hbefore], by simp [hcmd], hs.failed⟩
  | childExited hpc | ctxDone hpc | stopped hpc | reaped why hpc | joinWriter hpc
  | joinReader hpc | swap why order hpc | crashDelivered hpc | delivered why hwhy hpc
  | setDead hpc | setRestarting hpc | backoffStop hpc | backoffCtx hpc | setClosed hpc
  | setRunning hpc =>
    apply hmove <;> simp [hpc, uncounted, counted]

theorem run_counted (cfg : Config) (acts : List Act)
    (h : run (step cfg) init acts = some s) : Counted s.sup := by
  refine invariant (step cfg) (fun s => Counted s.sup) ?_ ?_ h
  · exact ⟨rfl, fun _ => rfl, by simp [init, counted], by simp [init], by simp [init]⟩
  · intro s a t hs hstep
    rcases step_sup_or_later cfg hstep with ⟨b, -, hsup⟩ | ⟨-, hlater⟩
    · exact supTo_counted hs hsup
    · rw [hlater.sup]
      exact hs

def retrying : SupPc → Bool
  | .settingRestarting | .backingOff | .spawning => true
  | _ => false

/-- Started goroutines have a child; respawns follow doubling backoffs and are retried until the
budget is used up. -/
structure Documented (cfg : Config) (s : Sys) : Prop where
  handle : s.sup.pc = .launch → s.sup.cmd = true
  noNil : s.panicked ≠ some .nilHandle
  retried : s.sup.respawns.getLast? = some false →
    retrying s.sup.pc = true ∨ Stopping s ∨ cfg.restartBudget ≤ s.sup.respawns.length
  preceded : s.sup.respawns.length ≤ s.sup.delays.length
  delays : s.sup.delays = (List.range s.sup.delays.length).map fun i => cfg.backoffUnit * 2 ^ i
  dead : s.sup.pc = .settingDead ∨ s.state = .dead → cfg.restartBudget ≤ s.sup.respawns.length

def nextDelay (cfg : Config) (attempts : ℕ) : ℤ := cfg.backoffUnit * 2 ^ (attempts - 1)

/-- The spawn succeeds, the budget lasts, and the backoff is a 64-bit duration. -/
def WithinLimits (cfg : Config) (s : Sys) : Act → Prop
  | .sup (.spawn ok) => ok = true
  | .sup .count =>
    (s.sup.attempts : ℤ) + 1 < cfg.restartBudget ∨ cfg.restartBudget ≤ (s.sup.attempts : ℤ)
  | .sup .timer =>
    -2 ^ 63 ≤ nextDelay cfg s.sup.attempts ∧ nextDelay cfg s.sup.attempts < 2 ^ 63
  | _ => True

instance (cfg : Config) (s : Sys) (a : Act) : Decidable (WithinLimits cfg s a) := by
  unfold WithinLimits
  split <;> infer_instance

theorem backoff_exact_iff (cfg : Config) (attempts : ℕ) :
    cfg.backoff attempts = nextDelay cfg attempts ↔
      -2 ^ 63 ≤ nextDelay cfg attempts ∧ nextDelay cfg attempts < 2 ^ 63 := by
  change (nextDelay cfg attempts).bmod (2 ^ 64) = _ ↔ _
  constructor
  · have hlow := Int.le_bmod (x := nextDelay cfg attempts) (m := 2 ^ 64) (by decide)
    have hhigh := Int.bmod_lt (x := nextDelay cfg attempts) (m := 2 ^ 64) (by decide)
    omega
  · intro h
    apply Int.bmod_eq_of_le <;> omega

theorem documented_of_counted (hc : Counted s.sup)
    (handle : s.sup.pc = .launch → s.sup.cmd = true) (noNil : s.panicked ≠ some .nilHandle)
    (delays : s.sup.delays =
      (List.range s.sup.delays.length).map fun i => cfg.backoffUnit * 2 ^ i)
    (dead : s.sup.pc = .settingDead ∨ s.state = .dead →
      cfg.restartBudget ≤ s.sup.respawns.length) : Documented cfg s where
  handle := handle
  noNil := noNil
  retried hlast := by
    have hcmd := hc.failed hlast
    rw [handle (hc.handle hcmd)] at hcmd
    cases hcmd
  preceded := by
    have hslept := hc.slept
    omega
  delays := delays
  dead := dead

theorem supTo_handle (hc : Counted s.sup)
    (hs : Documented cfg s) (hguard : WithinLimits cfg s (.sup a)) (h : SupTo cfg s a t)
    (ht : t.sup.pc = .launch) : t.sup.cmd = true := by
  cases h with
  | launchNil hpc => exact hs.handle hpc
  | spawnFails => exact hguard
  | setRunning hpc => exact hc.cmd_of_ne_launch (by simp [hpc])
  | _ => cases ht

theorem supTo_delays (ha : a ≠ .timer) (h : SupTo cfg s a t) : t.sup.delays = s.sup.delays := by
  cases h with
  | timer => exact absurd rfl ha
  | _ => rfl

theorem timer_delays_iff (hc : Counted s.sup) (hs : Documented cfg s) (h : SupTo cfg s .timer t) :
    (t.sup.delays = (List.range t.sup.delays.length).map fun i => cfg.backoffUnit * 2 ^ i) ↔
      WithinLimits cfg s (.sup .timer) := by
  cases h with
  | timer hpc =>
    have hslept : s.sup.delays.length = s.sup.respawns.length := by simpa [hpc] using hc.slept
    have hafter : s.sup.attempts = s.sup.respawns.length + 1 := hc.after (by rw [hpc]; rfl)
    have hattempts : s.sup.attempts - 1 = s.sup.delays.length := by omega
    change _ ↔ -2 ^ 63 ≤ nextDelay cfg s.sup.attempts ∧ nextDelay cfg s.sup.attempts < 2 ^ 63
    rw [← backoff_exact_iff, nextDelay, hattempts]
    simp only [length_append, length_singleton, range_succ, map_append, map_singleton]
    rw [← hs.delays, append_cancel_left_eq, singleton_inj]

theorem count_dead_iff (hc : Counted s.sup) (hs : Documented cfg s) (h : SupTo cfg s .count t) :
    (t.sup.pc = .settingDead ∨ t.state = .dead → cfg.restartBudget ≤ t.sup.respawns.length) ↔
      WithinLimits cfg s (.sup .count) := by
  unfold WithinLimits
  cases h with
  | countLast hpc hbudget =>
    have hbefore : s.sup.attempts = s.sup.respawns.length := hc.before (by rw [hpc]; rfl)
    simp only [true_or, forall_const]
    omega
  | count hpc hbudget =>
    constructor
    · omega
    · rintro - (hpc | hstate)
      · cases hpc
      · exact hs.dead (.inr hstate)

theorem supTo_dead (ha : a ≠ .count)
    (hs : Documented cfg s) (h : SupTo cfg s a t) (ht : t.sup.pc = .settingDead ∨ t.state = .dead) :
    cfg.restartBudget ≤ t.sup.respawns.length := by
  cases h with
  | countLast | count => exact absurd rfl ha
  | launchNil => exact hs.dead ht
  | spawn | spawnFails =>
    have hold : cfg.restartBudget ≤ s.sup.respawns.length := hs.dead (ht.imp_left (by cases ·))
    simp only [length_append, length_singleton]
    omega
  | setDead hpc => exact hs.dead (.inl hpc)
  | setRestarting | setRunning | setClosed => rcases ht with ht | ht <;> cases ht
  | _ => exact hs.dead (ht.imp_left (by cases ·))

theorem documented_of_withinLimits {a : Act} (hc : Counted s.sup)
    (ho : Owned cfg (ledger s)) (hs : Documented cfg s) (hguard : WithinLimits cfg s a)
    (h : step cfg s a = some t) : Documented cfg t := by
  have hnil : t.panicked ≠ some .nilHandle := by
    rcases step_panicked ho h with hp | ⟨-, hpc, hcmd⟩ | ⟨hp, -⟩
    · simp [hp]
    · rw [hs.handle hpc] at hcmd
      cases hcmd
    · simp [hp]
  rcases step_sup_or_later cfg h with ⟨b, rfl, hsup⟩ | ⟨-, hlater⟩
  · apply documented_of_counted (supTo_counted hc hsup) (supTo_handle hc hs hguard hsup) hnil
    · by_cases htimer : b = .timer
      · subst htimer
        exact (timer_delays_iff hc hs hsup).mpr hguard
      · rw [supTo_delays htimer hsup]
        exact hs.delays
    · by_cases hcount : b = .count
      · subst hcount
        exact (count_dead_iff hc hs hsup).mpr hguard
      · exact supTo_dead hcount hs hsup
  · have hsup := hlater.sup
    apply documented_of_counted (hsup ▸ hc) (hsup ▸ hs.handle) hnil (hsup ▸ hs.delays)
    rw [hsup, hlater.state]
    exact hs.dead

theorem withinLimits_of_documented {a : Act} (hc : Counted s.sup)
    (hs : Documented cfg s) (ht : Documented cfg t) (h : step cfg s a = some t) :
    WithinLimits cfg s a := by
  rcases step_sup_or_later cfg h with ⟨b, rfl, hsup⟩ | ⟨ha, -⟩
  · cases b with
    | count => exact (count_dead_iff hc hs hsup).mp ht.dead
    | timer => exact (timer_delays_iff hc hs hsup).mp ht.delays
    | spawn ok =>
      -- a failed spawn stands at the next launch without a handle
      cases hsup with
      | spawn => rfl
      | spawnFails => exact ht.handle rfl
    | _ => trivial
  · cases a with
    | sup b => exact absurd rfl (ha b)
    | _ => trivial

theorem documented_init (cfg : Config) : Documented cfg init := by
  apply documented_of_counted (run_counted cfg [] (s := init) rfl)
  · intro _
    rfl
  · simp [init]
  · rfl
  · rintro (hpc | hstate)
    · cases hpc
    · cases hstate

/-- Restarts are as documented exactly when respawns succeed, the budget lasts and nothing wraps. -/
theorem documented_restarts_iff (cfg : Config) (acts : List Act) (s : Sys)
    (h : run (step cfg) init acts = some s) :
    Along (step cfg) (Documented cfg) init acts ↔
      Meets (step cfg) (WithinLimits cfg) init acts := by
  refine along_iff_meets (step cfg) (WithinLimits cfg) (Documented cfg)
    (fun s => Counted s.sup ∧ Owned cfg (ledger s)) (documented_init cfg) ?_ ?_ s h
  · exact fun acts s hrun => ⟨run_counted cfg acts hrun, run_owned cfg acts s hrun⟩
  · intro s a t hI hs hstep
    exact ⟨fun ht => withinLimits_of_documented hI.1 hs ht hstep,
      fun hguard => documented_of_withinLimits hI.1 hI.2 hs hguard hstep⟩

def lostPing (c : ℕ) : List Act :=
  List.flatten [callRequest c .ping, crash (.request c) [] [c],
    [.deliver .supervisor (.send c []), .deliver .supervisor (.closeDone c [])]]

def oneRestart : List Act := List.flatten [[.sup .launch], lostPing 0, restart]

def fiveCrashes : List Act :=
  List.flatten [[.sup .launch], (List.range 4).flatMap (fun c => lostPing c ++ restart),
    lostPing 4, [.sup (.delivered .crash), .sup .count, .sup .setDead]]

def failedRespawn : List Act :=
  List.flatten [[.sup .launch], lostPing 0,
    [.sup (.delivered .crash), .sup .count, .sup .setRestarting, .sup .timer,
     .sup (.spawn false), .sup .launch]]

theorem one_restart_documented :
    Along (step sampleConfig) (Documented sampleConfig) init oneRestart := by
  obtain ⟨s, hs⟩ : ∃ s, run (step sampleConfig) init oneRestart = some s :=
    Option.isSome_iff_exists.mp (by decide)
  exact (documented_restarts_iff sampleConfig oneRestart s hs).mpr
    (meets_of_checkMeets _ _ _ _ (by decide))

/-- A failed respawn ends in the nil handle; a budget of five gives four respawns. -/
theorem failed_respawn_panics_and_dead_after_four :
    (run (step sampleConfig) init failedRespawn).map (fun s => s.panicked) =
        some (some .nilHandle) ∧
    sampleConfig.restartBudget = 5 ∧
    (run (step sampleConfig) init fiveCrashes).map
      (fun s => (s.state, s.sup.respawns, s.sup.delays)) =
        some (.dead, [true, true, true, true], [1000000000, 2000000000, 4000000000,
          8000000000]) := by
  decide +kernel

end IronGolem.RestartBudget
