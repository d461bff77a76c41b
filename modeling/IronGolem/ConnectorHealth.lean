import Mathlib.Tactic.Ring
import IronGolem.TransitionRuns

/-!
The health table of the connector manager, and the heartbeats that move it. Connecting, heartbeats,
inbound messages, disconnecting and the periodic evaluation are steps of one system with a clock
that does not go back.
-/
namespace IronGolem.ConnectorHealth

open TransitionRuns Option

inductive Health
  | healthy
  | degraded
  | recovering
  | disconnected
  deriving DecidableEq, Repr

structure ConnectorState where
  id : String
  health : Health
  connectedAt : ℤ
  lastHeartbeat : ℤ
  missedBeats : ℕ
  message : String
  deriving DecidableEq, Repr

abbrev States := String → Option ConnectorState

def second : ℤ := 1000000000

def heartbeatTimeout : ℤ := 30 * second

def degradedTimeout : ℤ := 120 * second

variable (id : String)

def connectedState (now : ℤ) : Option ConnectorState → ConnectorState
  | some existing => { existing with
      health := .healthy
      lastHeartbeat := now
      missedBeats := 0
      message := "reconnected" }
  | none => ⟨id, .healthy, now, now, 0, ""⟩

variable (states : States) (id : String) (now : ℤ)

def connect : States :=
  Function.update states id (some (connectedState id now (states id)))

variable (st : ConnectorState)

def ConnectorState.given (message : String) : ConnectorState :=
  { st with health := .disconnected, message := message }

def disconnect : Except String States :=
  match states id with
  | none => .error "connector not found"
  | some st => .ok (Function.update states id (some (st.given "gracefully disconnected")))

def disconnectAll : States :=
  fun id => (states id).map (fun st => st.given "service shutdown")

variable (now : ℤ)

def ConnectorState.beaten : ConnectorState :=
  if st.health = .degraded ∨ st.health = .recovering then
    { st with
      health := .recovering
      lastHeartbeat := now
      missedBeats := 0
      message := "recovering after missed heartbeats" }
  else { st with health := .healthy, lastHeartbeat := now, missedBeats := 0, message := "" }

def recordHeartbeat : Except String States :=
  match states id with
  | none => .error "connector not found"
  | some st =>
      if st.health = .disconnected then .error "connector is disconnected; reconnect first"
      else .ok (Function.update states id (some (st.beaten now)))

def ConnectorState.promoted (since : ℤ) : ConnectorState :=
  if st.health = .recovering ∧ st.missedBeats = 0 ∧ since - st.lastHeartbeat < heartbeatTimeout then
    { st with health := .healthy, message := "" }
  else st

def ConnectorState.missed : ConnectorState :=
  if st.health = .healthy then
    { st with
      health := .degraded
      missedBeats := st.missedBeats + 1
      message := "missed heartbeat" }
  else { st with missedBeats := st.missedBeats + 1 }

def ConnectorState.evaluated (since : ℤ) : ConnectorState :=
  if st.health = .disconnected then st
  else if degradedTimeout < now - st.lastHeartbeat then
    st.given "disconnected due to prolonged heartbeat absence"
  else if heartbeatTimeout < now - st.lastHeartbeat then st.missed
  else st.promoted since

def evaluateHealth (since : String → ℤ) : States :=
  fun id => (states id).map (fun st => st.evaluated now (since id))

structure Sys where
  clock : ℤ
  states : States
  /-- The connectors with a registered pump. -/
  pumps : String → Bool

def init : Sys := ⟨0, fun _ => none, fun _ => false⟩

/-- A pump records a heartbeat before it handles a message; an evaluation takes some time. -/
inductive Act
  | register (id : String) (now : ℤ)
  | connect (id : String) (now : ℤ)
  | heartbeat (id : String) (now : ℤ)
  | message (id : String) (now : ℤ)
  | disconnect (id : String) (now : ℤ)
  | disconnectAll (now : ℤ)
  | evaluate (now : ℤ) (span : ℕ) (lag : String → ℕ)

def Act.time : Act → ℤ
  | register _ now => now
  | connect _ now => now
  | heartbeat _ now => now
  | message _ now => now
  | disconnect _ now => now
  | disconnectAll now => now
  | evaluate now _ _ => now

def Act.timeAt : Act → ℤ
  | evaluate now span lag => now + min (lag id) span
  | a => a.time

def beat : States :=
  match recordHeartbeat states id now with
  | .ok states' => states'
  | .error _ => states

def step (s : Sys) (a : Act) : Option Sys :=
  if a.time < s.clock then none
  else match a with
    | .register id now =>
        if s.pumps id then none
        else some ⟨now, connect s.states id now, Function.update s.pumps id true⟩
    | .connect id now => some { s with clock := now, states := connect s.states id now }
    | .heartbeat id now => some { s with clock := now, states := beat s.states id now }
    | .message id now =>
        if s.pumps id then some { s with clock := now, states := beat s.states id now } else none
    | .disconnect id now =>
        match disconnect s.states id with
        | .error _ => some { s with clock := now }
        | .ok states' => some ⟨now, states', Function.update s.pumps id false⟩
    | .disconnectAll now => some ⟨now, disconnectAll s.states, fun _ => false⟩
    | .evaluate now span lag =>
        some { s with
          clock := now + span
          states := evaluateHealth s.states now (fun id => now + min (lag id) span) }

variable (states : States) (id id' : String) (st : ConnectorState)

theorem update_eq_some_iff (st' : ConnectorState) :
    Function.update states id (some st) id' = some st' ↔
      (id' = id ∧ st = st') ∨ (id' ≠ id ∧ states id' = some st') := by
  by_cases h : id' = id
  · subst h
    simp
  · simp [h]

variable (now : ℤ)

theorem beat_cases :
    ((∀ st, states id = some st → st.health = .disconnected) ∧ beat states id now = states) ∨
      ∃ st, states id = some st ∧
        beat states id now = Function.update states id (some (st.beaten now)) := by
  unfold beat recordHeartbeat
  cases hst : states id with
  | none => exact .inl ⟨nofun, rfl⟩
  | some st =>
    by_cases hgiven : st.health = .disconnected
    · refine .inl ⟨?_, by simp [hgiven]⟩
      intro st' hst'
      rw [← some.inj hst', hgiven]
    · exact .inr ⟨st, rfl, by simp [hgiven]⟩

theorem beaten_health (h : st.health = .recovering) : (st.beaten now).health = .recovering := by
  unfold ConnectorState.beaten
  rw [if_pos (.inr h)]

/-- The possible steps, each with the state it leads to. -/
inductive StepTo (s : Sys) : Act → Sys → Prop
  | register (id : String) (now : ℤ) (hpump : s.pumps id = false) :
      StepTo s (.register id now) ⟨now, connect s.states id now, Function.update s.pumps id true⟩
  | connect (id : String) (now : ℤ) :
      StepTo s (.connect id now) { s with clock := now, states := connect s.states id now }
  | heartbeat (id : String) (now : ℤ) :
      StepTo s (.heartbeat id now) { s with clock := now, states := beat s.states id now }
  | message (id : String) (now : ℤ) (hpump : s.pumps id = true) :
      StepTo s (.message id now) { s with clock := now, states := beat s.states id now }
  | unknown (id : String) (now : ℤ) : StepTo s (.disconnect id now) { s with clock := now }
  | disconnect (id : String) (now : ℤ) (st : ConnectorState) (hst : s.states id = some st) :
      StepTo s (.disconnect id now)
        ⟨now, Function.update s.states id (some (st.given "gracefully disconnected")),
          Function.update s.pumps id false⟩
  | disconnectAll (now : ℤ) :
      StepTo s (.disconnectAll now) ⟨now, disconnectAll s.states, fun _ => false⟩
  | evaluate (now : ℤ) (span : ℕ) (lag : String → ℕ) :
      StepTo s (.evaluate now span lag)
        { s with
          clock := now + span
          states := evaluateHealth s.states now (fun id => now + min (lag id) span) }

variable {s u : Sys} {a : Act}

theorem step_to (h : step s a = some u) : StepTo s a u := by
  unfold step at h
  split at h
  · cases h
  · cases a with
    | register id now =>
      simp only at h
      split at h
      · cases h
      · rename_i hpump
        cases h
        exact .register id now (Bool.eq_false_iff.mpr hpump)
    | connect id now =>
      cases h
      exact .connect id now
    | heartbeat id now =>
      cases h
      exact .heartbeat id now
    | message id now =>
      simp only at h
      split at h
      · rename_i hpump
        cases h
        exact .message id now hpump
      · cases h
    | disconnect id now =>
      simp only [ConnectorHealth.disconnect] at h
      cases hst : s.states id with
      | none =>
        simp only [hst] at h
        cases h
        exact .unknown id now
      | some st =>
        simp only [hst] at h
        cases h
        exact .disconnect id now st hst
    | disconnectAll now =>
      cases h
      exact .disconnectAll now
    | evaluate now span lag =>
      cases h
      exact .evaluate now span lag

/-- Silent connectors are degraded or given up; a recovering one needs a fresh heartbeat. -/
structure Reported (s : Sys) (a : Act) (u : Sys) : Prop where
  silent : ∀ now span lag, a = .evaluate now span lag → ∀ id st, u.states id = some st →
    heartbeatTimeout < now - st.lastHeartbeat → now - st.lastHeartbeat ≤ degradedTimeout →
    st.health = .degraded ∨ st.health = .disconnected
  lost : ∀ now span lag, a = .evaluate now span lag → ∀ id st, u.states id = some st →
    degradedTimeout < now - st.lastHeartbeat → st.health = .disconnected
  promoted : ∀ id st st', s.states id = some st → st.health = .recovering →
    u.states id = some st' → st'.health = .healthy →
    a.timeAt id - st'.lastHeartbeat < heartbeatTimeout

/-- No recovering connector is evaluated after thirty seconds to two minutes of silence. -/
def RecoveringBeats (s : Sys) (a : Act) : Prop :=
  ∀ now span lag, a = .evaluate now span lag → ∀ id st, s.states id = some st →
    st.health = .recovering → heartbeatTimeout < now - st.lastHeartbeat →
    degradedTimeout < now - st.lastHeartbeat

variable (since : ℤ)

theorem missed_health :
    st.missed.health = if st.health = .healthy then .degraded else st.health := by
  unfold ConnectorState.missed
  split <;> rfl

theorem evaluated_lastHeartbeat : (st.evaluated now since).lastHeartbeat = st.lastHeartbeat := by
  unfold ConnectorState.evaluated
  split
  · rfl
  · split
    · rfl
    · split
      · unfold ConnectorState.missed
        split <;> rfl
      · unfold ConnectorState.promoted
        split <;> rfl

theorem evaluated_of_silent (hsilent : heartbeatTimeout < now - st.lastHeartbeat)
    (hkept : now - st.lastHeartbeat ≤ degradedTimeout) :
    (st.evaluated now since).health =
      if st.health = .healthy then .degraded else st.health := by
  unfold ConnectorState.evaluated
  split
  · rename_i hgiven
    rw [hgiven]
    rfl
  · rw [if_neg (not_lt.mpr hkept), missed_health]

theorem evaluated_promoted {since : ℤ} (hst : st.health = .recovering)
    (h : (st.evaluated now since).health = .healthy) :
    since - st.lastHeartbeat < heartbeatTimeout := by
  unfold ConnectorState.evaluated at h
  rw [if_neg (by rw [hst]; nofun)] at h
  split at h
  · cases h
  · split at h
    · rw [missed_health, hst] at h
      cases h
    · unfold ConnectorState.promoted at h
      split at h
      · rename_i hfresh
        exact hfresh.2.2
      · rw [hst] at h
        cases h

/-- Only an evaluation and a new connection make a recovering connector healthy. -/
theorem promoted_fresh (h : step s a = some u) (id : String)
    (st st' : ConnectorState) (hst : s.states id = some st) (hrec : st.health = .recovering)
    (hst' : u.states id = some st') (hhealthy : st'.health = .healthy) :
    a.timeAt id - st'.lastHeartbeat < heartbeatTimeout := by
  have hconnect : ∀ id' now, ConnectorHealth.connect s.states id' now id = some st' →
      now - st'.lastHeartbeat < heartbeatTimeout := by
    intro id' now hnew
    rcases (update_eq_some_iff _ _ _ _ _).mp hnew with ⟨hid, rfl⟩ | ⟨-, hold⟩
    · have hbeat : (connectedState id' now (s.states id')).lastHeartbeat = now := by
        cases s.states id' <;> rfl
      rw [hbeat, sub_self]
      decide
    · rw [hst, some.injEq] at hold
      rw [← hold, hrec] at hhealthy
      cases hhealthy
  have hbeat : ∀ id' now, beat s.states id' now id = some st' → False := by
    intro id' now hnew
    rcases beat_cases s.states id' now with ⟨-, hsame⟩ | ⟨st₀, hst₀, hbeaten⟩
    · rw [hsame, hst, some.injEq] at hnew
      rw [← hnew, hrec] at hhealthy
      cases hhealthy
    · rw [hbeaten] at hnew
      rcases (update_eq_some_iff _ _ _ _ _).mp hnew with ⟨hid, rfl⟩ | ⟨-, hold⟩
      · rw [← hid, hst, some.injEq] at hst₀
        rw [beaten_health st₀ now (hst₀ ▸ hrec)] at hhealthy
        cases hhealthy
      · rw [hst, some.injEq] at hold
        rw [← hold, hrec] at hhealthy
        cases hhealthy
  cases step_to h with
  | register id' now _ | connect id' now => exact hconnect id' now hst'
  | heartbeat id' now | message id' now _ => exact (hbeat id' now hst').elim
  | unknown id' now =>
    rw [hst, some.injEq] at hst'
    rw [← hst', hrec] at hhealthy
    cases hhealthy
  | disconnect id' now st₀ hst₀ =>
    rcases (update_eq_some_iff _ _ _ _ _).mp hst' with ⟨-, rfl⟩ | ⟨-, hold⟩
    · cases hhealthy
    · rw [hst, some.injEq] at hold
      rw [← hold, hrec] at hhealthy
      cases hhealthy
  | disconnectAll now =>
    simp only [ConnectorHealth.disconnectAll, hst, map_some, some.injEq] at hst'
    rw [← hst'] at hhealthy
    cases hhealthy
  | evaluate now span lag =>
    simp only [evaluateHealth, hst, map_some, some.injEq] at hst'
    rw [← hst', evaluated_lastHeartbeat]
    rw [← hst'] at hhealthy
    exact evaluated_promoted st now hrec hhealthy

/-- A step leaves the right report unless it evaluates a recovering connector fallen silent. -/
theorem reported_iff (h : step s a = some u) : Reported s a u ↔ RecoveringBeats s a := by
  constructor
  · intro hrep now span lag ha id st hst hrec hsilent
    by_contra hkept
    subst ha
    cases step_to h with
    | evaluate =>
      have hnew := hrep.silent now span lag rfl id (st.evaluated now _)
        (by simp only [evaluateHealth, hst, map_some]; rfl)
        (by rw [evaluated_lastHeartbeat]; exact hsilent)
        (by rw [evaluated_lastHeartbeat]; exact not_lt.mp hkept)
      rw [evaluated_of_silent st now _ hsilent (not_lt.mp hkept), hrec] at hnew
      rcases hnew with hnew | hnew <;> cases hnew
  · intro hbeats
    refine ⟨?_, ?_, promoted_fresh (s := s) (u := u) (a := a) h⟩
    · intro now span lag ha id st' hst' hsilent hkept
      subst ha
      cases step_to h with
      | evaluate =>
        simp only [evaluateHealth, map_eq_some_iff] at hst'
        obtain ⟨st, hst, rfl⟩ := hst'
        rw [evaluated_lastHeartbeat] at hsilent hkept
        have hnot : st.health ≠ .recovering := by
          intro hrec
          exact absurd (hbeats now span lag rfl id st hst hrec hsilent) (not_lt.mpr hkept)
        rw [evaluated_of_silent st now _ hsilent hkept]
        cases hhealth : st.health with
        | recovering => exact absurd hhealth hnot
        | disconnected => exact .inr rfl
        | _ => exact .inl rfl
    · intro now span lag ha id st' hst' hlost
      subst ha
      cases step_to h with
      | evaluate =>
        simp only [evaluateHealth, map_eq_some_iff] at hst'
        obtain ⟨st, hst, rfl⟩ := hst'
        rw [evaluated_lastHeartbeat] at hlost
        unfold ConnectorState.evaluated
        split
        · assumption
        · rfl

def SilenceReported (acts : List Act) : Prop :=
  ∀ pre a post s u, acts = pre ++ a :: post → run step init pre = some s → step s a = some u →
    Reported s a u

/-- Silence is reported exactly if no evaluation meets a recovering connector silent in between. -/
theorem silence_reported_iff_recovering_beats (acts : List Act) (t : Sys)
    (hrun : run step init acts = some t) :
    SilenceReported acts ↔ Meets step RecoveringBeats init acts := by
  constructor
  · intro hrep pre a post s hacts hpre
    have hnext : ∃ u, step s a = some u := by
      rw [hacts, run_append, hpre, bind_some, run_cons] at hrun
      obtain ⟨u, hu, -⟩ := bind_eq_some_iff.mp hrun
      exact ⟨u, hu⟩
    obtain ⟨u, hu⟩ := hnext
    exact (reported_iff hu).mp (hrep pre a post s u hacts hpre hu)
  · intro hmeets pre a post s u hacts hpre hu
    exact (reported_iff hu).mpr (hmeets pre a post s hacts hpre)

/-- A connector that misses its first heartbeat is reported. -/
theorem first_missed_beat_reported :
    SilenceReported [.connect "slack" 0, .evaluate (31 * second) 0 (fun _ => 0)] := by
  refine (silence_reported_iff_recovering_beats _ _ rfl).mpr ?_
  intro pre a post s hacts hrun
  match pre, hacts with
  | [], hacts =>
    obtain ⟨rfl, -⟩ := List.cons.inj hacts
    intro now span lag ha
    cases ha
  | [_], hacts =>
    obtain ⟨rfl, -⟩ := List.cons.inj hacts
    cases hrun
    intro now span lag _ id st hst hrec
    rcases (update_eq_some_iff _ _ _ _ _).mp hst with ⟨-, rfl⟩ | ⟨-, hold⟩
    · cases hrec
    · cases hold
  | _ :: _ :: pre, hacts => simp at hacts

/-- A connector that falls silent before its promotion is left recovering. -/
theorem recovering_connector_falls_silent :
    ¬ SilenceReported
      [.connect "slack" 0, .evaluate (31 * second) 0 (fun _ => 0),
        .heartbeat "slack" (32 * second), .evaluate (63 * second) 0 (fun _ => 0)] := by
  intro h
  have hrep := h [.connect "slack" 0, .evaluate (31 * second) 0 (fun _ => 0),
    .heartbeat "slack" (32 * second)] _ [] _ _ rfl rfl rfl
  have hhealth := hrep.silent _ _ _ rfl "slack"
    ⟨"slack", .recovering, 0, 32 * second, 1, "recovering after missed heartbeats"⟩ rfl
    (by decide) (by decide)
  rcases hhealth with hhealth | hhealth <;> cases hhealth

def Act.takesDown : Act → Bool
  | disconnect _ _ => true
  | disconnectAll _ => true
  | _ => false

def Act.showsLife (id : String) : Act → Bool
  | register id' _ => id' = id
  | connect id' _ => id' = id
  | heartbeat id' _ => id' = id
  | message id' _ => id' = id
  | _ => false

/-- No action of the list comes more than two minutes after the last sign of life. -/
def Unbroken (id : String) : ℤ → List Act → Prop
  | _, [] => True
  | last, a :: more =>
      a.time - last ≤ degradedTimeout ∧ Unbroken id (if a.showsLife id then a.time else last) more

def NotGivenUp (states : States) (id : String) : Prop :=
  ∀ st, states id = some st → st.health ≠ .disconnected

/-- Not reported disconnected until it is silent for two minutes or taken down. -/
def StaysConnected (u : Sys) (id : String) (now : ℤ) : Prop :=
  ∀ more v, (∀ a ∈ more, a.takesDown = false) → Unbroken id now more →
    run step u more = some v → NotGivenUp v.states id

def AliveSince (states : States) (id : String) (last : ℤ) : Prop :=
  ∀ st, states id = some st → st.health ≠ .disconnected ∧ last ≤ st.lastHeartbeat

variable {last : ℤ}

theorem aliveSince_connect (h : AliveSince states id last) :
    AliveSince (connect states id' now) id (if id' = id then now else last) := by
  intro st hst
  rcases (update_eq_some_iff _ _ _ _ _).mp hst with ⟨hid, rfl⟩ | ⟨hid, hold⟩
  · rw [if_pos hid.symm]
    cases states id' with
    | _ => exact ⟨nofun, le_rfl⟩
  · rw [if_neg (Ne.symm hid)]
    exact h st hold

theorem beaten_alive :
    (st.beaten now).health ≠ .disconnected ∧ (st.beaten now).lastHeartbeat = now := by
  unfold ConnectorState.beaten
  split <;> exact ⟨nofun, rfl⟩

theorem aliveSince_beat (h : AliveSince states id last) :
    AliveSince (beat states id' now) id (if id' = id then now else last) := by
  intro st hst
  rcases beat_cases states id' now with ⟨hgiven, hsame⟩ | ⟨st₀, -, hbeaten⟩
  · rw [hsame] at hst
    have hid : id' ≠ id := by
      rintro rfl
      exact (h st hst).1 (hgiven st hst)
    rw [if_neg hid]
    exact h st hst
  · rw [hbeaten] at hst
    rcases (update_eq_some_iff _ _ _ _ _).mp hst with ⟨hid, rfl⟩ | ⟨hid, hold⟩
    · rw [if_pos hid.symm]
      exact ⟨(beaten_alive st₀ now).1, (beaten_alive st₀ now).2.ge⟩
    · rw [if_neg (Ne.symm hid)]
      exact h st hold

theorem evaluated_alive (hst : st.health ≠ .disconnected)
    (hkept : now - st.lastHeartbeat ≤ degradedTimeout) :
    (st.evaluated now since).health ≠ .disconnected := by
  unfold ConnectorState.evaluated
  rw [if_neg hst, if_neg (not_lt.mpr hkept)]
  split
  · rw [missed_health]
    split
    · nofun
    · exact hst
  · unfold ConnectorState.promoted
    split
    · nofun
    · exact hst

theorem aliveSince_evaluate (since : String → ℤ)
    (hkept : now - last ≤ degradedTimeout) (h : AliveSince states id last) :
    AliveSince (evaluateHealth states now since) id last := by
  intro st' hst'
  simp only [evaluateHealth, map_eq_some_iff] at hst'
  obtain ⟨st, hst, rfl⟩ := hst'
  obtain ⟨hgiven, hlast⟩ := h st hst
  rw [evaluated_lastHeartbeat]
  exact ⟨evaluated_alive st now _ hgiven (by omega), hlast⟩

variable {id}

theorem aliveSince_step (h : step s a = some u)
    (hdown : a.takesDown = false) (hkept : a.time - last ≤ degradedTimeout)
    (halive : AliveSince s.states id last) :
    AliveSince u.states id (if a.showsLife id then a.time else last) := by
  cases step_to h with
  | register id' now _ | connect id' now =>
    simpa [Act.showsLife, Act.time] using aliveSince_connect _ id id' now halive
  | heartbeat id' now | message id' now _ =>
    simpa [Act.showsLife, Act.time] using aliveSince_beat _ id id' now halive
  | evaluate now span lag => exact aliveSince_evaluate _ id now _ hkept halive
  | _ => cases hdown

theorem aliveSince_run {more : List Act} (s v : Sys) (last : ℤ)
    (hdown : ∀ a ∈ more, a.takesDown = false) (hunbroken : Unbroken id last more)
    (hrun : run step s more = some v) (halive : AliveSince s.states id last) :
    NotGivenUp v.states id := by
  induction more generalizing s last with
  | nil =>
    cases hrun
    exact fun st hst => (halive st hst).1
  | cons a more ih =>
    obtain ⟨hkept, hmore⟩ := hunbroken
    obtain ⟨u, hu, hrest⟩ := bind_eq_some_iff.mp hrun
    have halive' := aliveSince_step hu (hdown a List.mem_cons_self) hkept halive
    exact ih u _ (fun b hb => hdown b (List.mem_cons_of_mem a hb)) hmore hrest halive'

/-- A connector that receives a message stays connected exactly if it was not given up. -/
theorem staysConnected_iff_not_given_up (s u : Sys) (id : String) (now : ℤ)
    (hstep : step s (.message id now) = some u) :
    StaysConnected u id now ↔ NotGivenUp s.states id := by
  cases step_to hstep with
  | message _ _ hpump =>
    constructor
    · intro hstays st hst hgiven
      have hsame : beat s.states id now = s.states := by
        rcases beat_cases s.states id now with ⟨-, hsame⟩ | ⟨st₀, hst₀, -⟩
        · exact hsame
        · unfold beat recordHeartbeat
          rw [hst]
          simp [hgiven]
      refine hstays [] _ (by simp) trivial rfl st ?_ hgiven
      simp [hsame, hst]
    · intro hgiven more v hmore hunbroken hv
      refine aliveSince_run _ v now hmore hunbroken hv ?_
      intro st hst
      rcases beat_cases s.states id now with ⟨hdead, hsame⟩ | ⟨st₀, -, hbeaten⟩
      · simp only [hsame] at hst
        exact absurd (hdead st hst) (hgiven st hst)
      · simp only [hbeaten, Function.update_self, some.injEq] at hst
        rw [← hst]
        exact ⟨(beaten_alive st₀ now).1, (beaten_alive st₀ now).2.ge⟩

/-- A message a minute after the registration keeps the connector connected. -/
theorem message_after_a_minute_keeps_connected :
    ∃ s u, run step init [.register "telegram" 0] = some s ∧
      step s (.message "telegram" (60 * second)) = some u ∧
      StaysConnected u "telegram" (60 * second) := by
  have hrun : run step init [.register "telegram" 0] = some
      ⟨0, connect init.states "telegram" 0, Function.update init.pumps "telegram" true⟩ := rfl
  refine ⟨_, _, hrun, rfl, (staysConnected_iff_not_given_up
    ⟨0, connect init.states "telegram" 0, Function.update init.pumps "telegram" true⟩
    _ _ _ rfl).mpr ?_⟩
  intro st hst
  have hst' : some (connectedState "telegram" 0 none) = some st := hst
  rw [← some.inj hst']
  nofun

/-- The heartbeat of a connector that was given up is refused while its message is handled. -/
theorem message_to_connector_given_up :
    ∃ s u,
      run step init [.register "telegram" 0, .evaluate (130 * second) 0 (fun _ => 0)] = some s ∧
      step s (.message "telegram" (131 * second)) = some u ∧
      ¬ StaysConnected u "telegram" (131 * second) := by
  refine ⟨_, _, rfl, rfl, ?_⟩
  intro hstays
  exact hstays [] _ (by simp) trivial rfl
    ⟨"telegram", .disconnected, 0, 0, 0, "disconnected due to prolonged heartbeat absence"⟩ rfl rfl

end IronGolem.ConnectorHealth
