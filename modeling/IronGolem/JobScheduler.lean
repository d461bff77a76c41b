import IronGolem.EventStore
import IronGolem.MachineIntegers
import IronGolem.TransitionRuns

/-!
The job scheduler and its in-memory store. SubmitJob and CancelJob run beside one scheduling loop.
Each store call is atomic and hands out copies, and every writer saves the whole record it holds. A
cancellation that is saved while the loop still holds a copy of the job is overwritten when the
loop saves its copy.
-/

namespace IronGolem.JobScheduler

open EventStore (zeroTime)
open List
open MachineIntegers RowTables TransitionRuns

inductive JobState where
  | pending
  | running
  | completed
  | failed
  | cancelled
  deriving DecidableEq, Repr

inductive ScheduleKind where
  | unset
  | once
  | cron
  | interval
  | other (text : String) (unnamed : text ∉ ["", "once", "cron", "interval"])
  deriving DecidableEq

/-- The fields of a job that the scheduler reads or writes. Times and durations are in nanoseconds.
-/
structure Job where
  id : String
  tenantID : String
  name : String
  state : JobState
  scheduleKind : ScheduleKind
  cronExpr : String := ""
  interval : ℤ := 0
  createdAt : ℤ := zeroTime
  scheduledAt : ℤ := zeroTime
  startedAt : Option ℤ := none
  completedAt : Option ℤ := none
  lastRunAt : Option ℤ := none
  runCount : ℤ := 0
  maxRetries : ℤ := 0
  retryCount : ℤ := 0
  error : String := ""
  deriving DecidableEq

def Job.isTerminal (job : Job) : Bool :=
  decide (job.state = .completed) || decide (job.state = .failed) || decide (job.state = .cancelled)

abbrev Store := Table Job.id

variable (store : Store)

def save (job : Job) : Store := store.replace job

def get (id : String) : Option Job := store.get id

def dueJobs (now : ℤ) : List Job :=
  store.rows.filter (fun job => decide (job.state = .pending ∧ job.scheduledAt ≤ now))

def second : ℤ := 1000000000

/-- Parsing a duration, and the quoted form of a text. -/
structure Library where
  parseDuration : String → Except String ℤ
  quote : String → String

section

variable (lib : Library)

def nextCronTime (expr : String) (after : ℤ) : Except String ℤ :=
  if expr.toList.length > 7 ∧ expr.toList.take 7 = "@every ".toList then
    match lib.parseDuration (String.ofList (expr.toList.drop 7)) with
    | .error err => .error ("parsing @every duration: " ++ err)
    | .ok d => .ok (after + d)
  else if expr = "@hourly" then .ok (after + 3600 * second)
  else if expr = "@daily" then .ok (after + 24 * 3600 * second)
  else if expr = "@weekly" then .ok (after + 7 * 24 * 3600 * second)
  else .error ("unsupported cron expression " ++ lib.quote expr ++
    "; use @every, @hourly, @daily, or @weekly")

variable (job : Job) (now : ℤ)

/-- SubmitJob up to its Save: the record that is saved, or the error. -/
def validated (freshID : String) : Except String Job :=
  if job.name = "" then .error "job name is required"
  else if job.tenantID = "" then .error "tenant_id is required"
  else
    let kind := if job.scheduleKind = .unset then .once else job.scheduleKind
    if kind = .interval ∧ job.interval ≤ 0 then
      .error "interval must be positive for interval-scheduled jobs"
    else if kind = .cron ∧ job.cronExpr = "" then
      .error "cron_expr is required for cron-scheduled jobs"
    else .ok { job with
      scheduleKind := kind
      id := if job.id = "" then freshID else job.id
      state := .pending
      createdAt := now
      scheduledAt := if job.scheduledAt = zeroTime then now else job.scheduledAt }

/-- The record after an execution that ended at `completedAt`, with its error if it failed. -/
def concluded (execErr : Option String) (completedAt : ℤ) : Job :=
  let job := { job with
    completedAt := some completedAt
    lastRunAt := some completedAt
    runCount := wrap (job.runCount + 1) }
  match execErr with
  | some err =>
    let job := { job with retryCount := wrap (job.retryCount + 1) }
    if job.retryCount ≤ job.maxRetries then
      { job with
        state := .pending
        scheduledAt := completedAt + wrap (wrap (job.retryCount * 10) * second)
        error := err }
    else { job with state := .failed, error := err }
  | none =>
    match job.scheduleKind with
    | .interval =>
      { job with state := .pending, scheduledAt := completedAt + job.interval, retryCount := 0 }
    | .cron =>
      match nextCronTime lib job.cronExpr completedAt with
      | .error err => { job with state := .failed, error := "invalid cron expression: " ++ err }
      | .ok nextRun => { job with state := .pending, scheduledAt := nextRun, retryCount := 0 }
    | _ => { job with state := .completed }

theorem concluded_id (job : Job) (execErr : Option String) (completedAt : ℤ) :
    (concluded lib job execErr completedAt).id = job.id := by
  unfold concluded
  cases execErr with
  | some err =>
    dsimp only
    split <;> rfl
  | none =>
    dsimp only
    split
    · rfl
    · split <;> rfl
    · rfl

theorem concluded_state (job : Job) (execErr : Option String) (completedAt : ℤ) :
    (concluded lib job execErr completedAt).state ≠ .cancelled := by
  unfold concluded
  cases execErr with
  | some err =>
    dsimp only
    split <;> simp
  | none =>
    dsimp only
    split
    · simp
    · split <;> simp
    · simp

/-- Where the scheduling loop stands. Behind the job in hand are the due jobs still to be executed.
-/
inductive Loop where
  | idle
  | next (due : List Job)
  | started (job : Job) (due : List Job)
  | executing (job : Job) (due : List Job)
  | finished (job : Job) (execErr : Option String) (completedAt : ℤ) (due : List Job)
  deriving DecidableEq

def Loop.held : Loop → List String
  | .idle => []
  | .next due => due.map Job.id
  | .started job due => job.id :: due.map Job.id
  | .executing job due => job.id :: due.map Job.id
  | .finished job _ _ due => job.id :: due.map Job.id

/-- The store, the loop, and the CancelJob calls with the copies they will save. -/
structure Sys where
  store : Store
  loop : Loop
  cancels : List Job
  deriving DecidableEq

def init : Sys := { store := Table.empty, loop := .idle, cancels := [] }

inductive Act where
  | submit (job : Job) (now : ℤ) (freshID : String)
  | cancelCheck (id : String)
  | cancelSave (call : ℕ) (now : ℤ)
  | tick (now : ℤ) (due : List Job)
  | begin (now : ℤ)
  | execute
  | finish (execErr : Option String) (completedAt : ℤ)
  | saveResult
  | endTick
  deriving DecidableEq

def cancelledCopy : Job :=
  { job with state := .cancelled, completedAt := some now }

def runningCopy : Job :=
  { job with state := .running, startedAt := some now }

variable (s : Sys)

/-- CancelJob returns with its Save. ListDue returns its jobs in any order. -/
def step : Act → Option Sys
  | .submit job now freshID =>
    match validated job now freshID with
    | .error _ => some s
    | .ok record => some { s with store := save s.store record }
  | .cancelCheck id =>
    match get s.store id with
    | none => some s
    | some job => if job.isTerminal then some s else some { s with cancels := s.cancels ++ [job] }
  | .cancelSave call now =>
    match s.cancels[call]? with
    | none => none
    | some job => some { s with
        store := save s.store (cancelledCopy job now), cancels := s.cancels.eraseIdx call }
  | .tick now due =>
    if s.loop = .idle ∧ due.Perm (dueJobs s.store now) then some { s with loop := .next due }
    else none
  | .begin now =>
    match s.loop with
    | .next (job :: due) => some { s with
        store := save s.store (runningCopy job now), loop := .started (runningCopy job now) due }
    | _ => none
  | .execute =>
    match s.loop with
    | .started job due => some { s with loop := .executing job due }
    | _ => none
  | .finish execErr completedAt =>
    match s.loop with
    | .executing job due => some { s with loop := .finished job execErr completedAt due }
    | _ => none
  | .saveResult =>
    match s.loop with
    | .finished job execErr completedAt due => some { s with
        store := save s.store (concluded lib job execErr completedAt), loop := .next due }
    | _ => none
  | .endTick => if s.loop = .next [] then some { s with loop := .idle } else none

variable (id : String)

def storedState : Option JobState := (get s.store id).map Job.state

def submittedID : Act → Option String
  | .submit job now freshID => (validated job now freshID).toOption.map Job.id
  | _ => none

def startedID : Act → Option String
  | .execute =>
    match s.loop with
    | .started job _ => some job.id
    | _ => none
  | _ => none

/-- Without a new submission the job stays cancelled and is not started again. -/
def StaysCancelled : Prop :=
  ∀ acts t, run (step lib) s acts = some t → (∀ a ∈ acts, submittedID a ≠ some id) →
    storedState t id = some .cancelled ∧ ∀ a u, step lib t a = some u → startedID t a ≠ some id

/-- The job is stored as cancelled and the loop holds no copy of it. -/
structure Settled (id : String) (s : Sys) : Prop where
  stored : storedState s id = some .cancelled
  released : id ∉ s.loop.held

theorem storedState_save :
    storedState { s with store := save s.store job } id =
      if id = job.id then some job.state else storedState s id := by
  simp only [storedState, get, save, Table.get_replace]
  split <;> rfl

theorem not_due_of_cancelled (h : storedState s id = some .cancelled)
    (now : ℤ) : ∀ job ∈ dueJobs s.store now, job.id ≠ id := by
  intro job hjob hid
  obtain ⟨hmem, hdue⟩ := mem_filter.mp hjob
  have hget : s.store.get id = some job := (s.store.get_eq_some_iff id job).mpr ⟨hmem, hid⟩
  have hpending : job.state = .pending := (of_decide_eq_true hdue).1
  simp only [storedState, get, hget, Option.map_some, hpending] at h
  cases h

variable {lib}

theorem Settled.submit {id : String} {s t : Sys} (h : Settled id s) (job : Job) (now : ℤ)
    (freshID : String) (hother : submittedID (.submit job now freshID) ≠ some id)
    (hstep : step lib s (.submit job now freshID) = some t) : Settled id t := by
  simp only [step] at hstep
  cases hrecord : validated job now freshID with
  | error err =>
    rw [hrecord] at hstep
    cases hstep
    exact h
  | ok record =>
    rw [hrecord] at hstep
    cases hstep
    have hne : ¬ id = record.id := by
      intro hid
      exact hother (by simp [submittedID, hrecord, Except.toOption, hid])
    refine ⟨?_, h.released⟩
    rw [storedState_save, if_neg hne]
    exact h.stored

theorem Settled.cancelSave {id : String} {s t : Sys} (h : Settled id s) (call : ℕ) (now : ℤ)
    (hstep : step lib s (.cancelSave call now) = some t) : Settled id t := by
  simp only [step] at hstep
  split at hstep
  · cases hstep
  · next job _ =>
    cases hstep
    refine ⟨?_, h.released⟩
    have hsave := storedState_save (cancelledCopy job now) s id
    refine hsave.trans ?_
    split
    · rfl
    · exact h.stored

theorem Settled.saved {id : String} {s : Sys} (h : Settled id s) (job : Job) (loop : Loop)
    (hne : id ≠ job.id) (hheld : id ∉ loop.held) :
    Settled id { s with store := save s.store job, loop := loop } := by
  refine ⟨?_, hheld⟩
  have hsave := storedState_save job s id
  rw [if_neg hne] at hsave
  exact hsave.trans h.stored

theorem Settled.moved {id : String} {s : Sys} (h : Settled id s) (loop : Loop)
    (hheld : id ∉ loop.held) : Settled id { s with loop := loop } :=
  ⟨h.stored, hheld⟩

/-- A settled cancellation stays settled under every step but a submission of the same id. -/
theorem Settled.step {id : String} {s t : Sys} (h : Settled id s) (a : Act)
    (hother : submittedID a ≠ some id) (hstep : step lib s a = some t) : Settled id t := by
  have hreleased := h.released
  cases a with
  | submit job now freshID => exact h.submit job now freshID hother hstep
  | cancelSave call now => exact h.cancelSave call now hstep
  | cancelCheck id' =>
    simp only [JobScheduler.step] at hstep
    split at hstep
    · cases hstep
      exact h
    · split at hstep
      · cases hstep
        exact h
      · cases hstep
        exact ⟨h.stored, h.released⟩
  | tick now due =>
    simp only [JobScheduler.step] at hstep
    split at hstep
    · next htick =>
      cases hstep
      refine h.moved _ ?_
      intro hmem
      obtain ⟨job, hjob, hid⟩ := List.mem_map.mp hmem
      exact not_due_of_cancelled s id h.stored now job (htick.2.mem_iff.mp hjob) hid
    · cases hstep
  | begin now =>
    simp only [JobScheduler.step] at hstep
    split at hstep
    · next job due hloop =>
      cases hstep
      rw [hloop] at hreleased
      simp only [Loop.held, map_cons, mem_cons, not_or] at hreleased
      exact h.saved _ _ hreleased.1 (by simpa [Loop.held, runningCopy] using hreleased)
    · cases hstep
  | saveResult =>
    simp only [JobScheduler.step] at hstep
    split at hstep
    · next job execErr completedAt due hloop =>
      cases hstep
      rw [hloop] at hreleased
      simp only [Loop.held, mem_cons, not_or] at hreleased
      exact h.saved _ _ (by rw [concluded_id]; exact hreleased.1) hreleased.2
    · cases hstep
  | endTick =>
    simp only [JobScheduler.step] at hstep
    split at hstep
    · cases hstep
      exact h.moved _ (by simp [Loop.held])
    · cases hstep
  | _ =>
    simp only [JobScheduler.step] at hstep
    split at hstep
    · next job due hloop =>
      cases hstep
      rw [hloop] at hreleased
      exact h.moved _ hreleased
    · cases hstep

theorem Settled.startedID_ne {id : String} {s : Sys} (h : Settled id s) (a : Act) :
    startedID s a ≠ some id := by
  intro hstart
  unfold startedID at hstart
  split at hstart
  · split at hstart
    · next job due hloop =>
      have hreleased := h.released
      rw [hloop] at hreleased
      exact hreleased (by simpa [Loop.held] using .inl (Option.some.inj hstart).symm)
    · cases hstart
  · cases hstart

theorem Settled.staysCancelled {id : String} {s : Sys} (h : Settled id s) :
    StaysCancelled lib s id := by
  intro acts t hrun hothers
  have hsettled : Settled id t := by
    refine guarded_invariant (JobScheduler.step lib) (fun _ a => submittedID a ≠ some id)
      (fun _ => True)
      (Settled id) h (fun _ _ _ => trivial) (fun s a u _ hs ha hstep => hs.step a ha hstep) ?_ hrun
    intro pre a post u hacts _
    exact hothers a (by simp [hacts])
  exact ⟨hsettled.stored, fun a _ _ => hsettled.startedID_ne a⟩

variable (lib)

/-- Some run without submissions leads to a state where the job is not stored as cancelled. -/
def Overwritten (s : Sys) (id : String) : Prop :=
  ∃ acts t, run (step lib) s acts = some t ∧ (∀ a ∈ acts, submittedID a = none) ∧
    storedState t id ≠ some .cancelled

variable {lib}

theorem Overwritten.after {s t : Sys} {id : String} (a : Act) (hsubmit : submittedID a = none)
    (hstep : step lib s a = some t) (h : Overwritten lib t id) : Overwritten lib s id := by
  obtain ⟨acts, u, hrun, hacts, hstate⟩ := h
  refine ⟨a :: acts, u, ?_, ?_, hstate⟩
  · rw [run_cons, hstep]
    exact hrun
  · intro b hb
    rcases mem_cons.mp hb with rfl | hb
    · exact hsubmit
    · exact hacts b hb

theorem overwritten_of_state {s : Sys} {id : String} (h : storedState s id ≠ some .cancelled) :
    Overwritten lib s id :=
  ⟨[], s, rfl, by simp, h⟩

variable {due : List Job} {job}

theorem overwritten_finished {execErr : Option String}
    {completedAt : ℤ} (hloop : s.loop = .finished job execErr completedAt due)
    (hheld : id ∈ s.loop.held)
    (hrest : ∀ u : Sys, u.loop = .next due → id ∈ u.loop.held → Overwritten lib u id) :
    Overwritten lib s id := by
  have hstep : step lib s .saveResult = some { s with
      store := save s.store (concluded lib job execErr completedAt), loop := .next due } := by
    simp [step, hloop]
  refine Overwritten.after .saveResult rfl hstep ?_
  by_cases hid : id = job.id
  · apply overwritten_of_state
    have hsave := storedState_save (concluded lib job execErr completedAt) s id
    rw [concluded_id, if_pos hid] at hsave
    intro hcancelled
    exact concluded_state lib job execErr completedAt
      (Option.some.inj (hsave.symm.trans hcancelled))
  · refine hrest _ rfl ?_
    rw [hloop] at hheld
    simpa [Loop.held, hid] using hheld

theorem overwritten_executing (hloop : s.loop = .executing job due) (hheld : id ∈ s.loop.held)
    (hrest : ∀ u : Sys, u.loop = .next due → id ∈ u.loop.held → Overwritten lib u id) :
    Overwritten lib s id := by
  have hstep : step lib s (.finish none 0) = some { s with loop := .finished job none 0 due } := by
    simp [step, hloop]
  refine Overwritten.after (.finish none 0) rfl hstep ?_
  refine overwritten_finished _ id rfl ?_ hrest
  rw [hloop] at hheld
  exact hheld

theorem overwritten_started (hloop : s.loop = .started job due) (hheld : id ∈ s.loop.held)
    (hrest : ∀ u : Sys, u.loop = .next due → id ∈ u.loop.held → Overwritten lib u id) :
    Overwritten lib s id := by
  have hstep : step lib s .execute = some { s with loop := .executing job due } := by
    simp [step, hloop]
  refine Overwritten.after .execute rfl hstep ?_
  refine overwritten_executing _ id rfl ?_ hrest
  rw [hloop] at hheld
  exact hheld

theorem overwritten_next (due : List Job) (id : String) :
    ∀ s : Sys, s.loop = .next due → id ∈ s.loop.held → Overwritten lib s id := by
  induction due with
  | nil =>
    intro s hloop hheld
    rw [hloop] at hheld
    exact absurd hheld (by simp [Loop.held])
  | cons job due ih =>
    intro s hloop hheld
    have hstep : step lib s (.begin 0) = some { s with
        store := save s.store (runningCopy job 0), loop := .started (runningCopy job 0) due } := by
      simp [step, hloop]
    refine Overwritten.after (.begin 0) rfl hstep ?_
    refine overwritten_started _ id rfl ?_ ih
    rw [hloop] at hheld
    exact hheld

theorem overwritten_of_held (hheld : id ∈ s.loop.held) : Overwritten lib s id := by
  cases hloop : s.loop with
  | idle =>
    rw [hloop] at hheld
    exact absurd hheld (by simp [Loop.held])
  | next due => exact overwritten_next due id s hloop hheld
  | started job due =>
    exact overwritten_started s id hloop hheld (overwritten_next due id)
  | executing job due =>
    exact overwritten_executing s id hloop hheld (overwritten_next due id)
  | finished job execErr completedAt due =>
    exact overwritten_finished s id hloop hheld (overwritten_next due id)

/-- A cancellation is final exactly if the loop holds no copy of the job. -/
theorem cancelJob_final_iff (t : Sys) (call : ℕ) (now : ℤ) (job : Job)
    (hcall : s.cancels[call]? = some job) (hsave : step lib s (.cancelSave call now) = some t) :
    StaysCancelled lib t job.id ↔ job.id ∉ s.loop.held := by
  simp only [step, hcall] at hsave
  cases hsave
  constructor
  · intro hstays hheld
    obtain ⟨acts, u, hrun, hacts, hstate⟩ := overwritten_of_held
      { s with store := save s.store (cancelledCopy job now), cancels := s.cancels.eraseIdx call }
      job.id hheld
    exact hstate (hstays acts u hrun fun a ha => by simp [hacts a ha]).1
  · intro hreleased
    refine Settled.staysCancelled ⟨?_, hreleased⟩
    have hsave := storedState_save (cancelledCopy job now) s job.id
    exact hsave.trans (if_pos rfl)

end

def plainLibrary : Library where
  parseDuration _ := .error "no duration"
  quote := id

def report : Job :=
  { id := "j1", tenantID := "t1", name := "report", state := .pending, scheduleKind := .interval
    interval := second }

def submittedReport : Job := { report with createdAt := 10, scheduledAt := 10 }

def cancelWhileIdle : List Act := [.submit report 10 "fresh", .cancelCheck "j1"]

/-- A cancellation while the loop is idle is final. -/
theorem cancelJob_final_idle :
    ∃ s t, run (step plainLibrary) init cancelWhileIdle = some s ∧
      step plainLibrary s (.cancelSave 0 20) = some t ∧ StaysCancelled plainLibrary t "j1" := by
  obtain ⟨s, hrun, hcall, hloop⟩ := exists_run_of_check (step plainLibrary)
    (fun s => s.cancels[0]? = some submittedReport ∧ s.loop = .idle) init cancelWhileIdle
    (by decide)
  obtain ⟨t, hsave⟩ : ∃ t, step plainLibrary s (.cancelSave 0 20) = some t := by
    simp [step, hcall]
  refine ⟨s, t, hrun, hsave, ?_⟩
  exact (cancelJob_final_iff s t 0 20 submittedReport hcall hsave).mpr (by simp [hloop, Loop.held])

/-- A job that is cancelled while due is executed and stored as pending again. -/
def cancelWhileDue : List Act :=
  [.submit report 10 "fresh", .cancelCheck "j1", .tick 15 [submittedReport]]

theorem cancelJob_overwritten :
    ∃ s t u, run (step plainLibrary) init cancelWhileDue = some s ∧
      step plainLibrary s (.cancelSave 0 20) = some t ∧
      storedState t "j1" = some .cancelled ∧
      run (step plainLibrary) t [.begin 21, .execute, .finish none 22, .saveResult] = some u ∧
      storedState u "j1" = some .pending ∧ ¬ StaysCancelled plainLibrary t "j1" := by
  obtain ⟨s, hrun, t, hsave, hcancelled, u, hrest, hpending⟩ : ∃ s,
      run (step plainLibrary) init cancelWhileDue = some s ∧ ∃ t,
      step plainLibrary s (.cancelSave 0 20) = some t ∧
      storedState t "j1" = some .cancelled ∧ ∃ u,
      run (step plainLibrary) t [.begin 21, .execute, .finish none 22, .saveResult] = some u ∧
      storedState u "j1" = some .pending := by
    refine ⟨_, rfl, _, rfl, rfl, _, rfl, rfl⟩
  refine ⟨s, t, u, hrun, hsave, hcancelled, hrest, hpending, ?_⟩
  intro hstays
  have hstate := (hstays _ u hrest (by simp [submittedID])).1
  rw [hpending] at hstate
  cases hstate

end IronGolem.JobScheduler
