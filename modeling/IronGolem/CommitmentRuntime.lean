import IronGolem.CommitmentStore

/-!
The runtime of commitments and everything that touches the table beside it, as one transition
system. The ticker goroutine fires what is due and expires what is stale; each inbound reply starts
a goroutine that enqueues new commitments; HTTP requests dismiss, snooze and delete rows.
-/
namespace IronGolem.CommitmentRuntime

open CommitmentStore RowTables Option

structure RuntimeConfig where
  expireGraceMs : ℤ

/-- How the queries of a tick come upon the rows. -/
structure Scans where
  due : Scan Commitment
  overdue : Scan Commitment

/-- What `NewRuntime` keeps. The dispatcher and the emitter may be nil. -/
structure Runtime where
  dispatcher : Bool
  emitter : Bool
  expireGraceMs : ℤ
  scans : Scans

def defaultExpireGraceMs : ℤ := 10 * 60 * 1000

def dueNowBatch : ℤ := 50

def expireBatch : ℤ := 200

def newRuntime (dispatcher emitter : Bool) (cfg : RuntimeConfig) (scans : Scans) : Runtime where
  dispatcher := dispatcher
  emitter := emitter
  expireGraceMs := if cfg.expireGraceMs = 0 then defaultExpireGraceMs else cfg.expireGraceMs
  scans := scans

def tableScans : Scans := ⟨.tableOrder, .tableOrder⟩

def gatewayRuntime : Runtime := newRuntime true true ⟨0⟩ tableScans

structure Candidate where
  kind : CommitmentKind
  sensitivity : CommitmentSensitivity
  reason : String
  suggestedText : String
  dedupeKey : String
  confidence : ℚ
  dueWindow : DueWindow
  deriving DecidableEq

structure Turn where
  workspaceID : String
  tenantID : String
  sourceEventID : String
  connectorID : String
  channelID : String
  userID : String
  deriving DecidableEq

def minConfidence : ℚ := 5404319552844595 / 9007199254740992

def candidateCommitment (turn : Turn) (cand : Candidate) (now : ℤ) : Commitment where
  id := ""
  workspaceID := turn.workspaceID
  tenantID := turn.tenantID
  kind := cand.kind
  sensitivity := cand.sensitivity
  status := .pending
  reason := cand.reason
  suggestedText := cand.suggestedText
  dedupeKey := cand.dedupeKey
  confidence := cand.confidence
  dueWindow := cand.dueWindow
  connectorID := turn.connectorID
  channelID := turn.channelID
  userID := turn.userID
  sourceEventID := turn.sourceEventID
  createdAtMs := now
  updatedAtMs := now
  sentAtMs := 0
  dismissedAtMs := 0
  snoozedUntilMs := 0
  expiredAtMs := 0
  attempts := 0

inductive TaskPhase
  | candidates (rest : List Candidate)
  /-- The SELECT of `Insert` found no pending row; the INSERT comes next. -/
  | inserting (c : Commitment) (rest : List Candidate)
  | emitting (c : Commitment) (rest : List Candidate)
  deriving DecidableEq

structure Task where
  turn : Turn
  phase : TaskPhase
  deriving DecidableEq

inductive Ticker
  | idle
  /-- The rows of the batch that `fireOne` has not been called for yet. -/
  | firing (batch : List Commitment)
  /-- The first row was dispatched and `MarkSent` comes next. -/
  | marking (c : Commitment) (rest : List Commitment)
  | fired (c : Commitment) (rest : List Commitment)
  /-- The SELECT of `ExpireOverdue` is done and its UPDATE comes next. -/
  | expiring (snapshot : List Commitment)
  | reporting (expired : List Commitment)
  | stopped
  deriving DecidableEq

inductive TimelineKind
  | extracted
  | fired
  | expired
  deriving DecidableEq

structure TimelineEvent where
  kind : TimelineKind
  commitment : Commitment
  deriving DecidableEq

structure Sys where
  db : DB
  now : ℤ
  ticker : Ticker
  tasks : List Task
  timeline : List TimelineEvent
  /-- History: the ids of the rows that `Insert` wrote, in order. -/
  inserted : List String

variable (db : DB)

def init (now : ℤ) : Sys := ⟨db, now, .idle, [], [], []⟩

inductive TickerAct
  | fireDue (nowMs : ℤ)
  | dispatch (ok : Bool)
  | skipDispatch
  | markSent
  | emitFired
  | expireSelect (nowMs : ℤ)
  | expireUpdate
  | emitExpired
  | endTick
  /-- The next statement of the ticker fails in the database and changes nothing. -/
  | dbError
  | stop
  deriving DecidableEq

def routable (c : Commitment) : Bool := decide (c.connectorID ≠ "") && decide (c.channelID ≠ "")

variable (rt : Runtime)

def dueBatch (db : DB) (nowMs : ℤ) : List Commitment := dueNow db rt.scans.due nowMs dueNowBatch

/-- The snapshot that `expireStale` makes `ExpireOverdue` take. -/
def staleBatch (db : DB) (nowMs : ℤ) : List Commitment :=
  expireSelect db (nowMs - rt.expireGraceMs) rt.scans.overdue expireBatch

def afterExpiry (expired : List Commitment) : Ticker :=
  if rt.emitter then .reporting expired else .idle

variable (s : Sys)

def tickerStep : TickerAct → Option Sys
  | .fireDue nowMs => match s.ticker with
    | .idle => if nowMs ≤ s.now then
        some { s with ticker := .firing (dueBatch rt s.db nowMs) } else none
    | _ => none
  | .dispatch ok => match s.ticker with
    | .firing (c :: rest) => if rt.dispatcher = true ∧ (ok = true → routable c = true) then
        some { s with ticker := if ok then .marking c rest else .firing rest } else none
    | _ => none
  | .skipDispatch => match s.ticker with
    | .firing (c :: rest) => if rt.dispatcher = true then none
        else some { s with ticker := .marking c rest }
    | _ => none
  | .markSent => match s.ticker with
    | .marking c rest => match CommitmentStore.markSent s.db c.id s.now with
      | (db, none) => some { s with
          db := db, ticker := .fired { c with status := .sent, sentAtMs := s.now } rest }
      | (db, some _) => some { s with db := db, ticker := .firing rest }
    | _ => none
  | .emitFired => match s.ticker with
    | .fired c rest => some { s with
        ticker := .firing rest
        timeline := if rt.emitter then s.timeline ++ [⟨.fired, c⟩] else s.timeline }
    | _ => none
  | .expireSelect nowMs => match s.ticker with
    | .firing [] => if nowMs ≤ s.now then
        some { s with ticker := .expiring (staleBatch rt s.db nowMs) } else none
    | _ => none
  | .expireUpdate => match s.ticker with
    | .expiring snapshot => some { s with
        db := (CommitmentStore.expireUpdate s.db snapshot s.now).1
        ticker := afterExpiry rt (CommitmentStore.expireUpdate s.db snapshot s.now).2 }
    | _ => none
  | .emitExpired => match s.ticker with
    | .reporting (c :: rest) => some { s with
        ticker := .reporting rest, timeline := s.timeline ++ [⟨.expired, c⟩] }
    | _ => none
  | .endTick => match s.ticker with
    | .reporting [] => some { s with ticker := .idle }
    | _ => none
  | .dbError => match s.ticker with
    -- After a failed `DueNow` the tick goes on to expire what is stale.
    | .idle => some { s with ticker := .firing [] }
    | .marking _ rest => some { s with ticker := .firing rest }
    | .firing [] => some { s with ticker := .idle }
    | .expiring _ => some { s with ticker := .idle }
    | _ => none
  | .stop => match s.ticker with
    | .idle => some { s with ticker := .stopped }
    | _ => none

inductive Request
  | dismiss (id : String)
  /-- The handler compared `untilMs` with the clock at `checkedAt`. -/
  | snooze (id : String) (untilMs checkedAt : ℤ)
  | delete (id : String)
  deriving DecidableEq

def Request.id : Request → String
  | dismiss id => id
  | snooze id _ _ => id
  | delete id => id

def Request.accepted : Request → Prop
  | dismiss id => id ≠ ""
  | snooze id untilMs checkedAt => id ≠ "" ∧ checkedAt ≤ s.now ∧ checkedAt < untilMs
  | delete id => id ≠ ""

instance (s : Sys) (r : Request) : Decidable (r.accepted s) := by
  cases r <;> unfold Request.accepted <;> infer_instance

def Request.run (now : ℤ) : Request → DB
  | dismiss id => (markDismissed db id now).1
  | snooze id untilMs _ => (markSnoozed db id untilMs now).1
  | delete id => (CommitmentStore.delete db id).1

def requestStep (r : Request) : Option Sys :=
  if r.accepted s then some { s with db := r.run s.db s.now } else none

inductive TaskAct
  | check
  | insert (freshID : String)
  | emit
  /-- The next statement of the task fails in the database and changes nothing. -/
  | dbError
  deriving DecidableEq

def Sys.setPhase (i : ℕ) (task : Task) (phase : TaskPhase) : Sys :=
  { s with tasks := s.tasks.set i { task with phase := phase } }

def taskStep (i : ℕ) (task : Task) : TaskAct → Option Sys
  | .check => match task.phase with
    | .candidates (cand :: rest) =>
      if cand.confidence < minConfidence then some (s.setPhase i task (.candidates rest))
      else match insertCheck s.db (candidateCommitment task.turn cand s.now) with
        | some _ => some (s.setPhase i task (.candidates rest))
        | none => some (s.setPhase i task
            (.inserting (candidateCommitment task.turn cand s.now) rest))
    | _ => none
  | .insert freshID => match task.phase with
    | .inserting c rest => match insertRow s.db c freshID s.now with
      | (db, .ok id) => some { s.setPhase i task (.emitting { c with id := id } rest) with
          db := db, inserted := s.inserted ++ [id] }
      | (_, .error _) => some (s.setPhase i task (.candidates rest))
    | _ => none
  | .emit => match task.phase with
    | .emitting c rest => some { s.setPhase i task (.candidates rest) with
        timeline := if rt.emitter then s.timeline ++ [⟨.extracted, c⟩] else s.timeline }
    | _ => none
  | .dbError => match task.phase with
    | .candidates (cand :: rest) => if cand.confidence < minConfidence then none
        else some (s.setPhase i task (.candidates rest))
    | .inserting _ rest => some (s.setPhase i task (.candidates rest))
    | _ => none

inductive Action
  | elapse (ms : ℕ)
  | ticker (a : TickerAct)
  | request (r : Request)
  | enqueue (turn : Turn) (candidates : List Candidate)
  | task (i : ℕ) (a : TaskAct)
  deriving DecidableEq

def step : Action → Option Sys
  | .elapse ms => some { s with now := s.now + ms }
  | .ticker a => tickerStep rt s a
  | .request r => requestStep s r
  | .enqueue turn candidates =>
    some { s with tasks := s.tasks ++ [⟨turn, .candidates candidates⟩] }
  | .task i a => match s.tasks[i]? with
    | some task => taskStep rt s i task a
    | none => none

inductive TickerTo (rt : Runtime) (s : Sys) : TickerAct → Sys → Prop where
  | fireDue (nowMs : ℤ) (hpc : s.ticker = .idle) (hclock : nowMs ≤ s.now) :
      TickerTo rt s (.fireDue nowMs) { s with ticker := .firing (dueBatch rt s.db nowMs) }
  | delivered (c : Commitment) (rest : List Commitment) (hpc : s.ticker = .firing (c :: rest))
      (hdispatcher : rt.dispatcher = true) (hroute : routable c = true) :
      TickerTo rt s (.dispatch true) { s with ticker := .marking c rest }
  | undelivered (c : Commitment) (rest : List Commitment) (hpc : s.ticker = .firing (c :: rest))
      (hdispatcher : rt.dispatcher = true) :
      TickerTo rt s (.dispatch false) { s with ticker := .firing rest }
  | skipDispatch (c : Commitment) (rest : List Commitment) (hpc : s.ticker = .firing (c :: rest))
      (hdispatcher : ¬ rt.dispatcher = true) :
      TickerTo rt s .skipDispatch { s with ticker := .marking c rest }
  | marked (c : Commitment) (rest : List Commitment) (hpc : s.ticker = .marking c rest)
      (hok : (CommitmentStore.markSent s.db c.id s.now).2 = none) :
      TickerTo rt s .markSent { s with
        db := (CommitmentStore.markSent s.db c.id s.now).1
        ticker := .fired { c with status := .sent, sentAtMs := s.now } rest }
  | notMarked (c : Commitment) (rest : List Commitment) (hpc : s.ticker = .marking c rest)
      (herr : (CommitmentStore.markSent s.db c.id s.now).2 ≠ none) :
      TickerTo rt s .markSent { s with
        db := (CommitmentStore.markSent s.db c.id s.now).1, ticker := .firing rest }
  | emitFired (c : Commitment) (rest : List Commitment) (hpc : s.ticker = .fired c rest) :
      TickerTo rt s .emitFired { s with
        ticker := .firing rest
        timeline := if rt.emitter then s.timeline ++ [⟨.fired, c⟩] else s.timeline }
  | expireSelect (nowMs : ℤ) (hpc : s.ticker = .firing []) (hclock : nowMs ≤ s.now) :
      TickerTo rt s (.expireSelect nowMs) { s with ticker := .expiring (staleBatch rt s.db nowMs) }
  | expireUpdate (snapshot : List Commitment) (hpc : s.ticker = .expiring snapshot) :
      TickerTo rt s .expireUpdate { s with
        db := (CommitmentStore.expireUpdate s.db snapshot s.now).1
        ticker := afterExpiry rt (CommitmentStore.expireUpdate s.db snapshot s.now).2 }
  | emitExpired (c : Commitment) (rest : List Commitment)
      (hpc : s.ticker = .reporting (c :: rest)) :
      TickerTo rt s .emitExpired { s with
        ticker := .reporting rest, timeline := s.timeline ++ [⟨.expired, c⟩] }
  | endTick (hpc : s.ticker = .reporting []) : TickerTo rt s .endTick { s with ticker := .idle }
  | noBatch (hpc : s.ticker = .idle) : TickerTo rt s .dbError { s with ticker := .firing [] }
  | markFails (c : Commitment) (rest : List Commitment) (hpc : s.ticker = .marking c rest) :
      TickerTo rt s .dbError { s with ticker := .firing rest }
  | expireFails (hpc : s.ticker = .firing [] ∨ ∃ snapshot, s.ticker = .expiring snapshot) :
      TickerTo rt s .dbError { s with ticker := .idle }
  | stop (hpc : s.ticker = .idle) : TickerTo rt s .stop { s with ticker := .stopped }

variable {rt : Runtime} {s t : Sys}

theorem dispatch_to {ok : Bool} (h : tickerStep rt s (.dispatch ok) = some t) :
    TickerTo rt s (.dispatch ok) t := by
  simp only [tickerStep] at h
  split at h
  · rename_i c rest hpc
    obtain ⟨⟨hdispatcher, hroute⟩, hsome⟩ := ite_none_right_eq_some.mp h
    cases hsome
    cases ok with
    | true => exact .delivered c rest hpc hdispatcher (hroute rfl)
    | false => exact .undelivered c rest hpc hdispatcher
  · cases h

/-- Whether the row was marked is what the store answered. -/
theorem markSent_to (h : tickerStep rt s .markSent = some t) : TickerTo rt s .markSent t := by
  simp only [tickerStep] at h
  split at h
  · rename_i c rest hpc
    split at h
    · rename_i db heq
      cases h
      have hto : TickerTo rt s .markSent _ := .marked c rest hpc (by rw [heq])
      rwa [heq] at hto
    · rename_i db err heq
      cases h
      have hto : TickerTo rt s .markSent _ := .notMarked c rest hpc (by rw [heq]; simp)
      rwa [heq] at hto
  · cases h

/-- A database error skips the statement that the ticker is at. -/
theorem dbError_to (h : tickerStep rt s .dbError = some t) : TickerTo rt s .dbError t := by
  simp only [tickerStep] at h
  split at h
  · rename_i hpc
    cases h
    exact .noBatch hpc
  · rename_i c rest hpc
    cases h
    exact .markFails c rest hpc
  · rename_i hpc
    cases h
    exact .expireFails (.inl hpc)
  · rename_i snapshot hpc
    cases h
    exact .expireFails (.inr ⟨snapshot, hpc⟩)
  · cases h

theorem tickerStep_to {a : TickerAct} (h : tickerStep rt s a = some t) : TickerTo rt s a t := by
  cases a with
  | dispatch ok => exact dispatch_to h
  | markSent => exact markSent_to h
  | dbError => exact dbError_to h
  | fireDue nowMs =>
    simp only [tickerStep] at h
    split at h
    · rename_i hpc
      obtain ⟨hclock, hsome⟩ := ite_none_right_eq_some.mp h
      cases hsome
      exact .fireDue nowMs hpc hclock
    · cases h
  | skipDispatch =>
    simp only [tickerStep] at h
    split at h
    · rename_i c rest hpc
      obtain ⟨hdispatcher, hsome⟩ := ite_none_left_eq_some.mp h
      cases hsome
      exact .skipDispatch c rest hpc hdispatcher
    · cases h
  | emitFired =>
    simp only [tickerStep] at h
    split at h
    · rename_i c rest hpc
      cases h
      exact .emitFired c rest hpc
    · cases h
  | expireSelect nowMs =>
    simp only [tickerStep] at h
    split at h
    · rename_i hpc
      obtain ⟨hclock, hsome⟩ := ite_none_right_eq_some.mp h
      cases hsome
      exact .expireSelect nowMs hpc hclock
    · cases h
  | expireUpdate =>
    simp only [tickerStep] at h
    split at h
    · rename_i snapshot hpc
      cases h
      exact .expireUpdate snapshot hpc
    · cases h
  | emitExpired =>
    simp only [tickerStep] at h
    split at h
    · rename_i c rest hpc
      cases h
      exact .emitExpired c rest hpc
    · cases h
  | endTick =>
    simp only [tickerStep] at h
    split at h
    · rename_i hpc
      cases h
      exact .endTick hpc
    · cases h
  | stop =>
    simp only [tickerStep] at h
    split at h
    · rename_i hpc
      cases h
      exact .stop hpc
    · cases h

inductive TaskTo (rt : Runtime) (s : Sys) (i : ℕ) (task : Task) : TaskAct → Sys → Prop where
  /-- The candidate is below the threshold, fails a check or is lost to an error. -/
  | dropped (a : TaskAct) (rest : List Candidate) (hact : ∀ freshID, a ≠ .insert freshID)
      (hphase : (∃ cand, task.phase = .candidates (cand :: rest)) ∨
        ∃ c, task.phase = .inserting c rest) :
      TaskTo rt s i task a (s.setPhase i task (.candidates rest))
  | refused (c : Commitment) (rest : List Candidate) (freshID : String)
      (hphase : task.phase = .inserting c rest)
      (htaken : s.db.insert (insertedRow c freshID s.now) = none) :
      TaskTo rt s i task (.insert freshID) (s.setPhase i task (.candidates rest))
  | checked (cand : Candidate) (rest : List Candidate)
      (hphase : task.phase = .candidates (cand :: rest))
      (hfree : insertCheck s.db (candidateCommitment task.turn cand s.now) = none) :
      TaskTo rt s i task .check
        (s.setPhase i task (.inserting (candidateCommitment task.turn cand s.now) rest))
  | inserted (c : Commitment) (rest : List Candidate) (freshID : String) (db : DB)
      (hphase : task.phase = .inserting c rest)
      (hins : s.db.insert (insertedRow c freshID s.now) = some db) :
      TaskTo rt s i task (.insert freshID)
        { s.setPhase i task
            (.emitting { c with id := (insertedRow c freshID s.now).id } rest) with
          db := db, inserted := s.inserted ++ [(insertedRow c freshID s.now).id] }
  | emitted (c : Commitment) (rest : List Candidate) (hphase : task.phase = .emitting c rest) :
      TaskTo rt s i task .emit { s.setPhase i task (.candidates rest) with
        timeline := if rt.emitter then s.timeline ++ [⟨.extracted, c⟩] else s.timeline }

variable {i : ℕ} {task : Task} {a : TaskAct}

theorem taskStep_to (h : taskStep rt s i task a = some t) : TaskTo rt s i task a t := by
  cases a with
  | check =>
    simp only [taskStep] at h
    split at h
    · rename_i cand rest hphase
      split at h
      · cases h
        exact .dropped .check rest (by simp) (.inl ⟨cand, hphase⟩)
      · split at h
        · cases h
          exact .dropped .check rest (by simp) (.inl ⟨cand, hphase⟩)
        · rename_i hfree
          cases h
          exact .checked cand rest hphase hfree
    · cases h
  | insert freshID =>
    simp only [taskStep, insertRow] at h
    split at h
    · rename_i c rest hphase
      cases hins : s.db.insert (insertedRow c freshID s.now) with
      | some db =>
        simp only [hins, some.injEq] at h
        obtain rfl := h
        exact .inserted c rest freshID db hphase hins
      | none =>
        simp only [hins, some.injEq] at h
        obtain rfl := h
        exact .refused c rest freshID hphase hins
    · cases h
  | emit =>
    simp only [taskStep] at h
    split at h
    · rename_i c rest hphase
      cases h
      exact .emitted c rest hphase
    · cases h
  | dbError =>
    simp only [taskStep] at h
    split at h
    · rename_i cand rest hphase
      obtain ⟨-, hsome⟩ := ite_none_left_eq_some.mp h
      cases hsome
      exact .dropped .dbError rest (by simp) (.inl ⟨cand, hphase⟩)
    · rename_i c rest hphase
      cases h
      exact .dropped .dbError rest (by simp) (.inr ⟨c, hphase⟩)
    · cases h

inductive StepTo (rt : Runtime) (s : Sys) : Action → Sys → Prop where
  | elapse (ms : ℕ) : StepTo rt s (.elapse ms) { s with now := s.now + ms }
  | ticker (a : TickerAct) (t : Sys) (hto : TickerTo rt s a t) : StepTo rt s (.ticker a) t
  | request (r : Request) (haccepted : r.accepted s) :
      StepTo rt s (.request r) { s with db := r.run s.db s.now }
  | enqueue (turn : Turn) (candidates : List Candidate) :
      StepTo rt s (.enqueue turn candidates)
        { s with tasks := s.tasks ++ [⟨turn, .candidates candidates⟩] }
  | task (i : ℕ) (task : Task) (a : TaskAct) (t : Sys) (hi : s.tasks[i]? = some task)
      (hto : TaskTo rt s i task a t) : StepTo rt s (.task i a) t

theorem step_to {a : Action} (h : step rt s a = some t) : StepTo rt s a t := by
  cases a with
  | elapse ms =>
    cases h
    exact .elapse ms
  | ticker a => exact .ticker a t (tickerStep_to h)
  | request r =>
    obtain ⟨haccepted, hsome⟩ := ite_none_right_eq_some.mp h
    cases hsome
    exact .request r haccepted
  | enqueue turn candidates =>
    cases h
    exact .enqueue turn candidates
  | task i a =>
    simp only [step] at h
    split at h
    · rename_i task hi
      exact .task i task a t hi (taskStep_to h)
    · cases h

theorem TaskTo.frame (h : TaskTo rt s i task a t) :
    t.ticker = s.ticker ∧ t.now = s.now ∧ ∀ id r, s.db.get id = some r → t.db.get id = some r := by
  cases h with
  | inserted c rest freshID db hphase hins =>
    exact ⟨rfl, rfl, fun id r hget => s.db.get_insert_of_some db _ hins id r hget⟩
  | _ => exact ⟨rfl, rfl, fun _ _ h => h⟩

theorem Request.get_run_of_ne (db : DB) (now : ℤ) (r : Request) (id : String) (hid : r.id ≠ id) :
    (r.run db now).get id = db.get id := by
  have hother : ∀ row : Commitment, row.id = id → hasID r.id row = false := by
    intro row hrow
    simp only [hasID, decide_eq_false_iff_not, hrow]
    exact hid.symm
  cases r with
  | delete k =>
    have hne : id ≠ k := fun h => hid h.symm
    show (CommitmentStore.delete db k).1.get id = db.get id
    rw [get_delete, if_neg hne]
  | _ => exact get_mark_of_ne db id _ _ _ hother

end IronGolem.CommitmentRuntime
