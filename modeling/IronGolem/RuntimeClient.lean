import IronGolem.GoChannels
import IronGolem.TransitionRuns
import Mathlib.Algebra.Ring.Int.Defs
import Mathlib.Algebra.Ring.Nat
import Mathlib.Data.List.Perm.Basic

/-!
The gateway's client of the runtime child: the callers, the writer and reader of the child's pipes,
and the supervisor that restarts it. Every place where a goroutine can be interrupted is a program
counter, and one action is one uninterrupted piece of one goroutine, so a run is an arbitrary
interleaving.
-/
namespace IronGolem.RuntimeClient

open GoChannels

inductive ClientState where
  | booting | running | restarting | dead | closed
  deriving DecidableEq, Repr

inductive CallKind where
  | execute | ping | listProviders | llmCall
  deriving DecidableEq, Repr

/-- A response line of the child; `error` is only read on an execute response. -/
structure Response where
  kind : CallKind
  requestID : String
  error : String
  deriving DecidableEq, Repr

structure EventNotification where
  requestID : String
  payload : String
  deriving DecidableEq, Repr

/-- The errors that a mass failure hands to the callers. -/
inductive Fault where
  | childExited
  | closed
  | cancelled
  | rejected (text : String)
  deriving DecidableEq, Repr

inductive TerminalResponse where
  | response (r : Response)
  | failed (err : Fault)
  deriving DecidableEq, Repr

inductive CallError where
  | unavailable
  | duplicate
  | marshal
  | cancelled
  | closed
  | mismatch
  | fault (err : Fault)
  deriving DecidableEq, Repr

/-- What a call ends with; the response is missing if it was of another kind. -/
inductive CallResult where
  | ok (r : Response)
  | executed (r : Option Response)
  | err (e : CallError)
  deriving DecidableEq, Repr

inductive CallPc where
  | idle
  | accepted
  | admitted
  | registered
  | waiting
  | unregistering (e : CallError)
  | returned (r : CallResult)
  deriving DecidableEq, Repr

/-- An execute call that waits has handed out its channels; other kinds wait themselves. -/
structure Call where
  kind : CallKind
  pc : CallPc
  done : Chan TerminalResponse
  events : Option (Chan EventNotification)
  deriving DecidableEq, Repr

/-- What callers put on the outbound queue. -/
inductive Message where
  | request (c : ℕ)
  | shutdown
  deriving DecidableEq, Repr

/-- A line of the child's output, as the reader's decoding classifies it. -/
inductive Line where
  | event (evt : EventNotification)
  | terminal (r : Response)
  | ignored
  | tooLong
  deriving DecidableEq, Repr

/-- The two goroutines that answer pending requests. -/
inductive Party where
  | supervisor | reader
  deriving DecidableEq, Repr

inductive Stage where
  | send | closeDone | closeEvents
  deriving DecidableEq, Repr

/-- Requests to be answered with `value`; the stage is that of the first one. -/
structure Job where
  value : TerminalResponse
  todo : List ℕ
  stage : Stage
  deriving DecidableEq, Repr

inductive WriterPc where
  | off
  | selecting
  | writing (m : Message)
  | exited
  deriving DecidableEq, Repr

inductive ReaderPc where
  | off
  | scanning
  | handling (l : Line)
  | eventHeld (c : ℕ) (evt : EventNotification)
  | failing (text : String)
  | delivering
  | exited
  deriving DecidableEq, Repr

inductive Cause where
  | crash | ctx | stop
  deriving DecidableEq, Repr

inductive SupPc where
  | launch
  | selecting
  | killing (why : Cause)
  | joiningWriter
  | joiningReader
  | failing (why : Cause)
  | delivering (why : Cause)
  | counting
  | settingDead
  | settingRestarting
  | backingOff
  | settingClosed
  | spawning
  | settingRunning
  | returned
  deriving DecidableEq, Repr

/-- `delays` and `respawns` record the backoffs slept and the outcomes of the respawns. -/
structure Supervisor where
  pc : SupPc
  attempts : ℕ
  cmd : Bool
  delays : List ℤ
  respawns : List Bool
  deriving DecidableEq, Repr

inductive WaitPc where
  | off | waiting | returned
  deriving DecidableEq, Repr

/-- The child process with our ends of its pipes and the goroutine in `cmd.Wait`. -/
structure Child where
  number : ℕ
  alive : Bool
  stdout : List Line
  stdinClosed : Bool
  stdoutClosed : Bool
  wait : WaitPc
  deriving DecidableEq, Repr

inductive CloserPc where
  | idle | stopping | stopped
  deriving DecidableEq, Repr

inductive Panic where
  | sendOnClosedDone
  | closeOfClosedDone
  | closeOfClosedEvents
  | sendOnClosedEvents
  | nilHandle
  deriving DecidableEq, Repr

structure Sys where
  state : ClientState
  stop : Bool
  ctxDone : Bool
  outbound : List Message
  pending : List (String × ℕ)
  calls : ℕ → Call
  jobs : Party → Job
  sup : Supervisor
  writer : WriterPc
  reader : ReaderPc
  closer : CloserPc
  child : Child
  written : List (ℕ × Message)
  panicked : Option Panic

def nilUUID : String := "00000000-0000-0000-0000-000000000000"

/-- The configuration with the drawn request ids, which never repeat and never are nil. -/
structure Config where
  newID : ℕ → String
  newID_injective : Function.Injective newID
  newID_ne_nil : ∀ c, newID c ≠ nilUUID
  maxRestartAttempts : ℤ
  baseBackoff : ℤ

variable (cfg : Config)

/-- The defaults that `New` fills in. -/
def Config.restartBudget : ℤ :=
  if cfg.maxRestartAttempts = 0 then 5 else cfg.maxRestartAttempts

def Config.backoffUnit : ℤ :=
  if cfg.baseBackoff = 0 then 1000000000 else cfg.baseBackoff

/-- `BaseBackoff << (attempts - 1)` on 64-bit durations. -/
def Config.backoff (attempts : ℕ) : ℤ :=
  (cfg.backoffUnit * 2 ^ (attempts - 1)).bmod (2 ^ 64)

def outboundCapacity : ℕ := 64

def eventsCapacity : ℕ := 64

def doneCapacity : ℕ := 1

def acceptingWork (state : ClientState) : Bool :=
  state = .running || state = .booting || state = .restarting

variable (s : Sys) (c : ℕ)

def Sys.setCall (call : Call) : Sys :=
  { s with calls := Function.update s.calls c call }

def Sys.setPc (pc : CallPc) : Sys := s.setCall c { s.calls c with pc := pc }

def Sys.setSup (pc : SupPc) : Sys := { s with sup := { s.sup with pc := pc } }

def Sys.setJob (p : Party) (job : Job) : Sys :=
  { s with jobs := Function.update s.jobs p job }

def Sys.abort (p : Panic) : Sys := { s with panicked := some p }

variable (kind : CallKind)

def newCall : Call where
  kind := kind
  pc := .accepted
  done := Chan.empty
  events := if kind = .execute then some Chan.empty else none

def unregister (pending : List (String × ℕ)) (reqID : String) : List (String × ℕ) :=
  pending.filter (fun e => e.1 != reqID)

/-- What the caller or its forwarding goroutine makes of the received value. -/
def settle (reqID : String) : TerminalResponse → CallResult
  | .failed err => .err (.fault err)
  | .response r =>
    if kind = .execute then .executed (if r.kind = .execute then some r else none)
    else if r.kind = kind ∧ r.requestID = reqID then .ok r
    else .err .mismatch

def rejection (r : Response) : String :=
  if r.kind = .execute ∧ r.error ≠ "" then "runtime: " ++ r.error
  else "runtime: child rejected request envelope"

def Cause.fault : Cause → Fault
  | .crash => .childExited
  | .ctx => .cancelled
  | .stop => .closed

inductive CallAct where
  | begin (kind : CallKind)
  | refuse
  | passCheck
  | reject
  | insert
  | duplicate
  | marshalFails
  | enqueue
  | sendCancelled
  | sendStopped
  | receive (v : TerminalResponse)
  | receiveClosed
  | waitCancelled
  | unregister (e : CallError)
  | takeEvent (ch : Chan EventNotification)
  deriving DecidableEq, Repr

/-- Execute, Ping, ListProviders and LlmCall. Only an execute call does not watch its context. -/
def callStep : CallAct → Option Sys
  | .begin kind =>
    if (s.calls c).pc = .idle ∧ acceptingWork s.state then some (s.setCall c (newCall kind))
    else none
  | .refuse =>
    if (s.calls c).pc = .idle ∧ ¬ acceptingWork s.state then
      some (s.setPc c (.returned (.err .unavailable)))
    else none
  | .passCheck =>
    if (s.calls c).pc = .accepted ∧ acceptingWork s.state then some (s.setPc c .admitted)
    else none
  | .reject =>
    if (s.calls c).pc = .accepted ∧ ¬ acceptingWork s.state then
      some (s.setPc c (.returned (.err .unavailable)))
    else none
  | .insert =>
    if (s.calls c).pc = .admitted ∧ cfg.newID c ∉ s.pending.map Prod.fst then
      some { s.setPc c .registered with pending := (cfg.newID c, c) :: s.pending }
    else none
  | .duplicate =>
    if (s.calls c).pc = .admitted ∧ cfg.newID c ∈ s.pending.map Prod.fst then
      some (s.setPc c (.returned (.err .duplicate)))
    else none
  | .marshalFails =>
    if (s.calls c).pc = .registered then some (s.setPc c (.unregistering .marshal)) else none
  | .enqueue =>
    if (s.calls c).pc = .registered ∧ s.outbound.length < outboundCapacity then
      some { s.setPc c .waiting with outbound := s.outbound ++ [.request c] }
    else none
  | .sendCancelled =>
    if (s.calls c).pc = .registered then some (s.setPc c (.unregistering .cancelled)) else none
  | .sendStopped =>
    if (s.calls c).pc = .registered ∧ s.stop then some (s.setPc c (.unregistering .closed))
    else none
  | .receive v =>
    if (s.calls c).pc = .waiting ∧ (s.calls c).done.buffered.head? = some v then
      some (s.setCall c { s.calls c with
        done := (s.calls c).done.receive
        pc := .returned (settle (s.calls c).kind (cfg.newID c) v) })
    else none
  | .receiveClosed =>
    if (s.calls c).pc = .waiting ∧ (s.calls c).done.buffered = [] ∧ (s.calls c).done.closed then
      some (s.setPc c
        (.returned (.err (if (s.calls c).kind = .execute then .closed else .mismatch))))
    else none
  | .waitCancelled =>
    if (s.calls c).pc = .waiting ∧ (s.calls c).kind ≠ .execute then
      some (s.setPc c (.unregistering .cancelled))
    else none
  | .unregister e =>
    if (s.calls c).pc = .unregistering e then
      some { s.setPc c (.returned (.err e)) with pending := unregister s.pending (cfg.newID c) }
    else none
  | .takeEvent ch =>
    if (s.calls c).events = some ch ∧ ch.buffered ≠ [] then
      some (s.setCall c { s.calls c with events := some ch.receive })
    else none

inductive CloseAct where
  | sendShutdown | skipShutdown | closeStop
  deriving DecidableEq, Repr

/-- The body of `closeOnce`: a best-effort shutdown message, then the stop signal. -/
def closeStep : CloseAct → Option Sys
  | .sendShutdown =>
    if s.closer = .idle ∧ s.outbound.length < outboundCapacity then
      some { s with closer := .stopping, outbound := s.outbound ++ [.shutdown] }
    else none
  | .skipShutdown => if s.closer = .idle then some { s with closer := .stopping } else none
  | .closeStop =>
    if s.closer = .stopping then some { s with closer := .stopped, stop := true } else none

inductive WriterAct where
  | take (m : Message) (rest : List Message)
  | stop
  | write (m : Message)
  | writeFails (m : Message)
  deriving DecidableEq, Repr

/-- `runWriter`: writes fail once the child or the pipe is gone. -/
def writerStep : WriterAct → Option Sys
  | .take m rest =>
    if s.writer = .selecting ∧ s.outbound = m :: rest then
      some { s with writer := .writing m, outbound := rest }
    else none
  | .stop => if s.writer = .selecting ∧ s.stop then some { s with writer := .exited } else none
  | .write m =>
    if s.writer = .writing m ∧ s.child.alive ∧ ¬ s.child.stdinClosed then
      some { s with writer := .selecting, written := s.written ++ [(s.child.number, m)] }
    else none
  | .writeFails m =>
    if s.writer = .writing m ∧ (¬ s.child.alive ∨ s.child.stdinClosed) then
      some { s with writer := .exited }
    else none

inductive ReaderAct where
  | scan (l : Line) (rest : List Line)
  | endOfInput
  | ignore
  | tooLong
  | lookupEvent (evt : EventNotification) (c : ℕ)
  | dropEvent (evt : EventNotification)
  | sendEvent (c : ℕ) (evt : EventNotification) (ch : Chan EventNotification)
  | takeTerminal (r : Response) (c : ℕ)
  | noWaiter (r : Response)
  | rejected (r : Response)
  | swap (text : String) (order : List ℕ)
  | delivered
  deriving DecidableEq, Repr

/-- The request that `deliverEvent` finds, if it has an events channel. -/
def eventTarget (evt : EventNotification) : Option ℕ :=
  (s.pending.lookup evt.requestID).filter (fun c => (s.calls c).events.isSome)

/-- `runReader` with `deliverEvent`; an event is dropped if the buffer is full. -/
def readerStep : ReaderAct → Option Sys
  | .scan l rest =>
    if s.reader = .scanning ∧ s.child.stdout = l :: rest then
      some { s with reader := .handling l, child := { s.child with stdout := rest } }
    else none
  | .endOfInput =>
    if s.reader = .scanning ∧
        (s.child.stdoutClosed ∨ (¬ s.child.alive ∧ s.child.stdout = [])) then
      some { s with reader := .exited }
    else none
  | .ignore =>
    if s.reader = .handling .ignored then some { s with reader := .scanning } else none
  | .tooLong =>
    if s.reader = .handling .tooLong then some { s with reader := .exited } else none
  | .lookupEvent evt c =>
    if s.reader = .handling (.event evt) ∧ eventTarget s evt = some c then
      some { s with reader := .eventHeld c evt }
    else none
  | .dropEvent evt =>
    if s.reader = .handling (.event evt) ∧ eventTarget s evt = none then
      some { s with reader := .scanning }
    else none
  | .sendEvent c evt ch =>
    if s.reader = .eventHeld c evt ∧ (s.calls c).events = some ch then
      if ch.closed ∨ ch.hasRoom eventsCapacity then
        match ch.send evt with
        | none => some (s.abort .sendOnClosedEvents)
        | some ch' =>
          some { s.setCall c { s.calls c with events := some ch' } with reader := .scanning }
      else some { s with reader := .scanning }
    else none
  | .takeTerminal r c =>
    if s.reader = .handling (.terminal r) ∧ r.requestID ≠ nilUUID ∧
        s.pending.lookup r.requestID = some c then
      some { s.setJob .reader ⟨.response r, [c], .send⟩ with
        reader := .delivering
        pending := unregister s.pending r.requestID }
    else none
  | .noWaiter r =>
    if s.reader = .handling (.terminal r) ∧ r.requestID ≠ nilUUID ∧
        s.pending.lookup r.requestID = none then
      some { s with reader := .scanning }
    else none
  | .rejected r =>
    if s.reader = .handling (.terminal r) ∧ r.requestID = nilUUID then
      some { s with reader := .failing (rejection r) }
    else none
  | .swap text order =>
    if s.reader = .failing text ∧ order.Perm (s.pending.map Prod.snd) then
      some { s.setJob .reader ⟨.failed (.rejected text), order, .send⟩ with
        reader := .delivering
        pending := [] }
    else none
  | .delivered =>
    if s.reader = .delivering ∧ (s.jobs .reader).todo = [] then
      some { s with reader := .scanning }
    else none

inductive DeliverAct where
  | send (c : ℕ) (rest : List ℕ)
  | closeDone (c : ℕ) (rest : List ℕ)
  | closeEvents (c : ℕ) (rest : List ℕ)
  deriving DecidableEq, Repr

def Sys.delivering : Party → Bool
  | .supervisor => match s.sup.pc with
    | .delivering _ => true
    | _ => false
  | .reader => decide (s.reader = .delivering)

/-- Send, close `done`, close `events`: the end of `deliverTerminal` and `failAllPending`. -/
def deliverStep (p : Party) : DeliverAct → Option Sys
  | .send c rest =>
    if s.delivering p ∧ (s.jobs p).todo = c :: rest ∧ (s.jobs p).stage = .send ∧
        ((s.calls c).done.closed ∨ (s.calls c).done.hasRoom doneCapacity) then
      match (s.calls c).done.send (s.jobs p).value with
      | none => some (s.abort .sendOnClosedDone)
      | some ch => some ((s.setCall c { s.calls c with done := ch }).setJob p
          { s.jobs p with stage := .closeDone })
    else none
  | .closeDone c rest =>
    if s.delivering p ∧ (s.jobs p).todo = c :: rest ∧ (s.jobs p).stage = .closeDone then
      match (s.calls c).done.close with
      | none => some (s.abort .closeOfClosedDone)
      | some ch => some ((s.setCall c { s.calls c with done := ch }).setJob p
          (if (s.calls c).events.isSome then { s.jobs p with stage := .closeEvents }
            else { s.jobs p with todo := rest, stage := .send }))
    else none
  | .closeEvents c rest =>
    if s.delivering p ∧ (s.jobs p).todo = c :: rest ∧ (s.jobs p).stage = .closeEvents then
      match (s.calls c).events.bind Chan.close with
      | none => some (s.abort .closeOfClosedEvents)
      | some ch => some ((s.setCall c { s.calls c with events := some ch }).setJob p
          { s.jobs p with todo := rest, stage := .send })
    else none

inductive SupAct where
  | launch
  | childExited
  | ctxDone
  | stopped
  | reaped (why : Cause)
  | joinWriter
  | joinReader
  | swap (why : Cause) (order : List ℕ)
  | delivered (why : Cause)
  | count
  | setDead
  | setRestarting
  | timer
  | backoffStop
  | backoffCtx
  | setClosed
  | spawn (ok : Bool)
  | setRunning
  deriving DecidableEq, Repr

def nextChild (n : ℕ) : Child := ⟨n, true, [], false, false, .off⟩

def Child.closePipes (ch : Child) : Child := { ch with stdinClosed := true, stdoutClosed := true }

/-- `supervise`. A missing handle is dereferenced by the goroutines and ends the program. -/
def supStep : SupAct → Option Sys
  | .launch =>
    if s.sup.pc = .launch then
      if s.sup.cmd then
        some { s.setSup .selecting with
          writer := .selecting
          reader := .scanning
          child := { s.child with wait := .waiting } }
      else some (s.abort .nilHandle)
    else none
  | .childExited =>
    if s.sup.pc = .selecting ∧ s.child.wait = .returned then
      some { s.setSup .joiningWriter with child := s.child.closePipes }
    else none
  | .ctxDone =>
    if s.sup.pc = .selecting ∧ s.ctxDone then
      some { s.setSup (.killing .ctx) with child := { s.child with alive := false } }
    else none
  | .stopped =>
    if s.sup.pc = .selecting ∧ s.stop then
      some { s.setSup (.killing .stop) with child := { s.child with alive := false } }
    else none
  | .reaped why =>
    if s.sup.pc = .killing why ∧ s.child.wait = .returned then some (s.setSup (.failing why))
    else none
  | .joinWriter =>
    if s.sup.pc = .joiningWriter ∧ s.writer = .exited then some (s.setSup .joiningReader) else none
  | .joinReader =>
    if s.sup.pc = .joiningReader ∧ s.reader = .exited then some (s.setSup (.failing .crash))
    else none
  | .swap why order =>
    if s.sup.pc = .failing why ∧ order.Perm (s.pending.map Prod.snd) then
      some { (s.setSup (.delivering why)).setJob .supervisor ⟨.failed why.fault, order, .send⟩ with
        pending := [] }
    else none
  | .delivered why =>
    if s.sup.pc = .delivering why ∧ (s.jobs .supervisor).todo = [] then
      some (s.setSup (if why = .crash then .counting else .settingClosed))
    else none
  | .count =>
    if s.sup.pc = .counting then
      some { s with sup := { s.sup with
        attempts := s.sup.attempts + 1
        pc := if cfg.restartBudget ≤ (s.sup.attempts + 1 : ℕ) then .settingDead
          else .settingRestarting } }
    else none
  | .setDead =>
    if s.sup.pc = .settingDead then some { s.setSup .returned with state := .dead } else none
  | .setRestarting =>
    if s.sup.pc = .settingRestarting then some { s.setSup .backingOff with state := .restarting }
    else none
  | .timer =>
    if s.sup.pc = .backingOff then
      some { s with sup := { s.sup with
        pc := .spawning
        delays := s.sup.delays ++ [cfg.backoff s.sup.attempts] } }
    else none
  | .backoffStop =>
    if s.sup.pc = .backingOff ∧ s.stop then some (s.setSup .settingClosed) else none
  | .backoffCtx =>
    if s.sup.pc = .backingOff ∧ s.ctxDone then some (s.setSup .settingClosed) else none
  | .setClosed =>
    if s.sup.pc = .settingClosed then some { s.setSup .returned with state := .closed } else none
  | .spawn ok =>
    if s.sup.pc = .spawning then
      some { s with
        sup := { s.sup with
          pc := if ok then .settingRunning else .launch
          cmd := ok
          respawns := s.sup.respawns ++ [ok] }
        child := if ok then nextChild (s.child.number + 1) else s.child }
    else none
  | .setRunning =>
    if s.sup.pc = .settingRunning then some { s.setSup .launch with state := .running } else none

inductive EnvAct where
  | childExits
  | childWrites (l : Line)
  | cancelCtx
  | waitReturns
  deriving DecidableEq, Repr

/-- The child, the context, and `cmd.Wait`, which closes our ends of the pipes. -/
def envStep : EnvAct → Option Sys
  | .childExits =>
    if s.child.alive then some { s with child := { s.child with alive := false } } else none
  | .childWrites l =>
    if s.child.alive then some { s with child := { s.child with stdout := s.child.stdout ++ [l] } }
    else none
  | .cancelCtx => some { s with ctxDone := true }
  | .waitReturns =>
    if s.child.wait = .waiting ∧ ¬ s.child.alive then
      some { s with child := { s.child.closePipes with wait := .returned } }
    else none

inductive Act where
  | call (c : ℕ) (a : CallAct)
  | close (a : CloseAct)
  | writer (a : WriterAct)
  | reader (a : ReaderAct)
  | deliver (p : Party) (a : DeliverAct)
  | sup (a : SupAct)
  | env (a : EnvAct)
  deriving DecidableEq, Repr

def partyStep : Act → Option Sys
  | .call c a => callStep cfg s c a
  | .close a => closeStep s a
  | .writer a => writerStep s a
  | .reader a => readerStep s a
  | .deliver p a => deliverStep s p a
  | .sup a => supStep cfg s a
  | .env a => envStep s a

def step (a : Act) : Option Sys :=
  if s.panicked = none then partyStep cfg s a else none

theorem step_eq_some_iff (cfg : Config) (s t : Sys) (a : Act) :
    step cfg s a = some t ↔ s.panicked = none ∧ partyStep cfg s a = some t := by
  unfold step
  rw [Option.ite_none_right_eq_some]

/-- The client as `New` leaves it: the first child runs and the supervisor starts. -/
def init : Sys where
  state := .running
  stop := false
  ctxDone := false
  outbound := []
  pending := []
  calls := fun _ => ⟨.ping, .idle, Chan.empty, none⟩
  jobs := fun _ => ⟨.failed .closed, [], .send⟩
  sup := ⟨.launch, 0, true, [], []⟩
  writer := .off
  reader := .off
  closer := .idle
  child := nextChild 0
  written := []
  panicked := none

def sampleConfig : Config where
  newID c := String.ofList (List.replicate (c + 1) 'r')
  newID_injective c d h := by
    have hlen := congrArg (fun text => text.toList.length) h
    simpa using hlen
  newID_ne_nil c h := by
    have hhead := congrArg (fun text => text.toList.head?) h
    simp [nilUUID, List.replicate_succ] at hhead
  maxRestartAttempts := 0
  baseBackoff := 0

/-- The actions that take call `c` from its start to waiting for the answer. -/
def callRequest : List Act :=
  [.call c (.begin kind), .call c .passCheck, .call c .insert, .call c .enqueue]

/-- From the exit, on which the writer fails with `m`, to the mass failure of `order`. -/
def crash (m : Message) (rest : List Message) (order : List ℕ) : List Act :=
  [.env .childExits, .env .waitReturns, .sup .childExited, .writer (.take m rest),
   .writer (.writeFails m), .reader .endOfInput, .sup .joinWriter, .sup .joinReader,
   .sup (.swap .crash order)]

def restart : List Act :=
  [.sup (.delivered .crash), .sup .count, .sup .setRestarting, .sup .timer, .sup (.spawn true),
   .sup .setRunning, .sup .launch]

/-- From a call of Close to the mass failure of the requests in `order`. -/
def closeClient (order : List ℕ) : List Act :=
  [.close .skipShutdown, .close .closeStop, .sup .stopped, .env .waitReturns,
   .sup (.reaped .stop), .sup (.swap .stop order)]

def answerExecute (rest : List ℕ) : List Act :=
  [.deliver .supervisor (.send c rest), .deliver .supervisor (.closeDone c rest),
   .deliver .supervisor (.closeEvents c rest)]

end IronGolem.RuntimeClient
