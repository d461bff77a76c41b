import IronGolem.RuntimeClient

/-!
What one step of each party can do, said once. For each step function there is a relation with one
rule for every outcome, the guards first and the state after the step last, and the function only
takes steps of the relation. Where the source branches on a value, each branch is a rule of its
own.
-/
namespace IronGolem.ClientSteps

open GoChannels RuntimeClient Option

inductive CallTo (cfg : Config) (s : Sys) (c : ℕ) : CallAct → Sys → Prop where
  | begin (kind : CallKind) (hpc : (s.calls c).pc = .idle) (hwork : acceptingWork s.state = true) :
      CallTo cfg s c (.begin kind) (s.setCall c (newCall kind))
  | refuse (hpc : (s.calls c).pc = .idle) (hwork : ¬ acceptingWork s.state = true) :
      CallTo cfg s c .refuse (s.setPc c (.returned (.err .unavailable)))
  | passCheck (hpc : (s.calls c).pc = .accepted) (hwork : acceptingWork s.state = true) :
      CallTo cfg s c .passCheck (s.setPc c .admitted)
  | reject (hpc : (s.calls c).pc = .accepted) (hwork : ¬ acceptingWork s.state = true) :
      CallTo cfg s c .reject (s.setPc c (.returned (.err .unavailable)))
  | insert (hpc : (s.calls c).pc = .admitted) (hnew : cfg.newID c ∉ s.pending.map Prod.fst) :
      CallTo cfg s c .insert
        { s.setPc c .registered with pending := (cfg.newID c, c) :: s.pending }
  | duplicate (hpc : (s.calls c).pc = .admitted) (hdup : cfg.newID c ∈ s.pending.map Prod.fst) :
      CallTo cfg s c .duplicate (s.setPc c (.returned (.err .duplicate)))
  | marshalFails (hpc : (s.calls c).pc = .registered) :
      CallTo cfg s c .marshalFails (s.setPc c (.unregistering .marshal))
  | enqueue (hpc : (s.calls c).pc = .registered) (hroom : s.outbound.length < outboundCapacity) :
      CallTo cfg s c .enqueue
        { s.setPc c .waiting with outbound := s.outbound ++ [.request c] }
  | sendCancelled (hpc : (s.calls c).pc = .registered) :
      CallTo cfg s c .sendCancelled (s.setPc c (.unregistering .cancelled))
  | sendStopped (hpc : (s.calls c).pc = .registered) (hstop : s.stop = true) :
      CallTo cfg s c .sendStopped (s.setPc c (.unregistering .closed))
  | receive (v : TerminalResponse) (hpc : (s.calls c).pc = .waiting)
      (hv : (s.calls c).done.buffered.head? = some v) :
      CallTo cfg s c (.receive v) (s.setCall c { s.calls c with
        done := (s.calls c).done.receive
        pc := .returned (settle (s.calls c).kind (cfg.newID c) v) })
  | receiveClosed (hpc : (s.calls c).pc = .waiting) (hempty : (s.calls c).done.buffered = [])
      (hclosed : (s.calls c).done.closed = true) :
      CallTo cfg s c .receiveClosed (s.setPc c (.returned
        (.err (if (s.calls c).kind = .execute then .closed else .mismatch))))
  | waitCancelled (hpc : (s.calls c).pc = .waiting) (hkind : (s.calls c).kind ≠ .execute) :
      CallTo cfg s c .waitCancelled (s.setPc c (.unregistering .cancelled))
  | unregister (e : CallError) (hpc : (s.calls c).pc = .unregistering e) :
      CallTo cfg s c (.unregister e)
        { s.setPc c (.returned (.err e)) with pending := unregister s.pending (cfg.newID c) }
  | takeEvent (ch : Chan EventNotification) (hevents : (s.calls c).events = some ch)
      (hsome : ch.buffered ≠ []) :
      CallTo cfg s c (.takeEvent ch) (s.setCall c { s.calls c with events := some ch.receive })

variable (cfg : Config) (s t : Sys) {c : ℕ} {a : CallAct}

theorem callStep_to (h : callStep cfg s c a = some t) : CallTo cfg s c a t := by
  cases a <;>
    simp only [callStep, ite_none_right_eq_some, some.injEq] at h <;>
    obtain ⟨hguard, rfl⟩ := h
  case marshalFails => exact .marshalFails hguard
  case sendCancelled => exact .sendCancelled hguard
  case unregister e => exact .unregister e hguard
  case begin kind => exact .begin kind hguard.1 hguard.2
  case refuse => exact .refuse hguard.1 hguard.2
  case passCheck => exact .passCheck hguard.1 hguard.2
  case reject => exact .reject hguard.1 hguard.2
  case insert => exact .insert hguard.1 hguard.2
  case duplicate => exact .duplicate hguard.1 hguard.2
  case enqueue => exact .enqueue hguard.1 hguard.2
  case sendStopped => exact .sendStopped hguard.1 hguard.2
  case receive v => exact .receive v hguard.1 hguard.2
  case receiveClosed => exact .receiveClosed hguard.1 hguard.2.1 hguard.2.2
  case waitCancelled => exact .waitCancelled hguard.1 hguard.2
  case takeEvent ch => exact .takeEvent ch hguard.1 hguard.2

inductive CloseTo (s : Sys) : CloseAct → Sys → Prop where
  | sendShutdown (hpc : s.closer = .idle) (hroom : s.outbound.length < outboundCapacity) :
      CloseTo s .sendShutdown
        { s with closer := .stopping, outbound := s.outbound ++ [.shutdown] }
  | skipShutdown (hpc : s.closer = .idle) : CloseTo s .skipShutdown { s with closer := .stopping }
  | closeStop (hpc : s.closer = .stopping) :
      CloseTo s .closeStop { s with closer := .stopped, stop := true }

theorem closeStep_to {a : CloseAct} (h : closeStep s a = some t) : CloseTo s a t := by
  cases a <;>
    simp only [closeStep, ite_none_right_eq_some, some.injEq] at h <;>
    obtain ⟨hguard, rfl⟩ := h
  case sendShutdown => exact .sendShutdown hguard.1 hguard.2
  case skipShutdown => exact .skipShutdown hguard
  case closeStop => exact .closeStop hguard

inductive WriterTo (s : Sys) : WriterAct → Sys → Prop where
  | take (m : Message) (rest : List Message) (hpc : s.writer = .selecting)
      (hout : s.outbound = m :: rest) :
      WriterTo s (.take m rest) { s with writer := .writing m, outbound := rest }
  | stop (hpc : s.writer = .selecting) (hstop : s.stop = true) :
      WriterTo s .stop { s with writer := .exited }
  | write (m : Message) (hpc : s.writer = .writing m) (halive : s.child.alive = true)
      (hopen : ¬ s.child.stdinClosed = true) :
      WriterTo s (.write m)
        { s with writer := .selecting, written := s.written ++ [(s.child.number, m)] }
  | writeFails (m : Message) (hpc : s.writer = .writing m)
      (hgone : ¬ s.child.alive = true ∨ s.child.stdinClosed = true) :
      WriterTo s (.writeFails m) { s with writer := .exited }

theorem writerStep_to {a : WriterAct} (h : writerStep s a = some t) : WriterTo s a t := by
  cases a <;>
    simp only [writerStep, ite_none_right_eq_some, some.injEq] at h <;>
    obtain ⟨hguard, rfl⟩ := h
  case take m rest => exact .take m rest hguard.1 hguard.2
  case stop => exact .stop hguard.1 hguard.2
  case write m => exact .write m hguard.1 hguard.2.1 hguard.2.2
  case writeFails m => exact .writeFails m hguard.1 hguard.2

inductive ReaderTo (s : Sys) : ReaderAct → Sys → Prop where
  | scan (l : Line) (rest : List Line) (hpc : s.reader = .scanning)
      (hout : s.child.stdout = l :: rest) :
      ReaderTo s (.scan l rest)
        { s with reader := .handling l, child := { s.child with stdout := rest } }
  | endOfInput (hpc : s.reader = .scanning)
      (hend : s.child.stdoutClosed = true ∨ (¬ s.child.alive = true ∧ s.child.stdout = [])) :
      ReaderTo s .endOfInput { s with reader := .exited }
  | ignore (hpc : s.reader = .handling .ignored) :
      ReaderTo s .ignore { s with reader := .scanning }
  | tooLong (hpc : s.reader = .handling .tooLong) :
      ReaderTo s .tooLong { s with reader := .exited }
  | lookupEvent (evt : EventNotification) (c : ℕ) (hpc : s.reader = .handling (.event evt))
      (htarget : eventTarget s evt = some c) :
      ReaderTo s (.lookupEvent evt c) { s with reader := .eventHeld c evt }
  | dropEvent (evt : EventNotification) (hpc : s.reader = .handling (.event evt))
      (htarget : eventTarget s evt = none) :
      ReaderTo s (.dropEvent evt) { s with reader := .scanning }
  | sendEvent (c : ℕ) (evt : EventNotification) (ch : Chan EventNotification)
      (hpc : s.reader = .eventHeld c evt) (hevents : (s.calls c).events = some ch)
      (hopen : ch.closed = false) :
      ReaderTo s (.sendEvent c evt ch)
        { s.setCall c { s.calls c with events := some { ch with sent := ch.sent ++ [evt] } } with
          reader := .scanning }
  | sendEventPanics (c : ℕ) (evt : EventNotification) (ch : Chan EventNotification)
      (hpc : s.reader = .eventHeld c evt) (hevents : (s.calls c).events = some ch)
      (hclosed : ch.closed = true) :
      ReaderTo s (.sendEvent c evt ch) (s.abort .sendOnClosedEvents)
  | sendEventFull (c : ℕ) (evt : EventNotification) (ch : Chan EventNotification)
      (hpc : s.reader = .eventHeld c evt) (hevents : (s.calls c).events = some ch) :
      ReaderTo s (.sendEvent c evt ch) { s with reader := .scanning }
  | takeTerminal (r : Response) (c : ℕ) (hpc : s.reader = .handling (.terminal r))
      (hid : r.requestID ≠ nilUUID) (hlookup : s.pending.lookup r.requestID = some c) :
      ReaderTo s (.takeTerminal r c)
        { s.setJob .reader ⟨.response r, [c], .send⟩ with
          reader := .delivering
          pending := unregister s.pending r.requestID }
  | noWaiter (r : Response) (hpc : s.reader = .handling (.terminal r))
      (hid : r.requestID ≠ nilUUID) (hlookup : s.pending.lookup r.requestID = none) :
      ReaderTo s (.noWaiter r) { s with reader := .scanning }
  | rejected (r : Response) (hpc : s.reader = .handling (.terminal r))
      (hid : r.requestID = nilUUID) :
      ReaderTo s (.rejected r) { s with reader := .failing (rejection r) }
  | swap (text : String) (order : List ℕ) (hpc : s.reader = .failing text)
      (hperm : order.Perm (s.pending.map Prod.snd)) :
      ReaderTo s (.swap text order)
        { s.setJob .reader ⟨.failed (.rejected text), order, .send⟩ with
          reader := .delivering
          pending := [] }
  | delivered (hpc : s.reader = .delivering) (htodo : (s.jobs .reader).todo = []) :
      ReaderTo s .delivered { s with reader := .scanning }

theorem readerStep_to {a : ReaderAct} (h : readerStep s a = some t) : ReaderTo s a t := by
  cases a
  case sendEvent c evt ch =>
    simp only [readerStep, ite_none_right_eq_some] at h
    obtain ⟨⟨hpc, hevents⟩, h⟩ := h
    split at h
    · by_cases hclosed : ch.closed = true
      · rw [(Chan.send_eq_none_iff ch evt).mpr hclosed] at h
        cases h
        exact .sendEventPanics c evt ch hpc hevents hclosed
      · rw [Bool.not_eq_true] at hclosed
        rw [Chan.send_of_open ch evt hclosed] at h
        cases h
        exact .sendEvent c evt ch hpc hevents hclosed
    · cases h
      exact .sendEventFull c evt ch hpc hevents
  all_goals
    simp only [readerStep, ite_none_right_eq_some, some.injEq] at h
    obtain ⟨hguard, rfl⟩ := h
  case scan l rest => exact .scan l rest hguard.1 hguard.2
  case endOfInput => exact .endOfInput hguard.1 hguard.2
  case ignore => exact .ignore hguard
  case tooLong => exact .tooLong hguard
  case lookupEvent evt c => exact .lookupEvent evt c hguard.1 hguard.2
  case dropEvent evt => exact .dropEvent evt hguard.1 hguard.2
  case takeTerminal r c => exact .takeTerminal r c hguard.1 hguard.2.1 hguard.2.2
  case noWaiter r => exact .noWaiter r hguard.1 hguard.2.1 hguard.2.2
  case rejected r => exact .rejected r hguard.1 hguard.2
  case swap text order => exact .swap text order hguard.1 hguard.2
  case delivered => exact .delivered hguard.1 hguard.2

inductive DeliverTo (s : Sys) (p : Party) : DeliverAct → Sys → Prop where
  | send (c : ℕ) (rest : List ℕ) (hdelivering : s.delivering p = true)
      (htodo : (s.jobs p).todo = c :: rest) (hstage : (s.jobs p).stage = .send)
      (hopen : (s.calls c).done.closed = false) :
      DeliverTo s p (.send c rest) ((s.setCall c { s.calls c with
        done := { (s.calls c).done with
          sent := (s.calls c).done.sent ++ [(s.jobs p).value] } }).setJob p
            { s.jobs p with stage := .closeDone })
  | sendPanics (c : ℕ) (rest : List ℕ) (hdelivering : s.delivering p = true)
      (htodo : (s.jobs p).todo = c :: rest)
      (hstage : (s.jobs p).stage = .send) (hclosed : (s.calls c).done.closed = true) :
      DeliverTo s p (.send c rest) (s.abort .sendOnClosedDone)
  | closeDone (c : ℕ) (rest : List ℕ) (hdelivering : s.delivering p = true)
      (htodo : (s.jobs p).todo = c :: rest) (hstage : (s.jobs p).stage = .closeDone)
      (hopen : (s.calls c).done.closed = false) :
      DeliverTo s p (.closeDone c rest) ((s.setCall c { s.calls c with
        done := { (s.calls c).done with closed := true } }).setJob p
          (if (s.calls c).events.isSome then { s.jobs p with stage := .closeEvents }
            else { s.jobs p with todo := rest, stage := .send }))
  | closeDonePanics (c : ℕ) (rest : List ℕ) (hdelivering : s.delivering p = true)
      (htodo : (s.jobs p).todo = c :: rest)
      (hstage : (s.jobs p).stage = .closeDone) (hclosed : (s.calls c).done.closed = true) :
      DeliverTo s p (.closeDone c rest) (s.abort .closeOfClosedDone)
  | closeEvents (c : ℕ) (rest : List ℕ) (ch : Chan EventNotification)
      (hdelivering : s.delivering p = true) (htodo : (s.jobs p).todo = c :: rest)
      (hstage : (s.jobs p).stage = .closeEvents) (hevents : (s.calls c).events = some ch)
      (hopen : ch.closed = false) :
      DeliverTo s p (.closeEvents c rest) ((s.setCall c { s.calls c with
        events := some { ch with closed := true } }).setJob p
          { s.jobs p with todo := rest, stage := .send })
  | closeEventsPanics (c : ℕ) (rest : List ℕ) (hdelivering : s.delivering p = true)
      (htodo : (s.jobs p).todo = c :: rest)
      (hstage : (s.jobs p).stage = .closeEvents)
      (hclosed : (s.calls c).events.map Chan.closed ≠ some false) :
      DeliverTo s p (.closeEvents c rest) (s.abort .closeOfClosedEvents)

variable {p : Party}

theorem DeliverTo.delivering {s t : Sys} {a : DeliverAct} (h : DeliverTo s p a t) :
    s.delivering p = true := by
  cases h <;> assumption

theorem deliverStep_to {a : DeliverAct} (h : deliverStep s p a = some t) : DeliverTo s p a t := by
  cases a with
  | send c rest =>
    simp only [deliverStep, ite_none_right_eq_some] at h
    obtain ⟨⟨hdelivering, htodo, hstage, -⟩, h⟩ := h
    by_cases hclosed : (s.calls c).done.closed = true
    · rw [(Chan.send_eq_none_iff _ _).mpr hclosed] at h
      cases h
      exact .sendPanics c rest hdelivering htodo hstage hclosed
    · rw [Bool.not_eq_true] at hclosed
      rw [Chan.send_of_open _ _ hclosed] at h
      cases h
      exact .send c rest hdelivering htodo hstage hclosed
  | closeDone c rest =>
    simp only [deliverStep, ite_none_right_eq_some] at h
    obtain ⟨⟨hdelivering, htodo, hstage⟩, h⟩ := h
    by_cases hclosed : (s.calls c).done.closed = true
    · rw [(Chan.close_eq_none_iff _).mpr hclosed] at h
      cases h
      exact .closeDonePanics c rest hdelivering htodo hstage hclosed
    · rw [Bool.not_eq_true] at hclosed
      rw [Chan.close_of_open _ hclosed] at h
      cases h
      exact .closeDone c rest hdelivering htodo hstage hclosed
  | closeEvents c rest =>
    simp only [deliverStep, ite_none_right_eq_some] at h
    obtain ⟨⟨hdelivering, htodo, hstage⟩, h⟩ := h
    by_cases hopen : (s.calls c).events.map Chan.closed = some false
    · obtain ⟨ch, hevents, hch⟩ := map_eq_some_iff.mp hopen
      rw [hevents, bind_some, Chan.close_of_open ch hch] at h
      cases h
      exact .closeEvents c rest ch hdelivering htodo hstage hevents hch
    · have hnone : (s.calls c).events.bind Chan.close = none := by
        cases hevents : (s.calls c).events with
        | none => rfl
        | some ch =>
          apply (Chan.close_eq_none_iff ch).mpr
          simpa [hevents] using hopen
      rw [hnone] at h
      cases h
      exact .closeEventsPanics c rest hdelivering htodo hstage hopen

inductive SupTo (cfg : Config) (s : Sys) : SupAct → Sys → Prop where
  | launch (hpc : s.sup.pc = .launch) (hcmd : s.sup.cmd = true) :
      SupTo cfg s .launch { s.setSup .selecting with
        writer := .selecting
        reader := .scanning
        child := { s.child with wait := .waiting } }
  | launchNil (hpc : s.sup.pc = .launch) (hcmd : s.sup.cmd = false) :
      SupTo cfg s .launch (s.abort .nilHandle)
  | childExited (hpc : s.sup.pc = .selecting) (hwait : s.child.wait = .returned) :
      SupTo cfg s .childExited { s.setSup .joiningWriter with child := s.child.closePipes }
  | ctxDone (hpc : s.sup.pc = .selecting) (hctx : s.ctxDone = true) :
      SupTo cfg s .ctxDone
        { s.setSup (.killing .ctx) with child := { s.child with alive := false } }
  | stopped (hpc : s.sup.pc = .selecting) (hstop : s.stop = true) :
      SupTo cfg s .stopped
        { s.setSup (.killing .stop) with child := { s.child with alive := false } }
  | reaped (why : Cause) (hpc : s.sup.pc = .killing why) (hwait : s.child.wait = .returned) :
      SupTo cfg s (.reaped why) (s.setSup (.failing why))
  | joinWriter (hpc : s.sup.pc = .joiningWriter) (hwriter : s.writer = .exited) :
      SupTo cfg s .joinWriter (s.setSup .joiningReader)
  | joinReader (hpc : s.sup.pc = .joiningReader) (hreader : s.reader = .exited) :
      SupTo cfg s .joinReader (s.setSup (.failing .crash))
  | swap (why : Cause) (order : List ℕ) (hpc : s.sup.pc = .failing why)
      (hperm : order.Perm (s.pending.map Prod.snd)) :
      SupTo cfg s (.swap why order)
        { (s.setSup (.delivering why)).setJob .supervisor ⟨.failed why.fault, order, .send⟩ with
          pending := [] }
  | crashDelivered (hpc : s.sup.pc = .delivering .crash)
      (htodo : (s.jobs .supervisor).todo = []) :
      SupTo cfg s (.delivered .crash) (s.setSup .counting)
  | delivered (why : Cause) (hwhy : why ≠ .crash) (hpc : s.sup.pc = .delivering why)
      (htodo : (s.jobs .supervisor).todo = []) :
      SupTo cfg s (.delivered why) (s.setSup .settingClosed)
  | countLast (hpc : s.sup.pc = .counting)
      (hbudget : cfg.restartBudget ≤ (s.sup.attempts + 1 : ℕ)) :
      SupTo cfg s .count { s with sup := { s.sup with
        attempts := s.sup.attempts + 1
        pc := .settingDead } }
  | count (hpc : s.sup.pc = .counting)
      (hbudget : ¬ cfg.restartBudget ≤ (s.sup.attempts + 1 : ℕ)) :
      SupTo cfg s .count { s with sup := { s.sup with
        attempts := s.sup.attempts + 1
        pc := .settingRestarting } }
  | setDead (hpc : s.sup.pc = .settingDead) :
      SupTo cfg s .setDead { s.setSup .returned with state := .dead }
  | setRestarting (hpc : s.sup.pc = .settingRestarting) :
      SupTo cfg s .setRestarting { s.setSup .backingOff with state := .restarting }
  | timer (hpc : s.sup.pc = .backingOff) :
      SupTo cfg s .timer { s with sup := { s.sup with
        pc := .spawning
        delays := s.sup.delays ++ [cfg.backoff s.sup.attempts] } }
  | backoffStop (hpc : s.sup.pc = .backingOff) (hstop : s.stop = true) :
      SupTo cfg s .backoffStop (s.setSup .settingClosed)
  | backoffCtx (hpc : s.sup.pc = .backingOff) (hctx : s.ctxDone = true) :
      SupTo cfg s .backoffCtx (s.setSup .settingClosed)
  | setClosed (hpc : s.sup.pc = .settingClosed) :
      SupTo cfg s .setClosed { s.setSup .returned with state := .closed }
  | spawn (hpc : s.sup.pc = .spawning) :
      SupTo cfg s (.spawn true) { s with
        sup := { s.sup with
          pc := .settingRunning
          cmd := true
          respawns := s.sup.respawns ++ [true] }
        child := nextChild (s.child.number + 1) }
  | spawnFails (hpc : s.sup.pc = .spawning) :
      SupTo cfg s (.spawn false) { s with
        sup := { s.sup with
          pc := .launch
          cmd := false
          respawns := s.sup.respawns ++ [false] } }
  | setRunning (hpc : s.sup.pc = .settingRunning) :
      SupTo cfg s .setRunning { s.setSup .launch with state := .running }

theorem supStep_to {a : SupAct} (h : supStep cfg s a = some t) : SupTo cfg s a t := by
  cases a
  case launch =>
    simp only [supStep, ite_none_right_eq_some] at h
    obtain ⟨hpc, h⟩ := h
    by_cases hcmd : s.sup.cmd = true
    · rw [if_pos hcmd] at h
      cases h
      exact .launch hpc hcmd
    · rw [if_neg hcmd] at h
      cases h
      exact .launchNil hpc (by simpa using hcmd)
  all_goals
    simp only [supStep, ite_none_right_eq_some, some.injEq] at h
    obtain ⟨hguard, rfl⟩ := h
  case delivered why =>
    by_cases hwhy : why = .crash
    · subst hwhy
      exact .crashDelivered hguard.1 hguard.2
    · rw [if_neg hwhy]
      exact .delivered why hwhy hguard.1 hguard.2
  case count =>
    by_cases hbudget : cfg.restartBudget ≤ (s.sup.attempts + 1 : ℕ)
    · rw [if_pos hbudget]
      exact .countLast hguard hbudget
    · rw [if_neg hbudget]
      exact .count hguard hbudget
  case spawn ok =>
    cases ok with
    | true => exact .spawn hguard
    | false => exact .spawnFails hguard
  case childExited => exact .childExited hguard.1 hguard.2
  case ctxDone => exact .ctxDone hguard.1 hguard.2
  case stopped => exact .stopped hguard.1 hguard.2
  case reaped why => exact .reaped why hguard.1 hguard.2
  case joinWriter => exact .joinWriter hguard.1 hguard.2
  case joinReader => exact .joinReader hguard.1 hguard.2
  case swap why order => exact .swap why order hguard.1 hguard.2
  case setDead => exact .setDead hguard
  case setRestarting => exact .setRestarting hguard
  case timer => exact .timer hguard
  case backoffStop => exact .backoffStop hguard.1 hguard.2
  case backoffCtx => exact .backoffCtx hguard.1 hguard.2
  case setClosed => exact .setClosed hguard
  case setRunning => exact .setRunning hguard

inductive EnvTo (s : Sys) : EnvAct → Sys → Prop where
  | childExits (halive : s.child.alive = true) :
      EnvTo s .childExits { s with child := { s.child with alive := false } }
  | childWrites (l : Line) (halive : s.child.alive = true) :
      EnvTo s (.childWrites l)
        { s with child := { s.child with stdout := s.child.stdout ++ [l] } }
  | cancelCtx : EnvTo s .cancelCtx { s with ctxDone := true }
  | waitReturns (hwait : s.child.wait = .waiting) (hgone : ¬ s.child.alive = true) :
      EnvTo s .waitReturns { s with child := { s.child.closePipes with wait := .returned } }

theorem envStep_to {a : EnvAct} (h : envStep s a = some t) : EnvTo s a t := by
  cases a
  case cancelCtx =>
    cases h
    exact .cancelCtx
  all_goals
    simp only [envStep, ite_none_right_eq_some, some.injEq] at h
    obtain ⟨hguard, rfl⟩ := h
  case childExits => exact .childExits hguard
  case childWrites l => exact .childWrites l hguard
  case waitReturns => exact .waitReturns hguard.1 hguard.2

/-- A step of the client is a step of one party, taken before any panic. -/
inductive StepTo (cfg : Config) (s t : Sys) : Act → Prop where
  | call (c : ℕ) (a : CallAct) (h : CallTo cfg s c a t) : StepTo cfg s t (.call c a)
  | close (a : CloseAct) (h : CloseTo s a t) : StepTo cfg s t (.close a)
  | writer (a : WriterAct) (h : WriterTo s a t) : StepTo cfg s t (.writer a)
  | reader (a : ReaderAct) (h : ReaderTo s a t) : StepTo cfg s t (.reader a)
  | deliver (p : Party) (a : DeliverAct) (h : DeliverTo s p a t) : StepTo cfg s t (.deliver p a)
  | sup (a : SupAct) (h : SupTo cfg s a t) : StepTo cfg s t (.sup a)
  | env (a : EnvAct) (h : EnvTo s a t) : StepTo cfg s t (.env a)

/-- Nothing happens after a panic; before it, every step is one of its goroutine. -/
theorem step_to (a : Act) (h : step cfg s a = some t) : s.panicked = none ∧ StepTo cfg s t a := by
  obtain ⟨hlive, h⟩ := (step_eq_some_iff cfg s t a).mp h
  refine ⟨hlive, ?_⟩
  cases a with
  | call c a => exact .call c a (callStep_to cfg s t h)
  | close a => exact .close a (closeStep_to s t h)
  | writer a => exact .writer a (writerStep_to s t h)
  | reader a => exact .reader a (readerStep_to s t h)
  | deliver p a => exact .deliver p a (deliverStep_to s t h)
  | sup a => exact .sup a (supStep_to cfg s t h)
  | env a => exact .env a (envStep_to s t h)

variable {cfg}

theorem CallTo.frame {s t : Sys} (h : CallTo cfg s c a t) :
    t = { s with calls := t.calls, pending := t.pending, outbound := t.outbound } := by
  cases h <;> rfl

theorem CloseTo.frame {s t : Sys} {a : CloseAct} (h : CloseTo s a t) :
    t = { s with closer := t.closer, outbound := t.outbound, stop := t.stop } := by
  cases h <;> rfl

theorem WriterTo.frame {s t : Sys} {a : WriterAct} (h : WriterTo s a t) :
    t = { s with writer := t.writer, outbound := t.outbound, written := t.written } := by
  cases h <;> rfl

/-- What the reader can change. -/
theorem ReaderTo.frame {s t : Sys} {a : ReaderAct} (h : ReaderTo s a t) :
    t = { s with
      reader := t.reader
      child := t.child
      calls := t.calls
      jobs := t.jobs
      pending := t.pending
      panicked := t.panicked } := by
  cases h <;> rfl

theorem DeliverTo.frame {s t : Sys} {a : DeliverAct} (h : DeliverTo s p a t) :
    t = { s with calls := t.calls, jobs := t.jobs, panicked := t.panicked } := by
  cases h <;> rfl

/-- What the supervisor can change. -/
theorem SupTo.frame {s t : Sys} {a : SupAct} (h : SupTo cfg s a t) :
    t = { s with
      sup := t.sup
      state := t.state
      writer := t.writer
      reader := t.reader
      child := t.child
      jobs := t.jobs
      pending := t.pending
      panicked := t.panicked } := by
  cases h <;> rfl

theorem EnvTo.frame {s t : Sys} {a : EnvAct} (h : EnvTo s a t) :
    t = { s with child := t.child, ctxDone := t.ctxDone } := by
  cases h <;> rfl

end IronGolem.ClientSteps
