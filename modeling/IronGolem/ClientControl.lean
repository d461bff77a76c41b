import IronGolem.ClientSteps

/-!
Where the goroutines of the client can be relative to each other. The supervisor starts a writer
and a reader for each child and, after a crash, waits for both before it goes on; on a stop or a
cancelled context it goes on without them. A party that is not answering requests has none left to
answer.
-/
namespace IronGolem.ClientControl

open RuntimeClient ClientSteps TransitionRuns

variable (s : Sys)

def Stopping : Prop := s.stop = true ∨ s.ctxDone = true

def Joined : Prop := s.writer = .exited ∧ s.reader = .exited

def Started : Prop := s.writer ≠ .off ∧ s.reader ≠ .off ∧ s.child.wait ≠ .off

def afterCrash : SupPc → Bool
  | .failing .crash | .delivering .crash | .counting | .settingDead | .settingRestarting
  | .backingOff | .spawning | .settingRunning => true
  | _ => false

def afterStop : SupPc → Bool
  | .killing .ctx | .killing .stop | .failing .ctx | .failing .stop | .delivering .ctx
  | .delivering .stop | .settingClosed => true
  | _ => false

/-- What holds of the child's goroutines at each point of the supervisor. -/
structure Control (s : Sys) : Prop where
  launch : s.sup.pc = .launch →
    (s.writer = .off ∨ s.writer = .exited) ∧ (s.reader = .off ∨ s.reader = .exited)
  started : s.sup.pc = .selecting ∨ s.sup.pc = .joiningWriter → Started s
  joiningReader : s.sup.pc = .joiningReader → s.writer = .exited ∧ s.reader ≠ .off
  killing : ∀ why, s.sup.pc = .killing why → why ≠ .crash ∧ s.child.wait ≠ .off
  joined : afterCrash s.sup.pc = true → Joined s
  stopping : afterStop s.sup.pc = true → Stopping s
  returned : s.sup.pc = .returned → Joined s ∨ Stopping s

def Idle : Prop := ∀ p, s.delivering p = false → (s.jobs p).todo = []

/-- A goroutine that was started stays so, and one that has ended stays ended. -/
structure Later (s t : Sys) : Prop where
  sup : t.sup = s.sup
  state : t.state = s.state
  stopping : Stopping s → Stopping t
  writer_on : s.writer ≠ .off → t.writer ≠ .off
  writer_off : s.writer = .off → t.writer = .off
  writer_exited : s.writer = .exited → t.writer = .exited
  reader_on : s.reader ≠ .off → t.reader ≠ .off
  reader_off : s.reader = .off → t.reader = .off
  reader_exited : s.reader = .exited → t.reader = .exited
  wait : s.child.wait ≠ .off → t.child.wait ≠ .off
  reaped : s.child.wait = .returned → t.child.wait = .returned
  stdinClosed : s.child.stdinClosed = true → t.child.stdinClosed = true

theorem Later.joined {s t : Sys} (h : Later s t) (hs : Joined s) : Joined t :=
  ⟨h.writer_exited hs.1, h.reader_exited hs.2⟩

theorem Later.control {s t : Sys} (h : Later s t) (hs : Control s) : Control t where
  launch hpc := by
    have hold := hs.launch (h.sup ▸ hpc)
    exact ⟨hold.1.imp h.writer_off h.writer_exited, hold.2.imp h.reader_off h.reader_exited⟩
  started hpc := by
    have hold := hs.started (h.sup ▸ hpc)
    exact ⟨h.writer_on hold.1, h.reader_on hold.2.1, h.wait hold.2.2⟩
  joiningReader hpc := by
    have hold := hs.joiningReader (h.sup ▸ hpc)
    exact ⟨h.writer_exited hold.1, h.reader_on hold.2⟩
  killing why hpc := by
    have hold := hs.killing why (h.sup ▸ hpc)
    exact ⟨hold.1, h.wait hold.2⟩
  joined hpc := h.joined (hs.joined (h.sup ▸ hpc))
  stopping hpc := h.stopping (hs.stopping (h.sup ▸ hpc))
  returned hpc := (hs.returned (h.sup ▸ hpc)).imp h.joined h.stopping

theorem callTo_later {cfg : Config} {s t : Sys} {c : ℕ} {a : CallAct} (h : CallTo cfg s c a t) :
    Later s t := by
  rw [h.frame]
  exact ⟨rfl, rfl, id, id, id, id, id, id, id, id, id, id⟩

theorem closeTo_later {s t : Sys} {a : CloseAct} (h : CloseTo s a t) : Later s t := by
  have hstop : s.stop = true → t.stop = true := by
    cases h <;> simp
  rw [h.frame]
  exact ⟨rfl, rfl, fun h => h.imp hstop id, id, id, id, id, id, id, id, id, id⟩

theorem writerTo_later {s t : Sys} {a : WriterAct} (h : WriterTo s a t) : Later s t := by
  cases h with
  | take m rest hpc | stop hpc | write m hpc | writeFails m hpc =>
    refine ⟨rfl, rfl, id, ?_, ?_, ?_, id, id, id, id, id, id⟩ <;> simp [hpc]

theorem envTo_later {s t : Sys} {a : EnvAct} (h : EnvTo s a t) : Later s t := by
  cases h with
  | childExits | childWrites => exact ⟨rfl, rfl, id, id, id, id, id, id, id, id, id, id⟩
  | cancelCtx => exact ⟨rfl, rfl, fun _ => .inr rfl, id, id, id, id, id, id, id, id, id⟩
  | waitReturns =>
    exact ⟨rfl, rfl, id, id, id, id, id, id, id, fun _ => by simp, fun _ => rfl, fun _ => rfl⟩

theorem readerTo_later {s t : Sys} {a : ReaderAct} (h : ReaderTo s a t) : Later s t := by
  cases h with
  | sendEventPanics => exact ⟨rfl, rfl, id, id, id, id, id, id, id, id, id, id⟩
  | scan l rest hpc | endOfInput hpc | ignore hpc | tooLong hpc | lookupEvent evt c hpc
  | dropEvent evt hpc | sendEvent c evt ch hpc | sendEventFull c evt ch hpc
  | takeTerminal r c hpc | noWaiter r hpc | rejected r hpc | swap text order hpc
  | delivered hpc =>
    refine ⟨rfl, rfl, id, id, id, id, ?_, ?_, ?_, id, id, id⟩ <;> simp [hpc]

variable {p : Party}

theorem deliverTo_later {s t : Sys} {a : DeliverAct} (h : DeliverTo s p a t) : Later s t := by
  rw [h.frame]
  exact ⟨rfl, rfl, id, id, id, id, id, id, id, id, id, id⟩

variable (cfg : Config) {s t : Sys} {a : Act}

/-- A step is one of the supervisor, or it starts no goroutine and revives none. -/
theorem step_sup_or_later (h : step cfg s a = some t) :
    (∃ b, a = .sup b ∧ SupTo cfg s b t) ∨ ((∀ b, a ≠ .sup b) ∧ Later s t) := by
  cases (step_to cfg s t a h).2 with
  | sup b hto => exact .inl ⟨b, rfl, hto⟩
  | call c a hto => exact .inr ⟨by simp, callTo_later hto⟩
  | close a hto => exact .inr ⟨by simp, closeTo_later hto⟩
  | writer a hto => exact .inr ⟨by simp, writerTo_later hto⟩
  | reader a hto => exact .inr ⟨by simp, readerTo_later hto⟩
  | deliver p a hto => exact .inr ⟨by simp, deliverTo_later hto⟩
  | env a hto => exact .inr ⟨by simp, envTo_later hto⟩

theorem not_afterStop_of_afterCrash {pc : SupPc} (h : afterCrash pc = true) :
    afterStop pc = false := by
  unfold afterCrash at h
  split at h <;> first | rfl | cases h

theorem afterStop_of_ne_crash {why : Cause} (h : why ≠ .crash) :
    afterStop (.killing why) = true ∧ afterStop (.failing why) = true ∧
      afterStop (.delivering why) = true := by
  cases why with
  | crash => exact absurd rfl h
  | _ => exact ⟨rfl, rfl, rfl⟩

theorem control_of_joined (hj : Joined t)
    (hpc : afterCrash t.sup.pc = true ∨ t.sup.pc = .launch ∨ t.sup.pc = .returned) : Control t where
  launch _ := ⟨.inr hj.1, .inr hj.2⟩
  started h := by rcases h with h | h <;> simp [h, afterCrash] at hpc
  joiningReader h := by simp [h, afterCrash] at hpc
  killing why h := by simp [h, afterCrash] at hpc
  joined _ := hj
  stopping h := by
    rcases hpc with hpc | hpc | hpc
    · rw [not_afterStop_of_afterCrash hpc] at h
      cases h
    · simp [hpc, afterStop] at h
    · simp [hpc, afterStop] at h
  returned _ := .inl hj

theorem control_of_stopping (hstop : Stopping t)
    (hpc : (∃ why, why ≠ .crash ∧ (t.sup.pc = .failing why ∨ t.sup.pc = .delivering why)) ∨
      t.sup.pc = .settingClosed ∨ t.sup.pc = .returned) : Control t where
  launch h := by simp [h] at hpc
  started h := by rcases h with h | h <;> simp [h] at hpc
  joiningReader h := by simp [h] at hpc
  killing why h := by simp [h] at hpc
  joined h := by
    rcases hpc with ⟨why, hwhy, hpc | hpc⟩ | hpc | hpc
    · cases why <;> simp_all [afterCrash]
    · cases why <;> simp_all [afterCrash]
    · simp [hpc, afterCrash] at h
    · simp [hpc, afterCrash] at h
  stopping _ := hstop
  returned _ := .inr hstop

/-- The supervisor launches a child only when the goroutines of the last one have ended. -/
theorem supTo_control {cfg : Config} {a : SupAct} (hs : Control s)
    (h : SupTo cfg s a t) : Control t := by
  have hjoined : afterCrash s.sup.pc = true → Joined s := hs.joined
  cases h with
  | launch => constructor <;> simp [Sys.setSup, Started, afterCrash, afterStop]
  | launchNil =>
    exact ⟨hs.launch, hs.started, hs.joiningReader, hs.killing, hs.joined, hs.stopping, hs.returned⟩
  | childExited hpc =>
    have hold := hs.started (.inl hpc)
    constructor <;> simp [Sys.setSup, afterCrash, afterStop, Child.closePipes]
    exact hold
  | ctxDone hpc hctx =>
    have hold := hs.started (.inl hpc)
    constructor <;> simp [Sys.setSup, afterCrash, afterStop, Stopping, hctx, hold.2.2]
  | stopped hpc hstop =>
    have hold := hs.started (.inl hpc)
    constructor <;> simp [Sys.setSup, afterCrash, afterStop, Stopping, hstop, hold.2.2]
  | reaped why hpc =>
    have hwhy := (hs.killing why hpc).1
    have hstop : Stopping s := hs.stopping (hpc ▸ (afterStop_of_ne_crash hwhy).1)
    exact control_of_stopping hstop (.inl ⟨why, hwhy, .inl rfl⟩)
  | joinWriter hpc hwriter =>
    have hold := hs.started (.inr hpc)
    constructor <;> simp [Sys.setSup, afterCrash, afterStop, hwriter, hold.2.1]
  | joinReader hpc hreader =>
    exact control_of_joined ⟨(hs.joiningReader hpc).1, hreader⟩ (.inl rfl)
  | swap why order hpc =>
    by_cases hwhy : why = .crash
    · subst hwhy
      exact control_of_joined (hjoined (by rw [hpc]; rfl)) (.inl rfl)
    · have hold : Stopping s := hs.stopping (hpc ▸ (afterStop_of_ne_crash hwhy).2.1)
      exact control_of_stopping hold (.inl ⟨why, hwhy, .inr rfl⟩)
  | crashDelivered hpc => exact control_of_joined (hjoined (by rw [hpc]; rfl)) (.inl rfl)
  | delivered why hwhy hpc =>
    have hold : Stopping s := hs.stopping (hpc ▸ (afterStop_of_ne_crash hwhy).2.2)
    exact control_of_stopping hold (.inr (.inl rfl))
  | countLast hpc | count hpc | setRestarting hpc | timer hpc | spawn hpc =>
    exact control_of_joined (hjoined (by rw [hpc]; rfl)) (.inl rfl)
  | spawnFails hpc | setRunning hpc =>
    exact control_of_joined (hjoined (by rw [hpc]; rfl)) (.inr (.inl rfl))
  | setDead hpc => exact control_of_joined (hjoined (by rw [hpc]; rfl)) (.inr (.inr rfl))
  | backoffStop hpc hstop => exact control_of_stopping (.inl hstop) (.inr (.inl rfl))
  | backoffCtx hpc hctx => exact control_of_stopping (.inr hctx) (.inr (.inl rfl))
  | setClosed hpc =>
    have hold : Stopping s := hs.stopping (by rw [hpc]; rfl)
    exact control_of_stopping hold (.inr (.inr rfl))

theorem control_init : Control init := by
  constructor <;> simp [init, afterCrash, afterStop]

theorem step_control (hs : Control s) (h : step cfg s a = some t) : Control t := by
  rcases step_sup_or_later cfg h with ⟨b, -, hsup⟩ | ⟨-, hlater⟩
  · exact supTo_control hs hsup
  · exact hlater.control hs

theorem idle_init : Idle init := fun _ _ => rfl

theorem idle_of_same (hsup : t.sup = s.sup) (hjobs : t.jobs = s.jobs)
    (hreader : t.reader = s.reader) (hs : Idle s) : Idle t := by
  intro p hp
  rw [hjobs]
  apply hs p
  cases p with
  | supervisor => simpa [Sys.delivering, hsup] using hp
  | reader => simpa [Sys.delivering, hreader] using hp

theorem readerTo_idle {a : ReaderAct} (hs : Idle s) (h : ReaderTo s a t) : Idle t := by
  have hsup : t.sup = s.sup := by rw [h.frame]
  intro p hp
  cases p with
  | supervisor =>
    have hjob : t.jobs .supervisor = s.jobs .supervisor := by
      cases h <;> simp [Sys.setJob, Sys.setCall, Sys.abort]
    rw [hjob]
    exact hs .supervisor (by simpa [Sys.delivering, hsup] using hp)
  | reader =>
    cases h with
    | takeTerminal | swap => simp [Sys.delivering] at hp
    | delivered hpc htodo => exact htodo
    | scan l rest hpc | endOfInput hpc | ignore hpc | tooLong hpc | lookupEvent evt c hpc
    | dropEvent evt hpc | sendEvent c evt ch hpc | sendEventPanics c evt ch hpc
    | sendEventFull c evt ch hpc | noWaiter r hpc | rejected r hpc =>
      exact hs .reader (by simp [Sys.delivering, hpc])

theorem deliverTo_idle {a : DeliverAct} (hs : Idle s) (h : DeliverTo s p a t) : Idle t := by
  have hsup : t.sup = s.sup := by rw [h.frame]
  have hreader : t.reader = s.reader := by rw [h.frame]
  have hdelivering : ∀ q, t.delivering q = s.delivering q := by
    intro q
    cases q with
    | supervisor => simp [Sys.delivering, hsup]
    | reader => simp [Sys.delivering, hreader]
  intro q hq
  rw [hdelivering] at hq
  have hpq : q ≠ p := by
    rintro rfl
    cases h <;> simp_all
  have hjob : t.jobs q = s.jobs q := by
    cases h <;> simp [Sys.setJob, Sys.setCall, Sys.abort, hpq]
  rw [hjob]
  exact hs q hq

theorem supTo_idle {cfg : Config} {a : SupAct} (hc : Control s) (hs : Idle s)
    (h : SupTo cfg s a t) : Idle t := by
  intro p hp
  cases p with
  | reader =>
    cases h with
    | launch hpc =>
      have hold : s.delivering .reader = false := by
        rcases (hc.launch hpc).2 with hr | hr <;> simp [Sys.delivering, hr]
      exact hs .reader hold
    | _ => exact hs .reader hp
  | supervisor =>
    cases h with
    | swap => simp [Sys.delivering, Sys.setJob, Sys.setSup] at hp
    | crashDelivered hpc htodo | delivered why hwhy hpc htodo => exact htodo
    | launch hpc | launchNil hpc | childExited hpc | ctxDone hpc | stopped hpc | reaped why hpc
    | joinWriter hpc | joinReader hpc | countLast hpc | count hpc | setDead hpc
    | setRestarting hpc | timer hpc | backoffStop hpc | backoffCtx hpc | setClosed hpc
    | spawn hpc | spawnFails hpc | setRunning hpc =>
      exact hs .supervisor (by simp [Sys.delivering, hpc])

theorem step_idle (hc : Control s) (hs : Idle s) (h : step cfg s a = some t) : Idle t := by
  cases (step_to cfg s t a h).2 with
  | call c a hto | close a hto | writer a hto | env a hto =>
    rw [hto.frame]
    exact idle_of_same rfl rfl rfl hs
  | reader a hto => exact readerTo_idle hs hto
  | deliver p a hto => exact deliverTo_idle hs hto
  | sup a hto => exact supTo_idle hc hs hto

/-- The goroutines are where the supervisor expects them; only a delivery under way has calls left.
-/
theorem run_control (acts : List Act) {s : Sys}
    (h : run (step cfg) init acts = some s) : Control s ∧ Idle s := by
  refine invariant (step cfg) (fun s => Control s ∧ Idle s) ⟨control_init, idle_init⟩ ?_ h
  rintro s a t ⟨hc, hi⟩ hstep
  exact ⟨step_control cfg hc hstep, step_idle cfg hc hi hstep⟩

end IronGolem.ClientControl
