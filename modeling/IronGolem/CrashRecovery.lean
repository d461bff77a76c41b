import IronGolem.OrphanedCalls

/-!
Whether the client can go on after its child has exited. The supervisor closes the pipes and waits
for the writer and then for the reader before it fails the pending requests. The writer waits for a
message or the stop signal and never looks at the pipe, so with an empty queue it does not notice
that the pipe is closed.
-/
namespace IronGolem.CrashRecovery

open RuntimeClient ClientSteps ClientControl PendingLedger ChannelSafety
open OrphanedCalls TransitionRuns

/-- The steps of the supervisor with its `cmd.Wait`, of the writer and of the reader. -/
def ownStep : Act → Bool
  | .writer _ | .reader _ | .deliver _ _ | .sup _ | .env .waitReturns => true
  | _ => false

def CanStep (cfg : Config) (s : Sys) : Prop := ∃ a t, ownStep a = true ∧ step cfg s a = some t

/-- The child is gone, nobody stops the client, and a request is pending. -/
structure Crashed (s : Sys) : Prop where
  exited : s.child.alive = false
  notStopped : s.stop = false
  notCancelled : s.ctxDone = false
  pending : s.pending ≠ []
  running : s.panicked = none

/-- The supervisor waits for a writer that waits for messages, and the reader is gone. -/
def WriterWaits (s : Sys) : Prop :=
  s.sup.pc = .joiningWriter ∧ s.writer = .selecting ∧ s.outbound = [] ∧ s.reader = .exited

theorem Crashed.not_stopping {s : Sys} (h : Crashed s) : ¬ Stopping s := by
  intro hstop
  rcases hstop with hstop | hstop
  · rw [h.notStopped] at hstop
    cases hstop
  · rw [h.notCancelled] at hstop
    cases hstop

theorem canStep_of_partyStep {cfg : Config} {s : Sys} {a : Act} (hlive : s.panicked = none)
    (hown : ownStep a = true) (h : (partyStep cfg s a).isSome = true) : CanStep cfg s := by
  obtain ⟨t, ht⟩ := Option.isSome_iff_exists.mp h
  exact ⟨a, t, hown, (step_eq_some_iff cfg s t a).mpr ⟨hlive, ht⟩⟩

def pastExit : SupPc → Bool
  | .joiningWriter | .joiningReader | .failing .crash | .delivering .crash | .counting
  | .settingDead | .settingRestarting | .backingOff | .spawning => true
  | _ => false

structure Reaped (s : Sys) : Prop where
  past : pastExit s.sup.pc = true → s.child.wait = .returned
  returned : s.sup.pc = .returned → s.child.wait = .returned ∨ Stopping s

theorem supTo_reaped {cfg : Config} {s t : Sys} {a : SupAct} (hc : Control s) (hs : Reaped s)
    (h : SupTo cfg s a t) : Reaped t := by
  -- most steps either leave the stretch after the exit or stay on it with the same child
  have hstay : pastExit s.sup.pc = true → t.child.wait = s.child.wait →
      t.sup.pc ≠ .returned → Reaped t := by
    intro hpc hwait hreturned
    exact ⟨fun _ => hwait.trans (hs.past hpc), fun h => absurd h hreturned⟩
  have hleave : pastExit t.sup.pc = false → t.sup.pc ≠ .returned → Reaped t := by
    intro hpc hreturned
    refine ⟨fun h => ?_, fun h => absurd h hreturned⟩
    rw [hpc] at h
    cases h
  cases h with
  | launchNil => exact ⟨hs.past, hs.returned⟩
  | childExited hpc hwait | reaped why hpc hwait => exact ⟨fun _ => hwait, fun h => by cases h⟩
  | setDead hpc =>
    have hwait : s.child.wait = .returned := hs.past (by rw [hpc]; rfl)
    exact ⟨fun _ => hwait, fun _ => .inl hwait⟩
  | setClosed hpc =>
    have hstop : Stopping s := hc.stopping (by rw [hpc]; rfl)
    exact ⟨(by cases ·), fun _ => .inr hstop⟩
  | swap why order hpc =>
    cases why with
    | crash => exact hstay (by rw [hpc]; rfl) rfl (by simp [Sys.setSup, Sys.setJob])
    | _ => exact hleave rfl (by simp [Sys.setSup, Sys.setJob])
  | joinWriter hpc | joinReader hpc | crashDelivered hpc | countLast hpc | count hpc
  | setRestarting hpc | timer hpc =>
    exact hstay (by rw [hpc]; rfl) rfl (by simp [Sys.setSup])
  | launch | ctxDone | stopped | delivered | backoffStop | backoffCtx | spawn | spawnFails
  | setRunning => exact hleave rfl (by simp [Sys.setSup])

variable {cfg : Config} {s t : Sys} {a : Act}

theorem step_reaped (hc : Control s) (hs : Reaped s) (h : step cfg s a = some t) : Reaped t := by
  rcases step_sup_or_later cfg h with ⟨b, -, hsup⟩ | ⟨-, hlater⟩
  · exact supTo_reaped hc hs hsup
  · constructor
    · intro hpc
      rw [hlater.sup] at hpc
      exact hlater.reaped (hs.past hpc)
    · intro hpc
      rw [hlater.sup] at hpc
      exact (hs.returned hpc).imp hlater.reaped hlater.stopping

def HoldsChannel (s : Sys) : Prop :=
  ∀ c evt, s.reader = .eventHeld c evt → early (s.calls c).pc = false ∧ eventsClosed s c ≠ none

theorem step_holdsChannel (ho : Owned cfg (ledger s))
    (hs : HoldsChannel s) (h : step cfg s a = some t) : HoldsChannel t := by
  intro c evt ht
  rcases eventHeld_cases h ht with hr | ⟨htarget, hcalls⟩
  · obtain ⟨hearly, hsome⟩ := hs c evt hr
    by_cases hclose : ∃ p rest, a = .deliver p (.closeEvents c rest)
    · obtain ⟨p, rest, rfl⟩ := hclose
      cases (step_to cfg s t _ h).2 with
      | deliver p a hto =>
        cases hto with
        | closeEventsPanics => exact ⟨hearly, hsome⟩
        | closeEvents =>
          refine ⟨by simpa [Sys.setJob, Sys.setCall] using hearly, ?_⟩
          simp [eventsClosed, Sys.setJob, Sys.setCall]
    · push Not at hclose
      obtain ⟨hsame, hlate⟩ := step_eventsClosed h hearly hclose
      exact ⟨hlate, hsame.trans_ne hsome⟩
  · obtain ⟨hearly, hopen⟩ := eventTarget_open ho htarget
    unfold eventsClosed at hopen ⊢
    rw [hcalls, hopen]
    exact ⟨hearly, by simp⟩

variable {acts : List Act}

theorem run_reaped (h : run (step cfg) init acts = some s) : Reaped s := by
  refine relative_invariant (step cfg) (fun s => Control s ∧ Idle s) Reaped
    ⟨(by cases ·), (by cases ·)⟩ (run_control cfg) ?_ h
  exact fun s a t hcontrol hs hstep => step_reaped hcontrol.1 hs hstep

theorem run_holdsChannel (h : run (step cfg) init acts = some s) : HoldsChannel s := by
  refine relative_invariant (step cfg) (fun s => Owned cfg (ledger s)) HoldsChannel ?_
    (run_owned cfg) ?_ h
  · intro c evt hr
    cases hr
  · exact fun s a t ho hs hstep => step_holdsChannel ho hs hstep

theorem deliver_canStep {p : Party} (hlive : s.panicked = none)
    (ho : Owned cfg (ledger s)) (hdelivering : s.delivering p = true)
    (htodo : (s.jobs p).todo ≠ []) : CanStep cfg s := by
  obtain ⟨c, rest, htodo⟩ := List.exists_cons_of_ne_nil htodo
  obtain ⟨a, t, hstep, -⟩ := deliver_next ho hdelivering htodo
  exact ⟨.deliver p a, t, rfl, (step_eq_some_iff cfg s t _).mpr ⟨hlive, hstep⟩⟩

theorem writer_canStep (hs : Crashed s) (hoff : s.writer ≠ .off)
    (hexited : s.writer ≠ .exited) (hqueue : s.writer = .selecting → s.outbound ≠ []) :
    CanStep cfg s := by
  cases hw : s.writer with
  | off => exact absurd hw hoff
  | exited => exact absurd hw hexited
  | selecting =>
    obtain ⟨m, rest, hout⟩ := List.exists_cons_of_ne_nil (hqueue hw)
    apply canStep_of_partyStep (a := .writer (.take m rest)) hs.running rfl
    simp [partyStep, writerStep, hw, hout]
  | writing m =>
    apply canStep_of_partyStep (a := .writer (.writeFails m)) hs.running rfl
    simp [partyStep, writerStep, hw, hs.exited]

theorem reader_canStep (hs : Crashed s) (ho : Owned cfg (ledger s))
    (hheld : HoldsChannel s) (hoff : s.reader ≠ .off) (hexited : s.reader ≠ .exited) :
    CanStep cfg s := by
  cases hr : s.reader with
  | off => exact absurd hr hoff
  | exited => exact absurd hr hexited
  | scanning =>
    by_cases hout : s.child.stdout = []
    · apply canStep_of_partyStep (a := .reader .endOfInput) hs.running rfl
      simp [partyStep, readerStep, hr, hs.exited, hout]
    · obtain ⟨l, rest, hout⟩ := List.exists_cons_of_ne_nil hout
      apply canStep_of_partyStep (a := .reader (.scan l rest)) hs.running rfl
      simp [partyStep, readerStep, hr, hout]
  | handling l =>
    cases l with
    | ignored =>
      apply canStep_of_partyStep (a := .reader .ignore) hs.running rfl
      simp [partyStep, readerStep, hr]
    | tooLong =>
      apply canStep_of_partyStep (a := .reader .tooLong) hs.running rfl
      simp [partyStep, readerStep, hr]
    | event evt =>
      cases htarget : eventTarget s evt with
      | none =>
        apply canStep_of_partyStep (a := .reader (.dropEvent evt)) hs.running rfl
        simp [partyStep, readerStep, hr, htarget]
      | some c =>
        apply canStep_of_partyStep (a := .reader (.lookupEvent evt c)) hs.running rfl
        simp [partyStep, readerStep, hr, htarget]
    | terminal r =>
      by_cases hnil : r.requestID = nilUUID
      · apply canStep_of_partyStep (a := .reader (.rejected r)) hs.running rfl
        simp [partyStep, readerStep, hr, hnil]
      · cases hlookup : s.pending.lookup r.requestID with
        | none =>
          apply canStep_of_partyStep (a := .reader (.noWaiter r)) hs.running rfl
          simp [partyStep, readerStep, hr, hnil, hlookup]
        | some c =>
          apply canStep_of_partyStep (a := .reader (.takeTerminal r c)) hs.running rfl
          simp [partyStep, readerStep, hr, hnil, hlookup]
  | eventHeld c evt =>
    have hsome := (hheld c evt hr).2
    obtain ⟨ch, hch⟩ := Option.ne_none_iff_exists'.mp (Option.map_eq_none_iff.not.mp hsome)
    apply canStep_of_partyStep (a := .reader (.sendEvent c evt ch)) hs.running rfl
    simp only [partyStep, readerStep, hr, hch, and_self, ↓reduceIte]
    split
    · split <;> rfl
    · rfl
  | failing text =>
    apply canStep_of_partyStep (a := .reader (.swap text (s.pending.map Prod.snd))) hs.running rfl
    simp [partyStep, readerStep, hr]
  | delivering =>
    by_cases htodo : (s.jobs .reader).todo = []
    · apply canStep_of_partyStep (a := .reader .delivered) hs.running rfl
      simp [partyStep, readerStep, hr, htodo]
    · exact deliver_canStep hs.running ho (by simp [Sys.delivering, hr]) htodo

/-- The supervisor itself waits only for its goroutines. -/
theorem sup_canStep (hs : Crashed s) (hc : Control s)
    (ho : Owned cfg (ledger s)) (hwriter : s.sup.pc ≠ .joiningWriter)
    (hreader : s.sup.pc ≠ .joiningReader) (hreturned : s.sup.pc ≠ .returned) : CanStep cfg s := by
  have hreached : s.child.wait ≠ .off → s.child.wait = .waiting ∨ s.child.wait = .returned := by
    cases s.child.wait <;> simp
  cases hpc : s.sup.pc with
  | joiningWriter => exact absurd hpc hwriter
  | joiningReader => exact absurd hpc hreader
  | returned => exact absurd hpc hreturned
  | killing why =>
    have hafter := (afterStop_of_ne_crash (hc.killing why hpc).1).1
    have hstop := hc.stopping (by rw [hpc]; exact hafter)
    exact absurd hstop hs.not_stopping
  | selecting =>
    rcases hreached (hc.started (.inl hpc)).2.2 with hwait | hwait
    · apply canStep_of_partyStep (a := .env .waitReturns) hs.running rfl
      simp [partyStep, envStep, hwait, hs.exited]
    · apply canStep_of_partyStep (a := .sup .childExited) hs.running rfl
      simp [partyStep, supStep, hpc, hwait]
  | launch =>
    apply canStep_of_partyStep (a := .sup .launch) hs.running rfl
    simp only [partyStep, supStep, hpc, ↓reduceIte]
    split <;> rfl
  | failing why =>
    apply canStep_of_partyStep (a := .sup (.swap why (s.pending.map Prod.snd))) hs.running rfl
    simp [partyStep, supStep, hpc]
  | delivering why =>
    by_cases htodo : (s.jobs .supervisor).todo = []
    · apply canStep_of_partyStep (a := .sup (.delivered why)) hs.running rfl
      simp [partyStep, supStep, hpc, htodo]
    · exact deliver_canStep hs.running ho (by simp [Sys.delivering, hpc]) htodo
  | counting =>
    apply canStep_of_partyStep (a := .sup .count) hs.running rfl
    simp [partyStep, supStep, hpc]
  | settingDead =>
    apply canStep_of_partyStep (a := .sup .setDead) hs.running rfl
    simp [partyStep, supStep, hpc]
  | settingRestarting =>
    apply canStep_of_partyStep (a := .sup .setRestarting) hs.running rfl
    simp [partyStep, supStep, hpc]
  | backingOff =>
    apply canStep_of_partyStep (a := .sup .timer) hs.running rfl
    simp [partyStep, supStep, hpc]
  | settingClosed =>
    apply canStep_of_partyStep (a := .sup .setClosed) hs.running rfl
    simp [partyStep, supStep, hpc]
  | spawning =>
    apply canStep_of_partyStep (a := .sup (.spawn true)) hs.running rfl
    simp [partyStep, supStep, hpc]
  | settingRunning =>
    apply canStep_of_partyStep (a := .sup .setRunning) hs.running rfl
    simp [partyStep, supStep, hpc]

/-- The writer is gone or finds nothing to take, and the supervisor waits for it or is gone. -/
structure Quiet (s : Sys) : Prop where
  reaped : s.child.wait = .returned
  notStopped : s.stop = false
  reader : s.reader = .exited
  writer : s.writer = .exited ∨ (s.writer = .selecting ∧ s.outbound = [])
  sup : s.sup.pc = .returned ∨ (s.sup.pc = .joiningWriter ∧ s.writer ≠ .exited)

theorem Quiet.not_canStep (hs : Quiet s) (cfg : Config) : ¬ CanStep cfg s := by
  rintro ⟨a, t, hown, h⟩
  obtain ⟨-, h⟩ := (step_eq_some_iff cfg s t a).mp h
  cases a with
  | env a =>
    cases a with
    | waitReturns => simp [partyStep, envStep, hs.reaped] at h
    | _ => cases hown
  | writer a =>
    rcases hs.writer with hw | ⟨hw, hout⟩
    · cases a <;> simp [partyStep, writerStep, hw] at h
    · cases a <;> simp [partyStep, writerStep, hw, hout, hs.notStopped] at h
  | reader a => cases a <;> simp [partyStep, readerStep, hs.reader] at h
  | deliver p a =>
    have hdelivering : s.delivering p = false := by
      cases p with
      | reader => simp [Sys.delivering, hs.reader]
      | supervisor => rcases hs.sup with hpc | ⟨hpc, -⟩ <;> simp [Sys.delivering, hpc]
    cases a <;> simp [partyStep, deliverStep, hdelivering] at h
  | sup a =>
    rcases hs.sup with hpc | ⟨hpc, hw⟩
    · cases a <;> simp [partyStep, supStep, hpc] at h
    · cases a <;> simp [partyStep, supStep, hpc, hw] at h
  | _ => cases hown

theorem quiet_of_writerWaits (hs : Crashed s) (hreaped : Reaped s)
    (h : WriterWaits s) : Quiet s where
  reaped := hreaped.past (by rw [h.1]; rfl)
  notStopped := hs.notStopped
  reader := h.2.2.2
  writer := .inr ⟨h.2.1, h.2.2.1⟩
  sup := .inr ⟨h.1, by simp [h.2.1]⟩

theorem quiet_of_returned (hs : Crashed s) (hc : Control s) (hreaped : Reaped s)
    (h : s.sup.pc = .returned) : Quiet s where
  reaped := (hreaped.returned h).resolve_right hs.not_stopping
  notStopped := hs.notStopped
  reader := ((hc.returned h).resolve_right hs.not_stopping).2
  writer := .inl ((hc.returned h).resolve_right hs.not_stopping).1
  sup := .inl h

theorem canStep_iff (h : run (step cfg) init acts = some s) (hs : Crashed s) :
    CanStep cfg s ↔ ¬ (WriterWaits s ∨ s.sup.pc = .returned) := by
  have hc := (run_control cfg acts h).1
  have ho := run_owned cfg acts s h
  have hreaped := run_reaped h
  have hheld := run_holdsChannel h
  constructor
  · intro hstep hblocked
    rcases hblocked with hwaits | hreturned
    · exact (quiet_of_writerWaits hs hreaped hwaits).not_canStep cfg hstep
    · exact (quiet_of_returned hs hc hreaped hreturned).not_canStep cfg hstep
  · intro hblocked
    by_cases hjoin : s.sup.pc = .joiningWriter
    · obtain ⟨hwriter, hreader, -⟩ := hc.started (.inr hjoin)
      by_cases hw : s.writer = .exited
      · apply canStep_of_partyStep (a := .sup .joinWriter) hs.running rfl
        simp [partyStep, supStep, hjoin, hw]
      by_cases hr : s.reader = .exited
      · apply writer_canStep hs hwriter hw
        intro hselecting hout
        exact hblocked (.inl ⟨hjoin, hselecting, hout, hr⟩)
      · exact reader_canStep hs ho hheld hreader hr
    by_cases hjoinReader : s.sup.pc = .joiningReader
    · by_cases hr : s.reader = .exited
      · apply canStep_of_partyStep (a := .sup .joinReader) hs.running rfl
        simp [partyStep, supStep, hjoinReader, hr]
      · exact reader_canStep hs ho hheld (hc.joiningReader hjoinReader).2 hr
    · apply sup_canStep hs hc ho hjoin hjoinReader
      exact fun hreturned => hblocked (.inr hreturned)

def starved (s : Sys) : Bool := decide (s.writer = .selecting ∧ s.outbound = [])

def isInsert : Act → Bool
  | .call _ .insert => true
  | _ => false

/-- An exit is learnt while the writer can fail or has ended; nothing registers after the failure.
-/
def WakesWriter (cfg : Config) (s : Sys) (a : Act) : Prop :=
  (a = .sup .childExited → starved s = false) ∧ (isInsert a = true → closing cfg s.sup = false)

instance (cfg : Config) (s : Sys) (a : Act) : Decidable (WakesWriter cfg s a) := by
  unfold WakesWriter
  infer_instance

/-- While the supervisor waits for the writer, the writer finds a message to fail on. -/
def Woken (s : Sys) : Prop :=
  s.sup.pc = .joiningWriter → s.child.stdinClosed = true ∧ (s.writer = .selecting → s.outbound ≠ [])

theorem callTo_outbound {c : ℕ} {a : CallAct}
    (h : CallTo cfg s c a t) (hs : s.outbound ≠ []) : t.outbound ≠ [] := by
  cases h <;> simp [Sys.setPc, Sys.setCall, hs]

theorem closeTo_outbound {a : CloseAct} (h : CloseTo s a t)
    (hs : s.outbound ≠ []) : t.outbound ≠ [] := by
  cases h <;> simp [hs]

theorem step_finds (ha : ∀ b, a ≠ .sup b)
    (h : step cfg s a = some t) (hclosed : s.child.stdinClosed = true)
    (hs : s.writer = .selecting → s.outbound ≠ []) (ht : t.writer = .selecting) :
    t.outbound ≠ [] := by
  cases (step_to cfg s t a h).2 with
  | sup a => exact absurd rfl (ha a)
  | call c a hto =>
    rw [hto.frame] at ht
    exact callTo_outbound hto (hs ht)
  | close a hto =>
    rw [hto.frame] at ht
    exact closeTo_outbound hto (hs ht)
  | writer a hto =>
    cases hto with
    | write m hpc halive hopen => exact absurd hclosed hopen
    | _ => cases ht
  | reader a hto | deliver p a hto | env a hto =>
    rw [hto.frame] at ht ⊢
    exact hs ht

theorem supTo_woken {a : SupAct} (hs : Woken s)
    (hguard : WakesWriter cfg s (.sup a)) (h : SupTo cfg s a t) : Woken t := by
  intro hpc
  cases h with
  | childExited =>
    refine ⟨rfl, fun hselecting hout => ?_⟩
    exact of_decide_eq_false (hguard.1 rfl) ⟨hselecting, hout⟩
  | launchNil => exact hs hpc
  | _ => cases hpc

theorem step_woken (hs : Woken s)
    (hguard : WakesWriter cfg s a) (h : step cfg s a = some t) : Woken t := by
  rcases step_sup_or_later cfg h with ⟨b, rfl, hsup⟩ | ⟨ha, hlater⟩
  · exact supTo_woken hs hguard hsup
  · intro hpc
    rw [hlater.sup] at hpc
    obtain ⟨hclosed, hfinds⟩ := hs hpc
    exact ⟨hlater.stdinClosed hclosed, step_finds ha h hclosed hfinds⟩

theorem step_stopping_or_emptied (hs : Stopping s ∨ Emptied cfg s) (hguard : WakesWriter cfg s a)
    (h : step cfg s a = some t) : Stopping t ∨ Emptied cfg t := by
  by_cases hstop : Stopping s
  · left
    rcases step_sup_or_later cfg h with ⟨b, -, hsup⟩ | ⟨-, hlater⟩
    · rw [hsup.frame]
      exact hstop
    · exact hlater.stopping hstop
  · right
    refine step_emptied (hs.resolve_left hstop) ?_ h
    cases (step_to cfg s t a h).2 with
    | call c a =>
      cases a with
      | insert => exact hguard.2 rfl
      | _ => trivial
    | sup a hto =>
      -- a backoff is only broken off by a stop
      cases hto with
      | backoffStop hpc hset => exact absurd (.inl hset) hstop
      | backoffCtx hpc hset => exact absurd (.inr hset) hstop
      | _ => trivial
    | _ => trivial

/-- Recovery is never blocked where an exit is learnt while the writer can fail or has ended and
nothing is registered after the last mass failure; the blocked states are those where the supervisor
waits for an idle writer or has returned. -/
theorem crash_recovery (cfg : Config) (acts : List Act) (s : Sys)
    (h : run (step cfg) init acts = some s) :
    (Meets (step cfg) (WakesWriter cfg) init acts → Crashed s → CanStep cfg s) ∧
    (Crashed s → (CanStep cfg s ↔ ¬ (WriterWaits s ∨ s.sup.pc = .returned))) := by
  refine ⟨?_, canStep_iff h⟩
  intro hmeets hs
  have hwoken : Woken s ∧ (Stopping s ∨ Emptied cfg s) := by
    refine guarded_invariant (step cfg) (WakesWriter cfg) (fun _ => True)
      (fun s => Woken s ∧ (Stopping s ∨ Emptied cfg s)) ?_ (fun _ _ _ => trivial) ?_ hmeets h
    · exact ⟨(by cases ·), .inr (by cases ·)⟩
    · intro s a t _ hs hguard hstep
      exact ⟨step_woken hs.1 hguard hstep, step_stopping_or_emptied hs.2 hguard hstep⟩
  apply (canStep_iff h hs).mpr
  rintro (hwaits | hreturned)
  · exact (hwoken.1 hwaits.1).2 hwaits.2.1 hwaits.2.2.1
  · have hemptied := hwoken.2.resolve_left hs.not_stopping
    exact hs.pending (hemptied (by simp [closing, hreturned]))

def exitBeforeTake : List Act :=
  List.flatten [[.sup .launch], callRequest 0 .execute,
    [.env .childExits, .env .waitReturns, .sup .childExited, .reader .endOfInput]]

def exitAfterWrite : List Act :=
  List.flatten [[.sup .launch], callRequest 0 .execute,
    [.writer (.take (.request 0) []), .writer (.write (.request 0)),
     .env .childExits, .env .waitReturns, .sup .childExited, .reader .endOfInput]]

instance (s : Sys) : Decidable (WriterWaits s) := by
  unfold WriterWaits
  infer_instance

instance (s : Sys) : Decidable (Crashed s) :=
  decidable_of_iff (s.child.alive = false ∧ s.stop = false ∧ s.ctxDone = false ∧
    s.pending ≠ [] ∧ s.panicked = none)
    ⟨fun ⟨h₁, h₂, h₃, h₄, h₅⟩ => ⟨h₁, h₂, h₃, h₄, h₅⟩,
      fun ⟨h₁, h₂, h₃, h₄, h₅⟩ => ⟨h₁, h₂, h₃, h₄, h₅⟩⟩

theorem exit_before_take_goes_on :
    ∃ s, run (step sampleConfig) init exitBeforeTake = some s ∧ Crashed s ∧
      CanStep sampleConfig s := by
  obtain ⟨s, hrun, hcrashed⟩ := exists_run_of_check (step sampleConfig) Crashed init
    exitBeforeTake (by decide)
  have hmeets : Meets (step sampleConfig) (WakesWriter sampleConfig) init exitBeforeTake :=
    meets_of_checkMeets _ _ _ _ (by decide)
  exact ⟨s, hrun, hcrashed, (crash_recovery sampleConfig exitBeforeTake s hrun).1 hmeets hcrashed⟩

/-- The writer never learns that the pipe is closed, and the request stays pending. -/
theorem exit_after_write_blocks :
    ∃ s, run (step sampleConfig) init exitAfterWrite = some s ∧ Crashed s ∧
      ¬ CanStep sampleConfig s := by
  obtain ⟨s, hrun, hcrashed, hwaits⟩ := exists_run_of_check (step sampleConfig)
    (fun s => Crashed s ∧ WriterWaits s) init exitAfterWrite (by decide)
  have hquiet := quiet_of_writerWaits hcrashed (run_reaped hrun) hwaits
  exact ⟨s, hrun, hcrashed, hquiet.not_canStep sampleConfig⟩

end IronGolem.CrashRecovery
