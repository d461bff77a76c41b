import IronGolem.PendingLedger

/-!
Safety of the channels of pending requests in every interleaving. The ownership of requests makes
the answer channel receive at most one value, and no channel is ever closed twice.
-/
namespace IronGolem.ChannelSafety

open GoChannels RuntimeClient ClientSteps PendingLedger TransitionRuns List Option

variable {t : Sys}

theorem deliverTo_panicked {cfg : Config} {s : Sys} {p : Party} {a : DeliverAct}
    (ho : Owned cfg (ledger s)) (h : DeliverTo s p a t) : t.panicked = s.panicked := by
  have hjob : ∀ c rest, (s.jobs p).todo = c :: rest → Answering (s.calls c) (s.jobs p).stage :=
    fun c rest htodo => (ho.jobs p c rest htodo).1
  cases h with
  | send | closeDone | closeEvents => rfl
  | sendPanics c rest hdelivering htodo hstage hclosed =>
    have hold := hjob c rest htodo
    rw [hstage] at hold
    rw [hold.1.2] at hclosed
    cases hclosed
  | closeDonePanics c rest hdelivering htodo hstage hclosed =>
    have hold := hjob c rest htodo
    rw [hstage] at hold
    rw [hold.2.1] at hclosed
    cases hclosed
  | closeEventsPanics c rest hdelivering htodo hstage hclosed =>
    have hold := hjob c rest htodo
    rw [hstage] at hold
    exact absurd hold.2 hclosed

def work (job : Job) : ℕ :=
  3 * job.todo.length + match job.stage with
    | .send => 2
    | .closeDone => 1
    | .closeEvents => 0

variable {cfg : Config} {s : Sys} {p : Party} {c : ℕ} {rest : List ℕ}

/-- The next step of a party keeps the requests behind the first, which is answered by the send. -/
theorem deliver_next (ho : Owned cfg (ledger s)) (hdelivering : s.delivering p = true)
    (htodo : (s.jobs p).todo = c :: rest) :
    ∃ a t, deliverStep s p a = some t ∧ work (t.jobs p) < work (s.jobs p) ∧
      rest ⊆ (t.jobs p).todo ∧ ((s.jobs p).stage = .send → (t.calls c).done.sent.length = 1) := by
  have hjob : Answering (s.calls c) (s.jobs p).stage := (ho.jobs p c rest htodo).1
  cases hstage : (s.jobs p).stage with
  | send =>
    -- nothing was sent on the channel, so its one place is free
    rw [hstage] at hjob
    have hroom := Chan.hasRoom_of_unused doneCapacity _ (by decide) hjob.1
    have hstep : deliverStep s p (.send c rest) = some ((s.setCall c { s.calls c with
        done := { (s.calls c).done with
          sent := (s.calls c).done.sent ++ [(s.jobs p).value] } }).setJob p
            { s.jobs p with stage := .closeDone }) := by
      simp only [deliverStep, hdelivering, htodo, hstage, hroom, or_true, and_self, ↓reduceIte]
      rw [Chan.send_of_open _ _ hjob.1.2]
    refine ⟨_, _, hstep, ?_⟩
    simp [Sys.setJob, Sys.setCall, work, htodo, hstage, hjob.1.1]
  | closeDone =>
    rw [hstage] at hjob
    have hstep : deliverStep s p (.closeDone c rest) = some ((s.setCall c { s.calls c with
        done := { (s.calls c).done with closed := true } }).setJob p
          (if (s.calls c).events.isSome then { s.jobs p with stage := .closeEvents }
            else { s.jobs p with todo := rest, stage := .send })) := by
      simp only [deliverStep, hdelivering, htodo, hstage, and_self, ↓reduceIte]
      rw [Chan.close_of_open _ hjob.2.1]
    refine ⟨_, _, hstep, ?_⟩
    by_cases hevents : (s.calls c).events.isSome = true
    · simp [Sys.setJob, Sys.setCall, work, htodo, hstage, hevents]
    · rw [if_neg hevents]
      simp only [Sys.setJob, Sys.setCall, Function.update_self, work, htodo, hstage, length_cons]
      exact ⟨by omega, List.Subset.refl rest, by simp⟩
  | closeEvents =>
    rw [hstage] at hjob
    obtain ⟨ch, hch, hopen⟩ := map_eq_some_iff.mp hjob.2
    have hstep : deliverStep s p (.closeEvents c rest) = some ((s.setCall c { s.calls c with
        events := some { ch with closed := true } }).setJob p
          { s.jobs p with todo := rest, stage := .send }) := by
      simp only [deliverStep, hdelivering, htodo, hstage, and_self, ↓reduceIte]
      rw [hch, bind_some, Chan.close_of_open _ hopen]
    refine ⟨_, _, hstep, ?_⟩
    simp only [Sys.setJob, Sys.setCall, Function.update_self, work, htodo, hstage, length_cons]
    exact ⟨by omega, List.Subset.refl rest, by simp⟩

variable {a : Act}

theorem step_panicked (ho : Owned cfg (ledger s)) (h : step cfg s a = some t) :
    t.panicked = none ∨
      (t.panicked = some .nilHandle ∧ s.sup.pc = .launch ∧ s.sup.cmd = false) ∨
      (t.panicked = some .sendOnClosedEvents ∧ ∃ c evt ch, s.reader = .eventHeld c evt ∧
        (s.calls c).events = some ch ∧ ch.closed = true) := by
  obtain ⟨hlive, hto⟩ := step_to cfg s t a h
  cases hto with
  | call c a hto | close a hto | writer a hto | env a hto => exact .inl (by rw [hto.frame, hlive])
  | deliver p a hto => exact .inl (by rw [deliverTo_panicked ho hto, hlive])
  | sup a hto =>
    cases hto with
    | launchNil hpc hcmd => exact .inr (.inl ⟨rfl, hpc, hcmd⟩)
    | _ => exact .inl hlive
  | reader a hto =>
    cases hto with
    | sendEventPanics c evt ch hpc hevents hclosed =>
      exact .inr (.inr ⟨rfl, c, evt, ch, hpc, hevents, hclosed⟩)
    | _ => exact .inl hlive

def eventsClosed (s : Sys) (c : ℕ) : Option Bool := (s.calls c).events.map Chan.closed

theorem deliverTo_eventsClosed {a : DeliverAct}
    (h : DeliverTo s p a t) (hclose : ∀ rest, a ≠ .closeEvents c rest) :
    eventsClosed t c = eventsClosed s c ∧ (t.calls c).pc = (s.calls c).pc := by
  unfold eventsClosed
  cases h with
  | sendPanics | closeDonePanics | closeEventsPanics => exact ⟨rfl, rfl⟩
  | send d rest | closeDone d rest =>
    by_cases hd : d = c
    · subst hd
      simp [Sys.setJob, Sys.setCall]
    · simp [Sys.setJob, Sys.setCall, Ne.symm hd]
  | closeEvents d rest =>
    have hd : d ≠ c := by
      rintro rfl
      exact hclose rest rfl
    simp [Sys.setJob, Sys.setCall, Ne.symm hd]

theorem step_eventsClosed (h : step cfg s a = some t) (hearly : early (s.calls c).pc = false)
    (hclose : ∀ p rest, a ≠ .deliver p (.closeEvents c rest)) :
    eventsClosed t c = eventsClosed s c ∧ early (t.calls c).pc = false := by
  by_cases ha : ∃ p b, a = .deliver p b
  · obtain ⟨p, b, rfl⟩ := ha
    cases (step_to cfg s t _ h).2 with
    | deliver p b hto =>
      obtain ⟨hsame, hpc⟩ := deliverTo_eventsClosed hto fun rest hb => hclose p rest (by rw [hb])
      rw [hpc]
      exact ⟨hsame, hearly⟩
  · push Not at ha
    rcases step_sameUse c ha h with ⟨kind, rfl⟩ | ⟨huse, hpc⟩
    · -- a call that begins was idle
      cases (step_to cfg s t _ h).2 with
      | call c a hto =>
        cases hto with
        | begin kind hpc =>
          rw [hpc] at hearly
          cases hearly
    · refine ⟨huse.2.2, ?_⟩
      by_contra hlate
      rw [hpc (by simpa using hlate)] at hearly
      cases hearly

variable {evt : EventNotification}

theorem eventTarget_mem
    (h : eventTarget s evt = some c) : c ∈ (ledger s).inMap ∧ (s.calls c).events.isSome = true := by
  unfold eventTarget at h
  rw [filter_eq_some_iff] at h
  obtain ⟨pre, post, hpending, -⟩ := lookup_eq_some_iff.mp h.1
  refine ⟨?_, h.2⟩
  change c ∈ s.pending.map Prod.snd
  rw [hpending]
  simp

theorem eventTarget_open (ho : Owned cfg (ledger s)) (h : eventTarget s evt = some c) :
    early (s.calls c).pc = false ∧ eventsClosed s c = some false := by
  obtain ⟨hmem, hsome⟩ := eventTarget_mem h
  have hheld : c ∈ (ledger s).held := mem_append_left _ hmem
  constructor
  · by_contra hearly
    rw [Bool.not_eq_false] at hearly
    exact (ho.early c hearly).1 hheld
  · have hopen : (s.calls c).events.map Chan.closed ≠ some true := (ho.inMap c hmem).2
    obtain ⟨ch, hch⟩ := isSome_iff_exists.mp hsome
    unfold eventsClosed
    rw [hch] at hopen ⊢
    simpa using hopen

theorem eventHeld_cases (h : step cfg s a = some t) (ht : t.reader = .eventHeld c evt) :
    s.reader = .eventHeld c evt ∨ (eventTarget s evt = some c ∧ t.calls = s.calls) := by
  cases (step_to cfg s t a h).2 with
  | call d a hto | close a hto | writer a hto | env a hto | deliver p a hto =>
    exact .inl (by rw [← ht, hto.frame])
  | sup a hto =>
    left
    cases hto with
    | launch => cases ht
    | _ => exact ht
  | reader a hto =>
    cases hto with
    | lookupEvent evt' d hpc htarget =>
      cases ht
      exact .inr ⟨htarget, rfl⟩
    | sendEventPanics => exact .inl ht
    | _ => cases ht

/-- The request whose event the reader holds has an events channel, and it is open. -/
def HoldsOpen (s : Sys) : Prop :=
  ∀ c evt, s.reader = .eventHeld c evt →
    early (s.calls c).pc = false ∧ eventsClosed s c = some false

def KeepsHeldOpen (s : Sys) (a : Act) : Prop :=
  ∀ c rest evt, a = .deliver .supervisor (.closeEvents c rest) → s.reader ≠ .eventHeld c evt

theorem step_holdsOpen (ho : Owned cfg (ledger s))
    (hs : HoldsOpen s) (hguard : KeepsHeldOpen s a) (h : step cfg s a = some t) : HoldsOpen t := by
  intro c evt ht
  rcases eventHeld_cases h ht with hr | ⟨htarget, hcalls⟩
  · obtain ⟨hearly, hopen⟩ := hs c evt hr
    have hclose : ∀ p rest, a ≠ .deliver p (.closeEvents c rest) := by
      rintro p rest rfl
      cases p with
      | supervisor => exact hguard c rest evt rfl hr
      | reader =>
        cases (step_to cfg s t _ h).2 with
        | deliver p a hto =>
          have hdelivering := hto.delivering
          simp [Sys.delivering, hr] at hdelivering
    obtain ⟨hsame, hlate⟩ := step_eventsClosed h hearly hclose
    exact ⟨hlate, hsame.trans hopen⟩
  · unfold eventsClosed
    rw [hcalls]
    exact eventTarget_open ho htarget

/-- No call is answered twice and no panic comes from a `done` channel or a second close. -/
def AnsweredOnce (s : Sys) : Prop :=
  (∀ c, (s.calls c).done.sent.length ≤ 1) ∧ s.panicked ≠ some .sendOnClosedDone ∧
    s.panicked ≠ some .closeOfClosedDone ∧ s.panicked ≠ some .closeOfClosedEvents

variable {acts : List Act}

theorem run_answeredOnce (h : run (step cfg) init acts = some s) : AnsweredOnce s := by
  refine ⟨(run_owned cfg acts s h).once, ?_⟩
  rcases eq_nil_or_concat acts with rfl | ⟨acts, a, rfl⟩
  · cases h
    simp [init]
  · rw [concat_eq_append] at h
    obtain ⟨t, ht, hstep⟩ := (run_concat_iff (step cfg) init s acts a).mp h
    rcases step_panicked (run_owned cfg acts t ht) hstep with hp | ⟨hp, -⟩ | ⟨hp, -⟩ <;>
      simp [hp]

theorem run_holdsOpen
    (hmeets : Meets (step cfg) KeepsHeldOpen init acts) (h : run (step cfg) init acts = some s) :
    HoldsOpen s ∧ s.panicked ≠ some .sendOnClosedEvents := by
  refine guarded_invariant (step cfg) KeepsHeldOpen (fun s => Owned cfg (ledger s))
    (fun s => HoldsOpen s ∧ s.panicked ≠ some .sendOnClosedEvents) ?_ (run_owned cfg) ?_ hmeets h
  · refine ⟨?_, by simp [init]⟩
    intro c evt hr
    cases hr
  · rintro s a t ho ⟨hopen, -⟩ hguard hstep
    refine ⟨step_holdsOpen ho hopen hguard hstep, ?_⟩
    rcases step_panicked ho hstep with hp | ⟨hp, -⟩ | ⟨-, c, evt, ch, hr, hch, hclosed⟩
    · simp [hp]
    · simp [hp]
    · have hfalse := (hopen c evt hr).2
      unfold eventsClosed at hfalse
      rw [hch, map_some, hclosed] at hfalse
      cases hfalse

theorem sendEvent_panics
    {ch : Chan EventNotification} (hlive : s.panicked = none) (hr : s.reader = .eventHeld c evt)
    (hevents : (s.calls c).events = some ch) (hclosed : ch.closed = true) :
    step cfg s (.reader (.sendEvent c evt ch)) = some (s.abort .sendOnClosedEvents) := by
  rw [step_eq_some_iff]
  refine ⟨hlive, ?_⟩
  simp only [partyStep, readerStep]
  rw [if_pos ⟨hr, hevents⟩, if_pos (.inl hclosed), (Chan.send_eq_none_iff ch evt).mpr hclosed]

theorem panic_of_not_keepsHeldOpen
    (ho : Owned cfg (ledger s)) (hguard : ¬ KeepsHeldOpen s a) (h : step cfg s a = some t) :
    ∃ r u, step cfg t (.reader r) = some u ∧ u.panicked = some .sendOnClosedEvents := by
  unfold KeepsHeldOpen at hguard
  push Not at hguard
  obtain ⟨c, rest, evt, rfl, hr⟩ := hguard
  obtain ⟨hlive, hto⟩ := step_to cfg s t _ h
  cases hto with
  | deliver p a hto =>
    have hpanic := deliverTo_panicked ho hto
    rw [hlive] at hpanic
    cases hto with
    | closeEventsPanics => cases hpanic
    | closeEvents c rest ch hdelivering htodo hstage hevents hopen =>
      have hclosed : (((s.setCall c { s.calls c with
          events := some { ch with closed := true } }).setJob .supervisor
            { s.jobs .supervisor with todo := rest, stage := .send }).calls c).events =
              some { ch with closed := true } := by
        simp [Sys.setJob, Sys.setCall]
      exact ⟨.sendEvent c evt _, _, sendEvent_panics hpanic hr hclosed rfl, rfl⟩

/-- Each request is answered at most once and no channel is closed twice. A value is sent on a
closed channel only if the supervisor closed the channel whose event the reader holds. -/
theorem channel_safety (cfg : Config) (acts : List Act) (s : Sys)
    (h : run (step cfg) init acts = some s) :
    AnsweredOnce s ∧
    (Meets (step cfg) KeepsHeldOpen init acts → s.panicked ≠ some .sendOnClosedEvents) ∧
    ∀ a t, ¬ KeepsHeldOpen s a → step cfg s a = some t →
      ∃ r u, step cfg t (.reader r) = some u ∧ u.panicked = some .sendOnClosedEvents := by
  refine ⟨run_answeredOnce h, ?_, ?_⟩
  · exact fun hmeets => (run_holdsOpen hmeets h).2
  · exact fun a t hguard hstep =>
      panic_of_not_keepsHeldOpen (run_owned cfg acts s h) hguard hstep

def startedEvent : EventNotification := ⟨"r", "plan started"⟩

/-- An execute request is sent to the child, which answers with an event that the reader looks up.
-/
def eventInHand : List Act :=
  List.flatten [[.sup .launch], callRequest 0 .execute,
    [.writer (.take (.request 0) []), .writer (.write (.request 0)),
     .env (.childWrites (.event startedEvent)), .reader (.scan (.event startedEvent) []),
     .reader (.lookupEvent startedEvent 0)]]

/-- While the supervisor leaves the request alone, holding its event is harmless. -/
theorem event_in_hand_safe : ∃ s, run (step sampleConfig) init eventInHand = some s ∧
    AnsweredOnce s ∧ s.panicked ≠ some .sendOnClosedEvents := by
  obtain ⟨s, hs⟩ : ∃ s, run (step sampleConfig) init eventInHand = some s :=
    isSome_iff_exists.mp (by decide)
  have hmeets : Meets (step sampleConfig) KeepsHeldOpen init eventInHand := by
    rintro pre a post t hacts - c rest evt rfl
    have hmem : Act.deliver .supervisor (.closeEvents c rest) ∈ eventInHand := by simp [hacts]
    simp [eventInHand, callRequest] at hmem
  have hsafe := channel_safety sampleConfig eventInHand s hs
  exact ⟨s, hs, hsafe.1, hsafe.2.1 hmeets⟩

/-- Close is called before the event is sent, and the supervisor fails the request. -/
def closedUnderReader : List Act :=
  List.flatten [eventInHand, closeClient [0], answerExecute 0 [],
    [.reader (.sendEvent 0 startedEvent ⟨[], 0, true⟩)]]

/-- Closing the client while the reader holds an event panics the gateway. -/
theorem close_panics_reader :
    (run (step sampleConfig) init closedUnderReader).map Sys.panicked =
      some (some .sendOnClosedEvents) := by
  decide

end IronGolem.ChannelSafety
