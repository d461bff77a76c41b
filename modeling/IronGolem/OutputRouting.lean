import IronGolem.ChildOutput
import IronGolem.FailedRequests
import IronGolem.OrphanedCalls

/-!
Where the lines of the child go. A terminal response is handed to the one pending request with its
id, and a request gets no response but the one it was taken from the map for. An execute call does
not check what kind of response it was handed, so one of another kind ends it with neither a
response nor an error.
-/
namespace IronGolem.OutputRouting

open GoChannels RuntimeClient ClientSteps ClientControl PendingLedger ChannelSafety ChildOutput List
  OrphanedCalls FailedRequests TransitionRuns

def unsent (job : Job) : List ℕ := if job.stage = .send then job.todo else job.todo.tail

variable (s : Sys) (c : ℕ) (v : TerminalResponse)

/-- The value is on the answer channel of the call, or the reader is about to send it. -/
def HasValue : Prop :=
  v ∈ (s.calls c).done.sent ∨ ((s.jobs .reader).value = v ∧ c ∈ unsent (s.jobs .reader))

def Carries (r : Response) : Prop := HasValue s c (.response r)

/-- What only the reader sends: responses, and the error for the nil id. -/
def FromReader : Prop :=
  (∃ r, v = .response r) ∨ ∃ text, v = .failed (.rejected text)

def Takes : Act → Prop
  | .reader (.takeTerminal r d) => v = .response r ∧ c = d
  | .reader (.swap text order) => v = .failed (.rejected text) ∧ c ∈ order
  | _ => False

def SupervisorFails : Prop := ∀ v, FromReader v → (s.jobs .supervisor).value ≠ v

@[simp] theorem unsent_send (v : TerminalResponse) (todo : List ℕ) :
    unsent ⟨v, todo, .send⟩ = todo := by
  simp [unsent]

theorem unsent_subset (job : Job) : unsent job ⊆ job.todo := by
  unfold unsent
  split
  · exact List.Subset.refl _
  · exact (tail_sublist _).subset

variable {p : Party} {c : ℕ}

theorem sent_of_unsent {cfg : Config} {s : Sys} (ho : Owned cfg (ledger s))
    (hc : c ∈ unsent (s.jobs p)) : (s.calls c).done.sent = [] := by
  obtain ⟨d, rest, htodo⟩ := exists_cons_of_ne_nil (ne_nil_of_mem (unsent_subset (s.jobs p) hc))
  obtain ⟨hfirst, hrest⟩ : Answering (s.calls d) (s.jobs p).stage ∧
      ∀ e ∈ rest, Untouched (s.calls e) := ho.jobs p d rest htodo
  unfold unsent at hc
  rw [htodo] at hc
  split at hc
  · rename_i hstage
    rw [hstage] at hfirst
    rcases mem_cons.mp hc with rfl | hc
    · exact hfirst.1.1
    · exact (hrest c hc).1.1
  · exact (hrest c hc).1.1

variable {r : Response}

theorem not_carries_of_early {cfg : Config} {s : Sys}
    (ho : Owned cfg (ledger s)) (hearly : early (s.calls c).pc = true) : ¬ Carries s c r := by
  obtain ⟨hheld, huntouched⟩ := ho.early c hearly
  have hsent : (s.calls c).done.sent = [] := huntouched.1.1
  rintro (hin | ⟨-, hin⟩)
  · rw [hsent] at hin
    cases hin
  · apply hheld
    have htodo : c ∈ (s.jobs .reader).todo := unsent_subset _ hin
    exact mem_append_right _ (mem_append_right _ htodo)

variable {v : TerminalResponse}

theorem fault_ne_fromReader (why : Cause) (h : FromReader v) :
    TerminalResponse.failed why.fault ≠ v := by
  rcases h with ⟨r, rfl⟩ | ⟨text, rfl⟩
  · exact fun heq => nomatch heq
  · cases why <;> exact fun heq => nomatch heq

variable (cfg : Config) (s t : Sys) (a : Act)

theorem step_supervisorFails (hs : SupervisorFails s)
    (h : step cfg s a = some t) : SupervisorFails t := by
  have hsame : (t.jobs .supervisor).value = (s.jobs .supervisor).value → SupervisorFails t := by
    intro hvalue v hv
    rw [hvalue]
    exact hs v hv
  cases (step_to cfg s t a h).2 with
  | call c a hto | close a hto | writer a hto | env a hto => exact hsame (by rw [hto.frame])
  | reader a hto => exact hsame (by cases hto <;> simp [Sys.setJob, Sys.setCall, Sys.abort])
  | sup a hto =>
    cases hto with
    | swap why => exact fun v hv => by simpa [Sys.setJob] using fault_ne_fromReader why hv
    | _ => exact hsame rfl
  | deliver p a hto =>
    apply hsame
    cases p with
    | reader => cases hto <;> simp [Sys.setJob, Sys.setCall, Sys.abort]
    | supervisor =>
      cases hto with
      | closeDone c =>
        by_cases hevents : (s.calls c).events.isSome = true <;>
          simp [Sys.setJob, Sys.setCall, hevents]
      | _ => simp [Sys.setJob, Sys.setCall, Sys.abort]

variable {acts : List Act}

theorem run_supervisorFails {s : Sys}
    (h : run (step cfg) init acts = some s) : SupervisorFails s := by
  refine invariant (step cfg) SupervisorFails ?_ ?_ h
  · exact fun v hv => fault_ne_fromReader .stop hv
  · exact fun s a t hs hstep => step_supervisorFails cfg s t a hs hstep

theorem hasValue_of_same (v : TerminalResponse)
    (hsent : (t.calls c).done.sent = (s.calls c).done.sent)
    (hjob : t.jobs .reader = s.jobs .reader) : HasValue t c v ↔ HasValue s c v := by
  unfold HasValue
  rw [hsent, hjob]

theorem deliverTo_unsent {s t : Sys} {a : DeliverAct} (h : DeliverTo s p a t)
    (hsend : ∀ d rest, a ≠ .send d rest) : (t.jobs .reader).value = (s.jobs .reader).value ∧
      unsent (t.jobs .reader) = unsent (s.jobs .reader) := by
  cases p with
  | supervisor => cases h <;> simp [Sys.setJob, Sys.setCall, Sys.abort]
  | reader =>
    cases h with
    | send d rest | sendPanics d rest => exact absurd rfl (hsend d rest)
    | closeDonePanics | closeEventsPanics => exact ⟨rfl, rfl⟩
    | closeDone d rest hdelivering htodo hstage =>
      by_cases hevents : (s.calls d).events.isSome = true <;>
        simp [Sys.setJob, hevents, unsent, htodo, hstage]
    | closeEvents d rest ch hdelivering htodo hstage =>
      simp [Sys.setJob, unsent, htodo, hstage]

theorem deliverTo_hasValue {s t : Sys} {a : DeliverAct} (c : ℕ) (hv : FromReader v)
    (hs : SupervisorFails s) (h : DeliverTo s p a t) : HasValue t c v ↔ HasValue s c v := by
  by_cases ha : ∃ d rest, a = .send d rest
  · obtain ⟨d, rest, rfl⟩ := ha
    cases h with
    | sendPanics => exact Iff.rfl
    | send d rest hdelivering htodo hstage =>
      cases p with
      | supervisor =>
        refine or_congr ?_ Iff.rfl
        by_cases hd : c = d
        · subst hd
          simp [Sys.setJob, Sys.setCall, (hs v hv).symm]
        · simp [Sys.setJob, Sys.setCall, hd]
      | reader =>
        unfold HasValue
        have hbefore : unsent (s.jobs .reader) = d :: rest := by simp [unsent, hstage, htodo]
        rw [hbefore]
        by_cases hd : c = d
        · subst hd
          simp [Sys.setJob, Sys.setCall, unsent]
          tauto
        · simp [Sys.setJob, Sys.setCall, unsent, htodo, hd]
  · push Not at ha
    obtain ⟨hvalue, hunsent⟩ := deliverTo_unsent h ha
    unfold HasValue
    rw [deliverTo_sent c h ha, hvalue, hunsent]

theorem readerTo_hasValue {s t : Sys} {a : ReaderAct} (v : TerminalResponse)
    (hidle : Idle s) (hsent : (t.calls c).done.sent = (s.calls c).done.sent)
    (h : ReaderTo s a t) : HasValue t c v ↔ HasValue s c v ∨ Takes c v (.reader a) := by
  have hnone : s.reader ≠ .delivering → c ∉ unsent (s.jobs .reader) := by
    intro hr hc
    have hempty := hidle .reader (by simpa [Sys.delivering] using hr)
    have htodo := unsent_subset _ hc
    rw [hempty] at htodo
    cases htodo
  cases h with
  | takeTerminal r' d hpc | swap text order hpc =>
    have hbefore := hnone (by simp [hpc])
    unfold HasValue
    simp [Sys.setJob, hbefore, Takes, eq_comm]
  | _ => simpa [Takes] using hasValue_of_same s _ v hsent rfl

theorem step_hasValue (c : ℕ)
    (hv : FromReader v) (ho : Owned cfg (ledger s)) (hidle : Idle s) (hs : SupervisorFails s)
    (h : step cfg s a = some t) : HasValue t c v ↔ HasValue s c v ∨ Takes c v a := by
  have hsent : (∀ p b, a ≠ .deliver p b) → (t.calls c).done.sent = (s.calls c).done.sent := by
    intro ha
    rcases step_sent ho c h with hsame | ⟨p, rest, hact, -⟩
    · exact hsame
    · exact absurd hact (ha p _)
  cases (step_to cfg s t a h).2 with
  | deliver p a hto => simpa [Takes] using deliverTo_hasValue c hv hs hto
  | reader a hto => exact readerTo_hasValue v hidle (hsent (by simp)) hto
  | call d a hto | close a hto | writer a hto | env a hto =>
    simpa [Takes] using hasValue_of_same s t v (hsent (by simp)) (by rw [hto.frame])
  | sup a hto =>
    have hjob : t.jobs .reader = s.jobs .reader := by
      cases hto with
      | swap => simp [Sys.setJob, Sys.setSup]
      | _ => rfl
    simpa [Takes] using hasValue_of_same s t v (hsent (by simp)) hjob

theorem takes_response_iff (c : ℕ) (r : Response) (a : Act) :
    Takes c (.response r) a ↔ a = .reader (.takeTerminal r c) := by
  unfold Takes
  split
  · simp [eq_comm]
  · simp
  · rename_i h _
    simp only [false_iff]
    exact h r c

theorem step_carries (c : ℕ) (r : Response)
    (ho : Owned cfg (ledger s)) (hidle : Idle s) (hs : SupervisorFails s)
    (h : step cfg s a = some t) :
    Carries t c r ↔ Carries s c r ∨ a = .reader (.takeTerminal r c) := by
  rw [← takes_response_iff]
  exact step_hasValue cfg s t a c (.inl ⟨r, rfl⟩) ho hidle hs h

theorem run_carries {s : Sys} (c : ℕ) (r : Response) (h : run (step cfg) init acts = some s) :
    Carries s c r ↔ .reader (.takeTerminal r c) ∈ acts := by
  refine history_invariant (step cfg) (fun _ _ => True)
    (fun s => Owned cfg (ledger s) ∧ Idle s ∧ SupervisorFails s)
    (fun acts s => Carries s c r ↔ .reader (.takeTerminal r c) ∈ acts) ?_ ?_ ?_ s
    (fun _ _ _ _ _ _ => trivial) h
  · simp [Carries, HasValue, init, Chan.empty]
  · exact fun acts s hrun => ⟨run_owned cfg acts s hrun, (run_control cfg acts hrun).2,
      run_supervisorFails cfg hrun⟩
  · rintro acts s a t ⟨ho, hidle, hfails⟩ hs - hstep
    rw [step_carries cfg s t a c r ho hidle hfails hstep, hs, mem_append, mem_singleton, eq_comm]

/-- The response is on the channel of the call, or the reader sends it by its own next steps. -/
def Delivered (cfg : Config) (s : Sys) (c : ℕ) (r : Response) : Prop :=
  .response r ∈ (s.calls c).done.sent ∨
    (c ∈ (s.jobs .reader).todo ∧ (s.panicked = none →
      ∃ more t, (∀ a ∈ more, ∃ b, a = .deliver .reader b) ∧ run (step cfg) s more = some t ∧
        .response r ∈ (t.calls c).done.sent))

theorem delivered_of_taken {s : Sys}
    (h : run (step cfg) init acts = some s) (htaken : .reader (.takeTerminal r c) ∈ acts) :
    Delivered cfg s c r := by
  rcases (run_carries cfg c r h).mpr htaken with hsent | ⟨-, hunsent⟩
  · exact .inl hsent
  · have htodo := unsent_subset _ hunsent
    refine .inr ⟨htodo, fun hlive => ?_⟩
    have hdelivering : s.delivering .reader = true := by
      by_contra hidle
      rw [(run_control cfg acts h).2 .reader (by simpa using hidle)] at htodo
      cases htodo
    obtain ⟨more, t, hmore, hrun, hone⟩ :=
      answered_by_owner acts s h hlive hdelivering htodo
    refine ⟨more, t, hmore, hrun, ?_⟩
    have hreach : run (step cfg) init (acts ++ more) = some t := by
      rw [run_append, h]
      exact hrun
    have hcarries := (run_carries cfg c r hreach).mpr (mem_append_left more htaken)
    rcases hcarries with hsent | ⟨-, hleft⟩
    · exact hsent
    · rw [sent_of_unsent (run_owned cfg _ t hreach) hleft] at hone
      cases hone

/-- What the forwarding goroutine of an execute call hands to its caller. -/
structure ExecuteTerminal where
  response : Option Response
  err : Option CallError

def executeTerminal : CallResult → Option ExecuteTerminal
  | .executed r => some ⟨r, none⟩
  | .err e => some ⟨none, some e⟩
  | .ok _ => none

theorem step_other_call (h : step cfg s a = some t) (ha : ∀ b, a ≠ .call c b) :
    (t.calls c).kind = (s.calls c).kind ∧ (t.calls c).pc = (s.calls c).pc := by
  have hsame : t.calls = s.calls →
      (t.calls c).kind = (s.calls c).kind ∧ (t.calls c).pc = (s.calls c).pc := by
    intro hcalls
    rw [hcalls]
    exact ⟨rfl, rfl⟩
  cases (step_to cfg s t a h).2 with
  | close a hto | writer a hto | env a hto | sup a hto => exact hsame (by rw [hto.frame])
  | call d a hto =>
    have hd : c ≠ d := by
      rintro rfl
      exact ha a rfl
    cases hto <;> simp [Sys.setPc, Sys.setCall, hd]
  | reader a hto =>
    cases hto with
    | sendEvent d evt ch => by_cases hd : c = d <;> simp [Sys.setCall, hd]
    | _ => exact hsame rfl
  | deliver p a hto =>
    cases hto with
    | sendPanics | closeDonePanics | closeEventsPanics => exact ⟨rfl, rfl⟩
    | send d | closeDone d | closeEvents d =>
      by_cases hd : c = d <;> simp [Sys.setJob, Sys.setCall, hd]

theorem callTo_kind {cfg : Config} {s t : Sys} {a : CallAct} (h : CallTo cfg s c a t)
    (hbegin : ∀ kind, a ≠ .begin kind) : (t.calls c).kind = (s.calls c).kind := by
  cases h with
  | begin kind => exact absurd rfl (hbegin kind)
  | _ => simp [Sys.setPc, Sys.setCall]

/-- No execute call gets a response of another kind or ends with nothing. -/
structure Matched (s : Sys) : Prop where
  kinds : ∀ c r, Carries s c r → (s.calls c).kind = .execute → r.kind = .execute
  outcome : ∀ c, (s.calls c).pc ≠ .returned (.executed none)

theorem step_matched_kinds (ho : Owned cfg (ledger s))
    (hidle : Idle s) (hfails : SupervisorFails s) (hs : Matched s) (hguard : Readable s a)
    (h : step cfg s a = some t) (c : ℕ) (r : Response) (hc : Carries t c r)
    (hkind : (t.calls c).kind = .execute) : r.kind = .execute := by
  rcases (step_carries cfg s t a c r ho hidle hfails h).mp hc with hold | rfl
  · apply hs.kinds c r hold
    by_cases ha : ∃ b, a = .call c b
    · obtain ⟨b, rfl⟩ := ha
      cases (step_to cfg s t _ h).2 with
      | call c b hto =>
        rw [← callTo_kind hto]
        · exact hkind
        · rintro kind rfl
          cases hto with
          | begin kind hpc => exact not_carries_of_early ho (by rw [hpc]; rfl) hold
    · push Not at ha
      rw [← (step_other_call cfg s t a h ha).1]
      exact hkind
  · rw [(step_other_call cfg s t _ h (by simp)).1] at hkind
    exact hguard hkind

theorem settle_ne_executed_none (kind : CallKind) (reqID : String)
    (h : ∀ r, v = .response r → kind = .execute → r.kind = .execute) :
    settle kind reqID v ≠ .executed none := by
  cases v with
  | failed err => exact fun heq => nomatch heq
  | response r =>
    by_cases hkind : kind = .execute
    · simp [settle, hkind, h r rfl hkind]
    · by_cases hsame : r.kind = kind ∧ r.requestID = reqID <;> simp [settle, hkind, hsame]

theorem callTo_outcome {cfg : Config} {s t : Sys} {a : CallAct} (hs : Matched s)
    (h : CallTo cfg s c a t) : (t.calls c).pc ≠ .returned (.executed none) := by
  cases h with
  | receive v hpc hv =>
    have hmem : v ∈ (s.calls c).done.sent :=
      (drop_sublist _ _).subset (mem_of_mem_head? hv)
    have hne := settle_ne_executed_none (s.calls c).kind (cfg.newID c) (v := v) ?_
    · simpa [Sys.setCall] using hne
    · rintro r rfl hkind
      exact hs.kinds c r (.inl hmem) hkind
  | takeEvent ch => simpa [Sys.setCall] using hs.outcome c
  | _ => simp [Sys.setPc, Sys.setCall, newCall]

theorem run_matched {s : Sys}
    (hmeets : Meets (step cfg) Readable init acts) (h : run (step cfg) init acts = some s) :
    Matched s := by
  refine guarded_invariant (step cfg) Readable
    (fun s => Owned cfg (ledger s) ∧ Idle s ∧ SupervisorFails s) Matched ?_ ?_ ?_ hmeets h
  · exact ⟨by simp [Carries, HasValue, init, Chan.empty], by simp [init]⟩
  · exact fun acts s hrun => ⟨run_owned cfg acts s hrun, (run_control cfg acts hrun).2,
      run_supervisorFails cfg hrun⟩
  · rintro s a t ⟨ho, hidle, hfails⟩ hs hguard hstep
    refine ⟨step_matched_kinds cfg s t a ho hidle hfails hs hguard hstep, ?_⟩
    intro c
    by_cases ha : ∃ b, a = .call c b
    · obtain ⟨b, rfl⟩ := ha
      cases (step_to cfg s t _ hstep).2 with
      | call c b hto => exact callTo_outcome hs hto
    · push Not at ha
      rw [(step_other_call cfg s t a hstep ha).2]
      exact hs.outcome c

theorem taken_of_pending
    (ho : Owned cfg (ledger s)) (h : step cfg s a = some t) (hline : handled a = some (.terminal r))
    (hpending : s.pending.lookup r.requestID = some c) : a = .reader (.takeTerminal r c) := by
  cases (step_to cfg s t a h).2 with
  | call | close | writer | deliver | sup | env => cases hline
  | reader a hto =>
    cases hto with
    | takeTerminal r' d hpc hid hlookup =>
      cases hline
      rw [hpending] at hlookup
      cases hlookup
      rfl
    | noWaiter r' hpc hid hlookup =>
      cases hline
      rw [hpending] at hlookup
      cases hlookup
    | rejected r' hpc hid =>
      cases hline
      rw [newID_of_lookup ho hpending] at hid
      exact absurd hid (cfg.newID_ne_nil c)
    | _ => cases hline

/-- How the child's output has been routed in a state reached by the actions. -/
structure Routed (cfg : Config) (acts : List Act) (s : Sys) : Prop where
  /-- Every line was handled in its turn or is still to be read. -/
  lines : acts.filterMap written = acts.filterMap handled ++ unread s
  /-- Lines of a child that was launched wait only for a reader that runs. -/
  reading : s.reader = .exited → s.child.wait ≠ .off → unread s = []
  /-- A terminal response handled while its id is pending is taken for that call. -/
  pending : ∀ pre a post t r c, acts = pre ++ a :: post → run (step cfg) init pre = some t →
    handled a = some (.terminal r) → t.pending.lookup r.requestID = some c →
    a = .reader (.takeTerminal r c)
  /-- What is taken for a call carries its id and is delivered to it. -/
  taken : ∀ r c, .reader (.takeTerminal r c) ∈ acts →
    r.requestID = cfg.newID c ∧ Delivered cfg s c r
  /-- A call gets no response but the ones taken for it. -/
  only : ∀ r c, .response r ∈ (s.calls c).done.sent → .reader (.takeTerminal r c) ∈ acts
  /-- A caller receives event lines with its id, in their order. -/
  events : ∀ c, (receivedEvents s c).Sublist (eventsFor (cfg.newID c) (acts.filterMap written))
  /-- An execute call ends with exactly one of a response and an error. -/
  outcome : ∀ c result terminal, (s.calls c).pc = .returned result →
    executeTerminal result = some terminal → terminal.response.isSome = terminal.err.isNone

theorem newID_of_taken {s : Sys}
    (h : run (step cfg) init acts = some s) (htaken : .reader (.takeTerminal r c) ∈ acts) :
    r.requestID = cfg.newID c := by
  obtain ⟨pre, post, rfl⟩ := append_of_mem htaken
  rw [run_append] at h
  obtain ⟨t, ht, hrest⟩ := Option.bind_eq_some_iff.mp h
  obtain ⟨u, hu, -⟩ := Option.bind_eq_some_iff.mp hrest
  cases (step_to cfg t u _ hu).2 with
  | reader a hto =>
    cases hto with
    | takeTerminal r c hpc hid hlookup => exact newID_of_lookup (run_owned cfg pre t ht) hlookup

/-- In every run with a readable output the child's output is routed as it should be. -/
theorem routed_of_readable (cfg : Config) (acts : List Act) (s : Sys)
    (h : run (step cfg) init acts = some s) (hmeets : Meets (step cfg) Readable init acts) :
    Routed cfg acts s := by
  obtain ⟨hdrained, hlines⟩ := run_lines cfg hmeets h
  refine ⟨hlines, ?_, ?_, ?_, ?_, ?_, ?_⟩
  · intro hexited hwait
    rcases hdrained hexited with hoff | ⟨hempty, -⟩
    · exact absurd hoff hwait
    · simp [unread, inHand, hexited, hempty]
  · intro pre a post t r c hacts ht hline hpending
    rw [hacts, run_append, ht, Option.bind_some, run_cons] at h
    obtain ⟨u, hu, -⟩ := Option.bind_eq_some_iff.mp h
    exact taken_of_pending cfg t u a (run_owned cfg pre t ht) hu hline hpending
  · exact fun r c htaken =>
      ⟨newID_of_taken cfg h htaken, delivered_of_taken cfg h htaken⟩
  · exact fun r c hsent => (run_carries cfg c r h).mp (.inl hsent)
  · exact fun c => (receivedEvents_sublist c).trans (run_events cfg c h)
  · intro c result terminal hpc hterminal
    have houtcome := (run_matched cfg hmeets h).outcome c
    rw [hpc] at houtcome
    cases result with
    | ok r => cases hterminal
    | err e =>
      cases hterminal
      rfl
    | executed r =>
      cases r with
      | none => exact absurd rfl houtcome
      | some r =>
        cases hterminal
        rfl

def response (kind : CallKind) : Response := ⟨kind, "r", ""⟩

def answer (kind : CallKind) (rest : List Line) : List Act :=
  [.reader (.scan (.terminal (response kind)) rest),
   .reader (.takeTerminal (response kind) 0), .deliver .reader (.send 0 []),
   .deliver .reader (.closeDone 0 []), .deliver .reader (.closeEvents 0 []), .reader .delivered,
   .call 0 (.receive (.response (response kind)))]

def answered : List Act :=
  List.flatten [[.sup .launch], callRequest 0 .execute,
    [.env (.childWrites (.event startedEvent)),
     .env (.childWrites (.terminal (response .execute))),
     .reader (.scan (.event startedEvent) [.terminal (response .execute)]),
     .reader (.lookupEvent startedEvent 0), .reader (.sendEvent 0 startedEvent Chan.empty)],
    answer .execute []]

theorem answered_routed : ∃ s, run (step sampleConfig) init answered = some s ∧
    (s.calls 0).pc = .returned (.executed (some (response .execute))) ∧
    Routed sampleConfig answered s := by
  obtain ⟨s, hs, hpc⟩ := exists_run_of_check (step sampleConfig)
    (fun s => (s.calls 0).pc = .returned (.executed (some (response .execute)))) init answered
    (by decide)
  exact ⟨s, hs, hpc, routed_of_readable sampleConfig answered s hs
    (meets_of_checkMeets _ _ _ _ (by decide))⟩

def longLine : Line := ChildLine.scanned ⟨1048576, .ignored⟩

def unreadAfterLongLine : List Act :=
  List.flatten [[.sup .launch], callRequest 0 .execute,
    [.env (.childWrites longLine), .env (.childWrites (.terminal (response .execute))),
     .reader (.scan longLine [.terminal (response .execute)]), .reader .tooLong]]

def lostAfterLongLine : List Act :=
  List.flatten [unreadAfterLongLine,
    [.env .childExits, .env .waitReturns, .sup .childExited, .writer (.take (.request 0) []),
     .writer (.writeFails (.request 0)), .sup .joinWriter, .sup .joinReader,
     .sup (.swap .crash [0])],
    answerExecute 0 [], [.call 0 (.receive (.failed .childExited))], restart]

/-- The child answers and exits, and the pipe is closed before the reader gets to it. -/
def lostAtExit : List Act :=
  List.flatten [[.sup .launch], callRequest 0 .execute,
    [.env (.childWrites (.terminal (response .execute)))], crash (.request 0) [] [0]]

def mistyped : List Act :=
  List.flatten [[.sup .launch], callRequest 0 .execute,
    [.env (.childWrites (.terminal (response .ping)))], answer .ping []]

/-- A line of one MiB, an exit right after the response and a response of another kind each lose it.
-/
theorem response_lost_or_empty :
    (run (step sampleConfig) init unreadAfterLongLine).map
      (fun s => (s.reader, unread s, s.pending, s.child.alive)) =
        some (.exited, [.terminal (response .execute)], [("r", 0)], true) ∧
    (run (step sampleConfig) init lostAfterLongLine).map (fun s => (unread s, (s.calls 0).pc)) =
      some ([], .returned (.err (.fault .childExited))) ∧
    lostAfterLongLine.filterMap written = [longLine, .terminal (response .execute)] ∧
    lostAfterLongLine.filterMap handled = [longLine] ∧
    (run (step sampleConfig) init lostAtExit).map
      (fun s => (s.reader, unread s, (s.jobs .supervisor).value)) =
        some (.exited, [.terminal (response .execute)], .failed .childExited) ∧
    (run (step sampleConfig) init mistyped).map (fun s => (s.calls 0).pc) =
      some (.returned (.executed none)) := by
  refine ⟨?_, ?_, ?_, ?_, ?_, ?_⟩ <;> decide

end IronGolem.OutputRouting
