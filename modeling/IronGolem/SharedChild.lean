import IronGolem.DaemonOutput
import IronGolem.InboundRequests
import IronGolem.OutputRouting

/-!
The gateway's client and the runtime daemon at the two ends of one pair of pipes. What the client
writes is the daemon's input, and what the daemon writes is read by the client line by line. A
daemon that is restarted starts afresh.
-/
namespace IronGolem.SharedChild

open Option Identifiers JsonValues RuntimeMessages InboundRequests List DaemonOutput ChildOutput
  TransitionRuns WorkflowEngine

def requestID : GatewayWire.Request → String
  | .executePlan r => r.requestID
  | .ping requestID => requestID
  | .listProviders requestID => requestID
  | .llmCall r => r.requestID
  | .shutdown requestID => requestID

def callKind : GatewayWire.Request → Option RuntimeClient.CallKind
  | .executePlan _ => some .execute
  | .ping _ => some .ping
  | .listProviders _ => some .listProviders
  | .llmCall _ => some .llmCall
  | .shutdown _ => none

/-- A client with the requests of its calls, whose drawn ids are finite, and its daemons. -/
structure Deployment (σ : Type) where
  client : RuntimeClient.Config
  daemon : ℕ → RuntimeDaemon.Config σ
  reading : Reading Event
  reading_eq : ∀ k, (daemon k).reading = reading
  eventToValue : Event → Json
  callCount : ℕ
  ids : ℕ → Uuid
  newID_eq : ∀ c < callCount, client.newID c = toText (ids c)
  requests : ℕ → GatewayWire.Request
  requestID_eq : ∀ c < callCount, requestID (requests c) = client.newID c
  shutdownID : Uuid
  bytes : Json → ℕ
  payload : Option Json → String

variable {σ : Type} (dep : Deployment σ)

namespace Deployment

def request : RuntimeClient.Message → GatewayWire.Request
  | .request c => dep.requests c
  | .shutdown => .shutdown (toText dep.shutdownID)

/-- The daemon's line for a message; a request that cannot be marshalled is never sent. -/
def line (m : RuntimeClient.Message) : RuntimeDaemon.StdinLine :=
  match (dep.request m).marshal with
  | .ok j => .document j
  | .error reason => .notJson reason

def responseLine : GatewayWire.Response → RuntimeClient.Line
  | .executePlan r => .terminal ⟨.execute, r.requestID, r.error⟩
  | .event n => .event ⟨n.requestID, dep.payload n.event⟩
  | .ping requestID => .terminal ⟨.ping, requestID, ""⟩
  | .listProviders r => .terminal ⟨.listProviders, r.requestID, ""⟩
  | .llmCall r => .terminal ⟨.llmCall, r.requestID, ""⟩

def clientLine (r : Reply Event) : RuntimeClient.Line :=
  let j := r.toValue dep.eventToValue
  let content := match GatewayWire.Response.unmarshal j with
    | .ok response => dep.responseLine response
    | .error _ => .ignored
  ChildLine.scanned ⟨dep.bytes j, content⟩

def decodes (c : ℕ) : Bool := decodable dep.reading (dep.requests c)

def callAllows (c : ℕ) : RuntimeClient.CallAct → Bool
  | .begin kind => callKind (dep.requests c) = some kind
  | .enqueue => (dep.requests c).marshal.isOk
  | .marshalFails => !(dep.requests c).marshal.isOk
  | _ => true

/-- The actions of the client that fit the requests. -/
def allows : RuntimeClient.Act → Bool
  | .call c a => c < dep.callCount && dep.callAllows c a
  | .env (.childWrites _) => false
  | _ => true

def passOn (d : RuntimeDaemon.Daemon) : RuntimeClient.Act → RuntimeDaemon.Daemon
  | .writer (.write m) => { d with input := d.input ++ [dep.line m] }
  | .sup (.spawn true) => RuntimeDaemon.init
  | _ => d

end Deployment

structure Sys where
  client : RuntimeClient.Sys
  daemon : RuntimeDaemon.Daemon

inductive Act where
  | client (a : RuntimeClient.Act)
  | daemon (a : RuntimeDaemon.Act)

def init : Sys := ⟨RuntimeClient.init, RuntimeDaemon.init⟩

def own : RuntimeDaemon.Act → Bool
  | .receive _ | .closeInput => false
  | _ => true

def lastBody (stdout : List RuntimeDaemon.Chunk) : Option (Reply Event) :=
  match stdout.getLast? with
  | some (.body _ r) => some r
  | _ => none

def completed (d : RuntimeDaemon.Daemon) : RuntimeDaemon.Act → Option (Reply Event)
  | .writeNewline _ => lastBody d.stdout
  | _ => none

def step (s : Sys) : Act → Option Sys
  | .client a =>
      if dep.allows a then
        (RuntimeClient.step dep.client s.client a).map fun t => ⟨t, dep.passOn s.daemon a⟩
      else none
  | .daemon a =>
      if s.client.child.alive ∧ own a then
        (RuntimeDaemon.step (dep.daemon s.client.child.number) s.daemon a).bind fun d =>
          match completed s.daemon a with
          | none => some ⟨s.client, d⟩
          | some r =>
              (RuntimeClient.step dep.client s.client
                (.env (.childWrites (dep.clientLine r)))).map fun t => ⟨t, d⟩
      else none

def stdinOf (written : List (ℕ × RuntimeClient.Message)) (k : ℕ) : List RuntimeDaemon.StdinLine :=
  written.filterMap fun e => if e.1 = k then some (dep.line e.2) else none

structure Linked (s : Sys) : Prop where
  client : ∃ acts, run (RuntimeClient.step dep.client) RuntimeClient.init acts = some s.client
  daemon : ∃ acts, run (RuntimeDaemon.step (dep.daemon s.client.child.number))
    RuntimeDaemon.init acts = some s.daemon
  inputOpen : s.daemon.inputClosed = false
  numbers : ∀ e ∈ s.client.written, e.1 ≤ s.client.child.number
  input : s.daemon.input = stdinOf dep s.client.written s.client.child.number

variable {cfg : RuntimeClient.Config} {s t : RuntimeClient.Sys} {a : RuntimeClient.Act}

/-- A step of the client writes one message, starts the next child, or does neither. -/
theorem client_written (h : RuntimeClient.step cfg s a = some t) :
    (∃ m, a = .writer (.write m) ∧ t.written = s.written ++ [(s.child.number, m)] ∧
      t.child.number = s.child.number) ∨
    (a = .sup (.spawn true) ∧ t.written = s.written ∧ t.child.number = s.child.number + 1) ∨
    ((∀ m, a ≠ .writer (.write m)) ∧ a ≠ .sup (.spawn true) ∧ t.written = s.written ∧
      t.child.number = s.child.number) := by
  cases (ClientSteps.step_to cfg s t a h).2 with
  | call c a hto | close a hto =>
    exact .inr (.inr ⟨by simp, by simp, by rw [hto.frame], by rw [hto.frame]⟩)
  | deliver p a hto =>
    exact .inr (.inr ⟨by simp, by simp, by rw [hto.frame], by rw [hto.frame]⟩)
  | writer a hto =>
    cases hto with
    | write m => exact .inl ⟨m, rfl, rfl, rfl⟩
    | take | stop | writeFails => exact .inr (.inr ⟨by simp, by simp, rfl, rfl⟩)
  | reader a hto | env a hto =>
    refine .inr (.inr ⟨by simp, by simp, by rw [hto.frame], ?_⟩)
    cases hto <;> rfl
  | sup a hto =>
    cases hto with
    | spawn => exact .inr (.inl ⟨rfl, rfl, rfl⟩)
    | _ => exact .inr (.inr ⟨by simp, by simp, rfl, rfl⟩)

theorem written_grows (h : RuntimeClient.step cfg s a = some t) : s.written <+: t.written := by
  rcases client_written h with
    ⟨m, -, hwritten, -⟩ | ⟨-, hwritten, -⟩ | ⟨-, -, hwritten, -⟩
  · exact ⟨[(s.child.number, m)], hwritten.symm⟩
  · exact ⟨[], by rw [hwritten, append_nil]⟩
  · exact ⟨[], by rw [hwritten, append_nil]⟩

variable (written new : List (ℕ × RuntimeClient.Message)) (k : ℕ)

theorem stdinOf_append :
    stdinOf dep (written ++ new) k = stdinOf dep written k ++ stdinOf dep new k := by
  unfold stdinOf
  rw [filterMap_append]

theorem stdinOf_own (m : RuntimeClient.Message) : stdinOf dep [(k, m)] k = [dep.line m] := by
  simp [stdinOf]

theorem stdinOf_next (h : ∀ e ∈ written, e.1 ≤ k) : stdinOf dep written (k + 1) = [] := by
  unfold stdinOf
  rw [filterMap_eq_nil_iff]
  intro e he
  have hle := h e he
  rw [if_neg (by omega)]

theorem passOn_other (d : RuntimeDaemon.Daemon)
    (hwrite : ∀ m, a ≠ .writer (.write m)) (hspawn : a ≠ .sup (.spawn true)) :
    dep.passOn d a = d := by
  unfold Deployment.passOn
  split
  · rename_i m
    exact absurd rfl (hwrite m)
  · exact absurd rfl hspawn
  · rfl

theorem Linked.client_step {s : Sys} (hs : Linked dep s) (a : RuntimeClient.Act)
    (t : RuntimeClient.Sys) (h : RuntimeClient.step dep.client s.client a = some t) :
    Linked dep ⟨t, dep.passOn s.daemon a⟩ := by
  obtain ⟨cacts, hclient⟩ := hs.client
  obtain ⟨dacts, hdaemon⟩ := hs.daemon
  have hreach : ∃ acts, run (RuntimeClient.step dep.client) RuntimeClient.init acts = some t :=
    ⟨cacts ++ [a], (run_concat_iff _ _ _ _ _).mpr ⟨s.client, hclient, h⟩⟩
  rcases client_written h with
    ⟨m, rfl, hwritten, hnumber⟩ | ⟨rfl, hwritten, hnumber⟩ | ⟨hwrite, hspawn, hwritten, hnumber⟩
  · refine ⟨hreach, ?_, hs.inputOpen, ?_, ?_⟩
    · refine ⟨dacts ++ [.receive (dep.line m)], ?_⟩
      rw [hnumber, run_concat_iff]
      refine ⟨s.daemon, hdaemon, ?_⟩
      exact (StepTo.receive (dep.line m) hs.inputOpen).step
    · intro e he
      rw [hwritten, mem_append, mem_singleton] at he
      rw [hnumber]
      rcases he with hold | rfl
      · exact hs.numbers e hold
      · exact Nat.le_refl _
    · change s.daemon.input ++ [dep.line m] = _
      rw [hwritten, hnumber, stdinOf_append, stdinOf_own, hs.input]
  · refine ⟨hreach, ⟨[], rfl⟩, rfl, ?_, ?_⟩
    · intro e he
      rw [hwritten] at he
      rw [hnumber]
      exact Nat.le_succ_of_le (hs.numbers e he)
    · rw [hwritten, hnumber, stdinOf_next dep _ _ hs.numbers]
      rfl
  · rw [passOn_other dep s.daemon hwrite hspawn]
    refine ⟨hreach, ⟨dacts, ?_⟩, hs.inputOpen, ?_, ?_⟩
    · rw [hnumber]
      exact hdaemon
    · rw [hwritten, hnumber]
      exact hs.numbers
    · rw [hwritten, hnumber]
      exact hs.input

/-- The steps of the daemon itself leave its standard input alone. -/
theorem own_input {cfg : RuntimeDaemon.Config σ} {d e : RuntimeDaemon.Daemon}
    {a : RuntimeDaemon.Act} (ha : own a = true) (h : RuntimeDaemon.step cfg d a = some e) :
    e.input = d.input ∧ e.inputClosed = d.inputClosed := by
  cases step_to cfg d e a h with
  | receive | closeInput => cases ha
  | read line =>
    obtain ⟨hinput, hclosed, -⟩ := take_frame d (RuntimeDaemon.dispatch cfg line)
    exact ⟨hinput, hclosed⟩
  | endOfInput | resume | leave | finish | lock | writeBody | writeNewline | flush =>
    exact ⟨rfl, rfl⟩

theorem Linked.daemon_step {s : Sys} (hs : Linked dep s) (a : RuntimeDaemon.Act)
    (d : RuntimeDaemon.Daemon) (ha : own a = true)
    (h : RuntimeDaemon.step (dep.daemon s.client.child.number) s.daemon a = some d) :
    Linked dep ⟨s.client, d⟩ := by
  obtain ⟨dacts, hdaemon⟩ := hs.daemon
  obtain ⟨hinput, hclosed⟩ := own_input ha h
  refine ⟨hs.client, ?_, hclosed.trans hs.inputOpen, hs.numbers, hinput.trans hs.input⟩
  exact ⟨dacts ++ [a], (run_concat_iff _ _ _ _ _).mpr ⟨s.daemon, hdaemon, h⟩⟩

/-- What a step of the whole can do. -/
inductive StepTo (s : Sys) : Act → Sys → Prop
  | client (a : RuntimeClient.Act) (t : RuntimeClient.Sys) (hallowed : dep.allows a = true)
      (h : RuntimeClient.step dep.client s.client a = some t) :
      StepTo s (.client a) ⟨t, dep.passOn s.daemon a⟩
  | daemon (a : RuntimeDaemon.Act) (d : RuntimeDaemon.Daemon) (ha : own a = true)
      (h : RuntimeDaemon.step (dep.daemon s.client.child.number) s.daemon a = some d) :
      StepTo s (.daemon a) ⟨s.client, d⟩
  | output (n : ℕ) (d : RuntimeDaemon.Daemon) (r : Reply Event) (t : RuntimeClient.Sys)
      (hbody : lastBody s.daemon.stdout = some r)
      (h : RuntimeDaemon.step (dep.daemon s.client.child.number) s.daemon (.writeNewline n) =
        some d)
      (hwrites : RuntimeClient.step dep.client s.client
        (.env (.childWrites (dep.clientLine r))) = some t) :
      StepTo s (.daemon (.writeNewline n)) ⟨t, d⟩

theorem step_to (s t : Sys) (a : Act) (h : step dep s a = some t) : StepTo dep s a t := by
  cases a with
  | client a =>
    simp only [step, ite_none_right_eq_some, map_eq_some_iff] at h
    obtain ⟨hallowed, u, hu, rfl⟩ := h
    exact .client a u hallowed hu
  | daemon a =>
    simp only [step, ite_none_right_eq_some, bind_eq_some_iff] at h
    obtain ⟨⟨-, ha⟩, d, hd, hnext⟩ := h
    cases hline : completed s.daemon a with
    | none =>
      simp only [hline, some.injEq] at hnext
      subst hnext
      exact .daemon a d ha hd
    | some r =>
      simp only [hline, map_eq_some_iff] at hnext
      obtain ⟨u, hu, rfl⟩ := hnext
      cases a with
      | writeNewline n => exact .output n d r u hline hd hu
      | _ => cases hline

/-- The input of the daemon is what the client wrote to the current child. -/
theorem Linked.step {s t : Sys} {a : Act} (hs : Linked dep s) (h : StepTo dep s a t) :
    Linked dep t := by
  cases h with
  | client a u hallowed hu => exact hs.client_step dep a u hu
  | daemon a d ha hd => exact hs.daemon_step dep a d ha hd
  | output n d r u hbody hd hu =>
    exact (hs.daemon_step dep _ d rfl hd).client_step dep _ u hu

theorem run_linked (acts : List Act) {s : Sys} (h : run (step dep) init acts = some s) :
    Linked dep s := by
  refine invariant (step dep) (Linked dep) ?_ ?_ h
  · exact ⟨⟨[], rfl⟩, ⟨[], rfl⟩, rfl, fun _ => nofun, rfl⟩
  · intro t a u ht hstep
    exact ht.step dep (step_to dep t u a hstep)

/-- Only requests of the deployment's calls are queued or written. -/
structure InRange (s : Sys) : Prop where
  queued : ∀ c, FailedRequests.queued s.client c = true → c < dep.callCount
  written : ∀ k c, (k, .request c) ∈ s.client.written → c < dep.callCount

theorem InRange.client_step {s : Sys} (hs : InRange dep s) (a : RuntimeClient.Act)
    (t : RuntimeClient.Sys) (d : RuntimeDaemon.Daemon)
    (hcall : ∀ c, a = .call c .enqueue → c < dep.callCount)
    (h : RuntimeClient.step dep.client s.client a = some t) : InRange dep ⟨t, d⟩ := by
  refine ⟨?_, ?_⟩
  · intro c hc
    by_cases ha : a = .call c .enqueue
    · exact hcall c ha
    · exact hs.queued c (FailedRequests.step_queued h ha hc)
  · intro k c hc
    rcases client_written h with
      ⟨m, rfl, hwritten, -⟩ | ⟨-, hwritten, -⟩ | ⟨-, -, hwritten, -⟩
    · rw [hwritten, mem_append, mem_singleton] at hc
      rcases hc with hold | hnew
      · exact hs.written k c hold
      · obtain ⟨-, rfl⟩ := Prod.mk.inj hnew
        cases (ClientSteps.step_to dep.client s.client t _ h).2 with
        | writer a hto =>
          cases hto with
          | write m hpc => exact hs.queued c ((FailedRequests.queued_iff _ _).mpr (.inr hpc))
    · exact hs.written k c (hwritten ▸ hc)
    · exact hs.written k c (hwritten ▸ hc)

theorem InRange.step {s t : Sys} {a : Act} (hs : InRange dep s) (h : StepTo dep s a t) :
    InRange dep t := by
  cases h with
  | client a u hallowed hu =>
    refine hs.client_step dep a u _ ?_ hu
    intro c ha
    rw [ha] at hallowed
    simp only [Deployment.allows, Bool.and_eq_true, decide_eq_true_eq] at hallowed
    exact hallowed.1
  | daemon a d ha hd => exact ⟨hs.queued, hs.written⟩
  | output n d r u hbody hd hu => exact hs.client_step dep _ u d (by simp) hu

variable {acts : List Act}

theorem run_inRange {s : Sys} (h : run (step dep) init acts = some s) : InRange dep s := by
  refine invariant (step dep) (InRange dep) ?_ ?_ h
  · refine ⟨fun c hc => ?_, fun k c hc => ?_⟩
    · simp [init, RuntimeClient.init, FailedRequests.queued] at hc
    · simp [init, RuntimeClient.init] at hc
  · intro t a u ht hstep
    exact ht.step dep (step_to dep t u a hstep)

/-- The daemon that reads the line with index `n` of child `k` answers it with the response. -/
def AnswerTo (written : List (ℕ × RuntimeClient.Message)) (m : RuntimeClient.Message)
    (r : RuntimeClient.Response) : Prop :=
  ∃ k n reply, (stdinOf dep written k)[n]? = some (dep.line m) ∧
    reply ∈ replies (dep.daemon k) n (dep.line m) ∧ dep.clientLine reply = .terminal r

variable {r : RuntimeClient.Response}

theorem AnswerTo.mono {written later : List (ℕ × RuntimeClient.Message)}
    {m : RuntimeClient.Message} (h : AnswerTo dep written m r)
    (hgrows : written <+: later) : AnswerTo dep later m r := by
  obtain ⟨k, n, reply, hline, hreply, hr⟩ := h
  obtain ⟨new, rfl⟩ := hgrows
  refine ⟨k, n, reply, ?_, hreply, hr⟩
  rw [stdinOf_append]
  exact getElem?_of_append hline

def Sourced (s : Sys) (r : RuntimeClient.Response) : Prop :=
  ∃ e ∈ s.client.written, AnswerTo dep s.client.written e.2 r

/-- The responses on their way answer written messages, and so does one with the nil id. -/
structure Tracked (s : Sys) : Prop where
  lines : ∀ r, .terminal r ∈ unread s.client → Sourced dep s r
  failing : ∀ text, s.client.reader = .failing text →
    ∃ r, Sourced dep s r ∧ r.requestID = RuntimeClient.nilUUID

theorem stdinOf_mem {n : ℕ}
    {line : RuntimeDaemon.StdinLine} (h : (stdinOf dep written k)[n]? = some line) :
    ∃ e ∈ written, line = dep.line e.2 := by
  have hmem := mem_of_getElem? h
  obtain ⟨e, he, hline⟩ := mem_filterMap.mp hmem
  split at hline
  · exact ⟨e, he, (some.inj hline).symm⟩
  · cases hline

/-- What the daemon printed last answers one of the lines it was given. -/
theorem lastBody_replies {cfg : RuntimeDaemon.Config σ} {acts : List RuntimeDaemon.Act}
    {d : RuntimeDaemon.Daemon} {r : Reply Event}
    (hrun : run (RuntimeDaemon.step cfg) RuntimeDaemon.init acts = some d)
    (hbody : lastBody d.stdout = some r) :
    ∃ n line, d.input[n]? = some line ∧ r ∈ replies cfg n line := by
  unfold lastBody at hbody
  split at hbody
  · rename_i n body hlast
    cases hbody
    have hwritten : r ∈ writtenBy n d.stdout := by
      unfold writtenBy
      rw [mem_filterMap]
      exact ⟨.body n r, mem_of_getLast? hlast, if_pos rfl⟩
    have hdue : r ∈ due cfg d n := by
      rw [← run_accounted cfg hrun n]
      exact mem_append_left _ hwritten
    unfold due repliesAt at hdue
    split at hdue
    · cases hline : d.input[n]? with
      | none =>
        rw [hline] at hdue
        cases hdue
      | some line =>
        rw [hline] at hdue
        exact ⟨n, line, hline, hdue⟩
    · cases hdue
  · cases hbody

theorem sourced_output {s : Sys} (hs : Linked dep s) {r : Reply Event}
    {response : RuntimeClient.Response} (hbody : lastBody s.daemon.stdout = some r)
    (hline : dep.clientLine r = .terminal response) : Sourced dep s response := by
  obtain ⟨acts, hrun⟩ := hs.daemon
  obtain ⟨n, line, hn, hr⟩ := lastBody_replies hrun hbody
  rw [hs.input] at hn
  obtain ⟨e, he, rfl⟩ := stdinOf_mem dep _ _ hn
  exact ⟨e, he, s.client.child.number, n, r, hn, hr, hline⟩

theorem client_unread (h : RuntimeClient.step cfg s a = some t) (hr : .terminal r ∈ unread t) :
    .terminal r ∈ unread s ∨ a = .env (.childWrites (.terminal r)) := by
  have hsame : t.reader = s.reader → t.child = s.child → .terminal r ∈ unread s := by
    intro hreader hchild
    rw [← unread_of_same hreader hchild]
    exact hr
  cases (ClientSteps.step_to cfg s t a h).2 with
  | call c a hto | close a hto | writer a hto | deliver p a hto =>
    exact .inl (hsame (by rw [hto.frame]) (by rw [hto.frame]))
  | sup a hto => exact .inl ((supTo_unread_sublist hto).subset hr)
  | env a hto =>
    cases hto with
    | childWrites l =>
      rcases mem_append.mp hr with hhand | hout
      · exact .inl (mem_append_left _ hhand)
      · rcases mem_append.mp hout with hold | hnew
        · exact .inl (mem_append_right _ hold)
        · exact .inr (by rw [mem_singleton.mp hnew])
    | childExits | cancelCtx | waitReturns => exact .inl hr
  | reader a hto =>
    left
    cases hto with
    | scan l rest hpc hout => simpa [unread, inHand, hpc, hout] using hr
    | lookupEvent evt c hpc => simpa [unread, inHand, hpc] using hr
    | sendEventPanics => exact hr
    | _ => exact mem_append_right _ hr

/-- The reader fails the calls only at a terminal line with the nil request id. -/
theorem client_failing {text : String} (h : RuntimeClient.step cfg s a = some t)
    (ht : t.reader = .failing text) :
    s.reader = .failing text ∨
      ∃ r, .terminal r ∈ unread s ∧ r.requestID = RuntimeClient.nilUUID := by
  cases (ClientSteps.step_to cfg s t a h).2 with
  | call c a hto | close a hto | writer a hto | deliver p a hto | env a hto =>
    exact .inl (by rw [← ht, hto.frame])
  | sup a hto =>
    cases hto with
    | launch => cases ht
    | _ => exact .inl ht
  | reader a hto =>
    cases hto with
    | rejected r hpc hid =>
      refine .inr ⟨r, ?_, hid⟩
      simp [unread, inHand, hpc]
    | sendEventPanics => exact .inl ht
    | _ => cases ht

variable {s : Sys}

theorem Sourced.client_step (hr : Sourced dep s r)
    (a : RuntimeClient.Act) (t : RuntimeClient.Sys) (d : RuntimeDaemon.Daemon)
    (h : RuntimeClient.step dep.client s.client a = some t) : Sourced dep ⟨t, d⟩ r := by
  obtain ⟨e, he, hanswer⟩ := hr
  have hgrows := written_grows h
  exact ⟨e, hgrows.subset he, hanswer.mono dep hgrows⟩

theorem Tracked.client_step (hs : Tracked dep s) (a : RuntimeClient.Act)
    (t : RuntimeClient.Sys) (d : RuntimeDaemon.Daemon)
    (h : RuntimeClient.step dep.client s.client a = some t)
    (hnew : ∀ r, a = .env (.childWrites (.terminal r)) → Sourced dep s r) : Tracked dep ⟨t, d⟩ := by
  refine ⟨?_, ?_⟩
  · intro r hr
    refine Sourced.client_step dep ?_ a t d h
    rcases client_unread h hr with hold | hwrites
    · exact hs.lines r hold
    · exact hnew r hwrites
  · intro text ht
    rcases client_failing h ht with hold | ⟨r, hr, hid⟩
    · obtain ⟨r, hr, hid⟩ := hs.failing text hold
      exact ⟨r, hr.client_step dep a t d h, hid⟩
    · exact ⟨r, (hs.lines r hr).client_step dep a t d h, hid⟩

theorem Tracked.step {t : Sys} {a : Act} (hl : Linked dep s) (hs : Tracked dep s)
    (h : StepTo dep s a t) : Tracked dep t := by
  cases h with
  | client a u hallowed hu =>
    refine hs.client_step dep a u _ hu ?_
    intro r ha
    rw [ha] at hallowed
    cases hallowed
  | daemon a d ha hd => exact ⟨hs.lines, hs.failing⟩
  | output n d r u hbody hd hu =>
    refine hs.client_step dep _ u d hu ?_
    intro response hline
    simp only [RuntimeClient.Act.env.injEq, RuntimeClient.EnvAct.childWrites.injEq] at hline
    exact sourced_output dep hl hbody hline

/-- Every terminal line on its way to a caller answers a message the client wrote. -/
theorem run_tracked (h : run (step dep) init acts = some s) : Tracked dep s := by
  refine relative_invariant (step dep) (Linked dep) (Tracked dep) (s := init) ?_ (run_linked dep) ?_
    (t := s) h
  · refine ⟨?_, ?_⟩
    · intro r hr
      simp [init, RuntimeClient.init, RuntimeClient.nextChild, unread, inHand] at hr
    · intro text ht
      cases ht
  · intro t a u hl ht hstep
    exact ht.step dep hl (step_to dep t u a hstep)

end IronGolem.SharedChild
