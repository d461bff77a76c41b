import IronGolem.DaemonAnswers
import IronGolem.SharedChild

/-!
Whether one request that the daemon cannot decode fails other requests. The daemon answers such a
line with the nil id, and the client then fails every request that is pending. All other responses
carry the id of the request they answer and are handed to that request only.
-/
namespace IronGolem.FailureIsolation

open Identifiers JsonValues JsonTransfer PlanSerde RuntimeMessages IpcRoundTrip InboundRequests
  DaemonOutput DaemonAnswers ChildOutput PendingLedger ClientControl OutputRouting SharedChild
  TransitionRuns WorkflowEngine

variable {σ : Type}

def replyId {ε : Type} : Reply ε → Uuid
  | .executePlanResponse r => r.requestId
  | .eventNotification n => n.requestId
  | .pingResponse requestId => requestId
  | .listProvidersResponse r => r.requestId
  | .llmCallResponse r => r.requestId

def messageId {ε : Type} : Message ε → Uuid
  | .executePlanRequest r => r.requestId
  | .pingRequest requestId => requestId
  | .listProvidersRequest requestId => requestId
  | .llmCallRequest r => r.requestId
  | .shutdown requestId => requestId
  | .reply r => replyId r

section Decoding

variable {ε : Type} (eventFromValue : Decoder ε) {fields : Fields}

theorem executePlanRequest_id {r : ExecutePlanRequest}
    (h : ExecutePlanRequest.fromFields fields = .ok r) : requestIdFrom fields =
      .ok r.requestId := by
  simp only [ExecutePlanRequest.fromFields, bind_eq_ok_iff, pure, Except.pure, Except.ok.injEq] at h
  obtain ⟨requestId, hid, -, -, -, -, rfl⟩ := h
  exact hid

theorem llmCallRequest_id {r : LlmCallRequest} (h : LlmCallRequest.fromFields fields = .ok r) :
    requestIdFrom fields = .ok r.requestId := by
  simp only [LlmCallRequest.fromFields, bind_eq_ok_iff, pure, Except.pure, Except.ok.injEq] at h
  obtain ⟨requestId, hid, -, -, -, -, -, -, -, -, -, -, rfl⟩ := h
  exact hid

theorem reply_id {r : Reply ε}
    (h : messageFromValue eventFromValue (.obj fields) = .ok (.reply r)) :
    requestIdFrom fields = .ok (replyId r) := by
  simp only [messageFromValue, asFields, bind_eq_ok_iff, Except.ok.injEq] at h
  obtain ⟨_, rfl, tag, -, h⟩ := h
  split at h
  all_goals simp only [ExecutePlanResponse.fromFields, EventNotification.fromFields,
      ListProvidersResponse.fromFields, LlmCallResponse.fromFields, bind_eq_ok_iff, pure,
      Except.pure, Except.ok.injEq, reduceCtorEq, and_false, exists_false, Message.reply.injEq] at h
  · obtain ⟨-, ⟨requestId, hid, -, -, -, -, -, -, rfl⟩, rfl⟩ := h
    exact hid
  · obtain ⟨-, ⟨requestId, hid, -, -, rfl⟩, rfl⟩ := h
    exact hid
  · obtain ⟨requestId, hid, rfl⟩ := h
    exact hid
  · obtain ⟨-, ⟨requestId, hid, -, -, -, -, rfl⟩, rfl⟩ := h
    exact hid
  · obtain ⟨-, ⟨requestId, hid, -, -, -, -, -, -, rfl⟩, rfl⟩ := h
    exact hid

theorem message_id {m : Message ε} (h : messageFromValue eventFromValue (.obj fields) = .ok m) :
    requestIdFrom fields = .ok (messageId m) := by
  cases m with
  | reply r => exact reply_id eventFromValue h
  | _ =>
    simp only [messageFromValue, asFields, bind_eq_ok_iff, Except.ok.injEq] at h
    obtain ⟨_, rfl, tag, -, h⟩ := h
    split at h
    all_goals
      simp only [bind_eq_ok_iff, pure, Except.pure, Except.ok.injEq, reduceCtorEq, and_false,
        exists_false, Message.executePlanRequest.injEq, Message.pingRequest.injEq,
        Message.listProvidersRequest.injEq, Message.llmCallRequest.injEq,
        Message.shutdown.injEq, exists_eq_right] at h
    first
      | exact h
      | exact executePlanRequest_id h
      | exact llmCallRequest_id h

end Decoding

variable {g : GatewayWire.Request} {j : Json}

theorem marshal_id (read : ℚ → ℚ) (h : g.marshal = .ok j) :
    ∃ fields, reread read j = .obj fields ∧
      requestIdFrom fields = asUuid (.str (requestID g)) := by
  cases g with
  | executePlan r =>
    obtain ⟨plan, -, rfl⟩ := (executePlan_marshal_iff r j).mp h
    exact ⟨_, rfl, by simp [requestIdFrom, requestID, reread, rereadFields]⟩
  | ping id | listProviders id | shutdown id | llmCall r =>
    cases h
    exact ⟨_, rfl, by simp [requestIdFrom, requestID, reread, rereadFields]⟩

theorem arrives_id {ε : Type} (reading : Reading ε)
    {m : Message ε} {id : Uuid} (hid : requestID g = toText id)
    (h : Arrives reading g m) : messageId m = id := by
  obtain ⟨j, hj, hread⟩ := h
  obtain ⟨fields, hobj, hfields⟩ := marshal_id reading.number hj
  have hvalue := ((messageFromLine_eq_ok_iff reading _ m).mp hread).2
  have hparse : asUuid (.str (toText id)) = .ok id := parseStr_toText id
  rw [hobj] at hvalue
  rw [message_id reading.event hvalue, hid, hparse] at hfields
  exact Except.ok.inj hfields

section Replies

variable {cfg : RuntimeDaemon.Config σ} {r : Reply Event} {n : ℕ}

theorem executePlan_replies_id {req : ExecutePlanRequest}
    (hr : r ∈ (RuntimeDaemon.finished cfg n (.executePlan req)).getD []) :
    replyId r = req.requestId := by
  simp only [RuntimeDaemon.finished] at hr
  cases hresult : RuntimeDaemon.processRequest cfg n req with
  | none =>
    rw [hresult] at hr
    cases hr
  | some result =>
    obtain ⟨-, hid, hevents⟩ := processRequest_spec cfg hresult
    rw [hresult, Option.map_some, Option.getD_some, List.mem_append, List.mem_singleton] at hr
    rcases hr with hevent | rfl
    · rw [hevents, List.map_map, List.mem_map] at hevent
      obtain ⟨event, -, rfl⟩ := hevent
      rfl
    · exact hid

theorem llmCall_replies_id {req : LlmCallRequest}
    (hr : r ∈ (RuntimeDaemon.finished cfg n (.llmCall req)).getD []) :
    replyId r = req.requestId := by
  have hone : r = .llmCallResponse (RuntimeDaemon.llmCallResponse cfg n req) :=
    List.mem_singleton.mp hr
  rw [hone]
  exact llmCallResponse_requestId cfg n req

theorem replies_id {m : Message Event} (hread : messageFromLine cfg.reading j = .ok m)
    (hr : r ∈ replies cfg n (.document j)) : replyId r = messageId m := by
  unfold replies at hr
  simp only [RuntimeDaemon.dispatch, hread] at hr
  cases m with
  | executePlanRequest req => exact executePlan_replies_id hr
  | llmCallRequest req => exact llmCall_replies_id hr
  | pingRequest id | listProvidersRequest id =>
    rw [List.mem_singleton.mp hr]
    rfl
  | shutdown id | reply r' => cases hr

variable {reason : String}

theorem parseError_id
    (hr : r ∈ replies cfg n (.notJson reason)) : replyId r = RuntimeDaemon.nilUuid := by
  have hone : r = RuntimeDaemon.parseError reason := List.mem_singleton.mp hr
  rw [hone]
  rfl

theorem refused_id (hread : messageFromLine cfg.reading j = .error reason)
    (hr : r ∈ replies cfg n (.document j)) : replyId r = RuntimeDaemon.nilUuid := by
  unfold replies at hr
  simp only [RuntimeDaemon.dispatch, hread] at hr
  rw [List.mem_singleton.mp hr]
  rfl

end Replies

variable (dep : Deployment σ) {reply : Reply Event}

theorem clientLine_id {r : RuntimeClient.Response}
    (h : dep.clientLine reply = .terminal r) : r.requestID = toText (replyId reply) := by
  unfold Deployment.clientLine ChildLine.scanned at h
  simp only at h
  split at h
  · cases h
  · by_cases hlimits : GatewayWire.readLimits (reply.toValue dep.eventToValue) = true
    · rw [reply_unmarshal dep.eventToValue reply hlimits] at h
      cases reply with
      | eventNotification n => cases h
      | executePlanResponse | pingResponse | listProvidersResponse | llmCallResponse =>
        cases h
        rfl
    · unfold GatewayWire.Response.unmarshal at h
      rw [if_neg hlimits] at h
      cases h

theorem decodes_iff (c : ℕ) :
    dep.decodes c = true ↔ ∃ m, Arrives dep.reading (dep.requests c) m :=
  decodable_iff dep.reading (dep.requests c)

theorem shutdown_replies (k n : ℕ) : replies (dep.daemon k) n (dep.line .shutdown) = [] := by
  have hid : asUuid (.str (toText dep.shutdownID)) = .ok dep.shutdownID :=
    parseStr_toText dep.shutdownID
  have hread : messageFromLine (dep.daemon k).reading
      (GatewayWire.bareToValue "shutdown" (toText dep.shutdownID)) =
        .ok (.shutdown dep.shutdownID) := by
    refine (messageFromLine_eq_ok_iff _ _ _).mpr ⟨?_, ?_⟩
    · rw [show nestingLimit = 126 + 1 from rfl, GatewayWire.bareToValue, readable_obj]
      simp
    · simp [messageFromValue, GatewayWire.bareToValue, reread, rereadFields, asFields, asString,
        requestIdFrom, hid, bind, Except.bind, pure, Except.pure]
  unfold replies
  simp [Deployment.line, Deployment.request, GatewayWire.Request.marshal, RuntimeDaemon.dispatch,
    hread]

theorem line_replies_id {k n c : ℕ} (hc : c < dep.callCount)
    (hr : reply ∈ replies (dep.daemon k) n (dep.line (.request c))) :
    replyId reply = if dep.decodes c then dep.ids c else RuntimeDaemon.nilUuid := by
  have hid : requestID (dep.requests c) = toText (dep.ids c) :=
    (dep.requestID_eq c hc).trans (dep.newID_eq c hc)
  unfold Deployment.line Deployment.request at hr
  cases hj : (dep.requests c).marshal with
  | error reason =>
    have hno : dep.decodes c = false := by
      simp [Deployment.decodes, decodable, hj, Except.bind]
    simp only [hj] at hr
    rw [hno]
    exact parseError_id hr
  | ok j =>
    simp only [hj] at hr
    cases hread : messageFromLine dep.reading j with
    | error reason =>
      have hno : dep.decodes c = false := by
        simp [Deployment.decodes, decodable, hj, hread, Except.bind]
      rw [hno]
      exact refused_id (by rw [dep.reading_eq]; exact hread) hr
    | ok m =>
      have harrives : Arrives dep.reading (dep.requests c) m := ⟨j, hj, hread⟩
      have hyes : dep.decodes c = true := (decodes_iff dep c).mpr ⟨m, harrives⟩
      rw [hyes, if_pos rfl, ← arrives_id dep.reading hid harrives]
      exact replies_id (by rw [dep.reading_eq]; exact hread) hr

variable {e : ℕ × RuntimeClient.Message} {s : Sys}

theorem answerTo_id (hrange : InRange dep s)
    (he : e ∈ s.client.written) {r : RuntimeClient.Response}
    (h : AnswerTo dep s.client.written e.2 r) :
    ∃ c, e.2 = .request c ∧ c < dep.callCount ∧
      r.requestID = if dep.decodes c then dep.client.newID c else RuntimeClient.nilUUID := by
  obtain ⟨k, n, reply, -, hreply, hline⟩ := h
  obtain ⟨j, m⟩ := e
  cases m with
  | shutdown =>
    rw [shutdown_replies] at hreply
    cases hreply
  | request c =>
    have hc := hrange.written j c he
    refine ⟨c, rfl, hc, ?_⟩
    rw [clientLine_id dep hline, line_replies_id dep hc hreply]
    split
    · exact (dep.newID_eq c hc).symm
    · decide

/-- Each response is the answer to its own request; what can be decoded is not failed for others. -/
structure Isolated (s : Sys) : Prop where
  computed : ∀ c r, Carries s.client c r → AnswerTo dep s.client.written (.request c) r
  refused : ∀ c text, HasValue s.client c (.failed (.rejected text)) → dep.decodes c = false

/-- No pending request can be decoded when all are failed for the nil id. -/
def Isolates (_ : Sys) : Act → Prop
  | .client (.reader (.swap _ order)) => ∀ c ∈ order, dep.decodes c = false
  | _ => True

instance (s : Sys) (a : Act) : Decidable (Isolates dep s a) := by
  unfold Isolates
  split <;> infer_instance

variable {t : RuntimeClient.Sys}

theorem answerTo_of_taken (hl : Linked dep s) (hrange : InRange dep s)
    (htracked : Tracked dep s) {r : RuntimeClient.Response} {c : ℕ}
    (h : RuntimeClient.step dep.client s.client (.reader (.takeTerminal r c)) = some t) :
    AnswerTo dep s.client.written (.request c) r := by
  obtain ⟨acts, hrun⟩ := hl.client
  have ho := run_owned dep.client acts s.client hrun
  cases (ClientSteps.step_to dep.client s.client t _ h).2 with
  | reader a hto =>
    cases hto with
    | takeTerminal r c hpc hid hlookup =>
      obtain ⟨e, he, hanswer⟩ := htracked.lines r (by simp [unread, inHand, hpc])
      obtain ⟨d, hd, -, hrid⟩ := answerTo_id dep hrange he hanswer
      by_cases hdecodes : dep.decodes d = true
      · rw [if_pos hdecodes, newID_of_lookup ho hlookup] at hrid
        rw [dep.client.newID_injective hrid, ← hd]
        exact hanswer
      · rw [if_neg hdecodes] at hrid
        exact absurd hrid hid

variable {a : RuntimeClient.Act}

theorem isolated_client_step {t : Sys} (hl : Linked dep s)
    (hrange : InRange dep s) (htracked : Tracked dep s) (hs : Isolated dep s)
    (h : RuntimeClient.step dep.client s.client a = some t.client) :
    Isolated dep t ↔ ∀ c text, Takes c (.failed (.rejected text)) a → dep.decodes c = false := by
  obtain ⟨acts, hrun⟩ := hl.client
  have ho := run_owned dep.client acts s.client hrun
  have hidle := (run_control dep.client acts hrun).2
  have hfails := run_supervisorFails dep.client hrun
  have hgrows := written_grows h
  have hvalue : ∀ c text, HasValue t.client c (.failed (.rejected text)) ↔
      HasValue s.client c (.failed (.rejected text)) ∨ Takes c (.failed (.rejected text)) a :=
    fun c text => step_hasValue dep.client s.client t.client a c (.inr ⟨text, rfl⟩) ho hidle
      hfails h
  constructor
  · intro ht c text htakes
    exact ht.refused c text ((hvalue c text).mpr (.inr htakes))
  · intro hguard
    refine ⟨?_, ?_⟩
    · intro c r hc
      rcases (step_carries dep.client s.client t.client a c r ho hidle hfails h).mp hc with
        hold | rfl
      · exact (hs.computed c r hold).mono dep hgrows
      · exact (answerTo_of_taken dep hl hrange htracked h).mono dep hgrows
    · intro c text hc
      rcases (hvalue c text).mp hc with hold | htakes
      · exact hs.refused c text hold
      · exact hguard c text htakes

theorem takes_rejected_iff (s : Sys) (a : RuntimeClient.Act) :
    (∀ c text, Takes c (.failed (.rejected text)) a → dep.decodes c = false) ↔
      Isolates dep s (.client a) := by
  cases a with
  | reader b =>
    cases b with
    | swap text order => simp [Takes, Isolates]
    | _ => simp [Takes, Isolates]
  | call | close | writer | deliver | sup | env => simp [Takes, Isolates]

theorem isolated_step {t : Sys} {a : Act} (hl : Linked dep s) (hrange : InRange dep s)
    (htracked : Tracked dep s) (hs : Isolated dep s) (h : StepTo dep s a t) :
    Isolated dep t ↔ Isolates dep s a := by
  cases h with
  | client a u hallowed hu =>
    rw [← takes_rejected_iff]
    exact isolated_client_step dep hl hrange htracked hs hu
  | daemon a d ha hd => exact ⟨fun _ => trivial, fun _ => ⟨hs.computed, hs.refused⟩⟩
  | output n d r u hbody hd hu =>
    rw [isolated_client_step dep hl hrange htracked hs hu]
    simp [Takes, Isolates]

theorem run_known (acts : List Act) {s : Sys} (h : run (step dep) init acts = some s) :
    Linked dep s ∧ InRange dep s ∧ Tracked dep s :=
  ⟨run_linked dep acts h, run_inRange dep h, run_tracked dep h⟩

theorem isolated_init : Isolated dep init := by
  refine ⟨?_, ?_⟩
  · intro c r hc
    simp [Carries, HasValue, init, RuntimeClient.init, GoChannels.Chan.empty] at hc
  · intro c text hc
    simp [HasValue, init, RuntimeClient.init, GoChannels.Chan.empty] at hc

def AnswersOwn (s : Sys) : Prop :=
  ∀ c r, Carries s.client c r → AnswerTo dep s.client.written (.request c) r

theorem AnswersOwn.step {t : Sys} (hl : Linked dep s)
    (hrange : InRange dep s) (htracked : Tracked dep s) (hs : AnswersOwn dep s)
    (h : RuntimeClient.step dep.client s.client a = some t.client) : AnswersOwn dep t := by
  obtain ⟨acts, hrun⟩ := hl.client
  intro c r hr
  refine AnswerTo.mono dep ?_ (written_grows h)
  rcases (step_carries dep.client s.client t.client a c r (run_owned dep.client acts _ hrun)
    (run_control dep.client acts hrun).2 (run_supervisorFails dep.client hrun) h).mp hr with
    hold | rfl
  · exact hs c r hold
  · exact answerTo_of_taken dep hl hrange htracked h

/-- Across crashes and restarts, a response that a call is handed was computed from the line of its
own request. -/
theorem responses_own (acts : List Act) : Along (step dep) (AnswersOwn dep) init acts := by
  intro _ _ s _ hrun
  refine relative_invariant (step dep) _ (AnswersOwn dep) (isolated_init dep).computed
    (run_known dep) ?_ hrun
  rintro s a t ⟨hl, hrange, htracked⟩ hs h
  cases step_to dep s t a h with
  | client b u hallowed hu | output n d r u hbody hd hu =>
    exact AnswersOwn.step dep hl hrange htracked hs hu
  | daemon b d hb hd => exact hs

theorem written_mono {t : Sys} {acts : List Act}
    (h : run (step dep) s acts = some t) (he : e ∈ s.client.written) : e ∈ t.client.written := by
  refine invariant (step dep) (fun u => e ∈ u.client.written) he ?_ h
  intro u a v hu hstep
  cases step_to dep u v a hstep with
  | client a w hallowed hw | output n d r w hbody hd hw => exact (written_grows hw).subset hu
  | daemon a d ha hd => exact hu

theorem exists_undecodable {text : String} {order : List ℕ}
    (hrange : InRange dep s) (htracked : Tracked dep s)
    (h : RuntimeClient.step dep.client s.client (.reader (.swap text order)) = some t) :
    ∃ k c, (k, .request c) ∈ s.client.written ∧ dep.decodes c = false := by
  cases (ClientSteps.step_to dep.client s.client t _ h).2 with
  | reader a hto =>
    cases hto with
    | swap text order hpc =>
      obtain ⟨r, ⟨⟨k, m⟩, he, hanswer⟩, hnil⟩ := htracked.failing text hpc
      obtain ⟨c, rfl, -, hrid⟩ := answerTo_id dep hrange he hanswer
      refine ⟨k, c, he, ?_⟩
      by_contra hdecodes
      rw [Bool.not_eq_false] at hdecodes
      rw [if_pos hdecodes, hnil] at hrid
      exact dep.client.newID_ne_nil c hrid.symm

/-- Requests end with their own outcome exactly if none that can be decoded is pending when all of
them are failed for a nil id. -/
theorem failure_isolation_iff (acts : List Act) (s : Sys) (h : run (step dep) init acts = some s) :
    (Along (step dep) (Isolated dep) init acts ↔ Meets (step dep) (Isolates dep) init acts) ∧
    ((∀ k c, (k, .request c) ∈ s.client.written → dep.decodes c = true) →
      Meets (step dep) (Isolates dep) init acts) := by
  refine ⟨?_, ?_⟩
  · refine along_iff_meets (step dep) (Isolates dep) (Isolated dep)
      (fun s => Linked dep s ∧ InRange dep s ∧ Tracked dep s) (isolated_init dep)
      (run_known dep) ?_ s h
    intro t a u ht hs hstep
    obtain ⟨hl, hrange, htracked⟩ := ht
    exact isolated_step dep hl hrange htracked hs (step_to dep t u a hstep)
  · intro hall pre a post t hacts hpre
    rw [hacts, run_append, hpre, Option.bind_some] at h
    obtain ⟨-, hrange, htracked⟩ := run_known dep pre hpre
    unfold Isolates
    split
    · have hnext := h
      obtain ⟨u, hu, -⟩ := Option.bind_eq_some_iff.mp hnext
      cases step_to dep t u _ hu with
      | client a w hallowed hw =>
        obtain ⟨k, c, hwritten, hno⟩ := exists_undecodable dep hrange htracked hw
        have hlater := written_mono dep h hwritten
        rw [hall k c hlater] at hno
        cases hno
    · trivial

section

open RuntimeClient Rfc3339

def sampleAuth : AuthConfig := ⟨"secret", ["/healthz"], 0⟩

def teamToken : String :=
  "Bearer " ++ signed sumHex "secret" "acme:team-a:u1:member:web:4102444800"

def teamClaims : TokenClaims := ⟨"acme", "team-a", "u1", "member", "web", 4102444800⟩

variable (c : ℕ)

def callId : Uuid := BitVec.ofNat 128 (c + 1)

def sampleNewID : String :=
  if c < 2 then toText (callId c) else String.ofList (List.replicate (c + 100) 'r')

theorem length_sampleNewID (c : ℕ) :
    (sampleNewID c).toList.length = if c < 2 then 36 else c + 100 := by
  unfold sampleNewID
  split
  · have hall : ∀ d < 2, (toText (callId d)).toList.length = 36 := by decide
    exact hall c ‹_›
  · simp

theorem sampleNewID_injective : Function.Injective sampleNewID := by
  intro a b h
  have hlength := congrArg (fun text => text.toList.length) h
  simp only [length_sampleNewID] at hlength
  by_cases ha : a < 2
  · have hb : b < 2 := by
      by_contra hb
      rw [if_pos ha, if_neg hb] at hlength
      omega
    have hall : ∀ c < 2, ∀ d < 2, sampleNewID c = sampleNewID d → c = d := by decide
    exact hall a ha b hb h
  · have hb : ¬ b < 2 := by
      intro hb
      rw [if_neg ha, if_pos hb] at hlength
      omega
    rw [if_neg ha, if_neg hb] at hlength
    omega

theorem sampleNewID_ne_nil (c : ℕ) : sampleNewID c ≠ nilUUID := by
  intro h
  have hlength := congrArg (fun text => text.toList.length) h
  simp only [length_sampleNewID] at hlength
  by_cases hc : c < 2
  · have hall : ∀ d < 2, sampleNewID d ≠ nilUUID := by decide
    exact hall c hc h
  · rw [if_neg hc] at hlength
    have hnil : nilUUID.toList.length = 36 := by decide
    omega

/-- Two calls for messages from the given workspaces. -/
def sampleDeployment (workspace : ℕ → String) : Deployment Unit where
  client :=
    { newID := sampleNewID
      newID_injective := sampleNewID_injective
      newID_ne_nil := sampleNewID_ne_nil
      maxRestartAttempts := 0
      baseBackoff := 0 }
  daemon := fun _ => DaemonAnswers.sampleConfig
  reading := DaemonAnswers.sampleConfig.reading
  reading_eq := fun _ => rfl
  eventToValue := fun _ => .null
  callCount := 2
  ids := callId
  newID_eq := fun _ hc => if_pos hc
  requests := fun c =>
    .executePlan (inboundRequest (callId c) (workspace c) "hello" ⟨7, 8, 9⟩ leapDayNoon)
  requestID_eq := fun _ hc => (if_pos hc).symm
  shutdownID := 5
  bytes := fun _ => 100
  payload := fun _ => ""

def teamAndSolo : String := if c = 0 then teamClaims.workspaceID else ""

def bothSent : List SharedChild.Act :=
  (List.flatten [[.sup .launch], callRequest 0 .execute, callRequest 1 .execute,
    [.writer (.take (.request 0) [.request 1]), .writer (.write (.request 0)),
     .writer (.take (.request 1) []), .writer (.write (.request 1))]]).map .client

def oneSent : List SharedChild.Act :=
  (List.flatten [[.sup .launch], callRequest 0 .execute,
    [.writer (.take (.request 0) []), .writer (.write (.request 0))]]).map .client

def nilResponse : Response := ⟨.execute, nilUUID, "parse error: UUID parsing failed"⟩

/-- The daemon refuses the first line, and the client fails the requests in `order`. -/
def refusedFirst (order : List ℕ) : List SharedChild.Act :=
  [.daemon .read, .daemon (.lock 0), .daemon (.writeBody 0), .daemon (.writeNewline 0),
   .daemon (.flush 0), .client (.reader (.scan (.terminal nilResponse) [])),
   .client (.reader (.rejected nilResponse)), .client
     (.reader (.swap (rejection nilResponse) order))]

def answer (rest : List ℕ) : List SharedChild.Act :=
  [.client (.deliver .reader (.send c rest)), .client (.deliver .reader (.closeDone c rest)),
   .client (.deliver .reader (.closeEvents c rest))]

/-- Alone in flight, the request that cannot be decoded fails alone. -/
theorem alone_isolated :
    ∃ s, run (step (sampleDeployment teamAndSolo)) init
        (oneSent ++ refusedFirst [0] ++ answer 0 []) = some s ∧
      Along (step (sampleDeployment teamAndSolo)) (Isolated (sampleDeployment teamAndSolo)) init
        (oneSent ++ refusedFirst [0] ++ answer 0 []) := by
  obtain ⟨s, hs⟩ : ∃ s, run (step (sampleDeployment teamAndSolo)) init
      (oneSent ++ refusedFirst [0] ++ answer 0 []) = some s :=
    Option.isSome_iff_exists.mp (by decide +kernel)
  refine ⟨s, hs, (failure_isolation_iff _ _ s hs).1.mpr ?_⟩
  exact meets_of_checkMeets _ _ _ _ (by decide +kernel)

/-- A request with the workspace of a valid token fails the request of the other tenant. -/
theorem team_workspace_fails_others :
    hmacAuthMiddleware sumHex sampleAuth "/api/v1/messages/inbound" teamToken 0 =
      .passed teamClaims ∧
    (sampleDeployment teamAndSolo).decodes 0 = false ∧
    (sampleDeployment teamAndSolo).decodes 1 = true ∧
    ∃ s, run (step (sampleDeployment teamAndSolo)) init
        (bothSent ++ refusedFirst [1, 0] ++ answer 1 [0]) = some s ∧
      .failed (.rejected "runtime: parse error: UUID parsing failed") ∈
        (s.client.calls 1).done.sent := by
  refine ⟨by decide +kernel, by decide +kernel, by decide +kernel, ?_⟩
  exact exists_run_of_check _ _ _ _ (by decide +kernel)

end

end IronGolem.FailureIsolation
