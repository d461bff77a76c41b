import IronGolem.PlanTransfer

/-!
Whether the two sides of the pipe agree about every message. The daemon reads the gateway's request
as the plan it stands for exactly if nothing that the daemon requires was left out for being empty,
no list is missing, the document stays within the limits of the two parsers, and the daemon's
parser reads the numbers of the plan as they were written.
-/
namespace IronGolem.IpcRoundTrip

open Identifiers JsonValues JsonTransfer PlanSerde RuntimeMessages PlanTransfer Rfc3339 List

variable {ε : Type}

structure RequestCorresponds (g : GatewayWire.ExecutePlanRequest) (m : ExecutePlanRequest) :
    Prop where
  requestID : IdCorresponds g.requestID m.requestId
  workspaceID : IdCorresponds g.workspaceID m.workspaceId
  plan : PlanCorresponds g.plan m.plan

def Arrives (reading : Reading ε) (g : GatewayWire.Request) (m : Message ε) : Prop :=
  ∃ j, g.marshal = .ok j ∧ messageFromLine reading j = .ok m

theorem messageFromLine_eq_ok_iff (reading : Reading ε) (j : Json) (m : Message ε) :
    messageFromLine reading j = .ok m ↔
      readable numberInRange nestingLimit j = true ∧
        messageFromValue reading.event (reread reading.number j) = .ok m := by
  unfold messageFromLine
  split <;> simp_all

theorem executePlan_marshal_iff (g : GatewayWire.ExecutePlanRequest) (j : Json) :
    g.marshal = .ok j ↔ ∃ plan, g.plan.marshal = .ok plan ∧
      j = .obj [("kind", .str "execute_plan_request"), ("request_id", .str g.requestID),
        ("workspace_id", .str g.workspaceID), ("plan", plan)] := by
  unfold GatewayWire.ExecutePlanRequest.marshal
  rw [bind_eq_ok_iff]
  constructor
  · rintro ⟨plan, hplan, hj⟩
    cases hj
    exact ⟨plan, hplan, rfl⟩
  · rintro ⟨plan, hplan, rfl⟩
    exact ⟨plan, hplan, rfl⟩

variable (reading : Reading ε) {g : GatewayWire.ExecutePlanRequest} {m : ExecutePlanRequest}
    (plan : Json)

theorem executePlan_decodes_iff (hrequest : IdCorresponds g.requestID m.requestId)
    (hworkspace : IdCorresponds g.workspaceID m.workspaceId) :
    messageFromValue reading.event (reread reading.number
      (.obj [("kind", .str "execute_plan_request"), ("request_id", .str g.requestID),
        ("workspace_id", .str g.workspaceID), ("plan", plan)])) = .ok (.executePlanRequest m) ↔
          timedPlanFromValue (reread reading.number plan) = .ok m.plan := by
  have hr : asUuid (.str g.requestID) = .ok m.requestId := hrequest
  have hw : asUuid (.str g.workspaceID) = .ok m.workspaceId := hworkspace
  obtain ⟨requestId, workspaceId, timed⟩ := m
  cases hplan : timedPlanFromValue (reread reading.number plan) <;>
    simp [messageFromValue, ExecutePlanRequest.fromFields, requestIdFrom, reread, rereadFields, hr,
      hw, hplan, bind, Except.bind, pure, Except.pure]

theorem executePlan_arrives_iff (h : RequestCorresponds g m) :
    Arrives reading (.executePlan g) (.executePlanRequest m) ↔
      PlanArrives reading.number 122 g.plan := by
  rw [← plan_transfers reading.number 121 h.plan]
  have hread : ∀ plan : Json, readable numberInRange nestingLimit
      (.obj [("kind", .str "execute_plan_request"), ("request_id", .str g.requestID),
        ("workspace_id", .str g.workspaceID), ("plan", plan)]) =
          readable numberInRange 126 plan := by
    intro plan
    rw [show nestingLimit = 126 + 1 from rfl, readable_obj]
    simp
  constructor
  · rintro ⟨j, hj, hmessage⟩
    obtain ⟨plan, hplan, rfl⟩ := (executePlan_marshal_iff g j).mp hj
    obtain ⟨hreadable, hvalue⟩ := (messageFromLine_eq_ok_iff reading _ _).mp hmessage
    rw [hread] at hreadable
    exact ⟨plan, hplan, hreadable,
      (executePlan_decodes_iff reading plan h.requestID h.workspaceID).mp hvalue⟩
  · rintro ⟨plan, hplan, hreadable, hdecode⟩
    refine ⟨_, (executePlan_marshal_iff g _).mpr ⟨plan, hplan, rfl⟩, ?_⟩
    refine (messageFromLine_eq_ok_iff reading _ _).mpr ⟨?_, ?_⟩
    · rw [hread]
      exact hreadable
    · exact (executePlan_decodes_iff reading plan h.requestID h.workspaceID).mpr hdecode

/-- A missing output is null for the gateway, a missing error the empty text. -/
def gatewayExecuteResponse (r : ExecutePlanResponse) : GatewayWire.ExecutePlanResponse :=
  ⟨toText r.requestId, r.status.name, some (ofOption id r.output), r.error.getD ""⟩

variable (eventToValue : ε → Json)

def gatewayEvent (n : EventNotification ε) :
    GatewayWire.EventNotification :=
  ⟨toText n.requestId, some (eventToValue n.event)⟩

def gatewayListResponse (r : ListProvidersResponse) : GatewayWire.ListProvidersResponse :=
  ⟨toText r.requestId, r.active, some r.profiles⟩

def gatewayLlmResponse (r : LlmCallResponse) : GatewayWire.LlmCallResponse :=
  ⟨toText r.requestId, r.status.name, r.content, r.error.getD ""⟩

def gatewayReply : Reply ε → GatewayWire.Response
  | .executePlanResponse r => .executePlan (gatewayExecuteResponse r)
  | .eventNotification n => .event (gatewayEvent eventToValue n)
  | .pingResponse requestId => .ping (toText requestId)
  | .listProvidersResponse r => .listProviders (gatewayListResponse r)
  | .llmCallResponse r => .llmCall (gatewayLlmResponse r)

/-- The values that a reply carries along, each nested one level below the reply. -/
def carried : Reply ε → List Json
  | .executePlanResponse r => r.output.toList
  | .eventNotification n => [eventToValue n.event]
  | .listProvidersResponse r => [.arr r.profiles]
  | .pingResponse _ | .llmCallResponse _ => []

theorem readLimits_obj (fields : Fields) :
    GatewayWire.readLimits (.obj fields) = readableFields (fun _ => true) 9999 fields := by
  rw [GatewayWire.readLimits, show GatewayWire.maxNestingDepth = 9999 + 1 from rfl, readable_obj]

theorem asList_ok (items : List Json) : asList Except.ok (.arr items) = .ok items := by
  change items.mapM Except.ok = .ok items
  rw [mapM_eq_ok_iff, forall₂_same]
  exact fun _ _ => rfl

variable (eventToValue : ε → Json) (r : Reply ε)

theorem reply_readLimits :
    GatewayWire.readLimits (r.toValue eventToValue) = true ↔
      ∀ j ∈ carried eventToValue r, readable (fun _ => true) 9999 j = true := by
  cases r with
  | executePlanResponse r =>
    simp only [Reply.toValue, ExecutePlanResponse.toValue, readLimits_obj, carried]
    cases r.output <;> cases r.error <;>
      simp [uuidToValue, statusToValue, ofOption]
  | eventNotification n =>
    simp [Reply.toValue, EventNotification.toValue, readLimits_obj, carried, uuidToValue]
  | pingResponse requestId => simp [Reply.toValue, readLimits_obj, carried, uuidToValue]
  | listProvidersResponse r =>
    simp [Reply.toValue, ListProvidersResponse.toValue, readLimits_obj, carried, uuidToValue]
  | llmCallResponse r =>
    simp only [Reply.toValue, LlmCallResponse.toValue, readLimits_obj, carried]
    cases r.error <;> simp [uuidToValue, statusToValue, ofOption]

/-- Within the limits every reply is read as what the gateway should have. -/
theorem reply_unmarshal (h : GatewayWire.readLimits (r.toValue eventToValue) = true) :
    GatewayWire.Response.unmarshal (r.toValue eventToValue) = .ok
      (gatewayReply eventToValue r) := by
  unfold GatewayWire.Response.unmarshal
  rw [if_pos h]
  cases r with
  | executePlanResponse r =>
    obtain ⟨requestId, status, output, error⟩ := r
    cases error <;>
      simp [Reply.toValue, ExecutePlanResponse.toValue, GatewayWire.structFields,
        GatewayWire.ExecutePlanResponse.unmarshal, textField, rawField, optionalField,
        lookup_cons, uuidToValue, statusToValue, ofOption, gatewayReply,
        gatewayExecuteResponse, bind, Except.bind, pure, Except.pure, Except.map]
  | eventNotification n =>
    simp [Reply.toValue, EventNotification.toValue, GatewayWire.structFields,
      GatewayWire.EventNotification.unmarshal, textField, rawField, optionalField,
      lookup_cons, uuidToValue, gatewayReply, gatewayEvent, bind, Except.bind, pure,
      Except.pure, Except.map]
  | pingResponse requestId =>
    simp [Reply.toValue, GatewayWire.structFields, textField, optionalField, lookup_cons,
      uuidToValue, gatewayReply, bind, Except.bind, pure, Except.pure, Except.map]
  | listProvidersResponse r =>
    simp [Reply.toValue, ListProvidersResponse.toValue, GatewayWire.structFields,
      GatewayWire.ListProvidersResponse.unmarshal, GatewayWire.sliceField, textField,
      optionalField, lookup_cons, uuidToValue, gatewayReply, gatewayListResponse, asList_ok,
      bind, Except.bind, pure, Except.pure, Except.map]
  | llmCallResponse r =>
    obtain ⟨requestId, status, content, error⟩ := r
    cases error <;>
      simp [Reply.toValue, LlmCallResponse.toValue, GatewayWire.structFields,
        GatewayWire.LlmCallResponse.unmarshal, textField, optionalField, lookup_cons,
        uuidToValue, statusToValue, ofOption, gatewayReply, gatewayLlmResponse, bind, Except.bind,
        pure, Except.pure, Except.map]

theorem reply_unmarshal_iff :
    GatewayWire.Response.unmarshal (r.toValue eventToValue) = .ok (gatewayReply eventToValue r) ↔
      ∀ j ∈ carried eventToValue r, readable (fun _ => true) 9999 j = true := by
  rw [← reply_readLimits]
  constructor
  · intro hread
    by_contra hlimits
    unfold GatewayWire.Response.unmarshal at hread
    rw [if_neg hlimits] at hread
    cases hread
  · exact reply_unmarshal eventToValue r

def sampleId : String := toText 1

def sampleNode (kind : GatewayWire.PlanNodeKind) (dependencies : Option (List String)) :
    GatewayWire.PlanNode where
  id := sampleId
  description := "ask"
  kind := kind
  status := "pending"
  dependencies := dependencies
  risk := GatewayWire.defaultRisk
  output := none
  error := ""

def llmKind (prompt : String) : GatewayWire.PlanNodeKind where
  type := "LlmCall"
  toolName := ""
  input := none
  prompt := prompt
  model := ""
  descriptionField := ""
  targetAgent := ""
  goal := ""
  targetNodeID := ""

def sampleRequest (node : GatewayWire.PlanNode) : GatewayWire.ExecutePlanRequest where
  requestID := sampleId
  workspaceID := sampleId
  plan :=
    { id := sampleId
      description := "one step"
      agentID := sampleId
      nodes := some [node]
      status := "pending"
      risk := GatewayWire.defaultRisk
      createdAt := leapDayNoon
      updatedAt := leapDayNoon }

/-- The request of the daemon that one with an LLM node stands for. -/
def sampleMessage (prompt : String) : ExecutePlanRequest where
  requestId := 1
  workspaceId := 1
  plan :=
    { plan :=
        { id := 1
          description := "one step"
          agentId := 1
          nodes := [⟨1, "ask", .llmCall prompt none, .pending, [], .default, none, none⟩]
          status := .pending
          risk := .default }
      createdAt := leapDayNoon.instant
      updatedAt := leapDayNoon.instant }

theorem sampleId_corresponds : IdCorresponds sampleId 1 := parseStr_toText 1

theorem defaultRisk_corresponds : RiskCorresponds GatewayWire.defaultRisk .default :=
  ⟨rfl, rfl, rfl, rfl⟩

theorem sampleRequest_corresponds (prompt : String) {dependencies : Option (List String)}
    (h : dependencies.getD [] = []) :
    RequestCorresponds (sampleRequest (sampleNode (llmKind prompt) dependencies))
      (sampleMessage prompt) := by
  refine ⟨sampleId_corresponds, sampleId_corresponds, ?_⟩
  refine ⟨sampleId_corresponds, rfl, sampleId_corresponds, ?_, rfl, defaultRisk_corresponds, rfl,
    rfl⟩
  refine .cons ⟨sampleId_corresponds, rfl, .llmCall rfl, rfl, ?_, defaultRisk_corresponds, rfl,
    rfl⟩ .nil
  change List.Forall₂ IdCorresponds (dependencies.getD []) []
  rw [h]
  exact .nil

/-- Numbers as they are written, and any document for an event. -/
def anyEvent : Reading Json := ⟨id, Except.ok⟩

def refusal (g : GatewayWire.ExecutePlanRequest) : Option String :=
  match g.marshal.bind (messageFromLine anyEvent) with
  | .error reason => some reason
  | .ok _ => none

theorem defaultRisk_arrives : RiskArrives id GatewayWire.defaultRisk := by
  refine ⟨?_, rfl⟩
  decide +kernel

theorem leapDayNoon_arrives : TimeArrives leapDayNoon := by
  unfold TimeArrives
  decide

theorem samplePlan_arrives :
    PlanArrives id 122 (sampleRequest (sampleNode (llmKind "hello") (some []))).plan := by
  refine ⟨rfl, ?_, defaultRisk_arrives, leapDayNoon_arrives, leapDayNoon_arrives⟩
  intro n hn
  rw [mem_singleton.mp hn]
  exact ⟨by decide, rfl, fun _ => rfl, rfl, defaultRisk_arrives, rfl, rfl⟩

end IronGolem.IpcRoundTrip
