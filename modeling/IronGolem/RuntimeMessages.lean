import IronGolem.JsonTransfer
import IronGolem.PlanSerde
import IronGolem.Rfc3339

/-!
The messages of the runtime daemon: what it reads from the gateway and what it writes back. A
message is an object whose `kind` says how the other fields are read. Fields that are not optional
have to be there, and unknown fields are ignored.
-/
namespace IronGolem.RuntimeMessages

open Identifiers JsonValues JsonTransfer PlanGraph PlanSerde

/-- A plan with its time stamps, which are instants. -/
structure TimedPlan where
  plan : Plan
  createdAt : ℤ
  updatedAt : ℤ

inductive ExecutionStatus where
  | completed | failed
  deriving DecidableEq, Repr

def ExecutionStatus.name : ExecutionStatus → String
  | .completed => "completed"
  | .failed => "failed"

def ExecutionStatus.variants : List ExecutionStatus := [.completed, .failed]

structure ExecutePlanRequest where
  requestId : Uuid
  workspaceId : Uuid
  plan : TimedPlan

structure LlmCallRequest where
  requestId : Uuid
  workspaceId : Uuid
  purpose : String
  system : String
  prompt : String
  maxTokens : UInt32

structure ExecutePlanResponse where
  requestId : Uuid
  status : ExecutionStatus
  output : Option Json
  error : Option String

structure EventNotification (ε : Type) where
  requestId : Uuid
  event : ε

structure ListProvidersResponse where
  requestId : Uuid
  active : String
  profiles : List Json

structure LlmCallResponse where
  requestId : Uuid
  status : ExecutionStatus
  content : String
  error : Option String

/-- The messages that the daemon writes. -/
inductive Reply (ε : Type) where
  | executePlanResponse (r : ExecutePlanResponse)
  | eventNotification (n : EventNotification ε)
  | pingResponse (requestId : Uuid)
  | listProvidersResponse (r : ListProvidersResponse)
  | llmCallResponse (r : LlmCallResponse)

/-- All messages: the requests, and the replies, which the daemon ignores if it is sent one. -/
inductive Message (ε : Type) where
  | executePlanRequest (r : ExecutePlanRequest)
  | pingRequest (requestId : Uuid)
  | listProvidersRequest (requestId : Uuid)
  | llmCallRequest (r : LlmCallRequest)
  | shutdown (requestId : Uuid)
  | reply (r : Reply ε)

def statusToValue (status : ExecutionStatus) : Json := .str status.name

def ExecutePlanResponse.toValue (r : ExecutePlanResponse) : Json :=
  .obj [("kind", .str "execute_plan_response"),
    ("request_id", uuidToValue r.requestId),
    ("status", statusToValue r.status),
    ("output", ofOption id r.output), ("error", ofOption .str r.error)]

def LlmCallResponse.toValue (r : LlmCallResponse) : Json :=
  .obj [("kind", .str "llm_call_response"),
    ("request_id", uuidToValue r.requestId),
    ("status", statusToValue r.status),
    ("content", .str r.content), ("error", ofOption .str r.error)]

def ListProvidersResponse.toValue (r : ListProvidersResponse) : Json :=
  .obj [("kind", .str "list_providers_response"),
    ("request_id", uuidToValue r.requestId),
    ("active", .str r.active), ("profiles", .arr r.profiles)]

section

variable {ε : Type} (eventToValue : ε → Json) (eventFromValue : Decoder ε)

def EventNotification.toValue (n : EventNotification ε) : Json :=
  .obj [("kind", .str "event_notification"),
    ("request_id", uuidToValue n.requestId), ("event", eventToValue n.event)]

def Reply.toValue : Reply ε → Json
  | .executePlanResponse r => r.toValue
  | .eventNotification n => n.toValue eventToValue
  | .pingResponse requestId =>
      .obj [("kind", .str "ping_response"), ("request_id", uuidToValue requestId)]
  | .listProvidersResponse r => r.toValue
  | .llmCallResponse r => r.toValue

def asDateTime : Decoder ℤ
  | .str text => Rfc3339.parse text
  | j => invalidType "an RFC 3339 formatted date and time string" j

def asU32 : Decoder UInt32
  | .num value =>
      if value.den = 1 ∧ 0 ≤ value.num ∧ value.num < 2 ^ 32 then
        .ok (UInt32.ofNat value.num.toNat)
      else .error "invalid value: expected u32"
  | j => invalidType "u32" j

def asStatus : Decoder ExecutionStatus := asEnum ExecutionStatus.name ExecutionStatus.variants

def timedPlanFromValue : Decoder TimedPlan := fun j => do
  let plan ← planFromValue j
  let fields ← asFields "struct Plan" j
  let createdAt ← requiredField asDateTime "created_at" fields
  let updatedAt ← requiredField asDateTime "updated_at" fields
  return ⟨plan, createdAt, updatedAt⟩

variable (fields : Fields)

def requestIdFrom : Except String Uuid := requiredField asUuid "request_id" fields

def ExecutePlanRequest.fromFields : Except String ExecutePlanRequest := do
  let requestId ← requestIdFrom fields
  let workspaceId ← requiredField asUuid "workspace_id" fields
  let plan ← requiredField timedPlanFromValue "plan" fields
  return ⟨requestId, workspaceId, plan⟩

def LlmCallRequest.fromFields : Except String LlmCallRequest := do
  let requestId ← requestIdFrom fields
  let workspaceId ← requiredField asUuid "workspace_id" fields
  let purpose ← requiredField asString "purpose" fields
  let system ← requiredField asString "system" fields
  let prompt ← requiredField asString "prompt" fields
  let maxTokens ← requiredField asU32 "max_tokens" fields
  return ⟨requestId, workspaceId, purpose, system, prompt, maxTokens⟩

def ExecutePlanResponse.fromFields : Except String ExecutePlanResponse := do
  let requestId ← requestIdFrom fields
  let status ← requiredField asStatus "status" fields
  let output ← optionalField Except.ok "output" fields
  let error ← optionalField asString "error" fields
  return ⟨requestId, status, output, error⟩

def EventNotification.fromFields : Except String (EventNotification ε) := do
  let requestId ← requestIdFrom fields
  let event ← requiredField eventFromValue "event" fields
  return ⟨requestId, event⟩

def ListProvidersResponse.fromFields : Except String ListProvidersResponse := do
  let requestId ← requestIdFrom fields
  let active ← requiredField asString "active" fields
  let profiles ← requiredField (asList Except.ok) "profiles" fields
  return ⟨requestId, active, profiles⟩

def LlmCallResponse.fromFields : Except String LlmCallResponse := do
  let requestId ← requestIdFrom fields
  let status ← requiredField asStatus "status" fields
  let content ← requiredField asString "content" fields
  let error ← optionalField asString "error" fields
  return ⟨requestId, status, content, error⟩

/-- The tag decides which message the other fields are read as. -/
def messageFromValue : Decoder (Message ε) := fun j => do
  let fields ← asFields "internally tagged enum Message" j
  let tag ← requiredField asString "kind" fields
  match tag with
  | "execute_plan_request" => return .executePlanRequest (← ExecutePlanRequest.fromFields fields)
  | "execute_plan_response" =>
      return .reply (.executePlanResponse (← ExecutePlanResponse.fromFields fields))
  | "event_notification" =>
      return .reply (.eventNotification (← EventNotification.fromFields eventFromValue fields))
  | "ping_request" => return .pingRequest (← requestIdFrom fields)
  | "ping_response" => return .reply (.pingResponse (← requestIdFrom fields))
  | "list_providers_request" => return .listProvidersRequest (← requestIdFrom fields)
  | "list_providers_response" =>
      return .reply (.listProvidersResponse (← ListProvidersResponse.fromFields fields))
  | "llm_call_request" => return .llmCallRequest (← LlmCallRequest.fromFields fields)
  | "llm_call_response" =>
      return .reply (.llmCallResponse (← LlmCallResponse.fromFields fields))
  | "shutdown" => return .shutdown (← requestIdFrom fields)
  | other => .error ("unknown variant " ++ other)

def nestingLimit : ℕ := 127

def numberInRange (value : ℚ) : Bool := decide (|value| < 2 ^ 1024 - 2 ^ 970)

/-- What serde_json's parser makes of a number, which need not be the nearest double, and the
decoder of events. -/
structure Reading (ε : Type) where
  number : ℚ → ℚ
  event : Decoder ε

def messageFromLine (reading : Reading ε) : Decoder (Message ε) := fun j =>
  if readable numberInRange nestingLimit j then
    messageFromValue reading.event (reread reading.number j)
  else .error "recursion limit exceeded or number out of range"

end

end IronGolem.RuntimeMessages
