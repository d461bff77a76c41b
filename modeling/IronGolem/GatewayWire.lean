import IronGolem.JsonTransfer
import IronGolem.PlanGraph
import IronGolem.Rfc3339

/-!
The messages of the gateway: what it writes to the runtime daemon and what it reads back. One
struct carries the fields of every kind of plan node, and the fields that are empty are left out of
the document. A list that was never made is written as null.
-/
namespace IronGolem.GatewayWire

open JsonValues JsonTransfer PlanGraph Rfc3339

structure Risk where
  level : String
  score : F64
  categories : Option (List String)
  explanation : String

structure PlanNodeKind where
  type : String
  toolName : String
  input : Option Json
  prompt : String
  model : String
  descriptionField : String
  targetAgent : String
  goal : String
  targetNodeID : String

structure PlanNode where
  id : String
  description : String
  kind : PlanNodeKind
  status : String
  dependencies : Option (List String)
  risk : Risk
  output : Option Json
  error : String

structure Plan where
  id : String
  description : String
  agentID : String
  nodes : Option (List PlanNode)
  status : String
  risk : Risk
  createdAt : CivilTime
  updatedAt : CivilTime

def defaultRisk : Risk := ⟨"none", .finite 0, some [], ""⟩

def marshalText (text : String) : Except String Json := .ok (.str text)

def marshalFloat : F64 → Except String Json
  | .finite value => .ok (.num value)
  | .notFinite => .error "json: unsupported value"

def marshalTime (t : CivilTime) : Except String Json := t.format.map .str

def Risk.marshal (r : Risk) : Except String Json := do
  let score ← marshalFloat r.score
  let categories ← encodeSlice marshalText r.categories
  return .obj ([("level", .str r.level), ("score", score), ("categories", categories)] ++
    omitText "explanation" r.explanation)

def PlanNodeKind.toValue (k : PlanNodeKind) : Json :=
  .obj ([("type", .str k.type)] ++ omitText "tool_name" k.toolName ++ omitRaw "input" k.input ++
    omitText "prompt" k.prompt ++ omitText "model" k.model ++
    omitText "description" k.descriptionField ++ omitText "target_agent" k.targetAgent ++
    omitText "goal" k.goal ++ omitText "target_node_id" k.targetNodeID)

def PlanNode.marshal (n : PlanNode) : Except String Json := do
  let dependencies ← encodeSlice marshalText n.dependencies
  let risk ← n.risk.marshal
  return .obj ([("id", .str n.id), ("description", .str n.description), ("kind", n.kind.toValue),
    ("status", .str n.status), ("dependencies", dependencies), ("risk", risk)] ++
    omitRaw "output" n.output ++ omitText "error" n.error)

def Plan.marshal (p : Plan) : Except String Json := do
  let nodes ← encodeSlice PlanNode.marshal p.nodes
  let risk ← p.risk.marshal
  let createdAt ← marshalTime p.createdAt
  let updatedAt ← marshalTime p.updatedAt
  return .obj [("id", .str p.id), ("description", .str p.description),
    ("agent_id", .str p.agentID), ("nodes", nodes), ("status", .str p.status), ("risk", risk),
    ("created_at", createdAt), ("updated_at", updatedAt)]

structure ExecutePlanRequest where
  requestID : String
  workspaceID : String
  plan : Plan

structure LlmCallRequest where
  requestID : String
  workspaceID : String
  purpose : String
  system : String
  prompt : String
  maxTokens : UInt32

/-- What the gateway sends. -/
inductive Request where
  | executePlan (r : ExecutePlanRequest)
  | ping (requestID : String)
  | listProviders (requestID : String)
  | llmCall (r : LlmCallRequest)
  | shutdown (requestID : String)

def ExecutePlanRequest.marshal (r : ExecutePlanRequest) : Except String Json := do
  let plan ← r.plan.marshal
  return .obj [("kind", .str "execute_plan_request"), ("request_id", .str r.requestID),
    ("workspace_id", .str r.workspaceID), ("plan", plan)]

def LlmCallRequest.toValue (r : LlmCallRequest) : Json :=
  .obj [("kind", .str "llm_call_request"), ("request_id", .str r.requestID),
    ("workspace_id", .str r.workspaceID), ("purpose", .str r.purpose), ("system", .str r.system),
    ("prompt", .str r.prompt), ("max_tokens", .num r.maxTokens.toNat)]

def bareToValue (kind requestID : String) : Json :=
  .obj [("kind", .str kind), ("request_id", .str requestID)]

def Request.marshal : Request → Except String Json
  | .executePlan r => r.marshal
  | .ping requestID => .ok (bareToValue "ping_request" requestID)
  | .listProviders requestID => .ok (bareToValue "list_providers_request" requestID)
  | .llmCall r => .ok r.toValue
  | .shutdown requestID => .ok (bareToValue "shutdown" requestID)

structure ExecutePlanResponse where
  requestID : String
  status : String
  output : Option Json
  error : String

structure EventNotification where
  requestID : String
  event : Option Json

structure ListProvidersResponse where
  requestID : String
  active : String
  profiles : Option (List Json)

structure LlmCallResponse where
  requestID : String
  status : String
  content : String
  error : String

/-- A line of the daemon as the reader decodes it by its kind. -/
inductive Response where
  | executePlan (r : ExecutePlanResponse)
  | event (n : EventNotification)
  | ping (requestID : String)
  | listProviders (r : ListProvidersResponse)
  | llmCall (r : LlmCallResponse)

/-- The fields of a document that is read into a struct; null leaves the struct as it is. -/
def structFields : Decoder Fields
  | .null => .ok []
  | j => asFields "struct" j

def sliceField (name : String) (fields : Fields) : Except String (Option (List Json)) :=
  optionalField (asList Except.ok) name fields

def ExecutePlanResponse.unmarshal : Decoder ExecutePlanResponse := fun j => do
  let fields ← structFields j
  let requestID ← textField "request_id" fields
  let status ← textField "status" fields
  let error ← textField "error" fields
  return ⟨requestID, status, rawField "output" fields, error⟩

def EventNotification.unmarshal : Decoder EventNotification := fun j => do
  let fields ← structFields j
  let requestID ← textField "request_id" fields
  return ⟨requestID, rawField "event" fields⟩

def ListProvidersResponse.unmarshal : Decoder ListProvidersResponse := fun j => do
  let fields ← structFields j
  let requestID ← textField "request_id" fields
  let active ← textField "active" fields
  let profiles ← sliceField "profiles" fields
  return ⟨requestID, active, profiles⟩

def LlmCallResponse.unmarshal : Decoder LlmCallResponse := fun j => do
  let fields ← structFields j
  let requestID ← textField "request_id" fields
  let status ← textField "status" fields
  let content ← textField "content" fields
  let error ← textField "error" fields
  return ⟨requestID, status, content, error⟩

def maxNestingDepth : ℕ := 10000

def readLimits (j : Json) : Bool := readable (fun _ => true) maxNestingDepth j

/-- The envelope decides which struct a line is read into; other kinds are skipped. -/
def Response.unmarshal : Decoder Response := fun j =>
  if readLimits j then do
    let fields ← structFields j
    let kind ← textField "kind" fields
    match kind with
    | "execute_plan_response" => return .executePlan (← ExecutePlanResponse.unmarshal j)
    | "event_notification" => return .event (← EventNotification.unmarshal j)
    | "ping_response" => return .ping (← textField "request_id" fields)
    | "list_providers_response" => return .listProviders (← ListProvidersResponse.unmarshal j)
    | "llm_call_response" => return .llmCall (← LlmCallResponse.unmarshal j)
    | other => .error ("unknown message kind " ++ other)
  else .error "exceeded max depth"

end IronGolem.GatewayWire
