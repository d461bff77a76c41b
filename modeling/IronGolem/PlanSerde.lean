import IronGolem.PlanGraph

/-!
The JSON form of a plan as its derived serializer writes it and its derived deserializer reads it.
Two values do not come back as they were. An output that is the JSON value null is written like a
missing output and reads as missing, and a score that is no finite number is written as null, which
is no number to read.
-/
namespace IronGolem.PlanSerde

open Identifiers JsonValues PlanGraph

def RiskLevel.name : RiskLevel → String
  | .none => "none"
  | .low => "low"
  | .medium => "medium"
  | .high => "high"
  | .critical => "critical"

def RiskLevel.variants : List RiskLevel := [.none, .low, .medium, .high, .critical]

def RiskCategory.name : RiskCategory → String
  | .dataExfiltration => "data_exfiltration"
  | .configChange => "config_change"
  | .privilegeEscalation => "privilege_escalation"
  | .financial => "financial"
  | .personalData => "personal_data"
  | .crossTenant => "cross_tenant"
  | .commandExecution => "command_execution"
  | .promptInjection => "prompt_injection"
  | .networkAccess => "network_access"

def RiskCategory.variants : List RiskCategory :=
  [.dataExfiltration, .configChange, .privilegeEscalation, .financial, .personalData,
    .crossTenant, .commandExecution, .promptInjection, .networkAccess]

def PlanNodeStatus.name : PlanNodeStatus → String
  | .pending => "pending"
  | .running => "running"
  | .waitingApproval => "waiting_approval"
  | .completed => "completed"
  | .failed => "failed"
  | .skipped => "skipped"
  | .rolledBack => "rolled_back"

def PlanNodeStatus.variants : List PlanNodeStatus :=
  [.pending, .running, .waitingApproval, .completed, .failed, .skipped, .rolledBack]

def PlanStatus.name : PlanStatus → String
  | .pending => "pending"
  | .running => "running"
  | .paused => "paused"
  | .completed => "completed"
  | .failed => "failed"
  | .rolledBack => "rolled_back"

def PlanStatus.variants : List PlanStatus :=
  [.pending, .running, .paused, .completed, .failed, .rolledBack]

def uuidToValue (id : Uuid) : Json := .str (toText id)

def asUuid : Decoder Uuid
  | .str s => parseStr s
  | j => invalidType "a UUID string" j

def f64ToValue : F64 → Json
  | .finite value => .num value
  | .notFinite => .null

def asF64 : Decoder F64
  | .num value => .ok (.finite value)
  | j => invalidType "f64" j

def riskToValue (r : RiskMetadata) : Json :=
  .obj [("level", .str (RiskLevel.name r.level)),
    ("score", f64ToValue r.score),
    ("categories", .arr (r.categories.map fun c => .str (RiskCategory.name c))),
    ("explanation", ofOption .str r.explanation)]

def riskFromValue : Decoder RiskMetadata := fun j => do
  let fields ← asFields "struct RiskMetadata" j
  let level ← requiredField (asEnum RiskLevel.name RiskLevel.variants) "level" fields
  let score ← requiredField asF64 "score" fields
  let categories ← requiredField (asList (asEnum RiskCategory.name RiskCategory.variants))
    "categories" fields
  let explanation ← optionalField asString "explanation" fields
  return ⟨level, score, categories, explanation⟩

def kindToValue : PlanNodeKind → Json
  | .toolCall toolName input =>
      .obj [("type", .str "ToolCall"), ("tool_name", .str toolName), ("input", input)]
  | .llmCall prompt model =>
      .obj [("type", .str "LlmCall"), ("prompt", .str prompt), ("model", ofOption .str model)]
  | .approvalGate description =>
      .obj [("type", .str "ApprovalGate"), ("description", .str description)]
  | .delegation targetAgent goal =>
      .obj [("type", .str "Delegation"), ("target_agent", uuidToValue targetAgent),
        ("goal", .str goal)]
  | .verify targetNodeId =>
      .obj [("type", .str "Verify"), ("target_node_id", uuidToValue targetNodeId)]
  | .checkpoint => .obj [("type", .str "Checkpoint")]

/-- The tag decides which fields are read; other fields are ignored. -/
def kindFromValue : Decoder PlanNodeKind := fun j => do
  let fields ← asFields "internally tagged enum PlanNodeKind" j
  let tag ← requiredField asString "type" fields
  match tag with
  | "ToolCall" =>
      return .toolCall (← requiredField asString "tool_name" fields)
        (← requiredField Except.ok "input" fields)
  | "LlmCall" =>
      return .llmCall (← requiredField asString "prompt" fields)
        (← optionalField asString "model" fields)
  | "ApprovalGate" => return .approvalGate (← requiredField asString "description" fields)
  | "Delegation" =>
      return .delegation (← requiredField asUuid "target_agent" fields)
        (← requiredField asString "goal" fields)
  | "Verify" => return .verify (← requiredField asUuid "target_node_id" fields)
  | "Checkpoint" => return .checkpoint
  | other => .error ("unknown variant `" ++ other ++ "`")

def nodeToValue (n : PlanNode) : Json :=
  .obj [("id", uuidToValue n.id),
    ("description", .str n.description),
    ("kind", kindToValue n.kind),
    ("status", .str (PlanNodeStatus.name n.status)),
    ("dependencies", .arr (n.dependencies.map uuidToValue)),
    ("risk", riskToValue n.risk),
    ("output", ofOption id n.output), ("error", ofOption .str n.error)]

def nodeFromValue : Decoder PlanNode := fun j => do
  let fields ← asFields "struct PlanNode" j
  let id ← requiredField asUuid "id" fields
  let description ← requiredField asString "description" fields
  let kind ← requiredField kindFromValue "kind" fields
  let status ← requiredField (asEnum PlanNodeStatus.name PlanNodeStatus.variants) "status" fields
  let dependencies ← requiredField (asList asUuid) "dependencies" fields
  let risk ← requiredField riskFromValue "risk" fields
  let output ← optionalField Except.ok "output" fields
  let error ← optionalField asString "error" fields
  return ⟨id, description, kind, status, dependencies, risk, output, error⟩

variable (p : Plan)

def planToValue : Json :=
  .obj [("id", uuidToValue p.id),
    ("description", .str p.description),
    ("agent_id", uuidToValue p.agentId),
    ("nodes", .arr (p.nodes.map nodeToValue)),
    ("status", .str (PlanStatus.name p.status)), ("risk", riskToValue p.risk)]

def planFromValue : Decoder Plan := fun j => do
  let fields ← asFields "struct Plan" j
  let id ← requiredField asUuid "id" fields
  let description ← requiredField asString "description" fields
  let agentId ← requiredField asUuid "agent_id" fields
  let nodes ← requiredField (asList nodeFromValue) "nodes" fields
  let status ← requiredField (asEnum PlanStatus.name PlanStatus.variants) "status" fields
  let risk ← requiredField riskFromValue "risk" fields
  return ⟨id, description, agentId, nodes, status, risk⟩

def restoredNode (n : PlanNode) : PlanNode :=
  { n with output := n.output.filter (fun j => !isNull j) }

def restoredPlan : Plan := { p with nodes := p.nodes.map restoredNode }

def FiniteScores : Prop :=
  p.risk.score ≠ .notFinite ∧ ∀ n ∈ p.nodes, n.risk.score ≠ .notFinite

@[simp] theorem asUuid_uuidToValue (id : Uuid) : asUuid (uuidToValue id) = .ok id :=
  parseStr_toText id

@[simp] theorem asEnum_riskLevel (level : RiskLevel) :
    asEnum RiskLevel.name RiskLevel.variants (.str (RiskLevel.name level)) = .ok level := by
  cases level <;> rfl

@[simp] theorem asEnum_riskCategory (category : RiskCategory) :
    asEnum RiskCategory.name RiskCategory.variants (.str (RiskCategory.name category)) =
      .ok category := by
  cases category <;> rfl

@[simp] theorem asEnum_planNodeStatus (status : PlanNodeStatus) :
    asEnum PlanNodeStatus.name PlanNodeStatus.variants (.str (PlanNodeStatus.name status)) =
      .ok status := by
  cases status <;> rfl

@[simp] theorem asEnum_planStatus (status : PlanStatus) :
    asEnum PlanStatus.name PlanStatus.variants (.str (PlanStatus.name status)) = .ok status := by
  cases status <;> rfl

theorem kindFromValue_kindToValue (kind : PlanNodeKind) :
    kindFromValue (kindToValue kind) = .ok kind := by
  cases kind <;>
    simp [kindFromValue, kindToValue, bind, Except.bind, pure, Except.pure]

variable {r : RiskMetadata}

theorem riskFromValue_finite (h : r.score ≠ .notFinite) :
    riskFromValue (riskToValue r) = .ok r := by
  obtain ⟨level, score, categories, explanation⟩ := r
  have hcategories : asList (asEnum RiskCategory.name RiskCategory.variants)
      (.arr (categories.map fun c => .str (RiskCategory.name c))) = .ok (categories.map id) :=
    asList_arr_map _ _ id (fun c _ => asEnum_riskCategory c)
  cases score with
  | notFinite => exact absurd rfl h
  | finite value =>
    simp [riskFromValue, riskToValue, hcategories, f64ToValue, asF64, bind, Except.bind, pure,
      Except.pure]

theorem riskFromValue_notFinite (h : r.score = .notFinite) :
    riskFromValue (riskToValue r) = .error "invalid type: null, expected f64" := by
  obtain ⟨level, score, categories, explanation⟩ := r
  have hscore : score = .notFinite := h
  subst hscore
  simp [riskFromValue, riskToValue, f64ToValue, asF64, invalidType, describe, bind, Except.bind]

theorem asList_uuids (ids : List Uuid) : asList asUuid (.arr (ids.map uuidToValue)) = .ok ids := by
  have h := asList_arr_map uuidToValue asUuid id (l := ids) (fun id _ => asUuid_uuidToValue id)
  rwa [List.map_id] at h

variable {n : PlanNode}

theorem nodeFromValue_finite (h : n.risk.score ≠ .notFinite) :
    nodeFromValue (nodeToValue n) = .ok (restoredNode n) := by
  simp [nodeFromValue, nodeToValue, asList_uuids, kindFromValue_kindToValue,
    riskFromValue_finite h, restoredNode, bind, Except.bind, pure, Except.pure]

theorem nodeFromValue_notFinite (h : n.risk.score = .notFinite) :
    nodeFromValue (nodeToValue n) = .error "invalid type: null, expected f64" := by
  simp [nodeFromValue, nodeToValue, asList_uuids, kindFromValue_kindToValue,
    riskFromValue_notFinite h, bind, Except.bind]

variable {p : Plan}

theorem planFromValue_finite (h : FiniteScores p) :
    planFromValue (planToValue p) = .ok (restoredPlan p) := by
  have hnodes : asList nodeFromValue (.arr (p.nodes.map nodeToValue)) =
      .ok (p.nodes.map restoredNode) :=
    asList_arr_map nodeToValue nodeFromValue restoredNode
      (fun n hn => nodeFromValue_finite (h.2 n hn))
  simp [planFromValue, planToValue, hnodes, riskFromValue_finite h.1, restoredPlan,
    bind, Except.bind, pure, Except.pure]

theorem planFromValue_notFinite (h : ¬ FiniteScores p) :
    ∃ message, planFromValue (planToValue p) = .error message := by
  by_cases hnodes : ∀ n ∈ p.nodes, n.risk.score ≠ .notFinite
  · have hrisk : p.risk.score = .notFinite := by
      by_contra hfinite
      exact h ⟨hfinite, hnodes⟩
    have hlist : asList nodeFromValue (.arr (p.nodes.map nodeToValue)) =
        .ok (p.nodes.map restoredNode) :=
      asList_arr_map nodeToValue nodeFromValue restoredNode
        (fun n hn => nodeFromValue_finite (hnodes n hn))
    exact ⟨_, by simp [planFromValue, planToValue, hlist, riskFromValue_notFinite hrisk,
      bind, Except.bind]; rfl⟩
  · simp only [not_forall, not_not] at hnodes
    obtain ⟨n, hn, hscore⟩ := hnodes
    obtain ⟨message, hmessage⟩ := asList_arr_error nodeFromValue (List.mem_map_of_mem hn)
      ⟨_, nodeFromValue_notFinite hscore⟩
    exact ⟨message, by simp [planFromValue, planToValue, hmessage, bind, Except.bind]⟩

theorem planFromValue_ok {restored : Plan}
    (h : planFromValue (planToValue p) = .ok restored) : restored = restoredPlan p := by
  by_cases hfinite : FiniteScores p
  · rw [planFromValue_finite hfinite] at h
    exact (Except.ok.inj h).symm
  · obtain ⟨message, hmessage⟩ := planFromValue_notFinite hfinite
    rw [hmessage] at h
    cases h

end IronGolem.PlanSerde
