import IronGolem.FirstMatch
import IronGolem.Identifiers
import IronGolem.JsonValues
import Mathlib.Data.List.Nodup

/-!
Plan graphs as the runtime core declares them, with the lookups the workflow engine uses. Every
lookup is a scan from the front of the node vector, so with repeated node ids it answers the first
node that carries the id, and a write through the looked-up reference changes that node only.
-/
namespace IronGolem.PlanGraph

open FirstMatch Identifiers JsonValues List

inductive RiskLevel where
  | none | low | medium | high | critical
  deriving DecidableEq, Repr

inductive RiskCategory where
  | dataExfiltration | configChange | privilegeEscalation | financial | personalData
  | crossTenant | commandExecution | promptInjection | networkAccess
  deriving DecidableEq, Repr

/-- A double is its value, or one of the values JSON has no number for. -/
inductive F64 where
  | finite (value : ℚ)
  | notFinite
  deriving DecidableEq

structure RiskMetadata where
  level : RiskLevel
  score : F64
  categories : List RiskCategory
  explanation : Option String
  deriving DecidableEq

def RiskMetadata.default : RiskMetadata := ⟨.none, .finite 0, [], none⟩

inductive PlanNodeKind where
  | toolCall (toolName : String) (input : Json)
  | llmCall (prompt : String) (model : Option String)
  | approvalGate (description : String)
  | delegation (targetAgent : Uuid) (goal : String)
  | verify (targetNodeId : Uuid)
  | checkpoint

inductive PlanNodeStatus where
  | pending | running | waitingApproval | completed | failed | skipped | rolledBack
  deriving DecidableEq, Repr

inductive PlanStatus where
  | pending | running | paused | completed | failed | rolledBack
  deriving DecidableEq, Repr

structure PlanNode where
  id : Uuid
  description : String
  kind : PlanNodeKind
  status : PlanNodeStatus
  dependencies : List Uuid
  risk : RiskMetadata
  output : Option Json
  error : Option String

structure Plan where
  id : Uuid
  description : String
  agentId : Uuid
  nodes : List PlanNode
  status : PlanStatus
  risk : RiskMetadata

/-- The runtime's error type with the text each variant displays. -/
inductive Error where
  | planExecution (reason : String)
  | nodeNotFound (nodeId : String)
  | checkpoint (reason : String)
  | rollback (reason : String)
  | policyDenied (reason : String)
  | verification (reason : String)
  | sandbox (reason : String)
  | memoryGraph (reason : String)
  | connector (connectorId reason : String)
  | serialization (message : String)
  | database (message : String)
  | internal (message : String)
  deriving DecidableEq, Repr

def Error.toText : Error → String
  | .planExecution reason => "plan execution failed: " ++ reason
  | .nodeNotFound nodeId => "plan node '" ++ nodeId ++ "' not found"
  | .checkpoint reason => "checkpoint failed: " ++ reason
  | .rollback reason => "rollback failed: " ++ reason
  | .policyDenied reason => "policy denied action: " ++ reason
  | .verification reason => "verification failed: " ++ reason
  | .sandbox reason => "sandbox error: " ++ reason
  | .memoryGraph reason => "memory graph error: " ++ reason
  | .connector connectorId reason => "connector error for '" ++ connectorId ++ "': " ++ reason
  | .serialization message => "serialization error: " ++ message
  | .database message => "database error: " ++ message
  | .internal message => "internal error: " ++ message

namespace PlanNode

def new (id : Uuid) (description : String) (kind : PlanNodeKind) : PlanNode :=
  ⟨id, description, kind, .pending, [], .default, none, none⟩

def withDependency (n : PlanNode) (depId : Uuid) : PlanNode :=
  { n with dependencies := n.dependencies ++ [depId] }

def start (n : PlanNode) : PlanNode := { n with status := .running }

def complete (output : Json) (n : PlanNode) : PlanNode :=
  { n with status := .completed, output := some output }

def fail (error : String) (n : PlanNode) : PlanNode :=
  { n with status := .failed, error := some error }

end PlanNode

namespace Plan

def new (id : Uuid) (description : String) (agentId : Uuid) : Plan :=
  ⟨id, description, agentId, [], .pending, .default⟩

variable (p : Plan)

def addNode (n : PlanNode) : Plan := { p with nodes := p.nodes ++ [n] }

variable (nodeId : Uuid)

def findNode : Option PlanNode :=
  p.nodes.find? (fun n => n.id == nodeId)

def nextPendingNode : Option PlanNode :=
  p.nodes.find? (fun n => n.status == .pending)

def rewriteNode (f : PlanNode → PlanNode) : Plan :=
  { p with nodes := updateFirst (fun n => n.id == nodeId) f p.nodes }

/-- A write through `find_node_mut`: nothing when no node carries the id. -/
def updateNode (f : PlanNode → PlanNode) : Option Plan :=
  (p.findNode nodeId).map fun _ => p.rewriteNode nodeId f

def depsMet (n : PlanNode) : Bool :=
  n.dependencies.all fun depId =>
    ((p.findNode depId).map fun m => m.status == .completed).getD false

def ids : List Uuid := p.nodes.map (·.id)

def AllCompleted : Prop := ∀ n ∈ p.nodes, n.status = .completed

variable (p : Plan) (nodeId : Uuid)

theorem findNode_isSome_iff : (p.findNode nodeId).isSome ↔ ∃ n ∈ p.nodes, n.id = nodeId := by
  simp [findNode]

variable (n : PlanNode)

theorem findNode_mem (h : p.findNode nodeId = some n) : n ∈ p.nodes ∧ n.id = nodeId :=
  ⟨mem_of_find?_eq_some h, by simpa using find?_some h⟩

theorem nextPendingNode_mem (h : p.nextPendingNode = some n) : n ∈ p.nodes ∧ n.status = .pending :=
  ⟨mem_of_find?_eq_some h, by simpa using find?_some h⟩

theorem nextPendingNode_eq_none_iff :
    p.nextPendingNode = none ↔ ∀ n ∈ p.nodes, n.status ≠ .pending := by
  simp [nextPendingNode, find?_eq_none]

theorem findNode_of_mem (h : n ∈ p.nodes) : ∃ m, p.findNode n.id = some m := by
  have hs : (p.findNode n.id).isSome := (findNode_isSome_iff p n.id).mpr ⟨n, h, rfl⟩
  exact Option.isSome_iff_exists.mp hs

theorem findNode_unique (hids : p.ids.Nodup) (n : PlanNode) (h : n ∈ p.nodes) :
    p.findNode n.id = some n := by
  obtain ⟨m, hm⟩ := findNode_of_mem p n h
  obtain ⟨hmem, hid⟩ := findNode_mem p n.id m hm
  rw [hm, inj_on_of_nodup_map hids hmem h hid]

variable (f : PlanNode → PlanNode)

@[simp] theorem rewriteNode_nodes :
    (p.rewriteNode nodeId f).nodes = updateFirst (fun n => n.id == nodeId) f p.nodes := rfl

theorem updateNode_of_mem (f : PlanNode → PlanNode)
    (h : n ∈ p.nodes) : p.updateNode n.id f = some (p.rewriteNode n.id f) := by
  obtain ⟨m, hm⟩ := findNode_of_mem p n h
  simp [updateNode, hm]

theorem depsMet_iff :
    p.depsMet n = true ↔
      ∀ depId ∈ n.dependencies, ∃ m, p.findNode depId = some m ∧ m.status = .completed := by
  simp only [depsMet, all_eq_true]
  refine forall₂_congr fun depId _ => ?_
  cases p.findNode depId <;> simp

end Plan

end IronGolem.PlanGraph
