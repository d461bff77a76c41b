import IronGolem.PlanGraph

/-!
The plan execution engine as a machine that stops at each await point of `execute`. Between two
stops the engine makes its plan writes and emits one event. The executor is any object with private
state that answers each call; its answer may depend on the plan it is shown.
-/
namespace IronGolem.WorkflowEngine

open FirstMatch Identifiers JsonValues PlanGraph

inductive EventKind where
  | planCreated (planId : Uuid) (description : String)
  | planStepStarted (planId stepId : Uuid)
  | planStepCompleted (planId stepId : Uuid) (output : Json)
  | planStepFailed (planId stepId : Uuid) (error : String)
  | planCompleted (planId : Uuid)

structure Event where
  workspaceId : Uuid
  kind : EventKind

structure StepExecutor (σ : Type) where
  executeStep : σ → Plan → Uuid → Except Error Json × σ

def noopExecutor : StepExecutor Unit :=
  ⟨fun _ _ _ => (.ok (.obj [("status", .str "completed")]), ())⟩

def StepExecutor.Succeeds {σ : Type} (ex : StepExecutor σ) : Prop :=
  ∀ e p stepId, ∃ output, (ex.executeStep e p stepId).1 = .ok output

theorem noopExecutor_succeeds : noopExecutor.Succeeds := fun _ _ _ => ⟨_, rfl⟩

/-- At the loop test, inside a step, after the failure event, or back at the caller. -/
inductive Phase where
  | scanning
  | executing (stepId : Uuid)
  | failing (error : Error)
  | returned (result : Except Error Unit)

structure EngineState (σ : Type) where
  plan : Plan
  log : List Event
  executor : σ
  phase : Phase

variable {σ : Type}

namespace EngineState

def emit (s : EngineState σ) (ws : Uuid) (kind : EventKind) : EngineState σ :=
  { s with log := s.log ++ [⟨ws, kind⟩] }

def notFound (s : EngineState σ) (nodeId : Uuid) : EngineState σ :=
  { s with phase := .returned (.error (.nodeNotFound (toText nodeId))) }

variable (ws : Uuid)

/-- Entry of `execute`: the plan is running and its creation is logged. -/
def enter (p : Plan) (log : List Event) (e : σ) : EngineState σ :=
  emit ⟨{ p with status := .running }, log, e, .scanning⟩ ws (.planCreated p.id p.description)

/-- One test of the loop; a node with unmet dependencies leads back to the same test. -/
def scan (s : EngineState σ) : EngineState σ :=
  match s.plan.nextPendingNode with
  | none =>
      emit { s with plan := { s.plan with status := .completed }, phase := .returned (.ok ()) }
        ws (.planCompleted s.plan.id)
  | some next =>
      match s.plan.findNode next.id with
      | none => s.notFound next.id
      | some node =>
          if s.plan.depsMet node then
            match s.plan.updateNode next.id PlanNode.start with
            | none => s.notFound next.id
            | some plan =>
                emit { s with plan := plan, phase := .executing next.id }
                  ws (.planStepStarted plan.id next.id)
          else s

/-- The executor's answer is recorded in the node and in the log. -/
def finishStep (ex : StepExecutor σ) (stepId : Uuid) (s : EngineState σ) :
    EngineState σ :=
  match ex.executeStep s.executor s.plan stepId with
  | (.ok output, e) =>
      match s.plan.updateNode stepId (PlanNode.complete output) with
      | none => { s with executor := e }.notFound stepId
      | some plan =>
          emit { s with plan := plan, executor := e, phase := .scanning }
            ws (.planStepCompleted plan.id stepId output)
  | (.error err, e) =>
      match s.plan.updateNode stepId (PlanNode.fail err.toText) with
      | none => { s with executor := e }.notFound stepId
      | some plan =>
          emit { s with plan := plan, executor := e, phase := .failing err }
            ws (.planStepFailed plan.id stepId err.toText)

def step (ex : StepExecutor σ) (s : EngineState σ) : EngineState σ :=
  match s.phase with
  | .scanning => s.scan ws
  | .executing stepId => s.finishStep ws ex stepId
  | .failing err =>
      { s with plan := { s.plan with status := .failed }, phase := .returned (.error err) }
  | .returned _ => s

end EngineState

open EngineState

/-- The state of a run of `execute` after a number of machine steps. -/
def stateAt (ws : Uuid) (ex : StepExecutor σ) (p : Plan) (log : List Event) (e : σ) (k : ℕ) :
    EngineState σ :=
  (step ws ex)^[k] (enter ws p log e)

variable (ws : Uuid) (ex : StepExecutor σ) (p : Plan) (log : List Event) (e : σ)

variable (k : ℕ)

theorem stateAt_succ : stateAt ws ex p log e (k + 1) = step ws ex (stateAt ws ex p log e k) :=
  Function.iterate_succ_apply' _ _ _

def Returned (s : EngineState σ) : Prop := ∃ result, s.phase = .returned result

variable {s : EngineState σ}

theorem step_returned (h : Returned s) : step ws ex s = s := by
  obtain ⟨result, hphase⟩ := h
  simp [step, hphase]

/-- Whatever a step may do; lookups find the node being executed. -/
inductive StepCase (ws : Uuid) (ex : StepExecutor σ) (s : EngineState σ) :
    EngineState σ → Prop
  | finish (hphase : s.phase = .scanning) (hnone : s.plan.nextPendingNode = none) :
      StepCase ws ex s
        (emit { s with plan := { s.plan with status := .completed }, phase := .returned (.ok ()) }
          ws (.planCompleted s.plan.id))
  | blocked (next node : PlanNode) (hphase : s.phase = .scanning)
      (hnext : s.plan.nextPendingNode = some next) (hnode : s.plan.findNode next.id = some node)
      (hdeps : s.plan.depsMet node = false) : StepCase ws ex s s
  | started (next node : PlanNode) (hphase : s.phase = .scanning)
      (hnext : s.plan.nextPendingNode = some next) (hnode : s.plan.findNode next.id = some node)
      (hdeps : s.plan.depsMet node = true) :
      StepCase ws ex s
        (emit { s with
            plan := s.plan.rewriteNode next.id PlanNode.start
            phase := .executing next.id }
          ws (.planStepStarted s.plan.id next.id))
  | completed (stepId : Uuid) (output : Json) (e : σ) (hphase : s.phase = .executing stepId)
      (hanswer : ex.executeStep s.executor s.plan stepId = (.ok output, e)) :
      StepCase ws ex s
        (emit { s with
            plan := s.plan.rewriteNode stepId (PlanNode.complete output)
            executor := e
            phase := .scanning }
          ws (.planStepCompleted s.plan.id stepId output))
  | failed (stepId : Uuid) (err : Error) (e : σ) (hphase : s.phase = .executing stepId)
      (hanswer : ex.executeStep s.executor s.plan stepId = (.error err, e)) :
      StepCase ws ex s
        (emit { s with
            plan := s.plan.rewriteNode stepId (PlanNode.fail err.toText)
            executor := e
            phase := .failing err }
          ws (.planStepFailed s.plan.id stepId err.toText))
  | failure (err : Error) (hphase : s.phase = .failing err) :
      StepCase ws ex s
        { s with plan := { s.plan with status := .failed }, phase := .returned (.error err) }
  | halted (hphase : Returned s) : StepCase ws ex s s

def ExecutesNode (s : EngineState σ) : Prop :=
  ∀ stepId, s.phase = .executing stepId → ∃ n ∈ s.plan.nodes, n.id = stepId

theorem step_cases (hs : ExecutesNode s) : StepCase ws ex s (step ws ex s) := by
  cases hphase : s.phase with
  | scanning =>
    have hstep : step ws ex s = s.scan ws := by simp [step, hphase]
    rw [hstep]
    cases hnext : s.plan.nextPendingNode with
    | none =>
      simp only [scan, hnext]
      exact .finish hphase hnext
    | some next =>
      obtain ⟨hmem, -⟩ := Plan.nextPendingNode_mem s.plan next hnext
      obtain ⟨node, hnode⟩ := Plan.findNode_of_mem s.plan next hmem
      by_cases hdeps : s.plan.depsMet node = true
      · simp only [scan, hnext, hnode, hdeps, if_true,
          Plan.updateNode_of_mem s.plan next PlanNode.start hmem]
        exact .started next node hphase hnext hnode hdeps
      · simp only [scan, hnext, hnode, hdeps]
        exact .blocked next node hphase hnext hnode (by simpa using hdeps)
  | executing stepId =>
    have hstep : step ws ex s = s.finishStep ws ex stepId := by simp [step, hphase]
    obtain ⟨n, hmem, rfl⟩ := hs stepId hphase
    rw [hstep]
    rcases hanswer : ex.executeStep s.executor s.plan n.id with ⟨answer, e⟩
    cases answer with
    | ok output =>
      simp only [finishStep, hanswer,
        Plan.updateNode_of_mem s.plan n (PlanNode.complete output) hmem]
      exact .completed n.id output e hphase hanswer
    | error err =>
      simp only [finishStep, hanswer,
        Plan.updateNode_of_mem s.plan n (PlanNode.fail err.toText) hmem]
      exact .failed n.id err e hphase hanswer
  | failing err =>
    simp only [step, hphase]
    exact .failure err hphase
  | returned result =>
    simp only [step, hphase]
    exact .halted ⟨result, hphase⟩

variable {β : Type} (g : PlanNode → β)

theorem step_map (hstart : ∀ n, g n.start = g n)
    (hcomplete : ∀ output n, g (n.complete output) = g n)
    (hfail : ∀ error n, g (n.fail error) = g n) (ws : Uuid) (ex : StepExecutor σ)
    (hs : ExecutesNode s) :
    (step ws ex s).plan.nodes.map g = s.plan.nodes.map g := by
  have hcase := step_cases ws ex hs
  generalize step ws ex s = t at hcase ⊢
  cases hcase with
  | finish | blocked | failure | halted => rfl
  | started next => exact map_updateFirst _ _ g hstart s.plan.nodes
  | completed stepId output => exact map_updateFirst _ _ g (hcomplete output) s.plan.nodes
  | failed stepId err => exact map_updateFirst _ _ g (hfail err.toText) s.plan.nodes

theorem step_ids (hs : ExecutesNode s) : (step ws ex s).plan.ids = s.plan.ids :=
  step_map (fun n => n.id) (fun _ => rfl) (fun _ _ => rfl) (fun _ _ => rfl) ws ex hs

theorem step_executesNode (hs : ExecutesNode s) : ExecutesNode (step ws ex s) := by
  have hids := step_ids ws ex hs
  have hcase := step_cases ws ex hs
  generalize step ws ex s = t at hids hcase ⊢
  intro stepId hphase
  cases hcase with
  | finish | completed | failed | failure => simp [emit] at hphase
  | blocked next node hscan => simp [hscan] at hphase
  | started next node hscan hnext =>
    simp only [emit, Phase.executing.injEq] at hphase
    subst hphase
    have hmem : next.id ∈ s.plan.ids :=
      List.mem_map_of_mem (Plan.nextPendingNode_mem s.plan next hnext).1
    rw [← hids, Plan.ids, List.mem_map] at hmem
    exact hmem
  | halted hret =>
    obtain ⟨result, hres⟩ := hret
    simp [hres] at hphase

theorem stateAt_executesNode : ExecutesNode (stateAt ws ex p log e k) := by
  induction k with
  | zero =>
    intro stepId hphase
    simp [stateAt, enter, emit] at hphase
  | succ k ih =>
    rw [stateAt_succ]
    exact step_executesNode ws ex ih

theorem stateAt_map (hstart : ∀ n, g n.start = g n)
    (hcomplete : ∀ output n, g (n.complete output) = g n)
    (hfail : ∀ error n, g (n.fail error) = g n) (ws : Uuid) (ex : StepExecutor σ)
    (p : Plan) (log : List Event) (e : σ) (k : ℕ) :
    (stateAt ws ex p log e k).plan.nodes.map g = p.nodes.map g := by
  induction k with
  | zero => rfl
  | succ k ih =>
    rw [stateAt_succ, step_map g hstart hcomplete hfail ws ex
      (stateAt_executesNode ws ex p log e k), ih]

theorem stateAt_ids : (stateAt ws ex p log e k).plan.ids = p.ids :=
  stateAt_map (fun n => n.id) (fun _ => rfl) (fun _ _ => rfl) (fun _ _ => rfl) ws ex p log e k

theorem returned_of_planCompleted (hs : ExecutesNode s) {planId : Uuid}
    (hlog : (step ws ex s).log = s.log ++ [⟨ws, .planCompleted planId⟩]) :
    (step ws ex s).phase = .returned (.ok ()) := by
  have hcase := step_cases ws ex hs
  generalize step ws ex s = t at hcase hlog ⊢
  cases hcase with
  | finish => rfl
  | started | completed | failed => simp [emit] at hlog
  | blocked | failure | halted => simp at hlog

theorem stateAt_add (j k : ℕ) :
    stateAt ws ex p log e (j + k) = (step ws ex)^[j] (stateAt ws ex p log e k) :=
  Function.iterate_add_apply _ j k _

end IronGolem.WorkflowEngine
