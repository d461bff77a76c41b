import IronGolem.DaemonAnswers
import IronGolem.EngineLog
import IronGolem.ExecutionOrder

/-!
The answer to a plan request against the events of its run. The answer takes the output of the last
node in the vector, while the steps run in vector order over the nodes that were pending. So the
two agree for every executor exactly if the last node is pending, or if no node is and the last one
brings no output along.
-/
namespace IronGolem.PlanResults

open Identifiers JsonValues PlanGraph WorkflowEngine EngineState EngineLog List ExecutionOrder
  RuntimeMessages RuntimeDaemon

def completedOutput : EventKind → Option Json
  | .planStepCompleted _ _ output => some output
  | _ => none

def lastOutput (log : List Event) : Option Json :=
  (log.filterMap (fun ev => completedOutput ev.kind)).getLast?

theorem lastOutput_snoc (log : List Event) (ev : Event) :
    lastOutput (log ++ [ev]) = (completedOutput ev.kind).or (lastOutput log) := by
  unfold lastOutput
  cases hkind : completedOutput ev.kind with
  | _ => simp [hkind]

def lastDone (before after : List PlanNode) : Option Json :=
  ((before.zip after).filter (fun ab => ab.1.status = .pending)).getLast?.bind
    (fun ab => ab.2.output)

variable {before after : List PlanNode} (output : Json)

theorem lastDone_snoc_pending {n : PlanNode}
    (hlength : before.length = after.length) (hn : n.status = .pending) :
    lastDone (before ++ [n]) (after ++ [n.complete output]) = some output := by
  unfold lastDone
  rw [zip_append hlength, filter_append]
  simp [hn, PlanNode.complete]

theorem lastDone_append_same {same : List PlanNode}
    (hlength : before.length = after.length) (hsame : ∀ n ∈ same, n.status ≠ .pending) :
    lastDone (before ++ same) (after ++ same) = lastDone before after := by
  have hnone : (same.zip same).filter (fun ab => ab.1.status = .pending) = [] := by
    apply filter_eq_nil_iff.mpr
    intro ab hab
    simpa using hsame ab.1 (of_mem_zip hab).1
  unfold lastDone
  rw [zip_append hlength, filter_append, hnone, append_nil]

theorem lastDone_isSome (hswept : Swept before after)
    (hpending : ∃ n ∈ before, n.status = .pending) : (lastDone before after).isSome := by
  have hne : (before.zip after).filter (fun ab => ab.1.status = .pending) ≠ [] := by
    obtain ⟨n, hn, hstatus⟩ := hpending
    obtain ⟨i, hi, rfl⟩ := mem_iff_getElem.mp hn
    have hi' : i < after.length := hswept.length_eq ▸ hi
    apply ne_nil_of_mem
    apply mem_filter.mpr
    refine ⟨mem_iff_getElem.mpr ⟨i, by simp [hi, hi'], getElem_zip⟩, ?_⟩
    simpa using hstatus
  have hab := getLast?_eq_some_getLast hne
  generalize getLast _ hne = ab at hab
  obtain ⟨hzip, hstatus⟩ := mem_filter.mp (mem_of_getLast? hab)
  have hsweeps : Sweeps ab.1 ab.2 := forall₂_zip hswept hzip
  unfold lastDone
  rw [hab, Option.bind_some]
  rcases hsweeps with ⟨_, output, hcomplete⟩ | ⟨hnot, _⟩
  · rw [hcomplete]
    rfl
  · exact absurd (by simpa using hstatus) hnot

theorem lastDone_eq_none (nodes after : List PlanNode)
    (h : ∀ n ∈ nodes, n.status ≠ .pending) : lastDone nodes after = none := by
  have hnone : (nodes.zip after).filter (fun ab => ab.1.status = .pending) = [] := by
    apply filter_eq_nil_iff.mpr
    intro ab hab
    simpa using h ab.1 (of_mem_zip hab).1
  unfold lastDone
  rw [hnone]
  rfl

section

variable {σ : Type} {ws : Uuid} {ex : StepExecutor σ} {p : Plan} {s : EngineState σ}

/-- The nodes before a place have been passed, and the log ends with their outputs. -/
structure Passed (p : Plan) (s : EngineState σ) (pre cur rest : List PlanNode) : Prop where
  nodes_eq : p.nodes = pre ++ rest
  swept : Swept pre cur
  output_eq : lastOutput s.log = lastDone pre cur

/-- Where a run over a plan with ready nodes stands. -/
inductive Position (p : Plan) (s : EngineState σ) : Prop
  | scanning (pre cur rest : List PlanNode) (hpassed : Passed p s pre cur rest)
      (hphase : s.phase = .scanning) (hnodes : s.plan.nodes = cur ++ rest)
  | executing (pre cur post : List PlanNode) (n : PlanNode)
      (hpassed : Passed p s pre cur (n :: post)) (hn : n.status = .pending)
      (hfirst : ∀ m ∈ cur, m.id ≠ n.id) (hphase : s.phase = .executing n.id)
      (hnodes : s.plan.nodes = cur ++ n.start :: post)
  | completed (hphase : s.phase = .returned (.ok ())) (hswept : Swept p.nodes s.plan.nodes)
      (houtput : lastOutput s.log = lastDone p.nodes s.plan.nodes)
  | failed (err : Error) (hphase : s.phase = .failing err ∨ s.phase = .returned (.error err))

variable {nodes : List PlanNode}

theorem swept_same (h : ∀ n ∈ nodes, n.status ≠ .pending) : Swept nodes nodes :=
  forall₂_same.mpr fun n hn => .inr ⟨h n hn, rfl⟩

variable {pre cur rest : List PlanNode}

theorem Passed.advance {mid : List PlanNode}
    (h : Passed p s pre cur (mid ++ rest)) (hmid : ∀ n ∈ mid, n.status ≠ .pending) :
    Passed p s (pre ++ mid) (cur ++ mid) rest where
  nodes_eq := by rw [h.nodes_eq, append_assoc]
  swept := rel_append h.swept (swept_same hmid)
  output_eq := by rw [h.output_eq, lastDone_append_same h.swept.length_eq hmid]

variable {post : List PlanNode} {t : EngineState σ}

theorem Passed.complete {n : PlanNode}
    (h : Passed p s pre cur (n :: post)) (hn : n.status = .pending) (output : Json)
    (hlog : lastOutput t.log = some output) :
    Passed p t (pre ++ [n]) (cur ++ [n.complete output]) post where
  nodes_eq := by rw [h.nodes_eq, append_assoc, singleton_append]
  swept := h.swept.snoc (.inl ⟨hn, output, rfl⟩)
  output_eq := by rw [hlog, lastDone_snoc_pending output h.swept.length_eq hn]

theorem exists_next {next : PlanNode}
    (hnodes : s.plan.nodes = cur ++ rest) (hcur : ∀ m ∈ cur, m.status ≠ .pending)
    (hnext : s.plan.nextPendingNode = some next) :
    next.status = .pending ∧ ∃ mid post, rest = mid ++ next :: post ∧
      ∀ m ∈ mid, m.status ≠ .pending := by
  have hnone : cur.find? (fun n => n.status == .pending) = none := by
    apply find?_eq_none.mpr
    intro m hm
    simpa using hcur m hm
  unfold Plan.nextPendingNode at hnext
  rw [hnodes, find?_append, hnone, Option.none_or] at hnext
  obtain ⟨hstatus, mid, post, hrest, hmid⟩ := find?_eq_some_iff_append.mp hnext
  refine ⟨by simpa using hstatus, mid, post, hrest, ?_⟩
  intro m hm
  simpa using hmid m hm

/-- A scan ends the plan, starts the first pending node or finds that it must wait. -/
theorem position_of_scanning
    (hready : PendingReady p) (hcase : StepCase ws ex s t) (hpassed : Passed p s pre cur rest)
    (hphase : s.phase = .scanning) (hnodes : s.plan.nodes = cur ++ rest) : Position p t := by
  cases hcase with
  | finish _ hnone =>
    have hall := (Plan.nextPendingNode_eq_none_iff s.plan).mp hnone
    rw [hnodes] at hall
    have hpassed' : Passed p s pre cur (rest ++ []) := by rwa [append_nil]
    have hend := hpassed'.advance fun n hn => hall n (mem_append_right cur hn)
    have hlog := hend.output_eq
    have hp := hend.nodes_eq
    rw [append_nil] at hp
    refine .completed rfl ?_ ?_
    · exact hp ▸ hnodes ▸ hend.swept
    · change lastOutput (s.log ++ [_]) = lastDone p.nodes s.plan.nodes
      rw [lastOutput_snoc, hp, hnodes]
      exact hlog
  | blocked => exact .scanning pre cur rest hpassed hphase hnodes
  | started next node _ hnext hnode hdeps =>
    obtain ⟨hn, mid, post, hrest, hmid⟩ :=
      exists_next hnodes hpassed.swept.not_pending hnext
    subst hrest
    have hhere := hpassed.advance hmid
    have hnodes' : s.plan.nodes = (cur ++ mid) ++ next :: post := by
      rw [hnodes, append_assoc]
    have hfirst : ∀ m ∈ cur ++ mid, m.id ≠ next.id := by
      intro m hm hid
      obtain ⟨m', hm', hid'⟩ := (hhere.swept.exists_id_iff next.id).mp ⟨m, hm, hid⟩
      exact (hready _ next post hhere.nodes_eq hn).1 m' hm' hid'
    refine .executing _ _ post next ⟨hhere.nodes_eq, hhere.swept, ?_⟩ hn hfirst rfl ?_
    · change lastOutput (s.log ++ [_]) = _
      rw [lastOutput_snoc]
      exact hhere.output_eq
    · exact rewriteNode_split PlanNode.start hnodes' hfirst
  | completed _ _ _ hexec | failed _ _ _ hexec | failure _ hexec =>
    exact absurd (hphase.symm.trans hexec) (by simp)
  | halted hret =>
    obtain ⟨result, hret⟩ := hret
    exact absurd (hphase.symm.trans hret) (by simp)

theorem position_of_executing {n : PlanNode}
    (hcase : StepCase ws ex s t) (hpassed : Passed p s pre cur (n :: post))
    (hn : n.status = .pending) (hfirst : ∀ m ∈ cur, m.id ≠ n.id)
    (hphase : s.phase = .executing n.id) (hnodes : s.plan.nodes = cur ++ n.start :: post) :
    Position p t := by
  cases hcase with
  | completed stepId output e hexec hanswer =>
    obtain rfl : n.id = stepId := Phase.executing.inj (hphase.symm.trans hexec)
    have hwritten := rewriteNode_split (PlanNode.complete output) hnodes hfirst (n := n.start)
    refine .scanning (pre ++ [n]) (cur ++ [n.complete output]) post
      (hpassed.complete hn output ?_) rfl ?_
    · change lastOutput (s.log ++ [_]) = some output
      rw [lastOutput_snoc]
      rfl
    · rw [append_assoc]
      exact hwritten
  | failed _ err => exact .failed err (.inl rfl)
  | finish hscan | blocked _ _ hscan | started _ _ hscan | failure _ hscan =>
    exact absurd (hphase.symm.trans hscan) (by simp)
  | halted hret =>
    obtain ⟨result, hret⟩ := hret
    exact absurd (hphase.symm.trans hret) (by simp)

theorem position_step (hready : PendingReady p) (hs : ExecutesNode s) (h : Position p s) :
    Position p (step ws ex s) := by
  have hcase := step_cases ws ex hs
  generalize step ws ex s = t at hcase ⊢
  cases h with
  | scanning pre cur rest hpassed hphase hnodes =>
    exact position_of_scanning hready hcase hpassed hphase hnodes
  | executing pre cur post n hpassed hn hfirst hphase hnodes =>
    exact position_of_executing hcase hpassed hn hfirst hphase hnodes
  | completed hphase hswept houtput =>
    have hsame : t = s := by
      cases hcase with
      | blocked | halted => rfl
      | finish hscan | started _ _ hscan => exact absurd (hphase.symm.trans hscan) (by simp)
      | completed _ _ _ hexec | failed _ _ _ hexec =>
        exact absurd (hphase.symm.trans hexec) (by simp)
      | failure _ hfail => exact absurd (hphase.symm.trans hfail) (by simp)
    rw [hsame]
    exact .completed hphase hswept houtput
  | failed err hphase =>
    cases hcase with
    | failure err' hfail => exact .failed err' (.inr rfl)
    | blocked | halted => exact .failed err hphase
    | finish hscan | started _ _ hscan =>
      rw [hscan] at hphase
      exact absurd hphase (by simp)
    | completed _ _ _ hexec | failed _ _ _ hexec =>
      rw [hexec] at hphase
      exact absurd hphase (by simp)

theorem position_stateAt (hready : PendingReady p) (e : σ) (k : ℕ) :
    Position p (stateAt ws ex p [] e k) := by
  induction k with
  | zero => exact .scanning [] [] p.nodes ⟨rfl, List.Forall₂.nil, rfl⟩ rfl rfl
  | succ k ih =>
    rw [stateAt_succ]
    exact position_step hready (stateAt_executesNode ws ex p [] e k) ih

variable {e : σ} {k : ℕ}

section

variable (h : (stateAt ws ex p [] e k).phase = .returned (.ok ()))

include h

theorem stepsSucceed_of_completed : StepsSucceed ws ex p [] e := by
  intro j stepId hphase
  have hmem := stateAt_executesNode ws ex p [] e j stepId hphase
  cases hanswer : (ex.executeStep (stateAt ws ex p [] e j).executor
      (stateAt ws ex p [] e j).plan stepId).1 with
  | ok output => exact ⟨output, rfl⟩
  | error err =>
    have hfail : (step ws ex (stateAt ws ex p [] e j)).phase = .failing err :=
      finish_error hphase hmem hanswer
    rw [← stateAt_succ] at hfail
    have hret : (stateAt ws ex p [] e (j + 1 + 1)).phase = .returned (.error err) := by
      rw [stateAt_succ]
      simp [EngineState.step, hfail]
    have hsame := returned_unique ⟨_, hret⟩ ⟨_, h⟩
    rw [hsame, h] at hret
    exact absurd hret (by simp)

theorem pendingReady_of_completed : PendingReady p := by
  by_contra hnot
  exact never_returns_of_not_pendingReady hnot (stepsSucceed_of_completed h) k ⟨_, h⟩

theorem swept_of_completed :
    Swept p.nodes (stateAt ws ex p [] e k).plan.nodes ∧
      lastOutput (stateAt ws ex p [] e k).log =
        lastDone p.nodes (stateAt ws ex p [] e k).plan.nodes := by
  have hposition : Position p (stateAt ws ex p [] e k) :=
    position_stateAt (pendingReady_of_completed h) e k
  cases hposition with
  | completed _ hswept houtput => exact ⟨hswept, houtput⟩
  | scanning _ _ _ _ hphase | executing _ _ _ _ _ _ _ hphase =>
    exact absurd (h.symm.trans hphase) (by simp)
  | failed err hphase =>
    rw [h] at hphase
    exact absurd hphase (by simp)

end

def FailureLogged (s : EngineState σ) : Prop :=
  match s.phase with
  | .failing err | .returned (.error err) =>
      ∃ before ws planId stepId, s.log = before ++ [⟨ws, .planStepFailed planId stepId err.toText⟩]
        ∧ ∀ ev ∈ before, ¬ IsFailure ev.kind
  | _ => ∀ ev ∈ s.log, ¬ IsFailure ev.kind

theorem noFailure_snoc {log : List Event} {ev : Event} (hlog : ∀ a ∈ log, ¬ IsFailure a.kind)
    (hev : ¬ IsFailure ev.kind) : ∀ a ∈ log ++ [ev], ¬ IsFailure a.kind := by
  intro a ha
  rcases mem_append.mp ha with hold | hnew
  · exact hlog a hold
  · rw [mem_singleton.mp hnew]
    exact hev

theorem failureLogged_step (hs : ExecutesNode s) (h : FailureLogged s) :
    FailureLogged (step ws ex s) := by
  have hcase := step_cases ws ex hs
  generalize step ws ex s = t at hcase ⊢
  cases hcase with
  | finish hphase | started _ _ hphase | completed _ _ _ hphase =>
    simp only [FailureLogged, hphase] at h
    exact noFailure_snoc h (fun hfail => hfail)
  | failed stepId err _ hphase =>
    simp only [FailureLogged, hphase] at h
    exact ⟨s.log, ws, s.plan.id, stepId, rfl, h⟩
  | failure err hphase =>
    simp only [FailureLogged, hphase] at h
    exact h
  | blocked | halted => exact h

theorem failureLogged_stateAt (e : σ) (k : ℕ) : FailureLogged (stateAt ws ex p [] e k) := by
  induction k with
  | zero =>
    intro ev hev
    rw [mem_singleton.mp hev]
    exact fun hfail => hfail
  | succ k ih =>
    rw [stateAt_succ]
    exact failureLogged_step (stateAt_executesNode ws ex p [] e k) ih

end

def answering (output : Json) : StepExecutor Unit := ⟨fun _ _ _ => (.ok output, ())⟩

theorem answering_succeeds : (answering output).Succeeds :=
  fun _ _ _ => ⟨output, rfl⟩

theorem outputs_of_answering (ws : Uuid) (answer : Json) (p : Plan) (k : ℕ) :
    ∀ ev ∈ (stateAt ws (answering answer) p [] () k).log, ∀ output,
      completedOutput ev.kind = some output → output = answer := by
  induction k with
  | zero =>
    intro ev hev output houtput
    rw [mem_singleton.mp hev] at houtput
    exact absurd houtput (by simp [completedOutput])
  | succ k ih =>
    rw [stateAt_succ]
    have hs := stateAt_executesNode ws (answering answer) p [] () k
    generalize stateAt ws (answering answer) p [] () k = s at ih hs ⊢
    have hcase := step_cases ws (answering answer) hs
    generalize step ws (answering answer) s = t at hcase ⊢
    intro ev hev output houtput
    cases hcase with
    | blocked | halted | failure => exact ih ev hev output houtput
    | finish | started | failed =>
      rcases mem_append.mp hev with hold | hnew
      · exact ih ev hold output houtput
      · rw [mem_singleton.mp hnew] at houtput
        exact absurd houtput (by simp [completedOutput])
    | completed stepId output' e hphase hanswer =>
      rcases mem_append.mp hev with hold | hnew
      · exact ih ev hold output houtput
      · rw [mem_singleton.mp hnew] at houtput
        have hsame : answer = output' := Except.ok.inj (Prod.mk.inj hanswer).1
        rw [hsame]
        exact (Option.some.inj houtput).symm

/-- The answer to a request agrees with the events of the run that it ends. -/
structure ReportsRun (req : ExecutePlanRequest) (result : ProcessResult) : Prop where
  ids : result.response.requestId = req.requestId ∧
    ∀ notification ∈ result.events, notification.requestId = req.requestId
  completed : result.response.status = .completed →
    result.response.output = lastOutput (result.events.map (fun notification => notification.event))
  failed : result.response.status = .failed → result.response.output = none ∧
    ∃ before ws planId stepId error,
      result.events.map (fun notification => notification.event) =
        before ++ [⟨ws, .planStepFailed planId stepId error⟩] ∧
      (∀ ev ∈ before, ¬ IsFailure ev.kind) ∧ result.response.error = some error

/-- The last node of the plan runs last, or nothing runs and the last node has no output. -/
def LastNodeSpeaks (p : Plan) : Prop :=
  (∃ before last, p.nodes = before ++ [last] ∧ last.status = .pending) ∨
    ((∀ n ∈ p.nodes, n.status ≠ .pending) ∧ p.nodes.getLast?.bind (fun n => n.output) = none)

section Answer

variable {σ : Type} (cfg : Config σ) (n : ℕ) (req : ExecutePlanRequest)

def finalState : EngineState σ :=
  stateAt req.workspaceId cfg.executor req.plan.plan [] (cfg.executorState n) (cfg.stepBound n)

theorem processRequest_completed (h : (finalState cfg n req).phase = .returned (.ok ())) :
    processRequest cfg n req = some
      { events := (finalState cfg n req).log.map (fun event => ⟨req.requestId, event⟩)
        response :=
          { requestId := req.requestId
            status := .completed
            output := (finalState cfg n req).plan.nodes.getLast?.bind (fun node => node.output)
            error := none } } := by
  unfold processRequest
  unfold finalState at h
  simp only [h]
  rfl

variable {e : Error}

theorem processRequest_failed (h : (finalState cfg n req).phase = .returned (.error e)) :
    processRequest cfg n req = some
      { events := (finalState cfg n req).log.map (fun event => ⟨req.requestId, event⟩)
        response :=
          { requestId := req.requestId
            status := .failed
            output := none
            error := some e.toText } } := by
  unfold processRequest
  unfold finalState at h
  simp only [h]
  rfl

variable (log : List Event)

theorem events_of_notifications :
    (log.map (fun event => (⟨req.requestId, event⟩ : EventNotification Event))).map
      (fun notification => notification.event) = log := by
  rw [map_map]
  exact map_id log

theorem notifications_ids :
    ∀ notification ∈ log.map (fun event => (⟨req.requestId, event⟩ : EventNotification Event)),
      notification.requestId = req.requestId := by
  intro notification h
  obtain ⟨event, _, rfl⟩ := mem_map.mp h
  rfl

variable {result : ProcessResult}

theorem reportsRun_of_failed (hphase : (finalState cfg n req).phase = .returned (.error e))
    (h : processRequest cfg n req = some result) : ReportsRun req result := by
  rw [processRequest_failed cfg n req hphase] at h
  cases h
  refine ⟨⟨rfl, notifications_ids req _⟩, fun hstatus => absurd hstatus (by simp), ?_⟩
  intro _
  have hlogged : FailureLogged (finalState cfg n req) := failureLogged_stateAt _ _
  unfold FailureLogged at hlogged
  rw [hphase] at hlogged
  obtain ⟨before, ws, planId, stepId, hlog, hbefore⟩ := hlogged
  refine ⟨rfl, before, ws, planId, stepId, e.toText, ?_, hbefore, rfl⟩
  rw [events_of_notifications]
  exact hlog

theorem reportsRun_iff_of_completed (hphase : (finalState cfg n req).phase = .returned (.ok ()))
    (h : processRequest cfg n req = some result) :
    ReportsRun req result ↔
      (finalState cfg n req).plan.nodes.getLast?.bind (fun node => node.output) =
        lastDone req.plan.plan.nodes (finalState cfg n req).plan.nodes := by
  obtain ⟨_, houtput⟩ := swept_of_completed hphase
  rw [processRequest_completed cfg n req hphase] at h
  cases h
  constructor
  · intro hreports
    have hcompleted := hreports.completed rfl
    rw [events_of_notifications] at hcompleted
    exact hcompleted.trans houtput
  · intro hlast
    refine ⟨⟨rfl, notifications_ids req _⟩, ?_, fun hstatus => absurd hstatus (by simp)⟩
    intro _
    rw [events_of_notifications]
    exact hlast.trans houtput.symm

end Answer

theorem swept_snoc (before after : List PlanNode) {last : PlanNode}
    (h : Swept (before ++ [last]) after) :
    ∃ before' last', after = before' ++ [last'] ∧ Swept before before' ∧ Sweeps last last' := by
  induction before generalizing after with
  | nil =>
    cases h with
    | cons hlast hrest =>
      cases hrest
      exact ⟨[], _, rfl, List.Forall₂.nil, hlast⟩
  | cons a before ih =>
    cases h with
    | @cons _ b _ rest hab hrest =>
      obtain ⟨before', last', rfl, hbefore, hlast⟩ := ih rest hrest
      exact ⟨b :: before', last', rfl, List.Forall₂.cons hab hbefore, hlast⟩

theorem eq_of_swept (hswept : Swept nodes after)
    (hnone : ∀ n ∈ nodes, n.status ≠ .pending) : after = nodes := by
  induction hswept with
  | nil => rfl
  | @cons a b before after hab _ ih =>
    have hrest := ih fun n hn => hnone n (mem_cons_of_mem a hn)
    rcases hab with ⟨hpending, _⟩ | ⟨_, rfl⟩
    · exact absurd hpending (hnone a mem_cons_self)
    · rw [hrest]

theorem getLast_output_of_speaks {p : Plan} (hswept : Swept p.nodes after) (h : LastNodeSpeaks p) :
    after.getLast?.bind (fun n => n.output) = lastDone p.nodes after := by
  rcases h with ⟨before, last, hnodes, hlast⟩ | ⟨hnone, houtput⟩
  · rw [hnodes] at hswept ⊢
    obtain ⟨before', last', rfl, hbefore, hsweeps⟩ := swept_snoc before after hswept
    rcases hsweeps with ⟨_, output, rfl⟩ | ⟨hnot, _⟩
    · rw [lastDone_snoc_pending output hbefore.length_eq hlast]
      simp [PlanNode.complete]
    · exact absurd hlast hnot
  · rw [eq_of_swept hswept hnone, lastDone_eq_none _ _ hnone]
    exact houtput

theorem lastNodeSpeaks_of_agree {p : Plan} (hswept : Swept p.nodes after)
    {answer : Json} (hanswer : p.nodes.getLast?.bind (fun n => n.output) ≠ some answer)
    (hdone : ∀ output, lastDone p.nodes after = some output → output = answer)
    (hagree : after.getLast?.bind (fun n => n.output) = lastDone p.nodes after) :
    LastNodeSpeaks p := by
  by_cases hpending : ∃ n ∈ p.nodes, n.status = .pending
  · left
    have hne : p.nodes ≠ [] := by
      obtain ⟨n, hn, _⟩ := hpending
      exact ne_nil_of_mem hn
    have hnodes := (dropLast_append_getLast hne).symm
    generalize p.nodes.dropLast = before at hnodes
    generalize p.nodes.getLast hne = last at hnodes
    refine ⟨before, last, hnodes, ?_⟩
    by_contra hnot
    obtain ⟨output, houtput⟩ := Option.isSome_iff_exists.mp (lastDone_isSome hswept hpending)
    rw [houtput, hdone output houtput] at hagree
    rw [hnodes] at hswept
    obtain ⟨before', last', rfl, _, hsweeps⟩ := swept_snoc before after hswept
    rcases hsweeps with ⟨hlast, _⟩ | ⟨_, rfl⟩
    · exact hnot hlast
    · apply hanswer
      rw [hnodes]
      simpa using hagree
  · right
    have hnone : ∀ n ∈ p.nodes, n.status ≠ .pending := fun n hn hstatus => hpending ⟨n, hn, hstatus⟩
    rw [lastDone_eq_none _ _ hnone, eq_of_swept hswept hnone] at hagree
    exact ⟨hnone, hagree⟩

theorem exists_new_answer (output : Option Json) : ∃ answer, output ≠ some answer := by
  by_cases h : output = some .null
  · exact ⟨.bool true, by simp [h]⟩
  · exact ⟨.null, h⟩

def daemonWith {σ : Type} (executor : StepExecutor σ) (e : σ) (bound : ℕ) : Config σ where
  executor := executor
  executorState := fun _ => e
  stepBound := fun _ => bound
  complete := fun _ _ => .ok ""
  activeProfile := ""
  profiles := []
  reading := ⟨id, fun _ => .error ""⟩

/-- The answer reports the run exactly if the last node speaks for the plan or the loop hangs. -/
theorem reports_run_iff_lastNodeSpeaks (req : ExecutePlanRequest) :
    (∀ (σ : Type) (cfg : Config σ) (n : ℕ) (result : ProcessResult),
      processRequest cfg n req = some result → ReportsRun req result) ↔
      (PendingReady req.plan.plan → LastNodeSpeaks req.plan.plan) := by
  constructor
  · intro hreports hready
    obtain ⟨answer, hanswer⟩ :=
      exists_new_answer (req.plan.plan.nodes.getLast?.bind (fun n => n.output))
    have hsucceed : StepsSucceed req.workspaceId (answering answer) req.plan.plan [] () :=
      stepsSucceed_of_succeeds _ _ _ _ (answering_succeeds answer)
    rcases completes_of_pendingReady hready with hfail | ⟨k, hphase, hswept⟩
    · exact absurd hsucceed hfail.2
    · have hcompleted : (finalState (daemonWith (answering answer) () k) 0 req).phase =
          .returned (.ok ()) := hphase
      have hresult := processRequest_completed _ _ _ hcompleted
      have hagree := (reportsRun_iff_of_completed _ _ _ hcompleted hresult).mp
        (hreports _ _ _ _ hresult)
      refine lastNodeSpeaks_of_agree hswept hanswer ?_ hagree
      intro output houtput
      obtain ⟨_, hlog⟩ := swept_of_completed hphase
      rw [houtput] at hlog
      obtain ⟨ev, hev, hkind⟩ := mem_filterMap.mp (mem_of_getLast? hlog)
      exact outputs_of_answering _ answer _ k ev hev output hkind
  · intro hspeaks σ cfg n result hresult
    obtain ⟨⟨outcome, hphase⟩, _⟩ := DaemonAnswers.processRequest_spec cfg hresult
    have hfinal : (finalState cfg n req).phase = .returned outcome := hphase
    cases outcome with
    | error e => exact reportsRun_of_failed cfg n req hfinal hresult
    | ok done =>
      apply (reportsRun_iff_of_completed cfg n req hfinal hresult).mpr
      obtain ⟨hswept, _⟩ := swept_of_completed hfinal
      exact getLast_output_of_speaks hswept (hspeaks (pendingReady_of_completed hfinal))

def resumedPlan : Plan :=
  ((Plan.new 7 "resumed" 9).addNode (PlanNode.new 1 "fetch" .checkpoint)).addNode
    ((PlanNode.new 2 "report" .checkpoint).complete (.str "old report"))

def resumedRequest : ExecutePlanRequest := ⟨3, 5, ⟨resumedPlan, 0, 0⟩⟩

/-- The only step of the run yields a status, and the answer brings the old report. -/
theorem resumed_plan_answers_old_output :
    ∃ result, processRequest (daemonWith noopExecutor () 3) 0 resumedRequest = some result ∧
      result.response.output = some (.str "old report") ∧
      lastOutput (result.events.map (fun notification => notification.event)) =
        some (.obj [("status", .str "completed")]) ∧ ¬ ReportsRun resumedRequest result := by
  refine ⟨_, rfl, rfl, rfl, fun h => ?_⟩
  have houtput : some (Json.str "old report") = some (.obj [("status", .str "completed")]) :=
    h.completed rfl
  exact absurd houtput (by simp)

end IronGolem.PlanResults
