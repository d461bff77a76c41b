import IronGolem.WorkflowEngine

/-!
The event log of a run against the plan it was taken from. Replaying a log over the initial nodes
is defined node by node and knows nothing of the engine.
-/
namespace IronGolem.EngineLog

open FirstMatch Identifiers JsonValues PlanGraph WorkflowEngine EngineState List

def applyEvent (n : PlanNode) : EventKind → PlanNode
  | .planStepStarted _ stepId => if n.id = stepId then n.start else n
  | .planStepCompleted _ stepId output => if n.id = stepId then n.complete output else n
  | .planStepFailed _ stepId error => if n.id = stepId then n.fail error else n
  | .planCreated _ _ => n
  | .planCompleted _ => n

variable (events : List EventKind)

def replayNode (n : PlanNode) : PlanNode := events.foldl applyEvent n

def replay (nodes : List PlanNode) : List PlanNode :=
  nodes.map (replayNode events)

def startedId : EventKind → Option Uuid
  | .planStepStarted _ stepId => some stepId
  | _ => none

def startedIds : List Uuid := events.filterMap startedId

def IsFailure : EventKind → Prop
  | .planStepFailed _ _ _ => True
  | _ => False

def stepPair (planId : Uuid) (step : Uuid × Json) : List EventKind :=
  [.planStepStarted planId step.1, .planStepCompleted planId step.1 step.2]

def Closing (planId : Uuid) : Phase → List EventKind → Prop
  | .scanning, tail => tail = []
  | .executing stepId, tail => tail = [.planStepStarted planId stepId]
  | .failing err, tail =>
      ∃ stepId, tail = [.planStepStarted planId stepId, .planStepFailed planId stepId err.toText]
  | .returned (.ok _), tail => tail = [.planCompleted planId]
  | .returned (.error err), tail =>
      ∃ stepId, tail = [.planStepStarted planId stepId, .planStepFailed planId stepId err.toText]

def WellShaped (p : Plan) (phase : Phase) (events : List EventKind) : Prop :=
  ∃ (steps : List (Uuid × Json)) (tail : List EventKind),
    events = .planCreated p.id p.description :: (steps.flatMap (stepPair p.id) ++ tail) ∧
      Closing p.id phase tail

theorem replay_append_one (events : List EventKind) (ev : EventKind) (nodes : List PlanNode) :
    replay (events ++ [ev]) nodes = (replay events nodes).map (fun n => applyEvent n ev) := by
  simp [replay, replayNode, foldl_append]

theorem startedIds_append_one (events : List EventKind) (ev : EventKind) :
    startedIds (events ++ [ev]) = startedIds events ++ (startedId ev).toList := by
  cases h : startedId ev <;> simp [startedIds, h]

theorem rewriteNode_eq_map {p : Plan} (hids : p.ids.Nodup) (stepId : Uuid)
    (f : PlanNode → PlanNode) :
    (p.rewriteNode stepId f).nodes = p.nodes.map (fun n => if n.id = stepId then f n else n) :=
  updateFirst_eq_map (fun n : PlanNode => n.id) stepId f hids

/-- The invariant of a run: the log so far, its shape, and the plan it explains. -/
structure Recorded (ws : Uuid) (p : Plan) (log : List Event) {σ : Type} (s : EngineState σ)
    (events : List EventKind) : Prop where
  log_eq : s.log = log ++ events.map (Event.mk ws)
  id_eq : s.plan.id = p.id
  shape : WellShaped p s.phase events
  nodes_eq : s.plan.nodes = replay events p.nodes
  once : (startedIds events).Nodup
  left_pending : ∀ n ∈ s.plan.nodes, n.id ∈ startedIds events → n.status ≠ .pending
  failure_stops : (∃ ev ∈ events, IsFailure ev) → ∃ err, s.phase = .failing err ∨
    s.phase = .returned (.error err)
  failure_last : events.Pairwise (fun a b => IsFailure a → startedId b = none)
  failed_status : ∀ err, s.phase = .returned (.error err) → s.plan.status = .failed

variable {σ : Type} {ws : Uuid} {p : Plan} {log : List Event} {ex : StepExecutor σ}
  {s : EngineState σ} {events : List EventKind}

theorem recorded_enter (e : σ) :
    Recorded ws p log (enter ws p log e) [.planCreated p.id p.description] where
  log_eq := rfl
  id_eq := rfl
  shape := ⟨[], [], rfl, rfl⟩
  nodes_eq := by
    change p.nodes = p.nodes.map id
    rw [map_id]
  once := nodup_nil
  left_pending := by
    intro n _ hn
    simp [startedIds, startedId] at hn
  failure_stops := by
    rintro ⟨ev, hev, hfail⟩
    rw [mem_singleton] at hev
    subst hev
    exact hfail.elim
  failure_last := pairwise_singleton _ _
  failed_status err h := by simp [enter, emit] at h

variable {ev : EventKind}

theorem failure_last_append (h : events.Pairwise (fun a b => IsFailure a → startedId b = none))
    (hev : startedId ev = none ∨ ∀ a ∈ events, ¬ IsFailure a) :
    (events ++ [ev]).Pairwise (fun a b => IsFailure a → startedId b = none) := by
  rw [pairwise_append]
  refine ⟨h, pairwise_singleton _ _, ?_⟩
  intro a ha b hb hfail
  rw [mem_singleton] at hb
  subst hb
  rcases hev with hnone | hno
  · exact hnone
  · exact absurd hfail (hno a ha)

section

variable (hr : Recorded ws p log s events)
  (hphase : ∀ err, s.phase ≠ .failing err ∧ s.phase ≠ .returned (.error err))

include hr hphase

theorem no_failure_of_phase : ∀ a ∈ events, ¬ IsFailure a := by
  intro a ha hfail
  obtain ⟨err, h | h⟩ := hr.failure_stops ⟨a, ha, hfail⟩
  · exact (hphase err).1 h
  · exact (hphase err).2 h

theorem no_failure_append
      (hev : ¬ IsFailure ev) : ¬ ∃ a ∈ events ++ [ev], IsFailure a := by
  rintro ⟨a, ha, hfail⟩
  rcases mem_append.mp ha with hold | hnew
  · exact no_failure_of_phase hr hphase a hold hfail
  · exact hev (mem_singleton.mp hnew ▸ hfail)

end

theorem nodes_append (hr : Recorded ws p log s events) (ev : EventKind) :
    s.plan.nodes.map (fun n => applyEvent n ev) = replay (events ++ [ev]) p.nodes := by
  rw [replay_append_one, hr.nodes_eq]

theorem log_append (hr : Recorded ws p log s events) (ev : EventKind) :
    s.log ++ [⟨ws, ev⟩] = log ++ (events ++ [ev]).map (Event.mk ws) := by
  simp [hr.log_eq]

theorem applyEvent_id (n : PlanNode) (ev : EventKind) : (applyEvent n ev).id = n.id := by
  cases ev <;> simp only [applyEvent] <;> split <;> rfl

variable {n : PlanNode}

theorem applyEvent_not_pending (ev : EventKind) (h : n.status ≠ .pending) :
    (applyEvent n ev).status ≠ .pending := by
  cases ev with
  | planCreated | planCompleted => exact h
  | planStepStarted | planStepCompleted | planStepFailed =>
    simp only [applyEvent]
    split
    · simp [PlanNode.start, PlanNode.complete, PlanNode.fail]
    · exact h

theorem startedIds_append_none (h : startedId ev = none) :
    startedIds (events ++ [ev]) = startedIds events := by
  simp [startedIds_append_one, h]

section

variable (hr : Recorded ws p log s events)

include hr

theorem left_pending_append (ev : EventKind)
    (hev : ∀ n ∈ s.plan.nodes, n.id ∈ startedIds (events ++ [ev]) →
      n.id ∈ startedIds events ∨ (applyEvent n ev).status ≠ .pending) :
    ∀ n ∈ s.plan.nodes.map (fun n => applyEvent n ev),
      n.id ∈ startedIds (events ++ [ev]) → n.status ≠ .pending := by
  intro n hn hstarted
  obtain ⟨m, hm, rfl⟩ := mem_map.mp hn
  rw [applyEvent_id] at hstarted
  rcases hev m hm hstarted with hold | hnew
  · exact applyEvent_not_pending ev (hr.left_pending m hm hold)
  · exact hnew

theorem left_pending_append_none (ev : EventKind) (hev : startedId ev = none) :
    ∀ n ∈ s.plan.nodes.map (fun n => applyEvent n ev),
      n.id ∈ startedIds (events ++ [ev]) → n.status ≠ .pending := by
  apply left_pending_append hr ev
  intro n _ hn
  rw [startedIds_append_none hev] at hn
  exact .inl hn

theorem once_append_none (hev : startedId ev = none) : (startedIds (events ++ [ev])).Nodup := by
  rw [startedIds_append_none hev]
  exact hr.once

theorem recorded_finish (hphase : s.phase = .scanning) :
    Recorded ws p log
      (emit { s with plan := { s.plan with status := .completed }, phase := .returned (.ok ()) }
        ws (.planCompleted s.plan.id)) (events ++ [.planCompleted p.id]) where
  log_eq := by
    rw [← log_append hr, ← hr.id_eq]
    rfl
  id_eq := hr.id_eq
  shape := by
    obtain ⟨steps, tail, hevents, hclosing⟩ := hr.shape
    rw [hphase] at hclosing
    refine ⟨steps, [.planCompleted p.id], ?_, rfl⟩
    have htail : tail = [] := hclosing
    rw [hevents, htail]
    simp
  nodes_eq := by
    rw [← nodes_append hr]
    exact (map_id s.plan.nodes).symm
  once := once_append_none hr rfl
  left_pending := by
    rw [startedIds_append_none rfl]
    exact hr.left_pending
  failure_stops hfail := absurd hfail (no_failure_append hr (by simp [hphase]) id)
  failure_last := failure_last_append hr.failure_last (.inl rfl)
  failed_status err h := by simp [emit] at h

/-- The selected node was pending, so its id is new among the started ones. -/
theorem recorded_started (hids : s.plan.ids.Nodup) {next : PlanNode}
    (hphase : s.phase = .scanning) (hnext : s.plan.nextPendingNode = some next) :
    Recorded ws p log
      (emit { s with
          plan := s.plan.rewriteNode next.id PlanNode.start
          phase := .executing next.id }
        ws (.planStepStarted s.plan.id next.id))
      (events ++ [.planStepStarted p.id next.id]) where
  log_eq := by
    rw [← log_append hr, ← hr.id_eq]
    rfl
  id_eq := hr.id_eq
  shape := by
    obtain ⟨steps, tail, hevents, hclosing⟩ := hr.shape
    rw [hphase] at hclosing
    refine ⟨steps, [.planStepStarted p.id next.id], ?_, rfl⟩
    have htail : tail = [] := hclosing
    rw [hevents, htail]
    simp
  nodes_eq := by
    rw [← nodes_append hr]
    exact rewriteNode_eq_map hids next.id PlanNode.start
  once := by
    obtain ⟨hmem, hpending⟩ := Plan.nextPendingNode_mem s.plan next hnext
    have hfresh : next.id ∉ startedIds events :=
      fun hold => hr.left_pending next hmem hold hpending
    rw [startedIds_append_one]
    exact nodup_append.mpr ⟨hr.once, nodup_singleton _, by
      intro a ha b hb hab
      rw [Option.mem_toList] at hb
      cases Option.some.inj hb
      exact hfresh (hab ▸ ha)⟩
  left_pending := by
    change ∀ n ∈ (s.plan.rewriteNode next.id PlanNode.start).nodes, _
    rw [rewriteNode_eq_map hids next.id PlanNode.start]
    apply left_pending_append hr (.planStepStarted p.id next.id)
    intro n _ hn
    rw [startedIds_append_one, mem_append, Option.mem_toList] at hn
    rcases hn with hold | hnew
    · exact .inl hold
    · have hid : n.id = next.id := (Option.some.inj hnew).symm
      exact .inr (by simp [applyEvent, hid, PlanNode.start])
  failure_stops hfail := absurd hfail (no_failure_append hr (by simp [hphase]) id)
  failure_last := failure_last_append hr.failure_last
    (.inr (no_failure_of_phase hr (by simp [hphase])))
  failed_status err h := by simp [emit] at h

variable {stepId : Uuid}

theorem recorded_completed (hids : s.plan.ids.Nodup) (output : Json) (e : σ)
    (hphase : s.phase = .executing stepId) :
    Recorded ws p log
      (emit { s with
          plan := s.plan.rewriteNode stepId (PlanNode.complete output)
          executor := e
          phase := .scanning }
        ws (.planStepCompleted s.plan.id stepId output))
      (events ++ [.planStepCompleted p.id stepId output]) where
  log_eq := by
    rw [← log_append hr, ← hr.id_eq]
    rfl
  id_eq := hr.id_eq
  shape := by
    obtain ⟨steps, tail, hevents, hclosing⟩ := hr.shape
    rw [hphase] at hclosing
    refine ⟨steps ++ [(stepId, output)], [], ?_, rfl⟩
    have htail : tail = [.planStepStarted p.id stepId] := hclosing
    rw [hevents, htail]
    simp [stepPair]
  nodes_eq := by
    rw [← nodes_append hr]
    exact rewriteNode_eq_map hids stepId (PlanNode.complete output)
  once := once_append_none hr rfl
  left_pending := by
    change ∀ n ∈ (s.plan.rewriteNode stepId (PlanNode.complete output)).nodes, _
    rw [rewriteNode_eq_map hids stepId (PlanNode.complete output)]
    exact left_pending_append_none hr (.planStepCompleted p.id stepId output) rfl
  failure_stops hfail := absurd hfail (no_failure_append hr (by simp [hphase]) id)
  failure_last := failure_last_append hr.failure_last (.inl rfl)
  failed_status err h := by simp [emit] at h

theorem recorded_failed (hids : s.plan.ids.Nodup) (err : Error) (e : σ)
    (hphase : s.phase = .executing stepId) :
    Recorded ws p log
      (emit { s with
          plan := s.plan.rewriteNode stepId (PlanNode.fail err.toText)
          executor := e
          phase := .failing err }
        ws (.planStepFailed s.plan.id stepId err.toText))
      (events ++ [.planStepFailed p.id stepId err.toText]) where
  log_eq := by
    rw [← log_append hr, ← hr.id_eq]
    rfl
  id_eq := hr.id_eq
  shape := by
    obtain ⟨steps, tail, hevents, hclosing⟩ := hr.shape
    rw [hphase] at hclosing
    refine ⟨steps, _, ?_, ⟨stepId, rfl⟩⟩
    have htail : tail = [.planStepStarted p.id stepId] := hclosing
    rw [hevents, htail]
    simp
  nodes_eq := by
    rw [← nodes_append hr]
    exact rewriteNode_eq_map hids stepId (PlanNode.fail err.toText)
  once := once_append_none hr rfl
  left_pending := by
    change ∀ n ∈ (s.plan.rewriteNode stepId (PlanNode.fail err.toText)).nodes, _
    rw [rewriteNode_eq_map hids stepId (PlanNode.fail err.toText)]
    exact left_pending_append_none hr (.planStepFailed p.id stepId err.toText) rfl
  failure_stops := fun _ => ⟨err, .inl rfl⟩
  failure_last := failure_last_append hr.failure_last (.inl rfl)
  failed_status err' h := by simp [emit] at h

theorem recorded_failure {err : Error} (hphase : s.phase = .failing err) :
    Recorded ws p log
      { s with plan := { s.plan with status := .failed }, phase := .returned (.error err) }
      events where
  log_eq := hr.log_eq
  id_eq := hr.id_eq
  shape := by
    obtain ⟨steps, tail, hevents, hclosing⟩ := hr.shape
    rw [hphase] at hclosing
    exact ⟨steps, tail, hevents, hclosing⟩
  nodes_eq := hr.nodes_eq
  once := hr.once
  left_pending := hr.left_pending
  failure_stops := fun _ => ⟨err, .inr rfl⟩
  failure_last := hr.failure_last
  failed_status := fun _ _ => rfl

end

theorem recorded_step (hs : ExecutesNode s) (hids : s.plan.ids.Nodup)
    (hr : Recorded ws p log s events) : ∃ events', Recorded ws p log (step ws ex s) events' := by
  have hcase := step_cases ws ex hs
  generalize step ws ex s = t at hcase ⊢
  cases hcase with
  | finish hphase _ => exact ⟨_, recorded_finish hr hphase⟩
  | blocked | halted => exact ⟨events, hr⟩
  | started next _ hphase hnext => exact ⟨_, recorded_started hr hids hphase hnext⟩
  | completed stepId output e hphase =>
    exact ⟨_, recorded_completed hr hids output e hphase⟩
  | failed stepId err e hphase => exact ⟨_, recorded_failed hr hids err e hphase⟩
  | failure err hphase => exact ⟨events, recorded_failure hr hphase⟩

theorem recorded_stateAt (e : σ) (hids : p.ids.Nodup) (k : ℕ) :
    ∃ events, Recorded ws p log (stateAt ws ex p log e k) events := by
  induction k with
  | zero => exact ⟨_, recorded_enter e⟩
  | succ k ih =>
    obtain ⟨events, hr⟩ := ih
    rw [stateAt_succ]
    refine recorded_step (stateAt_executesNode ws ex p log e k) ?_ hr
    rw [stateAt_ids]
    exact hids

/-- A step is announced only when each of its dependencies is completed. -/
theorem started_deps_completed {e : σ} (hids : p.ids.Nodup) {k : ℕ} (stepId : Uuid)
    (hlog : (stateAt ws ex p log e (k + 1)).log =
      (stateAt ws ex p log e k).log ++ [⟨ws, .planStepStarted p.id stepId⟩]) :
    ∀ n ∈ (stateAt ws ex p log e (k + 1)).plan.nodes, n.id = stepId →
      ∀ depId ∈ n.dependencies, ∃ m ∈ (stateAt ws ex p log e (k + 1)).plan.nodes,
        m.id = depId ∧ m.status = .completed := by
  have hexec := stateAt_executesNode ws ex p log e k
  have hnodup : (stateAt ws ex p log e k).plan.ids.Nodup := by
    rw [stateAt_ids]
    exact hids
  rw [stateAt_succ] at hlog ⊢
  generalize stateAt ws ex p log e k = s at *
  have hcase := step_cases ws ex hexec
  generalize step ws ex s = t at hcase hlog ⊢
  cases hcase with
  | finish | completed | failed => simp [emit] at hlog
  | blocked | failure | halted => simp at hlog
  | started next node hphase hnext hnode hdeps =>
    obtain ⟨hmem, hpending⟩ := Plan.nextPendingNode_mem s.plan next hnext
    have hself : node = next := by
      rw [Plan.findNode_unique s.plan hnodup next hmem] at hnode
      exact (Option.some.inj hnode).symm
    subst hself
    have hnodes := rewriteNode_eq_map hnodup node.id PlanNode.start
    have hid : node.id = stepId := by
      have hev := append_cancel_left hlog
      simp only [cons.injEq, Event.mk.injEq, EventKind.planStepStarted.injEq] at hev
      exact hev.1.2.2
    intro n hn hnid depId hdep
    change n ∈ (s.plan.rewriteNode node.id PlanNode.start).nodes at hn
    rw [hnodes] at hn
    obtain ⟨old, hold, rfl⟩ := mem_map.mp hn
    have holdid : old.id = node.id := by
      rw [← hid] at hnid
      revert hnid
      split <;> exact id
    have hsame : old = node := inj_on_of_nodup_map hnodup hold hmem holdid
    subst hsame
    rw [if_pos rfl] at hdep
    obtain ⟨m, hm, hstatus⟩ := (Plan.depsMet_iff s.plan old).mp hdeps depId hdep
    obtain ⟨hmmem, hmid⟩ := Plan.findNode_mem s.plan depId m hm
    -- The dependency is completed and the started node was pending, so they differ.
    have hne : m.id ≠ old.id := by
      intro heq
      have hmold : m = old := inj_on_of_nodup_map hnodup hmmem hmem heq
      simp [hmold, hpending] at hstatus
    refine ⟨m, ?_, hmid, hstatus⟩
    change m ∈ (s.plan.rewriteNode old.id PlanNode.start).nodes
    rw [hnodes]
    exact mem_map.mpr ⟨m, hmmem, if_neg hne⟩

theorem mem_startedIds {planId : Uuid}
    (h : EventKind.planStepStarted planId stepId ∈ events) : stepId ∈ startedIds events :=
  mem_filterMap.mpr ⟨_, h, rfl⟩

/-- Every event of a well-shaped log that names a step names a started one. -/
theorem wellShaped_untouched {phase : Phase} (hshape : WellShaped p phase events)
    (hn : n.id ∉ startedIds events) : ∀ ev ∈ events, applyEvent n ev = n := by
  have hne : ∀ planId stepId, EventKind.planStepStarted planId stepId ∈ events → n.id ≠ stepId := by
    intro planId stepId hmem heq
    exact hn (heq ▸ mem_startedIds hmem)
  obtain ⟨steps, tail, hevents, hclosing⟩ := hshape
  have hpair : ∀ step ∈ steps, n.id ≠ step.1 := by
    intro step hstep
    refine hne p.id step.1 ?_
    rw [hevents]
    refine mem_cons_of_mem _ (mem_append_left _ (mem_flatMap.mpr ⟨step, hstep, ?_⟩))
    exact mem_cons_self
  have htail : ∀ stepId, EventKind.planStepStarted p.id stepId ∈ tail → n.id ≠ stepId := by
    intro stepId hmem
    refine hne p.id stepId ?_
    rw [hevents]
    exact mem_cons_of_mem _ (mem_append_right _ hmem)
  intro ev hev
  rw [hevents, mem_cons, mem_append, mem_flatMap] at hev
  rcases hev with rfl | ⟨step, hstep, hev⟩ | hev
  · rfl
  · have hid := hpair step hstep
    simp only [stepPair, mem_cons, not_mem_nil, or_false] at hev
    rcases hev with rfl | rfl <;> exact if_neg hid
  · match phase, hclosing with
    | .scanning, hclosing =>
      have hnil : tail = [] := hclosing
      simp [hnil] at hev
    | .executing stepId, hclosing =>
      have hsingle : tail = [.planStepStarted p.id stepId] := hclosing
      rw [hsingle, mem_singleton] at hev
      subst hev
      exact if_neg (htail stepId (by simp [hsingle]))
    | .failing err, hclosing | .returned (.error err), hclosing =>
      obtain ⟨stepId, hpairTail⟩ := hclosing
      have hid := htail stepId (by simp [hpairTail])
      rw [hpairTail, mem_cons, mem_singleton] at hev
      rcases hev with rfl | rfl <;> exact if_neg hid
    | .returned (.ok _), hclosing =>
      have hsingle : tail = [.planCompleted p.id] := hclosing
      rw [hsingle, mem_singleton] at hev
      subst hev
      rfl

theorem replayNode_eq_self (h : ∀ ev ∈ events, applyEvent n ev = n) : replayNode events n = n := by
  induction events with
  | nil => rfl
  | cons ev rest ih =>
    have hev := h ev mem_cons_self
    have hrest := ih (fun b hb => h b (mem_cons_of_mem ev hb))
    simpa [replayNode, hev] using hrest

/-- The log explains the plan at every stop: steps start once, after their dependencies and before
any failure, and replaying it gives the nodes. -/
theorem execute_log_explains_plan (ws : Uuid) (ex : StepExecutor σ) (p : Plan)
    (log : List Event) (e : σ) (hids : p.ids.Nodup) (k : ℕ) :
    (∀ stepId, (stateAt ws ex p log e (k + 1)).log =
        (stateAt ws ex p log e k).log ++ [⟨ws, .planStepStarted p.id stepId⟩] →
      ∀ n ∈ (stateAt ws ex p log e (k + 1)).plan.nodes, n.id = stepId →
        ∀ depId ∈ n.dependencies, ∃ m ∈ (stateAt ws ex p log e (k + 1)).plan.nodes,
          m.id = depId ∧ m.status = .completed) ∧
    ∃ events,
      (stateAt ws ex p log e k).log = log ++ events.map (Event.mk ws) ∧
      WellShaped p (stateAt ws ex p log e k).phase events ∧
      (startedIds events).Nodup ∧
      events.Pairwise (fun a b => IsFailure a → startedId b = none) ∧
      (stateAt ws ex p log e k).plan.nodes = replay events p.nodes ∧
      ∀ err, (stateAt ws ex p log e k).phase = .returned (.error err) →
        (stateAt ws ex p log e k).plan.status = .failed ∧
        ∀ n ∈ p.nodes, n.id ∉ startedIds events → n ∈ (stateAt ws ex p log e k).plan.nodes := by
  have hrecorded : ∃ events, Recorded ws p log (stateAt ws ex p log e k) events :=
    recorded_stateAt e hids k
  obtain ⟨events, hr⟩ := hrecorded
  refine ⟨started_deps_completed (e := e) hids (k := k), events, hr.log_eq, hr.shape, hr.once,
    hr.failure_last, hr.nodes_eq, ?_⟩
  intro err herr
  refine ⟨hr.failed_status err herr, ?_⟩
  intro n hn hstarted
  have hself : replayNode events n = n :=
    replayNode_eq_self (wellShaped_untouched hr.shape hstarted)
  rw [hr.nodes_eq]
  exact mem_map.mpr ⟨n, hn, hself⟩

def chainPlan : Plan :=
  ((Plan.new 7 "chain" 9).addNode (PlanNode.new 1 "first" .checkpoint)).addNode
    ((PlanNode.new 2 "second" .checkpoint).withDependency 1)

theorem execute_log_explains_chain :
    chainPlan.ids.Nodup ∧ ∃ events,
      (stateAt 5 noopExecutor chainPlan [] () 4).log = [] ++ events.map (Event.mk 5) ∧
      (startedIds events).Nodup ∧
      (stateAt 5 noopExecutor chainPlan [] () 4).plan.nodes = replay events chainPlan.nodes := by
  have hids : chainPlan.ids.Nodup := by decide
  obtain ⟨-, events, hlog, -, honce, -, hnodes, -⟩ :=
    execute_log_explains_plan 5 noopExecutor chainPlan [] () hids 4
  exact ⟨hids, events, hlog, honce, hnodes⟩

end IronGolem.EngineLog
