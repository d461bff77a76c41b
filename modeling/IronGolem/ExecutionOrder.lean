import IronGolem.WorkflowEngine
import Mathlib.Data.List.Induction

/-!
Which plans the engine's loop gets through. The loop always goes back to the first pending node, so
the vector order of the nodes decides the run: a pending node is executed only if no earlier node
carries its id and every dependency stands before it or is completed from the start. For plans of
that kind every run returns.
-/
namespace IronGolem.ExecutionOrder

open FirstMatch Identifiers JsonValues PlanGraph WorkflowEngine EngineState List

variable (p : Plan)

def ReadyAt (pre : List PlanNode) (n : PlanNode) : Prop :=
  (∀ m ∈ pre, m.id ≠ n.id) ∧
    ∀ depId ∈ n.dependencies, ∃ m, p.findNode depId = some m ∧
      (m.status = .completed ∨ m.status = .pending ∧ m ∈ pre)

def PendingReady : Prop :=
  ∀ pre n post, p.nodes = pre ++ n :: post → n.status = .pending → ReadyAt p pre n

def DependsOn (a b : Uuid) : Prop :=
  ∃ n ∈ p.nodes, n.id = a ∧ b ∈ n.dependencies

/-- What a plan author can be expected to deliver, in any vector order. -/
structure WellFormed (p : Plan) : Prop where
  distinct : p.ids.Nodup
  pending : ∀ n ∈ p.nodes, n.status = .pending
  closed : ∀ n ∈ p.nodes, ∀ depId ∈ n.dependencies, depId ∈ p.ids
  acyclic : ∀ a, ¬ Relation.TransGen (DependsOn p) a a

variable {σ : Type}

def StepsSucceed (ws : Uuid) (ex : StepExecutor σ) (p : Plan) (log : List Event) (e : σ) : Prop :=
  ∀ k stepId, (stateAt ws ex p log e k).phase = .executing stepId →
    ∃ output, (ex.executeStep (stateAt ws ex p log e k).executor
      (stateAt ws ex p log e k).plan stepId).1 = .ok output

theorem stepsSucceed_of_succeeds (ws : Uuid) {ex : StepExecutor σ} (p : Plan)
    (log : List Event) (e : σ) (h : ex.Succeeds) : StepsSucceed ws ex p log e :=
  fun _ stepId _ => h _ _ stepId

/-- The engine returns, and a run without a failed step completes every node. -/
def ExecuteContract : Prop :=
  (∀ (σ : Type) (ws : Uuid) (ex : StepExecutor σ) (log : List Event) (e : σ),
    ∃ k, Returned (stateAt ws ex p log e k)) ∧
  (WellFormed p → ∀ (σ : Type) (ws : Uuid) (ex : StepExecutor σ) (log : List Event) (e : σ),
    StepsSucceed ws ex p log e →
      ∃ k, (stateAt ws ex p log e k).phase = .returned (.ok ()) ∧
        (stateAt ws ex p log e k).plan.AllCompleted)

def Sweeps (a b : PlanNode) : Prop :=
  (a.status = .pending ∧ ∃ output, b = a.complete output) ∨ (a.status ≠ .pending ∧ b = a)

def Swept (before after : List PlanNode) : Prop := List.Forall₂ Sweeps before after

variable {a b : PlanNode}

theorem Sweeps.id_eq (h : Sweeps a b) : b.id = a.id := by
  rcases h with ⟨_, output, rfl⟩ | ⟨_, rfl⟩ <;> rfl

theorem Sweeps.not_pending (h : Sweeps a b) : b.status ≠ .pending := by
  rcases h with ⟨_, output, rfl⟩ | ⟨hstatus, rfl⟩
  · simp [PlanNode.complete]
  · exact hstatus

theorem Sweeps.completed_iff (h : Sweeps a b) :
    b.status = .completed ↔ a.status = .completed ∨ a.status = .pending := by
  rcases h with ⟨hstatus, output, rfl⟩ | ⟨hstatus, rfl⟩
  · simp [PlanNode.complete, hstatus]
  · simp [hstatus]

variable {before after : List PlanNode}

section

variable (h : Swept before after)

include h

theorem Swept.exists_before :
    ∀ b ∈ after, ∃ a ∈ before, Sweeps a b := forall₂_exists_left h

theorem Swept.exists_after : ∀ a ∈ before, ∃ b ∈ after, Sweeps a b :=
  forall₂_exists_left (List.Forall₂.flip (R := fun b a => Sweeps a b) h)

theorem Swept.not_pending : ∀ n ∈ after, n.status ≠ .pending := by
  intro n hn
  obtain ⟨a, -, hsweeps⟩ := h.exists_before n hn
  exact hsweeps.not_pending

theorem Swept.snoc (hab : Sweeps a b) : Swept (before ++ [a]) (after ++ [b]) :=
  rel_append h (List.Forall₂.cons hab List.Forall₂.nil)

theorem Swept.find? (nodeId : Uuid) :
    (before.find? (fun n => n.id == nodeId) = none ∧
      after.find? (fun n => n.id == nodeId) = none) ∨
    ∃ a b, before.find? (fun n => n.id == nodeId) = some a ∧
      after.find? (fun n => n.id == nodeId) = some b ∧ Sweeps a b := by
  induction h with
  | nil => exact .inl ⟨rfl, rfl⟩
  | @cons a b before after hab _ ih =>
    by_cases hid : a.id = nodeId
    · refine .inr ⟨a, b, ?_, ?_, hab⟩
      · simp [hid]
      · simp [hab.id_eq, hid]
    · simpa [hid, hab.id_eq] using ih

theorem Swept.exists_id_iff
    (nodeId : Uuid) : (∃ n ∈ after, n.id = nodeId) ↔ ∃ n ∈ before, n.id = nodeId := by
  induction h with
  | nil => rfl
  | cons hab _ ih => simp [hab.id_eq, ih]

end

theorem depsMet_swept_iff {p q : Plan} {pre cur rest : List PlanNode} (n : PlanNode)
    (hp : p.nodes = pre ++ rest) (hq : q.nodes = cur ++ rest) (hswept : Swept pre cur) :
    q.depsMet n = true ↔
      ∀ depId ∈ n.dependencies, ∃ m, p.findNode depId = some m ∧
        (m.status = .completed ∨ m.status = .pending ∧ m ∈ pre) := by
  rw [Plan.depsMet_iff]
  refine forall₂_congr fun depId _ => ?_
  have hpfind : p.findNode depId = (pre.find? (fun n => n.id == depId)).or
      (rest.find? (fun n => n.id == depId)) := by
    rw [Plan.findNode, hp, find?_append]
  have hqfind : q.findNode depId = (cur.find? (fun n => n.id == depId)).or
      (rest.find? (fun n => n.id == depId)) := by
    rw [Plan.findNode, hq, find?_append]
  rcases hswept.find? depId with ⟨hpre, hcur⟩ | ⟨a, b, hpre, hcur, hab⟩
  · -- The id first occurs behind the sweep, where nothing has changed.
    have hnot : ∀ m ∈ pre, m.id ≠ depId := by
      intro m hm
      simpa using find?_eq_none.mp hpre m hm
    rw [hpfind, hqfind, hpre, hcur]
    refine exists_congr fun m => and_congr_right fun hm => ?_
    have hid : m.id = depId := by simpa using find?_some hm
    exact ⟨.inl, fun h => h.resolve_right fun hmem => hnot m hmem.2 hid⟩
  · have hmem : a ∈ pre := mem_of_find?_eq_some hpre
    rw [hpfind, hqfind, hpre, hcur]
    simp only [Option.some_or, Option.some.injEq, exists_eq_left']
    rw [hab.completed_iff]
    exact or_congr_right ⟨fun h => ⟨h, hmem⟩, fun h => h.1⟩

section Loop

variable {ws : Uuid} {ex : StepExecutor σ} {s : EngineState σ}
  {cur post : List PlanNode} {n : PlanNode}

theorem nextPendingNode_split (hnodes : s.plan.nodes = cur ++ n :: post)
    (hcur : ∀ m ∈ cur, m.status ≠ .pending) (hn : n.status = .pending) :
    s.plan.nextPendingNode = some n := by
  rw [Plan.nextPendingNode, hnodes]
  exact find?_split _ cur post (by simpa using hcur) (by simp [hn])

theorem findNode_split (hnodes : s.plan.nodes = cur ++ n :: post)
    (hfirst : ∀ m ∈ cur, m.id ≠ n.id) : s.plan.findNode n.id = some n := by
  rw [Plan.findNode, hnodes]
  exact find?_split _ cur post (by simpa using hfirst) (by simp)

theorem rewriteNode_split (f : PlanNode → PlanNode) (hnodes : s.plan.nodes = cur ++ n :: post)
    (hfirst : ∀ m ∈ cur, m.id ≠ n.id) : (s.plan.rewriteNode n.id f).nodes = cur ++ f n :: post := by
  rw [Plan.rewriteNode_nodes, hnodes]
  exact updateFirst_split _ f cur post (by simpa using hfirst) (by simp)

theorem scan_finish (hphase : s.phase = .scanning) (hnone : s.plan.nextPendingNode = none) :
    step ws ex s =
      emit { s with plan := { s.plan with status := .completed }, phase := .returned (.ok ()) }
        ws (.planCompleted s.plan.id) := by
  simp [step, hphase, scan, hnone]

variable {next node : PlanNode}

section

variable (hphase : s.phase = .scanning) (hnext : s.plan.nextPendingNode = some next)
  (hnode : s.plan.findNode next.id = some node)

include hphase hnext hnode

theorem scan_start (hdeps : s.plan.depsMet node = true) :
    step ws ex s =
      emit { s with plan := s.plan.rewriteNode next.id PlanNode.start, phase := .executing next.id }
        ws (.planStepStarted s.plan.id next.id) := by
  have hmem := (Plan.nextPendingNode_mem s.plan next hnext).1
  simp [step, hphase, scan, hnext, hnode, hdeps, Plan.updateNode_of_mem s.plan next PlanNode.start
    hmem, Plan.rewriteNode]

theorem scan_blocked (hdeps : s.plan.depsMet node = false) : step ws ex s = s := by
  simp [step, hphase, scan, hnext, hnode, hdeps]

end

variable {stepId : Uuid} (hphase : s.phase = .executing stepId)
  (hmem : ∃ m ∈ s.plan.nodes, m.id = stepId)

include hphase hmem

theorem finish_ok {output : Json}
    (hanswer : (ex.executeStep s.executor s.plan stepId).1 = .ok output) :
    (step ws ex s).phase = .scanning ∧
      (step ws ex s).plan = s.plan.rewriteNode stepId (PlanNode.complete output) := by
  obtain ⟨m, hm, rfl⟩ := hmem
  rcases hcall : ex.executeStep s.executor s.plan m.id with ⟨answer, e⟩
  rw [hcall] at hanswer
  subst hanswer
  simp [step, hphase, finishStep, hcall, Plan.updateNode_of_mem s.plan m _ hm, emit]

theorem finish_error {err : Error}
    (hanswer : (ex.executeStep s.executor s.plan stepId).1 = .error err) :
    (step ws ex s).phase = .failing err := by
  obtain ⟨m, hm, rfl⟩ := hmem
  rcases hcall : ex.executeStep s.executor s.plan m.id with ⟨answer, e⟩
  rw [hcall] at hanswer
  subst hanswer
  simp [step, hphase, finishStep, hcall, Plan.updateNode_of_mem s.plan m _ hm, emit]

end Loop

section

variable {ws : Uuid} {ex : StepExecutor σ} {p : Plan} {log : List Event} {e : σ} {j k : ℕ}

theorem returned_of_le (hjk : j ≤ k) (h : Returned (stateAt ws ex p log e j)) :
    stateAt ws ex p log e k = stateAt ws ex p log e j := by
  obtain ⟨d, rfl⟩ := Nat.exists_eq_add_of_le' hjk
  rw [stateAt_add]
  exact Function.iterate_fixed (step_returned ws ex h) d

theorem returned_unique (hj : Returned (stateAt ws ex p log e j))
    (hk : Returned (stateAt ws ex p log e k)) :
    stateAt ws ex p log e j = stateAt ws ex p log e k := by
  rcases Nat.le_total j k with hjk | hkj
  · exact (returned_of_le hjk hj).symm
  · exact returned_of_le hkj hk

variable {n : PlanNode}

/-- From the loop test at a ready node, the run completes the node or returns an error. -/
theorem sweep_one {pre cur post : List PlanNode}
    (hp : p.nodes = pre ++ n :: post) (hn : n.status = .pending) (hready : ReadyAt p pre n)
    (hphase : (stateAt ws ex p log e k).phase = .scanning) (hswept : Swept pre cur)
    (hnodes : (stateAt ws ex p log e k).plan.nodes = cur ++ n :: post) :
    ((∃ j, Returned (stateAt ws ex p log e j)) ∧ ¬ StepsSucceed ws ex p log e) ∨
    ∃ j, (stateAt ws ex p log e j).phase = .scanning ∧
      ∃ output, (stateAt ws ex p log e j).plan.nodes = cur ++ n.complete output :: post := by
  have hfirst : ∀ m ∈ cur, m.id ≠ n.id := by
    intro m hm hid
    obtain ⟨m', hm', hid'⟩ := (hswept.exists_id_iff n.id).mp ⟨m, hm, hid⟩
    exact hready.1 m' hm' hid'
  have hdeps : (stateAt ws ex p log e k).plan.depsMet n = true :=
    (depsMet_swept_iff n hp hnodes hswept).mpr hready.2
  have hstart : step ws ex (stateAt ws ex p log e k) = _ :=
    scan_start hphase (nextPendingNode_split hnodes hswept.not_pending hn)
      (findNode_split hnodes hfirst) hdeps
  rw [← stateAt_succ] at hstart
  have hphase1 : (stateAt ws ex p log e (k + 1)).phase = .executing n.id := by
    rw [hstart]
    rfl
  have hnodes1 : (stateAt ws ex p log e (k + 1)).plan.nodes = cur ++ n.start :: post := by
    rw [hstart]
    exact rewriteNode_split PlanNode.start hnodes hfirst
  have hmem1 := stateAt_executesNode ws ex p log e (k + 1) n.id hphase1
  cases hanswer : (ex.executeStep (stateAt ws ex p log e (k + 1)).executor
      (stateAt ws ex p log e (k + 1)).plan n.id).1 with
  | ok output =>
    have hfinish : (step ws ex (stateAt ws ex p log e (k + 1))).phase = .scanning ∧ _ :=
      finish_ok hphase1 hmem1 hanswer
    rw [← stateAt_succ] at hfinish
    obtain ⟨hphase2, hplan2⟩ := hfinish
    refine .inr ⟨k + 1 + 1, hphase2, output, ?_⟩
    rw [hplan2]
    exact rewriteNode_split (PlanNode.complete output) hnodes1 hfirst (n := n.start)
  | error err =>
    have hphase2 : (step ws ex (stateAt ws ex p log e (k + 1))).phase = .failing err :=
      finish_error hphase1 hmem1 hanswer
    rw [← stateAt_succ] at hphase2
    refine .inl ⟨⟨k + 1 + 1 + 1, .error err, ?_⟩, ?_⟩
    · rw [stateAt_succ]
      simp [step, hphase2]
    · intro hsucceed
      obtain ⟨output, hok⟩ := hsucceed (k + 1) n.id hphase1
      rw [hanswer] at hok
      cases hok

theorem sweep_prefix (pre : List PlanNode) : ∀ post, p.nodes = pre ++ post →
    (∀ a n b, pre = a ++ n :: b → n.status = .pending → ReadyAt p a n) →
    ((∃ j, Returned (stateAt ws ex p log e j)) ∧ ¬ StepsSucceed ws ex p log e) ∨
    ∃ k cur, (stateAt ws ex p log e k).phase = .scanning ∧ Swept pre cur ∧
      (stateAt ws ex p log e k).plan.nodes = cur ++ post := by
  induction pre using reverseRecOn with
  | nil =>
    intro post hp _
    exact .inr ⟨0, [], rfl, List.Forall₂.nil, hp⟩
  | append_singleton pre n ih =>
    intro post hp hready
    have hp' : p.nodes = pre ++ n :: post := by simpa using hp
    have hreadyPre : ∀ a m b, pre = a ++ m :: b → m.status = .pending → ReadyAt p a m := by
      intro a m b hpre hm
      exact hready a m (b ++ [n]) (by simp [hpre]) hm
    rcases ih (n :: post) hp' hreadyPre with hfail | ⟨k, cur, hphase, hswept, hnodes⟩
    · exact .inl hfail
    · by_cases hn : n.status = .pending
      · have hn' : ReadyAt p pre n := hready pre n [] rfl hn
        rcases sweep_one hp' hn hn' hphase hswept hnodes with
          hfail | ⟨j, hphasej, output, hnodesj⟩
        · exact .inl hfail
        · refine .inr ⟨j, cur ++ [n.complete output], hphasej, ?_, by simp [hnodesj]⟩
          exact hswept.snoc (.inl ⟨hn, output, rfl⟩)
      · exact .inr ⟨k, cur ++ [n], hphase, hswept.snoc (.inr ⟨hn, rfl⟩), by simp [hnodes]⟩

theorem completes_of_pendingReady (hready : PendingReady p) :
    ((∃ j, Returned (stateAt ws ex p log e j)) ∧ ¬ StepsSucceed ws ex p log e) ∨
    ∃ k, (stateAt ws ex p log e k).phase = .returned (.ok ()) ∧
      Swept p.nodes (stateAt ws ex p log e k).plan.nodes := by
  rcases sweep_prefix p.nodes [] (append_nil _).symm hready with
    hfail | ⟨k, cur, hphase, hswept, hnodes⟩
  · exact .inl hfail
  · rw [append_nil] at hnodes
    have hnone : (stateAt ws ex p log e k).plan.nextPendingNode = none := by
      rw [Plan.nextPendingNode_eq_none_iff, hnodes]
      exact hswept.not_pending
    have hstep : step ws ex (stateAt ws ex p log e k) = _ := scan_finish hphase hnone
    rw [← stateAt_succ] at hstep
    refine .inr ⟨k + 1, ?_, ?_⟩
    · rw [hstep]
      rfl
    · rw [hstep]
      exact hnodes ▸ hswept

/-- A state the loop cannot leave: a shadowed pending node, or one with an unmet dependency. -/
structure Stuck (s : EngineState σ) (cur : List PlanNode) (n : PlanNode)
    (post : List PlanNode) : Prop where
  nodes_eq : s.plan.nodes = cur ++ n :: post
  swept : ∀ m ∈ cur, m.status ≠ .pending
  pending : n.status = .pending
  cause : ((∃ m ∈ cur, m.id = n.id) ∧ (s.phase = .scanning ∨ s.phase = .executing n.id)) ∨
    (s.phase = .scanning ∧ (∀ m ∈ cur, m.id ≠ n.id) ∧ s.plan.depsMet n = false)

variable {s : EngineState σ}

theorem Stuck.not_returned {cur post : List PlanNode} (h : Stuck s cur n post) : ¬ Returned s := by
  rintro ⟨result, hphase⟩
  rcases h.cause with ⟨_, hscan | hexec⟩ | ⟨hscan, _⟩
  · simp [hphase] at hscan
  · simp [hphase] at hexec
  · simp [hphase] at hscan

theorem Stuck.rewrite {cur post : List PlanNode}
    (h : Stuck s cur n post) (hdup : ∃ m ∈ cur, m.id = n.id) (f : PlanNode → PlanNode)
    (hid : ∀ m, (f m).id = m.id) (hf : ∀ m, (f m).status ≠ .pending) (t : EngineState σ)
    (ht : t.plan = s.plan.rewriteNode n.id f)
    (hphase : t.phase = .scanning ∨ t.phase = .executing n.id) : ∃ cur', Stuck t cur' n post := by
  have hleft : ∃ m ∈ cur, (fun m : PlanNode => m.id == n.id) m = true := by
    obtain ⟨m, hm, hmid⟩ := hdup
    exact ⟨m, hm, by simp [hmid]⟩
  refine ⟨updateFirst (fun m => m.id == n.id) f cur, ?_, ?_, h.pending, .inl ⟨?_, hphase⟩⟩
  · rw [ht, Plan.rewriteNode_nodes, h.nodes_eq]
    exact updateFirst_append_left _ f cur (n :: post) hleft
  · exact forall_updateFirst _ f (fun m => m.status ≠ .pending) h.swept (fun m _ _ => hf m)
  · obtain ⟨m, hm, hmid⟩ := hdup
    have hmem : n.id ∈ (updateFirst (fun m => m.id == n.id) f cur).map (·.id) := by
      rw [map_updateFirst _ f (fun m => m.id) hid cur]
      exact mem_map.mpr ⟨m, hm, hmid⟩
    exact mem_map.mp hmem

theorem stuck_succ (hsucceed : StepsSucceed ws ex p log e)
    {cur post : List PlanNode} (h : Stuck (stateAt ws ex p log e k) cur n post) :
    ∃ cur', Stuck (stateAt ws ex p log e (k + 1)) cur' n post := by
  have hnext : (stateAt ws ex p log e k).plan.nextPendingNode = some n :=
    nextPendingNode_split h.nodes_eq h.swept h.pending
  rcases h.cause with ⟨hdup, hscan | hexec⟩ | ⟨hscan, hfirst, hdeps⟩
  · obtain ⟨node, hnode⟩ :=
      Plan.findNode_of_mem _ n (Plan.nextPendingNode_mem _ n hnext).1
    cases hdeps : (stateAt ws ex p log e k).plan.depsMet node with
    | true =>
      have hstart : step ws ex (stateAt ws ex p log e k) = _ :=
        scan_start hscan hnext hnode hdeps
      rw [← stateAt_succ] at hstart
      refine h.rewrite hdup PlanNode.start (fun _ => rfl) (by simp [PlanNode.start]) _ ?_ ?_
      · rw [hstart]
        rfl
      · rw [hstart]
        exact .inr rfl
    | false =>
      have hsame : step ws ex (stateAt ws ex p log e k) = _ :=
        scan_blocked hscan hnext hnode hdeps
      rw [stateAt_succ, hsame]
      exact ⟨cur, h⟩
  · obtain ⟨output, hanswer⟩ := hsucceed k n.id hexec
    have hfinish : (step ws ex (stateAt ws ex p log e k)).phase = .scanning ∧ _ :=
      finish_ok hexec (stateAt_executesNode ws ex p log e k n.id hexec) hanswer
    rw [← stateAt_succ] at hfinish
    exact h.rewrite hdup (PlanNode.complete output) (fun _ => rfl) (by simp [PlanNode.complete]) _
      hfinish.2 (.inl hfinish.1)
  · have hsame : step ws ex (stateAt ws ex p log e k) = _ :=
      scan_blocked hscan hnext (findNode_split h.nodes_eq hfirst) hdeps
    rw [stateAt_succ, hsame]
    exact ⟨cur, h⟩

theorem exists_first_unready (h : ¬ PendingReady p) :
    ∃ pre n post, p.nodes = pre ++ n :: post ∧ n.status = .pending ∧ ¬ ReadyAt p pre n ∧
      ∀ a m b, pre = a ++ m :: b → m.status = .pending → ReadyAt p a m := by
  classical
  have hex : ∃ i pre n post, p.nodes = pre ++ n :: post ∧ n.status = .pending ∧
      ¬ ReadyAt p pre n ∧ pre.length = i := by
    simp only [PendingReady, not_forall] at h
    obtain ⟨pre, n, post, hp, hn, hnot⟩ := h
    exact ⟨pre.length, pre, n, post, hp, hn, hnot, rfl⟩
  obtain ⟨pre, n, post, hp, hn, hnot, hlen⟩ := Nat.find_spec hex
  refine ⟨pre, n, post, hp, hn, hnot, ?_⟩
  intro a m b hpre hm
  by_contra hbad
  have hlt : a.length < Nat.find hex := by
    rw [← hlen, hpre]
    simp
  exact Nat.find_min hex hlt ⟨a, m, b ++ n :: post, by simp [hp, hpre], hm, hbad, rfl⟩

theorem never_returns_of_not_pendingReady (hnot : ¬ PendingReady p)
    (hsucceed : StepsSucceed ws ex p log e) (j : ℕ) : ¬ Returned (stateAt ws ex p log e j) := by
  obtain ⟨pre, n, post, hp, hn, hunready, hready⟩ := exists_first_unready hnot
  rcases sweep_prefix pre (n :: post) hp hready with hfail | ⟨k, cur, hphase, hswept, hnodes⟩
  · exact absurd hsucceed hfail.2
  · have hstuck : Stuck (stateAt ws ex p log e k) cur n post := by
      refine ⟨hnodes, hswept.not_pending, hn, ?_⟩
      by_cases hdup : ∃ m ∈ cur, m.id = n.id
      · exact .inl ⟨hdup, .inl hphase⟩
      · have hfirst : ∀ m ∈ cur, m.id ≠ n.id := fun m hm hid => hdup ⟨m, hm, hid⟩
        have hfirstPre : ∀ m ∈ pre, m.id ≠ n.id := by
          intro m hm hid
          exact hdup ((hswept.exists_id_iff n.id).mpr ⟨m, hm, hid⟩)
        refine .inr ⟨hphase, hfirst, ?_⟩
        rw [← Bool.not_eq_true]
        intro hdeps
        exact hunready ⟨hfirstPre, (depsMet_swept_iff n hp hnodes hswept).mp hdeps⟩
    have hlater : ∀ d, ∃ cur', Stuck (stateAt ws ex p log e (k + d)) cur' n post := by
      intro d
      induction d with
      | zero => exact ⟨cur, hstuck⟩
      | succ d ih =>
        obtain ⟨cur', h'⟩ := ih
        exact stuck_succ hsucceed h'
    intro hret
    -- A return at `j` would persist, but the run is still stuck at `k + j`.
    obtain ⟨cur', h'⟩ := hlater j
    rw [returned_of_le (Nat.le_add_left j k) hret] at h'
    exact h'.not_returned hret

end

/-- The engine keeps its contract exactly when each pending node is the first with its id and has
every dependency before it, pending, or completed from the start. -/
theorem execute_contract_iff_pendingReady (p : Plan) :
    (ExecuteContract p ↔ PendingReady p) ∧
    ∀ (σ : Type) (ws : Uuid) (ex : StepExecutor σ) (log : List Event) (e : σ),
      StepsSucceed ws ex p log e →
        ((∃ k, Returned (stateAt ws ex p log e k)) ↔ PendingReady p) := by
  have hreturns : ∀ (σ : Type) (ws : Uuid) (ex : StepExecutor σ) (log : List Event) (e : σ),
      PendingReady p → ∃ k, Returned (stateAt ws ex p log e k) := by
    intro σ ws ex log e hready
    rcases completes_of_pendingReady hready with hfail | ⟨k, hphase, _⟩
    · exact hfail.1
    · exact ⟨k, _, hphase⟩
  have hstuck : ∀ (σ : Type) (ws : Uuid) (ex : StepExecutor σ) (log : List Event) (e : σ),
      StepsSucceed ws ex p log e → (∃ k, Returned (stateAt ws ex p log e k)) → PendingReady p := by
    intro σ ws ex log e hsucceed ⟨k, hk⟩
    by_contra hnot
    exact never_returns_of_not_pendingReady hnot hsucceed k hk
  refine ⟨⟨?_, ?_⟩, ?_⟩
  · intro hcontract
    exact hstuck Unit 0 noopExecutor [] () (stepsSucceed_of_succeeds _ _ _ _ noopExecutor_succeeds)
      (hcontract.1 Unit 0 noopExecutor [] ())
  · intro hready
    refine ⟨fun σ ws ex log e => hreturns σ ws ex log e hready, ?_⟩
    intro hwf σ ws ex log e hsucceed
    rcases completes_of_pendingReady hready with hfail | ⟨k, hphase, hswept⟩
    · exact absurd hsucceed hfail.2
    · refine ⟨k, hphase, ?_⟩
      intro n hn
      obtain ⟨a, ha, hsweeps⟩ := hswept.exists_before n hn
      exact hsweeps.completed_iff.mpr (.inr (hwf.pending a ha))
  · intro σ ws ex log e hsucceed
    exact ⟨hstuck σ ws ex log e hsucceed, hreturns σ ws ex log e⟩

def forwardPlan : Plan :=
  ((Plan.new 7 "forward reference" 9).addNode
    ((PlanNode.new 1 "second" .checkpoint).withDependency 2)).addNode
      (PlanNode.new 2 "first" .checkpoint)

theorem forwardPlan_dependsOn (a b : Uuid) : DependsOn forwardPlan a b ↔ a = 1 ∧ b = 2 := by
  simp [DependsOn, forwardPlan, Plan.new, Plan.addNode, PlanNode.new, PlanNode.withDependency,
    eq_comm]

theorem forwardPlan_wellFormed : WellFormed forwardPlan where
  distinct := by decide
  pending := by simp [forwardPlan, Plan.new, Plan.addNode, PlanNode.new, PlanNode.withDependency]
  closed := by
    intro n hn depId hdep
    obtain ⟨-, rfl⟩ := (forwardPlan_dependsOn n.id depId).mp ⟨n, hn, rfl, hdep⟩
    decide
  acyclic := by
    intro a h
    have hends : ∀ b, Relation.TransGen (DependsOn forwardPlan) a b → a = 1 ∧ b = 2 := by
      intro b hab
      induction hab with
      | single hab => exact (forwardPlan_dependsOn _ _).mp hab
      | tail _ hbc ih => exact ⟨ih.1, ((forwardPlan_dependsOn _ _).mp hbc).2⟩
    obtain ⟨h1, h2⟩ := hends a h
    rw [h1] at h2
    exact absurd h2 (by decide)

/-- The loop tests the same blocked node for ever although the plan is sound. -/
theorem execute_hangs_on_forward_reference :
    WellFormed forwardPlan ∧ ¬ ExecuteContract forwardPlan ∧
      ∀ k, ¬ Returned (stateAt 5 noopExecutor forwardPlan [] () k) := by
  have hsame : step 5 noopExecutor (enter 5 forwardPlan [] ()) = enter 5 forwardPlan [] () := rfl
  have hnever : ∀ k, ¬ Returned (stateAt 5 noopExecutor forwardPlan [] () k) := by
    rintro k ⟨result, hphase⟩
    rw [stateAt, Function.iterate_fixed hsame] at hphase
    cases hphase
  refine ⟨forwardPlan_wellFormed, ?_, hnever⟩
  intro hcontract
  obtain ⟨k, hk⟩ := hcontract.1 Unit 5 noopExecutor [] ()
  exact hnever k hk

end IronGolem.ExecutionOrder
