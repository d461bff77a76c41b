import IronGolem.ExecutionOrder
import IronGolem.PlanSerde

/-!
Checkpoints of a running plan and what the engine does with a restored one. A checkpoint holds the
plan's JSON value as it stands, so it can catch a node in the middle of its step. The second run
looks at pending nodes only.
-/
namespace IronGolem.Checkpoints

open Identifiers JsonValues PlanGraph WorkflowEngine EngineState ExecutionOrder PlanSerde List

structure Checkpoint where
  id : Uuid
  planId : Uuid
  lastCompletedStep : Option Uuid
  planState : Json
  createdAt : ℤ
  label : Option String

def Checkpoint.new (id planId : Uuid) (planState : Json) (now : ℤ) : Checkpoint :=
  ⟨id, planId, none, planState, now, none⟩

abbrev CheckpointStore := List Checkpoint

variable (store : CheckpointStore)

def save (cp : Checkpoint) : CheckpointStore :=
  store.filter (fun row => row.id ≠ cp.id) ++ [cp]

def load (checkpointId : Uuid) : Option Checkpoint :=
  store.find? (fun row => row.id == checkpointId)

def createCheckpoint (plan : Plan) (id : Uuid) (now : ℤ) :
    Checkpoint × CheckpointStore :=
  let last := plan.nodes.reverse.find? (fun n => n.status == .completed)
  let cp := { Checkpoint.new id plan.id (planToValue plan) now with
    lastCompletedStep := last.map (·.id) }
  (cp, save store cp)

def rollback (checkpointId : Uuid) : Except Error Plan :=
  match load store checkpointId with
  | none => .error (.rollback ("Checkpoint " ++ toText checkpointId ++ " not found"))
  | some cp =>
      match planFromValue cp.planState with
      | .ok plan => .ok plan
      | .error message => .error (.rollback message)

variable (store : CheckpointStore) (cp : Checkpoint)

theorem load_save : load (save store cp) cp.id = some cp := by
  apply FirstMatch.find?_split
  · intro row hrow
    simpa using (mem_filter.mp hrow).2
  · simp

variable (plan : Plan) (id : Uuid) (now : ℤ)

theorem rollback_eq :
    rollback (createCheckpoint store plan id now).2 id =
      match planFromValue (planToValue plan) with
      | .ok plan => .ok plan
      | .error message => .error (.rollback message) := by
  have hload : load (createCheckpoint store plan id now).2 id =
      some (createCheckpoint store plan id now).1 := load_save store _
  have hstate : (createCheckpoint store plan id now).1.planState = planToValue plan := rfl
  simp [rollback, hload, hstate]

theorem rollback_finite (h : FiniteScores plan) :
    rollback (createCheckpoint store plan id now).2 id = .ok (restoredPlan plan) := by
  rw [rollback_eq, planFromValue_finite h]

theorem rollback_createCheckpoint {restored : Plan} {id : Uuid}
    {now : ℤ} (h : rollback (createCheckpoint store plan id now).2 id = .ok restored) :
    restored = restoredPlan plan := by
  rw [rollback_eq] at h
  apply planFromValue_ok
  generalize planFromValue (planToValue plan) = decoded at h ⊢
  cases decoded with
  | ok plan' => exact congrArg Except.ok (Except.ok.inj h)
  | error message => cases h

variable {p : Plan}

theorem finiteScores_stateAt {σ : Type} (ws : Uuid) (ex : StepExecutor σ)
    (log : List Event) (e : σ) (h : FiniteScores p) (k : ℕ) :
    FiniteScores (stateAt ws ex p log e k).plan := by
  have hrisk : (stateAt ws ex p log e k).plan.risk = p.risk := by
    induction k with
    | zero => rfl
    | succ k ih =>
      have hcase := step_cases ws ex (stateAt_executesNode ws ex p log e k)
      rw [stateAt_succ, ← ih]
      generalize step ws ex (stateAt ws ex p log e k) = t at hcase ⊢
      cases hcase <;> rfl
  have hrisks := stateAt_map (fun n => n.risk) (fun _ => rfl) (fun _ _ => rfl) (fun _ _ => rfl)
    ws ex p log e k
  refine ⟨hrisk ▸ h.1, ?_⟩
  intro n hn
  have hmem : n.risk ∈ p.nodes.map (fun n => n.risk) := hrisks ▸ mem_map_of_mem hn
  obtain ⟨m, hm, heq⟩ := mem_map.mp hmem
  rw [← heq]
  exact h.2 m hm

def InDependencyOrder (p : Plan) : Prop :=
  ∀ pre n post, p.nodes = pre ++ n :: post → ∀ depId ∈ n.dependencies, ∃ m ∈ pre, m.id = depId

def Interrupted (n : PlanNode) : Prop := n.status ≠ .pending ∧ n.status ≠ .completed

/-- With an executor that never fails, the engine reports completion only of completed plans. -/
def ResumeSound (p : Plan) : Prop :=
  ∀ (σ : Type) (ws : Uuid) (ex : StepExecutor σ) (log : List Event) (e : σ), ex.Succeeds →
    ∀ k, ((stateAt ws ex p log e k).phase = .returned (.ok ()) →
        (stateAt ws ex p log e k).plan.AllCompleted) ∧
      ((stateAt ws ex p log e (k + 1)).log =
          (stateAt ws ex p log e k).log ++ [⟨ws, .planCompleted p.id⟩] →
        (stateAt ws ex p log e (k + 1)).plan.AllCompleted)

theorem restoredPlan_ids (p : Plan) : (restoredPlan p).ids = p.ids := by
  simp [restoredPlan, Plan.ids, restoredNode, Function.comp_def]

theorem inDependencyOrder_congr {q : Plan} (h : q.nodes.map (fun n => (n.id, n.dependencies)) =
      p.nodes.map (fun n => (n.id, n.dependencies)))
    (hp : InDependencyOrder p) : InDependencyOrder q := by
  intro pre n post hq depId hdep
  rw [hq, map_append, map_cons] at h
  obtain ⟨pre', rest, hp', hpre', hrest⟩ := map_eq_append_iff.mp h.symm
  obtain ⟨n', post', hrest', hn', -⟩ := map_eq_cons_iff.mp hrest
  have hdep' : depId ∈ n'.dependencies := by
    have hdeps : n'.dependencies = n.dependencies := congrArg Prod.snd hn'
    rwa [hdeps]
  obtain ⟨m', hm', hid'⟩ := hp pre' n' post' (by rw [hp', hrest']) depId hdep'
  have hmem : (m'.id, m'.dependencies) ∈ pre.map (fun n => (n.id, n.dependencies)) :=
    hpre' ▸ mem_map_of_mem hm'
  obtain ⟨m, hm, heq⟩ := mem_map.mp hmem
  exact ⟨m, hm, (congrArg Prod.fst heq).trans hid'⟩

/-- The loop gets through a plan exactly when no pending node depends on an interrupted one. -/
theorem pendingReady_iff (hids : p.ids.Nodup) (horder : InDependencyOrder p) :
    PendingReady p ↔
      ∀ n ∈ p.nodes, n.status = .pending → ∀ m ∈ p.nodes, m.id ∈ n.dependencies →
        ¬ Interrupted m := by
  constructor
  · intro hready n hn hpending m hm hdep hinterrupted
    obtain ⟨pre, post, hp⟩ := append_of_mem hn
    obtain ⟨m', hfind, hstatus⟩ := (hready pre n post hp hpending).2 m.id hdep
    rw [Plan.findNode_unique p hids m hm] at hfind
    cases Option.some.inj hfind
    rcases hstatus with hcompleted | ⟨hwaiting, _⟩
    · exact hinterrupted.2 hcompleted
    · exact hinterrupted.1 hwaiting
  · intro hfree pre n post hp hpending
    have hn : n ∈ p.nodes := by simp [hp]
    refine ⟨?_, ?_⟩
    · intro m hm hid
      have hnodup := hids
      rw [Plan.ids, hp, map_append, map_cons, nodup_append] at hnodup
      exact hnodup.2.2 m.id (mem_map_of_mem hm) n.id mem_cons_self hid
    · intro depId hdep
      obtain ⟨m, hm, rfl⟩ := horder pre n post hp depId hdep
      have hmp : m ∈ p.nodes := by
        rw [hp]
        exact mem_append_left _ hm
      refine ⟨m, Plan.findNode_unique p hids m hmp, ?_⟩
      by_cases hcompleted : m.status = .completed
      · exact .inl hcompleted
      · have hfreem := hfree n hn hpending m hmp hdep
        have hwaiting : m.status = .pending := by
          by_contra hnot
          exact hfreem ⟨hnot, hcompleted⟩
        exact .inr ⟨hwaiting, hm⟩

/-- The report on a resumed plan is right if no node was interrupted or the run never returns. -/
theorem resumeSound_iff (p : Plan) :
    ResumeSound p ↔ (∀ n ∈ p.nodes, ¬ Interrupted n) ∨ ¬ PendingReady p := by
  constructor
  · intro hsound
    by_cases hready : PendingReady p
    · left
      rcases completes_of_pendingReady hready with hfail | ⟨k, hphase, hswept⟩
      · exact absurd (stepsSucceed_of_succeeds 0 p [] () noopExecutor_succeeds) hfail.2
      · have hall := (hsound Unit 0 noopExecutor [] () noopExecutor_succeeds k).1 hphase
        intro n hn hinterrupted
        obtain ⟨b, hb, hsweeps⟩ := hswept.exists_after n hn
        rcases hsweeps.completed_iff.mp (hall b hb) with hcompleted | hpending
        · exact hinterrupted.2 hcompleted
        · exact hinterrupted.1 hpending
    · exact .inr hready
  · intro hcond σ ws ex log e hex
    have hsucceed := stepsSucceed_of_succeeds ws p log e hex
    have hok : ∀ k, (stateAt ws ex p log e k).phase = .returned (.ok ()) →
        (stateAt ws ex p log e k).plan.AllCompleted := by
      intro k hphase
      have hready : PendingReady p := by
        by_contra hnot
        exact never_returns_of_not_pendingReady hnot hsucceed k ⟨_, hphase⟩
      have hnone := hcond.resolve_right (not_not_intro hready)
      rcases completes_of_pendingReady hready with hfail | ⟨j, hphasej, hswept⟩
      · exact absurd hsucceed hfail.2
      · rw [returned_unique ⟨_, hphase⟩ ⟨_, hphasej⟩]
        intro b hb
        obtain ⟨a, ha, hsweeps⟩ := hswept.exists_before b hb
        apply hsweeps.completed_iff.mpr
        by_contra hneither
        rw [not_or] at hneither
        exact hnone a ha ⟨hneither.2, hneither.1⟩
    intro k
    refine ⟨hok k, ?_⟩
    intro hlog
    apply hok (k + 1)
    rw [stateAt_succ] at hlog ⊢
    exact returned_of_planCompleted ws ex (stateAt_executesNode ws ex p log e k) hlog

/-- A checkpoint of a run resumes soundly exactly when no node is in its step or failed, or when a
pending node depends on such a node and the run never returns. -/
theorem checkpoint_resume_sound_iff (p : Plan) (hids : p.ids.Nodup)
    (horder : InDependencyOrder p) {σ : Type} (ws : Uuid) (ex : StepExecutor σ)
    (log : List Event) (e : σ) (k : ℕ)
    (store : CheckpointStore) (id : Uuid) (now : ℤ) (restored : Plan)
    (hrollback : rollback
      (createCheckpoint store (stateAt ws ex p log e k).plan id now).2 id = .ok restored) :
    ResumeSound restored ↔
      (∀ n ∈ (stateAt ws ex p log e k).plan.nodes, ¬ Interrupted n) ∨
      ∃ n ∈ (stateAt ws ex p log e k).plan.nodes, n.status = .pending ∧
        ∃ m ∈ (stateAt ws ex p log e k).plan.nodes, m.id ∈ n.dependencies ∧ Interrupted m := by
  have hrestored := rollback_createCheckpoint store _ hrollback
  have hq := stateAt_map (fun n => (n.id, n.dependencies)) (fun _ => rfl) (fun _ _ => rfl)
    (fun _ _ => rfl) ws ex p log e k
  have hqids : (stateAt ws ex p log e k).plan.ids.Nodup := by
    rw [stateAt_ids]
    exact hids
  generalize (stateAt ws ex p log e k).plan = q at *
  subst hrestored
  have hsame : (restoredPlan q).nodes.map (fun n => (n.id, n.dependencies)) =
      p.nodes.map (fun n => (n.id, n.dependencies)) := by
    rw [← hq]
    simp [restoredPlan, restoredNode, Function.comp_def]
  have hready := pendingReady_iff (by rw [restoredPlan_ids]; exact hqids)
    (inDependencyOrder_congr hsame horder)
  rw [resumeSound_iff, hready]
  simp only [restoredPlan, forall_mem_map]
  simp only [not_forall, not_not]
  apply or_congr Iff.rfl
  constructor
  · rintro ⟨n, hn, hnp, m, hm, hdep, hint⟩
    exact ⟨n, hn, hnp, m, hm, hdep, hint⟩
  · rintro ⟨n, hn, hnp, m, hm, hdep, hint⟩
    exact ⟨n, hn, hnp, m, hm, hdep, hint⟩

def snapshotPlan : Plan :=
  (Plan.new 7 "snapshot" 9).addNode (PlanNode.new 1 "take snapshot" .checkpoint)

theorem snapshotPlan_inDependencyOrder : InDependencyOrder snapshotPlan := by
  intro pre n post hp depId hdep
  have hn : n ∈ snapshotPlan.nodes := by simp [hp]
  simp only [snapshotPlan, Plan.new, Plan.addNode, nil_append, mem_singleton] at hn
  subst hn
  simp [PlanNode.new] at hdep

theorem snapshotPlan_finiteScores : FiniteScores snapshotPlan := by
  refine ⟨F64.noConfusion, ?_⟩
  intro n hn
  simp only [snapshotPlan, Plan.new, Plan.addNode, nil_append, mem_singleton] at hn
  subst hn
  exact F64.noConfusion

/-- Taken before the step starts, the checkpoint resumes soundly. -/
theorem checkpoint_before_step_resumes :
    ∃ restored, rollback
        (createCheckpoint [] (stateAt 5 noopExecutor snapshotPlan [] () 0).plan 3 0).2 3 =
          .ok restored ∧ ResumeSound restored := by
  have hroll := rollback_finite [] (stateAt 5 noopExecutor snapshotPlan [] () 0).plan 3 0
    (finiteScores_stateAt 5 noopExecutor [] () snapshotPlan_finiteScores 0)
  refine ⟨_, hroll, ?_⟩
  apply (checkpoint_resume_sound_iff snapshotPlan (by decide) snapshotPlan_inDependencyOrder
    5 noopExecutor [] () 0 [] 3 0 _ hroll).mpr
  left
  intro n hn hinterrupted
  have hpending : n.status = .pending := by
    change n ∈ snapshotPlan.nodes at hn
    simp only [snapshotPlan, Plan.new, Plan.addNode, nil_append, mem_singleton] at hn
    rw [hn]
    rfl
  exact hinterrupted.1 hpending

/-- Taken during its step, the checkpoint restores a plan that is reported completed at once. -/
theorem resume_skips_running_step :
    snapshotPlan.ids.Nodup ∧ InDependencyOrder snapshotPlan ∧
    (∀ n ∈ snapshotPlan.nodes, n.status = .pending) ∧
    ∃ restored, rollback
        (createCheckpoint [] (stateAt 5 noopExecutor snapshotPlan [] () 1).plan 3 0).2 3 =
          .ok restored ∧
      (stateAt 5 noopExecutor restored [] () 1).phase = .returned (.ok ()) ∧
      (stateAt 5 noopExecutor restored [] () 1).plan.nodes.map (·.status) = [.running] ∧
      ¬ ResumeSound restored := by
  have hroll := rollback_finite [] (stateAt 5 noopExecutor snapshotPlan [] () 1).plan 3 0
    (finiteScores_stateAt 5 noopExecutor [] () snapshotPlan_finiteScores 1)
  refine ⟨by decide, snapshotPlan_inDependencyOrder, ?_, _, hroll, rfl, rfl, ?_⟩
  · simp [snapshotPlan, Plan.new, Plan.addNode, PlanNode.new]
  · intro hsound
    have hall := (hsound Unit 5 noopExecutor [] () noopExecutor_succeeds 1).1 rfl
    have hrunning := hall _ mem_cons_self
    cases hrunning

end IronGolem.Checkpoints
