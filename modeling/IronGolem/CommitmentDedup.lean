import IronGolem.TransitionRuns
import IronGolem.CommitmentRuntime

/-!
At most one pending commitment for a dedupe key, and one event for each row inserted. `Insert`
looks for a pending row with the key and writes its own row in a second statement, and nothing in
the schema refuses a second pending row. Snoozing turns any row back to pending without looking for
others.
-/
namespace IronGolem.CommitmentDedup

open TransitionRuns CommitmentStore CommitmentRuntime List Option

def AtMostOnePending (db : DB) : Prop :=
  ∀ r₁ ∈ db.rows, ∀ r₂ ∈ db.rows, r₁.status = .pending → r₂.status = .pending →
    r₁.workspaceID = r₂.workspaceID → r₁.dedupeKey = r₂.dedupeKey → r₁.id = r₂.id

theorem pendingWithKey_iff (workspaceID dedupeKey : String) (r : Commitment) :
    pendingWithKey workspaceID dedupeKey r = true ↔
      r.workspaceID = workspaceID ∧ r.dedupeKey = dedupeKey ∧ r.status = .pending := by
  simp only [pendingWithKey, Bool.and_eq_true, decide_eq_true_eq, and_assoc]

variable {db db' : DB}

theorem atMostOnePending_of_subset (h : AtMostOnePending db)
    (hsub : ∀ r ∈ db'.rows, r.status = .pending → r ∈ db.rows) : AtMostOnePending db' := by
  intro r₁ hr₁ r₂ hr₂ hp₁ hp₂
  exact h r₁ (hsub r₁ hr₁ hp₁) r₂ (hsub r₂ hr₂ hp₂) hp₁ hp₂

theorem atMostOnePending_update (p : Commitment → Bool) (f : Commitment → Commitment)
    (hf : ∀ r, (f r).id = r.id) (hended : ∀ r, (f r).status ≠ .pending)
    (h : AtMostOnePending db) : AtMostOnePending (db.update p f hf) := by
  refine atMostOnePending_of_subset h ?_
  intro r hr hpending
  obtain ⟨y, hy, rfl⟩ := List.mem_map.mp hr
  split at hpending
  · exact absurd hpending (hended y)
  · rename_i hp
    rwa [if_neg hp]

variable (id : String)

theorem atMostOnePending_delete (h : AtMostOnePending db) :
    AtMostOnePending (CommitmentStore.delete db id).1 := by
  refine atMostOnePending_of_subset h ?_
  intro r hr _
  exact List.mem_of_mem_filter hr

theorem atMostOnePending_expireUpdate (snapshot : List Commitment) (now : ℤ)
    (h : AtMostOnePending db) : AtMostOnePending (expireUpdate db snapshot now).1 := by
  unfold expireUpdate
  split
  · exact h
  · exact atMostOnePending_update _ _ (asExpired_id now) (fun _ => by simp [asExpired]) h

def SnoozeFree (db : DB) (id : String) : Prop :=
  ∀ r ∈ db.get id, ∀ r' ∈ db.rows, pendingWithKey r.workspaceID r.dedupeKey r' = true → r'.id = id

theorem mem_markSnoozed (db : DB) (id : String) (untilMs now : ℤ) (x : Commitment) :
    x ∈ (markSnoozed db id untilMs now).1.rows ↔
      (x ∈ db.rows ∧ x.id ≠ id) ∨ ∃ r ∈ db.get id, x = asSnoozed untilMs now r := by
  have hrows : (markSnoozed db id untilMs now).1.rows =
      db.rows.map (fun r => if hasID id r then asSnoozed untilMs now r else r) := rfl
  rw [hrows, List.mem_map]
  constructor
  · rintro ⟨y, hy, rfl⟩
    by_cases hid : y.id = id
    · refine .inr ⟨y, (db.get_eq_some_iff id y).mpr ⟨hy, hid⟩, ?_⟩
      simp [hasID, hid]
    · simp [hasID, hid, hy]
  · rintro (⟨hx, hid⟩ | ⟨r, hr, rfl⟩)
    · exact ⟨x, hx, by simp [hasID, hid]⟩
    · obtain ⟨hmem, hid⟩ := (db.get_eq_some_iff id r).mp hr
      exact ⟨r, hmem, by simp [hasID, hid]⟩

theorem atMostOnePending_snooze_iff (untilMs now : ℤ) (h : AtMostOnePending db) :
    AtMostOnePending (markSnoozed db id untilMs now).1 ↔ SnoozeFree db id := by
  constructor
  · intro hafter r hr r' hr' hkey
    obtain ⟨hws, hdk, hpending⟩ := (pendingWithKey_iff _ _ _).mp hkey
    by_contra hid
    have hother := (mem_markSnoozed db id untilMs now r').mpr (.inl ⟨hr', hid⟩)
    have hsnoozed := (mem_markSnoozed db id untilMs now _).mpr (.inr ⟨r, hr, rfl⟩)
    have hsame := hafter r' hother _ hsnoozed hpending rfl hws hdk
    exact hid (hsame.trans (db.key_of_get id r hr))
  · intro hfree x hx y hy hpx hpy hws hdk
    rcases (mem_markSnoozed db id untilMs now x).mp hx with ⟨hx, hxid⟩ | ⟨r, hr, rfl⟩ <;>
      rcases (mem_markSnoozed db id untilMs now y).mp hy with ⟨hy, hyid⟩ | ⟨r', hr', rfl⟩
    · exact h x hx y hy hpx hpy hws hdk
    · have hkey := (pendingWithKey_iff r'.workspaceID r'.dedupeKey x).mpr ⟨hws, hdk, hpx⟩
      exact absurd (hfree r' hr' x hx hkey) hxid
    · have hkey := (pendingWithKey_iff r.workspaceID r.dedupeKey y).mpr ⟨hws.symm, hdk.symm, hpy⟩
      exact absurd (hfree r hr y hy hkey) hyid
    · show r.id = r'.id
      rw [db.key_of_get id r hr, db.key_of_get id r' hr']

theorem atMostOnePending_insert_iff {row : Commitment}
    (hins : db.insert row = some db') (hpending : row.status = .pending) (h : AtMostOnePending db) :
    AtMostOnePending db' ↔
      ∀ r ∈ db.rows, pendingWithKey row.workspaceID row.dedupeKey r = false := by
  obtain ⟨hfree, hrows⟩ := (db.insert_eq_some_iff db' row).mp hins
  have hnew : ∀ r ∈ db.rows, r.id ≠ row.id := (db.get_eq_none_iff row.id).mp hfree
  unfold AtMostOnePending
  simp only [hrows, mem_append, mem_singleton]
  constructor
  · intro hafter r hr
    rw [Bool.eq_false_iff]
    intro hkey
    obtain ⟨hws, hdk, hp⟩ := (pendingWithKey_iff _ _ _).mp hkey
    exact hnew r hr (hafter r (.inl hr) row (.inr rfl) hp hpending hws hdk)
  · intro hnone x hx y hy hpx hpy hws hdk
    have hclash : ∀ r ∈ db.rows, r.status = .pending → r.workspaceID = row.workspaceID →
        r.dedupeKey = row.dedupeKey → False := by
      intro r hr hp hws hdk
      have hkey := (pendingWithKey_iff row.workspaceID row.dedupeKey r).mpr ⟨hws, hdk, hp⟩
      rw [hnone r hr] at hkey
      exact absurd hkey (by decide)
    rcases hx with hx | rfl <;> rcases hy with hy | rfl
    · exact h x hx y hy hpx hpy hws hdk
    · exact (hclash x hx hpx hws hdk).elim
    · exact (hclash y hy hpy hws.symm hdk.symm).elim
    · rfl

def InsertFree (db : DB) (freshID : String) : TaskPhase → Prop
  | .inserting c _ => db.get freshID = none →
      ∀ r ∈ db.rows, pendingWithKey c.workspaceID c.dedupeKey r = false
  | _ => True

/-- The INSERT of an `Insert`, or a snooze, finds no other pending row with its key. -/
def KeepsDedup (s : Sys) : Action → Prop
  | .request (.snooze id _ _) => SnoozeFree s.db id
  | .task i (.insert freshID) => ∀ task ∈ s.tasks[i]?, InsertFree s.db freshID task.phase
  | _ => True

/-- What `Enqueue` is about to insert is pending and has no id yet. -/
def FreshInserts (s : Sys) : Prop :=
  ∀ task ∈ s.tasks, ∀ c rest, task.phase = .inserting c rest → c.status = .pending ∧ c.id = ""

variable {rt : Runtime} {s t : Sys} {i : ℕ} {task : Task} {a : TaskAct}

theorem taskTo_freshInserts (h : FreshInserts s) (hto : TaskTo rt s i task a t) :
    FreshInserts t := by
  intro task' htask' c rest hphase
  cases hto with
  | checked cand rest' hphase' hfree =>
    rcases mem_or_eq_of_mem_set htask' with hold | rfl
    · exact h task' hold c rest hphase
    · obtain ⟨rfl, -⟩ := TaskPhase.inserting.inj hphase
      exact ⟨rfl, rfl⟩
  | _ =>
    rcases mem_or_eq_of_mem_set htask' with hold | rfl
    · exact h task' hold c rest hphase
    · simp at hphase

theorem step_freshInserts {a : Action} (h : FreshInserts s)
    (hstep : step rt s a = some t) : FreshInserts t := by
  cases step_to hstep with
  | ticker act t hto =>
    cases hto <;> exact h
  | enqueue turn candidates =>
    intro task htask c rest hphase
    rcases mem_append.mp htask with hold | hnew
    · exact h task hold c rest hphase
    · rw [mem_singleton] at hnew
      rw [hnew] at hphase
      exact absurd hphase (by simp)
  | task i task act t hi hto => exact taskTo_freshInserts h hto
  | _ => exact h

theorem tickerTo_atMostOnePending {a : TickerAct}
    (h : AtMostOnePending s.db) (hto : TickerTo rt s a t) : AtMostOnePending t.db := by
  cases hto with
  | marked c rest hpc hok | notMarked c rest hpc herr =>
    exact atMostOnePending_update _ _ (asSent_id s.now) (fun _ => by simp [asSent]) h
  | expireUpdate snapshot hpc => exact atMostOnePending_expireUpdate snapshot s.now h
  | _ => exact h

theorem insertedRow_fresh {c : Commitment} (freshID : String) (now : ℤ)
    (hpending : c.status = .pending) (hid : c.id = "") :
    (insertedRow c freshID now).status = .pending ∧ (insertedRow c freshID now).id = freshID := by
  simp [insertedRow, hpending, hid]

theorem taskTo_dedup_iff (hfresh : FreshInserts s) (h : AtMostOnePending s.db)
    (hi : s.tasks[i]? = some task) (hto : TaskTo rt s i task a t) :
    AtMostOnePending t.db ↔ KeepsDedup s (.task i a) := by
  have hmem : task ∈ s.tasks := mem_of_getElem? hi
  cases hto with
  | dropped a rest hact hphase =>
    refine iff_of_true h ?_
    cases a with
    | insert freshID => exact absurd rfl (hact freshID)
    | _ => trivial
  | refused c rest freshID hphase htaken =>
    obtain ⟨hpending, hid⟩ := hfresh task hmem c rest hphase
    have htaken' := (s.db.insert_eq_none_iff _).mp htaken
    rw [(insertedRow_fresh freshID s.now hpending hid).2] at htaken'
    refine iff_of_true h ?_
    simp only [KeepsDedup, InsertFree, hi, mem_some, forall_eq', hphase]
    exact fun hfree => absurd hfree htaken'
  | inserted c rest freshID db hphase hins =>
    obtain ⟨hpending, hid⟩ := hfresh task hmem c rest hphase
    obtain ⟨hrow, hrowID⟩ := insertedRow_fresh freshID s.now hpending hid
    have hfree := ((s.db.insert_eq_some_iff db _).mp hins).1
    rw [hrowID] at hfree
    refine (atMostOnePending_insert_iff hins hrow h).trans ?_
    simp only [KeepsDedup, InsertFree, hi, mem_some, forall_eq', hphase]
    exact ⟨fun hnone _ => hnone, fun hnone => hnone hfree⟩
  | _ => exact iff_of_true h trivial

theorem request_dedup_iff (r : Request) (h : AtMostOnePending s.db) :
    AtMostOnePending (r.run s.db s.now) ↔ KeepsDedup s (.request r) := by
  cases r with
  | dismiss id =>
    refine iff_of_true ?_ trivial
    exact atMostOnePending_update _ _ (asDismissed_id s.now) (fun _ => by simp [asDismissed]) h
  | snooze id untilMs checkedAt => exact atMostOnePending_snooze_iff id untilMs s.now h
  | delete id => exact iff_of_true (atMostOnePending_delete id h) trivial

theorem step_dedup_iff {a : Action} (hfresh : FreshInserts s)
    (h : AtMostOnePending s.db) (hstep : step rt s a = some t) :
    AtMostOnePending t.db ↔ KeepsDedup s a := by
  cases step_to hstep with
  | ticker act t hto => exact iff_of_true (tickerTo_atMostOnePending h hto) trivial
  | request r haccepted => exact request_dedup_iff r h
  | task i task act t hi hto => exact taskTo_dedup_iff hfresh h hi hto
  | _ => exact iff_of_true h trivial

def extractedIDs (timeline : List TimelineEvent) : List String :=
  timeline.filterMap (fun e => if e.kind = .extracted then some e.commitment.id else none)

def unannounced (task : Task) : Option String :=
  match task.phase with
  | .emitting c _ => some c.id
  | _ => none

/-- Each insertion has one event, in the timeline or about to be emitted by its task. -/
def EventPerInsert (s : Sys) : Prop :=
  ∀ id, s.inserted.count id =
    (extractedIDs s.timeline).count id + (s.tasks.filterMap unannounced).count id

variable {tasks : List Task}

theorem split_at (task new : Task) (hi : tasks[i]? = some task) :
    ∃ pre post, tasks = pre ++ task :: post ∧ tasks.set i new = pre ++ new :: post := by
  obtain ⟨hlt, rfl⟩ := List.getElem?_eq_some_iff.mp hi
  refine ⟨tasks.take i, tasks.drop (i + 1), ?_, List.set_eq_take_append_cons_drop.trans ?_⟩
  · rw [← List.drop_eq_getElem_cons hlt, List.take_append_drop]
  · rw [if_pos hlt]

theorem count_unannounced_set (task new : Task) (id : String) (hi : tasks[i]? = some task) :
    ((tasks.set i new).filterMap unannounced).count id + (unannounced task).toList.count id =
      (tasks.filterMap unannounced).count id + (unannounced new).toList.count id := by
  obtain ⟨pre, post, htasks, hset⟩ := split_at task new hi
  rw [hset, htasks]
  simp only [filterMap_append, filterMap_cons, count_append]
  cases unannounced task <;> cases unannounced new <;> simp [count_cons] <;> omega

theorem taskTo_eventPerInsert (hemitter : rt.emitter = true) (h : EventPerInsert s)
    (hi : s.tasks[i]? = some task) (hto : TaskTo rt s i task a t) : EventPerInsert t := by
  intro id
  have hbefore := h id
  cases hto with
  | dropped a rest hact hphase =>
    have hcount := count_unannounced_set task { task with phase := .candidates rest } id hi
    have hnone : unannounced task = none := by
      rcases hphase with ⟨cand, hphase⟩ | ⟨c, hphase⟩ <;> simp [unannounced, hphase]
    rw [hnone] at hcount
    simp only [unannounced, toList_none, count_nil] at hcount
    simp only [Sys.setPhase]
    omega
  | refused c rest freshID hphase htaken =>
    have hcount := count_unannounced_set task { task with phase := .candidates rest } id hi
    simp only [unannounced, hphase, toList_none, count_nil] at hcount
    simp only [Sys.setPhase]
    omega
  | checked cand rest hphase hfree =>
    have hcount := count_unannounced_set task { task with
      phase := .inserting (candidateCommitment task.turn cand s.now) rest } id hi
    simp only [unannounced, hphase, toList_none, count_nil] at hcount
    simp only [Sys.setPhase]
    omega
  | inserted c rest freshID db hphase hins =>
    have hcount := count_unannounced_set task { task with
      phase := .emitting { c with id := (insertedRow c freshID s.now).id } rest } id hi
    simp only [unannounced, hphase, toList_none, toList_some, count_nil] at hcount
    simp only [Sys.setPhase, count_append]
    omega
  | emitted c rest hphase =>
    have hcount := count_unannounced_set task { task with phase := .candidates rest } id hi
    simp only [unannounced, hphase, toList_none, toList_some, count_nil] at hcount
    have hextracted : extractedIDs (s.timeline ++ [⟨.extracted, c⟩]) =
        extractedIDs s.timeline ++ [c.id] := by
      simp [extractedIDs]
    simp only [Sys.setPhase, hemitter, if_true, hextracted, count_append]
    omega

theorem extractedIDs_append_other (timeline : List TimelineEvent) {e : TimelineEvent}
    (he : e.kind ≠ .extracted) : extractedIDs (timeline ++ [e]) = extractedIDs timeline := by
  simp [extractedIDs, he]

theorem tickerTo_eventPerInsert {a : TickerAct}
    (h : EventPerInsert s) (hto : TickerTo rt s a t) : EventPerInsert t := by
  intro id
  have hbefore := h id
  cases hto with
  | emitFired c rest hpc =>
    split
    · rw [extractedIDs_append_other _ (by simp)]
      exact hbefore
    · exact hbefore
  | emitExpired c rest hpc =>
    rw [extractedIDs_append_other _ (by simp)]
    exact hbefore
  | _ => exact hbefore

theorem step_eventPerInsert {a : Action} (hemitter : rt.emitter = true)
    (h : EventPerInsert s) (hstep : step rt s a = some t) : EventPerInsert t := by
  cases step_to hstep with
  | ticker act t hto => exact tickerTo_eventPerInsert h hto
  | enqueue turn candidates =>
    intro id
    have hnew : [Task.mk turn (.candidates candidates)].filterMap unannounced = [] := rfl
    rw [filterMap_append, hnew, append_nil]
    exact h id
  | task i task act t hi hto => exact taskTo_eventPerInsert hemitter h hi hto
  | _ => exact h

/-- There is at most one pending row per key exactly when no INSERT or snooze finds another one;
each inserted row has exactly one event. -/
theorem dedup_iff (dispatcher : Bool) (cfg : RuntimeConfig) (scans : Scans) (db : DB) (now : ℤ)
    (acts : List Action) (t : Sys) (hdb : AtMostOnePending db)
    (hrun : run (step (newRuntime dispatcher true cfg scans)) (init db now) acts = some t) :
    (Along (step (newRuntime dispatcher true cfg scans)) (fun s => AtMostOnePending s.db)
        (init db now) acts ↔
      Meets (step (newRuntime dispatcher true cfg scans)) KeepsDedup (init db now) acts) ∧
    Along (step (newRuntime dispatcher true cfg scans)) EventPerInsert (init db now) acts := by
  constructor
  · refine along_iff_meets _ KeepsDedup (fun s => AtMostOnePending s.db) FreshInserts hdb ?_ ?_ t
      hrun
    · intro acts s hrun
      refine invariant _ FreshInserts (by simp [FreshInserts, init]) ?_ hrun
      exact fun s a u h hstep => step_freshInserts h hstep
    · exact fun s a u hfresh h hstep => step_dedup_iff hfresh h hstep
  · intro pre post s _ hrun
    refine invariant _ EventPerInsert (by simp [EventPerInsert, init, extractedIDs]) ?_ hrun
    exact fun s a u h hstep => step_eventPerInsert rfl h hstep

instance (db : DB) : Decidable (AtMostOnePending db) := by
  unfold AtMostOnePending
  infer_instance

instance (db : DB) (id : String) : Decidable (SnoozeFree db id) := by
  unfold SnoozeFree
  infer_instance

instance (db : DB) (freshID : String) (phase : TaskPhase) :
    Decidable (InsertFree db freshID phase) := by
  cases phase <;> unfold InsertFree <;> infer_instance

instance (s : Sys) (a : Action) : Decidable (KeepsDedup s a) := by
  unfold KeepsDedup
  split <;> infer_instance

def sampleTurn : Turn := ⟨"ws", "tenant", "event", "telegram", "chat", "user"⟩

def sampleCandidate : Candidate :=
  ⟨.deadlineCheck, .routine, "tax filing", "Remember the tax filing", "tax", 1, ⟨5, 100, "UTC"⟩⟩

def repeatedExtraction : List Action :=
  [.enqueue sampleTurn [sampleCandidate], .task 0 .check, .task 0 (.insert "c1"), .task 0 .emit,
    .enqueue sampleTurn [sampleCandidate], .task 1 .check]

theorem dedup_of_repeated :
    ∃ t, run (step gatewayRuntime) (init .empty 10) repeatedExtraction = some t ∧
      Along (step gatewayRuntime) (fun s => AtMostOnePending s.db) (init .empty 10)
        repeatedExtraction ∧
      Along (step gatewayRuntime) EventPerInsert (init .empty 10) repeatedExtraction := by
  obtain ⟨t, hrun, -⟩ := exists_run_of_check (step gatewayRuntime) (fun _ => True)
    (init .empty 10) repeatedExtraction (by decide +kernel)
  have hmeets : Meets (step gatewayRuntime) KeepsDedup (init .empty 10)
      repeatedExtraction := meets_of_checkMeets _ _ _ _ (by decide +kernel)
  obtain ⟨hiff, hevents⟩ := dedup_iff true ⟨0⟩ tableScans .empty 10 repeatedExtraction t
    (by decide) hrun
  exact ⟨t, hrun, hiff.mpr hmeets, hevents⟩

def racingExtractions : List Action :=
  [.enqueue sampleTurn [sampleCandidate], .enqueue sampleTurn [sampleCandidate],
    .task 0 .check, .task 1 .check, .task 0 (.insert "c1"), .task 1 (.insert "c2")]

def revivedDuplicate : List Action :=
  [.enqueue sampleTurn [sampleCandidate], .task 0 .check, .task 0 (.insert "c1"), .task 0 .emit,
    .request (.dismiss "c1"), .enqueue sampleTurn [sampleCandidate], .task 1 .check,
    .task 1 (.insert "c2"), .request (.snooze "c1" 20 10)]

/-- Either way two pending rows share one key. -/
theorem two_pending_for_one_key :
    (∃ t, run (step gatewayRuntime) (init .empty 10) racingExtractions = some t ∧
      ¬ AtMostOnePending t.db) ∧
    ∃ t, run (step gatewayRuntime) (init .empty 10) revivedDuplicate = some t ∧
      ¬ AtMostOnePending t.db :=
  ⟨exists_run_of_check _ _ _ _ (by decide +kernel), exists_run_of_check _ _ _ _ (by decide +kernel)⟩

end IronGolem.CommitmentDedup
