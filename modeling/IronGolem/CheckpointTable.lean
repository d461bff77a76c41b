import IronGolem.MachineIntegers
import IronGolem.RuntimeMessages
import IronGolem.UtcTexts

/-!
The table of plan checkpoints. All its columns but the label are texts, and every query orders by
the text of the creation time, which orders the checkpoints of a plan by their times. Reading a row
decodes its columns again, the numbers of the plan state as the parser makes them.
-/
namespace IronGolem.CheckpointTable

open List FirstMatch Identifiers JsonValues JsonTransfer MachineIntegers OrderedPages PlanGraph
  PlanSerde RowTables RuntimeMessages UtcTexts

structure Checkpoint where
  id : Uuid
  planId : Uuid
  lastCompletedStep : Option Uuid
  planState : Json
  createdAt : LeapTime
  label : Option String

/-- The columns of the table; the text of the plan state is kept as the value that it spells. -/
structure Row where
  id : String
  planId : String
  lastCompletedStep : Option String
  planState : Json
  createdAt : String
  label : Option String

abbrev Store := Table Row.id

def toRow (checkpoint : Checkpoint) : Row where
  id := toText checkpoint.id
  planId := toText checkpoint.planId
  lastCompletedStep := checkpoint.lastCompletedStep.map toText
  planState := checkpoint.planState
  createdAt := checkpoint.createdAt.text
  label := checkpoint.label

variable (read : ℚ → ℚ) (store : Store)

def save (checkpoint : Checkpoint) : Store := store.replace (toRow checkpoint)

def conversionFailure (column : String) (message : String) : Error :=
  .database ("Conversion error from type Text at index: " ++ column ++ ", " ++ message)

def stateFromStr (state : Json) : Except String Json :=
  if readable numberInRange nestingLimit state then .ok (reread read state)
  else .error "recursion limit exceeded or number out of range"

def stepFromStr : Option String → Except String (Option Uuid)
  | none => .ok none
  | some text => (parseStr text).map some

def rowToCheckpoint (row : Row) : Except Error Checkpoint := do
  let id ← (parseStr row.id).mapError (conversionFailure "0")
  let planId ← (parseStr row.planId).mapError (conversionFailure "0")
  let lastCompletedStep ← (stepFromStr row.lastCompletedStep).mapError (conversionFailure "0")
  let planState ← (stateFromStr read row.planState).mapError (conversionFailure "3")
  let createdAt ← (LeapTime.parse row.createdAt).mapError (conversionFailure "4")
  return ⟨id, planId, lastCompletedStep, planState, createdAt, row.label⟩

def createdKey (row : Row) : List Char := row.createdAt.toList

variable (planId : Uuid)

/-- `WHERE plan_id = ?1`. -/
def rowsOf : List Row :=
  store.rows.filter (fun row => row.planId = toText planId)

/-- `WHERE plan_id = ?1 ORDER BY created_at DESC`. -/
def newestRows : List Row :=
  descending createdKey (rowsOf store planId)

def firstCheckpoint (rows : List Row) : Except Error (Option Checkpoint) :=
  match rows.head? with
  | some row => (rowToCheckpoint read row).map some
  | none => .ok none

def loadLatest : Except Error (Option Checkpoint) :=
  firstCheckpoint read ((newestRows store planId).take 1)

def load (checkpointId : Uuid) : Except Error (Option Checkpoint) :=
  firstCheckpoint read (store.rows.filter (fun row => row.id = toText checkpointId))

def listForPlan : Except Error (List Checkpoint) :=
  (newestRows store planId).mapM (rowToCheckpoint read)

/-- `LIMIT`; a negative limit is none. -/
def limited {ρ : Type} (limit : ℤ) (rows : List ρ) : List ρ :=
  if limit < 0 then rows else rows.take limit.toNat

variable (keepLatest : ℕ)

/-- The ids that the inner query of the pruning selects, with `keep_latest as i64`. -/
def keptIds : List String :=
  (limited (wrap keepLatest) (newestRows store planId)).map Row.id

def pruned (row : Row) : Bool :=
  row.planId = toText planId ∧ row.id ∉ keptIds store planId keepLatest

def prune : Store × ℕ :=
  (store.delete (pruned store planId keepLatest), store.affected (pruned store planId keepLatest))

def rollback (checkpointId : Uuid) : Except Error Plan := do
  match ← load read store checkpointId with
  | none => .error (.rollback ("Checkpoint " ++ toText checkpointId ++ " not found"))
  | some checkpoint => (planFromValue checkpoint.planState).mapError .rollback

def rollbackToLatest : Except Error Plan := do
  match ← loadLatest read store planId with
  | none => .error (.rollback ("No checkpoints found for plan " ++ toText planId))
  | some checkpoint => rollback read store checkpoint.id

inductive Operation
  | save (checkpoint : Checkpoint)
  | prune (planId : Uuid) (keepLatest : ℕ)

def apply : Operation → Store
  | .save checkpoint => save store checkpoint
  | .prune planId keepLatest => (prune store planId keepLatest).1

def run (operations : List Operation) : Store := operations.foldl apply Table.empty

def DistinctTimes (operations : List Operation) : Prop :=
  ∀ c c', Operation.save c ∈ operations → Operation.save c' ∈ operations → c.planId = c'.planId →
    c.createdAt.position = c'.createdAt.position → c.id = c'.id

theorem toRow_id (c : Checkpoint) : (toRow c).id = toText c.id := rfl

/-- A saved checkpoint as it comes back. -/
def asRead (c : Checkpoint) : Checkpoint := { c with planState := reread read c.planState }

variable {c : Checkpoint}

theorem rowToCheckpoint_toRow (h : readable numberInRange nestingLimit c.planState) :
    rowToCheckpoint read (toRow c) = .ok (asRead read c) := by
  have hstep : stepFromStr (c.lastCompletedStep.map toText) = .ok c.lastCompletedStep := by
    cases c.lastCompletedStep with
    | none => rfl
    | some step => rw [Option.map_some, stepFromStr, parseStr_toText]; rfl
  have hstate : stateFromStr read c.planState = .ok (reread read c.planState) := if_pos h
  simp only [rowToCheckpoint, toRow, asRead, parseStr_toText, hstep, hstate, LeapTime.parse_text,
    Except.mapError, bind, Except.bind, pure, Except.pure]

variable {row : Row}

theorem rowToCheckpoint_readable (h : rowToCheckpoint read row = .ok c) :
    readable numberInRange nestingLimit row.planState := by
  by_contra hdeep
  have hstate : stateFromStr read row.planState =
      .error "recursion limit exceeded or number out of range" := if_neg hdeep
  simp only [rowToCheckpoint, bind_eq_ok_iff, hstate, Except.mapError, reduceCtorEq, false_and,
    exists_false, and_false] at h

theorem mapM_toRow {l : List Checkpoint}
    (h : ∀ c ∈ l, readable numberInRange nestingLimit c.planState) :
    (l.map toRow).mapM (rowToCheckpoint read) = .ok (l.map (asRead read)) := by
  rw [mapM_eq_ok_iff, forall₂_map_left_iff, forall₂_map_right_iff, forall₂_same]
  intro c hc
  exact rowToCheckpoint_toRow read (h c hc)

variable {rows : List Row}

theorem readable_of_mapM {l : List Checkpoint}
    (h : rows.mapM (rowToCheckpoint read) = .ok l) (hrow : row ∈ rows) :
    readable numberInRange nestingLimit row.planState := by
  rw [mapM_eq_ok_iff] at h
  obtain ⟨c, -, hc⟩ := forall₂_exists_left h.flip row hrow
  exact rowToCheckpoint_readable read hc

theorem exists_checkpoints (S : Checkpoint → Prop) (h : ∀ row ∈ rows, ∃ c, S c ∧ row = toRow c) :
    ∃ l : List Checkpoint, l.map toRow = rows ∧ ∀ c ∈ l, S c := by
  obtain ⟨l, hl⟩ := exists_forall₂ h
  refine ⟨l, ?_, ?_⟩
  · have hrows : List.Forall₂ (· = ·) (l.map toRow) rows :=
      forall₂_map_left_iff.mpr (hl.flip.imp (fun c row hc => hc.2.symm))
    rwa [forall₂_eq_eq_eq] at hrows
  · intro c hc
    obtain ⟨row, -, hS, -⟩ := forall₂_exists_left hl c hc
    exact hS

theorem mem_apply {store : Store} {operation : Operation} (h : row ∈ (apply store operation).rows) :
    row ∈ store.rows ∨ ∃ c, operation = .save c ∧ row = toRow c := by
  cases operation with
  | save c =>
    rcases mem_append.mp h with hkept | hnew
    · exact .inl (mem_of_mem_filter hkept)
    · exact .inr ⟨c, rfl, mem_singleton.mp hnew⟩
  | prune planId keepLatest => exact .inl (mem_of_mem_filter h)

variable {operations : List Operation}

theorem mem_run (h : row ∈ (run operations).rows) :
    ∃ c, Operation.save c ∈ operations ∧ row = toRow c := by
  induction operations using reverseRecOn with
  | nil => exact absurd h not_mem_nil
  | append_singleton operations operation ih =>
    rw [run, foldl_append] at h
    rcases mem_apply h with hold | ⟨c, hsave, hrow⟩
    · obtain ⟨c, hc, hrow⟩ := ih hold
      exact ⟨c, mem_append_left _ hc, hrow⟩
    · exact ⟨c, by simp [hsave], hrow⟩

theorem mem_newestRows (store : Store) (planId : Uuid) (row : Row) :
    row ∈ newestRows store planId ↔ row ∈ store.rows ∧ row.planId = toText planId := by
  rw [newestRows, mem_descending, rowsOf, mem_filter, decide_eq_true_eq]

theorem createdKey_toRow (c : Checkpoint) : createdKey (toRow c) = c.createdAt.chars :=
  String.toList_ofList

/-- The rows of a plan, newest first by their texts, are its checkpoints newest first. -/
theorem exists_newest (htimes : DistinctTimes operations) (planId : Uuid) :
    ∃ l : List Checkpoint, l.map toRow = newestRows (run operations) planId ∧
      l.Pairwise (fun a b => b.createdAt.position < a.createdAt.position) := by
  have hsaved : ∀ row ∈ newestRows (run operations) planId,
      ∃ c, (Operation.save c ∈ operations ∧ c.planId = planId) ∧ row = toRow c := by
    intro row hrow
    obtain ⟨hmem, hplan⟩ := (mem_newestRows _ _ _).mp hrow
    obtain ⟨c, hc, heq⟩ := mem_run hmem
    rw [heq] at hplan
    exact ⟨c, ⟨hc, toText_injective hplan⟩, heq⟩
  obtain ⟨l, hl, hall⟩ := exists_checkpoints _ hsaved
  refine ⟨l, hl, ?_⟩
  have hsorted : l.Pairwise (fun a b => createdKey (toRow b) ≤ createdKey (toRow a)) := by
    rw [← pairwise_map (f := toRow) (R := fun a b => createdKey b ≤ createdKey a), hl]
    exact descending_pairwise createdKey _
  have hids : l.Pairwise (fun a b => toText a.id ≠ toText b.id) := by
    have hrows : (newestRows (run operations) planId).Pairwise (fun a b => a.id ≠ b.id) := by
      refine (descending_perm createdKey _).symm.pairwise ?_ Ne.symm
      exact (pairwise_map.mp (run operations).nodup).filter _
    rw [← hl] at hrows
    exact (pairwise_map (f := toRow) (R := fun a b => a.id ≠ b.id)).mp hrows
  refine (hsorted.and hids).imp_of_mem ?_
  intro a b ha hb ⟨hkey, hid⟩
  rw [createdKey_toRow, createdKey_toRow] at hkey
  have hle : b.createdAt.position ≤ a.createdAt.position := by
    by_contra hlt
    exact absurd ((LeapTime.chars_lt_iff _ _).mpr (not_le.mp hlt)) (not_lt.mpr hkey)
  refine lt_of_le_of_ne hle ?_
  intro hsame
  apply hid
  rw [htimes a b (hall a ha).1 (hall b hb).1 ((hall a ha).2.trans (hall b hb).2.symm) hsame.symm]

section Queries

variable {store : Store} {planId : Uuid} {l : List Checkpoint}
  (hl : l.map toRow = newestRows store planId)

include hl

variable {c : Checkpoint}

theorem newest_planId (hc : c ∈ l) : c.planId = planId := by
  have hrow : toRow c ∈ newestRows store planId := hl ▸ mem_map_of_mem hc
  exact toText_injective ((mem_newestRows _ _ _).mp hrow).2

theorem newest_mem (hc : c ∈ l) : toRow c ∈ store.rows := by
  have hrow : toRow c ∈ newestRows store planId := hl ▸ mem_map_of_mem hc
  exact ((mem_newestRows _ _ _).mp hrow).1

theorem newest_ids_nodup : (l.map (fun c => toText c.id)).Nodup := by
  have hrows : ((newestRows store planId).map Row.id).Nodup := by
    rw [newestRows, ((descending_perm createdKey (rowsOf store planId)).map Row.id).nodup_iff]
    exact (filter_sublist.map Row.id).nodup store.nodup
  rw [← hl, map_map] at hrows
  exact hrows

theorem length_newest : l.length = (rowsOf store planId).length := by
  rw [← length_descending createdKey (rowsOf store planId)]
  exact (length_map toRow).symm.trans (congrArg length hl)

variable {keepLatest : ℕ}

section

variable (hkeep : keepLatest < 2 ^ 64) (hrows : store.rows.length < 2 ^ 63)

include hkeep hrows

theorem limited_newest :
    limited (wrap keepLatest) (newestRows store planId) = (l.take keepLatest).map toRow := by
  have hlength := length_newest hl
  have hfew : (rowsOf store planId).length ≤ store.rows.length := length_filter_le _ _
  have hwrap := wrap_eq keepLatest
  unfold limited
  rw [← hl]
  by_cases hbig : keepLatest < 2 ^ 63
  · rw [if_neg (by omega), show (wrap keepLatest).toNat = keepLatest by omega, map_take]
  · rw [if_pos (by omega), take_of_length_le (by omega)]

/-- A row of the table is deleted exactly if it is none of the newest ones of the plan. -/
theorem pruned_iff (hrow : row ∈ store.rows) :
    pruned store planId keepLatest row = true ↔
      row.id ∈ (l.drop keepLatest).map (fun c => toText c.id) := by
  have hkept : keptIds store planId keepLatest =
      (l.take keepLatest).map (fun c => toText c.id) := by
    unfold keptIds
    rw [limited_newest hl hkeep hrows, map_map]
    rfl
  have hnodup := newest_ids_nodup hl
  rw [← take_append_drop keepLatest l, map_append, nodup_append] at hnodup
  unfold pruned
  rw [hkept, decide_eq_true_eq]
  constructor
  · intro ⟨hplan, hnot⟩
    have hmem : row ∈ l.map toRow := hl ▸ (mem_newestRows _ _ _).mpr ⟨hrow, hplan⟩
    obtain ⟨c, hc, heq⟩ := mem_map.mp hmem
    rw [← take_append_drop keepLatest l] at hc
    rcases mem_append.mp hc with htake | hdrop
    · refine absurd (mem_map.mpr ⟨c, htake, ?_⟩) hnot
      rw [← heq]
      rfl
    · refine mem_map.mpr ⟨c, hdrop, ?_⟩
      rw [← heq]
      rfl
  · intro hdrop
    obtain ⟨c, hc, hid⟩ := mem_map.mp hdrop
    have hcl : c ∈ l := mem_of_mem_drop hc
    have hsame : toRow c = row :=
      store.eq_of_key_eq _ _ (newest_mem hl hcl) hrow hid
    refine ⟨?_, ?_⟩
    · rw [← hsame, ← newest_planId hl hcl]
      rfl
    · intro htake
      exact hnodup.2.2 row.id htake row.id hdrop rfl

theorem prunedRows_perm :
    (store.rows.filter (pruned store planId keepLatest)).Perm ((l.drop keepLatest).map toRow) := by
  have hstored : store.rows.Nodup := List.Nodup.of_map Row.id store.nodup
  have hdropped : ((l.drop keepLatest).map toRow).Nodup := by
    apply List.Nodup.of_map Row.id
    rw [map_map]
    exact ((drop_sublist keepLatest l).map _).nodup (newest_ids_nodup hl)
  rw [perm_ext_iff_of_nodup (hstored.filter _) hdropped]
  intro row
  rw [mem_filter]
  constructor
  · intro ⟨hrow, hpruned⟩
    have hid := (pruned_iff hl hkeep hrows hrow).mp hpruned
    obtain ⟨c, hc, hid⟩ := mem_map.mp hid
    have hmem := newest_mem hl (mem_of_mem_drop hc)
    exact mem_map.mpr ⟨c, hc, store.eq_of_key_eq _ _ hmem hrow hid⟩
  · intro hmem
    obtain ⟨c, hc, heq⟩ := mem_map.mp hmem
    have hrow : row ∈ store.rows :=
      heq ▸ newest_mem hl (mem_of_mem_drop hc)
    refine ⟨hrow, (pruned_iff hl hkeep hrows hrow).mpr ?_⟩
    exact mem_map.mpr ⟨c, hc, (toRow_id c).symm.trans (congrArg Row.id heq)⟩

theorem prune_eq :
    (prune store planId keepLatest).1.rows =
        store.rows.filter (fun row => row.id ∉ (l.drop keepLatest).map (fun c => toText c.id)) ∧
      (prune store planId keepLatest).2 = l.length - keepLatest := by
  constructor
  · apply filter_congr
    intro row hrow
    have hiff := pruned_iff hl hkeep hrows hrow
    rw [Bool.eq_iff_iff, Bool.not_eq_true', ← Bool.not_eq_true, hiff, decide_eq_true_eq]
  · have hperm := prunedRows_perm hl hkeep hrows
    have hlength := hperm.length_eq
    rw [length_map, length_drop, ← countP_eq_length_filter] at hlength
    exact hlength

end

theorem load_newest (hc : c ∈ l) (hread : readable numberInRange nestingLimit c.planState) :
    load read store c.id = .ok (some (asRead read c)) := by
  have hrow := newest_mem hl hc
  unfold load firstCheckpoint
  cases hfound : (store.rows.filter (fun row => row.id = toText c.id)).head? with
  | none =>
    rw [head?_eq_none_iff, filter_eq_nil_iff] at hfound
    exact absurd (decide_eq_true (toRow_id c)) (hfound _ hrow)
  | some row =>
    obtain ⟨hmem, hid⟩ := mem_filter.mp (mem_of_mem_head? hfound)
    rw [store.eq_of_key_eq row (toRow c) hmem hrow (of_decide_eq_true hid)]
    simp only [rowToCheckpoint_toRow read hread, Except.map]

variable (hread : ∀ c ∈ l, readable numberInRange nestingLimit c.planState)

include hread

theorem listForPlan_newest : listForPlan read store planId = .ok (l.map (asRead read)) := by
  rw [listForPlan, ← hl]
  exact mapM_toRow read hread

theorem loadLatest_newest : loadLatest read store planId = .ok (l.map (asRead read)).head? := by
  unfold loadLatest firstCheckpoint
  rw [← hl]
  cases l with
  | nil => rfl
  | cons c rest =>
    have hfirst := rowToCheckpoint_toRow read (hread c mem_cons_self)
    simp only [map_cons, take_succ_cons, head?_cons, hfirst, Except.map]

theorem rollbackToLatest_newest :
    rollbackToLatest read store planId =
      match (l.map (asRead read)).head? with
      | none => .error (.rollback ("No checkpoints found for plan " ++ toText planId))
      | some c => (planFromValue c.planState).mapError .rollback := by
  unfold rollbackToLatest
  rw [loadLatest_newest read hl hread, head?_map]
  cases hhead : l.head? with
  | none => rfl
  | some c =>
    have hc := mem_of_mem_head? hhead
    have hload : load read store (asRead read c).id = .ok (some (asRead read c)) :=
      load_newest read hl hc (hread c hc)
    simp only [Option.map_some, bind, Except.bind, rollback, hload]

end Queries

/-- The store answers for a plan by the times of its checkpoints. -/
structure AnswersByTime (read : ℚ → ℚ) (store : Store) (planId : Uuid) (l : List Checkpoint) :
    Prop where
  listed : listForPlan read store planId = .ok l
  /-- The answers are the rows of the plan, each read once. -/
  stored : ∃ rows, rows.Perm (rowsOf store planId) ∧
    List.Forall₂ (fun row c => rowToCheckpoint read row = .ok c) rows l
  newestFirst : l.Pairwise (fun a b => b.createdAt.position < a.createdAt.position)
  latest : loadLatest read store planId = .ok l.head?
  rolledBack : rollbackToLatest read store planId =
    match l.head? with
    | none => .error (.rollback ("No checkpoints found for plan " ++ toText planId))
    | some c => (planFromValue c.planState).mapError .rollback
  /-- Exactly the rows of the oldest checkpoints go, and no row of another plan. -/
  prunedOldest : ∀ keepLatest < 2 ^ 64, (prune store planId keepLatest).1.rows =
    store.rows.filter (fun row => row.id ∉ (l.drop keepLatest).map (fun c => toText c.id))
  prunedCount : ∀ keepLatest < 2 ^ 64,
    (prune store planId keepLatest).2 = (rowsOf store planId).length - keepLatest
  otherPlans : ∀ keepLatest < 2 ^ 64, ∀ other ≠ planId,
    rowsOf (prune store planId keepLatest).1 other = rowsOf store other

theorem rowsOf_prune_other (store : Store) {planId other : Uuid} (keepLatest : ℕ)
    (h : other ≠ planId) : rowsOf (prune store planId keepLatest).1 other = rowsOf store other := by
  unfold rowsOf prune Table.delete
  rw [filter_filter]
  apply filter_congr
  intro row _
  have hplans : toText other ≠ toText planId := fun heq => h (toText_injective heq)
  by_cases hrow : row.planId = toText other
  · simp [pruned, hrow, hplans]
  · simp [hrow]

/-- The store answers for a plan by time exactly if no stored state is nested too deeply. -/
theorem answers_by_time_iff_readable (operations : List Operation)
    (htimes : DistinctTimes operations) (hrows : (run operations).rows.length < 2 ^ 63)
    (read : ℚ → ℚ) (planId : Uuid) :
    (∃ l, AnswersByTime read (run operations) planId l) ↔
      ∀ row ∈ rowsOf (run operations) planId, readable numberInRange nestingLimit
        row.planState := by
  constructor
  · intro ⟨l, h⟩ row hrow
    refine readable_of_mapM read h.listed ?_
    exact (mem_descending createdKey _ row).mpr hrow
  · intro hread
    obtain ⟨l, hl, hnewest⟩ := exists_newest htimes planId
    have hall : ∀ c ∈ l, readable numberInRange nestingLimit c.planState := by
      intro c hc
      have hrow : toRow c ∈ newestRows (run operations) planId := hl ▸ mem_map_of_mem hc
      exact hread _ ((mem_descending createdKey _ _).mp hrow)
    have hlisted := listForPlan_newest read hl hall
    refine ⟨l.map (asRead read), hlisted, ?_, ?_, ?_, ?_, ?_, ?_, ?_⟩
    · refine ⟨newestRows (run operations) planId, descending_perm createdKey _, ?_⟩
      exact (mapM_eq_ok_iff _ _ _).mp hlisted
    · exact pairwise_map.mpr hnewest
    · exact loadLatest_newest read hl hall
    · exact rollbackToLatest_newest read hl hall
    · intro keepLatest hkeep
      rw [← map_drop, map_map]
      exact (prune_eq hl hkeep hrows).1
    · intro keepLatest hkeep
      rw [← length_newest hl]
      exact (prune_eq hl hkeep hrows).2
    · intro keepLatest _ other hother
      exact rowsOf_prune_other _ keepLatest hother

theorem noon_inRange (late half : Bool) :
    LeapTime.InRange 2024 5 17 12 0 late.toNat (half.toNat * 500000000) 0 := by
  cases late <;> cases half <;> decide

def noonAnd (late half : Bool) : LeapTime :=
  LeapTime.ofFields 2024 5 17 12 0 late.toNat (half.toNat * 500000000) 0 (noon_inRange late half)

def sampleCheckpoint (id : Uuid) (planState : Json) (createdAt : LeapTime) : Checkpoint where
  id := id
  planId := 7
  lastCompletedStep := none
  planState := planState
  createdAt := createdAt
  label := none

def twoSaves : List Operation :=
  [.save (sampleCheckpoint 1 .null (noonAnd false false)),
    .save (sampleCheckpoint 2 .null (noonAnd false true))]

theorem twoSaves_distinct : DistinctTimes twoSaves := by
  intro c c' hc hc' _ htime
  simp only [twoSaves, mem_cons, Operation.save.injEq, not_mem_nil, or_false] at hc hc'
  rcases hc with rfl | rfl
  · rcases hc' with rfl | rfl
    · rfl
    · exact absurd htime (by decide)
  · rcases hc' with rfl | rfl
    · exact absurd htime (by decide)
    · rfl

theorem two_saves_answered_by_time : ∃ l, AnswersByTime id (run twoSaves) 7 l :=
  (answers_by_time_iff_readable twoSaves twoSaves_distinct (by decide +kernel) id 7).mpr
    (by decide +kernel)

def nested : ℕ → Json
  | 0 => .arr []
  | levels + 1 => .arr [nested levels]

def deepSave : List Operation :=
  twoSaves ++ [.save (sampleCheckpoint 3 (nested 127) (noonAnd true false))]

/-- A plan state of 128 levels is saved, and the plan can no longer be listed or loaded. -/
theorem deep_state_hides_checkpoints :
    (rowsOf (run deepSave) 7).length = 3 ∧ (listForPlan id (run deepSave) 7).isOk = false ∧
      (loadLatest id (run deepSave) 7).isOk = false ∧
      (rollbackToLatest id (run deepSave) 7).isOk = false := by
  decide +kernel

end IronGolem.CheckpointTable
