import IronGolem.CommitmentLifecycle

/-!
What `ExpireOverdue` reports against what it did. It reads a snapshot of overdue rows, expires
those of them that are still pending in a second statement, and learns only how many there were. It
then reports that many rows from the front of the snapshot.
-/
namespace IronGolem.ExpiryReports

open RowTables CommitmentStore CommitmentLifecycle List

def ChangedToExpired (before after : DB) (id : String) : Prop :=
  statusOf before id = some .pending ∧ statusOf after id = some .expired

def ReportsExactly (before : DB) (snapshot : List Commitment) (now : ℤ) : Prop :=
  ∀ id, id ∈ (expireUpdate before snapshot now).2.map Commitment.id ↔
    ChangedToExpired before (expireUpdate before snapshot now).1 id

def pendingIn (db : DB) (id : String) : Bool := decide (statusOf db id = some .pending)

variable (db : DB) {snapshot : List Commitment} {id : String}

theorem any_pendingAmong (hid : id ∈ snapshot.map Commitment.id) :
    (db.get id).any (pendingAmong snapshot) = pendingIn db id := by
  unfold pendingIn statusOf
  cases hget : db.get id with
  | none => simp
  | some r =>
    have hr : r.id = id := db.key_of_get id r hget
    simp only [Option.any_some, pendingAmong, hr, hid, decide_true, Bool.true_and,
      Option.map_some, Option.some.injEq]

theorem affected_pendingAmong (hnodup : (snapshot.map Commitment.id).Nodup) :
    db.affected (pendingAmong snapshot) = (snapshot.map Commitment.id).countP (pendingIn db) := by
  rw [db.affected_eq_countP_keys (pendingAmong snapshot) _ hnodup]
  · apply countP_congr
    intro id hid
    rw [any_pendingAmong db hid]
  · intro r _ hr
    simp only [pendingAmong, Bool.and_eq_true, decide_eq_true_eq] at hr
    exact hr.1

variable (now : ℤ)

theorem reported_ids (hnodup : (snapshot.map Commitment.id).Nodup) :
    (expireUpdate db snapshot now).2.map Commitment.id =
      (snapshot.map Commitment.id).take ((snapshot.map Commitment.id).countP (pendingIn db)) := by
  have hexpired : Commitment.id ∘ asExpired now = Commitment.id := rfl
  unfold expireUpdate
  split
  · rename_i hempty
    simp [hempty]
  · rw [affected_pendingAmong db hnodup, map_map, hexpired]
    split
    · rw [map_take]
    · rw [take_of_length_le]
      rw [length_map]
      omega

theorem changedToExpired_iff (id : String) :
    ChangedToExpired db (expireUpdate db snapshot now).1 id ↔
      id ∈ snapshot.map Commitment.id ∧ pendingIn db id = true := by
  unfold ChangedToExpired pendingIn
  rw [decide_eq_true_eq]
  constructor
  · rintro ⟨hbefore, hafter⟩
    refine ⟨?_, hbefore⟩
    by_contra hid
    have hsame : (expireUpdate db snapshot now).1.get id = db.get id := by
      unfold expireUpdate
      split
      · rfl
      · refine get_mark_of_ne db id _ _ (asExpired_id now) ?_
        intro r hr
        simp [pendingAmong, hr, hid]
    have hst : statusOf (expireUpdate db snapshot now).1 id = statusOf db id := by
      unfold statusOf
      rw [hsame]
    rw [hst, hbefore] at hafter
    exact absurd hafter (by decide)
  · rintro ⟨hid, hbefore⟩
    refine ⟨hbefore, ?_⟩
    obtain ⟨r, hget, hpending⟩ := (statusOf_eq_some_iff db id _).mp hbefore
    have hr : r.id = id := db.key_of_get id r hget
    have hsnapshot : snapshot ≠ [] := by
      rintro rfl
      simp at hid
    have hamong : pendingAmong snapshot r = true := by
      simp only [pendingAmong, hr, hid, hpending, decide_true, Bool.and_self]
    rw [statusOf_eq_some_iff]
    refine ⟨asExpired now r, ?_, rfl⟩
    unfold expireUpdate
    rw [if_neg hsnapshot]
    rw [Table.get_update, hget, Option.map_some, if_pos hamong]

/-- The report is exact if and only if the rows still pending lead the snapshot. -/
theorem expireOverdue_reports_iff (scan : Scan Commitment) (db : DB) (cutoffMs limit now : ℤ)
    (ops : List StoreOp) :
    ReportsExactly (ops.foldl (apply scan) db) (expireSelect db cutoffMs scan limit) now ↔
      (expireSelect db cutoffMs scan limit).Pairwise (fun a b =>
        statusOf (ops.foldl (apply scan) db) b.id = some .pending →
          statusOf (ops.foldl (apply scan) db) a.id = some .pending) := by
  have hnodup : ((expireSelect db cutoffMs scan limit).map Commitment.id).Nodup :=
    db.select_keys_nodup _ _ _ _
  unfold ReportsExactly
  simp only [reported_ids _ now hnodup, changedToExpired_iff]
  rw [mem_take_countP_iff (pendingIn (ops.foldl (apply scan) db)) hnodup, pairwise_map]
  simp only [pendingIn, decide_eq_true_eq]

def overdueTable : DB :=
  ⟨[reminder "c1" "tax" 1 5, reminder "c2" "rent" 1 6], by decide⟩

/-- The first of two overdue rows is sent in between: the wrong one is reported as expired. -/
theorem expired_row_not_reported :
    (expireUpdate (apply .tableOrder overdueTable (.markSent "c1" 9))
        (expireSelect overdueTable 10 .tableOrder 200) 11).2.map Commitment.id = ["c1"] ∧
      ¬ ReportsExactly ([StoreOp.markSent "c1" 9].foldl (apply .tableOrder) overdueTable)
        (expireSelect overdueTable 10 .tableOrder 200) 11 := by
  refine ⟨by decide, ?_⟩
  intro h
  have hchanged := (h "c1").mp (by decide)
  exact absurd hchanged.1 (by decide)

end IronGolem.ExpiryReports
