import IronGolem.CommitmentRuntime

/-!
What becomes of a commitment that is snoozed. Snoozing moves the start of the window to the time
asked for and leaves its end where it was. Up to that time the row is not due. It is due then only
if its window has not closed before, and it is read by the tick only if fewer rows than a batch
holds stand before it.
-/
namespace IronGolem.SnoozeWindows

open RowTables CommitmentStore CommitmentRuntime

variable (rt : Runtime)

/-- The whole of `expireStale`, with no other operation between its two statements. -/
def expireStale (db : DB) (now : ℤ) : DB :=
  (expireUpdate db (staleBatch rt db now) now).1

/-- No tick before `untilMs` fires or expires the row, and a tick at `untilMs` fires it. -/
def FiresWhenSnoozed (later : ℤ → DB) (id : String) (now untilMs : ℤ) : Prop :=
  (∀ t, now ≤ t → t < untilMs →
    id ∉ (dueBatch rt (later t) t).map Commitment.id ∧
      statusOf (expireStale rt (later t) t) id = some .pending) ∧
  id ∈ (dueBatch rt (later untilMs) untilMs).map Commitment.id

theorem mem_select_ids {db : DB} (scan : Scan Commitment) (p : Commitment → Bool)
    (ord : Commitment → ℤ) (limit : ℕ) {id : String} {r : Commitment}
    (hget : db.get id = some r) :
    id ∈ (db.select scan p ord limit).map Commitment.id ↔
      p r = true ∧ db.ahead scan p ord r < limit := by
  obtain ⟨hmem, hid⟩ := (db.get_eq_some_iff id r).mp hget
  rw [← db.mem_select_iff p scan ord limit r hmem, List.mem_map]
  constructor
  · rintro ⟨x, hx, hxid⟩
    have hrows := (db.mem_of_mem_select p scan ord limit x hx).1
    rwa [← db.eq_of_key_eq x r hrows hmem (hxid.trans hid.symm)]
  · intro hr
    exact ⟨r, hr, hid⟩

theorem mem_dueBatch_ids {db : DB} (nowMs : ℤ) {id : String} {r : Commitment}
    (hget : db.get id = some r) :
    id ∈ (dueBatch rt db nowMs).map Commitment.id ↔ due nowMs r = true ∧
      db.ahead rt.scans.due (due nowMs) (fun c => c.dueWindow.earliestMs) r < dueNowBatch := by
  have hlimit : (limitOr 50 dueNowBatch : ℤ) = dueNowBatch := rfl
  refine (mem_select_ids _ _ _ _ hget).trans (and_congr_right fun _ => ?_)
  omega

def staleAhead (db : DB) (nowMs : ℤ) (r : Commitment) : ℕ :=
  db.ahead rt.scans.overdue (overdue (nowMs - rt.expireGraceMs)) (fun c => c.dueWindow.latestMs) r

variable (rt : Runtime) {db : DB} (nowMs : ℤ) {id : String} {r : Commitment}

theorem mem_staleBatch_ids (hget : db.get id = some r) :
    id ∈ (staleBatch rt db nowMs).map Commitment.id ↔
      overdue (nowMs - rt.expireGraceMs) r = true ∧ staleAhead rt db nowMs r < expireBatch := by
  have hlimit : (limitOr 200 expireBatch : ℤ) = expireBatch := rfl
  unfold staleAhead
  refine (mem_select_ids _ _ _ _ hget).trans (and_congr_right fun _ => ?_)
  omega

theorem statusOf_expireStale (hget : db.get id = some r) (hpending : r.status = .pending) :
    statusOf (expireStale rt db nowMs) id = some .pending ↔
      id ∉ (staleBatch rt db nowMs).map Commitment.id := by
  have hid : r.id = id := db.key_of_get id r hget
  unfold expireStale expireUpdate
  split
  · rename_i hempty
    have hst : statusOf db id = some .pending := (statusOf_eq_some_iff db id _).mpr
      ⟨r, hget, hpending⟩
    simp [hempty, hst]
  · unfold statusOf
    rw [Table.get_update, hget]
    by_cases hin : id ∈ (staleBatch rt db nowMs).map Commitment.id
    · have hamong : pendingAmong (staleBatch rt db nowMs) r = true := by
        simp only [pendingAmong, hid, hin, hpending, decide_true, Bool.and_self]
      simp [hamong, hin, asExpired]
    · have hamong : pendingAmong (staleBatch rt db nowMs) r = false := by
        simp only [pendingAmong, hid, hin, decide_false, Bool.false_and]
      simp [hamong, hin, hpending]

theorem get_snoozed {c : Commitment} (untilMs now : ℤ) (hc : db.get c.id = some c) :
    ((Request.snooze c.id untilMs now).run db now).get c.id = some (asSnoozed untilMs now c) := by
  show (markSnoozed db c.id untilMs now).1.get c.id = _
  unfold markSnoozed
  rw [get_mark, hc]
  simp [hasID]

variable (c : Commitment)

theorem due_snoozed_iff (untilMs now t : ℤ) :
    due t (asSnoozed untilMs now c) = true ↔ untilMs ≤ t ∧ t ≤ c.dueWindow.latestMs := by
  rw [due_iff]
  exact and_iff_right rfl

theorem overdue_snoozed_iff (untilMs now cutoffMs : ℤ) :
    overdue cutoffMs (asSnoozed untilMs now c) = true ↔
      0 < c.dueWindow.latestMs ∧ c.dueWindow.latestMs < cutoffMs := by
  rw [overdue_iff]
  exact and_iff_right rfl

/-- A snoozed commitment fires at its time exactly when that is in its window and the batch has
room. -/
theorem snoozed_fires_iff (rt : Runtime) (db : DB) (c : Commitment) (now untilMs : ℤ)
    (later : ℤ → DB) (hc : db.get c.id = some c) (huntil : now < untilMs)
    (hlater : ∀ t, now ≤ t → t ≤ untilMs →
      (later t).get c.id = ((Request.snooze c.id untilMs now).run db now).get c.id) :
    FiresWhenSnoozed rt later c.id now untilMs ↔
      untilMs ≤ c.dueWindow.latestMs ∧
      (later untilMs).ahead rt.scans.due (due untilMs) (fun r => r.dueWindow.earliestMs)
        (asSnoozed untilMs now c) < dueNowBatch ∧
      (rt.expireGraceMs < 0 → ∀ t, now ≤ t → t < untilMs → 0 < c.dueWindow.latestMs →
        c.dueWindow.latestMs < t - rt.expireGraceMs →
          expireBatch ≤ staleAhead rt (later t) t (asSnoozed untilMs now c)) := by
  have hrow : ∀ t, now ≤ t → t ≤ untilMs → (later t).get c.id = some (asSnoozed untilMs now c) := by
    intro t hnow ht
    rw [hlater t hnow ht, get_snoozed untilMs now hc]
  have hstale : ∀ t, now ≤ t → t < untilMs →
      (statusOf (expireStale rt (later t) t) c.id = some .pending ↔
        (0 < c.dueWindow.latestMs → c.dueWindow.latestMs < t - rt.expireGraceMs →
          expireBatch ≤ staleAhead rt (later t) t (asSnoozed untilMs now c))) := by
    intro t hnow ht
    have hget := hrow t hnow ht.le
    rw [statusOf_expireStale rt t hget rfl,
      mem_staleBatch_ids rt t hget, overdue_snoozed_iff, not_and, not_lt, and_imp]
  unfold FiresWhenSnoozed
  rw [mem_dueBatch_ids rt untilMs (hrow untilMs huntil.le le_rfl), due_snoozed_iff]
  constructor
  · rintro ⟨hbefore, ⟨-, hlatest⟩, hroom⟩
    refine ⟨hlatest, hroom, ?_⟩
    intro _ t hnow ht
    exact (hstale t hnow ht).mp (hbefore t hnow ht).2
  · rintro ⟨hlatest, hroom, hgrace⟩
    refine ⟨?_, ⟨le_rfl, hlatest⟩, hroom⟩
    intro t hnow ht
    constructor
    · rw [mem_dueBatch_ids rt t (hrow t hnow ht.le), due_snoozed_iff]
      omega
    · rw [hstale t hnow ht]
      intro hpos hover
      -- A window that is still open at `untilMs` is overdue earlier only with a negative grace.
      have hneg : rt.expireGraceMs < 0 := by omega
      exact hgrace hneg t hnow ht hpos hover

def oneReminder : DB := ⟨[reminder "c1" "tax" 5 100], by decide⟩

/-- Snoozed from 10 to 40, a reminder for 5 to 100 stays quiet and fires at 40. -/
theorem snoozed_in_window :
    FiresWhenSnoozed gatewayRuntime (fun _ => (Request.snooze "c1" 40 10).run oneReminder 10)
      "c1" 10 40 := by
  refine (snoozed_fires_iff gatewayRuntime oneReminder (reminder "c1" "tax" 5 100) 10 40 _ rfl
    (by decide) (fun _ _ _ => rfl)).mpr ⟨by decide, by decide, ?_⟩
  intro hneg
  exact absurd hneg (by decide)

/-- Snoozed from 10 to 200, it is not due at 200 or ever after, and it expires. -/
theorem snoozed_past_window :
    ¬ FiresWhenSnoozed gatewayRuntime
        (fun _ => (Request.snooze "c1" 200 10).run oneReminder 10) "c1" 10 200 ∧
      (∀ t, (dueBatch gatewayRuntime ((Request.snooze "c1" 200 10).run oneReminder 10) t).map
        Commitment.id = []) ∧
      statusOf (expireStale gatewayRuntime ((Request.snooze "c1" 200 10).run oneReminder 10) 600101)
        "c1" = some .expired := by
  refine ⟨?_, ?_, by decide⟩
  · rintro ⟨-, hfires⟩
    exact absurd hfires (by decide)
  · intro t
    have hnone :
        dueBatch gatewayRuntime ((Request.snooze "c1" 200 10).run oneReminder 10) t = [] := by
      rw [List.eq_nil_iff_forall_not_mem]
      intro r hr
      obtain ⟨hmem, hdue⟩ := Table.mem_of_mem_select _ _ _ _ _ r hr
      obtain rfl : r = asSnoozed 200 10 (reminder "c1" "tax" 5 100) := by
        simpa [Request.run, markSnoozed, mark, Table.update, oneReminder, hasID, reminder] using
          hmem
      rw [due_snoozed_iff] at hdue
      have hlatest : (reminder "c1" "tax" 5 100).dueWindow.latestMs = 100 := rfl
      omega
    rw [hnone, List.map_nil]

end IronGolem.SnoozeWindows
