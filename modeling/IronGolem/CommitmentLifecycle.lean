import IronGolem.TransitionRuns
import IronGolem.CommitmentStore

/-!
The life of a commitment under sequences of store operations. A row that was sent, dismissed or
expired is meant to stay that way until it is deleted. `MarkSent` and `ExpireOverdue` ask for a
pending row and keep to this.
-/
namespace IronGolem.CommitmentLifecycle

open TransitionRuns CommitmentStore

/-- The operations that write, with the clock and the fresh id that each of them reads. -/
inductive StoreOp
  | insert (c : Commitment) (freshID : String) (now : ℤ)
  | markSent (id : String) (sentAtMs : ℤ)
  | markDismissed (id : String) (now : ℤ)
  | markSnoozed (id : String) (untilMs now : ℤ)
  | markExpired (id : String) (now : ℤ)
  | expireOverdue (cutoffMs limit now : ℤ)
  | delete (id : String)
  deriving DecidableEq

variable (scan : RowTables.Scan Commitment)

def apply (db : DB) : StoreOp → DB
  | .insert c freshID now => (insert db c freshID now).1
  | .markSent id sentAtMs => (markSent db id sentAtMs).1
  | .markDismissed id now => (markDismissed db id now).1
  | .markSnoozed id untilMs now => (markSnoozed db id untilMs now).1
  | .markExpired id now => (markExpired db id now).1
  | .expireOverdue cutoffMs limit now => (expireOverdue db cutoffMs scan limit now).1
  | .delete id => (delete db id).1

def step (db : DB) (op : StoreOp) : Option DB := some (apply scan db op)

def terminal : CommitmentStatus → Bool
  | .sent | .dismissed | .expired => true
  | _ => false

def unguarded : StoreOp → Option (String × CommitmentStatus)
  | .markDismissed id _ => some (id, .dismissed)
  | .markSnoozed id _ _ => some (id, .pending)
  | .markExpired id _ => some (id, .expired)
  | _ => none

variable (db : DB)

theorem statusOf_mark_hasID (k id : String) (f : Commitment → Commitment)
    (hf : ∀ r, (f r).id = r.id) {st : CommitmentStatus} (hst : ∀ r, (f r).status = st) :
    statusOf (mark db (hasID k) f hf).1 id =
      if id = k then (statusOf db id).map (fun _ => st) else statusOf db id := by
  unfold statusOf
  rw [get_mark]
  cases hget : db.get id with
  | none => simp
  | some r =>
    have hid : r.id = id := db.key_of_get id r hget
    by_cases hk : id = k
    · simp [hasID, hid, hk, hst]
    · simp [hasID, hid, hk]

variable {op : StoreOp} {k : String} (id : String) {st : CommitmentStatus}

theorem statusOf_apply_unguarded (hop : unguarded op = some (k, st)) :
    statusOf (apply scan db op) id =
      if id = k then (statusOf db id).map (fun _ => st) else statusOf db id := by
  cases op with
  | markDismissed k' now =>
    obtain ⟨rfl, rfl⟩ : k' = k ∧ CommitmentStatus.dismissed = st := by simpa [unguarded] using hop
    exact statusOf_mark_hasID db k' id _ _ (fun _ => rfl)
  | markSnoozed k' untilMs now =>
    obtain ⟨rfl, rfl⟩ : k' = k ∧ CommitmentStatus.pending = st := by simpa [unguarded] using hop
    exact statusOf_mark_hasID db k' id _ _ (fun _ => rfl)
  | markExpired k' now =>
    obtain ⟨rfl, rfl⟩ : k' = k ∧ CommitmentStatus.expired = st := by simpa [unguarded] using hop
    exact statusOf_mark_hasID db k' id _ _ (fun _ => rfl)
  | insert | markSent | expireOverdue | delete => simp [unguarded] at hop

variable {r : Commitment}

theorem get_update_of_not_pending (p : Commitment → Bool)
    (f : Commitment → Commitment) (hf : ∀ r, (f r).id = r.id) {id : String}
    (hp : p r = true → r.status = .pending) (hget : db.get id = some r)
    (hr : r.status ≠ .pending) : (db.update p f hf).get id = some r := by
  have hpr : ¬ p r = true := fun h => hr (hp h)
  rw [RowTables.Table.get_update, hget]
  simp [hpr]

theorem get_insert_kept (c : Commitment) (freshID : String) (now : ℤ) {id : String}
    (hget : db.get id = some r) : (insert db c freshID now).1.get id = some r := by
  unfold CommitmentStore.insert insertRow
  split
  · exact hget
  · dsimp only
    split
    · rename_i db' hins
      exact db.get_insert_of_some db' _ hins id r hget
    · exact hget

theorem get_apply_guarded
    (hop : unguarded op = none) (hdelete : op ≠ .delete id) (hget : db.get id = some r)
    (hr : r.status ≠ .pending) : (apply scan db op).get id = some r := by
  cases op with
  | insert c freshID now => exact get_insert_kept db c freshID now hget
  | markSent k sentAtMs =>
    refine get_update_of_not_pending db _ _ (asSent_id sentAtMs) ?_ hget hr
    intro hp
    simp only [pendingWithID, Bool.and_eq_true, decide_eq_true_eq] at hp
    exact hp.2
  | expireOverdue cutoffMs limit now =>
    show (expireUpdate db (expireSelect db cutoffMs scan limit) now).1.get id = some r
    unfold expireUpdate
    split
    · exact hget
    · refine get_update_of_not_pending db _ _ (asExpired_id now) ?_ hget hr
      intro hp
      simp only [pendingAmong, Bool.and_eq_true, decide_eq_true_eq] at hp
      exact hp.2
  | delete k =>
    have hk : id ≠ k := fun h => hdelete (by rw [h])
    show (delete db k).1.get id = some r
    rw [get_delete, if_neg hk]
    exact hget
  | markDismissed | markSnoozed | markExpired => simp [unguarded] at hop

def Forward (db : DB) (op : StoreOp) : Prop :=
  ∀ id new, unguarded op = some (id, new) →
    ∀ st, statusOf db id = some st → terminal st = true → st = new

theorem terminal_ne_pending (h : terminal st = true) : st ≠ .pending := by
  rintro rfl
  exact absurd h (by decide)

theorem apply_keeps_terminal (hforward : Forward db op) (hdelete : op ≠ .delete id)
    (hst : statusOf db id = some st)
    (hterm : terminal st = true) : statusOf (apply scan db op) id = some st := by
  cases hop : unguarded op with
  | none =>
    obtain ⟨r, hget, rfl⟩ := (statusOf_eq_some_iff db id st).mp hst
    have hkeep := get_apply_guarded scan db id hop hdelete hget (terminal_ne_pending hterm)
    exact (statusOf_eq_some_iff _ _ _).mpr ⟨r, hkeep, rfl⟩
  | some mark =>
    obtain ⟨k, new⟩ := mark
    rw [statusOf_apply_unguarded scan db id hop]
    by_cases hk : id = k
    · rw [if_pos hk, hst, Option.map_some, ← hforward k new hop st (hk ▸ hst) hterm]
    · rw [if_neg hk]
      exact hst

def ForwardOnly (db : DB) (ops : List StoreOp) : Prop :=
  ∀ pre mid post s t, ops = pre ++ (mid ++ post) → run (step scan) db pre = some s →
    run (step scan) s mid = some t → ∀ id st, statusOf s id = some st → terminal st = true →
      StoreOp.delete id ∉ mid → statusOf t id = some st

def DeliveredOnce (db : DB) (ops : List StoreOp) : Prop :=
  ∀ pre mid post s t id at₁ at₂,
    ops = pre ++ .markSent id at₁ :: (mid ++ .markSent id at₂ :: post) →
    run (step scan) db pre = some s → (markSent s id at₁).2 = none →
    run (step scan) (apply scan s (.markSent id at₁)) mid = some t → (markSent t id at₂).2 = none →
      StoreOp.delete id ∈ mid

variable {ops : List StoreOp}

theorem run_keeps_terminal (s t : DB) {id : String}
    (hforward : Meets (step scan) Forward s ops) (hrun : run (step scan) s ops = some t)
    (hst : statusOf s id = some st) (hterm : terminal st = true)
    (hdelete : StoreOp.delete id ∉ ops) : statusOf t id = some st := by
  induction ops using List.reverseRecOn generalizing t with
  | nil =>
    rw [run_nil, Option.some.injEq] at hrun
    exact hrun ▸ hst
  | append_singleton ops op ih =>
    rw [List.mem_append, List.mem_singleton, not_or] at hdelete
    obtain ⟨u, hu, hlast⟩ := (run_concat_iff (step scan) s t ops op).mp hrun
    obtain ⟨hbefore, hop⟩ := (meets_concat_iff (step scan) Forward s ops op).mp hforward
    have hkept := ih u hbefore hu hdelete.1
    obtain rfl : apply scan u op = t := by simpa [step] using hlast
    exact apply_keeps_terminal scan u id (hop u hu) (fun h => hdelete.2 h.symm) hkept hterm

theorem forwardOnly_of_meets (h : Meets (step scan) Forward db ops) : ForwardOnly scan db ops := by
  intro pre mid post s t hops hpre hmid id st hst hterm hdelete
  have hmeets : Meets (step scan) Forward s mid := h.middle (step scan) pre mid post hops hpre
  exact run_keeps_terminal scan s t hmeets hmid hst hterm hdelete

theorem meets_of_forwardOnly (h : ForwardOnly scan db ops) : Meets (step scan) Forward db ops := by
  intro pre op post s hops hpre id new hop st hst hterm
  have hnot : StoreOp.delete id ∉ [op] := by
    intro hmem
    rw [List.mem_singleton] at hmem
    simp [← hmem, unguarded] at hop
  have hrun : run (step scan) s [op] = some (apply scan s op) := rfl
  have hkept := h pre [op] post s (apply scan s op) hops hpre hrun id st hst hterm hnot
  rw [statusOf_apply_unguarded scan s id hop, if_pos rfl, hst] at hkept
  exact (Option.some.inj hkept).symm

theorem deliveredOnce_of_forwardOnly (h : ForwardOnly scan db ops) : DeliveredOnce scan db ops := by
  intro pre mid post s t id at₁ at₂ hops hpre hfirst hmid hsecond
  by_contra hdelete
  obtain ⟨r, hget, hpending⟩ := (statusOf_eq_some_iff s id _).mp
    ((markSent_ok_iff s id at₁).mp hfirst)
  have hsent : statusOf (apply scan s (.markSent id at₁)) id = some .sent := by
    rw [statusOf_eq_some_iff]
    refine ⟨asSent at₁ r, ?_, rfl⟩
    show (markSent s id at₁).1.get id = _
    rw [get_markSent s id at₁ hget, if_pos ⟨rfl, hpending⟩]
  have hrun : run (step scan) db (pre ++ [.markSent id at₁]) =
      some (apply scan s (.markSent id at₁)) :=
    (run_concat_iff (step scan) db _ pre _).mpr ⟨s, hpre, rfl⟩
  have hkept := h (pre ++ [.markSent id at₁]) mid (.markSent id at₂ :: post) _ t
    (by simp [hops]) hrun hmid id .sent hsent rfl hdelete
  rw [(markSent_ok_iff t id at₂).mp hsecond] at hkept
  exact absurd hkept (by decide)

/-- Every life runs forward exactly when no mark meets a row that has ended differently. -/
theorem lifecycle_forward_iff (scan : RowTables.Scan Commitment) (db : DB) (ops : List StoreOp) :
    ForwardOnly scan db ops ∧ DeliveredOnce scan db ops ↔ Meets (step scan) Forward db ops := by
  constructor
  · rintro ⟨hforward, -⟩
    exact meets_of_forwardOnly scan db hforward
  · intro h
    have hforward := forwardOnly_of_meets scan db h
    exact ⟨hforward, deliveredOnce_of_forwardOnly scan db hforward⟩

def snoozeAfterSent : List StoreOp :=
  [.insert (reminder "c1" "tax" 5 30) "fresh" 1, .markSent "c1" 10, .markSnoozed "c1" 20 11]

/-- Snoozing a sent commitment makes it pending again, and it is delivered a second time. -/
theorem snooze_revives_sent :
    ¬ ForwardOnly .tableOrder .empty snoozeAfterSent ∧
      ¬ DeliveredOnce .tableOrder .empty (snoozeAfterSent ++ [.markSent "c1" 20]) := by
  constructor
  · intro h
    have hkept := h (snoozeAfterSent.take 2) (snoozeAfterSent.drop 2) [] _ _ rfl rfl rfl
      "c1" .sent (by decide) rfl (by decide)
    exact absurd hkept (by decide)
  · intro h
    have hdeleted := h (snoozeAfterSent.take 1) (snoozeAfterSent.drop 2) [] _ _ "c1" 10 20
      rfl rfl (by decide) rfl (by decide)
    exact absurd hdeleted (by decide)

end IronGolem.CommitmentLifecycle
