import Mathlib.Data.Rat.Defs
import IronGolem.RowTables

/-!
The store of commitments: promises of the assistant with a window in which they fall due. Each
method of `SQLiteStore` is one or two statements on the table `gateway_commitments`.
-/
namespace IronGolem.CommitmentStore

open RowTables

/-- A kind is free text in the source; `other` is a text that is none of the constants. -/
inductive CommitmentKind
  | eventCheckIn
  | deadlineCheck
  | careCheckIn
  | openLoop
  | other (text : String)
  deriving DecidableEq, Repr

def CommitmentKind.valid : CommitmentKind → Bool
  | eventCheckIn | deadlineCheck | careCheckIn | openLoop => true
  | other _ => false

inductive CommitmentSensitivity
  | routine
  | personal
  | care
  | other (text : String)
  deriving DecidableEq, Repr

def CommitmentSensitivity.valid : CommitmentSensitivity → Bool
  | routine | personal | care => true
  | other _ => false

/-- `unset` is the empty text, the zero value of the source's type. -/
inductive CommitmentStatus
  | unset
  | pending
  | sent
  | dismissed
  | snoozed
  | expired
  | other (text : String)
  deriving DecidableEq, Repr

structure DueWindow where
  earliestMs : ℤ
  latestMs : ℤ
  timezone : String
  deriving DecidableEq, Repr

structure Commitment where
  id : String
  workspaceID : String
  tenantID : String
  kind : CommitmentKind
  sensitivity : CommitmentSensitivity
  status : CommitmentStatus
  reason : String
  suggestedText : String
  dedupeKey : String
  confidence : ℚ
  dueWindow : DueWindow
  connectorID : String
  channelID : String
  userID : String
  sourceEventID : String
  createdAtMs : ℤ
  updatedAtMs : ℤ
  sentAtMs : ℤ
  dismissedAtMs : ℤ
  snoozedUntilMs : ℤ
  expiredAtMs : ℤ
  attempts : ℕ
  deriving DecidableEq, Repr

variable (id : String)

/-- A pending reminder of one workspace, used where a fixed row is needed. -/
def reminder (dedupeKey : String) (earliestMs latestMs : ℤ) : Commitment where
  id := id
  workspaceID := "ws"
  tenantID := "tenant"
  kind := .deadlineCheck
  sensitivity := .routine
  status := .pending
  reason := "tax filing"
  suggestedText := "Remember the tax filing"
  dedupeKey := dedupeKey
  confidence := 1
  dueWindow := ⟨earliestMs, latestMs, "UTC"⟩
  connectorID := "telegram"
  channelID := "chat"
  userID := "user"
  sourceEventID := "event"
  createdAtMs := 1
  updatedAtMs := 1
  sentAtMs := 0
  dismissedAtMs := 0
  snoozedUntilMs := 0
  expiredAtMs := 0
  attempts := 0

abbrev DB := Table Commitment.id

inductive StoreError
  | invalidKind (kind : CommitmentKind)
  | invalidSensitivity (sensitivity : CommitmentSensitivity)
  | workspaceRequired
  | dedupeKeyRequired
  /-- `ErrDeduped`, together with the id of the row that is already there. -/
  | deduped (existing : String)
  | notFound
  | keyTaken (id : String)
  deriving DecidableEq, Repr

def pendingWithKey (workspaceID dedupeKey : String) (r : Commitment) : Bool :=
  decide (r.workspaceID = workspaceID) && decide (r.dedupeKey = dedupeKey) &&
    decide (r.status = .pending)

variable (db : DB) (c : Commitment)

/-- The checks of `Insert` and its SELECT. -/
def insertCheck : Option StoreError :=
  if !c.kind.valid then some (.invalidKind c.kind)
  else if !c.sensitivity.valid then some (.invalidSensitivity c.sensitivity)
  else if c.workspaceID = "" then some .workspaceRequired
  else if c.dedupeKey = "" then some .dedupeKeyRequired
  else (db.rows.find? (pendingWithKey c.workspaceID c.dedupeKey)).map (fun r => .deduped r.id)

variable (freshID : String) (now : ℤ)

/-- The row that `Insert` writes. The stamps of the other methods are not among its columns. -/
def insertedRow : Commitment :=
  { c with
    id := if c.id = "" then freshID else c.id
    status := if c.status = .unset then .pending else c.status
    createdAtMs := if c.createdAtMs = 0 then now else c.createdAtMs
    updatedAtMs := if c.updatedAtMs = 0 then now else c.updatedAtMs
    sentAtMs := 0
    dismissedAtMs := 0
    snoozedUntilMs := 0
    expiredAtMs := 0 }

/-- The INSERT of `Insert`; only a taken id refuses it. -/
def insertRow :
    DB × Except StoreError String :=
  let row := insertedRow c freshID now
  match db.insert row with
  | some db' => (db', .ok row.id)
  | none => (db, .error (.keyTaken row.id))

def insert :
    DB × Except StoreError String :=
  match insertCheck db c with
  | some err => (db, .error err)
  | none => insertRow db c freshID now

def rowsAffectedErr (n : ℕ) : Option StoreError := if n = 0 then some .notFound else none

def mark (p : Commitment → Bool) (f : Commitment → Commitment)
    (hf : ∀ r, (f r).id = r.id) : DB × Option StoreError :=
  (db.update p f hf, rowsAffectedErr (db.affected p))

variable (r : Commitment)

def hasID : Bool := decide (r.id = id)

def pendingWithID : Bool :=
  decide (r.id = id) && decide (r.status = .pending)

def asSent (sentAtMs : ℤ) (r : Commitment) : Commitment :=
  { r with status := .sent, sentAtMs := sentAtMs, updatedAtMs := sentAtMs, attempts :=
    r.attempts + 1 }

def asDismissed : Commitment :=
  { r with status := .dismissed, dismissedAtMs := now, updatedAtMs := now }

def asSnoozed (untilMs now : ℤ) (r : Commitment) : Commitment :=
  { r with
    status := .pending
    dueWindow := { r.dueWindow with earliestMs := untilMs }
    snoozedUntilMs := untilMs
    updatedAtMs := now }

def asExpired : Commitment :=
  { r with status := .expired, expiredAtMs := now, updatedAtMs := now }

@[simp] theorem asSent_id (sentAtMs : ℤ) (r : Commitment) : (asSent sentAtMs r).id = r.id := rfl

variable (now : ℤ)

@[simp] theorem asDismissed_id (r : Commitment) : (asDismissed now r).id = r.id := rfl

@[simp] theorem asSnoozed_id (untilMs now : ℤ) (r : Commitment) :
    (asSnoozed untilMs now r).id = r.id := rfl

@[simp] theorem asExpired_id (r : Commitment) : (asExpired now r).id = r.id := rfl

variable (id : String)

def markSent (sentAtMs : ℤ) : DB × Option StoreError :=
  mark db (pendingWithID id) (asSent sentAtMs) (asSent_id sentAtMs)

def markDismissed (now : ℤ) : DB × Option StoreError :=
  mark db (hasID id) (asDismissed now) (asDismissed_id now)

def markSnoozed (untilMs now : ℤ) : DB × Option StoreError :=
  mark db (hasID id) (asSnoozed untilMs now) (asSnoozed_id untilMs now)

def markExpired (now : ℤ) : DB × Option StoreError :=
  mark db (hasID id) (asExpired now) (asExpired_id now)

def delete : DB × Option StoreError :=
  (db.delete (hasID id), rowsAffectedErr (db.affected (hasID id)))

def limitOr (default : ℕ) (limit : ℤ) : ℕ := if limit ≤ 0 then default else limit.toNat

def due (nowMs : ℤ) (r : Commitment) : Bool :=
  decide (r.status = .pending) && decide (r.dueWindow.earliestMs ≤ nowMs) &&
    decide (r.dueWindow.latestMs ≥ nowMs)

/-- Rows of equal `earliest_ms` come as the index has them. -/
def dueNow (scan : Scan Commitment) (nowMs limit : ℤ) : List Commitment :=
  db.select scan (due nowMs) (fun r => r.dueWindow.earliestMs) (limitOr 50 limit)

variable (cutoffMs : ℤ)

def overdue (r : Commitment) : Bool :=
  decide (r.status = .pending) && decide (r.dueWindow.latestMs > 0) &&
    decide (r.dueWindow.latestMs < cutoffMs)

/-- The SELECT of `ExpireOverdue`. -/
def expireSelect (scan : Scan Commitment) (limit : ℤ) : List Commitment :=
  db.select scan (overdue cutoffMs) (fun r => r.dueWindow.latestMs) (limitOr 200 limit)

def pendingAmong (snapshot : List Commitment) (r : Commitment) : Bool :=
  decide (r.id ∈ snapshot.map Commitment.id) && decide (r.status = .pending)

/-- The UPDATE of `ExpireOverdue` reports as many rows of its snapshot as it changed. -/
def expireUpdate (snapshot : List Commitment) (now : ℤ) : DB × List Commitment :=
  if snapshot = [] then (db, [])
  else
    let n := db.affected (pendingAmong snapshot)
    let kept := if n < snapshot.length then snapshot.take n else snapshot
    (db.update (pendingAmong snapshot) (asExpired now) (asExpired_id now), kept.map (asExpired now))

def expireOverdue (scan : Scan Commitment) (limit now : ℤ) : DB × List Commitment :=
  expireUpdate db (expireSelect db cutoffMs scan limit) now

theorem due_iff (nowMs : ℤ) (r : Commitment) :
    due nowMs r = true ↔ r.status = .pending ∧ r.dueWindow.earliestMs ≤ nowMs ∧
      nowMs ≤ r.dueWindow.latestMs := by
  simp only [due, Bool.and_eq_true, decide_eq_true_eq, ge_iff_le, and_assoc]

theorem overdue_iff (cutoffMs : ℤ) (r : Commitment) :
    overdue cutoffMs r = true ↔ r.status = .pending ∧ 0 < r.dueWindow.latestMs ∧
      r.dueWindow.latestMs < cutoffMs := by
  simp only [overdue, Bool.and_eq_true, decide_eq_true_eq, gt_iff_lt, and_assoc]

section

variable (db : DB) (id : String)

def statusOf : Option CommitmentStatus := (db.get id).map Commitment.status

theorem statusOf_eq_some_iff (st : CommitmentStatus) :
    statusOf db id = some st ↔ ∃ r, db.get id = some r ∧ r.status = st := by
  unfold statusOf
  rw [Option.map_eq_some_iff]

variable (p : Commitment → Bool) (f : Commitment → Commitment)

theorem get_mark (hf : ∀ r, (f r).id = r.id) :
    (mark db p f hf).1.get id = (db.get id).map (fun r => if p r then f r else r) :=
  db.get_update p f hf id

theorem get_mark_of_ne (hf : ∀ r, (f r).id = r.id) (hp : ∀ r, r.id = id → p r = false) :
    (mark db p f hf).1.get id = db.get id := by
  rw [get_mark]
  cases h : db.get id with
  | none => rfl
  | some r => simp [hp r (db.key_of_get id r h)]

theorem mark_ok_iff (hf : ∀ r, (f r).id = r.id) :
    (mark db p f hf).2 = none ↔ ∃ r ∈ db.rows, p r = true := by
  unfold mark rowsAffectedErr Table.affected
  rw [ite_eq_right_iff]
  simp

variable (sentAtMs : ℤ)

theorem markSent_ok_iff : (markSent db id sentAtMs).2 = none ↔ statusOf db id = some .pending := by
  unfold markSent
  rw [mark_ok_iff, statusOf_eq_some_iff]
  simp only [pendingWithID, Bool.and_eq_true, decide_eq_true_eq, db.get_eq_some_iff, and_assoc]

theorem get_markSent {k : String} {r : Commitment} (hget : db.get k = some r) :
    (markSent db id sentAtMs).1.get k =
      some (if k = id ∧ r.status = .pending then asSent sentAtMs r else r) := by
  have hk : r.id = k := db.key_of_get k r hget
  unfold markSent
  rw [get_mark, hget, Option.map_some]
  simp [pendingWithID, hk]

theorem get_delete (k : String) : (delete db id).1.get k = if k = id then none else db.get k := by
  unfold delete
  rw [Table.get_delete]
  cases h : db.get k with
  | none => simp
  | some r =>
    have hk : r.id = k := db.key_of_get k r h
    by_cases hid : k = id <;> simp [hasID, hk, hid]

end

end IronGolem.CommitmentStore
