import IronGolem.OrderedPages

/-!
The store of approval requests. The whole request is kept as a JSON body, and its status is
repeated in a column of its own for the listing. `transition` reads the body, edits it and writes
it back in a second statement that asks for nothing but the id, so its halves are kept apart here.
-/
namespace IronGolem.ApprovalStore

open RowTables OrderedPages

/-- A status is free text in the source; `other` is a text that is none of the constants. -/
inductive ApprovalStatus
  | pending
  | approved
  | denied
  | expired
  | other (text : String)
  deriving DecidableEq, Repr

def ApprovalStatus.text : ApprovalStatus → String
  | pending => "pending"
  | approved => "approved"
  | denied => "denied"
  | expired => "expired"
  | other text => text

inductive RiskLevel
  | low
  | medium
  | high
  | other (text : String)
  deriving DecidableEq, Repr

structure ApprovalRequest where
  id : String
  recipeID : String
  stepID : String
  description : String
  riskLevel : RiskLevel
  status : ApprovalStatus
  tenantID : String
  workspaceID : String
  requestedAt : ℤ
  respondedAt : Option ℤ
  respondedBy : String
  reason : String
  deriving DecidableEq, Repr

abbrev RequestOf (id : String) := { a : ApprovalRequest // a.id = id }

/-- A row of `gateway_approvals`: the columns keep the id and the status of the body. -/
structure Row where
  id : String
  status : ApprovalStatus
  body : RequestOf id
  createdAt : ℤ
  updatedAt : ℤ
  seq : ℕ
  body_status : body.1.status = status
  deriving DecidableEq

abbrev DB := Table Row.id

variable (db : DB)

def get (id : String) : Option (RequestOf id) :=
  match h : db.get id with
  | none => none
  | some r => some ⟨r.body.1, r.body.2.trans (db.key_of_get id r h)⟩

theorem get_eq_some_iff (id : String) (a : RequestOf id) :
    get db id = some a ↔ ∃ r, db.get id = some r ∧ r.body.1 = a.1 := by
  unfold get
  split
  · rename_i hrow
    simp [hrow]
  · rename_i r hrow
    simp [hrow, Subtype.ext_iff]

theorem get_eq_none_iff (id : String) : get db id = none ↔ db.get id = none := by
  unfold get
  split
  · rename_i hrow
    simp [hrow]
  · rename_i r hrow
    simp [hrow]

def maxSeq : ℕ := (db.rows.map Row.seq).foldr max 0

def createdRow (req : ApprovalRequest) (now : ℤ) : Row where
  id := req.id
  status := req.status
  body := ⟨req, rfl⟩
  createdAt := now
  updatedAt := now
  seq := maxSeq db + 1
  body_status := rfl

def create (req : ApprovalRequest) (now : ℤ) : DB := db.replace (createdRow db req now)

def hasStatus (statusFilter : String) (r : Row) : Bool :=
  decide (statusFilter = "") || decide (r.status.text = statusFilter)

def list (page pageSize : ℤ) (statusFilter : String) : List ApprovalRequest × ℕ :=
  let page := if page < 1 then 1 else page
  let pageSize := if pageSize < 1 then 50 else pageSize
  let found := descending Row.seq (db.rows.filter (hasStatus statusFilter))
  ((window pageSize.toNat (pageOffset page pageSize) found).map (fun r => r.body.1), found.length)

/-- What is decided: `Approve` has no reason of its own. -/
inductive Decision
  | approve (respondedBy : String)
  | deny (respondedBy reason : String)
  deriving DecidableEq, Repr

def Decision.target : Decision → ApprovalStatus
  | approve _ => .approved
  | deny _ _ => .denied

def Decision.respondedBy : Decision → String
  | approve by_ => by_
  | deny by_ _ => by_

/-- The body that `transition` writes, from the body it read. -/
def decided {id : String} (d : Decision) (now : ℤ) (a : RequestOf id) : RequestOf id :=
  ⟨{ a.1 with
      status := d.target
      respondedAt := some now
      respondedBy := d.respondedBy
      reason := match d with
        | .approve _ => a.1.reason
        | .deny _ reason => reason }, a.2⟩

def Row.withBody (r : Row) (a : RequestOf r.id) (now : ℤ) : Row :=
  { r with status := a.1.status, body := a, updatedAt := now, body_status := rfl }

/-- The UPDATE of `transition` writes status, body and stamp whatever the row holds by now. -/
def writeBody {id : String} (db : DB) (a : RequestOf id) (now : ℤ) : DB :=
  db.update (fun r => decide (r.id = id))
    (fun r => if h : r.id = id then r.withBody (h ▸ a) now else r)
    (fun r => by by_cases h : r.id = id <;> simp [h, Row.withBody])

variable (d : Decision)

theorem target_ne_pending : d.target ≠ .pending := by
  cases d <;> simp [Decision.target]

variable {id : String}

variable (a : RequestOf id)

theorem get_writeBody_self {db : DB} (b : RequestOf id) (now : ℤ)
    (h : get db id = some b) : get (writeBody db a now) id = some a := by
  obtain ⟨r, hr, -⟩ := (get_eq_some_iff db id b).mp h
  obtain rfl : r.id = id := db.key_of_get id r hr
  rw [get_eq_some_iff]
  refine ⟨r.withBody a now, ?_, rfl⟩
  unfold writeBody
  rw [Table.get_update_key, if_pos rfl, hr]
  simp

theorem get_writeBody_of_ne {other : String} (now : ℤ)
    (hne : other ≠ id) : get (writeBody db a now) other = get db other := by
  have hrow : (writeBody db a now).get other = db.get other := by
    unfold writeBody
    rw [Table.get_update_key, if_neg hne]
  ext b
  simp only [get_eq_some_iff, hrow]

theorem mem_writeBody_of_ne {db : DB} (now : ℤ) {r : Row}
    (hr : r ∈ db.rows) (hne : r.id ≠ id) : r ∈ (writeBody db a now).rows := by
  exact db.mem_update_key_of_ne id _ _ r hr hne

end IronGolem.ApprovalStore
