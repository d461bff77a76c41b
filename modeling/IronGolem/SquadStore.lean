import Mathlib.Algebra.Order.Group.Int
import IronGolem.RowTables

/-!
The store of squads. The whole squad is kept as a JSON body, and whether it is active is repeated
in a column of its own. Every method reads the body, edits the copy and writes it back in a second
statement that asks for nothing but the id; `RecordRun` writes the body and leaves the column
alone.
-/
namespace IronGolem.SquadStore

open RowTables

/-- Roles and levels are free text in the source; `other` is a text that is no constant. -/
inductive AgentRole
  | planner
  | executor
  | verifier
  | researcher
  | defender
  | healer
  | optimizer
  | narrator
  | router
  | other (text : String)
  deriving DecidableEq, Repr

structure SquadMember where
  role : AgentRole
  name : String
  description : String
  tools : List String
  capabilities : List String
  deriving DecidableEq, Repr

inductive AutonomyLevel
  | low
  | medium
  | high
  | other (text : String)
  deriving DecidableEq, Repr

structure Squad where
  id : String
  name : String
  description : String
  purpose : String
  members : List SquadMember
  workspaceID : String
  isActive : Bool
  trustLevel : ℤ
  autonomyLevel : AutonomyLevel
  createdAt : ℤ
  updatedAt : ℤ
  lastRunAt : Option ℤ
  deriving DecidableEq, Repr

/-- A row of `gateway_squads`. -/
structure Row where
  id : String
  isActive : Bool
  body : Squad
  createdAt : ℤ
  updatedAt : ℤ
  seq : ℕ
  deriving DecidableEq, Repr

abbrev DB := Table Row.id

variable (db : DB) (id : String)

def getByID : Option Squad := (db.get id).map Row.body

inductive StoreError
  | alreadyExists
  | notFound
  | squadNotActive
  /-- An error of the database itself. -/
  | database
  deriving DecidableEq, Repr

/-- The methods that write. `Activate` and `Pause` are `setActive` with a flag. -/
inductive Call
  | create (squad : Squad)
  | recordRun (id : String)
  | setActive (id : String) (active : Bool)
  deriving DecidableEq, Repr

def Call.activate : Call := .setActive id true

def Call.pause : Call := .setActive id false

/-- The SELECT of a method and its checks; `GetByID` reports a database error as no squad. -/
def select (ok : Bool) : Call → Except StoreError Squad
  | .create squad =>
      if ok = true ∧ (getByID db squad.id).isSome = true then .error .alreadyExists else .ok squad
  | .recordRun id =>
      match ok, getByID db id with
      | true, some sq => if sq.isActive then .ok sq else .error .squadNotActive
      | _, _ => .error .notFound
  | .setActive id _ =>
      match ok, getByID db id with
      | true, some sq => .ok sq
      | _, _ => .error .notFound

def edit (now : ℤ) (sq : Squad) : Call → Squad
  | .create _ => { sq with createdAt := now, updatedAt := now }
  | .recordRun _ => { sq with lastRunAt := some now, updatedAt := now }
  | .setActive _ active => { sq with isActive := active, updatedAt := now }

def maxSeq : ℕ := (db.rows.map Row.seq).foldr max 0

variable (sq : Squad)

def createdRow : Row where
  id := sq.id
  isActive := sq.isActive
  body := sq
  createdAt := sq.createdAt
  updatedAt := sq.updatedAt
  seq := maxSeq db + 1

/-- `UPDATE gateway_squads SET body = ?, updated_at = ? WHERE id = ?`. -/
def updateBody : DB :=
  db.update (fun r => decide (r.id = id))
    (fun r => { r with body := sq, updatedAt := sq.updatedAt }) (fun _ => rfl)

/-- `UPDATE gateway_squads SET is_active = ?, body = ?, updated_at = ? WHERE id = ?`. -/
def updateActive (active : Bool) (sq : Squad) : DB :=
  db.update (fun r => decide (r.id = id))
    (fun r => { r with isActive := active, body := sq, updatedAt := sq.updatedAt }) (fun _ => rfl)

def write : Call → Option DB
  | .create _ => db.insert (createdRow db sq)
  | .recordRun id => some (updateBody db id sq)
  | .setActive id active => some (updateActive db id active sq)

variable (db : DB)

theorem get_updateBody (id : String) (sq : Squad) (k : String) :
    (updateBody db id sq).get k =
      if k = id then (db.get id).map (fun r => { r with body := sq, updatedAt := sq.updatedAt })
      else db.get k :=
  db.get_update_key id _ _ k

theorem get_updateActive (id : String) (active : Bool) (sq : Squad) (k : String) :
    (updateActive db id active sq).get k =
      if k = id then (db.get id).map
        (fun r => { r with isActive := active, body := sq, updatedAt := sq.updatedAt })
      else db.get k :=
  db.get_update_key id _ _ k

theorem isSome_get_write (db' : DB) (sq : Squad) (call : Call) (h : write db sq call = some db')
    (k : String) (hk : (db.get k).isSome = true) : (db'.get k).isSome = true := by
  cases call with
  | create squad =>
    obtain ⟨r, hr⟩ := Option.isSome_iff_exists.mp hk
    rw [db.get_insert_of_some db' _ h k r hr]
    rfl
  | recordRun id =>
    obtain rfl : updateBody db id sq = db' := Option.some.inj h
    rw [get_updateBody]
    split
    · rename_i hid
      rw [Option.isSome_map, ← hid]
      exact hk
    · exact hk
  | setActive id active =>
    obtain rfl : updateActive db id active sq = db' := Option.some.inj h
    rw [get_updateActive]
    split
    · rename_i hid
      rw [Option.isSome_map, ← hid]
      exact hk
    · exact hk

end IronGolem.SquadStore
