import IronGolem.JsonValues
import IronGolem.TimestampOrder

/-!
The store of audit findings. `Insert` checks the finding, stamps it with the clock and gives
it a fresh id; `List` returns the newest rows of at least some urgency, ordered by the text in
the column `stored_at`. Both times of a row are written as texts and read back from them.
Evidence is kept as the JSON object it encodes.
-/
namespace IronGolem.AuditStore

open Rfc3339 RowTables OrderedPages TimestampOrder

/-- `unset` is the empty text; `other` is a text that is none of the constants. -/
inductive Severity
  | unset
  | info
  | warning
  | critical
  | other (text : String)
  deriving DecidableEq, Repr

/-- A finding with its times in some form. -/
structure Finding (τ : Type) where
  probeID : String
  severity : Severity
  reason : String
  evidence : List (String × JsonValues.Json)
  timestamp : τ

structure StoredFinding (τ : Type) extends Finding τ where
  id : String
  storedAt : τ

abbrev Row := StoredFinding UtcTime

abbrev DB := Table (StoredFinding.id (τ := UtcTime))

/-- The rows that a severity asks for, or `none` for a severity that is no filter. -/
def asked : Severity → Option (Row → Bool)
  | .unset => some (fun _ => true)
  | .warning => some (fun r => decide (r.severity = .warning ∨ r.severity = .critical))
  | .critical => some (fun r => decide (r.severity = .critical))
  | .info => some (fun _ => true)
  | .other _ => none

def readTime (t : UtcTime) : ℤ :=
  match parse t.text with
  | .ok instant => instant
  | .error _ => -62135596800 * 1000000000

def scanFinding (r : Row) : StoredFinding ℤ :=
  { r with timestamp := readTime r.timestamp, storedAt := readTime r.storedAt }

def effectiveLimit (limit : ℤ) : ℕ := if limit ≤ 0 then 100 else limit.toNat

def list (db : DB) (severity : Severity) (limit : ℤ) :
    Except Severity (List (StoredFinding ℤ)) :=
  match asked severity with
  | none => .error severity
  | some p =>
      .ok (((descending (textKey StoredFinding.storedAt) (db.rows.filter p)).take
        (effectiveLimit limit)).map scanFinding)

theorem readTime_eq (t : UtcTime) : readTime t = t.instant := by
  unfold readTime
  rw [t.parse_text]

theorem storedAt_scanFinding (r : Row) : (scanFinding r).storedAt = r.storedAt.instant := by
  simp only [scanFinding, readTime_eq]

end IronGolem.AuditStore
