import IronGolem.TimestampOrder

/-!
The store of timeline events. `Append` writes one row and replaces a row with the same id; `List`
counts the rows that pass the filters and returns one page of them, ordered by the column `ts`.
That column is a text: the time of the event in RFC 3339 with the zeros at the end of the fraction
left out.
-/
namespace IronGolem.EventStore

open Rfc3339 RowTables OrderedPages TimestampOrder List

/-- An event with its time in some form; the empty payload text is no payload. -/
structure Event (τ : Type) where
  id : String
  kind : String
  tenantID : String
  workspaceID : String
  sourceService : String
  correlationID : String
  causationID : String
  timestamp : τ
  payload : String
  metadata : Option (List (String × String))
  version : ℤ
  deriving DecidableEq

abbrev Row := Event UtcTime

abbrev DB := Table (Event.id (τ := UtcTime))

def append (db : DB) (evt : Row) : DB := db.replace evt

def passes (filter value : String) : Bool := decide (filter = "") || decide (value = filter)

theorem passes_iff (filter value : String) :
    passes filter value = true ↔ filter = "" ∨ value = filter := by
  unfold passes
  rw [Bool.or_eq_true, decide_eq_true_eq, decide_eq_true_eq]

theorem passes_self (value : String) : passes value value = true :=
  (passes_iff value value).mpr (.inr rfl)

def matching (db : DB) (workspaceFilter kindFilter : String) : List Row :=
  db.rows.filter (fun r => passes workspaceFilter r.workspaceID && passes kindFilter r.kind)

variable (db : DB)

theorem matching_ids_nodup (workspaceFilter kindFilter : String) :
    ((matching db workspaceFilter kindFilter).map Event.id).Nodup :=
  (filter_sublist.map Event.id).nodup db.nodup

def zeroTime : ℤ := -62135596800 * 1000000000

def scanEvent (r : Row) : Event ℤ :=
  { r with timestamp := match parse r.timestamp.text with
      | .ok instant => instant
      | .error _ => zeroTime }

def found (db : DB) (workspaceFilter kindFilter : String) : List Row :=
  descending (textKey Event.timestamp) (matching db workspaceFilter kindFilter)

def list (db : DB) (page pageSize : ℤ) (workspaceFilter kindFilter : String) :
    List (Event ℤ) × ℕ :=
  let page := if page < 1 then 1 else page
  let pageSize := if pageSize < 1 then 50 else pageSize
  ((window pageSize.toNat (pageOffset page pageSize) (found db workspaceFilter kindFilter)).map
      scanEvent, (matching db workspaceFilter kindFilter).length)

def Event.atInstant (r : Row) : Event ℤ := { r with timestamp := r.timestamp.instant }

theorem scanEvent_eq (r : Row) : scanEvent r = r.atInstant := by
  unfold scanEvent
  rw [r.timestamp.parse_text]
  rfl

theorem rows_append_of_new {db : DB} {evt : Row} (h : ∀ r ∈ db.rows, r.id ≠ evt.id) :
    (append db evt).rows = db.rows ++ [evt] := by
  have hrows : (append db evt).rows =
      db.rows.filter (fun r => !decide (r.id = evt.id)) ++ [evt] := rfl
  have hkeep : db.rows.filter (fun r => !decide (r.id = evt.id)) = db.rows := by
    rw [filter_eq_self]
    intro r hr
    simpa using h r hr
  rw [hrows, hkeep]

def stored (events : List Row) : DB := events.foldl append Table.empty

theorem rows_stored {events : List Row} (hids : (events.map Event.id).Nodup) :
    (stored events).rows = events := by
  induction events using reverseRecOn with
  | nil => rfl
  | append_singleton events evt ih =>
    rw [map_append, nodup_append] at hids
    have hstored : stored (events ++ [evt]) = append (stored events) evt := by
      unfold stored
      rw [foldl_append]
      rfl
    have hrows := ih hids.1
    rw [hstored, rows_append_of_new, hrows]
    intro r hr
    rw [hrows] at hr
    exact hids.2.2 r.id (mem_map_of_mem hr) evt.id (by simp)

theorem list_of_pos (index size : ℕ) (workspaceFilter kindFilter : String)
    (hsize : 1 ≤ size) (hoffset : index * size < 2 ^ 63) :
    (list db (index + 1) size workspaceFilter kindFilter).1 =
      (window size (index * size) (found db workspaceFilter kindFilter)).map Event.atInstant := by
  have hpage : ¬ ((index : ℤ) + 1 < 1) := by omega
  have hpageSize : ¬ ((size : ℤ) < 1) := by omega
  simp only [list, if_neg hpage, if_neg hpageSize, pageOffset_of_lt hoffset, Int.toNat_natCast]
  exact map_congr_left (fun r _ => scanEvent_eq r)

theorem list_first_page {size : ℤ} (workspaceFilter kindFilter : String) (hsize : 1 ≤ size) :
    (list db 1 size workspaceFilter kindFilter).1 =
      ((found db workspaceFilter kindFilter).take size.toNat).map Event.atInstant := by
  have hlist := list_of_pos db 0 size.toNat workspaceFilter kindFilter (by omega) (by omega)
  have hcast : ((size.toNat : ℕ) : ℤ) = size := Int.toNat_of_nonneg (by omega)
  rw [hcast] at hlist
  simpa [window] using hlist

end IronGolem.EventStore
