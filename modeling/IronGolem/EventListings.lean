import IronGolem.EventStore
import IronGolem.AuditStore

/-!
Listings that are meant to be newest first: the pages of the timeline and the audit findings. Both
are ordered by a column of RFC 3339 texts. The order of the texts is the order of the times except
inside one second, where a time whose fraction is the beginning of a later one's comes first.
-/
namespace IronGolem.EventListings

open OrderedPages TimestampOrder List

section

variable {ρ β : Type*} (time : ρ → UtcTime)

def NewestFirst (l : List ρ) : Prop :=
  l.Pairwise (fun a b => (time b).instant < (time a).instant)

def NoneCutShort (l : List ρ) : Prop :=
  ∀ a ∈ l, ∀ b ∈ l, (time a).instant < (time b).instant → ¬ UtcTime.CutShort (time a) (time b)

variable {time}

theorem read_newestFirst_iff (read : ρ → β) (stamp : β → ℤ)
    (hstamp : ∀ r, stamp (read r) = (time r).instant) {l : List ρ}
    (hdistinct : (l.map (fun r => (time r).instant)).Nodup) :
    (∃ m, m.Perm l ∧ NewestFirst time m ∧
        (descending (textKey time) l).map read = m.map read) ↔ NoneCutShort time l := by
  constructor
  · rintro ⟨m, -, hnewest, hread⟩
    refine (newestFirst_text_iff time l).mp ?_
    have hstamps : (m.map read).Pairwise (fun x y => stamp y ≤ stamp x) := by
      rw [pairwise_map]
      refine hnewest.imp ?_
      intro a b hab
      rw [hstamp, hstamp]
      exact hab.le
    rw [← hread, pairwise_map] at hstamps
    refine hstamps.imp ?_
    intro a b hab
    rwa [hstamp, hstamp] at hab
  · intro hnone
    refine ⟨descending (textKey time) l, descending_perm _ l, ?_, rfl⟩
    have hle := (newestFirst_text_iff time l).mpr hnone
    have hnodup : (descending (textKey time) l).Pairwise
        (fun a b => (time a).instant ≠ (time b).instant) := by
      rw [← pairwise_map]
      exact ((descending_perm (textKey time) l).map _).nodup_iff.mpr hdistinct
    refine (hle.and hnodup).imp ?_
    intro a b hab
    exact lt_of_le_of_ne hab.1 (Ne.symm hab.2)

end

section Timeline

open EventStore

def pages (db : DB) (size : ℕ) (workspaceFilter kindFilter : String) (count : ℕ) :
    List (Event ℤ) :=
  ((List.range count).map
    (fun index : ℕ => (list db (index + 1) size workspaceFilter kindFilter).1)).flatten

/-- The pages are the matching events newest first, each of them once. -/
def PagesNewestFirst (db : DB) (size : ℕ) (workspaceFilter kindFilter : String) : Prop :=
  ∃ l, l.Perm (matching db workspaceFilter kindFilter) ∧ NewestFirst Event.timestamp l ∧
    ∀ count, (count - 1) * size < 2 ^ 63 →
      pages db size workspaceFilter kindFilter count = (l.take (count * size)).map Event.atInstant

variable {size : ℕ}

theorem pages_eq (db : DB) (workspaceFilter kindFilter : String) {count : ℕ}
    (hsize : 1 ≤ size) (hcount : (count - 1) * size < 2 ^ 63) :
    pages db size workspaceFilter kindFilter count =
      ((found db workspaceFilter kindFilter).take (count * size)).map Event.atInstant := by
  have hpages : ∀ index ∈ range count,
      (list db (index + 1) size workspaceFilter kindFilter).1 =
        (window size (index * size) (found db workspaceFilter kindFilter)).map Event.atInstant := by
    intro index hindex
    have hle : index * size ≤ (count - 1) * size :=
      Nat.mul_le_mul_right size (by rw [mem_range] at hindex; omega)
    exact list_of_pos db index size workspaceFilter kindFilter hsize (by omega)
  unfold pages
  rw [map_congr_left hpages, ← flatten_windows, map_flatten, map_map]
  rfl

theorem pagesNewestFirst_iff {db : DB} (workspaceFilter kindFilter : String)
    (hsize : 1 ≤ size) (hrows : db.rows.length < 2 ^ 63)
    (hdistinct : (db.rows.map (fun r => r.timestamp.instant)).Nodup) :
    PagesNewestFirst db size workspaceFilter kindFilter ↔
      NoneCutShort Event.timestamp (matching db workspaceFilter kindFilter) := by
  have hdistinct' : ((matching db workspaceFilter kindFilter).map
      (fun r => r.timestamp.instant)).Nodup := (filter_sublist.map _).nodup hdistinct
  rw [← read_newestFirst_iff Event.atInstant Event.timestamp (fun _ => rfl) hdistinct']
  have hlength : (matching db workspaceFilter kindFilter).length < 2 ^ 63 :=
    lt_of_le_of_lt (length_filter_le _ _) hrows
  constructor
  · rintro ⟨l, hperm, hnewest, hpages⟩
    refine ⟨l, hperm, hnewest, ?_⟩
    -- enough pages to hold every row
    have hcover : (matching db workspaceFilter kindFilter).length ≤
        ((matching db workspaceFilter kindFilter).length / size + 1) * size := by
      have := Nat.lt_div_mul_add hsize (a := (matching db workspaceFilter kindFilter).length)
      rw [Nat.succ_mul]
      omega
    have hoffset : ((matching db workspaceFilter kindFilter).length / size + 1 - 1) * size <
        2 ^ 63 := by
      exact lt_of_le_of_lt (Nat.div_mul_le_self _ _) hlength
    have hall := hpages _ hoffset
    rw [pages_eq db workspaceFilter kindFilter hsize hoffset] at hall
    rw [take_of_length_le (by unfold found; rw [length_descending]; exact hcover),
      take_of_length_le (by rw [hperm.length_eq]; exact hcover)] at hall
    exact hall
  · rintro ⟨l, hperm, hnewest, hall⟩
    refine ⟨l, hperm, hnewest, ?_⟩
    intro count hcount
    rw [pages_eq db workspaceFilter kindFilter hsize hcount, map_take, map_take]
    unfold found
    rw [hall]

end Timeline

section Findings

open AuditStore

def FindingsNewestFirst (db : DB) (severity : Severity) (p : Row → Bool) : Prop :=
  ∃ l, l.Perm (db.rows.filter p) ∧ NewestFirst StoredFinding.storedAt l ∧
    ∀ limit, list db severity limit = .ok ((l.take (effectiveLimit limit)).map scanFinding)

theorem findingsNewestFirst_iff {db : DB} {severity : Severity} (p : Row → Bool)
    (hasked : asked severity = some p)
    (hdistinct : (db.rows.map (fun r => r.storedAt.instant)).Nodup) :
    FindingsNewestFirst db severity p ↔ NoneCutShort StoredFinding.storedAt (db.rows.filter p) := by
  have hdistinct' : ((db.rows.filter p).map (fun r => r.storedAt.instant)).Nodup :=
    (filter_sublist.map _).nodup hdistinct
  have hlist : ∀ limit, list db severity limit =
      .ok (((descending (textKey StoredFinding.storedAt) (db.rows.filter p)).take
        (effectiveLimit limit)).map scanFinding) := by
    intro limit
    unfold list
    rw [hasked]
  refine Iff.trans ?_ (read_newestFirst_iff scanFinding StoredFinding.storedAt
    storedAt_scanFinding hdistinct')
  constructor
  · rintro ⟨l, hperm, hnewest, hlimits⟩
    refine ⟨l, hperm, hnewest, ?_⟩
    -- a limit that cuts nothing off
    have hcover : (db.rows.filter p).length ≤
        effectiveLimit ((db.rows.filter p).length + 1 : ℕ) := by
      unfold effectiveLimit
      rw [if_neg (by omega), Int.toNat_natCast]
      omega
    have hall := hlimits ((db.rows.filter p).length + 1 : ℕ)
    rw [hlist, Except.ok.injEq, take_of_length_le (by rw [length_descending]; exact hcover),
      take_of_length_le (by rw [hperm.length_eq]; exact hcover)] at hall
    exact hall
  · rintro ⟨l, hperm, hnewest, hall⟩
    refine ⟨l, hperm, hnewest, ?_⟩
    intro limit
    rw [hlist, map_take, map_take, hall]

end Findings

/-- Listings are complete and newest first exactly when no row's fraction begins a later one's in
the same second. -/
theorem listings_newest_first_iff (events : List EventStore.Row)
    (hids : (events.map EventStore.Event.id).Nodup)
    (htimes : (events.map (fun r => r.timestamp.instant)).Nodup)
    (hevents : events.length < 2 ^ 63) (workspaceFilter kindFilter : String) (size : ℕ)
    (hsize : 1 ≤ size) (findings : AuditStore.DB) (severity : AuditStore.Severity)
    (p : AuditStore.Row → Bool) (hasked : AuditStore.asked severity = some p)
    (hstored : (findings.rows.map (fun r => r.storedAt.instant)).Nodup) :
    (∀ page, (EventStore.list (EventStore.stored events) page size workspaceFilter kindFilter).2 =
      events.countP (fun r => EventStore.passes workspaceFilter r.workspaceID &&
        EventStore.passes kindFilter r.kind)) ∧
    (PagesNewestFirst (EventStore.stored events) size workspaceFilter kindFilter ↔
      NoneCutShort EventStore.Event.timestamp (events.filter (fun r =>
        EventStore.passes workspaceFilter r.workspaceID &&
          EventStore.passes kindFilter r.kind))) ∧
    (FindingsNewestFirst findings severity p ↔
      NoneCutShort AuditStore.StoredFinding.storedAt (findings.rows.filter p)) := by
  have hrows := EventStore.rows_stored hids
  refine ⟨?_, ?_, findingsNewestFirst_iff p hasked hstored⟩
  · intro page
    have htotal : (EventStore.list (EventStore.stored events) page size workspaceFilter
        kindFilter).2 =
        (EventStore.matching (EventStore.stored events) workspaceFilter kindFilter).length := rfl
    rw [htotal, countP_eq_length_filter]
    unfold EventStore.matching
    rw [hrows]
  · rw [pagesNewestFirst_iff workspaceFilter kindFilter hsize
      (by rw [hrows]; exact hevents) (by rw [hrows]; exact htimes)]
    unfold EventStore.matching
    rw [hrows]

def onFourthOfMay (hour : Fin 24) (minute second : Fin 60) (nanosecond : ℕ) : UtcTime :=
  ⟨⟨2026, 5, 4, hour, minute, second, nanosecond % 1000000000, 0, by decide, by decide, hour.isLt,
    minute.isLt, second.isLt, Nat.mod_lt nanosecond (by decide)⟩, rfl,
    (by decide : (0 : ℤ) ≤ 2026 ∧ (2026 : ℤ) ≤ 9999)⟩

def afterNoon (nanosecond : ℕ) : UtcTime := onFourthOfMay 12 0 0 nanosecond

def message (id : String) (t : UtcTime) : EventStore.Row :=
  ⟨id, "message.inbound", "tenant", "ws", "gateway", "", "", t, "", none, 1⟩

def finding (id : String) (t : UtcTime) : AuditStore.Row := ⟨⟨"probe", .critical, "", [], t⟩, id, t⟩

def quarterAndHalf : List EventStore.Row :=
  [message "quarter" (afterNoon 250000000), message "half" (afterNoon 500000000)]

def quarterAndHalfFindings : AuditStore.DB :=
  ⟨[finding "quarter" (afterNoon 250000000), finding "half" (afterNoon 500000000)], by decide⟩

theorem half_listed_before_quarter :
    PagesNewestFirst (EventStore.stored quarterAndHalf) 1 "" "message.inbound" ∧
      FindingsNewestFirst quarterAndHalfFindings .info (fun _ => true) := by
  obtain ⟨-, hpages, hfindings⟩ := listings_newest_first_iff quarterAndHalf (by decide) (by decide)
    (by decide) "" "message.inbound" 1 (by decide) quarterAndHalfFindings .info (fun _ => true) rfl
    (by decide)
  refine ⟨hpages.mpr ?_, hfindings.mpr ?_⟩
  · unfold NoneCutShort
    decide
  · unfold NoneCutShort
    decide

def noonAndHalf : List EventStore.Row :=
  [message "noon" (afterNoon 0), message "half" (afterNoon 500000000)]

def noonAndHalfFindings : AuditStore.DB :=
  ⟨[finding "noon" (afterNoon 0), finding "half" (afterNoon 500000000)], by decide⟩

theorem noon_listed_before_half_past :
    (pages (EventStore.stored noonAndHalf) 1 "ws" "message.inbound" 2).map
        EventStore.Event.id = ["noon", "half"] ∧
      (afterNoon 0).instant < (afterNoon 500000000).instant ∧
      ¬ PagesNewestFirst (EventStore.stored noonAndHalf) 1 "ws" "message.inbound" ∧
      ¬ FindingsNewestFirst noonAndHalfFindings .critical
        (fun r => decide (r.severity = .critical)) := by
  refine ⟨by decide, by decide, ?_, ?_⟩
  · refine mt (pagesNewestFirst_iff "ws" "message.inbound"
      (by decide) (by decide) (by decide)).mp ?_
    intro hnone
    refine hnone (message "noon" (afterNoon 0)) ?_
      (message "half" (afterNoon 500000000)) ?_ (by decide) (by decide)
    · exact mem_filter.mpr ⟨mem_cons_self, by decide⟩
    · exact mem_filter.mpr ⟨mem_cons_of_mem _ mem_cons_self, by decide⟩
  · refine mt (findingsNewestFirst_iff _ rfl (by decide)).mp ?_
    intro hnone
    refine hnone (finding "noon" (afterNoon 0)) ?_
      (finding "half" (afterNoon 500000000)) ?_ (by decide) (by decide)
    · exact mem_filter.mpr ⟨mem_cons_self, by decide⟩
    · exact mem_filter.mpr ⟨mem_cons_of_mem _ mem_cons_self, by decide⟩

end IronGolem.EventListings
