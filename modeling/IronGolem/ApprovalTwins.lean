import Mathlib.Data.List.Dedup
import IronGolem.ListPages
import IronGolem.OutputMachines

/-!
The approval store in memory beside the one in the database. Both are driven with the same calls at
the same times. Single requests are read, created and decided alike, as long as their times can be
written as JSON.
-/
namespace IronGolem.ApprovalTwins

open ApprovalStore InboundRequests ListPages MachineIntegers OrderedPages OutputMachines List Option
  StoreListings

section Reverse

variable {α : Type}

theorem getElem?_window (limit offset i : ℕ) (l : List α) (h : i < limit) :
    (window limit offset l)[i]? = l[offset + i]? := by
  unfold window
  rw [getElem?_take_of_lt h, getElem?_drop]

theorem length_window (limit offset : ℕ) (l : List α) :
    (window limit offset l).length = min limit (l.length - offset) := by
  unfold window
  rw [length_take, length_drop]

variable {l : List α}

theorem place_eq_of_nodup (hl : l.Nodup) {i j : ℕ} (hi : i < l.length)
    (h : l[i]? = l[j]?) : i = j := by
  rw [List.getElem?_eq_getElem hi] at h
  obtain ⟨hj, hval⟩ := List.getElem?_eq_some_iff.mp h.symm
  exact (hl.getElem_inj_iff.mp hval).symm

/-- A page of a list and of its reverse agree if both are empty or their one element is central. -/
theorem window_eq_window_reverse_iff (hl : l.Nodup) (limit offset limit' offset' : ℕ) :
    window limit offset l = window limit' offset' l.reverse ↔
      (min limit (l.length - offset) = 0 ∧ min limit' (l.length - offset') = 0) ∨
        (min limit (l.length - offset) = 1 ∧ min limit' (l.length - offset') = 1 ∧
          offset + offset' + 1 = l.length) := by
  constructor
  · intro h
    have hlength := congrArg length h
    rw [length_window, length_window, length_reverse] at hlength
    by_cases hzero : min limit (l.length - offset) = 0
    · exact .inl ⟨hzero, by omega⟩
    · have hplace : ∀ i, i < min limit (l.length - offset) →
          offset + i = l.length - 1 - (offset' + i) := by
        intro i hi
        have hval := congrArg (fun w : List α => w[i]?) h
        simp only [getElem?_window limit offset i l (by omega),
          getElem?_window limit' offset' i l.reverse (by omega)] at hval
        rw [getElem?_reverse (by omega)] at hval
        exact place_eq_of_nodup hl (by omega) hval
      have hfirst := hplace 0 (by omega)
      by_cases htwo : 1 < min limit (l.length - offset)
      · have hsecond := hplace 1 htwo
        omega
      · omega
  · intro h
    apply ext_getElem?
    intro i
    rcases h with ⟨hnone, hnone'⟩ | ⟨hone, hone', hplace⟩
    · rw [getElem?_eq_none (by rw [length_window]; omega),
        getElem?_eq_none (by rw [length_window, length_reverse]; omega)]
    · by_cases hi : i = 0
      · subst hi
        rw [getElem?_window _ _ _ _ (by omega), getElem?_window _ _ _ _ (by omega),
          getElem?_reverse (by omega), show l.length - 1 - (offset' + 0) = offset + 0 by omega]
      · rw [getElem?_eq_none (by rw [length_window]; omega),
          getElem?_eq_none (by rw [length_window, length_reverse]; omega)]

end Reverse

/-- The page that memory cuts and the page that the database takes from the other end agree. -/
def PagesMeet (length : ℕ) (page pageSize : ℤ) : Prop :=
  let start := wrap ((page - 1) * pageSize)
  let limit := if pageSize < 1 then 50 else pageSize
  let offset := pageOffset (if page < 1 then 1 else page) limit
  if (length : ℤ) ≤ start then length ≤ offset
  else 0 ≤ start ∧ 0 ≤ pageSize ∧ start + pageSize < 2 ^ 63 ∧
    ((pageSize = 0 ∧ length ≤ offset) ∨
      (min pageSize (length - start) = 1 ∧ min limit (length - offset) = 1 ∧
        start + offset + 1 = length))

instance (length : ℕ) (page pageSize : ℤ) : Decidable (PagesMeet length page pageSize) := by
  unfold PagesMeet
  infer_instance

theorem pages_agree_iff {α : Type} {l : List α} (hl : l.Nodup) (page pageSize : ℤ)
    (hlow : -2 ^ 63 ≤ pageSize) (hhigh : pageSize < 2 ^ 63) :
    slicePage l page pageSize = some (rowPage l.reverse page pageSize) ↔
      PagesMeet l.length page pageSize := by
  unfold PagesMeet rowPage
  simp only [length_reverse]
  by_cases hpast : (l.length : ℤ) ≤ wrap ((page - 1) * pageSize)
  · rw [slicePage_past hpast, if_pos hpast, some_inj, Prod.mk.injEq,
      eq_comm, window_eq_nil_iff, length_reverse]
    omega
  · rw [if_neg hpast]
    by_cases hin : 0 ≤ wrap ((page - 1) * pageSize) ∧ 0 ≤ pageSize ∧
        wrap ((page - 1) * pageSize) + pageSize < 2 ^ 63
    · rw [slicePage_inside hin.1 (by omega) hin.2.1 hin.2.2, some_inj,
        Prod.mk.injEq, window_eq_window_reverse_iff hl]
      omega
    · rw [slicePage_panics (by omega) hlow hhigh (by omega)]
      simp only [reduceCtorEq, false_iff]
      omega

def InYears (t : ℤ) : Prop := -62167219200 * second ≤ t ∧ t < 253402300800 * second

instance (t : ℤ) : Decidable (InYears t) := by
  unfold InYears
  infer_instance

def Encodable (a : ApprovalRequest) : Prop :=
  InYears a.requestedAt ∧ ∀ t ∈ a.respondedAt, InYears t

instance (a : ApprovalRequest) : Decidable (Encodable a) := by
  unfold Encodable
  infer_instance

/-- A call on a store; `Approve` and `Deny` are decisions. -/
inductive Call
  | create (req : ApprovalRequest)
  | get (id : String)
  | list (page pageSize : Int64) (statusFilter : String)
  | decide (id : String) (d : Decision)

def Call.approve (id respondedBy : String) : Call := .decide id (.approve respondedBy)

/-- What a call returns. No request stands for the zero value, no page for a panic. -/
inductive Result
  | created (req : ApprovalRequest)
  | got (found : Option ApprovalRequest)
  | listed (page : Option (List ApprovalRequest × ℕ))
  | decided (request : Option ApprovalRequest) (ok : Bool)
  deriving DecidableEq

def afterDecision (d : Decision) (now : ℤ) (a : ApprovalRequest) : ApprovalRequest :=
  { a with
    status := d.target
    respondedAt := some now
    respondedBy := d.respondedBy
    reason := match d with
      | .approve _ => a.reason
      | .deny _ reason => reason }

def memoryStep (s : InMemoryApprovalStore) : ℤ × Call → InMemoryApprovalStore × Result
  | (_, .create req) => (s.add req.id req, .created req)
  | (_, .get id) => (s, .got (s.entries id))
  | (_, .list page pageSize statusFilter) =>
      (s, .listed (InMemoryApprovalStore.list s page.toInt pageSize.toInt statusFilter))
  | (now, .decide id d) =>
      match s.entries id with
      | none => (s, .decided none false)
      | some a =>
          if a.status ≠ .pending then (s, .decided (some a) false)
          else (s.set id (afterDecision d now a), .decided (some (afterDecision d now a)) true)

/-- A call on the store in the database. What cannot be marshalled is not written. -/
def sqliteStep (db : DB) : ℤ × Call → DB × Result
  | (now, .create req) => (if Encodable req then create db req now else db, .created req)
  | (_, .get id) => (db, .got ((get db id).map Subtype.val))
  | (_, .list page pageSize statusFilter) =>
      (db, .listed (some (ApprovalStore.list db page.toInt pageSize.toInt statusFilter)))
  | (now, .decide id d) =>
      match get db id with
      | none => (db, .decided none false)
      | some a =>
          if a.1.status ≠ .pending then (db, .decided (some a.1) false)
          else if Encodable (decided d now a).1 then
            (writeBody db (decided d now a) now, .decided (some (decided d now a).1) true)
          else (db, .decided (some (decided d now a).1) false)

/-- The rows are the entries, in the order in which their ids were last created. -/
structure Twins (s : InMemoryApprovalStore) (db : DB) : Prop where
  ids : db.rows.map Row.id = s.order.dedup
  entries : ∀ id, s.entries id = (get db id).map Subtype.val
  seqs : db.rows.Pairwise (fun a b => a.seq < b.seq)
  times : ∀ r ∈ db.rows, InYears r.body.1.requestedAt

def Writable : ℤ × Call → Prop
  | (_, .create req) => Encodable req
  | (now, .decide _ _) => InYears now
  | (_, .get _) | (_, .list _ _ _) => True

instance (call : ℤ × Call) : Decidable (Writable call) := by
  obtain ⟨now, c⟩ := call
  cases c <;> unfold Writable <;> infer_instance

theorem twins_empty : Twins MemoryStore.empty RowTables.Table.empty where
  ids := rfl
  entries := fun _ => rfl
  seqs := List.Pairwise.nil
  times := fun _ hr => absurd hr not_mem_nil

theorem le_maxSeq {db : DB} {r : Row} (hr : r ∈ db.rows) : r.seq ≤ maxSeq db := by
  have hfold : ∀ l : List Row, r ∈ l → r.seq ≤ (l.map Row.seq).foldr max 0 := by
    intro l hl
    induction l with
    | nil => exact absurd hl not_mem_nil
    | cons a l ih =>
      rcases mem_cons.mp hl with rfl | hl
      · exact le_max_left _ _
      · exact (ih hl).trans (le_max_right _ _)
  exact hfold db.rows hr

theorem dedup_concat (l : List String) (a : String) :
    (l ++ [a]).dedup = l.dedup.filter (fun b => !decide (b = a)) ++ [a] := by
  induction l with
  | nil => rfl
  | cons b l ih =>
    by_cases hmem : b ∈ l
    · rw [cons_append, dedup_cons_of_mem (mem_append_left _ hmem), dedup_cons_of_mem hmem, ih]
    · rw [cons_append, dedup_cons_of_notMem hmem]
      by_cases hba : b = a
      · have hin : b ∈ l ++ [a] := by simp [hba]
        rw [dedup_cons_of_mem hin, ih, filter_cons_of_neg (by simp [hba])]
      · have hnot : b ∉ l ++ [a] := by simp [hmem, hba]
        rw [dedup_cons_of_notMem hnot, ih, filter_cons_of_pos (by simp [hba]), cons_append]

theorem rows_create (db : DB) (req : ApprovalRequest) (now : ℤ) :
    (create db req now).rows =
      db.rows.filter (fun r => !decide (r.id = req.id)) ++ [createdRow db req now] := rfl

theorem get_create (db : DB) (req : ApprovalRequest) (now : ℤ) (id : String) :
    (get (create db req now) id).map Subtype.val =
      if id = req.id then some req else (get db id).map Subtype.val := by
  have hrow : (create db req now).get id =
      if id = req.id then some (createdRow db req now) else db.get id :=
    db.get_replace (createdRow db req now) id
  split
  · rename_i hid
    rw [if_pos hid] at hrow
    ext a
    simp only [map_eq_some_iff, get_eq_some_iff, hrow]
    constructor
    · intro h
      obtain ⟨b, ⟨r, hr, hbody⟩, rfl⟩ := h
      rw [← hbody, ← some.inj hr]
      rfl
    · intro h
      cases h
      exact ⟨⟨req, hid.symm⟩, ⟨_, rfl, rfl⟩, rfl⟩
  · rename_i hid
    rw [if_neg hid] at hrow
    congr 1
    ext a
    simp [get_eq_some_iff, hrow]

theorem twins_create {s : InMemoryApprovalStore} {db : DB} {req : ApprovalRequest} (now : ℤ)
    (h : Twins s db) (hreq : Encodable req) : Twins (s.add req.id req) (create db req now) where
  ids := by
    change _ = (s.order ++ [req.id]).dedup
    rw [rows_create, map_append, dedup_concat, ← h.ids, List.filter_map]
    rfl
  entries := by
    intro id
    rw [get_create, ← h.entries id]
    change Function.update s.entries req.id (some req) id = _
    rw [Function.update_apply]
  seqs := by
    rw [rows_create, pairwise_append]
    refine ⟨h.seqs.filter _, pairwise_singleton _ _, ?_⟩
    intro r hr r' hr'
    rw [mem_singleton.mp hr']
    exact Nat.lt_succ_of_le (le_maxSeq (List.mem_of_mem_filter hr))
  times := by
    intro r hr
    rw [rows_create] at hr
    rcases mem_append.mp hr with hold | hnew
    · exact h.times r (List.mem_of_mem_filter hold)
    · rw [mem_singleton.mp hnew]
      exact hreq.1

def rewritten {id : String} (a : RequestOf id) (now : ℤ) (r : Row) : Row :=
  if h : r.id = id then r.withBody ⟨a.1, a.2.trans h.symm⟩ now else r

variable {id : String}

theorem rows_writeBody (db : DB) (a : RequestOf id) (now : ℤ) :
    (writeBody db a now).rows = db.rows.map (rewritten a now) := by
  apply map_congr_left
  intro r _
  by_cases hid : r.id = id
  · subst hid
    simp [rewritten]
  · simp [rewritten, hid]

theorem rewritten_self (r : Row) (a : RequestOf r.id) (now : ℤ) :
    rewritten a now r = r.withBody a now := by
  simp [rewritten]

variable (a : RequestOf id)

theorem rewritten_of_ne (now : ℤ) {r : Row} (h : r.id ≠ id) : rewritten a now r = r := by
  simp [rewritten, h]

theorem rewritten_frame (now : ℤ) (r : Row) :
    (rewritten a now r).id = r.id ∧ (rewritten a now r).seq = r.seq ∧
      ((rewritten a now r).body.1 = a.1 ∨ (rewritten a now r).body.1 = r.body.1) := by
  by_cases hid : r.id = id
  · subst hid
    rw [rewritten_self]
    exact ⟨rfl, rfl, .inl rfl⟩
  · rw [rewritten_of_ne a now hid]
    exact ⟨rfl, rfl, .inr rfl⟩

theorem twins_decide {s : InMemoryApprovalStore} {db : DB} {a b : RequestOf id}
    (now : ℤ) (h : Twins s db) (hget : get db id = some b) (htime : InYears a.1.requestedAt) :
    Twins (s.set id a.1) (writeBody db a now) where
  ids := by
    rw [rows_writeBody, List.map_map]
    refine Eq.trans (map_congr_left ?_) h.ids
    intro r _
    exact (rewritten_frame a now r).1
  entries := by
    intro other
    change Function.update s.entries id (some a.1) other = _
    by_cases hother : other = id
    · rw [hother, Function.update_self, get_writeBody_self a b now hget]
      rfl
    · rw [Function.update_of_ne hother, get_writeBody_of_ne db a now hother]
      exact h.entries other
  seqs := by
    rw [rows_writeBody, pairwise_map]
    refine h.seqs.imp ?_
    intro r r' hlt
    rw [(rewritten_frame a now r).2.1, (rewritten_frame a now r').2.1]
    exact hlt
  times := by
    intro r hr
    rw [rows_writeBody] at hr
    obtain ⟨r', hr', rfl⟩ := List.mem_map.mp hr
    rcases (rewritten_frame a now r').2.2 with hnew | hold
    · rw [hnew]
      exact htime
    · rw [hold]
      exact h.times r' hr'

theorem requestedAt_of_get {s : InMemoryApprovalStore} {db : DB} {a : RequestOf id}
    (h : Twins s db) (hget : get db id = some a) : InYears a.1.requestedAt := by
  obtain ⟨r, hr, hbody⟩ := (get_eq_some_iff db id a).mp hget
  rw [← hbody]
  exact h.times r ((db.get_eq_some_iff id r).mp hr).1

variable {now : ℤ}

theorem encodable_decided (d : Decision) {a : RequestOf id}
    (ha : InYears a.1.requestedAt) (hnow : InYears now) : Encodable (decided d now a).1 := by
  refine ⟨ha, ?_⟩
  intro t ht
  rw [← some.inj ht]
  exact hnow

theorem decide_alike {s : InMemoryApprovalStore} {db : DB} (id : String) (d : Decision)
    (h : Twins s db) (hnow : InYears now) :
    Twins (memoryStep s (now, .decide id d)).1 (sqliteStep db (now, .decide id d)).1 ∧
      (memoryStep s (now, .decide id d)).2 = (sqliteStep db (now, .decide id d)).2 := by
  have hentry := h.entries id
  cases hget : get db id with
  | none =>
    rw [hget, map_none] at hentry
    simp only [memoryStep, sqliteStep, hentry, hget, and_true]
    exact h
  | some a =>
    rw [hget, map_some] at hentry
    have htime := requestedAt_of_get h hget
    simp only [memoryStep, sqliteStep, hentry, hget]
    split
    · exact ⟨h, rfl⟩
    · rw [if_pos (encodable_decided d htime hnow)]
      exact ⟨twins_decide (s := s) (a := decided d now a) (b := a) now h hget htime, rfl⟩

theorem twins_step (s : InMemoryApprovalStore) (db : DB) (call : ℤ × Call) (h : Twins s db)
    (hcall : Writable call) : Twins (memoryStep s call).1 (sqliteStep db call).1 := by
  obtain ⟨now, c⟩ := call
  cases c with
  | create req =>
    have hreq : Encodable req := hcall
    change Twins (s.add req.id req) (if Encodable req then create db req now else db)
    rw [if_pos hreq]
    exact twins_create now h hreq
  | decide id d => exact (decide_alike id d h hcall).1
  | _ => exact h

def listedIds (s : InMemoryApprovalStore) (statusFilter : String) : List String :=
  s.order.filter (fun id => (s.entries id).any
    (fun a => EventStore.passes statusFilter a.status.text))

theorem filter_filterMap_any {α : Type} (f : String → Option α) (p : α → Bool) (l : List String) :
    (l.filterMap f).filter p = (l.filter (fun id => (f id).any p)).filterMap f := by
  induction l with
  | nil => rfl
  | cons id l ih =>
    cases hf : f id with
    | none => simp [hf, ih]
    | some a =>
      by_cases hp : p a = true <;> simp [hf, hp, ih]

theorem filtered_eq (s : InMemoryApprovalStore) (statusFilter : String) :
    InMemoryApprovalStore.filtered s statusFilter =
      (listedIds s statusFilter).filterMap s.entries :=
  filter_filterMap_any s.entries _ s.order

theorem dedup_filter (p : String → Bool) (l : List String) :
    (l.filter p).dedup = l.dedup.filter p := by
  induction l with
  | nil => rfl
  | cons a l ih =>
    by_cases hp : p a = true
    · by_cases hmem : a ∈ l
      · rw [filter_cons_of_pos hp, dedup_cons_of_mem hmem,
          dedup_cons_of_mem (List.mem_filter.mpr ⟨hmem, hp⟩), ih]
      · have hnot : a ∉ l.filter p := fun h => hmem (List.mem_of_mem_filter h)
        rw [filter_cons_of_pos hp, dedup_cons_of_notMem hmem,
          dedup_cons_of_notMem hnot, filter_cons_of_pos hp, ih]
    · rw [filter_cons_of_neg hp, ih]
      by_cases hmem : a ∈ l
      · rw [dedup_cons_of_mem hmem]
      · rw [dedup_cons_of_notMem hmem, filter_cons_of_neg hp]

section Listing

variable {s : InMemoryApprovalStore} {db : DB} (h : Twins s db)

include h

theorem entry_of_row {r : Row} (hr : r ∈ db.rows) : s.entries r.id = some r.body.1 := by
  have hget : get db r.id = some r.body :=
    (get_eq_some_iff db r.id r.body).mpr ⟨r, (db.get_eq_some_iff r.id r).mpr ⟨hr, rfl⟩, rfl⟩
  rw [h.entries r.id, hget]
  rfl

theorem id_of_entry {a : ApprovalRequest} (ha : s.entries id = some a) : a.id = id := by
  rw [h.entries id] at ha
  obtain ⟨b, _, rfl⟩ := map_eq_some_iff.mp ha
  exact b.2

theorem approvalsFound_eq (statusFilter : String) :
    approvalsFound db statusFilter =
      ((listedIds s statusFilter).dedup.filterMap s.entries).reverse := by
  have hstatus : ∀ r ∈ db.rows, hasStatus statusFilter r =
      (s.entries r.id).any (fun a => EventStore.passes statusFilter a.status.text) := by
    intro r hr
    rw [entry_of_row h hr, any_some, r.body_status]
    rfl
  have hbodies : ∀ rows : List Row, (∀ r ∈ rows, r ∈ db.rows) →
      rows.map (fun r => r.body.1) = (rows.map Row.id).filterMap s.entries := by
    intro rows hrows
    induction rows with
    | nil => rfl
    | cons r rows ih =>
      have hentry := entry_of_row h (hrows r mem_cons_self)
      rw [map_cons, map_cons, filterMap_cons_some hentry,
        ih fun r' hr' => hrows r' (mem_cons_of_mem r hr')]
  have hids : (db.rows.filter (hasStatus statusFilter)).map Row.id =
      (listedIds s statusFilter).dedup := by
    rw [List.filter_congr hstatus]
    unfold listedIds
    rw [dedup_filter, ← h.ids, List.filter_map]
    rfl
  unfold approvalsFound
  rw [descending_of_ascending _ (h.seqs.filter _), map_reverse,
    hbodies _ fun r hr => List.mem_of_mem_filter hr, hids]

/-- Two listings agree exactly if no listed id was created twice and the pages meet. -/
theorem list_alike_iff (page pageSize : Int64) (statusFilter : String) :
    InMemoryApprovalStore.list s page.toInt pageSize.toInt statusFilter =
        some (ApprovalStore.list db page.toInt pageSize.toInt statusFilter) ↔
      (listedIds s statusFilter).Nodup ∧
        PagesMeet (listedIds s statusFilter).length page.toInt pageSize.toInt := by
  have hlow : -2 ^ 63 ≤ pageSize.toInt := pageSize.le_toInt
  have hhigh : pageSize.toInt < 2 ^ 63 := pageSize.toInt_lt
  have hlisted : ∀ id ∈ listedIds s statusFilter, id ∈ s.order :=
    fun id hid => List.mem_of_mem_filter hid
  have hlength := s.length_filterMap (listedIds s statusFilter) hlisted
  have hnodup : (listedIds s statusFilter).Nodup →
      ((listedIds s statusFilter).filterMap s.entries).Nodup := by
    intro hids
    refine hids.filterMap ?_
    intro id id' a ha ha'
    rw [← id_of_entry h ha, ← id_of_entry h ha']
  unfold InMemoryApprovalStore.list
  rw [filtered_eq, approvalStore_list_eq, approvalsFound_eq h]
  constructor
  · intro hlist
    have htotal := slicePage_total hlist
    have hlength' := s.length_filterMap (listedIds s statusFilter).dedup
      (fun id hid => hlisted id (mem_dedup.mp hid))
    have hsame : (listedIds s statusFilter).dedup = listedIds s statusFilter := by
      apply (dedup_sublist _).eq_of_length
      simp only [rowPage, length_reverse] at htotal
      omega
    have hids : (listedIds s statusFilter).Nodup := hsame ▸ nodup_dedup _
    refine ⟨hids, ?_⟩
    rw [hsame] at hlist
    rw [← hlength]
    exact (pages_agree_iff (hnodup hids) _ _ hlow hhigh).mp hlist
  · intro hcond
    rw [hcond.1.dedup]
    apply (pages_agree_iff (hnodup hcond.1) _ _ hlow hhigh).mpr
    rw [hlength]
    exact hcond.2

end Listing

def ListsMeet (s : InMemoryApprovalStore) : ℤ × Call → Prop
  | (_, .list page pageSize statusFilter) =>
      (listedIds s statusFilter).Nodup ∧
        PagesMeet (listedIds s statusFilter).length page.toInt pageSize.toInt
  | (_, .create _) | (_, .get _) | (_, .decide _ _) => True

instance (s : InMemoryApprovalStore) (call : ℤ × Call) : Decidable (ListsMeet s call) := by
  obtain ⟨now, c⟩ := call
  cases c <;> unfold ListsMeet <;> infer_instance

theorem results_alike_iff (s : InMemoryApprovalStore) (db : DB) (call : ℤ × Call)
    (h : Twins s db) (hcall : Writable call) :
    (memoryStep s call).2 = (sqliteStep db call).2 ↔ ListsMeet s call := by
  obtain ⟨now, c⟩ := call
  cases c with
  | create req => exact iff_of_true rfl trivial
  | get id => exact iff_of_true (congrArg Result.got (h.entries id)) trivial
  | decide id d => exact iff_of_true (decide_alike id d h hcall).2 trivial
  | list page pageSize statusFilter =>
    have hlist := list_alike_iff h page pageSize statusFilter
    constructor
    · intro hresult
      exact hlist.mp (Result.listed.inj hresult)
    · intro hmeet
      exact congrArg Result.listed (hlist.mpr hmeet)

/-- The two stores, both empty at first, give the same results exactly if every listing meets. -/
theorem stores_alike_iff_lists_meet (calls : List (ℤ × Call))
    (hcalls : ∀ call ∈ calls, Writable call) :
    outcomes memoryStep MemoryStore.empty calls = outcomes sqliteStep RowTables.Table.empty calls ↔
      Along memoryStep ListsMeet MemoryStore.empty calls :=
  outcomes_eq_iff_along memoryStep sqliteStep Twins Writable ListsMeet twins_step
    results_alike_iff MemoryStore.empty RowTables.Table.empty calls twins_empty hcalls

def request (id : String) (seconds : ℤ) : ApprovalRequest :=
  ⟨id, "recipe", "step", "send a mail", .low, .pending, "t", "w", seconds * second, none, "", ""⟩

def oneRequest : List (ℤ × Call) :=
  [(1700000000 * second, .create (request "a" 1700000000)),
    (1700000001 * second, .list 1 20 "pending"),
    (1700000002 * second, .approve "a" "alice"),
    (1700000003 * second, .list 1 20 "approved"), (1700000004 * second, .get "a")]

theorem one_request_alike :
    outcomes memoryStep MemoryStore.empty oneRequest =
      outcomes sqliteStep RowTables.Table.empty oneRequest :=
  (stores_alike_iff_lists_meet oneRequest (by decide +kernel)).mpr (by decide +kernel)

def twoRequests : List (ℤ × Call) :=
  [(1 * second, .create (request "a" 1)), (2 * second, .create (request "b" 2)),
    (3 * second, .list 1 20 "")]

/-- They are listed in opposite orders. -/
theorem two_requests_listed_differently :
    outcomes memoryStep MemoryStore.empty twoRequests =
        [.created (request "a" 1), .created (request "b" 2),
          .listed (some ([request "a" 1, request "b" 2], 2))] ∧
      outcomes sqliteStep RowTables.Table.empty twoRequests =
        [.created (request "a" 1), .created (request "b" 2),
          .listed (some ([request "b" 2, request "a" 1], 2))] ∧
      outcomes memoryStep MemoryStore.empty twoRequests ≠
        outcomes sqliteStep RowTables.Table.empty twoRequests := by
  decide +kernel

end IronGolem.ApprovalTwins
