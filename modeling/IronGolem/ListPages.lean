import IronGolem.StoreListings

/-!
Pages against the list they are cut from. The place where a page starts is a product of 64 bits.
While the whole page ends below that bound, the page is the right part of the list, and it is also
right if the product, wrapped as it is, lies behind the list.
-/
namespace IronGolem.ListPages

open InboxPages MachineIntegers OrderedPages StoreListings List Option

section Slices

variable {α : Type} (limit offset : ℕ) {items : List α}

theorem window_eq_nil_iff : window limit offset items = [] ↔ limit = 0 ∨ items.length ≤ offset := by
  unfold window
  rw [take_eq_nil_iff, drop_eq_nil_iff]

variable {page pageSize : ℤ}

theorem slicePage_past (h : (items.length : ℤ) ≤ wrap ((page - 1) * pageSize)) :
    slicePage items page pageSize = some ([], items.length) := by
  unfold slicePage
  rw [wrap_wrap_mul, if_pos h]

theorem slicePage_inside (hlow : 0 ≤ wrap ((page - 1) * pageSize))
    (hlt : wrap ((page - 1) * pageSize) < items.length) (hsize : 0 ≤ pageSize)
    (hfits : wrap ((page - 1) * pageSize) + pageSize < 2 ^ 63) :
    slicePage items page pageSize =
      some (window pageSize.toNat (wrap ((page - 1) * pageSize)).toNat items, items.length) := by
  unfold slicePage
  rw [wrap_wrap_mul, if_neg (by omega)]
  generalize wrap ((page - 1) * pageSize) = start at hlow hlt hfits ⊢
  obtain ⟨first, rfl⟩ := Int.eq_ofNat_of_zero_le hlow
  obtain ⟨size, rfl⟩ := Int.eq_ofNat_of_zero_le hsize
  rw [wrap_of_range (by omega) hfits]
  simp only [slice_eq_window (Int.ofNat_le.mp hlt.le), map_some, Int.toNat_natCast]

theorem slicePage_panics (hlt : wrap ((page - 1) * pageSize) < items.length)
    (hsize : -2 ^ 63 ≤ pageSize) (hsize' : pageSize < 2 ^ 63)
    (h : wrap ((page - 1) * pageSize) < 0 ∨ pageSize < 0 ∨
      2 ^ 63 ≤ wrap ((page - 1) * pageSize) + pageSize) : slicePage items page pageSize = none := by
  have hlow := le_wrap ((page - 1) * pageSize)
  have hhigh := wrap_lt ((page - 1) * pageSize)
  unfold slicePage
  rw [wrap_wrap_mul, if_neg (by omega)]
  generalize wrap ((page - 1) * pageSize) = start at hlow hhigh hlt h ⊢
  have hstop := wrap_eq (start + pageSize)
  simp only [slice]
  rw [if_neg, map_none]
  split <;> omega

theorem slicePage_total {found : List α × ℕ}
    (h : slicePage items page pageSize = some found) : found.2 = items.length := by
  unfold slicePage at h
  simp only at h
  split at h
  · rw [← some.inj h]
  · obtain ⟨_, _, rfl⟩ := map_eq_some_iff.mp h
    rfl

def exactPage (items : List α) (page pageSize : ℤ) : List α :=
  window pageSize.toNat ((page - 1) * pageSize).toNat items

theorem wrap_eq_or_lt {x : ℤ} (hx : 0 ≤ x) : x < 2 ^ 63 ∧ wrap x = x ∨ 2 ^ 63 ≤ x ∧ wrap x < x := by
  have hlt := wrap_lt x
  by_cases h : x < 2 ^ 63
  · exact .inl ⟨h, wrap_of_range (by omega) h⟩
  · exact .inr ⟨by omega, by omega⟩

theorem exactPage_eq_nil (h : (items.length : ℤ) ≤ (page - 1) * pageSize) :
    exactPage items page pageSize = [] := by
  apply (window_eq_nil_iff _ _).mpr
  omega

theorem slicePage_exact_iff (hpage : 1 ≤ page)
    (hsize : 1 ≤ pageSize) (hsize' : pageSize ≤ 100) (hlength : (items.length : ℤ) < 2 ^ 63) :
    (slicePage items page pageSize).map Prod.fst = some (exactPage items page pageSize) ↔
      page * pageSize < 2 ^ 63 ∨ (items.length : ℤ) ≤ wrap ((page - 1) * pageSize) := by
  have hproduct : page * pageSize = (page - 1) * pageSize + pageSize := by ring
  have hnonneg : 0 ≤ (page - 1) * pageSize := mul_nonneg (by omega) (by omega)
  have hwrap := wrap_eq_or_lt hnonneg
  by_cases hpast : (items.length : ℤ) ≤ wrap ((page - 1) * pageSize)
  · refine iff_of_true ?_ (.inr hpast)
    rw [slicePage_past hpast, exactPage_eq_nil (by omega)]
    rfl
  · constructor
    · intro h
      by_contra hlarge
      by_cases hneg : wrap ((page - 1) * pageSize) < 0 ∨
          2 ^ 63 ≤ wrap ((page - 1) * pageSize) + pageSize
      · rw [slicePage_panics (by omega) (by omega) (by omega) (by omega)] at h
        exact absurd h (by simp)
      · -- the product is out of range, so the page should be empty, but it is cut inside
        rw [slicePage_inside (by omega) (by omega) (by omega) (by omega),
          exactPage_eq_nil (by omega)] at h
        have hnil := (window_eq_nil_iff _ _).mp (some.inj h)
        omega
    · intro h
      have hsame : wrap ((page - 1) * pageSize) = (page - 1) * pageSize := by omega
      rw [slicePage_inside (by omega) (by omega) (by omega) (by omega), hsame]
      rfl

theorem rowPage_exact_iff {rows : List α} (hpage : 1 ≤ page)
    (hsize : 1 ≤ pageSize) (hlength : (rows.length : ℤ) < 2 ^ 63) :
    (rowPage rows page pageSize).1 = exactPage rows page pageSize ↔
      (page - 1) * pageSize < 2 ^ 63 ∨ rows.length ≤ (wrap ((page - 1) * pageSize)).toNat := by
  have hnonneg : 0 ≤ (page - 1) * pageSize := mul_nonneg (by omega) (by omega)
  have hwrap := wrap_eq_or_lt hnonneg
  have hrow : (rowPage rows page pageSize).1 =
      window pageSize.toNat (wrap ((page - 1) * pageSize)).toNat rows := by
    simp only [rowPage, if_neg (show ¬ page < 1 by omega), if_neg (show ¬ pageSize < 1 by omega)]
    rfl
  rw [hrow]
  constructor
  · intro h
    by_contra hnot
    rw [exactPage_eq_nil (by omega)] at h
    have hnil := (window_eq_nil_iff _ _).mp h
    omega
  · intro h
    rcases hwrap with ⟨_, hsame⟩ | ⟨hlarge, hless⟩
    · rw [hsame]
      rfl
    · rw [exactPage_eq_nil (by omega)]
      apply (window_eq_nil_iff _ _).mpr
      omega

theorem window_take_eq_iff (limit offset count : ℕ)
    (hcount : count ≤ items.length) (hlimit : 1 ≤ limit) :
    window limit offset (items.take count) = window limit offset items ↔
      min (offset + limit) items.length ≤ count ∨ items.length ≤ offset := by
  unfold window
  rw [drop_take, take_take, take_eq_take_iff, length_drop]
  omega

end Slices

def ItemsExact {α : Type} (full : List α) (page pageSize : String)
    (response : Option (ListResponse α)) : Prop :=
  response.map ListResponse.items =
    some (exactPage full (parsePagination page pageSize).1 (parsePagination page pageSize).2)

/-- The page ends in range, or its wrapped start lies behind a list of this length. -/
def SliceFits (length : ℕ) (page pageSize : String) : Prop :=
  (parsePagination page pageSize).1 * (parsePagination page pageSize).2 < 2 ^ 63 ∨
    (length : ℤ) ≤
      wrap (((parsePagination page pageSize).1 - 1) * (parsePagination page pageSize).2)

/-- The page starts in range, or the offset that is used lies behind so many rows. -/
def RowsFit (length : ℕ) (page pageSize : String) : Prop :=
  ((parsePagination page pageSize).1 - 1) * (parsePagination page pageSize).2 < 2 ^ 63 ∨
    length ≤
      (wrap (((parsePagination page pageSize).1 - 1) * (parsePagination page pageSize).2)).toNat

variable {α : Type}

theorem listPage_slice_exact_iff {items : List α} (page pageSize : String)
    (hlength : (items.length : ℤ) < 2 ^ 63) :
    ItemsExact items page pageSize (listPage (slicePage items) page pageSize) ↔
      SliceFits items.length page pageSize := by
  have hpage := parsePagination_page_pos page pageSize
  have hbounds := parsePagination_bounds page pageSize
  have hexact := slicePage_exact_iff hpage hbounds.1 hbounds.2 hlength
  unfold ItemsExact SliceFits listPage
  rw [← hexact, Option.map_map]
  rfl

theorem listPage_rows_exact_iff {rows : List α} (page pageSize : String)
    (hlength : (rows.length : ℤ) < 2 ^ 63) :
    ItemsExact rows page pageSize
        (listPage (fun page pageSize => some (rowPage rows page pageSize)) page pageSize) ↔
      RowsFit rows.length page pageSize := by
  have hpage := parsePagination_page_pos page pageSize
  have hbounds := parsePagination_bounds page pageSize
  have hexact := rowPage_exact_iff hpage hbounds.1 hlength
  unfold ItemsExact RowsFit listPage
  rw [← hexact]
  exact some_inj

section Inbox

variable (decode : String → InboundPayload) (full : List (EventStore.Event ℤ))
  (tenantID page pageSize : String) (now : ℤ)

def inboxItems : List InboxItem :=
  (full.filter (fun evt => EventStore.passes tenantID evt.tenantID)).map
    (fun evt => shapeInboxItem decode evt now)

def fetchedCount : ℕ :=
  ((full.take ((parsePagination page pageSize).2 * 4).toNat).filter
    (fun evt => EventStore.passes tenantID evt.tenantID)).length

/-- The page is in range and fetched, or empty; or its wrapped start lies behind what was fetched.
-/
def InboxFits : Prop :=
  (((parsePagination page pageSize).1 - 1) * (parsePagination page pageSize).2 < 2 ^ 63 ∧
    (min ((parsePagination page pageSize).1 * (parsePagination page pageSize).2)
        (inboxItems decode full tenantID now).length ≤ fetchedCount full tenantID page pageSize ∨
      (inboxItems decode full tenantID now).length ≤
        ((parsePagination page pageSize).1 - 1) * (parsePagination page pageSize).2)) ∨
  (2 ^ 63 ≤ ((parsePagination page pageSize).1 - 1) * (parsePagination page pageSize).2 ∧
    (fetchedCount full tenantID page pageSize : ℤ) ≤
      wrap (((parsePagination page pageSize).1 - 1) * (parsePagination page pageSize).2))

theorem inboxItems_take (count : ℕ) :
    inboxItems decode (full.take count) tenantID now =
      (inboxItems decode full tenantID now).take
        ((full.take count).filter (fun evt => EventStore.passes tenantID evt.tenantID)).length := by
  have hinit := (List.take_prefix count full).filter
    (fun evt => EventStore.passes tenantID evt.tenantID)
  unfold inboxItems
  rw [← map_take, ← prefix_iff_eq_take.mp hinit]

theorem fetchedCount_le :
    fetchedCount full tenantID page pageSize ≤ (inboxItems decode full tenantID now).length := by
  have hinit := (List.take_prefix ((parsePagination page pageSize).2 * 4).toNat full).filter
    (fun evt => EventStore.passes tenantID evt.tenantID)
  unfold fetchedCount inboxItems
  rw [List.length_map]
  exact hinit.length_le

theorem cutPage_items (items : List InboxItem) (p s : ℤ) (hsize : 1 ≤ s) :
    (cutPage items p s).map InboxResponse.items =
      if 0 ≤ wrap ((p - 1) * s) then some (window s.toNat (wrap ((p - 1) * s)).toNat items)
      else none := by
  split
  · rename_i hlow
    rw [cutPage_of_nonneg items (by omega) hlow]
    rfl
  · rename_i hneg
    rw [cutPage_of_neg items (not_le.mp hneg)]
    rfl

/-- The page of the inbox for any store that hands out the first four pages. -/
theorem listInboxFrom_exact_iff {workspaceID : String}
    (list : ℤ → ℤ → String → String → Option (List (EventStore.Event ℤ) × ℕ))
    (hlength : (full.length : ℤ) < 2 ^ 63)
    (hlist : (list 1 ((parsePagination page pageSize).2 * 4) workspaceID inbound).map Prod.fst =
      some (full.take ((parsePagination page pageSize).2 * 4).toNat)) :
    (listInboxFrom decode list tenantID workspaceID page pageSize now).map InboxResponse.items =
        some (exactPage (inboxItems decode full tenantID now) (parsePagination page pageSize).1
          (parsePagination page pageSize).2) ↔
      InboxFits decode full tenantID page pageSize now := by
  have hpage := parsePagination_page_pos page pageSize
  have hbounds := parsePagination_bounds page pageSize
  have hle := fetchedCount_le decode full tenantID page pageSize now
  have hitems : ((inboxItems decode full tenantID now).length : ℤ) < 2 ^ 63 := by
    have hfilter := length_filter_le (fun evt => EventStore.passes tenantID evt.tenantID) full
    unfold inboxItems
    rw [List.length_map]
    omega
  obtain ⟨fetched, hfetched, hfirst⟩ := map_eq_some_iff.mp hlist
  have hanswer : listInboxFrom decode list tenantID workspaceID page pageSize now =
      cutPage ((inboxItems decode full tenantID now).take
        (fetchedCount full tenantID page pageSize)) (parsePagination page pageSize).1
        (parsePagination page pageSize).2 := by
    unfold listInboxFrom fetchedCount
    rw [← inboxItems_take]
    simp [if_neg (show ¬ 200 < (parsePagination page pageSize).2 by omega), hfetched, hfirst]
    rfl
  rw [hanswer, cutPage_items _ _ _ hbounds.1]
  unfold InboxFits
  generalize fetchedCount full tenantID page pageSize = count at hle ⊢
  generalize (parsePagination page pageSize).1 = p at hpage ⊢
  generalize (parsePagination page pageSize).2 = s at hbounds ⊢
  have hproduct : p * s = (p - 1) * s + s := by ring
  have hnonneg : 0 ≤ (p - 1) * s := mul_nonneg (by omega) (by omega)
  rcases wrap_eq_or_lt hnonneg with ⟨hsmall, hsame⟩ | ⟨hlarge, hless⟩
  · rw [hsame, if_pos hnonneg, some_inj]
    unfold exactPage
    rw [window_take_eq_iff s.toNat ((p - 1) * s).toNat count hle (by omega)]
    omega
  · rw [exactPage_eq_nil (by omega)]
    split
    · rw [some_inj, window_eq_nil_iff, length_take]
      omega
    · simp only [reduceCtorEq, false_iff]
      omega

end Inbox

theorem slicePage_first (items : List α) {size : ℤ} (hsize : 1 ≤ size) (hsize' : size < 2 ^ 63) :
    (slicePage items 1 size).map Prod.fst = some (items.take size.toNat) := by
  have hzero : wrap ((1 - 1) * size) = 0 := by
    rw [sub_self, zero_mul]
    rfl
  by_cases hnil : (items.length : ℤ) ≤ 0
  · have hempty : items = [] := length_eq_zero_iff.mp (by omega)
    rw [slicePage_past (by omega), hempty, take_nil]
    rfl
  · rw [slicePage_inside (by omega) (by omega) (by omega) (by omega), hzero]
    rfl

theorem listApprovals_rows_exact_iff (db : ApprovalStore.DB) (page pageSize status : String)
    (hlength : ((approvalsFound db status).length : ℤ) < 2 ^ 63) :
    ItemsExact (approvalsFound db status) page pageSize
        (listApprovals (fun page pageSize status =>
          some (ApprovalStore.list db page pageSize status)) page pageSize status) ↔
      RowsFit (approvalsFound db status).length page pageSize := by
  have hlist : (fun page pageSize => some (ApprovalStore.list db page pageSize status)) =
      fun page pageSize => some (rowPage (approvalsFound db status) page pageSize) := by
    funext page pageSize
    rw [approvalStore_list_eq]
  unfold listApprovals
  rw [hlist]
  exact listPage_rows_exact_iff page pageSize hlength

/-- Each list handler answers with exactly the items of the page if and only if the page fits. -/
theorem pages_exact_iff_fit (page pageSize : String) :
    -- the stores in memory
    (∀ (Recipe : Type) (s : InMemoryRecipeStore Recipe), (s.all.length : ℤ) < 2 ^ 63 →
      (ItemsExact s.all page pageSize
          (listRecipes (InMemoryRecipeStore.list s) page pageSize) ↔
        SliceFits s.all.length page pageSize)) ∧
    (∀ s : InMemorySquadStore, (s.all.length : ℤ) < 2 ^ 63 →
      (ItemsExact s.all page pageSize (listSquads (InMemorySquadStore.list s) page pageSize) ↔
        SliceFits s.all.length page pageSize)) ∧
    (∀ (s : InMemoryApprovalStore) (status : String),
      ((InMemoryApprovalStore.filtered s status).length : ℤ) < 2 ^ 63 →
      (ItemsExact (InMemoryApprovalStore.filtered s status) page pageSize
          (listApprovals (InMemoryApprovalStore.list s) page pageSize status) ↔
        SliceFits (InMemoryApprovalStore.filtered s status).length page pageSize)) ∧
    (∀ (s : InMemoryEventStore) (workspace kind : String),
      ((InMemoryEventStore.filtered s workspace kind).length : ℤ) < 2 ^ 63 →
      (ItemsExact (InMemoryEventStore.filtered s workspace kind) page pageSize
          (listEvents (InMemoryEventStore.list s) page pageSize workspace kind) ↔
        SliceFits (InMemoryEventStore.filtered s workspace kind).length page pageSize)) ∧
    (∀ (decode : String → InboundPayload) (s : InMemoryEventStore) (tenantID workspaceID : String)
        (now : ℤ), ((InMemoryEventStore.filtered s workspaceID inbound).length : ℤ) < 2 ^ 63 →
      ((listInboxFrom decode (InMemoryEventStore.list s) tenantID workspaceID page pageSize
          now).map InboxResponse.items =
        some (exactPage (inboxItems decode (InMemoryEventStore.filtered s workspaceID inbound)
          tenantID now) (parsePagination page pageSize).1 (parsePagination page pageSize).2) ↔
        InboxFits decode (InMemoryEventStore.filtered s workspaceID inbound) tenantID page pageSize
          now)) ∧
    -- the stores in the database
    (∀ (Recipe : Type) (db : RowTables.Table (fun r : RecipeRow Recipe => r.id)),
      ((bySeq RecipeRow.seq RecipeRow.body db.rows).length : ℤ) < 2 ^ 63 →
      (ItemsExact (bySeq RecipeRow.seq RecipeRow.body db.rows) page pageSize
          (listRecipes (fun page pageSize => some (SQLiteRecipeStore.list db page pageSize))
            page pageSize) ↔
        RowsFit (bySeq RecipeRow.seq RecipeRow.body db.rows).length page pageSize)) ∧
    (∀ db : SquadStore.DB,
      ((bySeq SquadStore.Row.seq SquadStore.Row.body db.rows).length : ℤ) < 2 ^ 63 →
      (ItemsExact (bySeq SquadStore.Row.seq SquadStore.Row.body db.rows) page pageSize
          (listSquads (fun page pageSize => some (SQLiteSquadStore.list db page pageSize))
            page pageSize) ↔
        RowsFit (bySeq SquadStore.Row.seq SquadStore.Row.body db.rows).length page pageSize)) ∧
    (∀ (db : ApprovalStore.DB) (status : String),
      ((approvalsFound db status).length : ℤ) < 2 ^ 63 →
      (ItemsExact (approvalsFound db status) page pageSize
          (listApprovals (fun page pageSize status =>
            some (ApprovalStore.list db page pageSize status)) page pageSize status) ↔
        RowsFit (approvalsFound db status).length page pageSize)) ∧
    (∀ (decode : String → InboundPayload) (db : EventStore.DB) (tenantID workspaceID : String)
        (now : ℤ), ((EventStore.found db workspaceID inbound).length : ℤ) < 2 ^ 63 →
      ((listInbox decode db tenantID workspaceID page pageSize now).map InboxResponse.items =
        some (exactPage (inboxItems decode ((EventStore.found db workspaceID inbound).map
          EventStore.Event.atInstant) tenantID now) (parsePagination page pageSize).1
          (parsePagination page pageSize).2) ↔
        InboxFits decode ((EventStore.found db workspaceID inbound).map
          EventStore.Event.atInstant) tenantID page pageSize now)) := by
  have hbounds := parsePagination_bounds page pageSize
  refine ⟨?_, ?_, ?_, ?_, ?_, ?_, ?_, ?_, ?_⟩
  · intro Recipe s hlength
    exact listPage_slice_exact_iff page pageSize hlength
  · intro s hlength
    exact listPage_slice_exact_iff page pageSize hlength
  · intro s status hlength
    exact listPage_slice_exact_iff page pageSize hlength
  · intro s workspace kind hlength
    exact listPage_slice_exact_iff page pageSize hlength
  · intro decode s tenantID workspaceID now hlength
    apply listInboxFrom_exact_iff decode _ tenantID page pageSize now _ hlength
    exact slicePage_first _ (by omega) (by omega)
  · intro Recipe db hlength
    exact listPage_rows_exact_iff page pageSize hlength
  · intro db hlength
    exact listPage_rows_exact_iff page pageSize hlength
  · intro db status hlength
    exact listApprovals_rows_exact_iff db page pageSize status hlength
  · intro decode db tenantID workspaceID now hlength
    rw [listInbox_eq_listInboxFrom]
    apply listInboxFrom_exact_iff decode _ tenantID page pageSize now
    · rwa [List.length_map]
    · rw [map_some, EventStore.list_first_page db workspaceID inbound (by omega), map_take]

def oneRecipe : InMemoryRecipeStore String := MemoryStore.empty.add "triage" "Email triage"

theorem first_page_of_recipes_exact :
    ItemsExact oneRecipe.all "1" "50"
      (listRecipes (InMemoryRecipeStore.list oneRecipe) "1" "50") := by
  have hlength : (oneRecipe.all.length : ℤ) < 2 ^ 63 := by decide
  exact ((pages_exact_iff_fit "1" "50").1 String oneRecipe hlength).mpr (.inl (by decide))

/-- A start that wraps to zero shows the first page again, and one that wraps below zero panics. -/
theorem wrapped_pages_of_recipes :
    (listRecipes (InMemoryRecipeStore.list oneRecipe) "288230376151711745" "64").map
        ListResponse.items = some ["Email triage"] ∧
      exactPage oneRecipe.all 288230376151711745 64 = [] ∧
      ¬ ItemsExact oneRecipe.all "288230376151711745" "64"
        (listRecipes (InMemoryRecipeStore.list oneRecipe) "288230376151711745" "64") ∧
      (listRecipes (InMemoryRecipeStore.list oneRecipe) "92233720368547760" "100").isNone := by
  have hshown : (listRecipes (InMemoryRecipeStore.list oneRecipe) "288230376151711745" "64").map
      ListResponse.items = some ["Email triage"] := by decide +kernel
  have hparsed : parsePagination "288230376151711745" "64" = (288230376151711745, 64) := by
    decide +kernel
  have hempty : exactPage oneRecipe.all 288230376151711745 64 = [] :=
    exactPage_eq_nil (by decide +kernel)
  refine ⟨hshown, hempty, ?_, by decide +kernel⟩
  intro h
  unfold ItemsExact at h
  rw [hshown, hparsed, hempty] at h
  exact absurd h (by decide)

end IronGolem.ListPages
