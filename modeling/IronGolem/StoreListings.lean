import IronGolem.ApprovalStore
import IronGolem.InboxPages
import IronGolem.MachineIntegers
import IronGolem.SquadStore

/-!
The listings of the gateway: each store can be kept in memory or in a database, and a handler reads
the page and its size from the query and asks the store for that page. A store in memory is a map
and the order in which its keys were added; it cuts a page out of a slice, which panics outside of
its bounds.
-/
namespace IronGolem.StoreListings

open InboxPages MachineIntegers OrderedPages RowTables List

/-- A map with the keys in the order of their insertions. Every listed key has an entry. -/
structure MemoryStore (α : Type) where
  entries : String → Option α
  order : List String
  listed : ∀ id ∈ order, (entries id).isSome = true

namespace MemoryStore

variable {α : Type}

def empty : MemoryStore α where
  entries := fun _ => none
  order := []
  listed := by simp

variable (s : MemoryStore α)

def add (id : String) (a : α) : MemoryStore α where
  entries := Function.update s.entries id (some a)
  order := s.order ++ [id]
  listed := by
    intro k hk
    by_cases hid : k = id
    · rw [hid, Function.update_self]
      rfl
    · rw [Function.update_of_ne hid]
      rcases List.mem_append.mp hk with hold | hnew
      · exact s.listed k hold
      · exact absurd (List.mem_singleton.mp hnew) hid

def set (id : String) (a : α) : MemoryStore α where
  entries := Function.update s.entries id (some a)
  order := s.order
  listed := by
    intro k hk
    by_cases hid : k = id
    · rw [hid, Function.update_self]
      rfl
    · rw [Function.update_of_ne hid]
      exact s.listed k hk

def all : List α := s.order.filterMap s.entries

theorem length_filterMap (s : MemoryStore α) (ids : List String) (hids : ∀ id ∈ ids, id ∈ s.order) :
    (ids.filterMap s.entries).length = ids.length := by
  induction ids with
  | nil => rfl
  | cons id ids ih =>
    obtain ⟨a, ha⟩ := Option.isSome_iff_exists.mp (s.listed id (hids id mem_cons_self))
    rw [filterMap_cons_some ha, length_cons, length_cons,
      ih fun k hk => hids k (mem_cons_of_mem id hk)]

end MemoryStore

/-- The page that a store in memory cuts out of what it lists, and the number of all items. -/
def slicePage {α : Type} (items : List α) (page pageSize : ℤ) : Option (List α × ℕ) :=
  let total : ℤ := items.length
  let start := wrap (wrap (page - 1) * pageSize)
  if total ≤ start then some ([], items.length)
  else
    let stop := wrap (start + pageSize)
    let stop := if total < stop then total else stop
    (slice items start stop).map (fun pageItems => (pageItems, items.length))

abbrev InMemoryRecipeStore (Recipe : Type) := MemoryStore Recipe

def InMemoryRecipeStore.list {Recipe : Type} (s : InMemoryRecipeStore Recipe)
    (page pageSize : ℤ) : Option (List Recipe × ℕ) :=
  slicePage s.all page pageSize

abbrev InMemorySquadStore := MemoryStore SquadStore.Squad

def InMemorySquadStore.list (s : InMemorySquadStore) (page pageSize : ℤ) :
    Option (List SquadStore.Squad × ℕ) :=
  slicePage s.all page pageSize

abbrev InMemoryApprovalStore := MemoryStore ApprovalStore.ApprovalRequest

def InMemoryApprovalStore.filtered (s : InMemoryApprovalStore) (statusFilter : String) :
    List ApprovalStore.ApprovalRequest :=
  s.all.filter (fun a => EventStore.passes statusFilter a.status.text)

def InMemoryApprovalStore.list (s : InMemoryApprovalStore) (page pageSize : ℤ)
    (statusFilter : String) : Option (List ApprovalStore.ApprovalRequest × ℕ) :=
  slicePage (InMemoryApprovalStore.filtered s statusFilter) page pageSize

abbrev InMemoryEventStore := List (EventStore.Event ℤ)

def InMemoryEventStore.filtered (s : InMemoryEventStore) (workspaceFilter kindFilter : String) :
    List (EventStore.Event ℤ) :=
  s.reverse.filter (fun evt =>
    EventStore.passes workspaceFilter evt.workspaceID && EventStore.passes kindFilter evt.kind)

def InMemoryEventStore.list (s : InMemoryEventStore) (page pageSize : ℤ)
    (workspaceFilter kindFilter : String) : Option (List (EventStore.Event ℤ) × ℕ) :=
  slicePage (InMemoryEventStore.filtered s workspaceFilter kindFilter) page pageSize

/-- A row of `gateway_recipes` with the columns that a listing reads. -/
structure RecipeRow (Recipe : Type) where
  id : String
  body : Recipe
  seq : ℕ

def bySeq {ρ β : Type} (seq : ρ → ℕ) (body : ρ → β) (rows : List ρ) : List β :=
  (descending (fun r => OrderDual.toDual (seq r)) rows).map body

def rowPage {α : Type} (rows : List α) (page pageSize : ℤ) : List α × ℕ :=
  let page := if page < 1 then 1 else page
  let pageSize := if pageSize < 1 then 50 else pageSize
  (window pageSize.toNat (pageOffset page pageSize) rows, rows.length)

def SQLiteRecipeStore.list {Recipe : Type}
    (db : Table (fun r : RecipeRow Recipe => r.id)) (page pageSize : ℤ) : List Recipe × ℕ :=
  rowPage (bySeq RecipeRow.seq RecipeRow.body db.rows) page pageSize

def SQLiteSquadStore.list (db : SquadStore.DB) (page pageSize : ℤ) :
    List SquadStore.Squad × ℕ :=
  rowPage (bySeq SquadStore.Row.seq SquadStore.Row.body db.rows) page pageSize

def approvalsFound (db : ApprovalStore.DB) (statusFilter : String) :
    List ApprovalStore.ApprovalRequest :=
  (descending ApprovalStore.Row.seq (db.rows.filter (ApprovalStore.hasStatus statusFilter))).map
    (fun r => r.body.1)

theorem approvalStore_list_eq (db : ApprovalStore.DB) (page pageSize : ℤ) (statusFilter : String) :
    ApprovalStore.list db page pageSize statusFilter =
      rowPage (approvalsFound db statusFilter) page pageSize := by
  unfold ApprovalStore.list rowPage approvalsFound window
  simp

structure ListResponse (α : Type) where
  items : List α
  total : ℕ
  page : ℤ
  pageSize : ℤ

def listPage {α : Type} (list : ℤ → ℤ → Option (List α × ℕ)) (page pageSize : String) :
    Option (ListResponse α) :=
  let (page, pageSize) := parsePagination page pageSize
  (list page pageSize).map (fun found => ⟨found.1, found.2, page, pageSize⟩)

def listRecipes {Recipe : Type} (list : ℤ → ℤ → Option (List Recipe × ℕ))
    (page pageSize : String) : Option (ListResponse Recipe) :=
  listPage list page pageSize

def listSquads (list : ℤ → ℤ → Option (List SquadStore.Squad × ℕ)) (page pageSize : String) :
    Option (ListResponse SquadStore.Squad) :=
  listPage list page pageSize

def listApprovals (list : ℤ → ℤ → String → Option (List ApprovalStore.ApprovalRequest × ℕ))
    (page pageSize status : String) : Option (ListResponse ApprovalStore.ApprovalRequest) :=
  listPage (fun page pageSize => list page pageSize status) page pageSize

def listEvents (list : ℤ → ℤ → String → String → Option (List (EventStore.Event ℤ) × ℕ))
    (page pageSize workspace kind : String) : Option (ListResponse (EventStore.Event ℤ)) :=
  listPage (fun page pageSize => list page pageSize workspace kind) page pageSize

/-- It asks for four pages and cuts its own page out of the tenant's share. -/
def listInboxFrom (decode : String → InboundPayload)
    (list : ℤ → ℤ → String → String → Option (List (EventStore.Event ℤ) × ℕ))
    (tenantID workspaceID page pageSize : String) (now : ℤ) : Option InboxResponse :=
  let (page, pageSize) := parsePagination page pageSize
  let pageSize := if 200 < pageSize then 200 else pageSize
  (list 1 (pageSize * 4) workspaceID inbound).bind fun fetched =>
    let mine := fetched.1.filter (fun evt => EventStore.passes tenantID evt.tenantID)
    cutPage (mine.map (fun evt => shapeInboxItem decode evt now)) page pageSize

theorem listInbox_eq_listInboxFrom (decode : String → InboundPayload) (db : EventStore.DB)
    (tenantID workspaceID page pageSize : String) (now : ℤ) :
    listInbox decode db tenantID workspaceID page pageSize now =
      listInboxFrom decode (fun page pageSize workspace kind =>
        some (EventStore.list db page pageSize workspace kind)) tenantID workspaceID page pageSize
          now := by
  unfold listInbox listInboxFrom
  simp

end IronGolem.StoreListings
