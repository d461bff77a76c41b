import IronGolem.BearerTokens
import IronGolem.EventListings

/-!
The inbox: inbound messages of a tenant and workspace, newest first, in pages. The handler asks the
event store for one window of four pages of the workspace's inbound messages, drops the messages of
other tenants, and cuts the page out of the rest.
-/
namespace IronGolem.InboxPages

open List InboundRequests BearerTokens OrderedPages TimestampOrder EventStore EventListings

/-- `page` and `pageSize` of a query, which are empty when they are not given. -/
def parsePagination (page pageSize : String) : ℤ × ℤ :=
  (match parseInt page with
    | some v => if 0 < v then v else 1
    | none => 1,
    match parseInt pageSize with
    | some v => if 0 < v ∧ v ≤ 100 then v else 20
    | none => 20)

theorem parsePagination_page_pos (page pageSize : String) :
    1 ≤ (parsePagination page pageSize).1 := by
  unfold parsePagination
  simp only
  split
  · split
    · omega
    · decide
  · decide

theorem parsePagination_bounds (page pageSize : String) :
    1 ≤ (parsePagination page pageSize).2 ∧ (parsePagination page pageSize).2 ≤ 100 := by
  unfold parsePagination
  simp only
  split
  · split
    · omega
    · decide
  · decide

theorem parsePagination_formatInt {page pageSize : ℤ} (hpage : 1 ≤ page) (hpage' : page < 2 ^ 63)
    (hsize : 1 ≤ pageSize) (hsize' : pageSize ≤ 100) :
    parsePagination (formatInt page) (formatInt pageSize) = (page, pageSize) := by
  unfold parsePagination
  rw [parseInt_formatInt (by omega) hpage', parseInt_formatInt (by omega) (by omega)]
  simp [if_pos (show 0 < page by omega), if_pos (show 0 < pageSize ∧ pageSize ≤ 100 by omega)]

structure InboundPayload where
  channelID : String
  connectorID : String
  userID : String
  content : String
  direction : String
  deriving DecidableEq

structure InboxSafety where
  can : List String
  cannot : List String
  needsApproval : List String
  stopsIf : List String
  deriving DecidableEq

/-- The time of an entry is shown to the second. -/
structure InboxAudit where
  at_ : ℤ
  actor : String
  note : String
  deriving DecidableEq

structure InboxItem where
  id : String
  status : String
  title : String
  source : String
  risk : String
  minutesAgo : ℤ
  summary : String
  cause : String
  routedBy : String
  unread : Bool
  safety : InboxSafety
  audit : List InboxAudit
  deriving DecidableEq

def startsWith (s start : String) : Bool := start.toList.isPrefixOf s.toList

def inboxSource (connectorID : String) : String :=
  if connectorID = "" then "webhook"
  else if startsWith connectorID "telegram" then "telegram"
  else if startsWith connectorID "email" then "email"
  else if startsWith connectorID "calendar" then "calendar"
  else "webhook"

def inboxTitle (p : InboundPayload) : String :=
  if p.userID ≠ "" then "Inbound from " ++ p.userID
  else if p.channelID ≠ "" then "Inbound on " ++ p.channelID
  else "Inbound message"

/-- The first bytes of a text; the encoder replaces each byte of a character that is cut. -/
def firstBytes : ℕ → List Char → List Char
  | _, [] => []
  | n, c :: rest =>
      if c.utf8Size ≤ n then c :: firstBytes (n - c.utf8Size) rest else List.replicate n '\uFFFD'

def truncate (s : String) (most : ℕ) : String :=
  if most = 0 ∨ s.utf8ByteSize ≤ most then s
  else String.ofList (firstBytes (most - 1) s.toList) ++ "…"

/-- Whole minutes between two times, at least zero. A difference is cut to 64 bits. -/
def minutesAgo (now timestamp : ℤ) : ℤ :=
  max 0 ((max (-2 ^ 63) (min (2 ^ 63 - 1) (now - timestamp))).tdiv (60 * 1000000000))

section

-- how the JSON of a payload decodes; what does not decode is left empty
variable (decode : String → InboundPayload)

def payloadOf (evt : Event ℤ) : InboundPayload :=
  if evt.payload = "" then ⟨"", "", "", "", ""⟩ else decode evt.payload

def shapeInboxItem (evt : Event ℤ) (now : ℤ) : InboxItem where
  id := evt.id
  status := "awaiting"
  title := inboxTitle (payloadOf decode evt)
  source := inboxSource (payloadOf decode evt).connectorID
  risk := "low"
  minutesAgo := minutesAgo now evt.timestamp
  summary := truncate (payloadOf decode evt).content 160
  cause := "User sent a message via " ++ inboxSource (payloadOf decode evt).connectorID ++ "."
  routedBy := "Inbox triage"
  unread := true
  safety := ⟨["Read and triage the inbound message"], ["Send a reply without your approval"],
    ["Any outbound send"], ["Sender is on the workspace deny-list"]⟩
  audit := [⟨evt.timestamp / 1000000000, "Inbox triage", "Received inbound message."⟩]

structure InboxResponse where
  items : List InboxItem
  total : ℕ
  page : ℤ
  pageSize : ℤ
  deriving DecidableEq

/-- The slice `items[start:stop]`, or nothing where taking it panics. -/
def slice {α : Type} (items : List α) (start stop : ℤ) : Option (List α) :=
  if 0 ≤ start ∧ start ≤ stop ∧ stop ≤ items.length then
    some ((items.drop start.toNat).take (stop - start).toNat)
  else none

def cutPage (items : List InboxItem) (page pageSize : ℤ) : Option InboxResponse :=
  let total : ℤ := items.length
  let start := ((page - 1) * pageSize).bmod (2 ^ 64)
  let start := if total < start then total else start
  let stop := if total < start + pageSize then total else start + pageSize
  (slice items start stop).map (fun pageItems => ⟨pageItems, items.length, max page 1, pageSize⟩)

def inbound : String := "message.inbound"

/-- `GET /api/v1/inbox` for a tenant and workspace of a token. -/
def listInbox (db : DB) (tenantID workspaceID page pageSize : String) (now : ℤ) :
    Option InboxResponse :=
  let (page, pageSize) := parsePagination page pageSize
  let pageSize := if 200 < pageSize then 200 else pageSize
  let all := (list db 1 (pageSize * 4) workspaceID inbound).1
  let mine := all.filter (fun evt => passes tenantID evt.tenantID)
  cutPage (mine.map (fun evt => shapeInboxItem decode evt now)) page pageSize

def windowed (db : DB) (tenantID workspaceID : String) (size : ℕ) : List Row :=
  ((found db workspaceID inbound).take (4 * size)).filter (fun r => passes tenantID r.tenantID)

theorem slice_eq_window {α : Type} {items : List α} {first size : ℕ} (h : first ≤ items.length) :
    slice items first (if (items.length : ℤ) < first + size then items.length else first + size) =
      some (window size first items) := by
  unfold slice window
  split
  · have hshort : (items.drop first).length ≤ size := by
      rw [length_drop]
      omega
    have hexact : (items.drop first).length ≤ ((items.length : ℤ) - first).toNat := by
      rw [length_drop]
      omega
    rw [if_pos (by omega), Int.toNat_natCast, take_of_length_le hshort, take_of_length_le hexact]
  · rw [if_pos (by omega), Int.toNat_natCast,
      show ((first : ℤ) + size - first).toNat = size by omega]

variable {page pageSize : ℤ} (items : List InboxItem)

/-- A page that starts at zero or later never panics, and it reports all items. -/
theorem cutPage_of_nonneg (hsize : 0 ≤ pageSize)
    (hstart : 0 ≤ ((page - 1) * pageSize).bmod (2 ^ 64)) :
    cutPage items page pageSize =
      some ⟨window pageSize.toNat (((page - 1) * pageSize).bmod (2 ^ 64)).toNat items,
        items.length, max page 1, pageSize⟩ := by
  simp only [cutPage]
  generalize ((page - 1) * pageSize).bmod (2 ^ 64) = start at hstart ⊢
  obtain ⟨first, rfl⟩ := Int.eq_ofNat_of_zero_le hstart
  obtain ⟨size, rfl⟩ := Int.eq_ofNat_of_zero_le hsize
  rw [Int.toNat_natCast, Int.toNat_natCast]
  by_cases hlarge : (items.length : ℤ) < first
  · have hpast : items.length ≤ first := by omega
    simp only [if_pos hlarge, slice_eq_window le_rfl, Option.map_some, window,
      drop_eq_nil_of_le hpast, drop_length, take_nil]
  · simp only [if_neg hlarge, slice_eq_window (Int.ofNat_le.mp (not_lt.mp hlarge)), Option.map_some]

theorem cutPage_eq {index size : ℕ} (h : index * size < 2 ^ 63) :
    cutPage items (index + 1) size =
      some ⟨window size (index * size) items, items.length, index + 1, size⟩ := by
  have hproduct : ((index : ℤ) + 1 - 1) * size = ((index * size : ℕ) : ℤ) := by
    push_cast
    ring
  have hmax : max ((index : ℤ) + 1) 1 = index + 1 := max_eq_left (by omega)
  have hstart : (((index : ℤ) + 1 - 1) * size).bmod (2 ^ 64) = ((index * size : ℕ) : ℤ) := by
    rw [hproduct]
    exact Int.bmod_eq_of_le (by omega) (by omega)
  rw [cutPage_of_nonneg items (by omega) (by rw [hstart]; omega), hstart, hmax,
    Int.toNat_natCast, Int.toNat_natCast]

theorem cutPage_of_neg
    (hstart : ((page - 1) * pageSize).bmod (2 ^ 64) < 0) : cutPage items page pageSize = none := by
  simp only [cutPage]
  rw [if_neg (by omega), slice, if_neg (by omega)]
  rfl

def pageOf (db : DB) (tenantID workspaceID : String) (size index : ℕ) (now : ℤ) :
    InboxResponse where
  items := (window size (index * size) (windowed db tenantID workspaceID size)).map
    (fun r => shapeInboxItem decode r.atInstant now)
  total := (windowed db tenantID workspaceID size).length
  page := index + 1
  pageSize := size

variable (db : DB) (tenantID workspaceID : String) {index : ℕ} (size : ℕ) (now : ℤ)

theorem listInbox_eq (hsize : 1 ≤ size) (hsize' : size ≤ 100)
    (hpage : (index + 1) * size < 2 ^ 63) :
    listInbox decode db tenantID workspaceID (formatInt (index + 1 : ℕ)) (formatInt size) now =
      some (pageOf decode db tenantID workspaceID size index now) := by
  have hindex : index + 1 ≤ (index + 1) * size := Nat.le_mul_of_pos_right _ hsize
  have hoffset : index * size < 2 ^ 63 :=
    lt_of_le_of_lt (Nat.mul_le_mul_right size (Nat.le_succ index)) hpage
  have hall : (list db 1 ((size : ℤ) * 4) workspaceID inbound).1 =
      ((found db workspaceID inbound).take (4 * size)).map Event.atInstant := by
    rw [list_first_page db workspaceID inbound (by omega),
      show ((size : ℤ) * 4).toNat = 4 * size by omega]
  have hmine : (((found db workspaceID inbound).take (4 * size)).map Event.atInstant).filter
      (fun evt => passes tenantID evt.tenantID) =
        (windowed db tenantID workspaceID size).map Event.atInstant := by
    rw [filter_map]
    rfl
  unfold listInbox
  rw [parsePagination_formatInt (by omega) (by omega) (by omega) (by omega)]
  simp only [if_neg (show ¬ (200 : ℤ) < size by omega), hall, hmine, Nat.cast_succ]
  rw [cutPage_eq _ hoffset, length_map, length_map]
  simp only [pageOf, window, map_drop, map_take, map_map, Function.comp_def]

def messagesOf (db : DB) (tenantID workspaceID : String) : List Row :=
  db.rows.filter (fun r => decide (r.tenantID = tenantID) && decide (r.workspaceID = workspaceID) &&
    decide (r.kind = inbound))

/-- The inbound messages let through; an empty tenant or workspace passes all. -/
def letThrough (db : DB) (tenantID workspaceID : String) : List Row :=
  (matching db workspaceID inbound).filter (fun r => passes tenantID r.tenantID)

/-- The pages are the messages of the tenant and workspace, newest first, each of them once. -/
def InboxComplete (db : DB) (tenantID workspaceID : String) (size : ℕ) : Prop :=
  ∃ l : List Row, l.Perm (messagesOf db tenantID workspaceID) ∧
    l.Pairwise (fun a b => b.timestamp.instant ≤ a.timestamp.instant) ∧
    ∀ (clock : ℕ → ℤ) (count : ℕ), count * size < 2 ^ 63 →
      ∃ responses : List InboxResponse,
        (List.range count).map (fun index => listInbox decode db tenantID workspaceID
          (formatInt (index + 1 : ℕ)) (formatInt size) (clock index)) = responses.map some ∧
        ((responses.map InboxResponse.items).flatten).map InboxItem.id =
          (l.take (count * size)).map Event.id ∧ ∀ response ∈ responses, response.total = l.length

/-- The tenant's messages are those with fewer than four pages of messages ahead of them. -/
def WindowFits (db : DB) (tenantID workspaceID : String) (size : ℕ) : Prop :=
  ∀ r ∈ letThrough db tenantID workspaceID,
    (ahead (textKey Event.timestamp) Event.id (matching db workspaceID inbound) r < 4 * size ↔
      r.tenantID = tenantID ∧ r.workspaceID = workspaceID)

theorem passes_inbound (kind : String) : passes inbound kind = true ↔ kind = inbound := by
  rw [passes_iff]
  exact or_iff_right (by decide)

variable (r : Row)

theorem mem_messagesOf :
    r ∈ messagesOf db tenantID workspaceID ↔
      r ∈ db.rows ∧ r.tenantID = tenantID ∧ r.workspaceID = workspaceID ∧ r.kind = inbound := by
  simp only [messagesOf, mem_filter, Bool.and_eq_true, decide_eq_true_eq, and_assoc]

theorem mem_letThrough :
    r ∈ letThrough db tenantID workspaceID ↔
      r ∈ db.rows ∧ passes tenantID r.tenantID = true ∧ passes workspaceID r.workspaceID = true ∧
        r.kind = inbound := by
  simp only [letThrough, matching, mem_filter, Bool.and_eq_true, passes_inbound]
  tauto

theorem mem_windowed_iff :
    r ∈ windowed db tenantID workspaceID size ↔
      r ∈ letThrough db tenantID workspaceID ∧
        ahead (textKey Event.timestamp) Event.id (matching db workspaceID inbound) r <
          4 * size := by
  unfold windowed letThrough found
  rw [mem_filter, mem_filter]
  constructor
  · rintro ⟨htake, htenant⟩
    have hr := (mem_descending _ _ r).mp (mem_of_mem_take htake)
    exact ⟨⟨hr, htenant⟩, (mem_take_descending_iff _ Event.id (matching_ids_nodup db
      workspaceID inbound) hr _).mp htake⟩
  · rintro ⟨⟨hr, htenant⟩, hahead⟩
    exact ⟨(mem_take_descending_iff _ Event.id (matching_ids_nodup db workspaceID inbound) hr _).mpr
      hahead, htenant⟩

/-- The window is the messages of the tenant and workspace exactly when it fits. -/
theorem windowed_eq_of_fits (h : WindowFits db tenantID workspaceID size) :
    windowed db tenantID workspaceID size =
      descending (textKey Event.timestamp) (messagesOf db tenantID workspaceID) := by
  have hmine : messagesOf db tenantID workspaceID = (matching db workspaceID inbound).filter
      (fun r => decide (r.tenantID = tenantID ∧ r.workspaceID = workspaceID)) := by
    unfold messagesOf matching
    rw [filter_filter]
    refine filter_congr ?_
    intro r _
    rw [Bool.eq_iff_iff]
    simp only [Bool.and_eq_true, decide_eq_true_eq, passes_inbound]
    constructor
    · rintro ⟨⟨htenant, hworkspace⟩, hin⟩
      exact ⟨⟨htenant, hworkspace⟩, hworkspace ▸ passes_self _, hin⟩
    · rintro ⟨hmine, -, hin⟩
      exact ⟨hmine, hin⟩
  rw [hmine, ← filter_descending]
  unfold windowed found
  have hsplit := take_append_drop (4 * size)
    (descending (textKey Event.timestamp) (matching db workspaceID inbound))
  generalize hsorted : descending (textKey Event.timestamp) (matching db workspaceID inbound) = l
    at hsplit ⊢
  have hmem : ∀ r ∈ l, r ∈ matching db workspaceID inbound := by
    intro r hr
    rw [← hsorted] at hr
    exact (mem_descending _ _ r).mp hr
  have hahead : ∀ r ∈ matching db workspaceID inbound, r ∈ l.take (4 * size) ↔
      ahead (textKey Event.timestamp) Event.id (matching db workspaceID inbound) r < 4 * size := by
    intro r hr
    rw [← hsorted]
    exact mem_take_descending_iff _ Event.id (matching_ids_nodup db workspaceID inbound) hr _
  have hdisjoint : ∀ r ∈ l.drop (4 * size), r ∉ l.take (4 * size) := by
    have hnodup : (l.take (4 * size) ++ l.drop (4 * size)).Nodup := by
      rw [hsplit, ← hsorted, (descending_perm _ _).nodup_iff]
      exact List.Nodup.of_map Event.id (matching_ids_nodup db workspaceID inbound)
    intro r hdrop htake
    exact (nodup_append.mp hnodup).2.2 r htake r hdrop rfl
  have hpass : ∀ r : Row, r.tenantID = tenantID → passes tenantID r.tenantID = true := by
    intro r hr
    rw [hr]
    exact passes_self tenantID
  -- behind the window no message is the tenant's and workspace's
  have hrest : (l.drop (4 * size)).filter
      (fun r => decide (r.tenantID = tenantID ∧ r.workspaceID = workspaceID)) = [] := by
    rw [filter_eq_nil_iff]
    intro r hr hmine
    have hown := of_decide_eq_true hmine
    have hin := hmem r (mem_of_mem_drop hr)
    have hthrough : r ∈ letThrough db tenantID workspaceID :=
      mem_filter.mpr ⟨hin, hpass r hown.1⟩
    exact hdisjoint r hr ((hahead r hin).mpr ((h r hthrough).mpr hown))
  have hfirst : (l.take (4 * size)).filter (fun r => passes tenantID r.tenantID) =
      (l.take (4 * size)).filter
        (fun r => decide (r.tenantID = tenantID ∧ r.workspaceID = workspaceID)) := by
    refine filter_congr ?_
    intro r hr
    have hin := hmem r (mem_of_mem_take hr)
    rw [Bool.eq_iff_iff, decide_eq_true_eq]
    constructor
    · intro hpasses
      exact (h r (mem_filter.mpr ⟨hin, hpasses⟩)).mp ((hahead r hin).mp hr)
    · intro hown
      exact hpass r hown.1
  rw [hfirst, ← hsplit, filter_append, hsplit, hrest, append_nil]

variable (clock : ℕ → ℤ)

theorem map_listInbox_eq
    {count : ℕ} (hsize : 1 ≤ size) (hsize' : size ≤ 100) (hcount : count * size < 2 ^ 63) :
    (List.range count).map (fun index => listInbox decode db tenantID workspaceID
        (formatInt (index + 1 : ℕ)) (formatInt size) (clock index)) =
      ((List.range count).map (fun index =>
        pageOf decode db tenantID workspaceID size index (clock index))).map some := by
  rw [map_map]
  refine map_congr_left ?_
  intro index hindex
  have hle : (index + 1) * size ≤ count * size :=
    Nat.mul_le_mul_right size (mem_range.mp hindex)
  exact listInbox_eq decode db tenantID workspaceID size (clock index) hsize hsize' (by omega)

theorem ids_of_pages (count : ℕ) :
    ((((List.range count).map (fun index =>
        pageOf decode db tenantID workspaceID size index (clock index))).map
          InboxResponse.items).flatten).map InboxItem.id =
      ((windowed db tenantID workspaceID size).take (count * size)).map Event.id := by
  rw [← flatten_windows, map_flatten, map_flatten, map_map, map_map, map_map]
  congr 1
  refine map_congr_left ?_
  intro index _
  simp only [Function.comp_apply, pageOf, map_map]
  rfl

theorem length_windowed_le : (windowed db tenantID workspaceID size).length ≤ 4 * size :=
  (length_filter_le _ _).trans (length_take_le _ _)

theorem windowed_of_complete (hsize : 1 ≤ size) (hsize' : size ≤ 100)
    (h : InboxComplete decode db tenantID workspaceID size) :
    (windowed db tenantID workspaceID size).Perm (messagesOf db tenantID workspaceID) ∧
      (windowed db tenantID workspaceID size).Pairwise
        (fun a b => b.timestamp.instant ≤ a.timestamp.instant) := by
  obtain ⟨l, hperm, hnewest, hpages⟩ := h
  -- five pages hold more than the window
  obtain ⟨responses, hresponses, hids, htotals⟩ := hpages (fun _ => 0) 5 (by omega)
  rw [map_listInbox_eq decode db tenantID workspaceID size _ hsize hsize' (by omega)] at hresponses
  obtain rfl := map_injective_iff.mpr (Option.some_injective _) hresponses
  have hlength := length_windowed_le db tenantID workspaceID size
  have htotal : (windowed db tenantID workspaceID size).length = l.length :=
    htotals (pageOf decode db tenantID workspaceID size 0 0) (mem_map.mpr ⟨0, by simp, rfl⟩)
  rw [ids_of_pages, take_of_length_le (by omega), take_of_length_le (by omega)] at hids
  have hin : ∀ r ∈ windowed db tenantID workspaceID size, r ∈ db.rows := by
    intro r hr
    exact ((mem_letThrough _ _ _ r).mp ((mem_windowed_iff _ _ _ _ r).mp hr).1).1
  have heq := db.eq_of_map_key_eq l (windowed db tenantID workspaceID size)
    (fun r hr => ((mem_messagesOf _ _ _ r).mp (hperm.mem_iff.mp hr)).1) hin hids.symm
  rw [← heq]
  exact ⟨hperm, hnewest⟩

end

/-- The inbox is complete exactly when the window holds its messages and none is cut short. -/
theorem inbox_complete_iff (decode : String → InboundPayload) (db : DB)
    (tenantID workspaceID : String) (size : ℕ) (hsize : 1 ≤ size) (hsize' : size ≤ 100) :
    InboxComplete decode db tenantID workspaceID size ↔
      WindowFits db tenantID workspaceID size ∧
        NoneCutShort Event.timestamp (messagesOf db tenantID workspaceID) := by
  constructor
  · intro h
    obtain ⟨hperm, hnewest⟩ := windowed_of_complete decode db tenantID workspaceID size hsize
      hsize' h
    have hfits : WindowFits db tenantID workspaceID size := by
      intro r hr
      have hwindow := mem_windowed_iff db tenantID workspaceID size r
      rw [hperm.mem_iff, mem_messagesOf] at hwindow
      have hthrough := (mem_letThrough _ _ _ r).mp hr
      constructor
      · intro hahead
        obtain ⟨-, htenant, hworkspace, -⟩ := hwindow.mpr ⟨hr, hahead⟩
        exact ⟨htenant, hworkspace⟩
      · intro hown
        exact (hwindow.mp ⟨hthrough.1, hown.1, hown.2, hthrough.2.2.2⟩).2
    refine ⟨hfits, ?_⟩
    rw [windowed_eq_of_fits db tenantID workspaceID size hfits] at hnewest
    exact (newestFirst_text_iff Event.timestamp _).mp hnewest
  · intro hcond
    obtain ⟨hfits, hnone⟩ := hcond
    have hwindow := windowed_eq_of_fits db tenantID workspaceID size hfits
    refine ⟨windowed db tenantID workspaceID size, ?_, ?_, ?_⟩
    · rw [hwindow]
      exact descending_perm _ _
    · rw [hwindow]
      exact (newestFirst_text_iff Event.timestamp _).mpr hnone
    · intro clock count hcount
      refine ⟨_, map_listInbox_eq decode db tenantID workspaceID size clock hsize hsize'
        hcount, ids_of_pages decode db tenantID workspaceID size clock count, ?_⟩
      intro response hresponse
      obtain ⟨index, -, rfl⟩ := mem_map.mp hresponse
      rfl

def messageAt (id tenantID : String) (nanosecond : ℕ) : Row :=
  ⟨id, inbound, tenantID, "ws", "gateway", "", "", afterNoon nanosecond, "", none, 1⟩

def sharedWorkspace : DB :=
  ⟨[messageAt "a1" "a" 200000000, messageAt "b1" "b" 300000000,
    messageAt "a2" "a" 400000000], by decide⟩

theorem inbox_complete_in_window :
    InboxComplete (fun _ => ⟨"", "", "", "", ""⟩) sharedWorkspace "a" "ws" 1 := by
  refine (inbox_complete_iff _ sharedWorkspace "a" "ws" 1 (by decide) (by decide)).mpr ⟨?_, ?_⟩
  · unfold WindowFits
    decide
  · unfold NoneCutShort
    decide

def crowdedWorkspace : DB :=
  ⟨[messageAt "a1" "a" 200000000, messageAt "b1" "b" 300000000,
    messageAt "b2" "b" 400000000, messageAt "b3" "b" 500000000,
    messageAt "b4" "b" 600000000], by decide⟩

theorem inbox_misses_message :
    listInbox (fun _ => ⟨"", "", "", "", ""⟩) crowdedWorkspace "a" "ws" "1" "1" 0 =
        some ⟨[], 0, 1, 1⟩ ∧
      (messagesOf crowdedWorkspace "a" "ws").map Event.id = ["a1"] ∧
      ¬ InboxComplete (fun _ => ⟨"", "", "", "", ""⟩) crowdedWorkspace "a" "ws" 1 := by
  refine ⟨by decide, by decide, ?_⟩
  intro h
  have hperm := (windowed_of_complete _ crowdedWorkspace "a" "ws" 1 (by decide) (by decide) h).1
  have hlength := hperm.length_eq
  exact absurd hlength (by decide)

end IronGolem.InboxPages
