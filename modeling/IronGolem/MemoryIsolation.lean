import IronGolem.MemorySearch

/-!
Workspaces of the memory graph. Queries return only nodes that are stored under the workspace they
ask for. An upsert is resolved by the id alone: where the id is stored under another workspace it
overwrites that node and leaves it there, so the caller changes a foreign node and does not find
its own.
-/
namespace IronGolem.MemoryIsolation

open FirstMatch Identifiers JsonTransfer MemoryGraph MemorySearch OrderedPages List PrefixIndex
  RowTables

section

variable {T : Type} (C : Chrono T) (A : Alphabet) (fts : FullText A)

def workspaceOf : Call T → Option Uuid
  | .upsertNode node => some node.workspaceId
  | .findNodesByKind workspaceId _ => some workspaceId
  | .searchNodes workspaceId _ => some workspaceId
  | .findContradictions workspaceId => some workspaceId
  | .findStaleNodes workspaceId _ _ => some workspaceId
  | _ => none

variable (store : Store)

def returned : Call T → List (GraphNode T)
  | .findNodesByKind workspaceId kind => (findNodesByKind C store workspaceId kind).toOption.getD []
  | .searchNodes workspaceId query => (searchNodes C A fts store workspaceId query).toOption.getD []
  | .findContradictions workspaceId => (findContradictions C store workspaceId).toOption.getD []
  | .findStaleNodes workspaceId now olderThanDays =>
      ((findStaleNodes C store workspaceId now olderThanDays).bind Except.toOption).getD []
  | _ => []

def Isolated (call : Call T) : Prop :=
  ∀ workspaceId, workspaceOf call = some workspaceId →
    (∀ row ∈ store.nodes.rows, row.workspaceId ≠ toText workspaceId →
      row ∈ (apply C A store call).nodes.rows) ∧
    ∀ node ∈ returned C A fts store call, ∃ row ∈ store.nodes.rows,
      row.workspaceId = toText workspaceId ∧ rowToNode C row = .ok node

def FoundAgain : Call T → Prop
  | .upsertNode node => (upsertNode C A store node).2 = .ok () →
      ∃ nodes, findNodesByKind C (upsertNode C A store node).1 node.workspaceId node.kind =
          .ok nodes ∧ ∃ m ∈ nodes, m.id = node.id ∧ m.name = node.name
  | _ => True

def written (node : GraphNode T) : NodeRow :=
  match store.nodes.get (toText node.id) with
  | some old => overwrite C node old
  | none => toRow C (nextRowid store.nodes) node

/-- The node is refused, or its id is not another workspace's and all rows can be read. -/
def OwnId : Call T → Prop
  | .upsertNode node => node.confidence = .nan ∨
      ((∀ row ∈ store.nodes.rows, row.id = toText node.id →
          row.workspaceId = toText node.workspaceId) ∧
        (rowToNode C (written C store node)).isOk = true ∧
        ∀ row ∈ store.nodes.rows, row.id ≠ toText node.id →
          row.workspaceId = toText node.workspaceId → row.kind = node.kind.name →
            (rowToNode C row).isOk = true)
  | _ => True

theorem mem_of_readRows {rows : List NodeRow} {node : GraphNode T}
    (h : node ∈ (readRows C rows).toOption.getD []) : ∃ row ∈ rows, rowToNode C row = .ok node := by
  cases hread : readRows C rows with
  | error e =>
    rw [hread] at h
    exact absurd h not_mem_nil
  | ok nodes =>
    rw [hread] at h
    rw [readRows, mapM_eq_ok_iff] at hread
    exact forall₂_exists_left hread node h

variable (store : Store) (workspaceId : Uuid) (p : NodeRow → Bool) {row : NodeRow}

theorem mem_rowsOf_workspace (h : row ∈ rowsOf store workspaceId p) :
    row ∈ store.nodes.rows ∧ row.workspaceId = toText workspaceId := by
  obtain ⟨hrow, htest⟩ := mem_filter.mp h
  rw [Bool.and_eq_true, decide_eq_true_eq] at htest
  exact ⟨hrow, htest.1⟩

theorem mem_searchRows_workspace {rowids : List ℕ} (h : row ∈ searchRows store workspaceId rowids) :
    row ∈ store.nodes.rows ∧ row.workspaceId = toText workspaceId := by
  unfold searchRows at h
  simp only [mem_flatMap, mem_filter, Bool.and_eq_true, decide_eq_true_eq] at h
  obtain ⟨_, _, _, _, hrow, _, hworkspace⟩ := h
  exact ⟨hrow, hworkspace⟩

/-- Every query answers from rows of its workspace. -/
theorem returned_own (call : Call T) (workspaceId : Uuid)
    (hcall : workspaceOf call = some workspaceId) (node : GraphNode T)
    (h : node ∈ returned C A fts store call) :
    ∃ row ∈ store.nodes.rows, row.workspaceId = toText workspaceId ∧ rowToNode C row =
      .ok node := by
  have hown : ∀ rows : List NodeRow, (∀ row ∈ rows, row ∈ store.nodes.rows ∧
      row.workspaceId = toText workspaceId) → node ∈ (readRows C rows).toOption.getD [] →
      ∃ row ∈ store.nodes.rows, row.workspaceId = toText workspaceId ∧
        rowToNode C row = .ok node := by
    intro rows hrows hmem
    obtain ⟨row, hrow, hread⟩ := mem_of_readRows C hmem
    exact ⟨row, (hrows row hrow).1, (hrows row hrow).2, hread⟩
  cases call with
  | findStaleNodes w now olderThanDays =>
    cases hcall
    simp only [returned, findStaleNodes] at h
    cases hcutoff : C.daysBefore now olderThanDays with
    | none =>
      rw [hcutoff] at h
      exact absurd h not_mem_nil
    | some cutoff =>
      rw [hcutoff] at h
      refine hown _ ?_ h
      intro row hrow
      exact mem_rowsOf_workspace store _ _ ((mem_insertionSort _).mp hrow)
  | searchNodes w query =>
    cases hcall
    simp only [returned, searchNodes] at h
    cases hevaluate : fts.evaluate store.nodesFts (ftsQuery A query) with
    | error message =>
      rw [hevaluate] at h
      exact absurd h not_mem_nil
    | ok rowids =>
      rw [hevaluate] at h
      refine hown _ ?_ h
      intro row hrow
      exact mem_searchRows_workspace store _ hrow
  | upsertNode n => exact absurd h not_mem_nil
  | deleteNode id | addEdge edge | deleteEdge id | getNode id => cases hcall
  | _ =>
    cases hcall
    refine hown _ ?_ h
    intro row hrow
    exact mem_rowsOf_workspace store _ _ ((mem_descending _ _ row).mp hrow)

variable (node : GraphNode T)

theorem written_id : (written C store node).id = toText node.id := by
  unfold written
  cases hget : store.nodes.get (toText node.id) with
  | none => exact toRow_id C _ node
  | some old =>
    simp only [overwrite_id]
    exact store.nodes.key_of_get _ old hget

theorem upsertNode_rows (h : node.confidence ≠ .nan) :
    (upsertNode C A store node).2 = .ok () ∧
      ∀ row, row ∈ (upsertNode C A store node).1.nodes.rows ↔
        (row ∈ store.nodes.rows ∧ row.id ≠ toText node.id) ∨ row = written C store node := by
  unfold upsertNode written
  rw [if_neg h]
  cases hget : store.nodes.get (toText node.id) with
  | some old =>
    refine ⟨rfl, ?_⟩
    intro row
    have hmem := mem_update_iff C hget row
    rw [mem_append, mem_filter, mem_singleton, decide_eq_true_eq,
      store.nodes.key_of_get _ old hget] at hmem
    exact hmem
  | none =>
    have hfree : store.nodes.insert (toRow C (nextRowid store.nodes) node) ≠ none := by
      rw [Ne, Table.insert_eq_none_iff, not_not, toRow_id]
      exact hget
    obtain ⟨nodes, hinsert⟩ := Option.ne_none_iff_exists'.mp hfree
    simp only [hinsert]
    refine ⟨trivial, ?_⟩
    intro row
    rw [((store.nodes.insert_eq_some_iff nodes _).mp hinsert).2, mem_append, mem_singleton]
    have hne : row ∈ store.nodes.rows → row.id ≠ toText node.id :=
      (store.nodes.get_eq_none_iff _).mp hget row
    exact ⟨fun hrow => hrow.imp_left (fun hmem => ⟨hmem, hne hmem⟩),
      fun hrow => hrow.imp_left And.left⟩

theorem rowToNode_name (h : rowToNode C row = .ok node) : node.name = row.name := by
  simp only [rowToNode, bind_eq_ok_iff] at h
  obtain ⟨_, _, _, _, _, _, _, _, _, _, _, _, _, _, _, _, hnode⟩ := h
  cases hnode
  rfl

theorem written_columns :
    (written C store node).name = node.name ∧ (written C store node).kind = node.kind.name := by
  unfold written
  cases store.nodes.get (toText node.id) with
  | none => exact ⟨by simp [toRow], by simp [toRow]⟩
  | some old => exact ⟨by simp [overwrite, toRow], by simp [overwrite, toRow]⟩

theorem written_workspaceId_iff :
    (written C store node).workspaceId = toText node.workspaceId ↔
      ∀ row ∈ store.nodes.rows, row.id = toText node.id →
        row.workspaceId = toText node.workspaceId := by
  unfold written
  cases hget : store.nodes.get (toText node.id) with
  | none =>
    have hfree := (store.nodes.get_eq_none_iff _).mp hget
    refine iff_of_true (by simp [toRow]) ?_
    intro row hrow hid
    exact absurd hid (hfree row hrow)
  | some old =>
    obtain ⟨hold, hid⟩ := (store.nodes.get_eq_some_iff _ old).mp hget
    simp only [overwrite_workspaceId]
    constructor
    · intro hworkspace row hrow hrowid
      rw [store.nodes.eq_of_key_eq row old hrow hold (hrowid.trans hid.symm)]
      exact hworkspace
    · intro h
      exact h old hold hid

variable (kind : NodeKind)

theorem mem_kindRows (row : NodeRow) :
    row ∈ descending (fun row => row.updatedAt.toList)
        (rowsOf store workspaceId (fun row => row.kind = kind.name)) ↔
      row ∈ store.nodes.rows ∧ row.workspaceId = toText workspaceId ∧ row.kind = kind.name := by
  rw [mem_descending]
  exact mem_rowsOf workspaceId (fun row => row.kind = kind.name) row

theorem findNodesByKind_ok_iff :
    (∃ nodes, findNodesByKind C store workspaceId kind = .ok nodes) ↔
      ∀ row ∈ store.nodes.rows, row.workspaceId = toText workspaceId → row.kind = kind.name →
        (rowToNode C row).isOk = true := by
  simp only [findNodesByKind, readRows, mapM_eq_ok_iff]
  constructor
  · intro h row hrow hworkspace hkind
    obtain ⟨nodes, hnodes⟩ := h
    obtain ⟨node, -, hnode⟩ :=
      forall₂_exists_left hnodes.flip row ((mem_kindRows _ _ _ row).mpr ⟨hrow, hworkspace, hkind⟩)
    exact (isOk_iff _).mpr ⟨node, hnode⟩
  · intro h
    apply exists_forall₂
    intro row hrow
    obtain ⟨hstored, hworkspace, hkind⟩ := (mem_kindRows _ _ _ row).mp hrow
    exact (isOk_iff _).mp (h row hstored hworkspace hkind)

theorem mem_findNodesByKind_iff {kind : NodeKind}
    {nodes : List (GraphNode T)} (h : findNodesByKind C store workspaceId kind = .ok nodes)
    (node : GraphNode T) :
    node ∈ nodes ↔ ∃ row ∈ store.nodes.rows, row.workspaceId = toText workspaceId ∧
      row.kind = kind.name ∧ rowToNode C row = .ok node := by
  rw [findNodesByKind, readRows, mapM_eq_ok_iff] at h
  constructor
  · intro hnode
    obtain ⟨row, hrow, hread⟩ := forall₂_exists_left h node hnode
    obtain ⟨hstored, hworkspace, hkind⟩ := (mem_kindRows _ _ _ row).mp hrow
    exact ⟨row, hstored, hworkspace, hkind, hread⟩
  · intro hrow
    obtain ⟨row, hstored, hworkspace, hkind, hread⟩ := hrow
    obtain ⟨node', hnode', hread'⟩ :=
      forall₂_exists_left h.flip row ((mem_kindRows _ _ _ row).mpr ⟨hstored, hworkspace, hkind⟩)
    have hsame : Except.ok node = Except.ok node' := hread.symm.trans hread'
    rw [Except.ok.inj hsame]
    exact hnode'

theorem upsert_keeps_others (hown : ∀ row ∈ store.nodes.rows, row.id = toText node.id →
      row.workspaceId = toText node.workspaceId) (hrow : row ∈ store.nodes.rows)
    (hother : row.workspaceId ≠ toText node.workspaceId) :
    row ∈ (upsertNode C A store node).1.nodes.rows := by
  by_cases hnan : node.confidence = .nan
  · rw [upsertNode, if_pos hnan]
    exact hrow
  · refine ((upsertNode_rows C A store node hnan).2 row).mpr (.inl ⟨hrow, ?_⟩)
    exact fun hid => hother (hown row hrow hid)

/-- An upserted node is found again if its row is in its workspace and all rows there can be read.
-/
theorem foundAgain_iff (hsound : Sound A store) {node : GraphNode T}
    (hnan : node.confidence ≠ .nan) :
    FoundAgain C A store (.upsertNode node) ↔
      (∀ row ∈ store.nodes.rows, row.id = toText node.id →
          row.workspaceId = toText node.workspaceId) ∧
        (rowToNode C (written C store node)).isOk = true ∧
        ∀ row ∈ store.nodes.rows, row.id ≠ toText node.id →
          row.workspaceId = toText node.workspaceId → row.kind = node.kind.name →
            (rowToNode C row).isOk = true := by
  obtain ⟨hok, hrows⟩ := upsertNode_rows C A store node hnan
  have hafter : Sound A (upsertNode C A store node).1 :=
    sound_apply C A hsound (.upsertNode node)
  obtain ⟨hname, hkind⟩ := written_columns C store node
  have hwritten := (hrows (written C store node)).mpr (.inr rfl)
  constructor
  · intro h
    obtain ⟨nodes, hfind, m, hm, hid, -⟩ := h hok
    obtain ⟨row, hrow, hworkspace, -, hread⟩ :=
      (mem_findNodesByKind_iff C _ _ hfind m).mp hm
    -- the row found is the one that was written
    have hrowid : row.id = toText node.id := by
      obtain ⟨id, hcanonical⟩ := hafter.ids row hrow
      have hparse := rowToNode_id C hread
      rw [hcanonical, parseStr_toText, hid] at hparse
      rw [hcanonical, Except.ok.inj hparse]
    have hsame : row = written C store node := by
      rcases (hrows row).mp hrow with ⟨_, hne⟩ | heq
      · exact absurd hrowid hne
      · exact heq
    rw [hsame] at hworkspace
    have hall := (findNodesByKind_ok_iff C _ _ _).mp ⟨nodes, hfind⟩
    refine ⟨(written_workspaceId_iff C store node).mp hworkspace,
      hall _ hwritten hworkspace hkind, ?_⟩
    intro other hother hne
    exact hall other ((hrows other).mpr (.inl ⟨hother, hne⟩))
  · intro ⟨hown, hread, hothers⟩ _
    have hworkspace := (written_workspaceId_iff C store node).mpr hown
    have hall : ∀ row ∈ (upsertNode C A store node).1.nodes.rows,
        row.workspaceId = toText node.workspaceId → row.kind = node.kind.name →
          (rowToNode C row).isOk = true := by
      intro row hrow
      rcases (hrows row).mp hrow with ⟨hstored, hne⟩ | heq
      · exact hothers row hstored hne
      · rw [heq]
        exact fun _ _ => hread
    obtain ⟨nodes, hfind⟩ := (findNodesByKind_ok_iff C _ _ _).mpr hall
    obtain ⟨m, hm⟩ := (isOk_iff _).mp hread
    refine ⟨nodes, hfind, m, ?_, ?_, ?_⟩
    · exact (mem_findNodesByKind_iff C _ _ hfind m).mpr ⟨_, hwritten, hworkspace, hkind, hm⟩
    · have hparse := rowToNode_id C hm
      rw [written_id, parseStr_toText] at hparse
      exact (Except.ok.inj hparse).symm
    · rw [rowToNode_name C m hm, hname]

/-- Calls leave other workspaces alone and find what they stored exactly if an upsert names an id of
its own workspace or a new one, and the rows that are read back can be read. -/
theorem isolated_iff_ownId (calls : List (Call T)) (call : Call T) :
    (Isolated C A fts (run C A calls) call ∧ FoundAgain C A (run C A calls) call) ↔
      OwnId C (run C A calls) call := by
  have hsound := sound_run C A calls
  have hreturned := returned_own C A fts (run C A calls) call
  cases call with
  | upsertNode node =>
    by_cases hnan : node.confidence = .nan
    · refine iff_of_true ⟨?_, ?_⟩ (.inl hnan)
      · intro workspaceId hcall
        refine ⟨?_, hreturned workspaceId hcall⟩
        intro row hrow _
        rw [apply, upsertNode, if_pos hnan]
        exact hrow
      · intro hok
        rw [upsertNode, if_pos hnan] at hok
        cases hok
    · have hfound := foundAgain_iff C A (run C A calls) hsound hnan
      constructor
      · intro hboth
        exact .inr (hfound.mp hboth.2)
      · intro hown
        have hown := hown.resolve_left hnan
        refine ⟨?_, hfound.mpr hown⟩
        intro workspaceId hcall
        refine ⟨?_, hreturned workspaceId hcall⟩
        intro row hrow hother
        rw [← Option.some.inj hcall] at hother
        exact upsert_keeps_others C A _ node hown.1 hrow hother
  | deleteNode id | addEdge edge | deleteEdge id | getNode id =>
    exact iff_of_true ⟨fun v hcall => (by cases hcall), trivial⟩ trivial
  | _ =>
    exact iff_of_true ⟨fun v hcall => ⟨fun _ h _ => h, hreturned v hcall⟩, trivial⟩ trivial

end

def malloryNode : GraphNode String :=
  { aliceNode with workspaceId := 8, name := "Mallory" }

def namesOfKind (calls : List (Call String)) (workspaceId : Uuid) : Option (List String) :=
  (findNodesByKind textTimes (run textTimes ascii calls) workspaceId .person).toOption.map
    (fun nodes => nodes.map GraphNode.name)

/-- An upsert for workspace 8 renames the node of workspace 7 and is not found in its own. -/
theorem upsert_renames_foreign_node :
    namesOfKind [.upsertNode aliceNode] 7 = some ["Alice Smith"] ∧
      namesOfKind [.upsertNode aliceNode, .upsertNode malloryNode] 7 = some ["Mallory"] ∧
      namesOfKind [.upsertNode aliceNode, .upsertNode malloryNode] 8 = some [] := by
  decide +kernel

end IronGolem.MemoryIsolation
