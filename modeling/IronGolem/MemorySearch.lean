import IronGolem.MemoryGraph

/-!
Searching the memory graph. After every run of calls the full-text index lists exactly the words of
the stored nodes, of their names and of their ids: both columns are indexed and both are searched.
-/
namespace IronGolem.MemorySearch

open List FirstMatch Identifiers JsonTransfer MemoryGraph PrefixIndex RowTables SeparatedText

section

variable {T : Type} (C : Chrono T) (A : Alphabet) (fts : FullText A)

/-- The index mirrors the table, whose rows have their own rowids and canonical ids. -/
structure Sound (store : Store) : Prop where
  rowids : (store.nodes.rows.map NodeRow.rowid).Nodup
  ids : ∀ row ∈ store.nodes.rows, ∃ id : Uuid, row.id = toText id
  mirrors : Mirrors A store.nodesFts (store.nodes.rows.map NodeRow.document)

variable {nodes : Table NodeRow.id} {row : NodeRow}

theorem rowid_lt_nextRowid (h : row ∈ nodes.rows) : row.rowid < nextRowid nodes := by
  have hle : ∀ l : List ℕ, ∀ n ∈ l, n ≤ l.foldr max 0 := by
    intro l
    induction l with
    | nil =>
      intro n hn
      exact absurd hn not_mem_nil
    | cons m l ih =>
      intro n hn
      rcases mem_cons.mp hn with heq | hmem
      · rw [heq]
        exact le_max_left _ _
      · exact (ih n hmem).trans (le_max_right _ _)
  exact Nat.lt_succ_of_le (hle _ _ (mem_map_of_mem h))

variable {store : Store} {row' : NodeRow}

theorem rowid_eq_iff (h : Sound A store)
    (hrow : row ∈ store.nodes.rows) (hrow' : row' ∈ store.nodes.rows) :
    row.rowid = row'.rowid ↔ row.id = row'.id := by
  constructor
  · intro heq
    rw [inj_on_of_nodup_map h.rowids hrow hrow' heq]
  · intro heq
    rw [store.nodes.eq_of_key_eq row row' hrow hrow' heq]

theorem documents_rowids (h : Sound A store) :
    ((store.nodes.rows.map NodeRow.document).map Document.rowid).Nodup := by
  rw [map_map]
  exact h.rowids

variable {old : NodeRow}

theorem mirrors_without (h : Sound A store) (hold : old ∈ store.nodes.rows) :
    Mirrors A (remove A store.nodesFts old.document)
      ((store.nodes.rows.filter (fun row => row.id ≠ old.id)).map NodeRow.document) := by
  have hremoved := mirrors_remove A h.mirrors (documents_rowids A h) (mem_map_of_mem hold)
  refine mirrors_congr A hremoved ?_
  intro d
  rw [mem_filter, mem_map, mem_map]
  constructor
  · intro ⟨⟨row, hrow, hdoc⟩, hne⟩
    refine ⟨row, mem_filter.mpr ⟨hrow, decide_eq_true ?_⟩, hdoc⟩
    intro heq
    rw [← hdoc] at hne
    exact of_decide_eq_true hne ((rowid_eq_iff A h hrow hold).mpr heq)
  · intro ⟨row, hrow, hdoc⟩
    obtain ⟨hmem, hne⟩ := mem_filter.mp hrow
    refine ⟨⟨row, hmem, hdoc⟩, decide_eq_true ?_⟩
    intro heq
    rw [← hdoc] at heq
    exact of_decide_eq_true hne ((rowid_eq_iff A h hmem hold).mp heq)

variable {node : GraphNode T}

theorem mem_update_iff (hget : store.nodes.get (toText node.id) = some old) (row : NodeRow) :
    row ∈ (store.nodes.update (fun r => decide (r.id = toText node.id)) (overwrite C node)
        (overwrite_id C node)).rows ↔
      row ∈ store.nodes.rows.filter (fun r => r.id ≠ old.id) ++ [overwrite C node old] := by
  obtain ⟨hold, hid⟩ := (store.nodes.get_eq_some_iff _ old).mp hget
  unfold Table.update
  rw [mem_map, mem_append, mem_singleton, mem_filter]
  constructor
  · intro ⟨r, hr, heq⟩
    by_cases hr' : r.id = toText node.id
    · rw [if_pos (decide_eq_true hr')] at heq
      rw [store.nodes.eq_of_key_eq r old hr hold (hr'.trans hid.symm)] at heq
      exact .inr heq.symm
    · rw [if_neg (by simpa using hr')] at heq
      rw [← heq]
      exact .inl ⟨hr, decide_eq_true (fun h => hr' (h.trans hid))⟩
  · intro h
    rcases h with ⟨hr, hne⟩ | heq
    · refine ⟨row, hr, if_neg ?_⟩
      intro h
      exact of_decide_eq_true hne ((of_decide_eq_true h).trans hid.symm)
    · exact ⟨old, hold, (if_pos (decide_eq_true hid)).trans heq.symm⟩

theorem sound_update (h : Sound A store) (hget : store.nodes.get (toText node.id) = some old) :
    Sound A { store with
      nodes := store.nodes.update (fun r => decide (r.id = toText node.id)) (overwrite C node)
        (overwrite_id C node)
      nodesFts := add A (remove A store.nodesFts old.document) (overwrite C node old).document
        } := by
  have hmem := mem_update_iff C hget
  have hold := ((store.nodes.get_eq_some_iff _ old).mp hget).1
  refine ⟨?_, ?_, ?_⟩
  · -- an update keeps the rowid of every row
    have hsame : (store.nodes.update (fun r => decide (r.id = toText node.id)) (overwrite C node)
        (overwrite_id C node)).rows.map NodeRow.rowid = store.nodes.rows.map NodeRow.rowid := by
      unfold Table.update
      rw [map_map]
      apply map_congr_left
      intro r _
      rw [Function.comp_apply]
      split
      · exact overwrite_rowid C node r
      · rfl
    rw [hsame]
    exact h.rowids
  · intro row hrow
    rcases mem_append.mp ((hmem row).mp hrow) with hrow | hrow
    · exact h.ids row (mem_of_mem_filter hrow)
    · rw [mem_singleton.mp hrow, overwrite_id]
      exact h.ids old hold
  · refine mirrors_congr A (mirrors_add A (mirrors_without A h hold)
      (overwrite C node old).document) ?_
    intro d
    rw [← map_singleton, ← map_append, mem_map, mem_map]
    simp [hmem]

theorem sound_insert (h : Sound A store)
    (hinsert : store.nodes.insert (toRow C (nextRowid store.nodes) node) = some nodes) :
    Sound A { store with
      nodes := nodes
      nodesFts := add A store.nodesFts (toRow C (nextRowid store.nodes) node).document } := by
  have hrows := ((store.nodes.insert_eq_some_iff nodes _).mp hinsert).2
  refine ⟨?_, ?_, ?_⟩
  · rw [hrows, map_append, nodup_append]
    refine ⟨h.rowids, nodup_singleton _, ?_⟩
    intro a ha b hb heq
    obtain ⟨row, hrow, hrowid⟩ := mem_map.mp ha
    rw [map_singleton, mem_singleton] at hb
    have hlt := rowid_lt_nextRowid hrow
    rw [hrowid, heq, hb] at hlt
    exact lt_irrefl _ hlt
  · intro row hrow
    rw [hrows] at hrow
    rcases mem_append.mp hrow with hrow | hrow
    · exact h.ids row hrow
    · rw [mem_singleton.mp hrow]
      exact ⟨node.id, toRow_id C _ node⟩
  · show Mirrors A _ (nodes.rows.map NodeRow.document)
    rw [hrows, map_append]
    exact mirrors_add A h.mirrors _

theorem sound_deleteNode (h : Sound A store) (id : Uuid) : Sound A (deleteNode A store id) := by
  have hrowids : ((deleteNode A store id).nodes.rows.map NodeRow.rowid).Nodup :=
    (filter_sublist.map NodeRow.rowid).nodup h.rowids
  refine ⟨hrowids, fun row hrow => h.ids row (mem_of_mem_filter hrow), ?_⟩
  unfold deleteNode Table.delete
  cases hget : store.nodes.get (toText id) with
  | none =>
    have hall : store.nodes.rows.filter (fun r => !decide (r.id = toText id)) =
        store.nodes.rows := by
      rw [filter_eq_self]
      intro row hrow
      have hne := (store.nodes.get_eq_none_iff _).mp hget row hrow
      simp [hne]
    simp only [hall]
    exact h.mirrors
  | some old =>
    obtain ⟨hold, hid⟩ := (store.nodes.get_eq_some_iff _ old).mp hget
    have hmirrors := mirrors_without A h hold
    simp only [← hid]
    simpa using hmirrors

theorem sound_apply (h : Sound A store) (call : Call T) : Sound A (apply C A store call) := by
  cases call with
  | upsertNode node =>
    simp only [apply, upsertNode]
    split
    · exact h
    · split
      · rename_i old hget
        exact sound_update C A h hget
      · split
        · rename_i nodes hinsert
          exact sound_insert C A h hinsert
        · exact h
  | deleteNode id => exact sound_deleteNode A h id
  | addEdge edge =>
    have hsame : (addEdge C store edge).1.nodes = store.nodes ∧
        (addEdge C store edge).1.nodesFts = store.nodesFts := by
      unfold addEdge
      split
      · exact ⟨rfl, rfl⟩
      · split
        · exact ⟨rfl, rfl⟩
        · split <;> exact ⟨rfl, rfl⟩
    refine ⟨?_, ?_, ?_⟩
    · rw [apply, hsame.1]
      exact h.rowids
    · rw [apply, hsame.1]
      exact h.ids
    · rw [apply, hsame.1, hsame.2]
      exact h.mirrors
  | deleteEdge id => exact ⟨h.rowids, h.ids, h.mirrors⟩
  | _ => exact h

theorem sound_run (calls : List (Call T)) : Sound A (run C A calls) := by
  induction calls using reverseRecOn with
  | nil =>
    refine ⟨nodup_nil, ?_, mirrors_nil A⟩
    intro row hrow
    exact absurd hrow not_mem_nil
  | append_singleton calls call ih =>
    rw [run, foldl_append]
    exact sound_apply C A ih call

theorem mem_joined (h : Sound A store) (workspaceId : Uuid) (rowid : ℕ) (row : NodeRow) :
    row ∈ (store.nodes.rows.filter (fun f => f.rowid = rowid)).flatMap (fun f =>
        store.nodes.rows.filter (fun n => n.id = f.id && n.workspaceId = toText workspaceId)) ↔
      row ∈ store.nodes.rows ∧ row.rowid = rowid ∧ row.workspaceId = toText workspaceId := by
  simp only [mem_flatMap, mem_filter, Bool.and_eq_true, decide_eq_true_eq]
  constructor
  · intro ⟨f, ⟨hf, hrowid⟩, hrow, hid, hworkspace⟩
    exact ⟨hrow, ((rowid_eq_iff A h hrow hf).mpr hid).trans hrowid, hworkspace⟩
  · intro ⟨hrow, hrowid, hworkspace⟩
    exact ⟨row, ⟨hrow, hrowid⟩, hrow, rfl, hworkspace⟩

variable (workspaceId : Uuid)

theorem nodup_joined (rowid : ℕ) :
    ((store.nodes.rows.filter (fun f => f.rowid = rowid)).flatMap (fun f =>
      store.nodes.rows.filter (fun n => n.id = f.id && n.workspaceId =
        toText workspaceId))).Nodup := by
  have hrows : store.nodes.rows.Nodup := List.Nodup.of_map NodeRow.id store.nodes.nodup
  rw [nodup_flatMap]
  refine ⟨fun f _ => hrows.filter _, ?_⟩
  have hids : (store.nodes.rows.filter (fun f => f.rowid = rowid)).Pairwise
      (fun f g => f.id ≠ g.id) := (pairwise_map.mp store.nodes.nodup).filter _
  refine hids.imp ?_
  intro f g hne row hf hg
  simp only [mem_filter, Bool.and_eq_true, decide_eq_true_eq] at hf hg
  exact hne (hf.2.1.symm.trans hg.2.1)

theorem searchRows_perm (h : Sound A store) (workspaceId : Uuid)
    {rowids : List ℕ} (hrowids : rowids.Nodup) :
    (searchRows store workspaceId rowids).Perm
      (rowsOf store workspaceId (fun row => row.rowid ∈ rowids)) := by
  have hrows : store.nodes.rows.Nodup := List.Nodup.of_map NodeRow.id store.nodes.nodup
  have hnodup : (searchRows store workspaceId rowids).Nodup := by
    unfold searchRows
    rw [nodup_flatMap]
    refine ⟨fun rowid _ => nodup_joined workspaceId rowid, hrowids.imp ?_⟩
    intro a b hne row ha hb
    rw [mem_joined A h] at ha hb
    exact hne (ha.2.1.symm.trans hb.2.1)
  have hwanted : (rowsOf store workspaceId (fun row => row.rowid ∈ rowids)).Nodup := hrows.filter _
  rw [perm_ext_iff_of_nodup hnodup hwanted]
  intro row
  unfold searchRows rowsOf
  rw [mem_flatMap, mem_filter]
  simp only [mem_joined A h, Bool.and_eq_true, decide_eq_true_eq]
  constructor
  · intro ⟨rowid, hmem, hrow, hrowid, hworkspace⟩
    exact ⟨hrow, hworkspace, hrowid ▸ hmem⟩
  · intro ⟨hrow, hworkspace, hmem⟩
    exact ⟨row.rowid, hmem, hrow, rfl, hworkspace⟩

def NameHas (row : NodeRow) (terms : List (List Char)) : Prop :=
  ∀ t ∈ terms, ∃ w ∈ words A row.name, t <+: w

instance (row : NodeRow) (terms : List (List Char)) : Decidable (NameHas A row terms) := by
  unfold NameHas
  infer_instance

variable {terms : List (List Char)}

theorem answers_of_nameHas (h : NameHas A row terms) : Answers A row.document terms := by
  intro t ht
  obtain ⟨w, hw, hleading⟩ := h t ht
  exact ⟨row.name, by simp [NodeRow.document], w, hw, hleading⟩

variable {query : String}

theorem searchNodes_eq (h : Sound A store) (workspaceId : Uuid)
    (hplain : ∀ t ∈ splitWhitespace A query, PlainTerm A t)
      (hterms : splitWhitespace A query ≠ []) :
    ∃ rows, searchNodes C A fts store workspaceId query = readRows C rows ∧
      rows.Perm (rowsOf store workspaceId
        (fun row => Answers A row.document (splitWhitespace A query))) := by
  obtain ⟨rowids, hevaluate, hnodup, hfound⟩ :=
    fts.evaluate_terms store.nodesFts (splitWhitespace A query) hterms hplain
  refine ⟨searchRows store workspaceId rowids, ?_, ?_⟩
  · simp [searchNodes, ftsQuery, hevaluate]
  · refine (searchRows_perm A h workspaceId hnodup).trans (List.Perm.of_eq ?_)
    apply filter_congr
    intro row hrow
    have hiff := found_iff A h.mirrors (documents_rowids A h)
      (mem_map_of_mem hrow) (splitWhitespace A query)
    have hsame : row.rowid ∈ rowids ↔ Answers A row.document (splitWhitespace A query) :=
      (hfound row.rowid).trans hiff
    simp [hsame]

theorem searchNodes_empty (hterms : splitWhitespace A query = []) :
    ∃ e, searchNodes C A fts store workspaceId query = .error e := by
  obtain ⟨message, hempty⟩ := fts.evaluate_empty store.nodesFts
  have hquery : ftsQuery A query = "" := by
    rw [ftsQuery, hterms]
    rfl
  exact ⟨.database message, by simp [searchNodes, hquery, hempty]⟩

/-- The search returns the nodes of the workspace whose names have all the words, each once. -/
def SearchExact (store : Store) (workspaceId : Uuid) (query : String) : Prop :=
  ∃ rows nodes, searchNodes C A fts store workspaceId query = .ok nodes ∧
    List.Forall₂ (fun row node => rowToNode C row = .ok node) rows nodes ∧
    rows.Perm (rowsOf store workspaceId (fun row => NameHas A row (splitWhitespace A query)))

theorem rowToNode_id (h : rowToNode C row = .ok node) : parseStr row.id = .ok node.id := by
  simp only [rowToNode, bind_eq_ok_iff] at h
  obtain ⟨id, hid, _, _, _, _, _, _, _, _, _, _, _, _, _, _, hnode⟩ := h
  cases hparse : parseStr row.id with
  | error message =>
    rw [hparse] at hid
    cases hid
  | ok parsed =>
    rw [hparse] at hid
    cases hid
    cases hnode
    rfl

theorem row_eq_of_node (h : Sound A store) (hrow : row ∈ store.nodes.rows)
    (hrow' : row' ∈ store.nodes.rows)
    (hnode : rowToNode C row = .ok node) (hnode' : rowToNode C row' = .ok node) : row = row' := by
  have hid : ∀ r ∈ store.nodes.rows, rowToNode C r = .ok node → r.id = toText node.id := by
    intro r hr hok
    obtain ⟨id, heq⟩ := h.ids r hr
    have hparse := rowToNode_id C hok
    rw [heq, parseStr_toText] at hparse
    rw [heq, Except.ok.inj hparse]
  exact store.nodes.eq_of_key_eq row row' hrow hrow'
    ((hid row hrow hnode).trans (hid row' hrow' hnode').symm)

/-- No row is matched with the help of its id, and the matched ones can be read. -/
def NamesDecide (store : Store) (workspaceId : Uuid) (terms : List (List Char)) : Prop :=
  ∀ row ∈ store.nodes.rows, row.workspaceId = toText workspaceId → Answers A row.document terms →
    NameHas A row terms ∧ (rowToNode C row).isOk = true

instance (store : Store) (workspaceId : Uuid) (terms : List (List Char)) :
    Decidable (NamesDecide C A store workspaceId terms) := by
  unfold NamesDecide
  infer_instance

theorem rowsOf_eq_of_namesDecide {workspaceId : Uuid}
    (h : NamesDecide C A store workspaceId terms) :
    rowsOf store workspaceId (fun row => Answers A row.document terms) =
      rowsOf store workspaceId (fun row => NameHas A row terms) := by
  apply filter_congr
  intro row hrow
  by_cases hworkspace : row.workspaceId = toText workspaceId
  · have hiff : Answers A row.document terms ↔ NameHas A row terms :=
      ⟨fun hanswers => (h row hrow hworkspace hanswers).1, answers_of_nameHas A⟩
    simp [hiff]
  · simp [hworkspace]

theorem mem_rowsOf (p : NodeRow → Prop) [DecidablePred p]
    (row : NodeRow) : row ∈ rowsOf store workspaceId (fun r => p r) ↔
      row ∈ store.nodes.rows ∧ row.workspaceId = toText workspaceId ∧ p row := by
  unfold rowsOf
  simp

/-- A search is exact exactly if the query has a word, no node is matched through its id, and the
matched nodes can be read. -/
theorem search_exact_iff_names_decide (calls : List (Call T)) (workspaceId : Uuid) (query : String)
    (hplain : ∀ t ∈ splitWhitespace A query, PlainTerm A t) :
    SearchExact C A fts (run C A calls) workspaceId query ↔
      splitWhitespace A query ≠ [] ∧
        NamesDecide C A (run C A calls) workspaceId (splitWhitespace A query) := by
  have hsound := sound_run C A calls
  constructor
  · intro ⟨rows, nodes, hsearch, hdecoded, hperm⟩
    have hterms : splitWhitespace A query ≠ [] := by
      intro hnil
      obtain ⟨e, herror⟩ := searchNodes_empty C A fts workspaceId hnil
      rw [hsearch] at herror
      cases herror
    refine ⟨hterms, ?_⟩
    obtain ⟨found, hfound, hmatched⟩ :=
      searchNodes_eq C A fts hsound workspaceId hplain hterms
    rw [hfound, readRows, mapM_eq_ok_iff] at hsearch
    intro row hrow hworkspace hanswers
    have hmem : row ∈ found := hmatched.mem_iff.mpr
      ((mem_rowsOf _ _ row).mpr ⟨hrow, hworkspace, hanswers⟩)
    obtain ⟨node, hnode, hread⟩ := forall₂_exists_left hsearch.flip row hmem
    obtain ⟨row', hrow', hread'⟩ := forall₂_exists_left hdecoded node hnode
    obtain ⟨hstored, -, hname⟩ := (mem_rowsOf _ _ row').mp (hperm.mem_iff.mp hrow')
    have hsame := row_eq_of_node C A hsound hstored hrow hread' hread
    exact ⟨hsame ▸ hname, (isOk_iff _).mpr ⟨node, hread⟩⟩
  · intro ⟨hterms, hdecide⟩
    obtain ⟨found, hfound, hmatched⟩ :=
      searchNodes_eq C A fts hsound workspaceId hplain hterms
    have hall : ∀ row ∈ found, ∃ node, rowToNode C row = .ok node := by
      intro row hrow
      obtain ⟨hstored, hworkspace, hanswers⟩ :=
        (mem_rowsOf _ _ row).mp (hmatched.mem_iff.mp hrow)
      exact (isOk_iff _).mp (hdecide row hstored hworkspace hanswers).2
    obtain ⟨nodes, hnodes⟩ := exists_forall₂ hall
    refine ⟨found, nodes, ?_, hnodes, ?_⟩
    · rw [hfound, readRows, mapM_eq_ok_iff]
      exact hnodes
    · rw [← rowsOf_eq_of_namesDecide C A hdecide]
      exact hmatched

end

def ascii : Alphabet where
  alphanumeric := Char.isAlphanum
  whitespace := Char.isWhitespace
  fold := Char.toLower
  space_not_alphanumeric := by decide

def textTimes : Chrono String where
  toRfc3339 := id
  parseFromRfc3339 := Except.ok
  toSerde := id
  fromSerde := Except.ok
  daysBefore := fun now _ => some now

def aliceNode : GraphNode String where
  id := 0x550e8400e29b41d4a716446655440000
  workspaceId := 7
  kind := .person
  name := "Alice Smith"
  description := none
  confidence := .finite 1
  freshness := "2024-05-17T12:00:00+00:00"
  hasContradiction := false
  evidence := []
  metadata := .null
  createdAt := "2024-05-17T12:00:00+00:00"
  updatedAt := "2024-05-17T12:00:00+00:00"

theorem alice_found_by_name :
    SearchExact textTimes ascii (plainFullText ascii)
      (run textTimes ascii [.upsertNode aliceNode]) 7 "smi ali" :=
  (search_exact_iff_names_decide textTimes ascii (plainFullText ascii) [.upsertNode aliceNode] 7
    "smi ali" (by decide +kernel)).mpr (by decide +kernel)

/-- A search for the second group of an id returns a node of another name. -/
theorem alice_found_by_id :
    (searchNodes textTimes ascii (plainFullText ascii)
        (run textTimes ascii [.upsertNode aliceNode]) 7 "e29b").toOption.map
      (fun nodes => nodes.map GraphNode.name) = some ["Alice Smith"] ∧
    (rowsOf (run textTimes ascii [.upsertNode aliceNode]) 7
      (fun row => NameHas ascii row (splitWhitespace ascii "e29b"))).length = 0 := by
  decide +kernel

end IronGolem.MemorySearch
