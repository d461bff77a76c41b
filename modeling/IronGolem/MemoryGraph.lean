import IronGolem.OrderedPages
import IronGolem.PrefixIndex
import IronGolem.RuntimeMessages

/-!
The memory graph in its database: the tables of nodes and edges, and the full-text index that
triggers keep up to date. A node is inserted or, if its id is taken, overwritten in all columns but
the workspace and the creation time.
-/
namespace IronGolem.MemoryGraph

open Identifiers JsonValues JsonTransfer OrderedPages PlanGraph PrefixIndex RowTables
  RuntimeMessages

inductive NodeKind
  | person | topic | source | task | preference | claim | organization
  deriving DecidableEq

def NodeKind.name : NodeKind → String
  | .person => "person"
  | .topic => "topic"
  | .source => "source"
  | .task => "task"
  | .preference => "preference"
  | .claim => "claim"
  | .organization => "organization"

def NodeKind.variants : List NodeKind :=
  [.person, .topic, .source, .task, .preference, .claim, .organization]

inductive EdgeKind
  | relatedTo | supports | contradicts | learnedFrom | assignedTo | belongsTo | subtopicOf
  | citedFrom
  deriving DecidableEq

def EdgeKind.name : EdgeKind → String
  | .relatedTo => "related_to"
  | .supports => "supports"
  | .contradicts => "contradicts"
  | .learnedFrom => "learned_from"
  | .assignedTo => "assigned_to"
  | .belongsTo => "belongs_to"
  | .subtopicOf => "subtopic_of"
  | .citedFrom => "cited_from"

/-- A double. The database keeps an infinity, and takes a value that is no number for null. -/
inductive Double
  | finite (value : ℚ)
  | infinity (negative : Bool)
  | nan
  deriving DecidableEq

def Double.toValue : Double → Json
  | .finite value => .num value
  | .infinity _ => .null
  | .nan => .null

def asDouble : Decoder Double
  | .num value => .ok (.finite value)
  | j => invalidType "f64" j

/-- Times as they stand in columns and in JSON, and the time some days before. -/
structure Chrono (T : Type) where
  toRfc3339 : T → String
  parseFromRfc3339 : String → Except String T
  toSerde : T → String
  fromSerde : String → Except String T
  daysBefore : T → ℕ → Option T

structure Evidence (T : Type) where
  source : String
  collectedAt : T
  excerpt : Option String
  trustScore : Double

structure GraphNode (T : Type) where
  id : Uuid
  workspaceId : Uuid
  kind : NodeKind
  name : String
  description : Option String
  confidence : Double
  freshness : T
  hasContradiction : Bool
  evidence : List (Evidence T)
  metadata : Json
  createdAt : T
  updatedAt : T

structure Edge (T : Type) where
  id : Uuid
  sourceId : Uuid
  targetId : Uuid
  kind : EdgeKind
  weight : Double
  metadata : Json
  createdAt : T

/-- The columns of a node; JSON texts are kept as the values that they spell. -/
structure NodeRow where
  rowid : ℕ
  id : String
  workspaceId : String
  kind : String
  name : String
  description : Option String
  confidence : Double
  freshness : String
  hasContradiction : Bool
  evidence : Json
  metadata : Json
  createdAt : String
  updatedAt : String

structure EdgeRow where
  id : String
  sourceId : String
  targetId : String
  kind : String
  weight : Double
  metadata : Json
  createdAt : String

structure Store where
  nodes : Table NodeRow.id
  edges : Table EdgeRow.id
  nodesFts : Index

def Store.empty : Store := ⟨Table.empty, Table.empty, []⟩

def NodeRow.document (row : NodeRow) : Document := ⟨row.rowid, [row.id, row.name]⟩

section

variable {T : Type} (C : Chrono T) (A : Alphabet) (fts : FullText A)

def evidenceToValue (e : Evidence T) : Json :=
  .obj [("source", .str e.source), ("collected_at", .str (C.toSerde e.collectedAt)),
    ("excerpt", ofOption .str e.excerpt), ("trust_score", e.trustScore.toValue)]

def asTime : Decoder T
  | .str text => C.fromSerde text
  | j => invalidType "an RFC 3339 formatted date and time string" j

def evidenceFromValue : Decoder (Evidence T) := fun j => do
  let fields ← asFields "struct Evidence" j
  let source ← requiredField asString "source" fields
  let collectedAt ← requiredField (asTime C) "collected_at" fields
  let excerpt ← optionalField asString "excerpt" fields
  let trustScore ← requiredField asDouble "trust_score" fields
  return ⟨source, collectedAt, excerpt, trustScore⟩

def fromStr {α : Type} (decode : Decoder α) (j : Json) : Except String α :=
  if readable numberInRange nestingLimit j then decode j
  else .error "recursion limit exceeded or number out of range"

def conversionFailure (message : String) : Error :=
  .database ("Conversion error from type Text at index: 0, " ++ message)

def rowToNode (row : NodeRow) : Except Error (GraphNode T) := do
  let id ← (parseStr row.id).mapError conversionFailure
  let workspaceId ← (parseStr row.workspaceId).mapError conversionFailure
  let kind ← (asEnum NodeKind.name NodeKind.variants (.str row.kind)).mapError conversionFailure
  let freshness ← (C.parseFromRfc3339 row.freshness).mapError conversionFailure
  let evidence ← (fromStr (asList (evidenceFromValue C)) row.evidence).mapError conversionFailure
  let metadata ← (fromStr Except.ok row.metadata).mapError conversionFailure
  let createdAt ← (C.parseFromRfc3339 row.createdAt).mapError conversionFailure
  let updatedAt ← (C.parseFromRfc3339 row.updatedAt).mapError conversionFailure
  return ⟨id, workspaceId, kind, row.name, row.description, row.confidence, freshness,
    row.hasContradiction, evidence, metadata, createdAt, updatedAt⟩

/-- The row that a node is inserted as. -/
def toRow (rowid : ℕ) (node : GraphNode T) : NodeRow where
  rowid := rowid
  id := toText node.id
  workspaceId := toText node.workspaceId
  kind := node.kind.name
  name := node.name
  description := node.description
  confidence := node.confidence
  freshness := C.toRfc3339 node.freshness
  hasContradiction := node.hasContradiction
  evidence := .arr (node.evidence.map (evidenceToValue C))
  metadata := node.metadata
  createdAt := C.toRfc3339 node.createdAt
  updatedAt := C.toRfc3339 node.updatedAt

/-- `ON CONFLICT(id) DO UPDATE`: the columns that are not set keep their values. -/
def overwrite (node : GraphNode T) (old : NodeRow) : NodeRow :=
  { toRow C old.rowid node with
    id := old.id, workspaceId := old.workspaceId, createdAt := old.createdAt }

variable (node : GraphNode T) (old : NodeRow)

theorem overwrite_id : (overwrite C node old).id = old.id := by
  unfold overwrite
  rfl

theorem overwrite_rowid : (overwrite C node old).rowid = old.rowid := by
  unfold overwrite toRow
  rfl

theorem overwrite_workspaceId : (overwrite C node old).workspaceId = old.workspaceId := by
  unfold overwrite
  rfl

theorem toRow_id (rowid : ℕ) (node : GraphNode T) : (toRow C rowid node).id = toText node.id := by
  rfl

def nextRowid (nodes : Table NodeRow.id) : ℕ := (nodes.rows.map NodeRow.rowid).foldr max 0 + 1

variable (store : Store)

/-- The changed node is taken out of the index with its old columns and put in with its new. -/
def upsertNode (node : GraphNode T) : Store × Except Error Unit :=
  if node.confidence = .nan then
    (store, .error (.database "NOT NULL constraint failed: nodes.confidence"))
  else
    match store.nodes.get (toText node.id) with
    | some old =>
        ({ store with
            nodes := store.nodes.update (fun r => decide (r.id = toText node.id))
              (overwrite C node) (overwrite_id C node)
            nodesFts := add A (remove A store.nodesFts old.document)
              (overwrite C node old).document }, .ok ())
    | none =>
        match store.nodes.insert (toRow C (nextRowid store.nodes) node) with
        | some nodes =>
            ({ store with
                nodes := nodes
                nodesFts := add A store.nodesFts
                  (toRow C (nextRowid store.nodes) node).document }, .ok ())
        | none => (store, .error (.database "UNIQUE constraint failed: nodes.id"))

variable (id : Uuid)

def deleteNode : Store where
  nodes := store.nodes.delete (fun r => decide (r.id = toText id))
  edges := store.edges.delete (fun e => decide (e.sourceId = toText id ∨ e.targetId = toText id))
  nodesFts :=
    match store.nodes.get (toText id) with
    | some old => remove A store.nodesFts old.document
    | none => store.nodesFts

def edgeToRow (edge : Edge T) : EdgeRow where
  id := toText edge.id
  sourceId := toText edge.sourceId
  targetId := toText edge.targetId
  kind := edge.kind.name
  weight := edge.weight
  metadata := edge.metadata
  createdAt := C.toRfc3339 edge.createdAt

def addEdge (edge : Edge T) : Store × Except Error Unit :=
  if edge.weight = .nan then
    (store, .error (.database "NOT NULL constraint failed: edges.weight"))
  else
    match store.edges.insert (edgeToRow C edge) with
    | none => (store, .error (.database "UNIQUE constraint failed: edges.id"))
    | some edges =>
        if (store.nodes.get (toText edge.sourceId)).isSome ∧
            (store.nodes.get (toText edge.targetId)).isSome then
          ({ store with edges := edges }, .ok ())
        else (store, .error (.database "FOREIGN KEY constraint failed"))

def deleteEdge : Store :=
  { store with edges := store.edges.delete (fun e => decide (e.id = toText id)) }

def readRows (rows : List NodeRow) : Except Error (List (GraphNode T)) := rows.mapM (rowToNode C)

variable (workspaceId : Uuid)

def rowsOf (p : NodeRow → Bool) : List NodeRow :=
  store.nodes.rows.filter (fun row => row.workspaceId = toText workspaceId && p row)

def findNodesByKind (kind : NodeKind) :
    Except Error (List (GraphNode T)) :=
  readRows C (descending (fun row => row.updatedAt.toList)
    (rowsOf store workspaceId (fun row => row.kind = kind.name)))

def findContradictions : Except Error (List (GraphNode T)) :=
  readRows C (descending (fun row => row.updatedAt.toList)
    (rowsOf store workspaceId (fun row => row.hasContradiction)))

/-- The stale rows, oldest first; none if the cutoff is out of range. -/
def findStaleNodes (now : T) (olderThanDays : ℕ) :
    Option (Except Error (List (GraphNode T))) :=
  (C.daysBefore now olderThanDays).map (fun cutoff =>
    readRows C ((rowsOf store workspaceId
      (fun row => row.freshness.toList < (C.toRfc3339 cutoff).toList)).insertionSort
        (fun a b => a.freshness.toList ≤ b.freshness.toList)))

variable (query : String)

def splitWhitespace : List (List Char) :=
  (query.toList.splitOnP A.whitespace).filter (fun w => w ≠ [])

def ftsQuery : String := queryText (splitWhitespace A query)

/-- The matching rows of the index by rank, each joined with the node of the same id. -/
def searchRows (rowids : List ℕ) : List NodeRow :=
  rowids.flatMap (fun rowid =>
    (store.nodes.rows.filter (fun f => f.rowid = rowid)).flatMap (fun f =>
      store.nodes.rows.filter (fun n => n.id = f.id && n.workspaceId = toText workspaceId)))

def searchNodes :
    Except Error (List (GraphNode T)) :=
  match fts.evaluate store.nodesFts (ftsQuery A query) with
  | .error message => .error (.database message)
  | .ok rowids => readRows C (searchRows store workspaceId rowids)

/-- The calls of the store; those that only read carry the workspace they read for. -/
inductive Call (T : Type)
  | upsertNode (node : GraphNode T)
  | deleteNode (id : Uuid)
  | addEdge (edge : Edge T)
  | deleteEdge (id : Uuid)
  | getNode (id : Uuid)
  | findNodesByKind (workspaceId : Uuid) (kind : NodeKind)
  | searchNodes (workspaceId : Uuid) (query : String)
  | findContradictions (workspaceId : Uuid)
  | findStaleNodes (workspaceId : Uuid) (now : T) (olderThanDays : ℕ)

def apply : Call T → Store
  | .upsertNode node => (upsertNode C A store node).1
  | .deleteNode id => deleteNode A store id
  | .addEdge edge => (addEdge C store edge).1
  | .deleteEdge id => deleteEdge store id
  | _ => store

def run (calls : List (Call T)) : Store := calls.foldl (apply C A) Store.empty

end

end IronGolem.MemoryGraph
