import IronGolem.EventListings

/-!
The library store: recipes, approvals, workspaces and members, each in a table of its own. A save
is resolved by the id alone and never rewrites the tenant, so a save of an id that another tenant
has stored changes that tenant's record and leaves the caller without one.
-/

namespace IronGolem.LibraryStore

open EventStore OrderedPages Rfc3339 RowTables TimestampOrder Option

/-- How times and configurations are stored; a text that is no time is read as the zero time. -/
structure Formats (τ γ : Type) where
  format : τ → String
  instant : τ → ℤ
  parse : String → ℤ
  marshal : γ → Option String
  unmarshal : String → γ
  noConfig : γ

/-- A recipe with its times and its configuration in some form. -/
structure Recipe (τ γ : Type) where
  id : String
  tenantID : String
  workspaceID : String
  name : String
  description : String
  safetySummary : String
  squadKind : String
  status : String
  triggerConfig : γ
  createdBy : String
  createdAt : τ
  updatedAt : τ

structure ApprovalRequest (τ : Type) where
  id : String
  recipeID : String
  stepID : String
  description : String
  riskLevel : String
  status : String
  tenantID : String
  workspaceID : String
  requestedAt : τ
  respondedAt : Option τ
  respondedBy : String
  reason : String

/-- A workspace; the table holds a number for the flag. -/
structure Workspace (τ δ : Type) where
  id : String
  tenantID : String
  name : String
  createdAt : τ
  updatedAt : τ
  disabled : δ

structure User (τ δ : Type) where
  id : String
  tenantID : String
  workspaceID : String
  email : String
  displayName : String
  role : String
  createdAt : τ
  lastSeenAt : τ
  disabled : δ

/-- `α` is saved, `ρ` a row, `β` is listed; an upsert keeps the tenant of the old row. -/
structure Kind (α ρ β : Type) where
  id : ρ → String
  tenant : ρ → String
  toRow : α → Option ρ
  merge : ρ → ρ → ρ
  scan : ρ → β
  selects : String → ρ → Bool
  order : List ρ → List ρ := fun l => l
  recordID : α → String
  tenantID : α → String
  workspaceID : α → String
  seen : α → β
  seenID : β → String
  merge_id : ∀ row old, id (merge row old) = id old := by intros; rfl
  merge_tenant : ∀ row old, tenant (merge row old) = tenant old := by intros; rfl
  toRow_own : ∀ a row, toRow a = some row → id row = recordID a := by rintro a row ⟨⟩; rfl
  scan_id : ∀ row, seenID (scan row) = id row := by intros; rfl
  seen_id : ∀ a, seenID (seen a) = recordID a := by intros; rfl
  mem_order : ∀ l row, row ∈ order l ↔ row ∈ l := by intros; rfl

namespace Kind

variable {α ρ β : Type} (K : Kind α ρ β)

def save (t : Table K.id) (a : α) : Table K.id × Bool :=
  match K.toRow a with
  | none => (t, false)
  | some row => (t.upsert K.merge K.merge_id row, true)

def list (t : Table K.id) (tenantID workspaceID : String) : List β :=
  (K.order (t.rows.filter (fun row =>
    decide (K.tenant row = tenantID) && K.selects workspaceID row))).map K.scan

/-- The save changes no list of another tenant, and its record is in the list of its own. -/
def Inside (t : Table K.id) (a : α) : Prop :=
  (∀ tenantID, tenantID ≠ K.tenantID a → ∀ workspaceID,
    K.list (K.save t a).1 tenantID workspaceID = K.list t tenantID workspaceID) ∧
  ((K.save t a).2 = true → K.seen a ∈ K.list (K.save t a).1 (K.tenantID a) (K.workspaceID a))

variable (t : Table K.id)

theorem mem_list_iff (tenantID workspaceID : String) (b : β) :
    b ∈ K.list t tenantID workspaceID ↔ ∃ row ∈ t.rows,
      K.tenant row = tenantID ∧ K.selects workspaceID row = true ∧ K.scan row = b := by
  simp only [list, List.mem_map, K.mem_order, List.mem_filter, Bool.and_eq_true,
    decide_eq_true_eq, and_assoc]

variable {a : α} {row : ρ}

theorem mem_list_save_iff (hrow : K.toRow a = some row) :
    K.seen a ∈ K.list (t.upsert K.merge K.merge_id row) (K.tenantID a) (K.workspaceID a) ↔
      K.tenant (t.merged K.merge row) = K.tenantID a ∧
        K.selects (K.workspaceID a) (t.merged K.merge row) = true ∧
        K.scan (t.merged K.merge row) = K.seen a := by
  rw [mem_list_iff]
  constructor
  · rintro ⟨other, hmem, hfound⟩
    rcases (t.mem_upsert_iff _ _ _ _).mp hmem with rfl | ⟨-, hid⟩
    · exact hfound
    · refine absurd ?_ hid
      rw [← K.scan_id, hfound.2.2, K.seen_id, K.toRow_own a row hrow]
  · intro hfound
    exact ⟨_, (t.mem_upsert_iff _ _ _ _).mpr (.inl rfl), hfound⟩

theorem list_upsert_of_ne {t : Table K.id}
    (hown : K.tenant (t.merged K.merge row) = K.tenantID a) (tenantID workspaceID : String)
    (hne : tenantID ≠ K.tenantID a) :
    K.list (t.upsert K.merge K.merge_id row) tenantID workspaceID =
      K.list t tenantID workspaceID := by
  unfold list
  rw [t.filter_upsert]
  · intro old hget
    rw [Table.merged, hget, elim_some, K.merge_tenant] at hown
    simp [hown, hne.symm]
  · simp [hown, hne.symm]

/-- The row that a save leaves, given the row that it finds, is read as its record. -/
def Reads (a : α) (found : Option ρ) : Prop :=
  ∀ row, K.toRow a = some row → K.tenant (found.elim row (K.merge row)) = K.tenantID a ∧
    K.selects (K.workspaceID a) (found.elim row (K.merge row)) = true ∧
    K.scan (found.elim row (K.merge row)) = K.seen a

theorem inside_iff (a : α) : K.Inside t a ↔ K.Reads a (t.get (K.recordID a)) := by
  unfold Inside save Reads
  cases hrow : K.toRow a with
  | none => simp
  | some row =>
    simp only [forall_const, some.injEq, forall_eq']
    rw [mem_list_save_iff K t hrow, ← K.toRow_own a row hrow]
    refine and_iff_right_of_imp fun hfound tenantID hne workspaceID => ?_
    exact list_upsert_of_ne K hfound.1 tenantID workspaceID hne

end Kind

section

variable {τ γ : Type} (F : Formats τ γ)

def boolToInt (b : Bool) : ℤ := if b then 1 else 0

def recipes : Kind (Recipe τ γ) (Recipe String String) (Recipe ℤ γ) where
  id := Recipe.id
  tenant := Recipe.tenantID
  toRow recipe := (F.marshal recipe.triggerConfig).map fun triggerJSON => { recipe with
    triggerConfig := triggerJSON
    createdAt := F.format recipe.createdAt
    updatedAt := F.format recipe.updatedAt }
  merge row old := { old with
    name := row.name, description := row.description, safetySummary := row.safetySummary
    squadKind := row.squadKind, status := row.status, triggerConfig := row.triggerConfig
    updatedAt := row.updatedAt }
  scan row := { row with
    triggerConfig := if row.triggerConfig = "" then F.noConfig else F.unmarshal row.triggerConfig
    createdAt := F.parse row.createdAt
    updatedAt := F.parse row.updatedAt }
  selects workspaceID row := row.workspaceID == workspaceID
  recordID := Recipe.id
  tenantID := Recipe.tenantID
  workspaceID := Recipe.workspaceID
  seen recipe := { recipe with
    createdAt := F.instant recipe.createdAt, updatedAt := F.instant recipe.updatedAt }
  seenID := Recipe.id
  toRow_own a row h := by
    obtain ⟨_, -, rfl⟩ := Option.map_eq_some_iff.mp h
    rfl

def approvals : Kind (ApprovalRequest τ) (ApprovalRequest String) (ApprovalRequest ℤ) where
  id := ApprovalRequest.id
  tenant := ApprovalRequest.tenantID
  toRow a := some { a with
    requestedAt := F.format a.requestedAt, respondedAt := a.respondedAt.map F.format }
  merge row old := { old with
    status := row.status, respondedAt := row.respondedAt, respondedBy := row.respondedBy
    reason := row.reason }
  scan row := { row with
    requestedAt := F.parse row.requestedAt, respondedAt := row.respondedAt.map F.parse }
  selects _ row := row.status == "pending"
  order := descending (fun row => row.requestedAt.toList)
  recordID := ApprovalRequest.id
  tenantID := ApprovalRequest.tenantID
  workspaceID := ApprovalRequest.workspaceID
  seen a := { a with
    requestedAt := F.instant a.requestedAt, respondedAt := a.respondedAt.map F.instant }
  seenID := ApprovalRequest.id
  mem_order l row := mem_descending _ l row

def workspaces : Kind (Workspace τ Bool) (Workspace String ℤ) (Workspace ℤ Bool) where
  id := Workspace.id
  tenant := Workspace.tenantID
  toRow ws := some { ws with
    createdAt := F.format ws.createdAt, updatedAt := F.format ws.updatedAt
    disabled := boolToInt ws.disabled }
  merge row old := { old with
    name := row.name, updatedAt := row.updatedAt, disabled := row.disabled }
  scan row := { row with
    createdAt := F.parse row.createdAt, updatedAt := F.parse row.updatedAt
    disabled := row.disabled != 0 }
  selects _ _ := true
  recordID := Workspace.id
  tenantID := Workspace.tenantID
  workspaceID := Workspace.id
  seen ws := { ws with
    createdAt := F.instant ws.createdAt, updatedAt := F.instant ws.updatedAt }
  seenID := Workspace.id

def members : Kind (User τ Bool) (User String ℤ) (User ℤ Bool) where
  id := User.id
  tenant := User.tenantID
  toRow user := some { user with
    createdAt := F.format user.createdAt, lastSeenAt := F.format user.lastSeenAt
    disabled := boolToInt user.disabled }
  merge row old := { old with
    email := row.email, displayName := row.displayName, role := row.role
    lastSeenAt := row.lastSeenAt, disabled := row.disabled }
  scan row := { row with
    createdAt := F.parse row.createdAt, lastSeenAt := F.parse row.lastSeenAt
    disabled := row.disabled != 0 }
  selects workspaceID row := row.workspaceID == workspaceID
  recordID := User.id
  tenantID := User.tenantID
  workspaceID := User.workspaceID
  seen user := { user with
    createdAt := F.instant user.createdAt, lastSeenAt := F.instant user.lastSeenAt }
  seenID := User.id

structure DB where
  recipes : Table (recipes F).id
  approvals : Table (approvals F).id
  workspaces : Table (workspaces F).id
  members : Table (members F).id

def DB.empty : DB F := ⟨Table.empty, Table.empty, Table.empty, Table.empty⟩

inductive Call (τ γ : Type) where
  | saveRecipe (recipe : Recipe τ γ)
  | saveApproval (a : ApprovalRequest τ)
  | saveWorkspace (ws : Workspace τ Bool)
  | saveMember (user : User τ Bool)

variable {F}

def saveRecipe (db : DB F) (recipe : Recipe τ γ) : DB F × Bool :=
  (((recipes F).save db.recipes recipe).map (fun t => { db with recipes := t }) id)

def saveApproval (db : DB F) (a : ApprovalRequest τ) : DB F × Bool :=
  (((approvals F).save db.approvals a).map (fun t => { db with approvals := t }) id)

def saveWorkspace (db : DB F) (ws : Workspace τ Bool) : DB F × Bool :=
  (((workspaces F).save db.workspaces ws).map (fun t => { db with workspaces := t }) id)

def saveMember (db : DB F) (user : User τ Bool) : DB F × Bool :=
  (((members F).save db.members user).map (fun t => { db with members := t }) id)

def listRecipes (db : DB F) (tenantID workspaceID : String) : List (Recipe ℤ γ) :=
  (recipes F).list db.recipes tenantID workspaceID

def listPendingApprovals (db : DB F) (tenantID : String) : List (ApprovalRequest ℤ) :=
  (approvals F).list db.approvals tenantID ""

def listWorkspaces (db : DB F) (tenantID : String) : List (Workspace ℤ Bool) :=
  (workspaces F).list db.workspaces tenantID ""

def listMembers (db : DB F) (tenantID workspaceID : String) : List (User ℤ Bool) :=
  (members F).list db.members tenantID workspaceID

def apply (db : DB F) : Call τ γ → DB F × Bool
  | .saveRecipe recipe => saveRecipe db recipe
  | .saveApproval a => saveApproval db a
  | .saveWorkspace ws => saveWorkspace db ws
  | .saveMember user => saveMember db user

def stored (F : Formats τ γ) (calls : List (Call τ γ)) : DB F :=
  calls.foldl (fun db call => (apply db call).1) (DB.empty F)

def Call.tenantID : Call τ γ → String
  | .saveRecipe recipe => recipe.tenantID
  | .saveApproval a => a.tenantID
  | .saveWorkspace ws => ws.tenantID
  | .saveMember user => user.tenantID

def Listed (db : DB F) : Call τ γ → Prop
  | .saveRecipe recipe =>
      (recipes F).seen recipe ∈ listRecipes db recipe.tenantID recipe.workspaceID
  | .saveApproval a => (approvals F).seen a ∈ listPendingApprovals db a.tenantID
  | .saveWorkspace ws => (workspaces F).seen ws ∈ listWorkspaces db ws.tenantID
  | .saveMember user => (members F).seen user ∈ listMembers db user.tenantID user.workspaceID

/-- What the lists return for a tenant is the same. -/
structure SameLists (db db' : DB F) (tenantID : String) : Prop where
  recipes : ∀ workspaceID, listRecipes db' tenantID workspaceID = listRecipes db tenantID
    workspaceID
  approvals : listPendingApprovals db' tenantID = listPendingApprovals db tenantID
  workspaces : listWorkspaces db' tenantID = listWorkspaces db tenantID
  members : ∀ workspaceID, listMembers db' tenantID workspaceID = listMembers db tenantID
    workspaceID

def StaysInside (db : DB F) (call : Call τ γ) : Prop :=
  (∀ tenantID, tenantID ≠ call.tenantID → SameLists db (apply db call).1 tenantID) ∧
    ((apply db call).2 = true → Listed (apply db call).1 call)

variable (F)

def ReadsBack (t : τ) : Prop := F.parse (F.format t) = F.instant t

/-- A row agrees with the record in what the save keeps, and is read as the record says. -/
def RecipeFits (recipe : Recipe τ γ) (found : Option (Recipe String String)) : Prop :=
  ∀ triggerJSON, F.marshal recipe.triggerConfig = some triggerJSON →
    (if triggerJSON = "" then F.noConfig else F.unmarshal triggerJSON) = recipe.triggerConfig ∧
    ReadsBack F recipe.updatedAt ∧
    match found with
    | none => ReadsBack F recipe.createdAt
    | some old => old.tenantID = recipe.tenantID ∧ old.workspaceID = recipe.workspaceID ∧
        old.createdBy = recipe.createdBy ∧ F.parse old.createdAt = F.instant recipe.createdAt

def ApprovalFits (a : ApprovalRequest τ) (found : Option (ApprovalRequest String)) : Prop :=
  a.status = "pending" ∧ (∀ t ∈ a.respondedAt, ReadsBack F t) ∧
    match found with
    | none => ReadsBack F a.requestedAt
    | some old => old.tenantID = a.tenantID ∧ old.workspaceID = a.workspaceID ∧
        old.recipeID = a.recipeID ∧ old.stepID = a.stepID ∧ old.description = a.description ∧
        old.riskLevel = a.riskLevel ∧ F.parse old.requestedAt = F.instant a.requestedAt

def WorkspaceFits (ws : Workspace τ Bool) (found : Option (Workspace String ℤ)) : Prop :=
  ReadsBack F ws.updatedAt ∧
    match found with
    | none => ReadsBack F ws.createdAt
    | some old => old.tenantID = ws.tenantID ∧ F.parse old.createdAt = F.instant ws.createdAt

def MemberFits (user : User τ Bool) (found : Option (User String ℤ)) : Prop :=
  ReadsBack F user.lastSeenAt ∧
    match found with
    | none => ReadsBack F user.createdAt
    | some old => old.tenantID = user.tenantID ∧ old.workspaceID = user.workspaceID ∧
        F.parse old.createdAt = F.instant user.createdAt

variable {F}

def Fits (db : DB F) : Call τ γ → Prop
  | .saveRecipe recipe => RecipeFits F recipe (db.recipes.get recipe.id)
  | .saveApproval a => ApprovalFits F a (db.approvals.get a.id)
  | .saveWorkspace ws => WorkspaceFits F ws (db.workspaces.get ws.id)
  | .saveMember user => MemberFits F user (db.members.get user.id)

theorem boolToInt_ne_zero (b : Bool) : (boolToInt b != 0) = b := by
  cases b <;> rfl

variable (F)

theorem map_parse_iff (t : Option τ) :
    (t.map F.format).map F.parse = t.map F.instant ↔ ∀ u ∈ t, F.parse (F.format u) =
      F.instant u := by
  cases t <;> simp

/-! The columns are compared one by one; those that the save writes are read back as they are. -/

theorem recipes_reads_iff {recipe : Recipe τ γ} {found : Option (Recipe String String)}
    (hid : ∀ old ∈ found, old.id = recipe.id) :
    (recipes F).Reads recipe found ↔ RecipeFits F recipe found := by
  simp only [Kind.Reads, recipes, map_eq_some_iff, beq_iff_eq, Recipe.mk.injEq,
    forall_exists_index, and_imp, forall_apply_eq_imp_iff₂, RecipeFits, ReadsBack]
  refine forall₂_congr fun triggerJSON _ => ?_
  cases found with
  | none =>
    simp only [elim_none, true_and]
    tauto
  | some old =>
    simp only [elim_some, hid old rfl, true_and]
    tauto

theorem approvals_reads_iff {a : ApprovalRequest τ} {found : Option (ApprovalRequest String)}
    (hid : ∀ old ∈ found, old.id = a.id) :
    (approvals F).Reads a found ↔ ApprovalFits F a found := by
  simp only [Kind.Reads, approvals, ApprovalFits, ReadsBack, some.injEq, forall_eq']
  cases found with
  | none =>
    simp only [elim_none, ApprovalRequest.mk.injEq, beq_iff_eq, true_and, map_parse_iff]
    tauto
  | some old =>
    simp only [elim_some, ApprovalRequest.mk.injEq, hid old rfl, beq_iff_eq, true_and,
      map_parse_iff]
    tauto

theorem workspaces_reads_iff {ws : Workspace τ Bool} {found : Option (Workspace String ℤ)}
    (hid : ∀ old ∈ found, old.id = ws.id) :
    (workspaces F).Reads ws found ↔ WorkspaceFits F ws found := by
  simp only [Kind.Reads, workspaces, WorkspaceFits, ReadsBack, some.injEq, forall_eq']
  cases found with
  | none =>
    simp only [elim_none, Workspace.mk.injEq, boolToInt_ne_zero, true_and]
    tauto
  | some old =>
    simp only [elim_some, Workspace.mk.injEq, hid old rfl, boolToInt_ne_zero, true_and]
    tauto

theorem members_reads_iff {user : User τ Bool} {found : Option (User String ℤ)}
    (hid : ∀ old ∈ found, old.id = user.id) :
    (members F).Reads user found ↔ MemberFits F user found := by
  simp only [Kind.Reads, members, MemberFits, ReadsBack, some.injEq, forall_eq']
  cases found with
  | none =>
    simp only [elim_none, User.mk.injEq, boolToInt_ne_zero, beq_self_eq_true, true_and]
    tauto
  | some old =>
    simp only [elim_some, hid old rfl, User.mk.injEq, boolToInt_ne_zero, beq_iff_eq, true_and]
    tauto

/-- After any sequence of saves, the next one stays inside its tenant exactly if it fits. -/
theorem save_staysInside_iff (calls : List (Call τ γ)) (call : Call τ γ) :
    StaysInside (stored F calls) call ↔ Fits (stored F calls) call := by
  generalize stored F calls = db
  cases call with
  | saveRecipe recipe =>
    have hreads := recipes_reads_iff F fun old => db.recipes.key_of_get recipe.id old
    refine Iff.trans ?_ ((Kind.inside_iff _ db.recipes recipe).trans hreads)
    constructor
    · intro h
      exact ⟨fun tenantID hne => (h.1 tenantID hne).recipes, h.2⟩
    · intro h
      exact ⟨fun tenantID hne => ⟨h.1 tenantID hne, rfl, rfl, fun _ => rfl⟩, h.2⟩
  | saveApproval a =>
    have hreads := approvals_reads_iff F fun old => db.approvals.key_of_get a.id old
    refine Iff.trans ?_ ((Kind.inside_iff _ db.approvals a).trans hreads)
    constructor
    · intro h
      exact ⟨fun tenantID hne _ => (h.1 tenantID hne).approvals, h.2⟩
    · intro h
      exact ⟨fun tenantID hne => ⟨fun _ => rfl, h.1 tenantID hne "", rfl, fun _ => rfl⟩, h.2⟩
  | saveWorkspace ws =>
    have hreads := workspaces_reads_iff F fun old => db.workspaces.key_of_get ws.id old
    refine Iff.trans ?_ ((Kind.inside_iff _ db.workspaces ws).trans hreads)
    constructor
    · intro h
      exact ⟨fun tenantID hne _ => (h.1 tenantID hne).workspaces, h.2⟩
    · intro h
      exact ⟨fun tenantID hne => ⟨fun _ => rfl, rfl, h.1 tenantID hne "", fun _ => rfl⟩, h.2⟩
  | saveMember user =>
    have hreads := members_reads_iff F fun old => db.members.key_of_get user.id old
    refine Iff.trans ?_ ((Kind.inside_iff _ db.members user).trans hreads)
    constructor
    · intro h
      exact ⟨fun tenantID hne => (h.1 tenantID hne).members, h.2⟩
    · intro h
      exact ⟨fun tenantID hne => ⟨fun _ => rfl, rfl, rfl, h.1 tenantID hne⟩, h.2⟩

end

def utcFormats : Formats UtcTime Unit where
  format := UtcTime.text
  instant := UtcTime.instant
  parse text := (parse text).toOption.getD zeroTime
  marshal _ := some "null"
  unmarshal _ := ()
  noConfig := ()

def noon : UtcTime := EventListings.afterNoon 0

/-- Tenant b saves under an id of tenant a, which renames a's workspace. -/
theorem saveWorkspace_crosses :
    let saved := stored utcFormats [.saveWorkspace ⟨"home", "a", "Home", noon, noon, false⟩]
    let call := .saveWorkspace ⟨"home", "b", "Taken", noon, noon, false⟩
    (listWorkspaces saved "a").map Workspace.name = ["Home"] ∧
      (listWorkspaces (apply saved call).1 "a").map Workspace.name = ["Taken"] ∧
      listWorkspaces (apply saved call).1 "b" = [] ∧ ¬ StaysInside saved call := by
  refine ⟨rfl, rfl, rfl, fun h => ?_⟩
  exact absurd (h.2 rfl) List.not_mem_nil

end IronGolem.LibraryStore
