import IronGolem.GatewayWire
import IronGolem.RuntimeMessages

/-!
Plans on their way from the gateway to the runtime. A plan of the gateway corresponds to a plan of
the runtime if its ids are the texts of the runtime's ids, its statuses and risk levels are the
declared constants, and its texts are the same, an empty one standing for none where the runtime
has an option. A number arrives as the runtime's parser reads it.
-/
namespace IronGolem.PlanTransfer

open Identifiers JsonValues JsonTransfer PlanSerde RuntimeMessages Rfc3339 List

def riskLevelOf : String → Option PlanGraph.RiskLevel
  | "none" => some .none
  | "low" => some .low
  | "medium" => some .medium
  | "high" => some .high
  | "critical" => some .critical
  | _ => none

def nodeStatusOf : String → Option PlanGraph.PlanNodeStatus
  | "pending" => some .pending
  | "running" => some .running
  | "waiting_approval" => some .waitingApproval
  | "completed" => some .completed
  | "failed" => some .failed
  | "skipped" => some .skipped
  | "rolled_back" => some .rolledBack
  | _ => none

def planStatusOf : String → Option PlanGraph.PlanStatus
  | "pending" => some .pending
  | "running" => some .running
  | "paused" => some .paused
  | "completed" => some .completed
  | "failed" => some .failed
  | "rolled_back" => some .rolledBack
  | _ => none

structure RiskCorresponds (g : GatewayWire.Risk) (r : PlanGraph.RiskMetadata) : Prop where
  level : riskLevelOf g.level = some r.level
  score : g.score = r.score
  categories : g.categories.getD [] = r.categories.map RiskCategory.name
  explanation : presentText g.explanation = r.explanation

/-- A kind carries the fields of its type; a missing input stands for null. -/
inductive KindCorresponds (g : GatewayWire.PlanNodeKind) : PlanGraph.PlanNodeKind → Prop where
  | toolCall (htype : g.type = "ToolCall") :
      KindCorresponds g (.toolCall g.toolName (g.input.getD .null))
  | llmCall (htype : g.type = "LlmCall") :
      KindCorresponds g (.llmCall g.prompt (presentText g.model))
  | approvalGate (htype : g.type = "ApprovalGate") :
      KindCorresponds g (.approvalGate g.descriptionField)
  | delegation (target : Uuid) (htype : g.type = "Delegation")
      (htarget : parseStr g.targetAgent = .ok target) : KindCorresponds g
        (.delegation target g.goal)
  | verify (target : Uuid) (htype : g.type = "Verify")
      (htarget : parseStr g.targetNodeID = .ok target) : KindCorresponds g (.verify target)
  | checkpoint (htype : g.type = "Checkpoint") : KindCorresponds g .checkpoint

def IdCorresponds (text : String) (id : Uuid) : Prop := parseStr text = .ok id

structure NodeCorresponds (g : GatewayWire.PlanNode) (n : PlanGraph.PlanNode) : Prop where
  id : IdCorresponds g.id n.id
  description : g.description = n.description
  kind : KindCorresponds g.kind n.kind
  status : nodeStatusOf g.status = some n.status
  dependencies : List.Forall₂ IdCorresponds (g.dependencies.getD []) n.dependencies
  risk : RiskCorresponds g.risk n.risk
  output : g.output.filter (fun j => !isNull j) = n.output
  error : presentText g.error = n.error

structure PlanCorresponds (g : GatewayWire.Plan) (p : TimedPlan) : Prop where
  id : IdCorresponds g.id p.plan.id
  description : g.description = p.plan.description
  agentID : IdCorresponds g.agentID p.plan.agentId
  nodes : List.Forall₂ NodeCorresponds (g.nodes.getD []) p.plan.nodes
  status : planStatusOf g.status = some p.plan.status
  risk : RiskCorresponds g.risk p.plan.risk
  createdAt : g.createdAt.instant = p.createdAt
  updatedAt : g.updatedAt.instant = p.updatedAt

section

variable (read : ℚ → ℚ)

def scoreArrives : PlanGraph.F64 → Bool
  | .finite value => numberInRange value && read value = value
  | .notFinite => false

def RiskArrives (g : GatewayWire.Risk) : Prop :=
  scoreArrives read g.score = true ∧ g.categories.isSome = true

/-- The numbers of a raw value are read as they were written. -/
def rawKept (raw : Option Json) : Prop := raw.map (reread read) = raw

def kindComplete (g : GatewayWire.PlanNodeKind) : Bool :=
  if g.type = "ToolCall" then g.toolName ≠ "" && g.input.isSome
  else if g.type = "LlmCall" then g.prompt ≠ ""
  else if g.type = "ApprovalGate" then g.descriptionField ≠ ""
  else if g.type = "Delegation" then g.goal ≠ ""
  else true

/-- A raw value that is present is nested within the limit and has readable numbers. -/
def rawArrives (limit : ℕ) (raw : Option Json) : Bool := raw.all (readable numberInRange limit)

structure NodeArrives (limit : ℕ) (g : GatewayWire.PlanNode) : Prop where
  kind : kindComplete g.kind = true
  input : rawArrives limit g.kind.input = true
  -- the input of another kind of node is not looked at
  inputKept : g.kind.type = "ToolCall" → rawKept read g.kind.input
  dependencies : g.dependencies.isSome = true
  risk : RiskArrives read g.risk
  output : rawArrives (limit + 1) g.output = true
  outputKept : rawKept read g.output

def TimeArrives (t : CivilTime) : Prop := t.Writable ∧ t.offset = 60 * zoneMinutes t.offset

structure PlanArrives (limit : ℕ) (g : GatewayWire.Plan) : Prop where
  nodes : g.nodes.isSome = true
  node : ∀ n ∈ g.nodes.getD [], NodeArrives read limit n
  risk : RiskArrives read g.risk
  createdAt : TimeArrives g.createdAt
  updatedAt : TimeArrives g.updatedAt

end

variable {text : String}

theorem asEnum_riskLevelOf {level : PlanGraph.RiskLevel} (h : riskLevelOf text = some level) :
    asEnum RiskLevel.name RiskLevel.variants (.str text) = .ok level := by
  have htext : text = RiskLevel.name level := by
    unfold riskLevelOf at h
    split at h <;> cases h <;> rfl
  rw [htext]
  exact asEnum_riskLevel level

theorem asEnum_nodeStatusOf {status : PlanGraph.PlanNodeStatus}
    (h : nodeStatusOf text = some status) :
    asEnum PlanNodeStatus.name PlanNodeStatus.variants (.str text) = .ok status := by
  have htext : text = PlanNodeStatus.name status := by
    unfold nodeStatusOf at h
    split at h <;> cases h <;> rfl
  rw [htext]
  exact asEnum_planNodeStatus status

theorem asEnum_planStatusOf {status : PlanGraph.PlanStatus} (h : planStatusOf text = some status) :
    asEnum PlanStatus.name PlanStatus.variants (.str text) = .ok status := by
  have htext : text = PlanStatus.name status := by
    unfold planStatusOf at h
    split at h <;> cases h <;> rfl
  rw [htext]
  exact asEnum_planStatus status

theorem ne_empty_of_id {id : Uuid} (h : IdCorresponds text id) : text ≠ "" := by
  rintro rfl
  cases h

theorem encodeSlice_texts (l : List String) :
    encodeSlice GatewayWire.marshalText (some l) = .ok (.arr (l.map .str)) := by
  have hmap : l.mapM GatewayWire.marshalText = .ok (l.map .str) := by
    rw [mapM_eq_ok_iff, forall₂_map_right_iff, forall₂_same]
    exact fun _ _ => rfl
  simp [encodeSlice, encodeList, hmap, Except.map]

variable (read : ℚ → ℚ) (limit : ℕ) (l : List String)

theorem readable_texts : readableItems numberInRange limit (l.map .str) = true := by
  rw [readableItems_iff]
  intro j hj
  obtain ⟨text, -, rfl⟩ := mem_map.mp hj
  exact readable_str _ _ _

variable {ids : List Uuid}

theorem asList_ids {texts : List String} (h : List.Forall₂ IdCorresponds texts ids) :
    asList asUuid (.arr (texts.map .str)) = .ok ids := by
  change (texts.map Json.str).mapM asUuid = .ok ids
  rw [mapM_eq_ok_iff, forall₂_map_left_iff]
  exact h

theorem asList_categories (categories : List PlanGraph.RiskCategory) :
    asList (asEnum RiskCategory.name RiskCategory.variants)
      (.arr ((categories.map RiskCategory.name).map .str)) = .ok categories := by
  change ((categories.map RiskCategory.name).map Json.str).mapM
    (asEnum RiskCategory.name RiskCategory.variants) = .ok categories
  rw [map_map, mapM_eq_ok_iff, forall₂_map_left_iff, forall₂_same]
  exact fun category _ => asEnum_riskCategory category

theorem risk_marshal (level : String) (value : ℚ) (texts : List String) (explanation : String) :
    GatewayWire.Risk.marshal ⟨level, .finite value, some texts, explanation⟩ =
      .ok (.obj (("level", .str level) :: ("score", .num value) ::
        ("categories", .arr (texts.map .str)) :: omitText "explanation" explanation)) := by
  simp [GatewayWire.Risk.marshal, GatewayWire.marshalFloat, encodeSlice_texts, bind, Except.bind,
    pure, Except.pure]

/-- The risk as it is read differs at most in its score. -/
theorem risk_decodes {level : String} {level' : PlanGraph.RiskLevel}
    (hlevel : riskLevelOf level = some level') (value : ℚ)
    (categories : List PlanGraph.RiskCategory) (explanation : String) :
    riskFromValue (reread read (.obj (("level", .str level) :: ("score", .num value) ::
      ("categories", .arr ((categories.map RiskCategory.name).map .str)) ::
        omitText "explanation" explanation))) =
          .ok ⟨level', .finite (read value), categories, presentText explanation⟩ := by
  have htext := optionalField_text "explanation" explanation
    (rereadFields read (omitText "explanation" explanation)) (by simp)
  have hlist := asList_categories categories
  rw [← rereadItems_texts read] at hlist
  simp only [reread, rereadFields]
  generalize rereadItems read _ = items at hlist ⊢
  simp [riskFromValue, asEnum_riskLevelOf hlevel, asF64, hlist, htext, bind, Except.bind, pure,
    Except.pure]

theorem risk_transfers {g : GatewayWire.Risk} {r : PlanGraph.RiskMetadata}
    (h : RiskCorresponds g r) :
    Transfers numberInRange read (limit + 2) GatewayWire.Risk.marshal riskFromValue g r ↔
      RiskArrives read g := by
  obtain ⟨level, score, categories, explanation⟩ := g
  obtain ⟨level', score', categories', explanation'⟩ := r
  obtain ⟨hlevel, hscore, hcategories, hexplanation⟩ := h
  subst hscore hexplanation
  cases score with
  | notFinite =>
    simp [Transfers, GatewayWire.Risk.marshal, GatewayWire.marshalFloat, RiskArrives,
      scoreArrives, bind, Except.bind]
  | finite value =>
    cases categories with
    | none =>
      simp [Transfers, GatewayWire.Risk.marshal, GatewayWire.marshalFloat, RiskArrives,
        encodeSlice, riskFromValue, reread, rereadFields, asEnum_riskLevelOf hlevel, asF64, asList,
        invalidType, bind, Except.bind, pure, Except.pure]
    | some texts =>
      replace hcategories : texts = categories'.map RiskCategory.name := hcategories
      subst hcategories
      have hdecode := risk_decodes read hlevel value categories' explanation
      unfold Transfers
      rw [risk_marshal]
      constructor
      · rintro ⟨j, hj, hread, hvalue⟩
        cases hj
        simp only [readable_obj, readableFields_cons, readable_num, Bool.and_eq_true] at hread
        rw [hdecode] at hvalue
        have hkept : read value = value := by simpa using hvalue
        exact ⟨by simp [scoreArrives, hread.2.1, hkept], rfl⟩
      · rintro ⟨hscore, -⟩
        have hvalue : numberInRange value = true ∧ read value = value := by
          simpa [scoreArrives] using hscore
        refine ⟨_, rfl, ?_, ?_⟩
        · simp only [readable_obj, readableFields_cons, readable_str, readable_num, hvalue.1,
            readable_arr, readable_texts, readableFields_omitText, Bool.and_self]
        · rw [hdecode, hvalue.2]

theorem kind_fields (g : GatewayWire.PlanNodeKind) :
    ∃ fields, reread read g.toValue = .obj fields ∧
    fields.lookup "type" = some (.str g.type) ∧
    fields.lookup "tool_name" = fieldText g.toolName ∧
    fields.lookup "input" = g.input.map (reread read) ∧
    fields.lookup "prompt" = fieldText g.prompt ∧ fields.lookup "model" = fieldText g.model ∧
    fields.lookup "description" = fieldText g.descriptionField ∧
    fields.lookup "target_agent" = fieldText g.targetAgent ∧
    fields.lookup "goal" = fieldText g.goal ∧
    fields.lookup "target_node_id" = fieldText g.targetNodeID := by
  refine ⟨_, rfl, ?_⟩
  simp [lookup_append, lookup_cons, reread]

theorem kind_decodes {g : GatewayWire.PlanNodeKind} {kind : PlanGraph.PlanNodeKind}
    (h : KindCorresponds g kind) :
    kindFromValue (reread read g.toValue) = .ok kind ↔
      kindComplete g = true ∧ (g.type = "ToolCall" → rawKept read g.input) := by
  obtain ⟨fields, hvalue, htag, htool, hinput, hprompt, hmodel, hdescription, hagent, hgoal,
    hnode⟩ := kind_fields read g
  rw [hvalue]
  cases h with
  | toolCall htype =>
    by_cases hname : g.toolName = ""
    · simp [kindFromValue, kindComplete, requiredField, htag, htool, htype, hname, fieldText, bind,
        Except.bind]
    · cases hraw : g.input <;>
        simp [kindFromValue, kindComplete, rawKept, requiredField, htag, htool, hinput, htype,
          hname, hraw, fieldText, bind, Except.bind, pure, Except.pure]
  | llmCall htype =>
    by_cases hname : g.prompt = ""
    · simp [kindFromValue, kindComplete, requiredField, htag, hprompt, htype, hname, fieldText,
        bind, Except.bind]
    · by_cases hempty : g.model = "" <;>
        simp [kindFromValue, kindComplete, requiredField, optionalField, htag, hprompt, hmodel,
          htype, hname, hempty, fieldText, presentText, bind, Except.bind, pure, Except.pure,
          Except.map]
  | approvalGate htype =>
    by_cases hname : g.descriptionField = "" <;>
      simp [kindFromValue, kindComplete, requiredField, htag, hdescription, htype, hname,
        fieldText, bind, Except.bind, pure, Except.pure]
  | delegation target htype htarget =>
    have hsome := ne_empty_of_id htarget
    by_cases hname : g.goal = "" <;>
      simp [kindFromValue, kindComplete, requiredField, htag, hagent, hgoal, htype, hname, hsome,
        htarget, asUuid, fieldText, bind, Except.bind, pure, Except.pure]
  | verify target htype htarget =>
    have hsome := ne_empty_of_id htarget
    simp [kindFromValue, kindComplete, requiredField, htag, hnode, htype, hsome, htarget, asUuid,
      fieldText, bind, Except.bind, pure, Except.pure]
  | checkpoint htype =>
    simp [kindFromValue, kindComplete, requiredField, htag, htype, bind, Except.bind, pure,
      Except.pure]

def nodeObject (g : GatewayWire.PlanNode) (dependencies risk : Json) : Json :=
  .obj ([("id", .str g.id), ("description", .str g.description), ("kind", g.kind.toValue),
    ("status", .str g.status), ("dependencies", dependencies), ("risk", risk)] ++
    omitRaw "output" g.output ++ omitText "error" g.error)

variable (g : GatewayWire.PlanNode) (j : Json)

theorem node_marshal_iff :
    g.marshal = .ok j ↔ ∃ dependencies risk,
      encodeSlice GatewayWire.marshalText g.dependencies = .ok dependencies ∧
        g.risk.marshal = .ok risk ∧ j = nodeObject g dependencies risk := by
  unfold GatewayWire.PlanNode.marshal
  simp only [bind_eq_ok_iff]
  constructor
  · rintro ⟨dependencies, hdeps, risk, hrisk, hj⟩
    cases hj
    exact ⟨dependencies, risk, hdeps, hrisk, rfl⟩
  · rintro ⟨dependencies, risk, hdeps, hrisk, rfl⟩
    exact ⟨dependencies, hdeps, risk, hrisk, rfl⟩

variable (dependencies : Json) (risk : Json)

theorem node_readable :
    readable numberInRange (limit + 2) (nodeObject g dependencies risk) = true ↔
      rawArrives limit g.kind.input = true ∧
      readable numberInRange (limit + 1) dependencies = true ∧
      readable numberInRange (limit + 1) risk = true ∧ rawArrives (limit + 1) g.output = true := by
  simp [nodeObject, GatewayWire.PlanNodeKind.toValue, rawArrives, rawArrives]

theorem node_fields :
    ∃ fields, reread read (nodeObject g dependencies risk) = .obj fields ∧
      fields.lookup "id" = some (.str g.id) ∧
      fields.lookup "description" = some (.str g.description) ∧
      fields.lookup "kind" = some (reread read g.kind.toValue) ∧
      fields.lookup "status" = some (.str g.status) ∧
      fields.lookup "dependencies" = some (reread read dependencies) ∧
      fields.lookup "risk" = some (reread read risk) ∧
      fields.lookup "output" = g.output.map (reread read) ∧
      fields.lookup "error" = fieldText g.error := by
  refine ⟨_, rfl, ?_⟩
  simp [lookup_append, lookup_cons, reread]

variable {n : PlanGraph.PlanNode}

theorem node_decodes_iff (h : NodeCorresponds g n) :
    nodeFromValue (reread read (nodeObject g dependencies risk)) = .ok n ↔
      kindFromValue (reread read g.kind.toValue) = .ok n.kind ∧
      asList asUuid (reread read dependencies) = .ok n.dependencies ∧
      riskFromValue (reread read risk) = .ok n.risk ∧ rawKept read g.output := by
  obtain ⟨fields, hvalue, hid, hdescription, hkind, hstatus, hdeps, hrisk, houtput, herror⟩ :=
    node_fields read g dependencies risk
  have hparse : parseStr g.id = .ok n.id := h.id
  have hraw := optionalField_raw "output" houtput
  have htext := optionalField_text "error" g.error fields herror
  have hkept := reread_present_iff read g.output
  rw [h.output] at hkept
  rw [h.error] at htext
  rw [hvalue, rawKept, ← hkept]
  obtain ⟨id, description, kind, status, deps, riskData, output, error⟩ := n
  simp only [nodeFromValue, asFields_obj, requiredField, hid, hdescription, hkind, hstatus, hdeps,
    hrisk, asUuid, hparse, asString_str, h.description, asEnum_nodeStatusOf h.status, hraw,
    htext, bind, Except.bind, pure, Except.pure]
  cases kindFromValue (reread read g.kind.toValue) with
  | error message => simp
  | ok kind' =>
    cases asList asUuid (reread read dependencies) with
    | error message => simp
    | ok deps' =>
      cases riskFromValue (reread read risk) with
      | _ => simp

theorem slice_transfers_iff {slice : Option (List String)}
    (h : List.Forall₂ IdCorresponds (slice.getD []) ids) :
    Transfers numberInRange read (limit + 1) (encodeSlice GatewayWire.marshalText) (asList asUuid)
      slice ids ↔ slice.isSome = true := by
  cases slice with
  | none => simp [Transfers, encodeSlice, reread, asList, invalidType]
  | some texts =>
    simp only [Option.isSome_some, iff_true]
    refine ⟨_, encodeSlice_texts texts, readable_texts limit texts, ?_⟩
    rw [reread, rereadItems_texts]
    exact asList_ids h

theorem node_transfers (h : NodeCorresponds g n) :
    Transfers numberInRange read (limit + 3) GatewayWire.PlanNode.marshal nodeFromValue g n ↔
      NodeArrives read (limit + 1) g := by
  have hrisk := risk_transfers read limit h.risk
  have hdeps := slice_transfers_iff read (limit + 1) h.dependencies
  constructor
  · rintro ⟨j, hj, hread, hdecode⟩
    obtain ⟨dependencies, risk, hmd, hmr, rfl⟩ := (node_marshal_iff g j).mp hj
    obtain ⟨hinput, hrd, hrr, houtput⟩ := (node_readable (limit + 1) g _ _).mp hread
    obtain ⟨hkind, hdd, hdr, hkept⟩ := (node_decodes_iff read g _ _ h).mp hdecode
    obtain ⟨hcomplete, htool⟩ := (kind_decodes read h.kind).mp hkind
    exact ⟨hcomplete, hinput, htool, hdeps.mp ⟨_, hmd, hrd, hdd⟩, hrisk.mp ⟨_, hmr, hrr, hdr⟩,
      houtput, hkept⟩
  · rintro ⟨hcomplete, hinput, htool, hsome, hgood, houtput, hkept⟩
    obtain ⟨dependencies, hmd, hrd, hdd⟩ := hdeps.mpr hsome
    obtain ⟨risk, hmr, hrr, hdr⟩ := hrisk.mpr hgood
    refine ⟨nodeObject g dependencies risk, ?_, ?_, ?_⟩
    · exact (node_marshal_iff g _).mpr ⟨_, _, hmd, hmr, rfl⟩
    · exact (node_readable (limit + 1) g _ _).mpr ⟨hinput, hrd, hrr, houtput⟩
    · exact (node_decodes_iff read g _ _ h).mpr
        ⟨(kind_decodes read h.kind).mpr ⟨hcomplete, htool⟩, hdd, hdr, hkept⟩

theorem nodes_transfer_iff {slice : Option (List GatewayWire.PlanNode)}
    {nodes : List PlanGraph.PlanNode} (h : List.Forall₂ NodeCorresponds (slice.getD []) nodes) :
    Transfers numberInRange read (limit + 4) (encodeSlice GatewayWire.PlanNode.marshal)
      (asList nodeFromValue) slice nodes ↔
        slice.isSome = true ∧ ∀ n ∈ slice.getD [], NodeArrives read (limit + 1) n := by
  cases slice with
  | none => simp [Transfers, encodeSlice, reread, asList, invalidType]
  | some l =>
    have hlist := transfers_list numberInRange read (limit + 3) GatewayWire.PlanNode.marshal
      nodeFromValue l nodes
    simp only [Option.isSome_some, true_and]
    refine Iff.trans hlist ?_
    rw [Option.getD_some] at h ⊢
    clear hlist
    induction h with
    | nil => simp
    | cons hnode hrest ih =>
      rw [forall₂_cons, ih, forall_mem_cons, node_transfers read limit _ hnode]

theorem time_transfers (t : CivilTime) :
    Transfers numberInRange read limit GatewayWire.marshalTime asDateTime t t.instant ↔
      TimeArrives t := by
  constructor
  · rintro ⟨j, hj, -, hdecode⟩
    obtain ⟨text, htext, rfl⟩ := (map_eq_ok_iff _ _ _).mp hj
    exact ⟨(writable_of_format htext).1, (parse_format_iff htext).mp hdecode⟩
  · rintro ⟨hwritable, hzone⟩
    have htext := format_of_writable hwritable
    refine ⟨.str (String.ofList t.body), ?_, readable_str _ _ _, ?_⟩
    · exact (map_eq_ok_iff _ _ _).mpr ⟨_, htext, rfl⟩
    · exact (parse_format_iff htext).mpr hzone

def planObject (g : GatewayWire.Plan) (nodes risk createdAt updatedAt : Json) : Json :=
  .obj [("id", .str g.id), ("description", .str g.description), ("agent_id", .str g.agentID),
    ("nodes", nodes), ("status", .str g.status), ("risk", risk), ("created_at", createdAt),
    ("updated_at", updatedAt)]

theorem plan_marshal_iff (g : GatewayWire.Plan) (j : Json) :
    g.marshal = .ok j ↔ ∃ nodes risk createdAt updatedAt,
      encodeSlice GatewayWire.PlanNode.marshal g.nodes = .ok nodes ∧ g.risk.marshal = .ok risk ∧
        GatewayWire.marshalTime g.createdAt = .ok createdAt ∧
        GatewayWire.marshalTime g.updatedAt = .ok updatedAt ∧
        j = planObject g nodes risk createdAt updatedAt := by
  unfold GatewayWire.Plan.marshal
  simp only [bind_eq_ok_iff]
  constructor
  · rintro ⟨nodes, hnodes, risk, hrisk, createdAt, hcreated, updatedAt, hupdated, hj⟩
    cases hj
    exact ⟨nodes, risk, createdAt, updatedAt, hnodes, hrisk, hcreated, hupdated, rfl⟩
  · rintro ⟨nodes, risk, createdAt, updatedAt, hnodes, hrisk, hcreated, hupdated, rfl⟩
    exact ⟨nodes, hnodes, risk, hrisk, createdAt, hcreated, updatedAt, hupdated, rfl⟩

theorem plan_readable (g : GatewayWire.Plan) (nodes risk createdAt updatedAt : Json) :
    readable numberInRange (limit + 1) (planObject g nodes risk createdAt updatedAt) = true ↔
      readable numberInRange limit nodes = true ∧ readable numberInRange limit risk = true ∧
      readable numberInRange limit createdAt = true ∧
      readable numberInRange limit updatedAt = true := by
  simp [planObject]

theorem plan_fields (g : GatewayWire.Plan) (nodes risk createdAt updatedAt : Json) :
    ∃ fields, reread read (planObject g nodes risk createdAt updatedAt) = .obj fields ∧
      fields.lookup "id" = some (.str g.id) ∧
      fields.lookup "description" = some (.str g.description) ∧
      fields.lookup "agent_id" = some (.str g.agentID) ∧
      fields.lookup "nodes" = some (reread read nodes) ∧
      fields.lookup "status" = some (.str g.status) ∧
      fields.lookup "risk" = some (reread read risk) ∧
      fields.lookup "created_at" = some (reread read createdAt) ∧
      fields.lookup "updated_at" = some (reread read updatedAt) := by
  refine ⟨_, rfl, ?_⟩
  simp [lookup_cons, reread]

variable {p : TimedPlan} {g : GatewayWire.Plan}

theorem plan_decodes_iff (nodes risk createdAt updatedAt : Json) (h : PlanCorresponds g p) :
    timedPlanFromValue (reread read (planObject g nodes risk createdAt updatedAt)) = .ok p ↔
      asList nodeFromValue (reread read nodes) = .ok p.plan.nodes ∧
      riskFromValue (reread read risk) = .ok p.plan.risk ∧
      asDateTime (reread read createdAt) = .ok p.createdAt ∧
      asDateTime (reread read updatedAt) = .ok p.updatedAt := by
  have hid : parseStr g.id = .ok p.plan.id := h.id
  have hagent : parseStr g.agentID = .ok p.plan.agentId := h.agentID
  have hdescription := h.description
  have hstatus := asEnum_planStatusOf h.status
  obtain ⟨⟨id, description, agentId, nodes', status, risk'⟩, created, updated⟩ := p
  obtain ⟨fields, hvalue, hfid, hfdescription, hfagent, hfnodes, hfstatus, hfrisk, hfcreated,
    hfupdated⟩ := plan_fields read g nodes risk createdAt updatedAt
  rw [hvalue]
  simp only [timedPlanFromValue, planFromValue, asFields_obj, requiredField, hfid, hfdescription,
    hfagent, hfnodes, hfstatus, hfrisk, hfcreated, hfupdated, asUuid, hid, hagent, asString_str,
    hdescription, hstatus, bind, Except.bind, pure, Except.pure]
  cases asList nodeFromValue (reread read nodes) with
  | error message => simp
  | ok nodes'' =>
    cases riskFromValue (reread read risk) with
    | error message => simp
    | ok risk'' =>
      cases asDateTime (reread read createdAt) with
      | error message => simp
      | ok created' =>
        cases asDateTime (reread read updatedAt) with
        | error message => simp
        | ok updated' => simp [and_assoc]

theorem plan_transfers (h : PlanCorresponds g p) :
    Transfers numberInRange read (limit + 5) GatewayWire.Plan.marshal timedPlanFromValue g p ↔
      PlanArrives read (limit + 1) g := by
  have hnodes := nodes_transfer_iff read limit h.nodes
  have hrisk := risk_transfers read (limit + 2) h.risk
  have hcreated := time_transfers read (limit + 4) g.createdAt
  have hupdated := time_transfers read (limit + 4) g.updatedAt
  rw [h.createdAt] at hcreated
  rw [h.updatedAt] at hupdated
  constructor
  · rintro ⟨j, hj, hread, hdecode⟩
    obtain ⟨nodes, risk, createdAt, updatedAt, hmn, hmr, hmc, hmu, rfl⟩ :=
      (plan_marshal_iff g j).mp hj
    obtain ⟨hrn, hrr, hrc, hru⟩ := (plan_readable (limit + 4) g _ _ _ _).mp hread
    obtain ⟨hdn, hdr, hdc, hdu⟩ := (plan_decodes_iff read _ _ _ _ h).mp hdecode
    obtain ⟨hsome, hall⟩ := hnodes.mp ⟨_, hmn, hrn, hdn⟩
    exact ⟨hsome, hall, hrisk.mp ⟨_, hmr, hrr, hdr⟩, hcreated.mp ⟨_, hmc, hrc, hdc⟩,
      hupdated.mp ⟨_, hmu, hru, hdu⟩⟩
  · rintro ⟨hsome, hall, hgood, hcreate, hupdate⟩
    obtain ⟨nodes, hmn, hrn, hdn⟩ := hnodes.mpr ⟨hsome, hall⟩
    obtain ⟨risk, hmr, hrr, hdr⟩ := hrisk.mpr hgood
    obtain ⟨createdAt, hmc, hrc, hdc⟩ := hcreated.mpr hcreate
    obtain ⟨updatedAt, hmu, hru, hdu⟩ := hupdated.mpr hupdate
    refine ⟨planObject g nodes risk createdAt updatedAt, ?_, ?_, ?_⟩
    · exact (plan_marshal_iff g _).mpr ⟨_, _, _, _, hmn, hmr, hmc, hmu, rfl⟩
    · exact (plan_readable (limit + 4) g _ _ _ _).mpr ⟨hrn, hrr, hrc, hru⟩
    · exact (plan_decodes_iff read _ _ _ _ h).mpr ⟨hdn, hdr, hdc, hdu⟩

end IronGolem.PlanTransfer
