import IronGolem.FirstMatch
import IronGolem.Identifiers
import Mathlib.Data.List.Nodup

/-!
The five-layer policy engine and the channel rules its fourth layer reads.
A decision is free text, as in the source: the engine gives a meaning to three
values only, and a rule stored for a channel may carry any other text.
Evaluation walks the layers in order and stops at the first that denies or fails.
-/
namespace IronGolem.PolicyLayers

open FirstMatch Identifiers List

/-- The named layers, and any other number a custom checker may report. -/
inductive PolicyLayer where
  | gatewayIdentity
  | globalToolPolicy
  | perAgentPermission
  | perChannelRestrict
  | adminControls
  | other (n : ℤ)
  deriving DecidableEq, Repr

def PolicyLayer.toText : PolicyLayer → String
  | gatewayIdentity => "gateway_identity"
  | globalToolPolicy => "global_tool_policy"
  | perAgentPermission => "per_agent_permission"
  | perChannelRestrict => "per_channel_restriction"
  | adminControls => "admin_controls"
  | other _ => "unknown"

abbrev Decision := String

def decisionAllow : Decision := "allow"

def decisionDeny : Decision := "deny"

def decisionAudit : Decision := "audit"

structure Permission where
  resource : String
  action : String
  deriving DecidableEq, Repr

structure EvalRequest where
  tenantID : String
  workspaceID : String
  userID : String
  agentRole : String
  channelID : String
  permission : Permission
  metadata : Option (List (String × String))
  deriving DecidableEq, Repr

structure EvalResult where
  decision : Decision
  layer : PolicyLayer
  reason : String
  deriving DecidableEq, Repr

/-- What one layer answers: the three results of a `Check` call. -/
structure CheckResult where
  decision : Decision
  reason : String
  err : Option String
  deriving DecidableEq, Repr

structure LayerChecker where
  layer : PolicyLayer
  check : EvalRequest → CheckResult

def allowed (reason : String) : CheckResult := ⟨decisionAllow, reason, none⟩

def denied (reason : String) : CheckResult := ⟨decisionDeny, reason, none⟩

def evaluate : List LayerChecker → EvalRequest → EvalResult × Option String
  | [], _ => (⟨decisionAllow, .adminControls, "all layers passed"⟩, none)
  | lc :: rest, req =>
    match (lc.check req).err with
    | some err => (⟨decisionDeny, lc.layer, "layer error: " ++ err⟩, some err)
    | none =>
      if (lc.check req).decision = decisionDeny then
        (⟨decisionDeny, lc.layer, (lc.check req).reason⟩, none)
      else evaluate rest req

/-- The escapes of the `%q` verb on ASCII text. -/
def quoteChar (c : Char) : List Char :=
  if c = '"' then ['\\', '"']
  else if c = '\\' then ['\\', '\\']
  else if c = '\n' then ['\\', 'n']
  else if c = '\t' then ['\\', 't']
  else if c = '\r' then ['\\', 'r']
  else if c.toNat = 7 then ['\\', 'a']
  else if c.toNat = 8 then ['\\', 'b']
  else if c.toNat = 11 then ['\\', 'v']
  else if c.toNat = 12 then ['\\', 'f']
  else if c.toNat < 32 ∨ c.toNat = 127 then '\\' :: 'x' :: toHex 2 c.toNat
  else [c]

def quote (s : String) : String := String.ofList ('"' :: s.toList.flatMap quoteChar ++ ['"'])

def gatewayIdentityChecker : LayerChecker where
  layer := .gatewayIdentity
  check req :=
    if req.tenantID = "" then denied "missing tenant identity"
    else if req.userID = "" ∧ req.agentRole = "" then denied "no authenticated principal"
    else allowed ""

def blockedTools : List String := ["tool.shell_exec", "tool.raw_sql", "tool.network_scan"]

def globalToolPolicyChecker : LayerChecker where
  layer := .globalToolPolicy
  check req :=
    if req.permission.resource ∈ blockedTools then
      denied ("tool " ++ quote req.permission.resource ++ " is globally blocked")
    else allowed ""

def agentAllowedActions : List (String × List String) :=
  [("executor", ["read", "write", "execute"]),
   ("verifier", ["read"]),
   ("researcher", ["read", "execute"]),
   ("narrator", ["read"]),
   ("defender", ["read", "execute"]),
   ("healer", ["read", "write", "execute"]),
   ("optimizer", ["read", "write"]), ("planner", ["read", "write"]), ("router", ["read"])]

def perAgentPermissionChecker : LayerChecker where
  layer := .perAgentPermission
  check req :=
    if req.agentRole = "" then allowed ""
    else
      match agentAllowedActions.lookup req.agentRole with
      | none => denied ("unknown agent role " ++ quote req.agentRole)
      | some actions =>
        if req.permission.action ∈ actions then allowed ""
        else denied ("agent role " ++ quote req.agentRole ++ " cannot perform action " ++
          quote req.permission.action)

structure ChannelRule where
  channelID : String
  action : String
  decision : Decision
  reason : String
  deriving DecidableEq, Repr

structure ChannelPolicyStore where
  lookup : String → String → Except String (Option ChannelRule)
  hasRules : Except String Bool

variable (env : String)

/-- `env` is the value of `IRONGOLEM_LAYER4_ENABLED`, empty when unset. -/
def isLayer4Enabled : Bool := env == "true"

def layer4Fallback : Decision :=
  if isLayer4Enabled env then decisionDeny else decisionAllow

def reasonForFallback (req : EvalRequest) : String :=
  if isLayer4Enabled env then "layer4 store not provisioned"
  else if req.channelID = "" then "layer4 disabled in v0.2 (no channel context)"
  else "layer4 disabled in v0.2"

def perChannelRestrictionChecker (store : Option ChannelPolicyStore) : LayerChecker where
  layer := .perChannelRestrict
  check req :=
    match store with
    | none => ⟨layer4Fallback env, reasonForFallback env req, none⟩
    | some store =>
      match store.hasRules with
      | .error err =>
        if isLayer4Enabled env then denied ("layer4 store error: " ++ err)
        else allowed ("layer4 store error (disabled): " ++ err)
      | .ok false => ⟨layer4Fallback env, reasonForFallback env req, none⟩
      | .ok true =>
        if req.channelID = "" then allowed "layer4: no channel context"
        else
          match store.lookup req.channelID req.permission.action with
          | .error err => denied ("layer4 lookup error: " ++ err)
          | .ok none => allowed "layer4: no channel rule applies"
          | .ok (some rule) => ⟨rule.decision, rule.reason, none⟩

def adminControlsChecker : LayerChecker where
  layer := .adminControls
  check req :=
    match req.metadata with
    | none => allowed ""
    | some fields =>
      if fields.lookup "emergency_stop" = some "true" then
        denied "system is in emergency stop mode"
      else allowed ""

/-- The layers of `NewDefaultPolicyEngineWithStore`. -/
def defaultLayers (store : Option ChannelPolicyStore) : List LayerChecker :=
  [gatewayIdentityChecker, globalToolPolicyChecker, perAgentPermissionChecker,
    perChannelRestrictionChecker env store, adminControlsChecker]

def ChannelRule.key (rule : ChannelRule) : String × String := (rule.channelID, rule.action)

/-- The rows of the `channel_policies` table. -/
structure ChannelPolicies where
  rows : List ChannelRule
  primaryKey : (rows.map ChannelRule.key).Nodup

namespace ChannelPolicies

def empty : ChannelPolicies := ⟨[], by simp⟩

variable (db : ChannelPolicies) (fault : Option String)

/-- `fault` is the error of the database driver, if the query fails. -/
def lookup (channelID action : String) :
    Except String (Option ChannelRule) :=
  match fault with
  | some err => .error ("channel policy lookup: " ++ err)
  | none => .ok (db.rows.find? (fun rule => rule.key == (channelID, action)))

def hasRules : Except String Bool :=
  match fault with
  | some err => .error ("channel policy count: " ++ err)
  | none => .ok (decide (db.rows.length > 0))

/-- The insertion itself: a row with the same key gets the new decision and reason. -/
def upsertRow (rows : List ChannelRule) (rule : ChannelRule) : List ChannelRule :=
  if rule.key ∈ rows.map ChannelRule.key then
    updateFirst (fun row => row.key == rule.key)
      (fun row => { row with decision := rule.decision, reason := rule.reason }) rows
  else rows ++ [rule]

theorem upsertRow_nodup (rows : List ChannelRule) (rule : ChannelRule)
    (h : (rows.map ChannelRule.key).Nodup) : ((upsertRow rows rule).map ChannelRule.key).Nodup := by
  unfold upsertRow
  split
  · rw [map_updateFirst _ _ ChannelRule.key ?_ rows]
    · exact h
    · intro row
      rfl
  · rename_i hnew
    rw [map_append, map_singleton, nodup_append]
    refine ⟨h, by simp, ?_⟩
    intro k hk k' hk' heq
    rw [mem_singleton] at hk'
    exact hnew (hk' ▸ heq ▸ hk)

def upsert (rule : ChannelRule) :
    Except String ChannelPolicies :=
  if rule.channelID = "" ∨ rule.action = "" then
    .error "channel policy: channel_id + action required"
  else
    match fault with
    | some err => .error ("channel policy upsert: " ++ err)
    | none => .ok ⟨upsertRow db.rows rule, upsertRow_nodup db.rows rule db.primaryKey⟩

def delete (channelID action : String) :
    Except String ChannelPolicies :=
  match fault with
  | some err => .error ("channel policy delete: " ++ err)
  | none =>
    .ok ⟨db.rows.filter (fun rule => rule.key != (channelID, action)),
      db.primaryKey.sublist (List.filter_sublist.map ChannelRule.key)⟩

def toStore (lookupFault countFault : Option String) : ChannelPolicyStore where
  lookup := db.lookup lookupFault
  hasRules := db.hasRules countFault

end ChannelPolicies

/-- The channel has a rule for the action, and its decision is `d`. -/
def HasRule (db : ChannelPolicies) (channelID action : String) (d : Decision) : Prop :=
  ∃ rule ∈ db.rows, rule.key = (channelID, action) ∧ rule.decision = d

theorem hasRule_upsert (db db' : ChannelPolicies) (rule : ChannelRule)
    (h : db.upsert none rule = .ok db') : HasRule db' rule.channelID rule.action rule.decision := by
  unfold ChannelPolicies.upsert at h
  split at h
  · cases h
  · cases h
    unfold HasRule ChannelPolicies.upsertRow
    dsimp only
    split
    · rename_i hmem
      obtain ⟨row, hrow, hkey⟩ := mem_map.mp hmem
      rw [updateFirst_eq_map ChannelRule.key rule.key _ db.primaryKey]
      refine ⟨{ row with decision := rule.decision, reason := rule.reason }, ?_, hkey, rfl⟩
      exact mem_map.mpr ⟨row, hrow, by rw [if_pos hkey]⟩
    · exact ⟨rule, by simp, rfl, rfl⟩

variable {db : ChannelPolicies} {d : Decision}

theorem lookup_of_hasRule {channelID action : String} (h : HasRule db channelID action d) :
    ∃ rule, db.lookup none channelID action = .ok (some rule) ∧ rule.decision = d := by
  obtain ⟨rule, hrule, hkey, hd⟩ := h
  cases hfind : db.rows.find? (fun row => row.key == (channelID, action)) with
  | none =>
    have hno := find?_eq_none.mp hfind rule hrule
    exact absurd (by simpa using hkey) hno
  | some row =>
    have hrow : row.key = (channelID, action) := by simpa using find?_some hfind
    have heq : row = rule := inj_on_of_nodup_map db.primaryKey
      (mem_of_find?_eq_some hfind) hrule (hrow.trans hkey.symm)
    exact ⟨rule, by simp [ChannelPolicies.lookup, hfind, heq], hd⟩

theorem perChannel_check_of_hasRule (env : String) {req : EvalRequest}
    (hchannel : req.channelID ≠ "") (h : HasRule db req.channelID req.permission.action d) :
    let answer := (perChannelRestrictionChecker env (some (db.toStore none none))).check req
    answer.decision = d ∧ answer.err = none := by
  have hcount : db.hasRules none = .ok true := by
    obtain ⟨rule, hrule, _⟩ := h
    have hpos : db.rows.length > 0 := length_pos_of_mem hrule
    simp [ChannelPolicies.hasRules, hpos]
  obtain ⟨rule, hlookup, hd⟩ := lookup_of_hasRule h
  simp [perChannelRestrictionChecker, ChannelPolicies.toStore, hcount, hchannel, hlookup, hd]

end IronGolem.PolicyLayers
