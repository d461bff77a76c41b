import IronGolem.IpcRoundTrip
import IronGolem.SeparatedText

/-!
The way of a message from its bearer token to the request that the gateway makes of it. A token is
six fields between colons and their keyed hash. The workspace among them may be any text without a
colon, and none at all stands for the nil id.
-/
namespace IronGolem.InboundRequests

open Identifiers JsonValues RuntimeMessages IpcRoundTrip Rfc3339 SeparatedText

/-- What a token says; the time of expiry is in seconds. -/
structure TokenClaims where
  tenantID : String
  workspaceID : String
  userID : String
  agentRole : String
  channelID : String
  expiresAt : ℤ
  deriving DecidableEq, Repr

inductive AuthError where
  | secretRequired
  | invalidToken
  deriving DecidableEq, Repr

def parseInt (text : String) : Option ℤ :=
  let magnitude := fun digits : List Char => if digits = [] then none else ofDigits digits
  let value := match text.toList with
    | '-' :: digits => (magnitude digits).map (fun n => -(n : ℤ))
    | '+' :: digits => (magnitude digits).map (fun n => (n : ℤ))
    | digits => (magnitude digits).map (fun n => (n : ℤ))
  value.filter (fun v => -2 ^ 63 ≤ v ∧ v < 2 ^ 63)

def second : ℤ := 1000000000

def TokenClaims.zero : TokenClaims := ⟨"", "", "", "", "", 0⟩

structure AuthConfig where
  secret : String
  exemptPaths : List String
  clockSkew : ℤ

def AuthConfig.skew (cfg : AuthConfig) : ℤ :=
  if cfg.clockSkew = 0 then 30 * second else cfg.clockSkew

/-- The middleware answers with an error, or passes the request on with its claims. -/
inductive Admission where
  | refused (message : String)
  | passed (claims : TokenClaims)
  deriving DecidableEq, Repr

def isSpace (c : Char) : Bool :=
  c ∈ ['\t', '\n', '\x0b', '\x0c', '\r', ' ', '\u0085', '\u00a0', '\u1680', '\u2028', '\u2029',
    '\u202f', '\u205f', '\u3000'] || ('\u2000' ≤ c && c ≤ '\u200a')

def trimSpace (s : String) : String :=
  String.ofList ((s.toList.dropWhile isSpace).rdropWhile isSpace)

def bearer : List Char := "Bearer ".toList

section

variable (hmacHex : String → String → String)

/-- The token is cut at its last dot, the hash compared, and the fields read. -/
def verifyToken (token secret : String) (now clockSkew : ℤ) : Except AuthError TokenClaims :=
  if secret = "" then .error .secretRequired
  else match splitLast '.' token with
    | none => .error .invalidToken
    | some (payload, gotMac) =>
        if payload = "" ∨ gotMac = "" then .error .invalidToken
        else if gotMac ≠ hmacHex secret payload then .error .invalidToken
        else match split ':' payload with
          | [tenantID, workspaceID, userID, agentRole, channelID, exp] =>
              match parseInt exp with
              | none => .error .invalidToken
              | some expUnix =>
                  if expUnix * second + clockSkew < now then .error .invalidToken
                  else if tenantID = "" then .error .invalidToken
                  else .ok ⟨tenantID, workspaceID, userID, agentRole, channelID, expUnix⟩
          | _ => .error .invalidToken

def signed (secret payload : String) : String :=
  payload ++ String.singleton '.' ++ hmacHex secret payload

def hmacAuthMiddleware (cfg : AuthConfig) (path authz : String) (now : ℤ) : Admission :=
  if path ∈ cfg.exemptPaths then .passed .zero
  else if ¬ bearer.isPrefixOf authz.toList then .refused "missing bearer token"
  else
    let token := trimSpace (String.ofList (authz.toList.drop bearer.length))
    if token = "" then .refused "missing bearer token"
    else match verifyToken hmacHex token cfg.secret now cfg.skew with
      | .error _ => .refused "invalid token"
      | .ok claims => .passed claims

theorem verifyToken_of_fields (secret : String) (now clockSkew : ℤ) (claims : TokenClaims)
    (exp : String) (hsecret : secret ≠ "") (htenant : claims.tenantID ≠ "")
    (hfields : ∀ field ∈ [claims.tenantID, claims.workspaceID, claims.userID, claims.agentRole,
      claims.channelID, exp], ':' ∉ field.toList) (hexp : parseInt exp = some claims.expiresAt)
    (hlive : now ≤ claims.expiresAt * second + clockSkew)
    (hmac : ∀ payload, hmacHex secret payload ≠ "" ∧ '.' ∉ (hmacHex secret payload).toList) :
    verifyToken hmacHex (signed hmacHex secret (joinWith ':' [claims.tenantID,
      claims.workspaceID, claims.userID, claims.agentRole, claims.channelID, exp])) secret now
        clockSkew = .ok claims := by
  obtain ⟨tenantID, workspaceID, userID, agentRole, channelID, expiresAt⟩ := claims
  simp only at htenant hfields hexp hlive ⊢
  have hsplit := split_joinWith_of_notMem ':' (List.cons_ne_nil _ _) hfields
  generalize joinWith ':' [tenantID, workspaceID, userID, agentRole, channelID, exp] = payload
    at hsplit ⊢
  have hpayload : payload ≠ "" := by
    intro h
    rw [h, split_empty] at hsplit
    cases hsplit
  unfold verifyToken signed
  rw [if_neg hsecret, splitLast_append '.' payload _ (hmac payload).2]
  simp only
  rw [if_neg (not_or.mpr ⟨hpayload, (hmac payload).1⟩), if_neg (not_not.mpr rfl), hsplit]
  simp only [hexp]
  rw [if_neg (by omega), if_neg htenant]

end

/-- Four hexadecimal digits that depend on the secret and the payload, in place of a keyed hash. -/
def sumHex (secret payload : String) : String :=
  String.ofList (toHex 4 (((secret ++ payload).toList.map Char.toNat).sum % 65536))

theorem sumHex_plain (secret payload : String) :
    sumHex secret payload ≠ "" ∧ '.' ∉ (sumHex secret payload).toList := by
  unfold sumHex
  rw [String.toList_ofList]
  refine ⟨?_, notMem_toHex (by decide) 4 _⟩
  intro h
  have hnil := congrArg String.toList h
  rw [String.toList_ofList] at hnil
  simp [toHex] at hnil

/-- The settings of a plan; empty ones stand for the defaults. -/
structure Options where
  systemPromptOverride : String
  planDescription : String
  agentID : String

def Options.zero : Options := ⟨"", "", ""⟩

/-- The ids that are drawn for a plan. -/
structure PlanIDs where
  plan : Uuid
  agent : Uuid
  node : Uuid

def systemPrompt : String :=
  "You are IronGolem, a self-hosted autonomous assistant.\n" ++
    "Answer clearly and briefly. If you don't know something, say so."

def buildPrompt (systemPromptOverride userContent : String) : String :=
  (if systemPromptOverride = "" then systemPrompt else systemPromptOverride) ++ "\n\nUser: " ++
    userContent

/-- One model call with the prompt made for the message. -/
def respondNode (id : Uuid) (prompt : String) : GatewayWire.PlanNode where
  id := toText id
  description := "Respond to user message"
  kind :=
    { type := "LlmCall"
      toolName := ""
      input := none
      prompt := prompt
      model := ""
      descriptionField := ""
      targetAgent := ""
      goal := ""
      targetNodeID := "" }
  status := "pending"
  dependencies := some []
  risk := GatewayWire.defaultRisk
  output := none
  error := ""

def synthesizePlan (content : String) (opts : Options) (ids : PlanIDs) (now : CivilTime) :
    GatewayWire.Plan where
  id := toText ids.plan
  description :=
    if opts.planDescription = "" then
      "v0.1 deterministic synth — single LlmCall for inbound message"
    else opts.planDescription
  agentID := if opts.agentID = "" then toText ids.agent else opts.agentID
  nodes := some [respondNode ids.node (buildPrompt opts.systemPromptOverride content)]
  status := "pending"
  risk := GatewayWire.defaultRisk
  createdAt := now
  updatedAt := now

def defaultWorkspaceID : String := "00000000-0000-0000-0000-000000000000"

def workspaceOrDefault (workspaceID : String) : String :=
  if workspaceID = "" then defaultWorkspaceID else workspaceID

/-- The request that `HandleInbound` makes of a message. -/
def inboundRequest (requestID : Uuid) (workspaceID content : String) (ids : PlanIDs)
    (now : CivilTime) : GatewayWire.ExecutePlanRequest where
  requestID := toText requestID
  workspaceID := workspaceOrDefault workspaceID
  plan := synthesizePlan content Options.zero ids now

def decodable {ε : Type} (reading : Reading ε) (g : GatewayWire.Request) : Bool :=
  match g.marshal.bind (messageFromLine reading) with
  | .ok _ => true
  | .error _ => false

theorem decodable_iff {ε : Type} (reading : Reading ε) (g : GatewayWire.Request) :
    decodable reading g = true ↔ ∃ m, Arrives reading g m := by
  unfold decodable Arrives
  cases hg : g.marshal with
  | error reason => simp [Except.bind]
  | ok j => cases hj : messageFromLine reading j <;> simp [Except.bind, hj]

end IronGolem.InboundRequests
