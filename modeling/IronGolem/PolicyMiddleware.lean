import IronGolem.PolicyLayers
import IronGolem.SeparatedText

/-!
The gateway's routes, the policy middleware in front of them, and what a request makes the gateway
do. The mux dispatches on the segments of the escaped path, each decoded by itself; the middleware
only sees the decoded path as one text. It reduces that text to a route key, looks the key up, and
asks the engine.
-/
namespace IronGolem.PolicyMiddleware

open PolicyLayers SeparatedText

inductive Segment where
  | lit (text : String)
  | id
  deriving DecidableEq, Repr

structure Route where
  method : String
  segments : List Segment
  deriving DecidableEq, Repr

/-- A request, with the segments of its escaped path, each one decoded. -/
structure Request where
  method : String
  segments : List String
  deriving DecidableEq, Repr

variable (req : Request)

/-- The decoded path `r.URL.Path`. -/
def Request.urlPath : String := "/" ++ joinWith '/' req.segments

def healthzRoute : Route := ⟨"GET", [.lit "healthz"]⟩

variable (method : String)

def v1 (rest : List Segment) : Route := ⟨method, .lit "api" :: .lit "v1" :: rest⟩

def v2 (rest : List Segment) : Route := ⟨method, .lit "api" :: .lit "v2" :: rest⟩

/-- The patterns registered on the mux, in the order of the source. -/
def muxRoutes : List Route :=
  [healthzRoute,
   v1 "POST" [.lit "messages", .lit "inbound"],
   v1 "POST" [.lit "messages", .lit "outbound"],
   v1 "GET" [.lit "connectors", .id, .lit "status"],
   v1 "POST" [.lit "connectors", .id, .lit "connect"],
   v1 "POST" [.lit "connectors", .id, .lit "disconnect"],
   v1 "POST" [.lit "connectors", .id, .lit "heartbeat"],
   v1 "GET" [.lit "recipes"],
   v1 "GET" [.lit "recipes", .id],
   v1 "POST" [.lit "recipes", .id, .lit "activate"],
   v1 "POST" [.lit "recipes", .id, .lit "deactivate"],
   v1 "GET" [.lit "approvals"],
   v1 "GET" [.lit "approvals", .id],
   v1 "POST" [.lit "approvals", .id, .lit "approve"],
   v1 "POST" [.lit "approvals", .id, .lit "deny"],
   v1 "GET" [.lit "squads"],
   v1 "GET" [.lit "squads", .id],
   v1 "POST" [.lit "squads"],
   v1 "POST" [.lit "squads", .id, .lit "activate"],
   v1 "POST" [.lit "squads", .id, .lit "pause"],
   v1 "POST" [.lit "squads", .id, .lit "run"],
   v1 "GET" [.lit "events"],
   v1 "GET" [.lit "events", .id],
   v1 "GET" [.lit "inbox"],
   v1 "GET" [.lit "home"],
   v1 "GET" [.lit "health", .lit "status"],
   v1 "GET" [.lit "providers"],
   v2 "GET" [.lit "audit", .lit "findings"],
   v2 "GET" [.lit "commitments"],
   v2 "POST" [.lit "commitments", .id, .lit "dismiss"],
   v2 "POST" [.lit "commitments", .id, .lit "snooze"], v2 "DELETE" [.lit "commitments", .id]]

variable (r : Route) (method : String)

def Route.accepts : Bool :=
  method == r.method || (r.method == "GET" && method == "HEAD")

def matchSegments : List Segment → List String → Bool
  | [], [] => true
  | .lit text :: pattern, s :: path => text == s && matchSegments pattern path
  | .id :: pattern, s :: path => s != "" && matchSegments pattern path
  | _, _ => false

variable (req : Request)

def Route.serves : Bool :=
  r.accepts req.method && matchSegments r.segments req.segments

/-- The route the mux dispatches to; `none` is its own not-found answer. -/
def mux : Option Route := muxRoutes.find? (fun r => r.serves req)

def Segment.fill (value : String) : Segment → String
  | .lit text => text
  | .id => value

/-- The request for a route with a given value in place of its `{id}`. -/
def Route.request (value : String) : Request :=
  ⟨method, r.segments.map (Segment.fill value)⟩

def routeMapping : List (String × Permission) :=
  [("POST /api/v1/recipes/activate", ⟨"recipe.activate", "execute"⟩),
   ("POST /api/v1/recipes/deactivate", ⟨"recipe.deactivate", "execute"⟩),
   ("GET /api/v1/recipes", ⟨"recipe", "read"⟩),
   ("POST /api/v1/squads/activate", ⟨"squad.activate", "execute"⟩),
   ("POST /api/v1/squads/pause", ⟨"squad.pause", "execute"⟩),
   ("POST /api/v1/squads/run", ⟨"squad.run", "execute"⟩),
   ("POST /api/v1/squads", ⟨"squad.create", "write"⟩),
   ("GET /api/v1/squads", ⟨"squad", "read"⟩),
   ("POST /api/v1/approvals/approve", ⟨"approval.approve", "execute"⟩),
   ("POST /api/v1/approvals/deny", ⟨"approval.deny", "execute"⟩),
   ("GET /api/v1/approvals", ⟨"approval", "read"⟩),
   ("POST /api/v1/messages/inbound", ⟨"message.inbound", "write"⟩),
   ("POST /api/v1/messages/outbound", ⟨"message.outbound", "write"⟩),
   ("POST /api/v1/connectors/connect", ⟨"connector.connect", "execute"⟩),
   ("POST /api/v1/connectors/disconnect", ⟨"connector.disconnect", "execute"⟩),
   ("POST /api/v1/connectors/heartbeat", ⟨"connector.heartbeat", "write"⟩),
   ("GET /api/v1/connectors", ⟨"connector", "read"⟩),
   ("GET /api/v1/events", ⟨"event", "read"⟩),
   ("GET /api/v1/inbox", ⟨"inbox", "read"⟩),
   ("GET /api/v1/home", ⟨"home", "read"⟩), ("GET /api/v1/health/status", ⟨"health", "read"⟩)]

def knownSegments : List String :=
  ["api", "v1", "recipes", "squads", "approvals", "messages", "connectors", "events",
   "activate", "deactivate", "pause", "run", "approve", "deny", "connect", "disconnect",
   "heartbeat", "inbound", "outbound", "status", "healthz", "inbox", "home", "health"]

def looksLikeID (segment : String) : Bool := if segment ∈ knownSegments then false else true

def routeKey (cleaned : List String) : String :=
  method ++ " /" ++ joinWith '/' cleaned

def normalizeRoute (path : String) : String :=
  routeKey method ((split '/' (trimRight '/' path)).filter (fun p => p != "" && !looksLikeID p))

/-- What the authentication and tenant middlewares have put in the context. -/
structure Identity where
  tenantID : String
  userID : String
  agentRole : String
  channelID : String
  deriving DecidableEq, Repr

structure PolicyDeniedResponse where
  error : String
  layer : String
  reason : String
  decision : String
  deriving DecidableEq, Repr

structure PolicyApprovalResponse where
  status : String
  message : String
  layer : String
  deriving DecidableEq, Repr

/-- The audit event of a denial, with the fields of its payload. -/
structure PolicyDeniedEvent where
  tenantID : String
  source : String
  resource : String
  action : String
  layer : String
  reason : String
  userID : String
  agentRole : String
  channelID : String
  deriving DecidableEq, Repr

inductive Effect where
  | evaluate (req : EvalRequest)
  | logError (err routeKey tenantID : String)
  | logDecision (result : EvalResult) (req : EvalRequest)
  | appendEvent (evt : PolicyDeniedEvent)
  | respondDenied (status : ℕ) (body : PolicyDeniedResponse)
  | respondApproval (status : ℕ) (body : PolicyApprovalResponse)
  | handle (route : Option Route)
  deriving DecidableEq, Repr

def evalRequest (who : Identity) (perm : Permission) : EvalRequest where
  tenantID := who.tenantID
  workspaceID := ""
  userID := who.userID
  agentRole := who.agentRole
  channelID := who.channelID
  permission := perm
  metadata := none

def deniedEvent (who : Identity) (perm : Permission) (result : EvalResult) : PolicyDeniedEvent where
  tenantID := who.tenantID
  source := "gateway"
  resource := perm.resource
  action := perm.action
  layer := result.layer.toText
  reason := result.reason
  userID := who.userID
  agentRole := who.agentRole
  channelID := who.channelID

def deniedResponse (result : EvalResult) : PolicyDeniedResponse :=
  ⟨"action denied by policy", result.layer.toText, result.reason, result.decision⟩

def approvalResponse (result : EvalResult) : PolicyApprovalResponse :=
  ⟨"approval_required", "This action requires approval before execution.", result.layer.toText⟩

def answer (emitter : Bool) (who : Identity) (perm : Permission) (result : EvalResult)
    (next : List Effect) : List Effect :=
  if result.decision = decisionDeny then
    (if emitter then [.appendEvent (deniedEvent who perm result)] else []) ++
      [.respondDenied 403 (deniedResponse result)]
  else if result.decision = decisionAudit then [.respondApproval 202 (approvalResponse result)]
  else next

abbrev Engine := EvalRequest → EvalResult × Option String

def policyMiddleware (engine : Engine) (emitter : Bool) (next : Request → List Effect)
    (who : Identity) (req : Request) : List Effect :=
  if req.urlPath = "/healthz" then next req
  else
    let key := normalizeRoute req.method req.urlPath
    match routeMapping.lookup key with
    | none => next req
    | some perm =>
      let evalReq := evalRequest who perm
      let (result, err) := engine evalReq
      let errorLog := match err with
        | some err => [.logError err key who.tenantID]
        | none => []
      .evaluate evalReq :: errorLog ++ [.logDecision result evalReq] ++
        answer emitter who perm result (next req)

def gateway (engine : Engine) (emitter : Bool) (who : Identity) (req : Request) : List Effect :=
  policyMiddleware engine emitter (fun req => [.handle (mux req)]) who req

def resolve : Option Permission :=
  if req.urlPath = "/healthz" then none
  else routeMapping.lookup (normalizeRoute req.method req.urlPath)

variable {req : Request} (engine : Engine)

theorem gateway_of_resolve_none (emitter : Bool) (who : Identity) (h : resolve req = none) :
    gateway engine emitter who req = [.handle (mux req)] := by
  unfold gateway policyMiddleware
  unfold resolve at h
  split
  · rfl
  · rename_i hpath
    rw [if_neg hpath] at h
    simp only [h]

theorem gateway_of_resolve_some (emitter : Bool) (who : Identity)
    {perm : Permission} (h : resolve req = some perm) :
    ∃ logs : List Effect, (∀ e ∈ logs, (∃ err key tenant, e = .logError err key tenant) ∨
        ∃ result evalReq, e = .logDecision result evalReq) ∧
      gateway engine emitter who req = .evaluate (evalRequest who perm) :: logs ++
        answer emitter who perm (engine (evalRequest who perm)).1 [.handle (mux req)] := by
  unfold resolve at h
  split at h
  · cases h
  · rename_i hpath
    unfold gateway policyMiddleware
    rw [if_neg hpath]
    simp only [h]
    cases (engine (evalRequest who perm)).2 with
    | none =>
      refine ⟨[.logDecision (engine (evalRequest who perm)).1 (evalRequest who perm)], ?_, by simp⟩
      simp
    | some err =>
      refine ⟨[.logError err (normalizeRoute req.method req.urlPath) who.tenantID,
        .logDecision (engine (evalRequest who perm)).1 (evalRequest who perm)], ?_, by simp⟩
      simp

end IronGolem.PolicyMiddleware
