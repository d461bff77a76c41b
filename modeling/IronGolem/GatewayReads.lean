import IronGolem.ApprovalDecisions
import IronGolem.CommitmentStore
import IronGolem.InboxPages

/-!
The read and decision endpoints of the gateway: approvals, commitments, inbox and home. One request
is served by itself here, from the checks of its parameters to its answer. Only the inbox and the
home page look at the tenant of the token; the others find rows by the id in the path or by the
parameters of the query.
-/
namespace IronGolem.GatewayReads

open OrderedPages TimestampOrder
open InboundRequests (parseInt trimSpace)
open ApprovalDecisions (DecisionRequest DecisionEvent checkRequest decisionEvent)
open InboxPages (InboundPayload InboxResponse parsePagination listInbox truncate minutesAgo)

/-- What is left to the standard library and the database. -/
structure Library where
  decode : String → InboundPayload
  encode : DecisionEvent → String
  toLower : String → String
  quote : String → String
  /-- How the listing of commitments comes upon the rows, by the filters it has. -/
  listScan : String → CommitmentStore.CommitmentStatus → RowTables.Scan CommitmentStore.Commitment

structure Gateway where
  approvals : ApprovalStore.DB
  commitments : CommitmentStore.DB
  events : EventStore.DB

structure HomeWorkspaceInfo where
  name : String
  initials : String
  region : String
  uptimeHours : ℤ
  uptimeStreak : String
  lastSync : String
  deriving DecidableEq

inductive HomeStatus
  | healthy
  | degraded
  | down
  deriving DecidableEq

/-- A system of the heartbeat: its name, whether it is up, and why not. -/
structure HomeSystem where
  name : String
  ok : Bool
  why : String
  deriving DecidableEq

structure HomeOneDegraded where
  name : String
  reason : String
  deriving DecidableEq

structure HomeHeartbeat where
  status : HomeStatus
  systemsGreen : ℕ
  systemsTotal : ℕ
  oneDegraded : HomeOneDegraded
  deriving DecidableEq

structure HomeTeam where
  id : String
  name : String
  color : String
  members : ℤ
  description : String
  deriving DecidableEq

structure HomeResearchFinding where
  id : String
  title : String
  source : String
  confidence : ℚ
  freshness : String
  summary : String
  deriving DecidableEq

structure HomeSafetyLayer where
  id : ℤ
  name : String
  state : String
  note : String
  deriving DecidableEq

structure HomeSafety where
  posture : String
  layers : List HomeSafetyLayer
  can : List String
  cannot : List String
  needsApproval : List String
  stopsIf : List String
  deriving DecidableEq

structure HomeEventItem where
  id : String
  status : String
  title : String
  teamID : String
  permission : String
  permissionScope : String
  risk : String
  minutesAgo : ℤ
  why : String
  target : String
  deriving DecidableEq

/-- What the page shows that is in no table. -/
structure HomeProbes where
  label : String
  uptime : ℤ
  database : Option (Option String)
  connectors : List (String × Bool)

/-- The trust history is a map, given by its pairs. -/
structure HomeResponse where
  workspace : HomeWorkspaceInfo
  heartbeat : HomeHeartbeat
  teams : List HomeTeam
  trustHistory : List (String × List ℤ)
  safety : HomeSafety
  researchFindings : List HomeResearchFinding
  events : List HomeEventItem
  deriving DecidableEq

def hour : ℤ := 3600 * 1000000000

def formatUptime (d : ℤ) : String :=
  let days := (d / hour) / 24
  if days ≤ 0 then BearerTokens.formatInt (d / hour) ++ " hours"
  else if days = 1 then "1 day"
  else BearerTokens.formatInt days ++ " days"

variable (probes : HomeProbes)

def probeWorkspace : HomeWorkspaceInfo where
  name := if probes.label = "" then "IronGolem Workspace" else probes.label
  initials := "WS"
  region := "solo-local"
  uptimeHours := probes.uptime / hour
  uptimeStreak := formatUptime probes.uptime
  lastSync := "just now"

def systems : List HomeSystem :=
  [⟨"gateway HTTP", true, ""⟩] ++
    (probes.database.map (fun err => ⟨"SQLite store", err.isNone, err.getD ""⟩)).toList ++
    probes.connectors.map (fun c => ⟨"connector " ++ c.1, c.2, ""⟩)

def probeHeartbeat : HomeHeartbeat :=
  let total := (systems probes).length
  let green := (systems probes).countP HomeSystem.ok
  { status := if green = 0 then .down else if green < total then .degraded else .healthy
    systemsGreen := green
    systemsTotal := total
    oneDegraded := match (systems probes).find? (fun s => !s.ok) with
      | none => ⟨"", ""⟩
      | some s => ⟨s.name, if s.why = "" then "system reported degraded state" else s.why⟩ }

variable (lib : Library)

def mapHomeEvent (evt : EventStore.Event ℤ) (now : ℤ) : HomeEventItem :=
  let payload := InboxPages.payloadOf lib.decode evt
  { id := evt.id
    status := if evt.kind = "message.inbound" then "proposed"
      else if evt.kind = "message.outbound" then "taken"
      else if evt.kind = "security.policy_denied" then "blocked"
      else "taken"
    title := truncate (if payload.content = "" then evt.kind else payload.content) 120
    teamID := "inbox-triage"
    permission := evt.kind
    permissionScope := "scoped"
    risk := "low"
    minutesAgo := minutesAgo now evt.timestamp
    why := "Recorded by the gateway audit trail."
    target := payload.userID }

def recentEvents (db : EventStore.DB) (tenantID workspaceID : String) (now : ℤ) :
    List HomeEventItem :=
  ((EventStore.list db 1 20 workspaceID "").1.filter
    (fun evt => EventStore.passes tenantID evt.tenantID)).map (fun evt => mapHomeEvent lib evt now)

def stubTeams : List HomeTeam :=
  [⟨"inbox-triage", "Inbox triage", "accent", 1, "Sorts mail, drafts replies, escalates the rest."⟩]

def stubTrustHistory : List (String × List ℤ) := [("inbox-triage", List.replicate 12 9)]

def stubSafety : HomeSafety where
  posture := "active"
  layers :=
    [⟨1, "Identity", "ok", "HMAC token verified"⟩,
      ⟨2, "Workspace", "ok", "Solo mode"⟩,
      ⟨3, "Team", "ok", "Single team"⟩,
      ⟨4, "Action", "ok", "Layer-4 store consulted"⟩, ⟨5, "Outcome", "ok", "Audit trail recorded"⟩]
  can := ["Receive inbound messages", "Synthesize replies through runtimed"]
  cannot := ["Send replies without your approval", "Forward to unverified channels"]
  needsApproval := ["Any outbound message", "Any tool call"]
  stopsIf := ["HMAC verification fails", "Runtime client unreachable"]

def stubResearchFindings : List HomeResearchFinding := []

def listHome (probes : HomeProbes) (db : EventStore.DB)
    (tenantID workspaceID : String) (now : ℤ) : HomeResponse where
  workspace := probeWorkspace probes
  heartbeat := probeHeartbeat probes
  teams := stubTeams
  trustHistory := stubTrustHistory
  safety := stubSafety
  researchFindings := stubResearchFindings
  events := recentEvents lib db tenantID workspaceID now

open CommitmentStore (Commitment CommitmentStatus)

def parseStatus (raw : String) : Except String CommitmentStatus :=
  let raw := lib.toLower (trimSpace raw)
  if raw = "" then .ok .unset
  else if raw = "pending" then .ok .pending
  else if raw = "sent" then .ok .sent
  else if raw = "dismissed" then .ok .dismissed
  else if raw = "snoozed" then .ok .snoozed
  else if raw = "expired" then .ok .expired
  else .error ("invalid status " ++ lib.quote raw)

def commitmentMatches (workspaceID : String) (status : CommitmentStatus) (r : Commitment) : Bool :=
  EventStore.passes workspaceID r.workspaceID &&
    (decide (status = .unset) || decide (r.status = status))

variable (db : CommitmentStore.DB) (workspaceID : String)

def commitmentsMatching (status : CommitmentStatus) : List Commitment :=
  (lib.listScan workspaceID status).visit (db.rows.filter (commitmentMatches workspaceID status))

/-- `List` of the store: a limit outside 1..1000 is moved into it. -/
def listRows (status : CommitmentStatus)
    (limit : ℤ) : List Commitment :=
  let limit := if limit ≤ 0 then 100 else limit
  let limit := if 1000 < limit then 1000 else limit
  (descending Commitment.createdAtMs
    (commitmentsMatching lib db workspaceID status)).take limit.toNat

def parseLimit (raw : String) : Option ℤ :=
  if raw = "" then some 100
  else match parseInt raw with
    | none => none
    | some v => if v < 1 ∨ 1000 < v then none else some v

inductive Request
  | listApprovals (page pageSize status : String)
  | getApproval (id : String)
  | decideApproval (req : DecisionRequest)
  | listCommitments (workspaceID status limit : String)
  | dismissCommitment (id : String)
  /-- The body is `until_ms`, or the error of decoding it. -/
  | snoozeCommitment (id : String) (body : Except String ℤ)
  | deleteCommitment (id : String)
  | inbox (page pageSize : String)
  | home

inductive Response
  | approvals (items : List ApprovalStore.ApprovalRequest) (total : ℕ) (page pageSize : ℤ)
  | approval (a : ApprovalStore.ApprovalRequest)
  | decision (r : ApprovalDecisions.Response)
  | commitments (items : List Commitment) (count : ℕ) (status : CommitmentStatus) (limit : ℤ)
  | commitment (c : Commitment)
  | commitmentID (id : String)
  | deleted (id : String)
  | inbox (r : InboxResponse)
  | home (r : HomeResponse)
  | error (status : ℕ) (error : String) (detail : Option String)
  /-- The handler panics and the connection is dropped. -/
  | panicked

def notFound (id : String) : Response :=
  .error 404 "not_found" (some ("no commitment with id " ++ id))

def markResponse (id : String) :
    Option CommitmentStore.StoreError → Response
  | none =>
      match db.get id with
      | some c => .commitment c
      | none => .commitmentID id
  | some .notFound => notFound id
  | some _ => .error 500 "internal_error" none

def decisionRow (freshID : String) (now : UtcTime) (e : DecisionEvent) :
    EventStore.Row :=
  ⟨freshID, e.kind, "system", "", "gateway", "", "", now, lib.encode e, none, 1⟩

/-- One decision by itself: the row is read, decided and written with nothing in between. -/
def serveDecision (g : Gateway) (freshID : String) (now : UtcTime)
    (req : DecisionRequest) : Gateway × ApprovalDecisions.Response :=
  match checkRequest req with
  | .error r => (g, r)
  | .ok (id, d) =>
      match ApprovalStore.get g.approvals id with
      | none => (g, .notFound "approval not found")
      | some a =>
          if a.1.status = .pending then
            let a := ApprovalStore.decided d now.instant a
            ({ g with
                approvals := ApprovalStore.writeBody g.approvals a now.instant
                events := EventStore.append g.events
                  (decisionRow lib freshID now (decisionEvent d a.1)) },
              .decided a.1 d.target.text)
          else (g, .badRequest "approval is not in pending state")

def serveListCommitments
    (status limit : String) : Response :=
  match parseStatus lib status with
  | .error detail => .error 400 "invalid_status" (some detail)
  | .ok status =>
      match parseLimit limit with
      | none => .error 400 "invalid_limit" (some "limit must be 1..1000")
      | some limit =>
          .commitments (listRows lib db workspaceID status limit)
            (listRows lib db workspaceID status limit).length status limit

def serveMark (g : Gateway) (id : String)
    (mark : CommitmentStore.DB × Option CommitmentStore.StoreError) : Gateway × Response :=
  if id = "" then (g, .error 400 "id_required" none)
  else ({ g with commitments := mark.1 }, markResponse mark.1 id mark.2)

/-- The tenant and workspace are those of the token. -/
def serve (probes : HomeProbes) (freshID : String) (now : UtcTime)
    (tenantID workspaceID : String) (g : Gateway) : Request → Gateway × Response
  | .listApprovals page pageSize status =>
      let (page, pageSize) := parsePagination page pageSize
      let (items, total) := ApprovalStore.list g.approvals page pageSize status
      (g, .approvals items total page pageSize)
  | .getApproval id =>
      if id = "" then (g, .error 400 "approval id is required" none)
      else match ApprovalStore.get g.approvals id with
        | none => (g, .error 404 "approval not found" none)
        | some a => (g, .approval a.1)
  | .decideApproval req =>
      let (g, r) := serveDecision lib g freshID now req
      (g, .decision r)
  | .listCommitments workspaceID status limit =>
      (g, serveListCommitments lib g.commitments workspaceID status limit)
  | .dismissCommitment id =>
      serveMark g id (CommitmentStore.markDismissed g.commitments id (now.instant / 1000000))
  | .snoozeCommitment id body =>
      if id = "" then (g, .error 400 "id_required" none)
      else match body with
        | .error detail => (g, .error 400 "invalid_body" (some detail))
        | .ok untilMs =>
            if untilMs ≤ now.instant / 1000000 then
              (g, .error 400 "invalid_until_ms" (some "until_ms must be in the future"))
            else serveMark g id
              (CommitmentStore.markSnoozed g.commitments id untilMs (now.instant / 1000000))
  | .deleteCommitment id =>
      if id = "" then (g, .error 400 "id_required" none)
      else
        let (db, err) := CommitmentStore.delete g.commitments id
        ({ g with commitments := db },
          match err with
          | none => .deleted id
          | some .notFound => notFound id
          | some _ => .error 500 "internal_error" none)
  | .inbox page pageSize =>
      (g, match listInbox lib.decode g.events tenantID workspaceID page pageSize now.instant with
        | some r => .inbox r
        | none => .panicked)
  | .home => (g, .home (listHome lib probes g.events tenantID workspaceID now.instant))

end IronGolem.GatewayReads
