import IronGolem.GoChannels
import IronGolem.MachineIntegers
import IronGolem.OwnLocks

/-!
The webhook connector and what its methods do with its mutex. Every method is called by one
goroutine after another. The answers of the target, of the server that is shut down and of a caller
that gives up are arguments of the call, and HTTP calls always answer.
-/
namespace IronGolem.WebhookConnector

open GoChannels MachineIntegers OwnLocks

structure Message where
  id : String
  content : String
  metadata : List (String × String)
  timestamp : ℤ
  deriving DecidableEq

def Message.get (msg : Message) (key : String) : String := (msg.metadata.lookup key).getD ""

structure Connector where
  targetURL : String
  method : String
  retryCount : ℤ
  secret : String
  /-- The client is there once `Connect` has come to it. -/
  httpClient : Bool
  connected : Bool
  msgCh : Option (Chan Message)
  /-- Whether the channel is closed, if there is one. -/
  done : Option Bool
  listenAddr : String
  /-- The address of the server, if there is one. -/
  webhookServer : Option String

def Connector.zero : Connector := ⟨"", "", 0, "", false, false, none, none, "", none⟩

/-- What a method does to the outside, in order. -/
inductive Activity
  | waited (delay : ℤ)
  | attempted (attempt : ℕ)
  | requested (method url : String) (body : Option String)
  deriving DecidableEq, Repr

structure Sys where
  conn : Connector
  activity : List Activity

def Sys.zero : Sys := ⟨.zero, []⟩

/-- What becomes of an HTTP request. -/
inductive HttpAnswer
  | badRequest (error : String)
  | failed (error : String)
  | status (code : ℕ)
  deriving DecidableEq, Repr

def update (f : Connector → Connector) : Body Sys Unit :=
  write (fun s => { s with conn := f s.conn })

def log (a : Activity) : Body Sys Unit :=
  write (fun s => { s with activity := s.activity ++ [a] })

/-- `httpClient.Do`; without a client it panics. -/
def clientDo (method url : String) (body : Option String) : Body Sys Unit := do
  let client ← read (fun s => s.conn.httpClient)
  if client then log (.requested method url body) else panic

def defaultRetryCount : ℤ := 3

def isDigit (ch : Char) : Bool := '0' ≤ ch && ch ≤ '9'

def parseDigits (rc : String) : ℤ :=
  rc.toList.foldl (fun parsed ch =>
    if isDigit ch then wrap (parsed * 10 + (ch.toNat - '0'.toNat : ℕ)) else parsed) 0

def retryCountOf (rc : String) : ℤ :=
  if rc = "" then defaultRetryCount
  else if 0 < parseDigits rc then parseDigits rc else defaultRetryCount

def verifyTarget (answer : HttpAnswer) : Body Sys (Except String Unit) := do
  let targetURL ← rLocked (fun s => s.conn.targetURL)
  match answer with
  | .badRequest e => return .error e
  | .failed e =>
      clientDo "HEAD" targetURL none
      return .error e
  | .status _ =>
      clientDo "HEAD" targetURL none
      return .ok ()

section

-- The error with which `encoding/json` reads a text as a map of texts, if it does.
variable (headersError : String → Option String) (config : String → String)

def configError : Option String :=
  if config "target_url" = "" then some "webhook connector: target_url is required"
  else if config "headers" = "" then none
  else (headersError (config "headers")).map ("webhook connector: invalid headers JSON: " ++ ·)

/-- What is set before the headers are read. -/
def addressed (c : Connector) : Connector :=
  { c with
    targetURL := config "target_url"
    method := if config "target_url" = "" then c.method
      else if config "method" = "" then "POST" else config "method" }

def configured (c : Connector) : Connector :=
  { c with
    retryCount := retryCountOf (config "retry_count")
    secret := config "secret"
    listenAddr := if config "listen_addr" = "" then ":3104" else config "listen_addr"
    httpClient := true }

def connect (answer : HttpAnswer) : Body Sys (Except String Unit) :=
  locked do
    update (addressed config)
    match configError headersError config with
    | some e => return .error e
    | none =>
        update (configured config)
        match ← verifyTarget answer with
        | .error e => return .error ("webhook connector: target URL not reachable: " ++ e)
        | .ok () =>
            update (fun c => { c with connected := true, done := some false })
            return .ok ()

/-- The server may fail to shut down. -/
def disconnect (shutdown : Option String) : Body Sys (Except String Unit) :=
  locked do
    let conn ← read Sys.conn
    if !conn.connected then return .ok ()
    else
      update (fun c => { c with connected := false })
      if conn.done = some false then
        update (fun c => { c with done := some true })
        match conn.webhookServer, shutdown with
        | none, _ => return .ok ()
        | some _, some e =>
            return .error ("webhook connector: error shutting down server: " ++ e)
        | some _, none =>
            update (fun c => { c with webhookServer := none })
            return .ok ()
      -- a channel that is absent or closed cannot be closed
      else panic

inductive HealthState
  | healthy
  | degraded
  | disconnected
  deriving DecidableEq, Repr

def health (answer : HttpAnswer) : Body Sys HealthState := do
  let connected ← rLocked (fun s => s.conn.connected)
  if !connected then return .disconnected
  else
    match ← verifyTarget answer with
    | .error _ => return .degraded
    | .ok () => return .healthy

/-- The server and the goroutine that closes the channel are started without the mutex. -/
def receive : Body Sys (Except String Unit) :=
  locked do
    let conn ← read Sys.conn
    if !conn.connected then return .error "webhook connector: not connected"
    else
      update (fun c => { c with msgCh := some .empty, webhookServer := some c.listenAddr })
      return .ok ()

/-- The goroutine that `Receive` starts, once the caller or the connector is done. -/
def closeMsgCh : Body Sys Unit := do
  match (← read (fun s => s.conn.msgCh)).bind Chan.close with
  | none => panic
  | some ch => update (fun c => { c with msgCh := some ch })

def second : ℤ := 1000000000

def baseBackoffDelay : ℤ := 1 * second

def maxBackoffDelay : ℤ := 30 * second

-- What the platform makes of two to this power when it is too large for 64 bits.
variable (outOfRange : ℕ → ℤ)

/-- `time.Duration(math.Pow(2, float64(n)))`. -/
def durationOfPow (n : ℕ) : ℤ := if n < 63 then 2 ^ n else outOfRange n

def backoffDelay (attempt : ℕ) : ℤ :=
  let delay := wrap (durationOfPow outOfRange (attempt - 1) * baseBackoffDelay)
  if maxBackoffDelay < delay then maxBackoffDelay else delay

/-- Headers and authentication of the request are left to the client. -/
def doRequest (method targetURL body : String) (answer : HttpAnswer) :
    Body Sys (Except String Unit) :=
  let content := if body ≠ "" ∧ method ≠ "GET" ∧ method ≠ "HEAD" then some body else none
  match answer with
  | .badRequest e => return .error ("build request: " ++ e)
  | .failed e => do
      clientDo method targetURL content
      return .error ("HTTP request failed: " ++ e)
  | .status code => do
      clientDo method targetURL content
      if 500 ≤ code then return .error ("server error: status " ++ toString code)
      else if 400 ≤ code then return .error ("client error: status " ++ toString code)
      else return .ok ()

/-- Whether the caller gives up before an attempt, and the answer to each attempt. -/
structure Conditions where
  gaveUp : ℕ → Option String
  answer : ℕ → HttpAnswer

/-- One attempt and the wait before it; a delay that is not positive does not wait. -/
def attempt (env : Conditions) (method targetURL body : String) (n : ℕ) :
    Body Sys (Except String Unit) := do
  if n ≠ 0 then log (.waited (max 0 (backoffDelay outOfRange n)))
  log (.attempted n)
  doRequest method targetURL body (env.answer n)

def attempts (env : Conditions) (method targetURL body : String) (retryCount : ℤ) :
    ℕ → ℕ → String → Body Sys (Except String Unit)
  | 0, _, lastErr =>
      return .error ("webhook connector: all " ++ toString (wrap (retryCount + 1)) ++
        " attempts failed: " ++ lastErr)
  | remaining + 1, n, _ =>
      match (if n = 0 then none else env.gaveUp n) with
      | some e => return .error e
      | none => do
          match ← attempt outOfRange env method targetURL body n with
          | .ok () => return .ok ()
          | .error e => attempts env method targetURL body retryCount remaining (n + 1) e

def send (msg : Message) (env : Conditions) : Body Sys (Except String Unit) := do
  let conn ← rLocked Sys.conn
  let targetURL := if msg.get "url" = "" then conn.targetURL else msg.get "url"
  let method := if msg.get "method" = "" then conn.method else msg.get "method"
  attempts outOfRange env method targetURL msg.content conn.retryCount
    (conn.retryCount + 1).toNat 0 "%!w(<nil>)"

structure IncomingRequest where
  method : String
  /-- Absent if it cannot be read. -/
  body : Option String
  header : String → String
  remoteAddr : String
  /-- The clock, read for the id and for the timestamp. -/
  idTime : ℤ
  timestamp : ℤ

structure HttpResponse where
  status : ℕ
  text : String
  deriving DecidableEq, Repr

-- The hexadecimal HMAC of a text under a secret.
variable (hmacHex : String → String → String)

def verifySignature (body signature secret : String) : Bool :=
  if signature = "" then false
  else
    let sig := (signature.toList.dropPrefix? "sha256=".toList).getD signature.toList
    decide (String.ofList sig = hmacHex secret body)

def copiedHeaders : List (String × String) :=
  [("X-Request-ID", "x_request_id"), ("X-Correlation-ID", "x_correlation_id"),
    ("User-Agent", "user_agent")]

variable (r : IncomingRequest)

def normalized (body : String) : Message where
  id := "webhook_" ++ toString r.idTime
  content := body
  metadata := [("content_type", r.header "Content-Type"), ("remote_addr", r.remoteAddr)] ++
    (copiedHeaders.filter (fun h => r.header h.1 ≠ "")).map (fun h => (h.2, r.header h.1))
  timestamp := r.timestamp

/-- A message for which there is no room is dropped; sending on a closed channel panics. -/
def offer (msg : Message) : Body Sys Unit := do
  match ← rLocked (fun s => s.conn.msgCh) with
  | none => return ()
  | some ch =>
      match ch.send msg with
      | none => panic
      | some sent =>
          if ch.hasRoom 64 then update (fun c => { c with msgCh := some sent }) else return ()

def IncomingRequest.signature : String :=
  if r.header "X-Signature-256" = "" then r.header "X-Hub-Signature-256"
  else r.header "X-Signature-256"

def handleIncoming : Body Sys HttpResponse := do
  if r.method ≠ "POST" then return ⟨405, "method not allowed"⟩
  else
    match r.body with
    | none => return ⟨400, "read error"⟩
    | some body =>
        let secret ← rLocked (fun s => s.conn.secret)
        if secret ≠ "" ∧ verifySignature hmacHex body r.signature secret = false then
          return ⟨401, "invalid signature"⟩
        else
          offer (normalized r body)
          return ⟨200, ""⟩

/-- A call of a method, or the goroutine of an earlier `Receive` coming to its end. -/
inductive Event
  | connect (config : String → String) (answer : HttpAnswer)
  | disconnect (shutdown : Option String)
  | health (answer : HttpAnswer)
  | send (msg : Message) (env : Conditions)
  | receive
  | handleIncoming (r : IncomingRequest)
  | closeMsgCh

def Event.body : Event → Body Sys Unit
  | connect config answer => do
      let _ ← WebhookConnector.connect headersError config answer
      return ()
  | disconnect shutdown => do
      let _ ← WebhookConnector.disconnect shutdown
      return ()
  | health answer => do
      let _ ← WebhookConnector.health answer
      return ()
  | send msg env => do
      let _ ← WebhookConnector.send outOfRange msg env
      return ()
  | receive => do
      let _ ← WebhookConnector.receive
      return ()
  | handleIncoming r => do
      let _ ← WebhookConnector.handleIncoming hmacHex r
      return ()
  | closeMsgCh => WebhookConnector.closeMsgCh

theorem keeps_update (f : Connector → Connector) : Keeps (update f) := keeps_write _

theorem keeps_log (a : Activity) : Keeps (log a) := keeps_write _

theorem keeps_clientDo (method url : String) (body : Option String) :
    Keeps (clientDo method url body) := by
  refine (keeps_read _).bind ?_
  intro client
  split
  · exact keeps_log _
  · exact keeps_panic

variable (answer : HttpAnswer)

theorem returns_verifyTarget : Returns (verifyTarget answer) := by
  refine (returns_rLocked _).bind ?_
  intro targetURL
  cases answer with
  | badRequest e => exact (keeps_pure _).returns
  | _ => exact ((keeps_clientDo _ _ _).bind (fun _ => keeps_pure _)).returns

theorem returns_disconnect (shutdown : Option String) : Returns (disconnect shutdown) := by
  apply Keeps.locked
  refine (keeps_read _).bind ?_
  intro conn
  split
  · exact keeps_pure _
  · refine (keeps_update _).bind ?_
    intro _
    split
    · refine (keeps_update _).bind ?_
      intro _
      split
      · exact keeps_pure _
      · exact keeps_pure _
      · exact (keeps_update _).bind (fun _ => keeps_pure _)
    · exact keeps_panic

theorem returns_health : Returns (health answer) := by
  refine (returns_rLocked _).bind ?_
  intro connected
  split
  · exact (keeps_pure _).returns
  · refine (returns_verifyTarget answer).bind ?_
    intro reached
    cases reached with
    | _ => exact (keeps_pure _).returns

theorem returns_receive : Returns receive := by
  apply Keeps.locked
  refine (keeps_read _).bind ?_
  intro conn
  split
  · exact keeps_pure _
  · exact (keeps_update _).bind (fun _ => keeps_pure _)

theorem keeps_closeMsgCh : Keeps closeMsgCh := by
  refine (keeps_read _).bind ?_
  intro ch
  split
  · exact keeps_panic
  · exact keeps_update _

theorem keeps_doRequest (method targetURL body : String) (answer : HttpAnswer) :
    Keeps (doRequest method targetURL body answer) := by
  cases answer with
  | badRequest e => exact keeps_pure _
  | failed e => exact (keeps_clientDo _ _ _).bind (fun _ => keeps_pure _)
  | status code =>
    refine (keeps_clientDo _ _ _).bind ?_
    intro _
    split
    · exact keeps_pure _
    · split <;> exact keeps_pure _

variable (env : Conditions)

theorem keeps_attempt (method targetURL body : String) (n : ℕ) :
    Keeps (attempt outOfRange env method targetURL body n) := by
  have hrest : Keeps (log (.attempted n) >>= fun _ =>
      doRequest method targetURL body (env.answer n)) :=
    (keeps_log _).bind (fun _ => keeps_doRequest _ _ _ _)
  unfold attempt
  split
  · exact (keeps_log _).bind (fun _ => hrest)
  · exact (keeps_pure ()).bind (fun _ => hrest)

theorem keeps_attempts (method targetURL body : String) (retryCount : ℤ)
    (remaining n : ℕ) (lastErr : String) :
    Keeps (attempts outOfRange env method targetURL body retryCount remaining n lastErr) := by
  induction remaining generalizing n lastErr with
  | zero => exact keeps_pure _
  | succ remaining ih =>
    rw [attempts]
    split
    · exact keeps_pure _
    · refine (keeps_attempt outOfRange env method targetURL body n).bind ?_
      intro result
      cases result with
      | ok u => exact keeps_pure _
      | error e => exact ih (n + 1) e

variable (msg : Message)

theorem returns_send (env : Conditions) : Returns (send outOfRange msg env) := by
  refine (returns_rLocked _).bind ?_
  intro conn
  exact (keeps_attempts outOfRange env _ _ _ _ _ _ _).returns

theorem returns_offer : Returns (offer msg) := by
  refine (returns_rLocked _).bind ?_
  intro ch
  apply Keeps.returns
  split
  · exact keeps_pure _
  · split
    · exact keeps_panic
    · split
      · exact keeps_update _
      · exact keeps_pure _

theorem returns_handleIncoming (r : IncomingRequest) : Returns (handleIncoming hmacHex r) := by
  unfold handleIncoming
  split
  · exact (keeps_pure _).returns
  · split
    · exact (keeps_pure _).returns
    · refine (returns_rLocked _).bind ?_
      intro secret
      split
      · exact (keeps_pure _).returns
      · exact (returns_offer _).bind (fun _ => (keeps_pure _).returns)

def ReachesTarget : Prop :=
  config "target_url" ≠ "" ∧ (config "headers" = "" ∨ headersError (config "headers") = none)

variable (config : String → String)

theorem configError_eq_none_iff :
    configError headersError config = none ↔ ReachesTarget headersError config := by
  unfold configError ReachesTarget
  by_cases htarget : config "target_url" = ""
  · simp [htarget]
  · by_cases hheaders : config "headers" = "" <;> simp [htarget, hheaders]

variable {g : Guarded Sys}

theorem verifyTarget_of_writing
    (h : g.hold.writing = true) : (verifyTarget answer).run g = (.error .waits, g) :=
  run_bind_error _ (rLocked_of_writing _ h)

theorem connect_waits (answer : HttpAnswer)
    (hfree : g.hold = Hold.free) (h : ReachesTarget headersError config) :
    ((connect headersError config answer).run g).1 = .error .waits := by
  have hconfig := (configError_eq_none_iff headersError config).mpr h
  apply locked_of_waits hfree
  rw [update, run_write_bind, hconfig]
  simp only [update, run_write_bind]
  rw [run_bind_error _ (verifyTarget_of_writing answer rfl)]

theorem returns_connect (answer : HttpAnswer) (h : ¬ ReachesTarget headersError config) :
    Returns (connect headersError config answer) := by
  have hconfig := (configError_eq_none_iff headersError config).not.mpr h
  obtain ⟨e, he⟩ := Option.ne_none_iff_exists'.mp hconfig
  apply Keeps.locked
  refine (keeps_update _).bind ?_
  intro _
  rw [he]
  exact keeps_pure _

def Event.ReachesTarget : Event → Prop
  | connect config _ => WebhookConnector.ReachesTarget headersError config
  | _ => False

variable (e : Event)

theorem Event.returns (h : ¬ e.ReachesTarget headersError) :
    Returns (e.body headersError outOfRange hmacHex) := by
  cases e with
  | connect config answer =>
    exact (returns_connect headersError config answer h).bind (fun _ => (keeps_pure _).returns)
  | disconnect shutdown =>
    exact (returns_disconnect shutdown).bind (fun _ => (keeps_pure _).returns)
  | health answer => exact (returns_health answer).bind (fun _ => (keeps_pure _).returns)
  | send msg env => exact (returns_send outOfRange msg env).bind (fun _ => (keeps_pure _).returns)
  | receive => exact returns_receive.bind (fun _ => (keeps_pure _).returns)
  | handleIncoming r =>
    exact (returns_handleIncoming hmacHex r).bind (fun _ => (keeps_pure _).returns)
  | closeMsgCh => exact keeps_closeMsgCh.returns

theorem Event.waits (g : Guarded Sys) (h : e.ReachesTarget headersError)
    (hfree : g.hold = Hold.free) :
    ((e.body headersError outOfRange hmacHex).run g).1 = .error .waits := by
  cases e with
  | connect config answer =>
    have hwaits := connect_waits headersError config answer hfree h
    exact congrArg Prod.fst (run_bind_error _ (Prod.ext hwaits rfl))
  | _ => exact h.elim

/-- All calls of a sequence return exactly if no `Connect` among them comes to the target. -/
theorem calls_return_iff_target_unreached (events : List Event) (s : Sys) :
    CallsReturn (events.map (Event.body headersError outOfRange hmacHex)) ⟨s, Hold.free⟩ ↔
      ∀ e ∈ events, ¬ e.ReachesTarget headersError := by
  refine callsReturn_iff _ (fun e : Event => ¬ e.ReachesTarget headersError) ?_ ?_ events _ rfl
  · intro e he
    exact e.returns headersError outOfRange hmacHex he
  · intro e g he hfree
    exact e.waits headersError outOfRange hmacHex g (not_not.mp he) hfree

end

def targetOnly : String → String
  | "target_url" => "https://example.com/hook"
  | _ => ""

/-- A first `Connect` with a target and nothing else never returns. -/
theorem connect_to_target_never_returns :
    ((connect (fun _ => none) targetOnly (.status 200)).run ⟨Sys.zero, Hold.free⟩).1 =
      .error .waits ∧
    ¬ CallsReturn ([Event.connect targetOnly (.status 200)].map
      (Event.body (fun _ => none) (fun _ => 0) (fun _ _ => ""))) ⟨Sys.zero, Hold.free⟩ := by
  have hwaits := connect_waits (fun _ => none) targetOnly (.status 200) (g := ⟨Sys.zero, Hold.free⟩)
    rfl ⟨by decide, .inl rfl⟩
  refine ⟨hwaits, ?_⟩
  intro h
  exact h.1 (congrArg Prod.fst (run_bind_error _ (Prod.ext hwaits rfl)))

end IronGolem.WebhookConnector
