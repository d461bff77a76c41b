import IronGolem.GoChannels
import IronGolem.InboundRequests
import IronGolem.NumberedLists
import IronGolem.TransitionRuns

/-!
The Slack connector, its sessions and the workers that feed their channels. A successful `Connect`
makes a channel, a done channel and a fresh `sync.Once`.
-/
namespace IronGolem.SlackSessions

open GoChannels InboundRequests NumberedLists TransitionRuns List Option

structure SlackEvent where
  type : String
  subtype : String
  user : String
  botID : String
  text : String
  channel : String
  channelType : String
  ts : String
  eventTS : String
  deriving DecidableEq, Repr

structure EventsAPIPayload where
  teamID : String
  event : SlackEvent
  deriving DecidableEq, Repr

/-- A payload that cannot be decoded is `none`. -/
structure SocketEnvelope where
  envelopeID : String
  type : String
  payload : Option EventsAPIPayload
  deriving DecidableEq, Repr

structure Message where
  id : String
  content : String
  metadata : List (String × String)
  /-- In nanoseconds. -/
  timestamp : ℤ
  deriving DecidableEq, Repr

/-- Seconds and at most six digits of a fraction; a text that is no number stands for now. -/
def slackTS (now : ℤ) (ts : String) : ℤ :=
  let sec := ts.toList.takeWhile (fun c => c ≠ '.')
  let frac := ((ts.toList.drop (sec.length + 1)).take 6)
  match parseInt (String.ofList sec) with
  | none => now
  | some s =>
      match parseInt (String.ofList frac) with
      | none => s * 1000000000
      | some f => s * 1000000000 + f * 10 ^ (6 - frac.length) * 1000

def normalizeEvent (now : ℤ) (payload : Option EventsAPIPayload) (selfUserID : String) :
    Option Message :=
  match payload with
  | none => none
  | some p =>
      let ev := p.event
      if ev.type ≠ "message" then none
      else if ev.subtype ≠ "" then none
      else if ev.botID ≠ "" then none
      else if selfUserID ≠ "" ∧ ev.user = selfUserID then none
      else if ev.channel = "" then none
      else some
        { id := "slack_" ++ ev.channel ++ "_" ++ ev.ts
          content := ev.text
          metadata := [("channel", ev.channel), ("user", ev.user), ("ts", ev.ts)] ++
            (if ev.channelType = "" then [] else [("channel_type", ev.channelType)]) ++
            (if ev.eventTS = "" then [] else [("event_ts", ev.eventTS)]) ++
            (if p.teamID = "" then [] else [("team", p.teamID)])
          timestamp := slackTS now ev.ts }

/-- Where a worker stands, with the id and the channel that it has read. -/
inductive Pc
  | head
  | opening
  | dialing
  | entering
  | reading (self : String) (ch : Option ℕ)
  | acking (self : String) (ch : Option ℕ) (env : SocketEnvelope)
  | handling (self : String) (ch : Option ℕ) (env : SocketEnvelope)
  | sending (self : String) (ch : Option ℕ) (m : Message)
  | judging
  | waiting
  | exiting
  | ended
  deriving DecidableEq, Repr

structure Worker where
  /-- The session whose channel and done channel `Receive` gave to it. -/
  session : ℕ
  cancelled : Bool
  pc : Pc
  deriving DecidableEq, Repr

/-- The sessions are numbered, and the channel and the done channel of a session have its number. -/
structure Sys where
  connected : Bool
  appToken : String
  selfUserID : String
  /-- The session whose channels stand in the connector. -/
  session : Option ℕ
  receiveStarted : Bool
  workerOwnsCh : Bool
  /-- The guard `closeMsgOnce` was used. -/
  onceUsed : Bool
  /-- Which done channels are closed. -/
  dones : List Bool
  chans : List (Chan Message)
  workers : List Worker
  /-- Calls of `Disconnect` before their close of the done channel, with what they read. -/
  closing : List (ℕ × Bool)
  /-- Calls of `Disconnect` before their use of the guard. -/
  dropping : List ℕ
  /-- Calls of `Receive` before their start of a worker. -/
  starting : List ℕ
  /-- History: the channels that `Receive` returned. -/
  returned : List ℕ
  /-- History: sends of workers and closes, each with its session and the channel. -/
  sends : List (ℕ × ℕ)
  closes : List (ℕ × ℕ)
  /-- History: a worker sent on a closed channel. -/
  sentOnClosed : Bool
  panicked : Bool
  deriving DecidableEq

def init : Sys :=
  ⟨false, "", "", none, false, false, false, [], [], [], [], [], [], [], [], [], false, false⟩

def capacity : ℕ := 64

variable (s : Sys) (i : ℕ) (w : Worker)

def Sys.setWorker : Sys := { s with workers := s.workers.set i w }

def Sys.panic : Sys := { s with panicked := true }

/-- What `Connect` reads of its configuration, and the token in the environment. -/
structure Config where
  botToken : String
  appToken : String
  envAppToken : String
  deriving DecidableEq, Repr

def Config.chosenAppToken (config : Config) : String :=
  if config.appToken = "" then config.envAppToken else config.appToken

/-- `auth` is the user id that `auth.test` answers, `none` for a failure. -/
inductive Act
  | connect (config : Config) (auth : Option String)
  | disconnect
  | closeDone (k : ℕ) (owns : Bool)
  | drop (k : ℕ)
  | receive
  | startWorker (k : ℕ)
  | cancel (i : ℕ)
  | bridge (i : ℕ)
  | consume (ch : ℕ)
  | next (i : ℕ)
  | answer (i : ℕ) (ok : Bool)
  | broken (i : ℕ)
  | frame (i : ℕ) (env : Option SocketEnvelope)
  | handle (i : ℕ) (now : ℤ)
  | send (i : ℕ)
  | leave (i : ℕ)
  | retry (i : ℕ)
  deriving DecidableEq, Repr

/-- The end of `Connect`, which holds the lock from its beginning. -/
def commit : Sys :=
  { s with
    session := some s.chans.length
    chans := s.chans ++ [Chan.empty]
    dones := s.dones ++ [false]
    receiveStarted := false
    workerOwnsCh := false
    onceUsed := false
    connected := true }

def connect (config : Config) (auth : Option String) : Sys :=
  let s' := { s with appToken := config.chosenAppToken }
  if config.botToken = "" then s'
  else match auth with
    | none => s'
    | some userID => commit { s' with selfUserID := userID }

def disconnect : Sys :=
  match s.connected, s.session with
  | true, some k => { s with connected := false, closing := s.closing ++ [(k, s.workerOwnsCh)] }
  | _, _ => s

variable (k : ℕ)

/-- `close(done)`, after which a call that read `workerOwnsCh` as false goes on. -/
def closeDone (owns : Bool) : Option Sys :=
  if (k, owns) ∈ s.closing then
    match s.dones[k]? with
    | some false =>
        some { s with
          closing := s.closing.erase (k, owns)
          dones := s.dones.set k true
          dropping := if owns then s.dropping else s.dropping ++ [k] }
    | _ => some s.panic
  else none

/-- The channel of session `k` is closed through the guard in the connector. -/
def closeOnce : Option Sys :=
  if s.onceUsed then some s
  else match s.chans[k]? with
    | none => none
    | some c =>
        match c.close with
        | none => some s.panic
        | some c' =>
            some { s with
              onceUsed := true
              chans := s.chans.set k c'
              closes := s.closes ++ [(k, k)] }

def drop : Option Sys :=
  if k ∈ s.dropping then closeOnce { s with dropping := s.dropping.erase k } k else none

/-- `Receive` fails without a connection. -/
def receive : Sys :=
  match s.connected, s.session with
  | true, some k =>
      let s' := { s with returned := s.returned ++ [k] }
      if s.receiveStarted then s'
      else if s.appToken = "" then { s' with receiveStarted := true }
      else { s' with
        receiveStarted := true
        workerOwnsCh := true
        starting := s.starting ++ [k] }
  | _, _ => s

def startWorker : Option Sys :=
  if k ∈ s.starting then
    some { s with
      starting := s.starting.erase k
      workers := s.workers ++ [⟨k, false, .head⟩] }
  else none

def nextStep : Option Sys :=
  match w.pc with
  | .head =>
      some (s.setWorker i { w with pc := if w.cancelled then .exiting else .opening })
  | .entering => some (s.setWorker i { w with pc := .reading s.selfUserID s.session })
  | .judging =>
      some (s.setWorker i { w with pc := if w.cancelled then .exiting else .waiting })
  | .exiting => closeOnce (s.setWorker i { w with pc := .ended }) w.session
  | _ => none

def answerStep (ok : Bool) : Option Sys :=
  match w.pc with
  | .opening => some (s.setWorker i { w with pc := if ok then .dialing else .judging })
  | .dialing => some (s.setWorker i { w with pc := if ok then .entering else .judging })
  | .acking self ch env =>
      some (s.setWorker i { w with
        pc := if ok ∨ env.envelopeID = "" then .handling self ch env else .judging })
  | _ => none

/-- `conn.Read` fails. -/
def brokenStep : Option Sys :=
  match w.pc with
  | .reading _ _ => some (s.setWorker i { w with pc := .judging })
  | _ => none

def frameStep (env : Option SocketEnvelope) : Option Sys :=
  match w.pc with
  | .reading self ch =>
      some (s.setWorker i { w with
        pc := match env with
          | none => .reading self ch
          | some env => .acking self ch env })
  | _ => none

def handleStep (now : ℤ) : Option Sys :=
  match w.pc with
  | .handling self ch env =>
      some (s.setWorker i { w with
        pc :=
          if env.type = "disconnect" then .judging
          else if env.type = "events_api" then
            match normalizeEvent now env.payload self with
            | none => .reading self ch
            | some m => .sending self ch m
          else .reading self ch })
  | _ => none

/-- The panic of a send on a closed channel is recovered and ends the connection. -/
def sendStep : Option Sys :=
  match w.pc with
  | .sending self (some ch) m =>
      match s.chans[ch]? with
      | none => none
      | some c =>
          match c.send m with
          | none => some { s.setWorker i { w with pc := .judging } with sentOnClosed := true }
          | some c' =>
              if c.hasRoom capacity then
                some { s.setWorker i { w with pc := .reading self (some ch) } with
                  chans := s.chans.set ch c'
                  sends := s.sends ++ [(w.session, ch)] }
              else none
  | _ => none

def leaveStep : Option Sys :=
  match w.pc with
  | .sending _ _ _ =>
      if w.cancelled then some (s.setWorker i { w with pc := .judging }) else none
  | .waiting => if w.cancelled then some (s.setWorker i { w with pc := .exiting }) else none
  | _ => none

def retryStep : Option Sys :=
  match w.pc with
  | .waiting => some (s.setWorker i { w with pc := .head })
  | _ => none

/-- The goroutine that turns the closed done channel into the end of the context. -/
def bridgeStep : Option Sys :=
  if s.dones[w.session]? = some true then some (s.setWorker i { w with cancelled := true })
  else none

def enabled : Act → Option Sys
  | .connect config auth => some (connect s config auth)
  | .disconnect => some (disconnect s)
  | .closeDone k owns => closeDone s k owns
  | .drop k => drop s k
  | .receive => some (receive s)
  | .startWorker k => startWorker s k
  | .cancel i => s.workers[i]?.map (fun w => s.setWorker i { w with cancelled := true })
  | .bridge i => s.workers[i]?.bind (bridgeStep s i)
  | .consume ch =>
      match s.chans[ch]? with
      | some c =>
          if c.buffered = [] then none else some { s with chans := s.chans.set ch c.receive }
      | none => none
  | .next i => s.workers[i]?.bind (nextStep s i)
  | .answer i ok => s.workers[i]?.bind (fun w => answerStep s i w ok)
  | .broken i => s.workers[i]?.bind (brokenStep s i)
  | .frame i env => s.workers[i]?.bind (fun w => frameStep s i w env)
  | .handle i now => s.workers[i]?.bind (fun w => handleStep s i w now)
  | .send i => s.workers[i]?.bind (sendStep s i)
  | .leave i => s.workers[i]?.bind (leaveStep s i)
  | .retry i => s.workers[i]?.bind (retryStep s i)

def step (a : Act) : Option Sys := if s.panicked then none else enabled s a

def Sys.chanClosed : Prop := ∃ c, s.chans[k]? = some c ∧ c.closed = true

/-- A `Disconnect` or a later `Connect` has ended the session. -/
def Sys.SessionOver : Prop := s.session ≠ some k ∨ s.connected = false

/-- No call for the session is under way and its worker has stopped. -/
structure Settled (s : Sys) (k : ℕ) : Prop where
  closing : ∀ e ∈ s.closing, e.1 ≠ k
  dropping : k ∉ s.dropping
  starting : k ∉ s.starting
  workers : ∀ w ∈ s.workers, w.session = k → w.pc = .ended

/-- Nobody panics; sessions send on and close their own channels once, the returned ones in the end.
-/
structure ChannelsSafe (s : Sys) : Prop where
  running : s.panicked = false
  unharmed : s.sentOnClosed = false
  sends_own : ∀ e ∈ s.sends, e.1 = e.2
  closes_own : ∀ e ∈ s.closes, e.1 = e.2
  closed_once : (s.closes.map Prod.snd).Nodup
  closed_after : ∀ k ∈ s.returned, s.SessionOver k → Settled s k → s.chanClosed k

/-- The workers have ended, no other call is under way, and the last channel is closed. -/
structure NothingLeft (s : Sys) : Prop where
  workers : ∀ w ∈ s.workers, w.pc = .ended
  closing : s.closing = []
  dropping : s.dropping = []
  starting : s.starting = []
  chan : ∀ k ∈ s.returned, s.session = some k → (s.chans[k]?.all fun c => c.closed) = true

def ConnectsAlone : Act → Prop
  | .connect config auth => config.botToken ≠ "" → auth.isSome = true → NothingLeft s
  | _ => True

instance (s : Sys) : Decidable (NothingLeft s) :=
  decidable_of_iff ((∀ w ∈ s.workers, w.pc = .ended) ∧ s.closing = [] ∧ s.dropping = [] ∧
      s.starting = [] ∧
      ∀ k ∈ s.returned, s.session = some k → (s.chans[k]?.all fun c => c.closed) = true)
    ⟨fun h => ⟨h.1, h.2.1, h.2.2.1, h.2.2.2.1, h.2.2.2.2⟩,
      fun h => ⟨h.workers, h.closing, h.dropping, h.starting, h.chan⟩⟩

instance (s : Sys) (a : Act) : Decidable (ConnectsAlone s a) := by
  unfold ConnectsAlone
  split <;> infer_instance

/-- Who closes the channel: nobody yet, a starting `Receive`, or worker `i`. -/
inductive Owner
  | nobody
  | starting
  | worker (i : ℕ) (ended : Bool)

/-- How far `Disconnect` has come. -/
inductive Link
  | up
  | closing
  | dropping
  | down

def HasOwner : Owner → Prop
  | .nobody => s.workerOwnsCh = false ∧ s.starting = [] ∧ ∀ w ∈ s.workers, w.session ≠ k
  | .starting => s.workerOwnsCh = true ∧ s.starting = [k] ∧ ∀ w ∈ s.workers, w.session ≠ k
  | .worker i ended =>
      s.workerOwnsCh = true ∧ s.starting = [] ∧
        (∃ w, s.workers[i]? = some w ∧ w.session = k ∧ (w.pc = .ended ↔ ended = true)) ∧
        ∀ (j : ℕ) w, s.workers[j]? = some w → w.session = k → j = i

def HasLink : Link → Prop
  | .up => s.connected = true ∧ s.closing = [] ∧ s.dropping = [] ∧ s.dones[k]? = some false
  | .closing =>
      s.connected = false ∧ s.closing = [(k, s.workerOwnsCh)] ∧ s.dropping = [] ∧
        s.dones[k]? = some false
  | .dropping =>
      s.connected = false ∧ s.closing = [] ∧ s.dropping = [k] ∧ s.workerOwnsCh = false
  | .down => s.connected = false ∧ s.closing = [] ∧ s.dropping = []

/-- The channel is closed by its worker or, without one, by `Disconnect`. -/
def closedAt : Owner → Link → Bool
  | .nobody, .down => true
  | .worker _ ended, _ => ended
  | _, _ => false

structure Stage (s : Sys) (k : ℕ) (o : Owner) (l : Link) : Prop where
  owner : HasOwner s k o
  link : HasLink s k l
  chan : ∃ c, s.chans[k]? = some c ∧ c.closed = closedAt o l
  once : s.onceUsed = closedAt o l

def Pc.target : Pc → Option (Option ℕ)
  | reading _ ch => some ch
  | acking _ ch _ => some ch
  | handling _ ch _ => some ch
  | sending _ ch _ => some ch
  | _ => none

structure WorkerOk (s : Sys) (w : Worker) : Prop where
  known : w.session < s.chans.length
  current : w.pc ≠ .ended → s.session = some w.session
  target : ∀ ch, w.pc.target = some ch → ch = some w.session

structure Inv (s : Sys) : Prop where
  running : s.panicked = false
  unharmed : s.sentOnClosed = false
  length : s.dones.length = s.chans.length
  idle : s.session = none → s.connected = false ∧ s.closing = [] ∧ s.dropping = [] ∧ s.starting = []
  started : s.workerOwnsCh = true → s.receiveStarted = true
  last : ∀ k, s.session = some k → k + 1 = s.chans.length ∧ ∃ o l, Stage s k o l
  workers : ∀ w ∈ s.workers, WorkerOk s w
  past : ∀ k ∈ s.returned, s.session ≠ some k → s.chanClosed k
  sends_own : ∀ e ∈ s.sends, e.1 = e.2
  closes_own : ∀ e ∈ s.closes, e.1 = e.2
  closed_once : s.closes.Nodup
  closes_iff : ∀ k, (k, k) ∈ s.closes ↔ s.chanClosed k

theorem inv_init : Inv init where
  running := rfl
  unharmed := rfl
  length := rfl
  idle := fun _ => ⟨rfl, rfl, rfl, rfl⟩
  started := nofun
  last := nofun
  workers := nofun
  past := nofun
  sends_own := nofun
  closes_own := nofun
  closed_once := nodup_nil
  closes_iff := fun k => ⟨nofun, fun ⟨c, hc, _⟩ => by cases hc⟩

variable (s : Sys) {k : ℕ} {o : Owner} {l : Link}

theorem closed_of_settled (h : Stage s k o l)
    (hconnected : s.connected = false) (hsettled : Settled s k) : closedAt o l = true := by
  obtain ⟨howner, hlink, -, -⟩ := h
  cases o with
  | nobody =>
    cases l with
    | up => rw [hlink.1] at hconnected; cases hconnected
    | closing => exact absurd rfl (hsettled.closing (k, s.workerOwnsCh) (by simp [hlink.2.1]))
    | dropping => exact absurd (by simp [hlink.2.2.1]) hsettled.dropping
    | down => rfl
  | starting => exact absurd (by simp [howner.2.1]) hsettled.starting
  | worker i ended =>
    obtain ⟨w, hw, hk, hended⟩ := howner.2.2.1
    exact hended.mp (hsettled.workers w (mem_of_getElem? hw) hk)

/-- The invariant excludes a send on a closed channel and a second close. -/
theorem safe_of_inv (h : Inv s) : ChannelsSafe s := by
  refine ⟨h.running, h.unharmed, h.sends_own, h.closes_own,
    nodup_map_snd h.closes_own h.closed_once, ?_⟩
  intro k hk hover hsettled
  by_cases hsession : s.session = some k
  · obtain ⟨-, o, l, hstage⟩ := h.last k hsession
    have hconnected : s.connected = false := hover.resolve_left (fun hne => hne hsession)
    obtain ⟨c, hc, hclosed⟩ := hstage.chan
    exact ⟨c, hc, hclosed.trans (closed_of_settled s hstage hconnected hsettled)⟩
  · exact h.past k hk hsession

/-- A worker that has not ended belongs to the current session. -/
theorem stage_of_alive {i : ℕ} {w : Worker} (h : Inv s) (hw : s.workers[i]? = some w)
    (hpc : w.pc ≠ .ended) : ∃ l, Stage s w.session (.worker i false) l := by
  have hmem := mem_of_getElem? hw
  obtain ⟨-, o, l, hstage⟩ := h.last w.session ((h.workers w hmem).current hpc)
  have howner := hstage.owner
  cases o with
  | worker j ended =>
    obtain rfl := howner.2.2.2 i w hw rfl
    obtain ⟨w', hw', -, hended⟩ := howner.2.2.1
    obtain rfl := some.inj (hw.symm.trans hw')
    cases ended with
    | true => exact absurd (hended.mpr rfl) hpc
    | false => exact ⟨l, hstage⟩
  | _ => exact absurd rfl (howner.2.2 w hmem)

theorem hasOwner_setWorker {i : ℕ} {w w' : Worker} (h : HasOwner s k o)
    (hw : s.workers[i]? = some w) (hsession : w'.session = w.session)
    (hended : w'.pc = .ended ↔ w.pc = .ended) : HasOwner (s.setWorker i w') k o := by
  have hlt : i < s.workers.length := (List.getElem?_eq_some_iff.mp hw).1
  have hkeeps (hnone : ∀ v ∈ s.workers, v.session ≠ k) :
      ∀ v ∈ s.workers.set i w', v.session ≠ k := by
    intro v hv
    rcases List.mem_or_eq_of_mem_set hv with hv | rfl
    · exact hnone v hv
    · exact hsession ▸ hnone w (List.mem_of_getElem? hw)
  cases o with
  | worker j ended =>
    obtain ⟨howns, hstarting, ⟨v, hv, hk, hv'⟩, hunique⟩ := h
    refine ⟨howns, hstarting, ?_, ?_⟩
    · by_cases hij : i = j
      · subst hij
        obtain rfl := some.inj (hw.symm.trans hv)
        exact ⟨w', List.getElem?_set_self hlt, hsession.trans hk, hended.trans hv'⟩
      · exact ⟨v, (List.getElem?_set_ne hij).trans hv, hk, hv'⟩
    · intro j' v' hv' hk'
      rcases getElem?_set_eq_some _ _ _ hv' with ⟨rfl, rfl⟩ | ⟨-, hv'⟩
      · exact hunique i w hw (hsession.symm.trans hk')
      · exact hunique j' v' hv' hk'
  | _ => exact ⟨h.1, h.2.1, hkeeps h.2.2⟩

theorem inv_setWorker {i : ℕ} {w w' : Worker} (h : Inv s)
    (hw : s.workers[i]? = some w) (hsession : w'.session = w.session)
    (hended : w'.pc = .ended ↔ w.pc = .ended)
    (htarget : ∀ ch, w'.pc.target = some ch → ch = some w.session) : Inv (s.setWorker i w') := by
  refine { h with last := ?_, workers := ?_ }
  · intro k hk
    obtain ⟨hlast, o, l, hstage⟩ := h.last k hk
    exact ⟨hlast, o, l, { hstage with
      owner := hasOwner_setWorker s hstage.owner hw hsession hended
      link := by cases l <;> exact hstage.link }⟩
  · intro v hv
    rcases mem_or_eq_of_mem_set hv with hv | rfl
    · exact { h.workers v hv with }
    · have hok := h.workers w (mem_of_getElem? hw)
      refine ⟨hsession ▸ hok.known, fun hpc => ?_, hsession ▸ htarget⟩
      rw [hsession]
      exact hok.current (fun hend => hpc (hended.mpr hend))

theorem inv_move {i : ℕ} {w : Worker} (pc : Pc) (h : Inv s)
    (hw : s.workers[i]? = some w) (hpc : w.pc ≠ .ended) (hpc' : pc ≠ .ended)
    (htarget : pc.target = none ∨ pc.target = w.pc.target) :
    Inv (s.setWorker i { w with pc := pc }) := by
  refine inv_setWorker s h hw rfl (iff_of_false hpc' hpc) fun ch hch => ?_
  rcases htarget with hnone | hsame
  · rw [hnone] at hch
    cases hch
  · exact (h.workers w (mem_of_getElem? hw)).target ch (hsame ▸ hch)

variable {c : Chan Message}

theorem closeOnce_of_open (honce : s.onceUsed = false)
    (hc : s.chans[k]? = some c) (hopen : c.closed = false) :
    closeOnce s k = some { s with
      onceUsed := true
      chans := s.chans.set k { c with closed := true }
      closes := s.closes ++ [(k, k)] } := by
  unfold closeOnce
  rw [if_neg (by rw [honce]; nofun)]
  simp [hc, Chan.close_of_open c hopen]

variable (u : Sys)

/-- Closing one channel leaves the others as they are. -/
theorem chanClosed_set_iff (k j : ℕ) (hc : s.chans[k]? = some c)
    (hu : u.chans = s.chans.set k { c with closed := true }) :
    u.chanClosed j ↔ s.chanClosed j ∨ j = k := by
  have hlt : k < s.chans.length := (List.getElem?_eq_some_iff.mp hc).1
  unfold Sys.chanClosed
  rw [hu]
  by_cases hkj : k = j
  · subst hkj
    exact iff_of_true ⟨_, List.getElem?_set_self hlt, rfl⟩ (.inr rfl)
  · rw [List.getElem?_set_ne hkj, or_iff_left (Ne.symm hkj)]

/-- The channel is closed by a step that ends its worker or a `Disconnect`. -/
theorem inv_close
    {workers : List Worker} {dropping : List ℕ} (h : Inv s) (hsession : s.session = some k)
    (hc : s.chans[k]? = some c) (hopen : c.closed = false)
    (howner : HasOwner { s with workers := workers } k o)
    (hlink : HasLink { s with dropping := dropping } k l) (hclosed : closedAt o l = true)
    (hworkers : ∀ w ∈ workers, WorkerOk s w) :
    Inv { s with
      workers := workers
      dropping := dropping
      onceUsed := true
      chans := s.chans.set k { c with closed := true }
      closes := s.closes ++ [(k, k)] } := by
  have hlt : k < s.chans.length := (List.getElem?_eq_some_iff.mp hc).1
  have hfresh : (k, k) ∉ s.closes := by
    rw [h.closes_iff k]
    rintro ⟨c', hc', hclosed'⟩
    obtain rfl := some.inj (hc.symm.trans hc')
    rw [hopen] at hclosed'
    cases hclosed'
  refine { h with length := h.length.trans List.length_set.symm, idle := ?_, last := ?_
                  workers := ?_, past := ?_, closes_own := ?_, closed_once := ?_
                  closes_iff := ?_ }
  · intro hnone
    rw [hsession] at hnone
    cases hnone
  · intro j hj
    obtain rfl := some.inj (hsession.symm.trans hj)
    rw [List.length_set]
    exact ⟨(h.last k hsession).1, o, l, by cases o <;> exact howner, by cases l <;> exact hlink,
      ⟨_, List.getElem?_set_self hlt, hclosed.symm⟩, hclosed.symm⟩
  · intro w hw
    exact { hworkers w hw with known := by rw [List.length_set]; exact (hworkers w hw).known }
  · intro j hj hne
    exact (chanClosed_set_iff s _ k j hc rfl).mpr (.inl (h.past j hj hne))
  · intro e he
    rcases List.mem_append.mp he with he | he
    · exact h.closes_own e he
    · rw [List.mem_singleton.mp he]
  · exact List.nodup_append.mpr ⟨h.closed_once, List.nodup_singleton _, fun e he e' he' heq =>
      hfresh (List.mem_singleton.mp he' ▸ heq ▸ he)⟩
  · intro j
    rw [chanClosed_set_iff s _ k j hc rfl, ← h.closes_iff j]
    simp

variable {i : ℕ} {w : Worker}

section

variable (h : Inv s) (hw : s.workers[i]? = some w)

include h hw

/-- The worker that owns the channel closes it when it ends. -/
theorem inv_exit (hpc : w.pc = .exiting)
    (hu : closeOnce (s.setWorker i { w with pc := .ended }) w.session = some u) : Inv u := by
  have halive : w.pc ≠ .ended := by rw [hpc]; nofun
  have hok := h.workers w (List.mem_of_getElem? hw)
  have hlt : i < s.workers.length := (List.getElem?_eq_some_iff.mp hw).1
  obtain ⟨l, hstage⟩ := stage_of_alive s h hw halive
  obtain ⟨c, hc, hopen⟩ := hstage.chan
  obtain ⟨howns, hstarting, -, hunique⟩ := hstage.owner
  rw [closeOnce_of_open (s.setWorker i { w with pc := .ended }) (k := w.session)
    (c := c) hstage.once hc hopen] at hu
  cases hu
  refine inv_close s (k := w.session) (c := c) (o := .worker i true) (l := l) h (hok.current halive)
    hc hopen
    ⟨howns, hstarting, ⟨_, List.getElem?_set_self hlt, rfl, iff_of_true rfl rfl⟩, ?_⟩ hstage.link
      rfl ?_
  · intro j v hv hk
    rcases getElem?_set_eq_some _ _ _ hv with ⟨rfl, -⟩ | ⟨-, hv⟩
    · rfl
    · exact hunique j v hv hk
  · intro v hv
    rcases List.mem_or_eq_of_mem_set hv with hv | rfl
    · exact h.workers v hv
    · exact ⟨hok.known, fun hne => absurd rfl hne, nofun⟩

theorem inv_nextStep (hu : nextStep s i w = some u) : Inv u := by
  have hok := h.workers w (mem_of_getElem? hw)
  obtain ⟨session, cancelled, pc⟩ := w
  cases pc with
  | head | judging => cases hu; cases cancelled <;> exact inv_move s _ h hw nofun nofun (.inl rfl)
  | entering =>
    cases hu
    refine inv_setWorker s h hw rfl (iff_of_false nofun nofun) fun ch hch => ?_
    exact (some.inj hch).symm.trans (hok.current nofun)
  | exiting => exact inv_exit s u h hw rfl hu
  | _ => cases hu

theorem inv_answerStep {ok : Bool} (hu : answerStep s i w ok = some u) : Inv u := by
  obtain ⟨session, cancelled, pc⟩ := w
  cases pc with
  | opening | dialing => cases hu; cases ok <;> exact inv_move s _ h hw nofun nofun (.inl rfl)
  | acking self ch env =>
    simp only [answerStep] at hu
    split at hu
    · cases hu; exact inv_move s _ h hw nofun nofun (.inr rfl)
    · cases hu; exact inv_move s _ h hw nofun nofun (.inl rfl)
  | _ => cases hu

theorem inv_brokenStep (hu : brokenStep s i w = some u) : Inv u := by
  obtain ⟨session, cancelled, pc⟩ := w
  cases pc with
  | reading self ch => cases hu; exact inv_move s _ h hw nofun nofun (.inl rfl)
  | _ => cases hu

theorem inv_frameStep {env : Option SocketEnvelope} (hu : frameStep s i w env = some u) :
    Inv u := by
  obtain ⟨session, cancelled, pc⟩ := w
  cases pc with
  | reading self ch => cases hu; cases env <;> exact inv_move s _ h hw nofun nofun (.inr rfl)
  | _ => cases hu

theorem inv_handleStep {now : ℤ} (hu : handleStep s i w now = some u) : Inv u := by
  obtain ⟨session, cancelled, pc⟩ := w
  cases pc with
  | handling self ch env =>
    cases hu
    split
    · exact inv_move s _ h hw nofun nofun (.inl rfl)
    · refine inv_move s _ h hw nofun ?_ (.inr ?_)
      · split
        · split <;> nofun
        · nofun
      · split
        · split <;> rfl
        · rfl
  | _ => cases hu

end

variable {c' : Chan Message}

theorem chanClosed_set (k j : ℕ) (hc : s.chans[k]? = some c)
    (hclosed : c'.closed = c.closed) (hu : u.chans = s.chans.set k c') :
    u.chanClosed j ↔ s.chanClosed j := by
  have hlt : k < s.chans.length := (List.getElem?_eq_some_iff.mp hc).1
  unfold Sys.chanClosed
  rw [hu]
  by_cases hkj : k = j
  · subst hkj
    rw [List.getElem?_set_self hlt, hc]
    simp [hclosed]
  · rw [List.getElem?_set_ne hkj]

theorem inv_setChan {sends : List (ℕ × ℕ)} (h : Inv s)
    (hc : s.chans[k]? = some c) (hclosed : c'.closed = c.closed) (hsends : ∀ e ∈ sends, e.1 = e.2) :
    Inv { s with chans := s.chans.set k c', sends := sends } := by
  have hlt : k < s.chans.length := (List.getElem?_eq_some_iff.mp hc).1
  have hsame (j : ℕ) := chanClosed_set s { s with chans := s.chans.set k c' } k j
    (c := c) hc hclosed rfl
  refine { h with length := h.length.trans List.length_set.symm, last := ?_, workers := ?_
                  past := fun j hj hne => (hsame j).mpr (h.past j hj hne), sends_own := hsends
                  closes_iff := fun j => (h.closes_iff j).trans (hsame j).symm }
  · intro j hj
    obtain ⟨hlast, o, l, hstage⟩ := h.last j hj
    rw [List.length_set]
    refine ⟨hlast, o, l, by cases o <;> exact hstage.owner, by cases l <;> exact hstage.link, ?_,
      hstage.once⟩
    obtain ⟨d, hd, hdclosed⟩ := hstage.chan
    by_cases hkj : k = j
    · subst hkj
      obtain rfl := some.inj (hc.symm.trans hd)
      exact ⟨c', List.getElem?_set_self hlt, hclosed.trans hdclosed⟩
    · exact ⟨d, (List.getElem?_set_ne hkj).trans hd, hdclosed⟩
  · intro w hw
    exact { h.workers w hw with known := by rw [List.length_set]; exact (h.workers w hw).known }

section

variable (h : Inv s) (hw : s.workers[i]? = some w)

include h hw

theorem inv_sendStep (hu : sendStep s i w = some u) : Inv u := by
  have hok := h.workers w (mem_of_getElem? hw)
  unfold sendStep at hu
  split at hu
  · rename_i self ch m hpc
    have halive : w.pc ≠ .ended := by rw [hpc]; nofun
    have htarget : w.pc.target = some (some ch) := by rw [hpc]; rfl
    obtain rfl : ch = w.session := some.inj (hok.target (some ch) htarget)
    obtain ⟨l, hstage⟩ := stage_of_alive s h hw halive
    obtain ⟨c, hc, hopen⟩ := hstage.chan
    simp only [hc, Chan.send_of_open c m hopen] at hu
    split at hu
    · cases hu
      have hmove := inv_move s (i := i) (w := w) (.reading self (some w.session)) h hw halive nofun
        (.inr htarget.symm)
      refine inv_setChan _ hmove hc rfl ?_
      intro e he
      rcases mem_append.mp he with he | he
      · exact h.sends_own e he
      · rw [mem_singleton.mp he]
    · cases hu
  · cases hu

theorem inv_leaveStep (hu : leaveStep s i w = some u) : Inv u := by
  obtain ⟨session, cancelled, pc⟩ := w
  cases cancelled with
  | false => cases pc <;> cases hu
  | true =>
    cases pc with
    | sending self ch m | waiting => cases hu; exact inv_move s _ h hw nofun nofun (.inl rfl)
    | _ => cases hu

theorem inv_retryStep (hu : retryStep s i w = some u) : Inv u := by
  obtain ⟨session, cancelled, pc⟩ := w
  cases pc with
  | waiting => cases hu; exact inv_move s _ h hw nofun nofun (.inl rfl)
  | _ => cases hu

theorem inv_cancel : Inv (s.setWorker i { w with cancelled := true }) :=
  inv_setWorker s h hw rfl Iff.rfl (h.workers w (mem_of_getElem? hw)).target

end

theorem inv_restage (k : ℕ) (o o' : Owner) (l l' : Link) (h : Inv s)
    (hsession : s.session = some k) (hstage : Stage s k o l) (hu : u = { s with
      connected := u.connected
      receiveStarted := u.receiveStarted
      workerOwnsCh := u.workerOwnsCh
      dones := u.dones
      workers := u.workers
      closing := u.closing
      dropping := u.dropping
      starting := u.starting
      returned := u.returned })
    (howner : HasOwner u k o') (hlink : HasLink u k l') (hclosed : closedAt o' l' = closedAt o l)
    (hdones : u.dones.length = s.dones.length)
    (hstarted : u.workerOwnsCh = true → u.receiveStarted = true)
    (hworkers : ∀ w ∈ u.workers, WorkerOk s w)
    (hreturned : ∀ j ∈ u.returned, j ∈ s.returned ∨ j = k) : Inv u := by
  rw [hu]
  refine { h with length := hdones.trans h.length, idle := ?_, started := hstarted, last := ?_
                  workers := fun w hw => { hworkers w hw with }, past := ?_ }
  · intro hnone
    rw [hsession] at hnone
    cases hnone
  · intro j hj
    obtain rfl := some.inj (hsession.symm.trans hj)
    exact ⟨(h.last k hsession).1, o', l', by cases o' <;> exact howner,
      by cases l' <;> exact hlink, hclosed ▸ hstage.chan, hstage.once.trans hclosed.symm⟩
  · intro j hj hne
    rcases hreturned j hj with hj | rfl
    · exact h.past j hj hne
    · exact absurd hsession hne

theorem stage_of_connected (h : Inv s) (hconnected : s.connected = true) :
    ∃ k o, s.session = some k ∧ Stage s k o .up := by
  cases hsession : s.session with
  | none => rw [(h.idle hsession).1] at hconnected; cases hconnected
  | some k =>
    obtain ⟨-, o, l, hstage⟩ := h.last k hsession
    have hlink := hstage.link
    cases l with
    | up => exact ⟨k, o, rfl, hstage⟩
    | _ => rw [hlink.1] at hconnected; cases hconnected

/-- A Disconnect that ends the session has `done` still to close. -/
theorem inv_disconnect (h : Inv s) : Inv (disconnect s) := by
  cases hconnected : s.connected with
  | false =>
    unfold disconnect
    rw [hconnected]
    exact h
  | true =>
    obtain ⟨k, o, hsession, hstage⟩ := stage_of_connected s h hconnected
    obtain ⟨-, hclosing, hdropping, hdone⟩ := hstage.link
    have hu : disconnect s =
        { s with connected := false, closing := s.closing ++ [(k, s.workerOwnsCh)] } := by
      unfold disconnect
      rw [hconnected, hsession]
    rw [hu]
    refine inv_restage s _ k o o .up .closing h hsession hstage rfl
      (by cases o <;> exact hstage.owner) ⟨rfl, ?_, hdropping, hdone⟩ ?_ rfl h.started
      h.workers (fun j hj => .inl hj)
    · simp [hclosing]
    · cases o <;> rfl

variable {owns : Bool}

theorem stage_of_closing (h : Inv s) (hmem : (k, owns) ∈ s.closing) :
    s.session = some k ∧ owns = s.workerOwnsCh ∧ ∃ o, Stage s k o .closing := by
  cases hsession : s.session with
  | none => rw [(h.idle hsession).2.1] at hmem; cases hmem
  | some j =>
    obtain ⟨-, o, l, hstage⟩ := h.last j hsession
    have hlink := hstage.link
    cases l with
    | closing =>
      rw [hlink.2.1, mem_singleton, Prod.mk.injEq] at hmem
      obtain ⟨rfl, rfl⟩ := hmem
      exact ⟨rfl, rfl, o, hstage⟩
    | _ => rw [hlink.2.1] at hmem; cases hmem

/-- Once `done` is closed the worker closes the channel, or this call does if there is none. -/
theorem inv_closeDone (h : Inv s) (hu : closeDone s k owns = some u) : Inv u := by
  unfold closeDone at hu
  split at hu
  · rename_i hmem
    obtain ⟨hsession, howns, o, hstage⟩ := stage_of_closing s h hmem
    obtain ⟨hconnected, hclosing, hdropping, hdone⟩ := hstage.link
    simp only [hdone] at hu
    cases hu
    have herase : s.closing.erase (k, owns) = [] := by
      rw [hclosing, howns, erase_cons_head]
    cases owns with
    | true =>
      -- the worker stays the owner of the channel
      refine inv_restage s _ k o o .closing .down h hsession hstage rfl
        (by cases o <;> exact hstage.owner) ⟨hconnected, herase, hdropping⟩ ?_ length_set
        h.started h.workers (fun j hj => .inl hj)
      cases o with
      | nobody => have hnot := hstage.owner.1; rw [← howns] at hnot; cases hnot
      | _ => rfl
    | false =>
      refine inv_restage s _ k o o .closing .dropping h hsession hstage rfl
        (by cases o <;> exact hstage.owner) ⟨hconnected, herase, ?_, howns.symm⟩ ?_ length_set
        h.started h.workers (fun j hj => .inl hj)
      · simp [hdropping]
      · cases o <;> rfl
  · cases hu

theorem stage_of_dropping (h : Inv s) (hmem : k ∈ s.dropping) :
    s.session = some k ∧ Stage s k .nobody .dropping := by
  cases hsession : s.session with
  | none => rw [(h.idle hsession).2.2.1] at hmem; cases hmem
  | some j =>
    obtain ⟨-, o, l, hstage⟩ := h.last j hsession
    have hlink := hstage.link
    cases l with
    | dropping =>
      rw [hlink.2.2.1, mem_singleton] at hmem
      subst hmem
      have hnot := hlink.2.2.2
      cases o with
      | nobody => exact ⟨rfl, hstage⟩
      | _ => rw [hstage.owner.1] at hnot; cases hnot
    | down => rw [hlink.2.2] at hmem; cases hmem
    | _ => rw [hlink.2.2.1] at hmem; cases hmem

theorem inv_drop (h : Inv s) (hu : drop s k = some u) : Inv u := by
  unfold drop at hu
  split at hu
  · rename_i hmem
    obtain ⟨hsession, hstage⟩ := stage_of_dropping s h hmem
    obtain ⟨hconnected, hclosing, hdropping, -⟩ := hstage.link
    obtain ⟨c, hc, hopen⟩ := hstage.chan
    rw [closeOnce_of_open { s with dropping := s.dropping.erase k } (k := k) (c := c) hstage.once hc
      hopen] at hu
    cases hu
    refine inv_close s (k := k) (c := c) (o := .nobody) (l := .down) h hsession hc hopen
      hstage.owner ⟨hconnected, hclosing, ?_⟩ rfl h.workers
    rw [hdropping, erase_cons_head]
  · cases hu

theorem receive_of_connected (hconnected : s.connected = true) (hsession : s.session = some k) :
    receive s =
      if s.receiveStarted then { s with returned := s.returned ++ [k] }
      else if s.appToken = "" then
        { s with returned := s.returned ++ [k], receiveStarted := true }
      else { s with
        returned := s.returned ++ [k]
        receiveStarted := true
        workerOwnsCh := true
        starting := s.starting ++ [k] } := by
  unfold receive
  rw [hconnected, hsession]

/-- The first Receive of a session starts its worker if there is an app token. -/
theorem inv_receive (h : Inv s) : Inv (receive s) := by
  cases hconnected : s.connected with
  | false =>
    unfold receive
    rw [hconnected]
    exact h
  | true =>
    obtain ⟨k, o, hsession, hstage⟩ := stage_of_connected s h hconnected
    obtain ⟨-, hclosing, hdropping, hdone⟩ := hstage.link
    have hreturned : ∀ j ∈ s.returned ++ [k], j ∈ s.returned ∨ j = k := by
      intro j hj
      exact (mem_append.mp hj).imp_right mem_singleton.mp
    rw [receive_of_connected s hconnected hsession]
    split
    · exact inv_restage s _ k o o .up .up h hsession hstage rfl
        (by cases o <;> exact hstage.owner) ⟨hconnected, hclosing, hdropping, hdone⟩ rfl rfl
        h.started h.workers hreturned
    · rename_i hstarted
      split
      · exact inv_restage s _ k o o .up .up h hsession hstage rfl
          (by cases o <;> exact hstage.owner) ⟨hconnected, hclosing, hdropping, hdone⟩ rfl rfl
          (fun _ => rfl) h.workers hreturned
      · have hnot : s.workerOwnsCh = false :=
          Bool.eq_false_iff.mpr (fun howns => hstarted (h.started howns))
        -- the first `Receive` of a session finds no owner
        cases o with
        | nobody =>
          obtain ⟨-, hstarting, hnone⟩ := hstage.owner
          refine inv_restage s _ k .nobody .starting .up .up h hsession hstage rfl
            ⟨rfl, ?_, hnone⟩ ⟨hconnected, hclosing, hdropping, hdone⟩ rfl rfl (fun _ => rfl)
            h.workers hreturned
          simp [hstarting]
        | _ => rw [hstage.owner.1] at hnot; cases hnot

theorem stage_of_starting (h : Inv s) (hmem : k ∈ s.starting) :
    s.session = some k ∧ ∃ l, Stage s k .starting l := by
  cases hsession : s.session with
  | none => rw [(h.idle hsession).2.2.2] at hmem; cases hmem
  | some j =>
    obtain ⟨-, o, l, hstage⟩ := h.last j hsession
    have howner := hstage.owner
    cases o with
    | starting =>
      rw [howner.2.1, mem_singleton] at hmem
      subst hmem
      exact ⟨rfl, l, hstage⟩
    | _ => rw [howner.2.1] at hmem; cases hmem

theorem inv_startWorker (h : Inv s) (hu : startWorker s k = some u) : Inv u := by
  unfold startWorker at hu
  split at hu
  · rename_i hmem
    cases hu
    obtain ⟨hsession, l, hstage⟩ := stage_of_starting s h hmem
    obtain ⟨howns, hstarting, hnone⟩ := hstage.owner
    refine inv_restage s _ k .starting (.worker s.workers.length false) l l h hsession hstage rfl
      ⟨howns, ?_, ?_, ?_⟩ (by cases l <;> exact hstage.link) rfl rfl h.started ?_
      (fun j hj => .inl hj)
    · rw [hstarting, erase_cons_head]
    · exact ⟨⟨k, false, .head⟩, getElem?_concat_length, rfl, nofun, nofun⟩
    · intro j w hw hk
      rcases (getElem?_concat_eq_some_iff s.workers _ w j).mp hw with hw | ⟨hj, -⟩
      · exact absurd hk (hnone w (mem_of_getElem? hw))
      · exact hj
    · intro w hw
      rcases mem_append.mp hw with hw | hw
      · exact h.workers w hw
      · obtain rfl := mem_singleton.mp hw
        have hlast := (h.last k hsession).1
        exact ⟨by simp only; omega, fun _ => hsession, nofun⟩
  · cases hu

theorem chanClosed_concat (j : ℕ) (hu : u.chans = s.chans ++ [Chan.empty]) :
    u.chanClosed j ↔ s.chanClosed j := by
  unfold Sys.chanClosed
  rw [hu]
  constructor
  · rintro ⟨c, hc, hclosed⟩
    rcases (getElem?_concat_eq_some_iff s.chans _ c j).mp hc with hc | ⟨-, rfl⟩
    · exact ⟨c, hc, hclosed⟩
    · cases hclosed
  · rintro ⟨c, hc, hclosed⟩
    exact ⟨c, (getElem?_concat_eq_some_iff s.chans _ c j).mpr (.inl hc), hclosed⟩

/-- A new session begins with a new channel when nothing of the last one is left. -/
theorem inv_commit (h : Inv s) (hleft : NothingLeft s) : Inv (commit s) := by
  have hlength : (commit s).chans.length = s.chans.length + 1 := length_append
  refine { h with length := ?_, idle := nofun, started := nofun, last := ?_, workers := ?_
                  past := ?_, closes_iff := ?_ }
  · simp [commit, h.length]
  · intro k hk
    cases hk
    refine ⟨hlength.symm, .nobody, .up, ⟨rfl, hleft.starting, fun w hw => ?_⟩,
      ⟨rfl, hleft.closing, hleft.dropping, ?_⟩, ⟨Chan.empty, getElem?_concat_length, rfl⟩, rfl⟩
    · exact Nat.ne_of_lt (h.workers w hw).known
    · rw [← h.length]
      exact getElem?_concat_length
  · intro w hw
    have hok := h.workers w hw
    exact ⟨hlength ▸ Nat.lt_succ_of_lt hok.known, fun hne => absurd (hleft.workers w hw) hne,
      hok.target⟩
  · intro k hk hne
    refine (chanClosed_concat s (commit s) k rfl).mpr ?_
    by_cases hsession : s.session = some k
    · obtain ⟨-, o, l, hstage⟩ := h.last k hsession
      obtain ⟨c, hc, -⟩ := hstage.chan
      have hall := hleft.chan k hk hsession
      rw [hc, all_some] at hall
      exact ⟨c, hc, hall⟩
    · exact h.past k hk hsession
  · intro k
    rw [chanClosed_concat s (commit s) k rfl]
    exact h.closes_iff k

theorem inv_setTokens (appToken selfUserID : String) (h : Inv s) :
    Inv { s with appToken := appToken, selfUserID := selfUserID } := by
  refine { h with last := fun k hk => ?_, workers := fun w hw => { h.workers w hw with } }
  obtain ⟨hlast, o, l, hstage⟩ := h.last k hk
  exact ⟨hlast, o, l, { hstage with
    owner := by cases o <;> exact hstage.owner
    link := by cases l <;> exact hstage.link }⟩

theorem inv_connect {config : Config} {auth : Option String} (h : Inv s)
    (hg : ConnectsAlone s (.connect config auth)) : Inv (connect s config auth) := by
  unfold connect
  split
  · exact inv_setTokens s config.chosenAppToken s.selfUserID h
  · rename_i hbot
    cases auth with
    | none => exact inv_setTokens s config.chosenAppToken s.selfUserID h
    | some userID =>
      have hleft := hg hbot rfl
      exact inv_commit _ (inv_setTokens s config.chosenAppToken userID h)
        ⟨hleft.workers, hleft.closing, hleft.dropping, hleft.starting, hleft.chan⟩

/-- One step keeps the invariant if Connect replaces a session only when nothing of it is left. -/
theorem inv_step {a : Act} (h : Inv s) (hg : ConnectsAlone s a)
    (hu : step s a = some u) : Inv u := by
  unfold step at hu
  rw [if_neg (by rw [h.running]; nofun)] at hu
  cases a with
  | connect config auth =>
    cases hu
    exact inv_connect s h hg
  | disconnect =>
    cases hu
    exact inv_disconnect s h
  | closeDone k owns => exact inv_closeDone s u h hu
  | drop k => exact inv_drop s u h hu
  | receive =>
    cases hu
    exact inv_receive s h
  | startWorker k => exact inv_startWorker s u h hu
  | cancel i =>
    obtain ⟨w, hw, rfl⟩ := map_eq_some_iff.mp hu
    exact inv_cancel s h hw
  | bridge i =>
    obtain ⟨w, hw, hstep⟩ := bind_eq_some_iff.mp hu
    unfold bridgeStep at hstep
    split at hstep
    · cases hstep
      exact inv_cancel s h hw
    · cases hstep
  | consume ch =>
    simp only [enabled] at hu
    split at hu
    · rename_i c hc
      split at hu
      · cases hu
      · cases hu
        exact inv_setChan s h hc rfl h.sends_own
    · cases hu
  | next i =>
    obtain ⟨w, hw, hstep⟩ := bind_eq_some_iff.mp hu
    exact inv_nextStep s u h hw hstep
  | answer i ok =>
    obtain ⟨w, hw, hstep⟩ := bind_eq_some_iff.mp hu
    exact inv_answerStep s u h hw hstep
  | broken i =>
    obtain ⟨w, hw, hstep⟩ := bind_eq_some_iff.mp hu
    exact inv_brokenStep s u h hw hstep
  | frame i env =>
    obtain ⟨w, hw, hstep⟩ := bind_eq_some_iff.mp hu
    exact inv_frameStep s u h hw hstep
  | handle i now =>
    obtain ⟨w, hw, hstep⟩ := bind_eq_some_iff.mp hu
    exact inv_handleStep s u h hw hstep
  | send i =>
    obtain ⟨w, hw, hstep⟩ := bind_eq_some_iff.mp hu
    exact inv_sendStep s u h hw hstep
  | leave i =>
    obtain ⟨w, hw, hstep⟩ := bind_eq_some_iff.mp hu
    exact inv_leaveStep s u h hw hstep
  | retry i =>
    obtain ⟨w, hw, hstep⟩ := bind_eq_some_iff.mp hu
    exact inv_retryStep s u h hw hstep

theorem inv_run {acts : List Act} {t : Sys} (hmeets : Meets step ConnectsAlone init acts)
    (hrun : run step init acts = some t) : Inv t :=
  guarded_invariant step ConnectsAlone (fun _ => True) Inv inv_init (fun _ _ _ => trivial)
    (fun s _ u _ h hg hu => inv_step s u h hg hu) hmeets hrun

/-- The channels are safe if `Connect` succeeds only when nothing older is left. -/
theorem channels_safe_of_connects_alone (acts : List Act)
    (hmeets : Meets step ConnectsAlone init acts) : Along step ChannelsSafe init acts := by
  intro pre post t hacts hrun
  exact safe_of_inv t (inv_run (Meets.middle step [] pre post hmeets hacts rfl) hrun)

def socketMode : Config := ⟨"xoxb-1", "xapp-1", ""⟩

def hello : SocketEnvelope :=
  ⟨"e1", "events_api", some ⟨"T1", "message", "", "U7", "", "hello", "C1", "", "1.5", ""⟩⟩

def workerEndsFirst : List Act :=
  [.connect socketMode (some "U1"), .receive, .startWorker 0, .next 0, .answer 0 true,
    .answer 0 true, .next 0, .frame 0 (some hello), .answer 0 true, .handle 0 0, .send 0,
    .disconnect, .closeDone 0 true, .bridge 0, .broken 0, .next 0, .next 0,
    .connect socketMode (some "U1"), .receive]

theorem worker_ends_first_safe :
    (∃ t, run step init workerEndsFirst = some t ∧ t.sends = [(0, 0)] ∧ t.closes = [(0, 0)]) ∧
      Along step ChannelsSafe init workerEndsFirst :=
  ⟨exists_run_of_check step (fun s : Sys => s.sends = [(0, 0)] ∧ s.closes = [(0, 0)]) init _
      (by decide), channels_safe_of_connects_alone _ (meets_of_checkMeets step _ _ _ (by decide))⟩

/-- The second `Connect` comes while the worker of the first session has yet to stop. -/
def connectsOverWorker : List Act :=
  [.connect socketMode (some "U1"), .receive, .startWorker 0, .disconnect, .closeDone 0 true,
    .connect socketMode (some "U1"), .bridge 0, .next 0, .next 0, .receive, .startWorker 1,
    .disconnect, .closeDone 1 true, .bridge 1, .next 1, .next 1]

/-- The worker of the first session uses up the guard of the second, whose channel stays open. -/
theorem connects_over_worker_leaves_open :
    ∃ t, run step init connectsOverWorker = some t ∧ t.returned = [0, 1] ∧
      t.closes = [(0, 0)] ∧ ¬ ChannelsSafe t := by
  obtain ⟨t, hrun, hreturned, hcloses, hconnected, ⟨hclosing, hdropping, hstarting, hworkers⟩,
      hopen⟩ := exists_run_of_check step (fun s : Sys => s.returned = [0, 1] ∧
        s.closes = [(0, 0)] ∧ s.connected = false ∧ (s.closing = [] ∧ s.dropping = [] ∧
        s.starting = [] ∧ ∀ w ∈ s.workers, w.pc = .ended) ∧
        s.chans[1]? = some Chan.empty) init connectsOverWorker (by decide)
  refine ⟨t, hrun, hreturned, hcloses, ?_⟩
  intro hsafe
  have hsettled : Settled t 1 := by
    refine ⟨?_, ?_, ?_, fun w hw _ => hworkers w hw⟩
    · rw [hclosing]
      nofun
    · rw [hdropping]
      nofun
    · rw [hstarting]
      nofun
  have hmem : 1 ∈ t.returned := by
    rw [hreturned]
    decide
  obtain ⟨c, hc, hclosed⟩ := hsafe.closed_after 1 hmem (.inr hconnected) hsettled
  rw [hopen] at hc
  cases hc
  cases hclosed

end IronGolem.SlackSessions
