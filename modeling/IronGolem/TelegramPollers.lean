import IronGolem.GoChannels
import IronGolem.MachineIntegers
import IronGolem.NumberedLists
import IronGolem.TransitionRuns

/-!
The Telegram connector and the goroutines that poll for its updates. Every call of `Receive` makes
a channel and starts a poller for it, but the poller reads the connector's channel and done fields
afresh: when it registers its deferred close, at the head of each round, and for each message it
hands over.
-/
namespace IronGolem.TelegramPollers

open GoChannels MachineIntegers NumberedLists TransitionRuns Option List

structure TgMessage where
  messageID : ℤ
  chatID : ℤ
  chatType : String
  date : ℤ
  text : String
  /-- The sender's id and user name. -/
  sender : Option (ℤ × String)
  deriving DecidableEq, Repr

structure Update where
  updateID : ℤ
  message : Option TgMessage
  deriving DecidableEq, Repr

structure Message where
  id : String
  content : String
  metadata : List (String × String)
  timestamp : ℤ
  deriving DecidableEq, Repr

def normalized (m : TgMessage) : Message where
  id := "tg_" ++ toString m.chatID ++ "_" ++ toString m.messageID
  content := m.text
  metadata := [("chat_id", toString m.chatID), ("chat_type", m.chatType),
    ("message_id", toString m.messageID)] ++
    match m.sender with
    | none => []
    | some (id, username) => [("from_id", toString id), ("from_username", username)]
  timestamp := m.date

/-- Where a poller stands, with the channels that it has read. -/
inductive Pc
  | start
  | head
  | selecting (done : Option ℕ)
  | polling
  | fetching (offset : ℤ)
  | failed
  | waiting (done : Option ℕ)
  | handling (updates : List Update)
  | filtering (m : TgMessage) (rest : List Update)
  | evalChan (m : TgMessage) (rest : List Update)
  | evalDone (ch : Option ℕ) (m : TgMessage) (rest : List Update)
  | sending (ch done : Option ℕ) (m : TgMessage) (rest : List Update)
  | returning
  | ended
  deriving DecidableEq, Repr

structure Poller where
  /-- Its context is cancelled. -/
  cancelled : Bool
  /-- The channel of the deferred close. -/
  deferred : Option ℕ
  pc : Pc
  /-- History: a `Disconnect` came after the `Receive` that started it. -/
  stopDue : Bool
  /-- History: it began another round although it was due to stop. -/
  overran : Bool
  deriving DecidableEq, Repr

/-- A poller and the channel that its `Receive` returned have the same number. -/
structure Sys where
  connected : Bool
  allowedChatIDs : List ℤ
  done : Option ℕ
  msgCh : Option ℕ
  lastUpdate : ℤ
  /-- Calls of `Connect` that wait for the answer of the API. -/
  verifying : ℕ
  /-- Which done channels are closed. -/
  dones : List Bool
  chans : List (Chan Message)
  pollers : List Poller
  /-- History: the pollers that sent and closed, with the channel. -/
  sends : List (ℕ × ℕ)
  closes : List (ℕ × ℕ)
  panicked : Bool
  deriving DecidableEq

def init : Sys := ⟨false, [], none, none, 0, 0, [], [], [], [], [], false⟩

def capacity : ℕ := 64

variable (s : Sys) (i : ℕ) (p : Poller)

def Sys.setPoller : Sys := { s with pollers := s.pollers.set i p }

def Sys.panic : Sys := { s with panicked := true }

def Sys.doneClosed (done : Option ℕ) : Bool :=
  match done with
  | none => false
  | some d => s.dones[d]?.getD false

def Sys.allows (chatID : ℤ) : Bool :=
  s.allowedChatIDs.isEmpty || s.allowedChatIDs.contains chatID

/-- An action of poller `i` names it. An answer without updates is an error. -/
inductive Act
  | install (allowed : List ℤ)
  | verified (ok : Bool)
  | disconnect
  | receive
  | cancel (i : ℕ)
  | consume (ch : ℕ)
  | next (i : ℕ)
  | answer (i : ℕ) (updates : Option (List Update))
  | retry (i : ℕ)
  | send (i : ℕ)
  | leave (i : ℕ)
  deriving DecidableEq, Repr

def closeDeferred : Option Sys :=
  match p.deferred with
  | none => some s.panic
  | some ch =>
      match s.chans[ch]? with
      | none => none
      | some c =>
          match c.close with
          | none => some s.panic
          | some c' =>
              some { s.setPoller i { p with pc := .ended } with
                chans := s.chans.set ch c'
                closes := s.closes ++ [(i, ch)] }

/-- The next step of a poller that takes no part in a choice. -/
def nextStep : Option Sys :=
  match p.pc with
  | .start => some (s.setPoller i { p with deferred := s.msgCh, pc := .head })
  | .head => some (s.setPoller i { p with pc := .selecting s.done })
  | .selecting done =>
      if p.cancelled || s.doneClosed done then some (s.setPoller i { p with pc := .returning })
      else some (s.setPoller i { p with pc := .polling, overran := p.overran || p.stopDue })
  | .polling => some (s.setPoller i { p with pc := .fetching (wrap (s.lastUpdate + 1)) })
  | .failed => some (s.setPoller i { p with pc := .waiting s.done })
  | .handling [] => some (s.setPoller i { p with pc := .head })
  | .handling (u :: rest) =>
      some { s.setPoller i { p with
          pc := match u.message with
            | none => .handling rest
            | some m => .filtering m rest } with
        lastUpdate := if s.lastUpdate ≤ u.updateID then u.updateID else s.lastUpdate }
  | .filtering m rest =>
      some (s.setPoller i { p with
        pc := if s.allows m.chatID then .evalChan m rest else .handling rest })
  | .evalChan m rest => some (s.setPoller i { p with pc := .evalDone s.msgCh m rest })
  | .evalDone ch m rest => some (s.setPoller i { p with pc := .sending ch s.done m rest })
  | .returning => closeDeferred s i p
  | _ => none

/-- A send on a closed channel ends the program, and one on a full channel waits. -/
def sendStep : Option Sys :=
  match p.pc with
  | .sending (some ch) _ m rest =>
      match s.chans[ch]? with
      | none => none
      | some c =>
          match c.send (normalized m) with
          | none => some s.panic
          | some c' =>
              if c.hasRoom capacity then
                some { s.setPoller i { p with pc := .handling rest } with
                  chans := s.chans.set ch c'
                  sends := s.sends ++ [(i, ch)] }
              else none
  | _ => none

def leaveStep : Option Sys :=
  match p.pc with
  | .waiting done =>
      if p.cancelled || s.doneClosed done then some (s.setPoller i { p with pc := .returning })
      else none
  | .sending _ done _ _ =>
      if p.cancelled || s.doneClosed done then some (s.setPoller i { p with pc := .returning })
      else none
  | _ => none

def answerStep (updates : Option (List Update)) : Option Sys :=
  match p.pc with
  | .fetching _ =>
      some (s.setPoller i { p with
        pc := match updates with
          | none => .failed
          | some updates => .handling updates })
  | _ => none

def retryStep : Option Sys :=
  match p.pc with
  | .waiting _ => some (s.setPoller i { p with pc := .head })
  | _ => none

def disconnect : Sys :=
  if s.connected then
    match s.done with
    | none => s.panic
    | some d =>
        if s.doneClosed s.done then s.panic
        else { s with
          connected := false
          dones := s.dones.set d true
          pollers := s.pollers.map (fun p => { p with stopDue := true }) }
  else s

/-- `Receive` fails without a connection. -/
def receive : Sys :=
  if s.connected then
    { s with
      msgCh := some s.chans.length
      chans := s.chans ++ [Chan.empty]
      pollers := s.pollers ++ [⟨false, none, .start, false, false⟩] }
  else s

/-- The last section of `Connect`. -/
def commit : Sys :=
  { s with
    connected := true
    done := some s.dones.length
    dones := s.dones ++ [false]
    verifying := s.verifying - 1 }

def enabled : Act → Option Sys
  | .install allowed => some { s with allowedChatIDs := allowed, verifying := s.verifying + 1 }
  | .verified ok =>
      if s.verifying = 0 then none
      else some (if ok then commit s else { s with verifying := s.verifying - 1 })
  | .disconnect => some (disconnect s)
  | .receive => some (receive s)
  | .cancel i => s.pollers[i]?.map (fun p => s.setPoller i { p with cancelled := true })
  | .consume ch =>
      match s.chans[ch]? with
      | some c =>
          if c.buffered = [] then none else some { s with chans := s.chans.set ch c.receive }
      | none => none
  | .next i => s.pollers[i]?.bind (nextStep s i)
  | .answer i updates => s.pollers[i]?.bind (fun p => answerStep s i p updates)
  | .retry i => s.pollers[i]?.bind (retryStep s i)
  | .send i => s.pollers[i]?.bind (sendStep s i)
  | .leave i => s.pollers[i]?.bind (leaveStep s i)

def step (a : Act) : Option Sys := if s.panicked then none else enabled s a

def Pc.left : Pc → Bool
  | returning => true
  | ended => true
  | _ => false

def Pc.watched : Pc → Option (Option ℕ)
  | selecting done => some done
  | waiting done => some done
  | sending _ done _ _ => some done
  | _ => none

/-- Nobody panics, pollers send on and close their own channels once, and see that they are to stop.
-/
structure ChannelsSafe (s : Sys) : Prop where
  running : s.panicked = false
  sends_own : ∀ e ∈ s.sends, e.1 = e.2
  closes_own : ∀ e ∈ s.closes, e.1 = e.2
  closed_once : (s.closes.map Prod.snd).Nodup
  closed_at_end : ∀ (i : ℕ) p, s.pollers[i]? = some p → p.pc = .ended → (i, i) ∈ s.closes
  wakes : ∀ p ∈ s.pollers, p.stopDue = true → ∀ done, p.pc.watched = some done →
    s.doneClosed done = true
  stops : ∀ p ∈ s.pollers, p.overran = false

/-- Channels are replaced only when every poller before has left its loop. -/
def ReplacesAlone : Act → Prop
  | .receive => s.connected = true → ∀ p ∈ s.pollers, p.pc.left = true
  | .verified ok => ok = true → ∀ p ∈ s.pollers, p.pc.left = true
  | _ => True

instance (s : Sys) (a : Act) : Decidable (ReplacesAlone s a) := by
  unfold ReplacesAlone
  split <;> infer_instance

def Pc.target : Pc → Option (Option ℕ)
  | evalDone ch _ _ => some ch
  | sending ch _ _ _ => some ch
  | _ => none

structure PollerOk (s : Sys) (i : ℕ) (p : Poller) : Prop where
  current : p.pc.left = false → s.msgCh = some i
  deferred : p.pc ≠ .start → p.deferred = some i
  target : ∀ ch, p.pc.target = some ch → ch = some i
  watched : ∀ done, p.pc.watched = some done → done = s.done
  closed : ∀ c, s.chans[i]? = some c → (c.closed = true ↔ p.pc = .ended)
  due : p.stopDue = true → p.pc.left = false → s.doneClosed s.done = true
  kept : p.overran = false

structure Inv (s : Sys) : Prop where
  running : s.panicked = false
  length : s.chans.length = s.pollers.length
  pollers : ∀ (i : ℕ) p, s.pollers[i]? = some p → PollerOk s i p
  connected : s.connected = true → ∃ d, s.done = some d ∧ s.dones[d]? = some false
  sends_own : ∀ e ∈ s.sends, e.1 = e.2
  closes_own : ∀ e ∈ s.closes, e.1 = e.2
  closed_once : s.closes.Nodup
  closes_iff : ∀ i, (i, i) ∈ s.closes ↔ ∃ p, s.pollers[i]? = some p ∧ p.pc = .ended

variable {done : Option ℕ}

theorem not_left_of_watched {pc : Pc} (h : pc.watched = some done) : pc.left = false := by
  cases pc <;> first | rfl | cases h

variable (s : Sys)

/-- The invariant excludes a send on a closed channel and a second close. -/
theorem safe_of_inv (h : Inv s) : ChannelsSafe s := by
  refine ⟨h.running, h.sends_own, h.closes_own,
    nodup_map_snd h.closes_own h.closed_once, ?_, ?_, ?_⟩
  · intro i p hp hended
    exact (h.closes_iff i).mpr ⟨p, hp, hended⟩
  · intro p hp hdue done hwatched
    obtain ⟨i, hi⟩ := mem_iff_getElem?.mp hp
    have hok := h.pollers i p hi
    rw [hok.watched done hwatched]
    exact hok.due hdue (not_left_of_watched hwatched)
  · intro p hp
    obtain ⟨i, hi⟩ := mem_iff_getElem?.mp hp
    exact (h.pollers i p hi).kept

theorem inv_init : Inv init :=
  ⟨rfl, rfl, by simp [init], nofun, nofun, nofun, nodup_nil, by simp [init]⟩

variable (i : ℕ) (p : Poller)

/-- A step of one poller is judged by that poller alone. -/
theorem inv_setPoller {p' : Poller} (lastUpdate : ℤ) (h : Inv s)
    (hp : s.pollers[i]? = some p) (hok : PollerOk s i p')
    (hended : p'.pc = .ended ↔ p.pc = .ended) :
    Inv { s.setPoller i p' with lastUpdate := lastUpdate } := by
  have hlt : i < s.pollers.length := (List.getElem?_eq_some_iff.mp hp).1
  refine { h with length := ?_, pollers := ?_, closes_iff := ?_ }
  · simp only [Sys.setPoller, length_set]
    exact h.length
  · intro j q hq
    rcases getElem?_set_eq_some _ _ _ hq with ⟨rfl, rfl⟩ | ⟨-, hold⟩
    · exact { hok with }
    · exact { h.pollers j q hold with }
  · intro j
    refine (h.closes_iff j).trans ⟨?_, ?_⟩
    · rintro ⟨q, hq, hqe⟩
      by_cases hij : i = j
      · subst hij
        rw [hp, some.injEq] at hq
        exact ⟨p', getElem?_set_self hlt, hended.mpr (hq ▸ hqe)⟩
      · exact ⟨q, (getElem?_set_ne hij).trans hq, hqe⟩
    · rintro ⟨q, hq, hqe⟩
      rcases getElem?_set_eq_some _ _ _ hq with ⟨rfl, rfl⟩ | ⟨-, hold⟩
      · exact ⟨p, hp, hended.mp hqe⟩
      · exact ⟨q, hold, hqe⟩

theorem pollerOk_move (pc : Pc) (h : PollerOk s i p)
    (hleft : p.pc.left = false) (hstart : p.pc ≠ .start) (hended : pc ≠ .ended)
    (htarget : ∀ ch, pc.target = some ch → ch = some i)
    (hwatched : ∀ done, pc.watched = some done → done = s.done) :
    PollerOk s i { p with pc := pc } := by
  refine { h with current := fun _ => h.current hleft, deferred := fun _ => h.deferred hstart
                  target := htarget, watched := hwatched, closed := fun c hc => ?_
                  due := fun hdue _ => h.due hdue hleft }
  rw [h.closed c hc]
  exact iff_of_false (fun hend => by simp [hend, Pc.left] at hleft) hended

theorem inv_move (pc : Pc) (lastUpdate : ℤ) (h : Inv s)
    (hp : s.pollers[i]? = some p) (hleft : p.pc.left = false) (hstart : p.pc ≠ .start)
    (hended : pc ≠ .ended) (htarget : ∀ ch, pc.target = some ch → ch = some i)
    (hwatched : ∀ done, pc.watched = some done → done = s.done) :
    Inv { s.setPoller i { p with pc := pc } with lastUpdate := lastUpdate } := by
  refine inv_setPoller s i p lastUpdate h hp
    (pollerOk_move s i p pc (h.pollers i p hp) hleft hstart hended htarget hwatched) ?_
  exact iff_of_false hended fun hend => by simp [hend, Pc.left] at hleft

variable {u : Sys}

theorem inv_selecting {i : ℕ} {p : Poller} (h : Inv s)
    (hp : s.pollers[i]? = some p) (hpc : p.pc = .selecting done)
    (hu : nextStep s i p = some u) : Inv u := by
  obtain ⟨cancelled, deferred, pc, stopDue, overran⟩ := p
  subst hpc
  have hok := h.pollers i _ hp
  simp only [nextStep] at hu
  split at hu
  · cases hu
    exact inv_move s i _ .returning s.lastUpdate h hp rfl nofun nofun nofun nofun
  · rename_i hopen
    cases hu
    -- a poller that is due to stop has seen the done channel closed
    have hstop : stopDue = false := by
      by_contra hdue
      have hclosed := hok.due (Bool.not_eq_false _ ▸ hdue) rfl
      rw [← hok.watched done rfl] at hclosed
      simp [hclosed] at hopen
    have hmove := pollerOk_move s i _ .polling hok rfl nofun nofun nofun nofun
    refine inv_setPoller s i _ s.lastUpdate h hp { hmove with kept := ?_ } ⟨nofun, nofun⟩
    rw [hstop, Bool.or_false]
    exact hok.kept

theorem inv_start (h : Inv s) (hp : s.pollers[i]? = some p) (hpc : p.pc = .start) :
    Inv (s.setPoller i { p with deferred := s.msgCh, pc := .head }) := by
  obtain ⟨cancelled, deferred, pc, stopDue, overran⟩ := p
  subst hpc
  have hok := h.pollers i _ hp
  have hcurrent := hok.current rfl
  refine inv_setPoller s i _ s.lastUpdate h hp
    ⟨fun _ => hcurrent, fun _ => hcurrent, nofun, nofun, ?_, fun hdue _ => hok.due hdue rfl,
      hok.kept⟩ ⟨nofun, nofun⟩
  intro c hc
  rw [hok.closed c hc]
  exact ⟨nofun, nofun⟩

/-- A poller that has not ended has an open channel of its own. -/
theorem exists_open_chan (h : Inv s) (hp : s.pollers[i]? = some p)
    (hpc : p.pc ≠ .ended) : ∃ c, s.chans[i]? = some c ∧ c.closed = false := by
  have hlt : i < s.chans.length := h.length ▸ (List.getElem?_eq_some_iff.mp hp).1
  have hchan : s.chans[i]? = some s.chans[i] := getElem?_eq_getElem hlt
  refine ⟨s.chans[i], hchan, ?_⟩
  rw [Bool.eq_false_iff]
  intro hclosed
  exact hpc (((h.pollers i p hp).closed _ hchan).mp hclosed)

/-- The deferred close closes the channel of the poller itself. -/
theorem inv_closeDeferred {i : ℕ} {p : Poller} (h : Inv s)
    (hp : s.pollers[i]? = some p) (hpc : p.pc = .returning) (hu : closeDeferred s i p = some u) :
    Inv u := by
  have hok := h.pollers i p hp
  have hdeferred := hok.deferred (by rw [hpc]; nofun)
  have hlt : i < s.pollers.length := (List.getElem?_eq_some_iff.mp hp).1
  obtain ⟨c, hchan, hopen⟩ := exists_open_chan s i p h hp (by rw [hpc]; nofun)
  have hnot : ∀ q, s.pollers[i]? = some q → q.pc ≠ .ended := by
    intro q hq hend
    rw [hp, some.injEq] at hq
    rw [← hq, hpc] at hend
    cases hend
  simp only [closeDeferred, hdeferred, hchan, Chan.close_of_open _ hopen] at hu
  cases hu
  refine { h with length := ?_, pollers := ?_, closes_own := ?_, closed_once := ?_
                  closes_iff := ?_ }
  · simp only [Sys.setPoller, length_set]
    exact h.length
  · intro j q hq
    rcases getElem?_set_eq_some _ _ _ hq with ⟨rfl, rfl⟩ | ⟨hij, hold⟩
    · refine ⟨nofun, fun _ => rfl, nofun, nofun, fun c hc => ?_, nofun, hok.kept⟩
      rcases getElem?_set_eq_some _ _ _ hc with ⟨-, rfl⟩ | ⟨hne, -⟩
      · exact ⟨fun _ => rfl, fun _ => rfl⟩
      · exact absurd rfl hne
    · refine { h.pollers j q hold with closed := fun c hc => ?_ }
      rcases getElem?_set_eq_some _ _ _ hc with ⟨heq, -⟩ | ⟨-, hc⟩
      · exact absurd heq hij
      · exact (h.pollers j q hold).closed c hc
  · intro e he
    rcases mem_append.mp he with he | he
    · exact h.closes_own e he
    · rw [mem_singleton.mp he]
  · rw [nodup_append]
    refine ⟨h.closed_once, nodup_singleton _, ?_⟩
    rintro e he e' he' rfl
    rw [mem_singleton.mp he'] at he
    obtain ⟨q, hq, hend⟩ := (h.closes_iff i).mp he
    exact hnot q hq hend
  · intro j
    simp only [mem_append, h.closes_iff j, mem_singleton, Prod.mk.injEq, and_self]
    constructor
    · rintro (⟨q, hq, hend⟩ | rfl)
      · have hij : i ≠ j := fun hij => hnot q (hij ▸ hq) hend
        exact ⟨q, (getElem?_set_ne hij).trans hq, hend⟩
      · exact ⟨_, getElem?_set_self hlt, rfl⟩
    · rintro ⟨q, hq, hend⟩
      rcases getElem?_set_eq_some _ _ _ hq with ⟨rfl, -⟩ | ⟨-, hold⟩
      · exact .inr rfl
      · exact .inl ⟨q, hold, hend⟩

theorem inv_nextStep {i : ℕ} {p : Poller} (h : Inv s) (hp : s.pollers[i]? = some p)
    (hu : nextStep s i p = some u) : Inv u := by
  obtain ⟨cancelled, deferred, pc, stopDue, overran⟩ := p
  have hok := h.pollers i _ hp
  have hmove := fun pc' lastUpdate => inv_move s i _ pc' lastUpdate h hp
  cases pc with
  | start =>
    cases hu
    exact inv_start s i _ h hp rfl
  | head | failed =>
    cases hu
    exact hmove _ _ rfl nofun nofun nofun fun done hd => (some.inj hd).symm
  | selecting done => exact inv_selecting s h hp rfl hu
  | polling =>
    cases hu
    exact hmove _ _ rfl nofun nofun nofun nofun
  | handling updates =>
    cases updates with
    | nil =>
      cases hu
      exact hmove _ _ rfl nofun nofun nofun nofun
    | cons u' rest =>
      cases hu
      refine hmove _ _ rfl nofun ?_ ?_ ?_
      · cases u'.message <;> nofun
      · cases u'.message <;> nofun
      · cases u'.message <;> nofun
  | filtering m rest =>
    cases hu
    refine hmove _ _ rfl nofun ?_ ?_ ?_
    · split <;> nofun
    · split <;> nofun
    · split <;> nofun
  | evalChan m rest =>
    cases hu
    refine hmove _ _ rfl nofun nofun (fun ch hch => ?_) nofun
    rw [← some.inj hch]
    exact hok.current rfl
  | evalDone ch m rest =>
    cases hu
    refine hmove _ _ rfl nofun nofun (fun ch' hch' => ?_) fun done hd => (some.inj hd).symm
    rw [← some.inj hch']
    exact hok.target ch rfl
  | returning => exact inv_closeDeferred s h hp rfl hu
  | _ => cases hu

theorem pollerOk_setChan (j ch : ℕ) {q : Poller} (c c' : Chan Message)
    (hq : PollerOk s j q) (hc : s.chans[ch]? = some c) (hclosed : c'.closed = c.closed)
    (hu : u = { s with chans := s.chans.set ch c', pollers := u.pollers, sends := u.sends }) :
    PollerOk u j q := by
  rw [hu]
  refine { hq with closed := fun c₀ hc₀ => ?_ }
  rcases getElem?_set_eq_some _ _ _ hc₀ with ⟨rfl, rfl⟩ | ⟨-, hc₀⟩
  · rw [hclosed]
    exact hq.closed c hc
  · exact hq.closed c₀ hc₀

theorem inv_sendStep {i : ℕ} {p : Poller} (h : Inv s) (hp : s.pollers[i]? = some p)
    (hu : sendStep s i p = some u) : Inv u := by
  have hok := h.pollers i p hp
  unfold sendStep at hu
  split at hu
  · rename_i ch done m rest hpc
    have hch : ch = i := some.inj (hok.target (some ch) (by rw [hpc]; rfl))
    subst hch
    obtain ⟨c, hchan, hopen⟩ := exists_open_chan s ch p h hp (by rw [hpc]; nofun)
    simp only [hchan, Chan.send_of_open _ _ hopen] at hu
    split at hu
    · cases hu
      have hmove := inv_move s ch p (.handling rest) s.lastUpdate h hp (by rw [hpc]; rfl)
        (by rw [hpc]; nofun) nofun nofun nofun
      refine { hmove with length := ?_, pollers := fun j q hq => ?_, sends_own := ?_ }
      · simp only [Sys.setPoller, length_set]
        exact h.length
      · exact pollerOk_setChan _ (j := j) ch (q := q) (c := c)
          { c with sent := c.sent ++ [normalized m] } (hmove.pollers j q hq) hchan rfl rfl
      · intro e he
        rcases mem_append.mp he with he | he
        · exact h.sends_own e he
        · rw [mem_singleton.mp he]
    · cases hu
  · cases hu

theorem inv_leaveStep {i : ℕ} {p : Poller} (h : Inv s) (hp : s.pollers[i]? = some p)
    (hu : leaveStep s i p = some u) : Inv u := by
  obtain ⟨cancelled, deferred, pc, stopDue, overran⟩ := p
  have hmove := fun pc' => inv_move s i _ pc' s.lastUpdate h hp
  unfold leaveStep at hu
  split at hu
  · split at hu
    · cases hu
      rename_i hpc _
      subst hpc
      exact hmove _ rfl nofun nofun nofun nofun
    · cases hu
  · split at hu
    · cases hu
      rename_i hpc _
      subst hpc
      exact hmove _ rfl nofun nofun nofun nofun
    · cases hu
  · cases hu

theorem inv_answerStep {i : ℕ} {p : Poller} {updates : Option (List Update)}
    (h : Inv s) (hp : s.pollers[i]? = some p) (hu : answerStep s i p updates = some u) : Inv u := by
  unfold answerStep at hu
  split at hu
  · rename_i offset hpc
    cases hu
    refine inv_move s i p _ s.lastUpdate h hp (by rw [hpc]; rfl) (by rw [hpc]; nofun) ?_ ?_ ?_
    · cases updates <;> nofun
    · cases updates <;> nofun
    · cases updates <;> nofun
  · cases hu

theorem inv_retryStep {i : ℕ} {p : Poller} (h : Inv s) (hp : s.pollers[i]? = some p)
    (hu : retryStep s i p = some u) : Inv u := by
  unfold retryStep at hu
  split at hu
  · rename_i done hpc
    cases hu
    exact inv_move s i p _ s.lastUpdate h hp (by rw [hpc]; rfl) (by rw [hpc]; nofun) nofun
      nofun nofun
  · cases hu

theorem inv_cancel (h : Inv s) (hp : s.pollers[i]? = some p) :
    Inv (s.setPoller i { p with cancelled := true }) :=
  inv_setPoller s i p s.lastUpdate h hp { h.pollers i p hp with } Iff.rfl

theorem inv_consume {ch : ℕ} {c : Chan Message} (h : Inv s)
    (hc : s.chans[ch]? = some c) : Inv { s with chans := s.chans.set ch c.receive } := by
  refine { h with length := ?_, pollers := fun j q hq => ?_ }
  · simp only [length_set]
    exact h.length
  · exact pollerOk_setChan s (j := j) ch (q := q) (c := c) c.receive (h.pollers j q hq) hc rfl rfl

theorem pollerOk_of_left {i : ℕ} {p : Poller} (h : PollerOk s i p)
    (hleft : p.pc.left = true) (hchan : ∀ c, u.chans[i]? = some c → s.chans[i]? = some c) :
    PollerOk u i p := by
  have hstill : ∀ {q : Prop}, p.pc.left = false → q := by
    intro q hnot
    rw [hleft] at hnot
    cases hnot
  refine ⟨hstill, h.deferred, h.target, ?_, fun c hc => h.closed c (hchan c hc), fun _ => hstill,
    h.kept⟩
  intro done hdone
  exact hstill (not_left_of_watched hdone)

theorem inv_commit (h : Inv s) (hleft : ∀ p ∈ s.pollers, p.pc.left = true) : Inv (commit s) := by
  refine { h with pollers := ?_, connected := ?_ }
  · intro i p hp
    exact pollerOk_of_left s (h.pollers i p hp) (hleft p (mem_of_getElem? hp)) (fun c hc => hc)
  · intro _
    exact ⟨s.dones.length, rfl, (getElem?_concat_eq_some_iff s.dones _ _ _).mpr (.inr ⟨rfl, rfl⟩)⟩

theorem inv_receive (h : Inv s)
    (hleft : s.connected = true → ∀ p ∈ s.pollers, p.pc.left = true) : Inv (receive s) := by
  unfold receive
  split
  · rename_i hconnected
    refine { h with length := ?_, pollers := ?_, closes_iff := ?_ }
    · simp [h.length]
    · intro i p hp
      rcases (getElem?_concat_eq_some_iff s.pollers _ p i).mp hp with hp | ⟨rfl, rfl⟩
      · refine pollerOk_of_left s (h.pollers i p hp) (hleft hconnected p (mem_of_getElem? hp)) ?_
        intro c hc
        rcases (getElem?_concat_eq_some_iff s.chans _ c i).mp hc with hc | ⟨hi, -⟩
        · exact hc
        · have hlt : i < s.pollers.length := (List.getElem?_eq_some_iff.mp hp).1
          rw [← h.length] at hlt
          omega
      · refine ⟨fun _ => congrArg some h.length, fun hstart => absurd rfl hstart, nofun,
          by nofun, ?_, nofun, rfl⟩
        intro c hc
        rw [← h.length] at hc
        rcases (getElem?_concat_eq_some_iff s.chans _ c _).mp hc with hc | ⟨-, rfl⟩
        · have hlt := (List.getElem?_eq_some_iff.mp hc).1
          omega
        · exact ⟨nofun, nofun⟩
    · intro i
      rw [show (i, i) ∈ s.closes ↔ _ from h.closes_iff i]
      constructor
      · rintro ⟨p, hp, hend⟩
        exact ⟨p, (getElem?_concat_eq_some_iff s.pollers _ p i).mpr (.inl hp), hend⟩
      · rintro ⟨p, hp, hend⟩
        rcases (getElem?_concat_eq_some_iff s.pollers _ p i).mp hp with hp | ⟨-, rfl⟩
        · exact ⟨p, hp, hend⟩
        · cases hend
  · exact h

theorem inv_disconnect (h : Inv s) : Inv (disconnect s) := by
  unfold disconnect
  split
  · rename_i hconnected
    obtain ⟨d, hdone, hopen⟩ := h.connected hconnected
    have hnot : s.doneClosed s.done = false := by
      unfold Sys.doneClosed
      rw [hdone]
      simp [hopen]
    have hlt : d < s.dones.length := (List.getElem?_eq_some_iff.mp hopen).1
    simp only [hdone]
    rw [← hdone, if_neg (by rw [hnot]; nofun)]
    refine { h with length := ?_, pollers := ?_, connected := nofun, closes_iff := ?_ }
    · simp only [length_map]
      exact h.length
    · intro i q hq
      simp only [getElem?_map, map_eq_some_iff] at hq
      obtain ⟨p, hp, rfl⟩ := hq
      refine { h.pollers i p hp with due := fun _ _ => ?_ }
      unfold Sys.doneClosed
      simp only [hdone, getElem?_set_self hlt, getD_some]
    · intro i
      rw [show (i, i) ∈ s.closes ↔ _ from h.closes_iff i]
      simp only [getElem?_map, map_eq_some_iff]
      constructor
      · rintro ⟨p, hp, hend⟩
        exact ⟨_, ⟨p, hp, rfl⟩, hend⟩
      · rintro ⟨q, ⟨p, hp, rfl⟩, hend⟩
        exact ⟨p, hp, hend⟩
  · exact h

/-- One step keeps the invariant if a poller is replaced only after it has left its loop. -/
theorem inv_step {a : Act} (h : Inv s) (hg : ReplacesAlone s a)
    (hu : step s a = some u) : Inv u := by
  unfold step at hu
  rw [if_neg (by rw [h.running]; nofun)] at hu
  cases a with
  | install allowed =>
    cases hu
    exact { h with pollers := fun i p hp => { h.pollers i p hp with } }
  | verified ok =>
    simp only [enabled] at hu
    split at hu
    · cases hu
    · cases ok with
      | true =>
        cases hu
        exact inv_commit s h (hg rfl)
      | false =>
        cases hu
        exact { h with pollers := fun i p hp => { h.pollers i p hp with } }
  | disconnect =>
    cases hu
    exact inv_disconnect s h
  | receive =>
    cases hu
    exact inv_receive s h hg
  | cancel i =>
    obtain ⟨p, hp, rfl⟩ := map_eq_some_iff.mp hu
    exact inv_cancel s i p h hp
  | consume ch =>
    simp only [enabled] at hu
    split at hu
    · rename_i c hc
      split at hu
      · cases hu
      · cases hu
        exact inv_consume s h hc
    · cases hu
  | next i =>
    obtain ⟨p, hp, hstep⟩ := bind_eq_some_iff.mp hu
    exact inv_nextStep s h hp hstep
  | answer i updates =>
    obtain ⟨p, hp, hstep⟩ := bind_eq_some_iff.mp hu
    exact inv_answerStep s h hp hstep
  | retry i =>
    obtain ⟨p, hp, hstep⟩ := bind_eq_some_iff.mp hu
    exact inv_retryStep s h hp hstep
  | send i =>
    obtain ⟨p, hp, hstep⟩ := bind_eq_some_iff.mp hu
    exact inv_sendStep s h hp hstep
  | leave i =>
    obtain ⟨p, hp, hstep⟩ := bind_eq_some_iff.mp hu
    exact inv_leaveStep s h hp hstep

theorem inv_run {acts : List Act} {t : Sys} (hmeets : Meets step ReplacesAlone init acts)
    (hrun : run step init acts = some t) : Inv t :=
  guarded_invariant step ReplacesAlone (fun _ => True) Inv inv_init (fun _ _ _ => trivial)
    (fun s _ _ _ h hg hu => inv_step s h hg hu) hmeets hrun

/-- The channels are safe if `Receive` and `Connect` come when every poller has left its loop. -/
theorem channels_safe_of_replaces_alone (acts : List Act)
    (hmeets : Meets step ReplacesAlone init acts) : Along step ChannelsSafe init acts := by
  intro pre post t hacts hrun
  exact safe_of_inv t (inv_run (Meets.middle step [] pre post hmeets hacts rfl) hrun)

def hello : TgMessage := ⟨1, 7, "private", 0, "hello", none⟩

/-- A poller hands a message over, sees its context cancelled and ends; then the next one starts. -/
def oneAfterTheOther : List Act :=
  [.install [], .verified true, .receive, .next 0, .next 0, .next 0, .next 0,
    .answer 0 (some [⟨5, some hello⟩]), .next 0, .next 0, .next 0, .next 0, .send 0, .next 0,
    .cancel 0, .next 0, .next 0, .next 0, .receive, .next 1]

theorem one_after_the_other_safe :
    (∃ t, run step init oneAfterTheOther = some t ∧ t.sends = [(0, 0)] ∧ t.closes = [(0, 0)]) ∧
      Along step ChannelsSafe init oneAfterTheOther :=
  ⟨exists_run_of_check step (fun s : Sys => s.sends = [(0, 0)] ∧ s.closes = [(0, 0)]) init _
      (by decide), channels_safe_of_replaces_alone _ (meets_of_checkMeets step _ _ _ (by decide))⟩

/-- The second `Receive` comes before the first poller has registered its deferred close. -/
def receivesTwice : List Act :=
  [.install [], .verified true, .receive, .receive, .next 0, .next 1, .cancel 0, .cancel 1,
    .next 0, .next 0, .next 0, .next 1, .next 1, .next 1]

/-- Both pollers close the second channel. -/
theorem receives_twice_panics :
    ∃ t, run step init receivesTwice = some t ∧ t.panicked = true ∧ ¬ ChannelsSafe t := by
  obtain ⟨t, hrun, hpanicked⟩ := exists_run_of_check step (fun s : Sys => s.panicked = true) init
    receivesTwice (by decide)
  refine ⟨t, hrun, hpanicked, ?_⟩
  intro h
  rw [h.running] at hpanicked
  cases hpanicked

end IronGolem.TelegramPollers
