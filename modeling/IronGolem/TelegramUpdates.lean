import Mathlib.Data.List.Infix
import IronGolem.TelegramPollers

/-!
The updates that the Telegram pollers hand over. On one connected instance sessions follow each
other, and the server answers each request with a beginning of the updates that the offset asks
for. A poller acknowledges an update before it hands its message over, and a cancelled context can
end it in between.
-/
namespace IronGolem.TelegramUpdates

open GoChannels MachineIntegers NumberedLists TransitionRuns TelegramPollers List Option

variable (stream : List Update)

def Increasing : Prop :=
  stream.Pairwise (fun u v => u.updateID < v.updateID)

def upTo (x : ℤ) : List Update :=
  stream.filter (fun u => u.updateID ≤ x)

def after (x : ℤ) : List Update :=
  stream.filter (fun u => x < u.updateID)

variable {l : List Update} {x : ℤ}

theorem upTo_of_le (h : ∀ u ∈ l, u.updateID ≤ x) : upTo l x = l ∧ after l x = [] :=
  ⟨filter_eq_self.mpr (by simpa using h), filter_eq_nil_iff.mpr (by simpa using h)⟩

theorem upTo_of_lt (h : ∀ u ∈ l, x < u.updateID) : upTo l x = [] ∧ after l x = l :=
  ⟨filter_eq_nil_iff.mpr (by simpa using h), filter_eq_self.mpr (by simpa using h)⟩

theorem upTo_append_after {stream : List Update} (x : ℤ) (h : Increasing stream) :
    upTo stream x ++ after stream x = stream := by
  induction stream with
  | nil => rfl
  | cons u stream ih =>
    obtain ⟨hu, hrest⟩ := pairwise_cons.mp h
    by_cases hx : u.updateID ≤ x
    · have hrest := ih hrest
      simp only [upTo, after] at hrest
      simp [upTo, after, hx, hrest]
    · have hall := upTo_of_lt (l := u :: stream) (x := x) (by
        rw [forall_mem_cons]
        exact ⟨by omega, fun v hv => by have := hu v hv; omega⟩)
      rw [hall.1, hall.2, nil_append]

variable {u : Update}

theorem upTo_after_next {stream : List Update} {tail : List Update}
    (h : Increasing stream) (hafter : after stream x = u :: tail) :
    x < u.updateID ∧ upTo stream u.updateID = upTo stream x ++ [u] ∧
      after stream u.updateID = tail := by
  have hsplit := upTo_append_after x h
  rw [hafter] at hsplit
  have hu : x < u.updateID := by
    have hmem : u ∈ after stream x := hafter ▸ mem_cons_self
    simpa using (mem_filter.mp hmem).2
  have hbefore := upTo_of_le (l := upTo stream x) (x := u.updateID) fun v hv => by
    have hv : v.updateID ≤ x := by simpa using (mem_filter.mp hv).2
    omega
  have hbehind := upTo_of_lt fun v hv => by
    rw [← hsplit] at h
    exact (pairwise_cons.mp (pairwise_append.mp h).2.1).1 v hv
  refine ⟨hu, ?_, ?_⟩
  · rw [← hsplit, upTo, filter_append, filter_cons_of_pos (by simp), hsplit]
    exact congrArg₂ (· ++ u :: ·) hbefore.1 hbehind.1
  · rw [← hsplit, after, filter_append, filter_cons_of_neg (by simp)]
    exact congrArg₂ (· ++ ·) hbefore.2 hbehind.2

variable (allowed : List ℤ)

def session : Sys :=
  { init with connected := true, allowedChatIDs := allowed, done := some 0, dones := [false] }

def accepted (u : Update) : Option Message :=
  u.message.bind (fun m => if (session allowed).allows m.chatID then some (normalized m) else none)

variable (s : Sys)

def delivered : List Message := (s.chans.map Chan.sent).flatten

def asked : Pc → Option ℤ
  | .fetching offset => some offset
  | _ => none

/-- Sessions start after cancelled ones; an answer is a beginning of the updates, or an error. -/
def Session : Act → Prop
  | .install _ => False
  | .verified _ => False
  | .disconnect => False
  | .receive => ∀ p ∈ s.pollers, p.cancelled = true
  | .answer i (some updates) => ∀ p ∈ s.pollers[i]?, ∀ offset ∈ asked p.pc,
      updates <+: stream.filter (fun u => offset ≤ u.updateID)
  | _ => True

instance (stream : List Update) (s : Sys) : (a : Act) → Decidable (Session stream s a)
  | .install _ => instDecidableFalse
  | .verified _ => instDecidableFalse
  | .disconnect => instDecidableFalse
  | .receive => inferInstanceAs (Decidable (∀ p ∈ s.pollers, p.cancelled = true))
  | .cancel _ => instDecidableTrue
  | .consume _ => instDecidableTrue
  | .next _ => instDecidableTrue
  | .answer _ none => instDecidableTrue
  | .answer i (some updates) =>
      inferInstanceAs (Decidable (∀ p ∈ s.pollers[i]?, ∀ offset ∈ asked p.pc,
        updates <+: stream.filter (fun u => offset ≤ u.updateID)))
  | .retry _ => instDecidableTrue
  | .send _ => instDecidableTrue
  | .leave _ => instDecidableTrue

def DeliversPrefix (stream : List Update) (s : Sys) : Prop :=
  ∃ seen, seen <+: stream ∧ delivered s = seen.filterMap (accepted allowed)

def holds : Pc → Bool
  | .handling updates => !updates.isEmpty
  | .filtering _ _ => true
  | .evalChan _ _ => true
  | .evalDone _ _ _ => true
  | .sending _ _ _ _ => true
  | _ => false

/-- Sessions and contexts change only while no poller holds or fetches an update. -/
def HandsOver : Act → Prop
  | .receive => ∀ p ∈ s.pollers, p.pc.left = true
  | .cancel i => ∀ p ∈ s.pollers[i]?, holds p.pc = false
  | .answer i (some updates) => updates = [] ∨ ∀ p ∈ s.pollers[i]?, p.cancelled = false
  | _ => True

instance (s : Sys) : (a : Act) → Decidable (HandsOver s a)
  | .install _ => instDecidableTrue
  | .verified _ => instDecidableTrue
  | .disconnect => instDecidableTrue
  | .receive => inferInstanceAs (Decidable (∀ p ∈ s.pollers, p.pc.left = true))
  | .cancel i => inferInstanceAs (Decidable (∀ p ∈ s.pollers[i]?, holds p.pc = false))
  | .consume _ => instDecidableTrue
  | .next _ => instDecidableTrue
  | .answer _ none => instDecidableTrue
  | .answer i (some updates) =>
      inferInstanceAs (Decidable (updates = [] ∨ ∀ p ∈ s.pollers[i]?, p.cancelled = false))
  | .retry _ => instDecidableTrue
  | .send _ => instDecidableTrue
  | .leave _ => instDecidableTrue

def batch : Pc → List Update
  | .handling updates => updates
  | .filtering _ rest => rest
  | .evalChan _ rest => rest
  | .evalDone _ _ rest => rest
  | .sending _ _ _ rest => rest
  | _ => []

def inflight : Pc → List Message
  | .filtering m _ => if (session allowed).allows m.chatID then [normalized m] else []
  | .evalChan m _ => [normalized m]
  | .evalDone _ m _ => [normalized m]
  | .sending _ _ m _ => [normalized m]
  | _ => []

def acknowledged (stream : List Update) (x : ℤ) : List Message :=
  (upTo stream x).filterMap (accepted allowed)

structure PollerFlow (stream : List Update) (lastUpdate : ℤ) (p : Poller) : Prop where
  batch : batch p.pc <+: after stream lastUpdate
  offset : ∀ o, p.pc = .fetching o → o = lastUpdate + 1
  quiet : p.cancelled = true → holds p.pc = false

structure Flow (allowed : List ℤ) (stream : List Update) (s : Sys) : Prop where
  inv : Inv s
  connected : s.connected = true
  chats : s.allowedChatIDs = allowed
  last : ∀ c, s.msgCh = some c → c + 1 = s.chans.length
  range : 0 ≤ s.lastUpdate ∧ s.lastUpdate < 2 ^ 63 - 1
  pollers : ∀ p ∈ s.pollers, PollerFlow stream s.lastUpdate p
  idle : (∀ p ∈ s.pollers, p.pc.left = true) →
    delivered s = acknowledged allowed stream s.lastUpdate
  busy : ∀ p ∈ s.pollers, p.pc.left = false →
    delivered s ++ inflight allowed p.pc = acknowledged allowed stream s.lastUpdate

variable (allowed : List ℤ) (stream : List Update) {s : Sys}

theorem deliversPrefix_of_flow (hstream : Increasing stream) (h : Flow allowed stream s) :
    DeliversPrefix allowed stream s := by
  have hleading : delivered s <+: acknowledged allowed stream s.lastUpdate := by
    by_cases hidle : ∀ p ∈ s.pollers, p.pc.left = true
    · exact (h.idle hidle) ▸ prefix_rfl
    · push Not at hidle
      obtain ⟨p, hp, hleft⟩ := hidle
      exact ⟨_, h.busy p hp (Bool.eq_false_iff.mpr hleft)⟩
  obtain ⟨seen, hseen, heq⟩ := prefix_filterMap_iff.mp hleading
  refine ⟨seen, hseen.trans ?_, heq⟩
  exact ⟨_, upTo_append_after s.lastUpdate hstream⟩

theorem eq_of_not_left (h : Inv s) {i j : ℕ} {p q : Poller}
    (hp : s.pollers[i]? = some p) (hq : s.pollers[j]? = some q) (hpl : p.pc.left = false)
    (hql : q.pc.left = false) : i = j := by
  have hi := (h.pollers i p hp).current hpl
  have hj := (h.pollers j q hq).current hql
  exact some.inj (hi.symm.trans hj)

theorem pollerFlow_of_left (x : ℤ) {p : Poller} (h : p.pc.left = true) : PollerFlow stream x p := by
  obtain ⟨cancelled, deferred, pc, stopDue, overran⟩ := p
  cases pc with
  | returning | ended => exact ⟨List.nil_prefix, (fun _ ho => by cases ho), fun _ => rfl⟩
  | _ => cases h

theorem allows_eq (h : Flow allowed stream s) (chatID : ℤ) :
    s.allows chatID = (session allowed).allows chatID := by
  unfold Sys.allows
  rw [h.chats]
  rfl

variable {v : Sys} {i : ℕ} {p : Poller} (p' : Poller)

/-- The poller in the loop takes a step; the others have left theirs. -/
theorem flow_setPoller (h : Flow allowed stream s) (hp : s.pollers[i]? = some p)
    (hleft : p.pc.left = false) (hinv : Inv v) (hpollers : v.pollers = s.pollers.set i p')
    (hconnected : v.connected = s.connected) (hchats : v.allowedChatIDs = s.allowedChatIDs)
    (hmsg : v.msgCh = s.msgCh) (hlength : v.chans.length = s.chans.length)
    (hrange : 0 ≤ v.lastUpdate ∧ v.lastUpdate < 2 ^ 63 - 1)
    (hflow : PollerFlow stream v.lastUpdate p')
    (hidle : p'.pc.left = true → delivered v = acknowledged allowed stream v.lastUpdate)
    (hbusy : p'.pc.left = false →
      delivered v ++ inflight allowed p'.pc = acknowledged allowed stream v.lastUpdate) :
    Flow allowed stream v := by
  have hother : ∀ (j : ℕ) q, i ≠ j → s.pollers[j]? = some q → q.pc.left = true := by
    intro j q hij hq
    by_contra hnot
    exact hij (eq_of_not_left h.inv hp hq hleft (Bool.eq_false_iff.mpr hnot))
  have hlt : i < s.pollers.length := (List.getElem?_eq_some_iff.mp hp).1
  have hmem : p' ∈ v.pollers := hpollers ▸ List.mem_set hlt p'
  have hcases : ∀ q ∈ v.pollers, q = p' ∨ q.pc.left = true := by
    intro q hq
    rw [hpollers] at hq
    obtain ⟨j, hj⟩ := List.mem_iff_getElem?.mp hq
    rcases getElem?_set_eq_some _ _ _ hj with ⟨-, rfl⟩ | ⟨hij, hold⟩
    · exact .inl rfl
    · exact .inr (hother j q hij hold)
  refine ⟨hinv, hconnected.trans h.connected, hchats.trans h.chats, ?_, hrange, ?_, ?_, ?_⟩
  · rw [hmsg, hlength]
    exact h.last
  · intro q hq
    rcases hcases q hq with rfl | hql
    · exact hflow
    · exact pollerFlow_of_left stream v.lastUpdate hql
  · intro hall
    exact hidle (hall p' hmem)
  · intro q hq hql
    rcases hcases q hq with rfl | hql'
    · exact hbusy hql
    · rw [hql] at hql'
      cases hql'

theorem flow_move (h : Flow allowed stream s) (hp : s.pollers[i]? = some p)
    (hleft : p.pc.left = false)
    (hinv : Inv (s.setPoller i p')) (hcancelled : p'.cancelled = p.cancelled)
    (hbatch : batch p'.pc = batch p.pc) (hholds : holds p'.pc = true → holds p.pc = true)
    (hoffset : ∀ o, p'.pc = .fetching o → o = s.lastUpdate + 1)
    (hinflight : inflight allowed p'.pc = inflight allowed p.pc) :
    Flow allowed stream (s.setPoller i p') := by
  have hflow := h.pollers p (mem_of_getElem? hp)
  have hbusy := h.busy p (mem_of_getElem? hp) hleft
  rw [← hinflight] at hbusy
  refine flow_setPoller allowed stream p' h hp hleft hinv rfl rfl rfl rfl rfl h.range
    ⟨hbatch ▸ hflow.batch, hoffset, fun hc => ?_⟩ (fun hleft' => ?_) fun _ => hbusy
  · have hquiet := hflow.quiet (hcancelled.symm.trans hc)
    rw [Bool.eq_false_iff] at hquiet ⊢
    exact fun hheld => hquiet (hholds hheld)
  · have hnone : inflight allowed p'.pc = [] := by
      cases hpc : p'.pc with
      | returning | ended => rfl
      | _ => simp [hpc, Pc.left] at hleft'
    rw [hnone, append_nil] at hbusy
    exact hbusy

/-- The next update is acknowledged, and its message is in flight. -/
theorem flow_acknowledge {rest : List Update} (hstream : Increasing stream)
    (hids : ∀ u ∈ stream, 1 ≤ u.updateID ∧ u.updateID < 2 ^ 63 - 1)
    (h : Flow allowed stream s) (hp : s.pollers[i]? = some p) (hpc : p.pc = .handling (u :: rest))
    (hv : nextStep s i p = some v) : Flow allowed stream v := by
  have hinv := inv_nextStep s h.inv hp hv
  obtain ⟨cancelled, deferred, pc, stopDue, overran⟩ := p
  subst hpc
  have hflow := h.pollers _ (mem_of_getElem? hp)
  have hbusy := h.busy _ (mem_of_getElem? hp) rfl
  obtain ⟨more, hmore⟩ := hflow.batch
  have hafter : after stream s.lastUpdate = u :: (rest ++ more) := hmore.symm
  obtain ⟨hlt, hupTo, hafter'⟩ := upTo_after_next hstream hafter
  have hmem : u ∈ after stream s.lastUpdate := hafter ▸ mem_cons_self
  have hid := hids u (mem_filter.mp hmem).1
  have hack : acknowledged allowed stream u.updateID =
      delivered s ++ (accepted allowed u).toList := by
    simp only [inflight, append_nil] at hbusy
    rw [hbusy]
    unfold acknowledged
    rw [hupTo, filterMap_append]
    cases haccepted : accepted allowed u <;> simp [haccepted]
  simp only [nextStep, if_pos hlt.le] at hv
  cases hv
  refine flow_setPoller allowed stream _ h hp rfl hinv rfl rfl rfl rfl rfl
    ⟨(Int.le_of_lt (by omega) : (0 : ℤ) ≤ u.updateID), hid.2⟩
    ⟨?_, ?_, fun hcancelled => (by cases hflow.quiet hcancelled)⟩ ?_ ?_
  · rw [hafter']
    cases u.message <;> exact ⟨more, rfl⟩
  · intro o ho
    cases hm : u.message <;> simp [hm] at ho
  · intro hleft
    cases hm : u.message <;> simp [hm, Pc.left] at hleft
  · intro _
    rw [hack]
    unfold accepted
    cases u.message with
    | none => rfl
    | some m =>
      simp only [inflight, bind_some]
      split <;> rfl

/-- A step that changes no poller's place and keeps what is on the channels. -/
theorem flow_of_same (h : Flow allowed stream s) (hinv : Inv v)
    (hconnected : v.connected = s.connected)
    (hchats : v.allowedChatIDs = s.allowedChatIDs) (hmsg : v.msgCh = s.msgCh)
    (hlength : v.chans.length = s.chans.length) (hlast : v.lastUpdate = s.lastUpdate)
    (hdelivered : delivered v = delivered s) (hback : ∀ q ∈ v.pollers, q.pc.left = true ∨
      ∃ p ∈ s.pollers, q.pc = p.pc ∧ (q.cancelled = true → p.cancelled = true ∨ holds p.pc = false))
    (hforth : ∀ p ∈ s.pollers, p.pc.left = false → ∃ q ∈ v.pollers, q.pc.left = false) :
    Flow allowed stream v := by
  refine ⟨hinv, hconnected.trans h.connected, hchats.trans h.chats, ?_,
    by rw [hlast]; exact h.range, ?_, ?_, ?_⟩
  · rw [hmsg, hlength]
    exact h.last
  · intro q hq
    rw [hlast]
    rcases hback q hq with hleft | ⟨p, hp, hpc, hcancelled⟩
    · exact pollerFlow_of_left stream s.lastUpdate hleft
    · have hflow := h.pollers p hp
      refine ⟨by rw [hpc]; exact hflow.batch, by rw [hpc]; exact hflow.offset, ?_⟩
      intro hc
      rw [hpc]
      rcases hcancelled hc with hold | hnothing
      · exact hflow.quiet hold
      · exact hnothing
  · intro hall
    rw [hdelivered, hlast]
    refine h.idle ?_
    intro p hp
    by_contra hnot
    obtain ⟨q, hq, hleft⟩ := hforth p hp (Bool.eq_false_iff.mpr hnot)
    rw [hall q hq] at hleft
    cases hleft
  · intro q hq hleft
    rw [hdelivered, hlast]
    rcases hback q hq with hnot | ⟨p, hp, hpc, -⟩
    · rw [hleft] at hnot
      cases hnot
    · rw [hpc] at hleft ⊢
      exact h.busy p hp hleft

theorem flow_close (h : Flow allowed stream s) (hp : s.pollers[i]? = some p)
    (hpc : p.pc = .returning) (hv : closeDeferred s i p = some v) : Flow allowed stream v := by
  have hinv := inv_closeDeferred s h.inv hp hpc hv
  have hdeferred := (h.inv.pollers i p hp).deferred (by rw [hpc]; nofun)
  obtain ⟨c, hchan, hopen⟩ := exists_open_chan s i p h.inv hp (by rw [hpc]; nofun)
  simp only [closeDeferred, hdeferred, hchan, Chan.close_of_open _ hopen] at hv
  cases hv
  refine flow_of_same allowed stream h hinv rfl rfl rfl (length_set ..) rfl ?_ ?_ ?_
  · exact congrArg flatten (map_set_of_eq Chan.sent hchan rfl)
  · intro q hq
    obtain ⟨j, hj⟩ := mem_iff_getElem?.mp hq
    rcases getElem?_set_eq_some _ _ _ hj with ⟨-, rfl⟩ | ⟨-, hold⟩
    · exact .inl rfl
    · exact .inr ⟨q, mem_of_getElem? hold, rfl, .inl⟩
  · intro q hq hleft
    obtain ⟨j, hj⟩ := mem_iff_getElem?.mp hq
    have hij : i ≠ j := by
      rintro rfl
      rw [hp, some.injEq] at hj
      rw [← hj, hpc] at hleft
      cases hleft
    exact ⟨q, mem_of_getElem? ((getElem?_set_ne hij).trans hj), hleft⟩

theorem flow_nextStep (hstream : Increasing stream)
    (hids : ∀ u ∈ stream, 1 ≤ u.updateID ∧ u.updateID < 2 ^ 63 - 1)
    (h : Flow allowed stream s) (hp : s.pollers[i]? = some p) (hv : nextStep s i p = some v) :
    Flow allowed stream v := by
  have hinv := inv_nextStep s h.inv hp hv
  obtain ⟨cancelled, deferred, pc, stopDue, overran⟩ := p
  have hmove := fun p' => flow_move allowed stream (s := s) (i := i) p' h hp
  cases pc with
  | start | head | failed | evalChan m rest | evalDone ch m rest =>
    cases hv
    exact hmove _ rfl hinv rfl rfl id (fun _ ho => by cases ho) rfl
  | selecting done =>
    simp only [nextStep] at hv
    split at hv
    · cases hv
      exact hmove _ rfl hinv rfl rfl id (fun _ ho => by cases ho) rfl
    · cases hv
      exact hmove _ rfl hinv rfl rfl id (fun _ ho => by cases ho) rfl
  | polling =>
    cases hv
    refine hmove _ rfl hinv rfl rfl id (fun o ho => ?_) rfl
    have hrange := h.range
    rw [← Pc.fetching.inj ho]
    exact wrap_of_range (by omega) (by omega)
  | handling updates =>
    cases updates with
    | nil =>
      cases hv
      exact hmove _ rfl hinv rfl rfl id (fun _ ho => by cases ho) rfl
    | cons u rest => exact flow_acknowledge allowed stream hstream hids h hp rfl hv
  | filtering m rest =>
    have hallows := allows_eq allowed stream h m.chatID
    cases hv
    refine hmove _ rfl hinv rfl ?_ (fun _ => rfl) (fun o ho => ?_) ?_
    · split <;> rfl
    · split at ho <;> cases ho
    · by_cases hallowed : s.allows m.chatID = true
      · simp [if_pos hallowed, inflight, ← hallows]
      · simp [if_neg hallowed, inflight, ← hallows]
  | returning => exact flow_close allowed stream h hp rfl hv
  | _ => cases hv

section

variable (h : Flow allowed stream s)

include h

theorem flow_cancel (hp : s.pollers[i]? = some p) (hquiet : holds p.pc = false) :
    Flow allowed stream (s.setPoller i { p with cancelled := true }) := by
  have hlt : i < s.pollers.length := (List.getElem?_eq_some_iff.mp hp).1
  refine flow_of_same allowed stream h (inv_cancel s i p h.inv hp) rfl rfl rfl rfl rfl rfl ?_ ?_
  · intro q hq
    obtain ⟨j, hj⟩ := List.mem_iff_getElem?.mp hq
    rcases getElem?_set_eq_some _ _ _ hj with ⟨-, rfl⟩ | ⟨-, hold⟩
    · exact .inr ⟨p, List.mem_of_getElem? hp, rfl, fun _ => .inr hquiet⟩
    · exact .inr ⟨q, List.mem_of_getElem? hold, rfl, .inl⟩
  · intro q hq hleft
    obtain ⟨j, hj⟩ := List.mem_iff_getElem?.mp hq
    by_cases hij : i = j
    · subst hij
      rw [hp, some.injEq] at hj
      exact ⟨_, List.mem_of_getElem? (List.getElem?_set_self hlt), hj ▸ hleft⟩
    · exact ⟨q, List.mem_of_getElem? ((List.getElem?_set_ne hij).trans hj), hleft⟩

theorem flow_consume {ch : ℕ} {c : Chan Message} (hc : s.chans[ch]? = some c) :
    Flow allowed stream { s with chans := s.chans.set ch c.receive } :=
  flow_of_same allowed stream h (inv_consume s h.inv hc) rfl rfl rfl (length_set ..)
    rfl (congrArg flatten (map_set_of_eq Chan.sent hc rfl))
    (fun q hq => .inr ⟨q, hq, rfl, .inl⟩) (fun p hp hleft => ⟨p, hp, hleft⟩)

section

variable (hp : s.pollers[i]? = some p)

include hp

/-- The message in flight arrives on the last channel. -/
theorem flow_sendStep
    (hv : sendStep s i p = some v) : Flow allowed stream v := by
  have hinv := inv_sendStep s h.inv hp hv
  have hok := h.inv.pollers i p hp
  unfold sendStep at hv
  split at hv
  · rename_i ch done m rest hpc
    have hch : ch = i := some.inj (hok.target (some ch) (by rw [hpc]; rfl))
    subst hch
    have hleft : p.pc.left = false := by rw [hpc]; rfl
    obtain ⟨c, hchan, hopen⟩ := exists_open_chan s ch p h.inv hp (by rw [hpc]; nofun)
    simp only [hchan, Chan.send_of_open _ _ hopen] at hv
    split at hv
    · cases hv
      have hflow := h.pollers p (mem_of_getElem? hp)
      have hbusy := h.busy p (mem_of_getElem? hp) hleft
      have hbatch := hflow.batch
      rw [hpc] at hbusy hbatch
      have hdelivered : ((s.chans.set ch { c with sent := c.sent ++ [normalized m] }).map
          Chan.sent).flatten = delivered s ++ [normalized m] :=
        flatten_map_set_last Chan.sent hchan (h.last ch (hok.current hleft)) rfl
      refine flow_setPoller allowed stream _ h hp hleft hinv rfl rfl rfl rfl
        (length_set ..) h.range ⟨hbatch, nofun, ?_⟩ nofun ?_
      · intro hcancelled
        have hquiet := hflow.quiet hcancelled
        rw [hpc] at hquiet
        cases hquiet
      · intro _
        exact (append_nil _).trans (hdelivered.trans hbusy)
    · cases hv
  · cases hv

theorem flow_leaveStep
    (hv : leaveStep s i p = some v) : Flow allowed stream v := by
  have hinv := inv_leaveStep s h.inv hp hv
  obtain ⟨cancelled, deferred, pc, stopDue, overran⟩ := p
  unfold leaveStep at hv
  split at hv
  · rename_i done hpc
    subst hpc
    split at hv
    · cases hv
      exact flow_move allowed stream _ h hp rfl hinv rfl rfl id (fun _ ho => by cases ho) rfl
    · cases hv
  · rename_i ch done m rest hpc
    subst hpc
    split at hv
    · rename_i hready
      -- neither the context nor the done channel lets a poller go that holds a message
      obtain ⟨d, hd, hopen⟩ := h.inv.connected h.connected
      have hnot : s.doneClosed done = false := by
        rw [(h.inv.pollers i _ hp).watched done rfl, hd]
        simp [Sys.doneClosed, hopen]
      rw [hnot, Bool.or_false] at hready
      cases (h.pollers _ (mem_of_getElem? hp)).quiet hready
    · cases hv
  · cases hv

theorem flow_answerStep {updates : Option (List Update)}
    (hserver : ∀ us, updates = some us → ∀ offset, p.pc = .fetching offset →
      us <+: stream.filter (fun u => offset ≤ u.updateID))
    (hguard : ∀ us, updates = some us → us = [] ∨ p.cancelled = false)
    (hv : answerStep s i p updates = some v) : Flow allowed stream v := by
  have hinv := inv_answerStep s h.inv hp hv
  have hflow := h.pollers p (mem_of_getElem? hp)
  unfold answerStep at hv
  split at hv
  · rename_i offset hpc
    cases updates with
    | none =>
      cases hv
      exact flow_move allowed stream _ h hp (by rw [hpc]; rfl) hinv rfl (by rw [hpc]; rfl)
        nofun nofun (by rw [hpc]; rfl)
    | some us =>
      cases hv
      have hbusy := h.busy p (mem_of_getElem? hp) (by rw [hpc]; rfl)
      rw [hpc] at hbusy
      have hus := hserver us rfl offset hpc
      have hoffset := hflow.offset offset hpc
      have hfilter : stream.filter (fun u => offset ≤ u.updateID) = after stream s.lastUpdate := by
        apply filter_congr
        intro u _
        rw [hoffset]
        exact decide_eq_decide.mpr Int.add_one_le_iff
      refine flow_setPoller allowed stream _ h hp (by rw [hpc]; rfl) hinv rfl rfl rfl rfl
        rfl h.range ⟨hfilter ▸ hus, nofun, ?_⟩ nofun (fun _ => hbusy)
      intro hcancelled
      rcases hguard us rfl with rfl | hnot
      · rfl
      · rw [hnot] at hcancelled
        cases hcancelled
  · cases hv

theorem flow_retryStep
    (hv : retryStep s i p = some v) : Flow allowed stream v := by
  have hinv := inv_retryStep s h.inv hp hv
  obtain ⟨cancelled, deferred, pc, stopDue, overran⟩ := p
  cases pc with
  | waiting done =>
    cases hv
    exact flow_move allowed stream _ h hp rfl hinv rfl rfl id (fun _ ho => by cases ho) rfl
  | _ => cases hv

end

theorem flow_receive (hleft : ∀ p ∈ s.pollers, p.pc.left = true) :
    Flow allowed stream (receive s) := by
  have hinv := inv_receive s h.inv (fun _ => hleft)
  have hidle := h.idle hleft
  unfold receive at hinv ⊢
  rw [if_pos h.connected] at hinv ⊢
  have hdelivered : ((s.chans ++ [Chan.empty]).map Chan.sent).flatten = delivered s := by
    rw [map_append, flatten_append]
    exact append_nil _
  refine ⟨hinv, h.connected, h.chats, ?_, h.range, ?_, ?_, ?_⟩
  · intro c hc
    rw [← some.inj hc, length_append]
    rfl
  · intro p hp
    rcases mem_append.mp hp with hp | hp
    · exact h.pollers p hp
    · rw [mem_singleton.mp hp]
      exact ⟨List.nil_prefix, nofun, nofun⟩
  · intro hall
    cases hall _ (mem_append_right _ mem_cons_self)
  · intro p hp hpl
    rcases mem_append.mp hp with hp | hp
    · rw [hleft p hp] at hpl
      cases hpl
    · rw [mem_singleton.mp hp]
      unfold delivered
      rw [hdelivered]
      exact (append_nil _).trans hidle

end

theorem flow_session (hids : ∀ u ∈ stream, 1 ≤ u.updateID ∧ u.updateID < 2 ^ 63 - 1) :
    Flow allowed stream (session allowed) := by
  have hinv : Inv (session allowed) :=
    ⟨rfl, rfl, by simp [session, init], fun _ => ⟨0, rfl, rfl⟩,
      fun e he => absurd he not_mem_nil, fun e he => absurd he not_mem_nil,
      nodup_nil, by simp [session, init]⟩
  have hnone := (upTo_of_lt (l := stream) (x := 0) fun u hu => (hids u hu).1).1
  have hrange : (0 : ℤ) ≤ 0 ∧ (0 : ℤ) < 2 ^ 63 - 1 := by decide
  refine ⟨hinv, rfl, rfl, (fun c hc => by cases hc), hrange,
    fun p hp => absurd hp not_mem_nil, ?_, fun p hp => absurd hp not_mem_nil⟩
  intro _
  unfold acknowledged
  rw [show (session allowed).lastUpdate = 0 from rfl, hnone]
  rfl

theorem flow_step {a : Act} (hstream : Increasing stream)
    (hids : ∀ u ∈ stream, 1 ≤ u.updateID ∧ u.updateID < 2 ^ 63 - 1)
    (h : Flow allowed stream s) (hsession : Session stream s a) (hguard : HandsOver s a)
    (hv : step s a = some v) : Flow allowed stream v := by
  unfold step at hv
  rw [if_neg (by rw [h.inv.running]; nofun)] at hv
  cases a with
  | receive =>
    cases hv
    exact flow_receive allowed stream h hguard
  | cancel i =>
    obtain ⟨p, hp, rfl⟩ := map_eq_some_iff.mp hv
    exact flow_cancel allowed stream h hp (hguard p hp)
  | consume ch =>
    simp only [enabled] at hv
    split at hv
    · rename_i c hc
      split at hv
      · cases hv
      · cases hv
        exact flow_consume allowed stream h hc
    · cases hv
  | next i =>
    obtain ⟨p, hp, hstep⟩ := bind_eq_some_iff.mp hv
    exact flow_nextStep allowed stream hstream hids h hp hstep
  | answer i updates =>
    obtain ⟨p, hp, hstep⟩ := bind_eq_some_iff.mp hv
    refine flow_answerStep allowed stream h hp ?_ ?_ hstep
    · rintro us rfl offset hpc
      exact hsession p hp offset (by rw [hpc]; rfl)
    · rintro us rfl
      rcases hguard with hempty | hlive
      · exact .inl hempty
      · exact .inr (hlive p hp)
  | retry i =>
    obtain ⟨p, hp, hstep⟩ := bind_eq_some_iff.mp hv
    exact flow_retryStep allowed stream h hp hstep
  | send i =>
    obtain ⟨p, hp, hstep⟩ := bind_eq_some_iff.mp hv
    exact flow_sendStep allowed stream h hp hstep
  | leave i =>
    obtain ⟨p, hp, hstep⟩ := bind_eq_some_iff.mp hv
    exact flow_leaveStep allowed stream h hp hstep
  | _ => cases hsession

/-- The messages handed over are a beginning of the stream, if what is fetched is handed over. -/
theorem updates_delivered_of_hands_over (allowed : List ℤ) (stream : List Update) (acts : List Act)
    (hstream : Increasing stream)
    (hids : ∀ u ∈ stream, 1 ≤ u.updateID ∧ u.updateID < 2 ^ 63 - 1)
    (hsession : Meets step (Session stream) (session allowed) acts)
    (hguard : Meets step HandsOver (session allowed) acts) :
    Along step (DeliversPrefix allowed stream) (session allowed) acts := by
  intro pre post t hacts hrun
  have hflow := guarded_invariant step (fun s a => Session stream s a ∧ HandsOver s a)
    (fun _ => True) (Flow allowed stream) (flow_session allowed stream hids)
    (fun _ _ _ => trivial)
    (fun s a u _ h hg hu => flow_step allowed stream hstream hids h hg.1 hg.2 hu)
    (fun before a rest u hpre hu =>
      ⟨hsession before a (rest ++ post) u (by simp [hacts, hpre]) hu,
        hguard before a (rest ++ post) u (by simp [hacts, hpre]) hu⟩) hrun
  exact deliversPrefix_of_flow allowed stream hstream hflow

def note (id : ℤ) (text : String) : Update := ⟨id, some ⟨id, 7, "private", 0, text, none⟩⟩

def asks (i : ℕ) : List Act := [.next i, .next i, .next i]

def offers (i : ℕ) : List Act := [.next i, .next i, .next i, .next i]

def twoSessions : List Act :=
  List.flatten [[.receive, .next 0], asks 0, [.answer 0 (some [note 1 "a"])], offers 0, [.send 0,
    .next 0, .cancel 0, .next 0, .next 0, .next 0, .receive, .next 1], asks 1,
    [.answer 1 (some [note 2 "b"])], offers 1, [.send 1]]

theorem two_sessions_deliver_both :
    (∃ t, run step (session []) twoSessions = some t ∧
      (delivered t).map Message.content = ["a", "b"]) ∧
    Along step (DeliversPrefix [] [note 1 "a", note 2 "b"]) (session []) twoSessions :=
  ⟨exists_run_of_check step (fun s : Sys => (delivered s).map Message.content = ["a", "b"]) _ _
      (by decide),
    updates_delivered_of_hands_over [] [note 1 "a", note 2 "b"] twoSessions
      (by unfold Increasing; decide) (by decide) (meets_of_checkMeets step _ _ _ (by decide))
      (meets_of_checkMeets step _ _ _ (by decide))⟩

def cancelledInBetween : List Act :=
  List.flatten [[.receive, .next 0], asks 0, [.answer 0 (some [note 1 "a"])], offers 0, [.cancel 0,
    .leave 0, .next 0, .receive, .next 1], asks 1, [.answer 1 (some [note 2 "b"])], offers 1,
    [.send 1]]

/-- The message of the first update is acknowledged and never handed over. -/
theorem cancelled_in_between_loses_message :
    Meets step (Session [note 1 "a", note 2 "b"]) (session []) cancelledInBetween ∧
    ∃ t, run step (session []) cancelledInBetween = some t ∧
      (delivered t).map Message.content = ["b"] ∧
      ¬ DeliversPrefix [] [note 1 "a", note 2 "b"] t := by
  refine ⟨meets_of_checkMeets step _ _ _ (by decide), ?_⟩
  obtain ⟨t, hrun, hdelivered⟩ := exists_run_of_check step
    (fun s : Sys => (delivered s).map Message.content = ["b"]) (session []) cancelledInBetween
    (by decide)
  refine ⟨t, hrun, hdelivered, ?_⟩
  rintro ⟨seen, hseen, heq⟩
  rw [heq] at hdelivered
  have hall : ∀ l ∈ [note 1 "a", note 2 "b"].inits,
      (l.filterMap (accepted [])).map Message.content ≠ ["b"] := by decide
  exact hall seen ((mem_inits seen _).mpr hseen) hdelivered

end IronGolem.TelegramUpdates
