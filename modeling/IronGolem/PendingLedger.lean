import IronGolem.ClientControl
import Mathlib.Data.List.Nodup

/-!
Who owns each pending request: the map, the supervisor or the reader. The ledger is the part of the
client that all parties share about the requests, and `Move` lists the few ways in which any step
of any party can change it.
-/
namespace IronGolem.PendingLedger

open GoChannels RuntimeClient ClientSteps ClientControl TransitionRuns List

structure Ledger where
  pending : List (String × ℕ)
  calls : ℕ → Call
  jobs : Party → Job

def ledger (s : Sys) : Ledger := ⟨s.pending, s.calls, s.jobs⟩

def early : CallPc → Bool
  | .idle | .accepted | .admitted => true
  | _ => false

def inflight : CallPc → Bool
  | .registered | .waiting => true
  | _ => false

def otherParty : Party → Party
  | .supervisor => .reader
  | .reader => .supervisor

namespace Ledger

variable (l : Ledger)

def inMap : List ℕ := l.pending.map Prod.snd

def todo (p : Party) : List ℕ := (l.jobs p).todo

def held : List ℕ := l.inMap ++ (l.todo .supervisor ++ l.todo .reader)

def setCall (c : ℕ) (call : Call) : Ledger :=
  { l with calls := Function.update l.calls c call }

def setJob (p : Party) (job : Job) : Ledger :=
  { l with jobs := Function.update l.jobs p job }

def setPending (pending : List (String × ℕ)) : Ledger :=
  { l with pending := pending }

variable (l : Ledger) (pending : List (String × ℕ))

@[simp] theorem calls_setPending : (l.setPending pending).calls = l.calls := rfl

variable (p : Party) (job : Job)

@[simp] theorem calls_setCall (c : ℕ) (call : Call) : (l.setCall c call).calls c = call := by
  simp [setCall]

theorem calls_setCall_of_ne (c d : ℕ) (call : Call) (h : d ≠ c) :
    (l.setCall c call).calls d = l.calls d := by
  simp [setCall, h]

@[simp] theorem todo_setPending : (l.setPending pending).todo p = l.todo p := rfl

@[simp] theorem todo_setJob : (l.setJob p job).todo p = job.todo := by
  simp [todo, setJob]

@[simp] theorem todo_setJob_other :
    (l.setJob p job).todo (otherParty p) = l.todo (otherParty p) := by
  cases p <;> simp [todo, setJob, otherParty]

theorem held_perm : l.held.Perm (l.inMap ++ (l.todo p ++ l.todo (otherParty p))) := by
  cases p with
  | supervisor => exact List.Perm.refl _
  | reader => exact List.Perm.append_left _ perm_append_comm

end Ledger

/-- Every way in which a step can change the ledger. -/
inductive Move (cfg : Config) (l : Ledger) : Ledger → Prop where
  | stay : Move cfg l l
  | begin (c : ℕ) (kind : CallKind) (h : (l.calls c).pc = .idle) :
      Move cfg l (l.setCall c (newCall kind))
  | advance (c : ℕ) (pc : CallPc) (hearly : early pc = true → early (l.calls c).pc = true)
      (hin : inflight pc = true → inflight (l.calls c).pc = true) :
      Move cfg l (l.setCall c { l.calls c with pc := pc })
  | insert (c : ℕ) (h : (l.calls c).pc = .admitted) :
      Move cfg l ((l.setCall c { l.calls c with pc := .registered }).setPending
        ((cfg.newID c, c) :: l.pending))
  | unregister (c : ℕ) (e : CallError) (h : (l.calls c).pc = .unregistering e) :
      Move cfg l ((l.setCall c { l.calls c with pc := .returned (.err e) }).setPending
        (unregister l.pending (cfg.newID c)))
  | receive (c : ℕ) (r : CallResult) :
      Move cfg l (l.setCall c { l.calls c with
        done := (l.calls c).done.receive
        pc := .returned r })
  | events (c : ℕ) (ch ch' : Chan EventNotification) (h : (l.calls c).events = some ch)
      (hclosed : ch'.closed = ch.closed) :
      Move cfg l (l.setCall c { l.calls c with events := some ch' })
  | take (r : Response) (c : ℕ) (hidle : l.todo .reader = [])
      (h : l.pending.lookup r.requestID = some c) :
      Move cfg l ((l.setJob .reader ⟨.response r, [c], .send⟩).setPending
        (unregister l.pending r.requestID))
  | swap (p : Party) (v : TerminalResponse) (order : List ℕ) (hidle : l.todo p = [])
      (h : order.Perm l.inMap) : Move cfg l ((l.setJob p ⟨v, order, .send⟩).setPending [])
  | send (p : Party) (c : ℕ) (rest : List ℕ) (ch : Chan TerminalResponse)
      (htodo : l.todo p = c :: rest) (hstage : (l.jobs p).stage = .send)
      (h : (l.calls c).done.send (l.jobs p).value = some ch) :
      Move cfg l ((l.setCall c { l.calls c with done := ch }).setJob p
        { l.jobs p with stage := .closeDone })
  | closeDone (p : Party) (c : ℕ) (rest : List ℕ) (ch : Chan TerminalResponse)
      (htodo : l.todo p = c :: rest) (hstage : (l.jobs p).stage = .closeDone)
      (h : (l.calls c).done.close = some ch) :
      Move cfg l ((l.setCall c { l.calls c with done := ch }).setJob p
        (if (l.calls c).events.isSome then { l.jobs p with stage := .closeEvents }
          else { l.jobs p with todo := rest, stage := .send }))
  | closeEvents (p : Party) (c : ℕ) (rest : List ℕ) (ch : Chan EventNotification)
      (htodo : l.todo p = c :: rest) (hstage : (l.jobs p).stage = .closeEvents)
      (h : (l.calls c).events.bind Chan.close = some ch) :
      Move cfg l ((l.setCall c { l.calls c with events := some ch }).setJob p
        { l.jobs p with todo := rest, stage := .send })

variable {cfg : Config} {s t : Sys}

theorem callTo_move {c : ℕ} {a : CallAct} (h : CallTo cfg s c a t) :
    Move cfg (ledger s) (ledger t) := by
  cases h with
  | begin kind hpc => exact Move.begin c kind hpc
  | insert hpc => exact Move.insert c hpc
  | unregister e hpc => exact Move.unregister c e hpc
  | receive => exact Move.receive c _
  | takeEvent ch hevents => exact Move.events c ch ch.receive hevents rfl
  | refuse hpc | passCheck hpc | reject hpc | duplicate hpc | marshalFails hpc | enqueue hpc
  | sendCancelled hpc | sendStopped hpc | receiveClosed hpc | waitCancelled hpc =>
    refine Move.advance c _ ?_ ?_
    all_goals simp [ledger, early, inflight, hpc]

theorem readerTo_move {a : ReaderAct} (cfg : Config) (hidle : Idle s)
    (h : ReaderTo s a t) : Move cfg (ledger s) (ledger t) := by
  cases h with
  | sendEvent c evt ch hpc hevents => exact Move.events c ch _ hevents rfl
  | takeTerminal r c hpc hid hlookup =>
    exact Move.take r c (hidle .reader (by simp [Sys.delivering, hpc])) hlookup
  | swap text order hpc hperm =>
    exact Move.swap .reader _ order (hidle .reader (by simp [Sys.delivering, hpc])) hperm
  | _ => exact Move.stay

theorem deliverTo_move {p : Party} {a : DeliverAct} (cfg : Config)
    (h : DeliverTo s p a t) : Move cfg (ledger s) (ledger t) := by
  cases h with
  | send c rest hdelivering htodo hstage hopen =>
    exact Move.send p c rest _ htodo hstage (Chan.send_of_open _ _ hopen)
  | closeDone c rest hdelivering htodo hstage hopen =>
    exact Move.closeDone p c rest _ htodo hstage (Chan.close_of_open _ hopen)
  | closeEvents c rest ch hdelivering htodo hstage hevents hopen =>
    refine Move.closeEvents p c rest _ htodo hstage ?_
    change (s.calls c).events.bind Chan.close = _
    rw [hevents, Option.bind_some, Chan.close_of_open ch hopen]
  | sendPanics | closeDonePanics | closeEventsPanics => exact Move.stay

theorem supTo_move {a : SupAct} (hidle : Idle s)
    (h : SupTo cfg s a t) : Move cfg (ledger s) (ledger t) := by
  cases h with
  | swap why order hpc hperm =>
    exact Move.swap .supervisor _ order (hidle .supervisor (by simp [Sys.delivering, hpc])) hperm
  | _ => exact Move.stay

theorem step_move {a : Act} (hidle : Idle s)
    (h : step cfg s a = some t) : Move cfg (ledger s) (ledger t) := by
  cases (step_to cfg s t a h).2 with
  | call c a hto => exact callTo_move hto
  | reader a hto => exact readerTo_move cfg hidle hto
  | deliver p a hto => exact deliverTo_move cfg hto
  | sup a hto => exact supTo_move hidle hto
  | close a hto | writer a hto | env a hto =>
    rw [hto.frame]
    exact Move.stay

def Untouched (call : Call) : Prop :=
  call.done.Unused ∧ call.events.map Chan.closed ≠ some true

/-- How far the answer to a request has come, by the stage of the job it is first in. -/
def Answering (call : Call) : Stage → Prop
  | .send => Untouched call
  | .closeDone => call.done.sent.length = 1 ∧ call.done.closed = false ∧
      call.events.map Chan.closed ≠ some true
  | .closeEvents => call.done.sent.length = 1 ∧ call.events.map Chan.closed = some false

def JobOk (calls : ℕ → Call) (job : Job) : Prop :=
  ∀ c rest, job.todo = c :: rest → Answering (calls c) job.stage ∧ ∀ d ∈ rest, Untouched (calls d)

/-- Every request is owned once, and only its owner has touched its channels. -/
structure Owned (cfg : Config) (l : Ledger) : Prop where
  keys : ∀ e ∈ l.pending, e.1 = cfg.newID e.2
  nodup : l.held.Nodup
  early : ∀ c, early (l.calls c).pc = true → c ∉ l.held ∧ Untouched (l.calls c)
  inMap : ∀ c ∈ l.inMap, Untouched (l.calls c)
  jobs : ∀ p, JobOk l.calls (l.jobs p)
  once : ∀ c, (l.calls c).done.sent.length ≤ 1
  inflight : ∀ c, inflight (l.calls c).pc = true → c ∈ l.held ∨ (l.calls c).done.sent ≠ []

def SameUse (a b : Call) : Prop :=
  b.done.sent = a.done.sent ∧ b.done.closed = a.done.closed ∧
    b.events.map Chan.closed = a.events.map Chan.closed

variable {a b : Call}

theorem SameUse.untouched (h : SameUse a b) (ha : Untouched a) : Untouched b := by
  obtain ⟨⟨hsent, hclosed⟩, hevents⟩ := ha
  exact ⟨⟨h.1.trans hsent, h.2.1.trans hclosed⟩, h.2.2 ▸ hevents⟩

theorem SameUse.answering (h : SameUse a b) (stage : Stage)
    (ha : Answering a stage) : Answering b stage := by
  cases stage with
  | send => exact h.untouched ha
  | closeDone => exact ⟨h.1 ▸ ha.1, h.2.1.trans ha.2.1, h.2.2 ▸ ha.2.2⟩
  | closeEvents => exact ⟨h.1 ▸ ha.1, h.2.2.trans ha.2⟩

theorem SameUse.of_eq (h : b = a) : SameUse a b := by
  subst h
  exact ⟨rfl, rfl, rfl⟩

theorem JobOk.sameUse {calls calls' : ℕ → Call} {job : Job} (h : JobOk calls job)
    (hsame : ∀ d ∈ job.todo, SameUse (calls d) (calls' d)) : JobOk calls' job := by
  intro c rest htodo
  rw [htodo] at hsame
  obtain ⟨hfirst, hrest⟩ := h c rest htodo
  refine ⟨(hsame c mem_cons_self).answering _ hfirst, ?_⟩
  intro d hd
  exact (hsame d (mem_cons_of_mem c hd)).untouched (hrest d hd)

/-- Changing one call without using its channels keeps the ownership. -/
theorem Owned.setCall {l : Ledger} (h : Owned cfg l) (c : ℕ) (call : Call)
    (huse : SameUse (l.calls c) call)
    (hearly : PendingLedger.early call.pc = true → PendingLedger.early (l.calls c).pc = true)
    (hin : PendingLedger.inflight call.pc = true → PendingLedger.inflight (l.calls c).pc = true) :
    Owned cfg (l.setCall c call) := by
  have hsame : ∀ d, SameUse (l.calls d) ((l.setCall c call).calls d) := by
    intro d
    by_cases hd : d = c
    · subst hd
      simpa [Ledger.setCall] using huse
    · simp [Ledger.setCall, hd, SameUse]
  have hpc : ∀ d, (PendingLedger.early ((l.setCall c call).calls d).pc = true →
      PendingLedger.early (l.calls d).pc = true) ∧
      (PendingLedger.inflight ((l.setCall c call).calls d).pc = true →
        PendingLedger.inflight (l.calls d).pc = true) := by
    intro d
    by_cases hd : d = c
    · subst hd
      simpa [Ledger.setCall] using ⟨hearly, hin⟩
    · simp [Ledger.setCall, hd]
  refine ⟨h.keys, h.nodup, ?_, ?_, ?_, ?_, ?_⟩
  · intro d hd
    have hold := h.early d ((hpc d).1 hd)
    exact ⟨hold.1, (hsame d).untouched hold.2⟩
  · exact fun d hd => (hsame d).untouched (h.inMap d hd)
  · exact fun p => (h.jobs p).sameUse fun d _ => hsame d
  · intro d
    rw [(hsame d).1]
    exact h.once d
  · intro d hd
    rw [(hsame d).1]
    exact h.inflight d ((hpc d).2 hd)

/-- A call that nobody owns may be replaced by any unused one that does not wait. -/
theorem Owned.begin {l : Ledger} (h : Owned cfg l) (c : ℕ) (call : Call)
    (hheld : c ∉ l.held) (hunused : Untouched call)
    (hin : PendingLedger.inflight call.pc = false) : Owned cfg (l.setCall c call) := by
  have hother : ∀ d, d ≠ c → (l.setCall c call).calls d = l.calls d := by
    intro d hd
    simp [Ledger.setCall, hd]
  have hself : (l.setCall c call).calls c = call := by simp [Ledger.setCall]
  have hne : ∀ d ∈ l.held, d ≠ c := fun d hd heq => hheld (heq ▸ hd)
  have htodo : ∀ p, ∀ d ∈ l.todo p, d ∈ l.held := by
    intro p d hd
    apply (l.held_perm p).mem_iff.mpr
    simp [hd]
  refine ⟨h.keys, h.nodup, ?_, ?_, ?_, ?_, ?_⟩
  · intro d hd
    by_cases heq : d = c
    · subst heq
      refine ⟨hheld, ?_⟩
      rw [hself]
      exact hunused
    · rw [hother d heq] at hd ⊢
      exact h.early d hd
  · intro d hd
    rw [hother d (hne d (mem_append_left _ hd))]
    exact h.inMap d hd
  · intro p
    refine (h.jobs p).sameUse ?_
    intro d hd
    exact SameUse.of_eq (hother d (hne d (htodo p d hd)))
  · intro d
    by_cases heq : d = c
    · subst heq
      rw [hself, hunused.1.1]
      simp
    · rw [hother d heq]
      exact h.once d
  · intro d hd
    by_cases heq : d = c
    · subst heq
      rw [hself, hin] at hd
      cases hd
    · rw [hother d heq] at hd ⊢
      exact h.inflight d hd

theorem Owned.insert {l : Ledger} (h : Owned cfg l) (c : ℕ) (hpc : (l.calls c).pc = .admitted) :
    Owned cfg ((l.setCall c { l.calls c with pc := .registered }).setPending
      ((cfg.newID c, c) :: l.pending)) := by
  obtain ⟨hheld, hunused⟩ := h.early c (by rw [hpc]; rfl)
  have hother : ∀ d, d ≠ c → ((l.setCall c { l.calls c with pc := .registered }).setPending
      ((cfg.newID c, c) :: l.pending)).calls d = l.calls d :=
    fun d hd => l.calls_setCall_of_ne c d _ hd
  have hsame : ∀ d, SameUse (l.calls d)
    (((l.setCall c { l.calls c with pc := .registered }).setPending
      ((cfg.newID c, c) :: l.pending)).calls d) := by
    intro d
    by_cases hd : d = c
    · subst hd
      rw [Ledger.calls_setPending, Ledger.calls_setCall]
      exact ⟨rfl, rfl, rfl⟩
    · exact SameUse.of_eq (hother d hd)
  refine ⟨?_, nodup_cons.mpr ⟨hheld, h.nodup⟩, ?_, ?_, ?_, ?_, ?_⟩
  · intro e he
    rcases mem_cons.mp he with rfl | he
    · rfl
    · exact h.keys e he
  · intro d hd
    by_cases heq : d = c
    · subst heq
      rw [Ledger.calls_setPending, Ledger.calls_setCall] at hd
      cases hd
    · rw [hother d heq] at hd ⊢
      have hold := h.early d hd
      exact ⟨fun hmem => (mem_cons.mp hmem).elim heq hold.1, hold.2⟩
  · intro d hd
    apply (hsame d).untouched
    rcases mem_cons.mp hd with rfl | hd
    · exact hunused
    · exact h.inMap d hd
  · exact fun p => (h.jobs p).sameUse fun d _ => hsame d
  · intro d
    rw [(hsame d).1]
    exact h.once d
  · intro d hd
    by_cases heq : d = c
    · subst heq
      exact .inl mem_cons_self
    · rw [hother d heq] at hd ⊢
      exact (h.inflight d hd).imp (mem_cons_of_mem c) id

theorem Owned.erase {l : Ledger} (h : Owned cfg l) (key : String)
    (hgone : ∀ e ∈ l.pending, e.1 = key → PendingLedger.inflight (l.calls e.2).pc = false) :
    Owned cfg (l.setPending (RuntimeClient.unregister l.pending key)) := by
  have hsub : (RuntimeClient.unregister l.pending key).Sublist l.pending := filter_sublist
  have hmap : ((RuntimeClient.unregister l.pending key).map Prod.snd).Sublist l.inMap :=
    hsub.map Prod.snd
  have hheld : (l.setPending (RuntimeClient.unregister l.pending key)).held.Sublist l.held :=
    hmap.append_right _
  refine ⟨fun e he => h.keys e (hsub.subset he), h.nodup.sublist hheld, ?_, ?_, h.jobs, h.once, ?_⟩
  · intro d hd
    have hold := h.early d hd
    exact ⟨fun hmem => hold.1 (hheld.subset hmem), hold.2⟩
  · exact fun d hd => h.inMap d (hmap.subset hd)
  · intro d hd
    refine (h.inflight d hd).imp ?_ id
    intro hmem
    rcases mem_append.mp hmem with hin | hjob
    · apply mem_append_left
      obtain ⟨e, he, rfl⟩ := mem_map.mp hin
      refine mem_map.mpr ⟨e, mem_filter.mpr ⟨he, ?_⟩, rfl⟩
      have hne : e.1 ≠ key := by
        intro hkey
        rw [Ledger.calls_setPending, hgone e he hkey] at hd
        cases hd
      simpa using hne
    · exact mem_append_right _ hjob

theorem Owned.keys_nodup {l : Ledger} (h : Owned cfg l) : (l.pending.map Prod.fst).Nodup := by
  have hmap : l.pending.map Prod.fst = l.inMap.map cfg.newID := by
    unfold Ledger.inMap
    rw [map_map]
    exact map_congr_left h.keys
  rw [hmap]
  exact (nodup_append.mp h.nodup).1.map cfg.newID_injective

theorem perm_unregister {pending : List (String × ℕ)} {key : String} {c : ℕ}
    (hnodup : (pending.map Prod.fst).Nodup) (h : pending.lookup key = some c) :
    pending.Perm ((key, c) :: RuntimeClient.unregister pending key) := by
  induction pending with
  | nil => cases h
  | cons e rest ih =>
    rw [map_cons, nodup_cons] at hnodup
    rw [lookup_cons] at h
    unfold RuntimeClient.unregister at ih ⊢
    by_cases hkey : key = e.1
    · simp only [hkey, beq_self_eq_true] at h
      have hrest : rest.filter (fun e' => e'.1 != e.1) = rest := by
        rw [filter_eq_self]
        intro e' he'
        have hne : e'.1 ≠ e.1 := fun heq => hnodup.1 (heq ▸ mem_map_of_mem he')
        simpa using hne
      cases h
      simp [hkey, hrest]
    · have hfalse : (key == e.1) = false := by simpa using hkey
      rw [hfalse] at h
      have hne : (e.1 != key) = true := by simpa using Ne.symm hkey
      rw [filter_cons, if_pos hne]
      exact (List.Perm.cons e (ih hnodup.2 h)).trans (List.Perm.swap _ _ _)

/-- Requests that leave the map for an empty job stay owned once. -/
theorem Owned.claim {l : Ledger} (h : Owned cfg l) (p : Party)
    (v : TerminalResponse) (order : List ℕ) (left : List (String × ℕ)) (hidle : l.todo p = [])
    (hleft : left.Sublist l.pending) (hperm : l.inMap.Perm (order ++ left.map Prod.snd)) :
    Owned cfg ((l.setJob p ⟨v, order, .send⟩).setPending left) := by
  have hheld : ((l.setJob p ⟨v, order, .send⟩).setPending left).held.Perm l.held := by
    refine (Ledger.held_perm _ p).trans (List.Perm.trans ?_ (l.held_perm p).symm)
    rw [Ledger.todo_setPending, Ledger.todo_setPending, Ledger.todo_setJob,
      Ledger.todo_setJob_other, hidle, nil_append, ← append_assoc]
    exact (perm_append_comm.trans hperm.symm).append_right _
  have horder : ∀ c ∈ order, Untouched (l.calls c) := by
    intro c hc
    exact h.inMap c (hperm.mem_iff.mpr (mem_append_left _ hc))
  refine ⟨fun e he => h.keys e (hleft.subset he), hheld.nodup_iff.mpr h.nodup, ?_, ?_, ?_, h.once,
    ?_⟩
  · intro d hd
    have hold := h.early d hd
    exact ⟨fun hmem => hold.1 (hheld.mem_iff.mp hmem), hold.2⟩
  · intro d hd
    exact h.inMap d ((hleft.map Prod.snd).subset hd)
  · intro q c rest htodo
    by_cases hq : q = p
    · subst hq
      have hjob : ((l.setJob q ⟨v, order, .send⟩).setPending left).jobs q = ⟨v, order, .send⟩ := by
        simp [Ledger.setPending, Ledger.setJob]
      rw [hjob] at htodo ⊢
      subst htodo
      exact ⟨horder c mem_cons_self, fun d hd => horder d (mem_cons_of_mem c hd)⟩
    · have hjob : ((l.setJob p ⟨v, order, .send⟩).setPending left).jobs q = l.jobs q := by
        simp [Ledger.setPending, Ledger.setJob, hq]
      rw [hjob] at htodo ⊢
      exact h.jobs q c rest htodo
  · intro d hd
    exact (h.inflight d hd).imp hheld.mem_iff.mpr id

theorem Owned.first_alone {l : Ledger} (h : Owned cfg l) (p : Party) (c : ℕ)
    (rest : List ℕ) (htodo : l.todo p = c :: rest) :
    c ∉ l.inMap ∧ c ∉ rest ∧ c ∉ l.todo (otherParty p) := by
  have hnodup := (l.held_perm p).nodup_iff.mp h.nodup
  rw [htodo, nodup_append, cons_append, nodup_cons] at hnodup
  obtain ⟨-, ⟨hrest, -⟩, hdisj⟩ := hnodup
  rw [mem_append, not_or] at hrest
  exact ⟨fun hin => hdisj c hin c mem_cons_self rfl, hrest.1, hrest.2⟩

theorem jobOk_answered {calls : ℕ → Call} {c : ℕ} {rest : List ℕ} {job : Job}
    (hrest : ∀ d ∈ rest, Untouched (calls d))
    (hjob : (job.todo = c :: rest ∧ Answering (calls c) job.stage) ∨
      (job.todo = rest ∧ job.stage = .send)) : JobOk calls job := by
  intro d tail htodo
  rcases hjob with ⟨heq, hanswer⟩ | ⟨heq, hstage⟩
  · rw [heq, cons.injEq] at htodo
    obtain ⟨rfl, rfl⟩ := htodo
    exact ⟨hanswer, hrest⟩
  · rw [heq] at htodo
    subst htodo
    rw [hstage]
    exact ⟨hrest d mem_cons_self, fun e he => hrest e (mem_cons_of_mem d he)⟩

variable (l : Ledger) (p : Party) (c : ℕ) (rest : List ℕ) (call : Call) (job : Job)

/-- Answering the first request of a job leaves every other request where it is. -/
theorem Ledger.held_answer (htodo : l.todo p = c :: rest) (hjob : job.todo = c :: rest ∨ job.todo =
    rest) (hnodup : l.held.Nodup) :
    ((l.setCall c call).setJob p job).held.Nodup ∧
      (∀ d ∈ ((l.setCall c call).setJob p job).held, d ∈ l.held) ∧
      ∀ d ∈ l.held, d ≠ c → d ∈ ((l.setCall c call).setJob p job).held := by
  have hperm := l.held_perm p
  rw [htodo] at hperm
  have hheld : ((l.setCall c call).setJob p job).held.Perm
      (l.inMap ++ (job.todo ++ l.todo (otherParty p))) := by
    refine (Ledger.held_perm _ p).trans ?_
    rw [Ledger.todo_setJob, Ledger.todo_setJob_other]
    exact List.Perm.refl _
  have hjobsub : job.todo.Sublist (c :: rest) := by
    rcases hjob with heq | heq
    · exact heq ▸ List.Sublist.refl _
    · exact heq ▸ sublist_cons_self c rest
  have hsub : (l.inMap ++ (job.todo ++ l.todo (otherParty p))).Sublist
      (l.inMap ++ (c :: rest ++ l.todo (otherParty p))) :=
    (hjobsub.append_right _).append_left _
  refine ⟨hheld.nodup_iff.mpr ((hperm.nodup_iff.mp hnodup).sublist hsub), ?_, ?_⟩
  · intro d hd
    exact hperm.mem_iff.mpr (hsub.subset (hheld.mem_iff.mp hd))
  · intro d hd hne
    have hin := hperm.mem_iff.mp hd
    apply hheld.mem_iff.mpr
    rcases hjob with heq | heq
    · rw [heq]
      exact hin
    · rw [heq]
      simp only [mem_append, cons_append, mem_cons] at hin ⊢
      tauto

theorem Ledger.calls_answer_self : ((l.setCall c call).setJob p job).calls c = call := by
  simp [Ledger.setCall, Ledger.setJob]

theorem Ledger.calls_answer_of_ne (d : ℕ) (call : Call) (job : Job)
    (hd : d ≠ c) : ((l.setCall c call).setJob p job).calls d = l.calls d := by
  simp [Ledger.setCall, Ledger.setJob, hd]

variable {l}

theorem Owned.jobs_answer (h : Owned cfg l) (p : Party) (c : ℕ)
    (rest : List ℕ) (call : Call) (job : Job) (htodo : l.todo p = c :: rest)
    (hjob : (job.todo = c :: rest ∧ Answering call job.stage) ∨
      (job.todo = rest ∧ job.stage = .send)) (q : Party) :
    JobOk ((l.setCall c call).setJob p job).calls (((l.setCall c call).setJob p job).jobs q) := by
  have hout := h.first_alone p c rest htodo
  by_cases hqp : q = p
  · subst hqp
    have hjobs : ((l.setCall c call).setJob q job).jobs q = job := by simp [Ledger.setJob]
    rw [hjobs]
    refine jobOk_answered ?_ ((Ledger.calls_answer_self l q c call job).symm ▸ hjob)
    intro e he
    rw [Ledger.calls_answer_of_ne l q c e call job (ne_of_mem_of_not_mem he hout.2.1)]
    exact (h.jobs q c rest htodo).2 e he
  · have hqo : q = otherParty p := by
      cases p <;> cases q <;> first | rfl | exact absurd rfl hqp
    have hjobs : ((l.setCall c call).setJob p job).jobs q = l.jobs q := by
      simp [Ledger.setJob, Ledger.setCall, hqp]
    rw [hjobs]
    refine (h.jobs q).sameUse ?_
    intro e he
    rw [hqo] at he
    exact SameUse.of_eq
      (Ledger.calls_answer_of_ne l p c e call job (ne_of_mem_of_not_mem he hout.2.2))

/-- The request stays first, or its answer is complete and it leaves. -/
theorem Owned.answer (h : Owned cfg l) (p : Party) (c : ℕ)
    (rest : List ℕ) (call : Call) (job : Job) (htodo : l.todo p = c :: rest)
    (hpc : call.pc = (l.calls c).pc) (hsent : call.done.sent.length = 1)
    (hjob : (job.todo = c :: rest ∧ Answering call job.stage) ∨
      (job.todo = rest ∧ job.stage = .send)) : Owned cfg ((l.setCall c call).setJob p job) := by
  obtain ⟨hnodup, hmem, hkept⟩ := l.held_answer p c rest call job htodo
    (hjob.imp And.left And.left) h.nodup
  have hself := Ledger.calls_answer_self l p c call job
  have hother := fun d => Ledger.calls_answer_of_ne l p c d call job
  have hc : c ∈ l.held := by
    apply (l.held_perm p).mem_iff.mpr
    simp [htodo]
  refine ⟨h.keys, hnodup, ?_, ?_, h.jobs_answer p c rest call job htodo hjob, ?_, ?_⟩
  · intro d hd
    have hne : d ≠ c := by
      rintro rfl
      rw [hself, hpc] at hd
      exact (h.early d hd).1 hc
    rw [hother d hne] at hd ⊢
    exact ⟨fun hin => (h.early d hd).1 (hmem d hin), (h.early d hd).2⟩
  · intro d hd
    have hne : d ≠ c := by
      rintro rfl
      exact (h.first_alone p d rest htodo).1 hd
    rw [hother d hne]
    exact h.inMap d hd
  · intro d
    by_cases hd : d = c
    · subst hd
      rw [hself]
      omega
    · rw [hother d hd]
      exact h.once d
  · intro d hd
    by_cases hdc : d = c
    · subst hdc
      right
      rw [hself]
      intro hnil
      rw [hnil] at hsent
      cases hsent
    · rw [hother d hdc] at hd ⊢
      exact (h.inflight d hd).imp (fun hin => hkept d hin hdc) id

theorem newCall_untouched (kind : CallKind) : Untouched (newCall kind) := by
  refine ⟨Chan.unused_empty, ?_⟩
  cases kind <;> simp [newCall, Chan.empty]

/-- Every move keeps the ownership. -/
theorem Move.owned {l' : Ledger} (hmove : Move cfg l l') (h : Owned cfg l) : Owned cfg l' := by
  cases hmove with
  | stay => exact h
  | begin c kind hpc =>
    exact h.begin c _ (h.early c (by rw [hpc]; rfl)).1 (newCall_untouched kind) rfl
  | advance c pc hearly hin => exact h.setCall c _ ⟨rfl, rfl, rfl⟩ hearly hin
  | insert c hpc => exact h.insert c hpc
  | unregister c e hpc =>
    have hmid : Owned cfg (l.setCall c { l.calls c with pc := .returned (.err e) }) :=
      h.setCall c _ ⟨rfl, rfl, rfl⟩ (by simp [PendingLedger.early])
        (by simp [PendingLedger.inflight])
    refine hmid.erase (cfg.newID c) ?_
    intro entry hentry hkey
    have hc : entry.2 = c := cfg.newID_injective ((h.keys entry hentry).symm.trans hkey)
    rw [hc, Ledger.calls_setCall]
    rfl
  | receive c r =>
    exact h.setCall c _ ⟨rfl, rfl, rfl⟩ (by simp [PendingLedger.early])
      (by simp [PendingLedger.inflight])
  | events c ch ch' hevents hclosed =>
    refine h.setCall c _ ⟨rfl, rfl, ?_⟩ id id
    rw [hevents, Option.map_some, Option.map_some, hclosed]
  | take r c hidle hlookup =>
    have hperm := perm_unregister h.keys_nodup hlookup
    refine h.claim .reader _ [c] _ hidle filter_sublist ?_
    exact hperm.map Prod.snd
  | swap p v order hidle hperm =>
    refine h.claim p v order [] hidle (nil_sublist _) ?_
    rw [map_nil, append_nil]
    exact hperm.symm
  | send p c rest ch htodo hstage hsend =>
    have hold := (h.jobs p c rest htodo).1
    rw [hstage] at hold
    rw [Chan.send_of_open _ _ hold.1.2, Option.some.injEq] at hsend
    subst hsend
    have hlen : ((l.calls c).done.sent ++ [(l.jobs p).value]).length = 1 := by
      rw [hold.1.1]
      rfl
    exact h.answer p c rest _ _ htodo rfl hlen (.inl ⟨htodo, hlen, hold.1.2, hold.2⟩)
  | closeDone p c rest ch htodo hstage hclose =>
    have hold := (h.jobs p c rest htodo).1
    rw [hstage] at hold
    rw [Chan.close_of_open _ hold.2.1, Option.some.injEq] at hclose
    subst hclose
    refine h.answer p c rest _ _ htodo rfl hold.1 ?_
    cases hevents : (l.calls c).events with
    | none => exact .inr ⟨rfl, rfl⟩
    | some ch =>
      have hopen : ch.closed = false := by
        have hne := hold.2.2
        rw [hevents] at hne
        simpa using hne
      exact .inl ⟨htodo, hold.1, by simp [hevents, hopen]⟩
  | closeEvents p c rest ch htodo hstage hclose =>
    have hold := (h.jobs p c rest htodo).1
    rw [hstage] at hold
    exact h.answer p c rest _ _ htodo rfl hold.1 (.inr ⟨rfl, rfl⟩)

theorem owned_init (cfg : Config) : Owned cfg (ledger init) where
  keys e he := by cases he
  nodup := nodup_nil
  early c _ := ⟨by simp [Ledger.held, Ledger.inMap, Ledger.todo, ledger, init], Chan.unused_empty,
    by simp [ledger, init]⟩
  inMap c hc := by cases hc
  jobs p c rest htodo := by cases htodo
  once c := by simp [ledger, init, Chan.empty]
  inflight c hc := by cases hc

theorem run_owned (cfg : Config) (acts : List Act) (s : Sys)
    (h : run (step cfg) init acts = some s) : Owned cfg (ledger s) := by
  refine relative_invariant (step cfg) (fun s => Control s ∧ Idle s)
    (fun s => Owned cfg (ledger s)) (owned_init cfg) (run_control cfg) ?_ h
  intro s a t hcontrol ho hstep
  exact (step_move hcontrol.2 hstep).owned ho

/-- Apart from the start of a call, only the two owners use its channels to end it. -/
theorem step_sameUse {a : Act} (c : ℕ) (ha : ∀ p b, a ≠ .deliver p b) (h : step cfg s a = some t) :
    (∃ kind, a = .call c (.begin kind)) ∨ (SameUse (s.calls c) (t.calls c) ∧
      (early (t.calls c).pc = true → early (s.calls c).pc = true)) := by
  have hsame : t.calls = s.calls → SameUse (s.calls c) (t.calls c) ∧
      (early (t.calls c).pc = true → early (s.calls c).pc = true) := by
    intro hcalls
    rw [hcalls]
    exact ⟨⟨rfl, rfl, rfl⟩, id⟩
  have hset : ∀ d call, t.calls = Function.update s.calls d call →
      (d = c → SameUse (s.calls c) call ∧ (early call.pc = true → early (s.calls c).pc = true)) →
      SameUse (s.calls c) (t.calls c) ∧
        (early (t.calls c).pc = true → early (s.calls c).pc = true) := by
    intro d call hcalls hd
    by_cases hdc : d = c
    · rw [hcalls, hdc, Function.update_self]
      exact hd hdc
    · rw [hcalls, Function.update_of_ne (Ne.symm hdc)]
      exact ⟨⟨rfl, rfl, rfl⟩, id⟩
  cases (step_to cfg s t a h).2 with
  | deliver p a => exact absurd rfl (ha p a)
  | close a hto | writer a hto | env a hto | sup a hto => exact .inr (hsame (by rw [hto.frame]))
  | call d a hto =>
    cases hto with
    | begin kind =>
      by_cases hd : d = c
      · exact .inl ⟨kind, by rw [hd]⟩
      · exact .inr (hset d _ rfl fun hdc => absurd hdc hd)
    | takeEvent ch hevents =>
      refine .inr (hset d _ rfl ?_)
      rintro rfl
      exact ⟨⟨rfl, rfl, by rw [hevents]; rfl⟩, id⟩
    | refuse hpc | passCheck hpc | reject hpc | insert hpc | duplicate hpc | marshalFails hpc
    | enqueue hpc | sendCancelled hpc | sendStopped hpc | receive v hpc | receiveClosed hpc
    | waitCancelled hpc | unregister e hpc =>
      refine .inr (hset d _ rfl ?_)
      rintro rfl
      exact ⟨⟨rfl, rfl, rfl⟩, by simp [hpc, early]⟩
  | reader a hto =>
    right
    cases hto with
    | sendEvent d evt ch hpc hevents =>
      refine hset d _ rfl ?_
      rintro rfl
      exact ⟨⟨rfl, rfl, by rw [hevents]; rfl⟩, id⟩
    | _ => exact hsame rfl

end IronGolem.PendingLedger
