import IronGolem.ChannelSafety

/-!
Whether every execute call whose channels were handed out gets its answer. The check whether the
client accepts work and the insertion into the map are separate steps, and so are the last mass
failure of the supervisor and its change of state.
-/
namespace IronGolem.OrphanedCalls

open List GoChannels RuntimeClient ClientSteps ClientControl PendingLedger ChannelSafety
  TransitionRuns

def closing (cfg : Config) (sup : Supervisor) : Bool :=
  match sup.pc with
  | .delivering why => decide (why ≠ .crash ∨ cfg.restartBudget ≤ (sup.attempts + 1 : ℕ))
  | .counting => decide (cfg.restartBudget ≤ (sup.attempts + 1 : ℕ))
  | .settingDead | .settingClosed | .returned => true
  | _ => false

/-- Nothing enters the map on the way out, and backoffs end with no pending request. -/
def LeavesNone (cfg : Config) (s : Sys) : Act → Prop
  | .call _ .insert => closing cfg s.sup = false
  | .sup .backoffStop | .sup .backoffCtx => s.pending = []
  | _ => True

instance (cfg : Config) (s : Sys) (a : Act) : Decidable (LeavesNone cfg s a) := by
  unfold LeavesNone
  split <;> infer_instance

variable {cfg : Config} {s t : Sys} {a : Act}

theorem step_pending (h : step cfg s a = some t)
    (hinsert : ∀ c, a ≠ .call c .insert) : t.pending.Sublist s.pending := by
  have hsame : t.pending = s.pending → t.pending.Sublist s.pending := by
    intro hpending
    rw [hpending]
  cases (step_to cfg s t a h).2 with
  | call c a hto =>
    cases hto with
    | insert => exact absurd rfl (hinsert c)
    | unregister => exact filter_sublist
    | _ => exact List.Sublist.refl _
  | close a hto | writer a hto | env a hto | deliver p a hto => exact hsame (by rw [hto.frame])
  | reader a hto =>
    cases hto with
    | takeTerminal => exact filter_sublist
    | swap => exact nil_sublist _
    | _ => exact List.Sublist.refl _
  | sup a hto =>
    cases hto with
    | swap => exact nil_sublist _
    | _ => exact List.Sublist.refl _

def Emptied (cfg : Config) (s : Sys) : Prop := closing cfg s.sup = true → s.pending = []

theorem emptied_of_sup (hs : Emptied cfg s)
    (hguard : LeavesNone cfg s a) (h : step cfg s a = some t) (hsup : t.sup = s.sup) :
    Emptied cfg t := by
  intro hclosing
  rw [hsup] at hclosing
  by_cases hinsert : ∃ c, a = .call c .insert
  · obtain ⟨c, rfl⟩ := hinsert
    rw [hguard] at hclosing
    cases hclosing
  · have hsub := step_pending h (fun c hc => hinsert ⟨c, hc⟩)
    rw [hs hclosing] at hsub
    exact sublist_nil.mp hsub

theorem supTo_emptied {a : SupAct} (hs : Emptied cfg s)
    (hguard : LeavesNone cfg s (.sup a)) (h : SupTo cfg s a t) : Emptied cfg t := by
  intro hclosing
  cases h with
  | launchNil => exact hs hclosing
  | swap => rfl
  | crashDelivered hpc => exact hs (by simpa [closing, Sys.setSup, hpc] using hclosing)
  | delivered why hwhy hpc => exact hs (by simp [closing, hpc, hwhy])
  | countLast hpc hbudget =>
    apply hs
    simp only [closing, hpc]
    exact decide_eq_true hbudget
  | setDead hpc | setClosed hpc => exact hs (by simp [closing, hpc])
  | backoffStop | backoffCtx => exact hguard
  | _ => cases hclosing

theorem step_emptied (hs : Emptied cfg s)
    (hguard : LeavesNone cfg s a) (h : step cfg s a = some t) : Emptied cfg t := by
  rcases step_sup_or_later cfg h with ⟨b, rfl, hsup⟩ | ⟨-, hlater⟩
  · exact supTo_emptied hs hguard hsup
  · exact emptied_of_sup hs hguard h hlater.sup

variable {c : ℕ}

theorem waiting_cases {acts : List Act}
    (h : run (step cfg) init acts = some s) (hreturned : s.sup.pc = .returned)
    (hempty : s.pending = []) (hpc : (s.calls c).pc = .waiting) :
    (s.calls c).done.sent.length = 1 ∨ c ∈ (s.jobs .reader).todo := by
  have ho := run_owned cfg acts s h
  have hidle := (run_control cfg acts h).2 .supervisor (by simp [Sys.delivering, hreturned])
  have hin : inflight ((ledger s).calls c).pc = true := by
    change inflight (s.calls c).pc = true
    rw [hpc]
    rfl
  rcases ho.inflight c hin with hheld | hsent
  · right
    simpa [Ledger.held, Ledger.inMap, Ledger.todo, ledger, hempty, hidle] using hheld
  · have honce : (s.calls c).done.sent.length ≤ 1 := ho.once c
    have hpos : 0 < (s.calls c).done.sent.length := length_pos_iff.mpr hsent
    omega

/-- The party alone can answer every request it has taken. -/
theorem answered_by_owner {p : Party} (acts : List Act) (s : Sys)
    (h : run (step cfg) init acts = some s) (hlive : s.panicked = none)
    (hdelivering : s.delivering p = true) (hc : c ∈ (s.jobs p).todo) :
    ∃ more t, (∀ a ∈ more, ∃ b, a = .deliver p b) ∧ run (step cfg) s more = some t ∧
      (t.calls c).done.sent.length = 1 := by
  -- on the work that is left in the job
  induction hwork : work (s.jobs p) using Nat.strongRecOn generalizing acts s with
  | ind n ih =>
    subst hwork
    obtain ⟨d, rest, htodo⟩ := exists_cons_of_ne_nil (ne_nil_of_mem hc)
    have ho := run_owned cfg acts s h
    obtain ⟨a, t, hdeliver, hless, hrest, hsent⟩ := deliver_next ho hdelivering htodo
    have hstep : step cfg s (.deliver p a) = some t :=
      (step_eq_some_iff cfg s t _).mpr ⟨hlive, hdeliver⟩
    by_cases hd : c = d
    · subst hd
      have hjob : Answering (s.calls c) (s.jobs p).stage := (ho.jobs p c rest htodo).1
      cases hstage : (s.jobs p).stage with
      | send =>
        refine ⟨[.deliver p a], t, by simp, ?_, hsent hstage⟩
        rw [run_cons, hstep]
        rfl
      | closeDone | closeEvents =>
        rw [hstage] at hjob
        exact ⟨[], s, by simp, rfl, hjob.1⟩
    · have hct : c ∈ (t.jobs p).todo := by
        rw [htodo] at hc
        exact hrest ((mem_cons.mp hc).resolve_left hd)
      have hreach : run (step cfg) init (acts ++ [.deliver p a]) = some t :=
        (run_concat_iff (step cfg) init t acts _).mpr ⟨s, h, hstep⟩
      have hlive' : t.panicked = none := by
        rw [deliverTo_panicked ho (deliverStep_to s t hdeliver)]
        exact hlive
      have hdelivering' : t.delivering p = true := by
        rw [(deliverStep_to s t hdeliver).frame]
        exact hdelivering
      obtain ⟨more, u, hmore, hrun, hu⟩ :=
        ih (work (t.jobs p)) hless (acts ++ [.deliver p a]) t hreach hlive' hdelivering' hct rfl
      refine ⟨.deliver p a :: more, u, ?_, ?_, hu⟩
      · intro b hb
        rcases mem_cons.mp hb with rfl | hb
        · exact ⟨a, rfl⟩
        · exact hmore b hb
      · rw [run_cons, hstep]
        exact hrun

/-- The call has its answer queued, or the reader gives it one by its own next steps. -/
def Answered (cfg : Config) (s : Sys) (c : ℕ) : Prop :=
  (s.calls c).done.sent.length = 1 ∨
    (c ∈ (s.jobs .reader).todo ∧ (s.panicked = none →
      ∃ more t, (∀ a ∈ more, ∃ b, a = .deliver .reader b) ∧ run (step cfg) s more = some t ∧
        (t.calls c).done.sent.length = 1))

/-- If nothing is inserted on the way out and no backoff is broken off over pending requests, every
waiting call is answered and the map is empty. -/
theorem no_orphaned_call (cfg : Config) (acts : List Act) (s : Sys)
    (h : run (step cfg) init acts = some s)
    (hmeets : Meets (step cfg) (LeavesNone cfg) init acts) (hreturned : s.sup.pc = .returned) :
    s.pending = [] ∧ ∀ c, (s.calls c).kind = .execute → (s.calls c).pc = .waiting →
      Answered cfg s c := by
  have hemptied : Emptied cfg s := by
    refine guarded_invariant (step cfg) (LeavesNone cfg) (fun _ => True) (Emptied cfg) ?_
      (fun _ _ _ => trivial) ?_ hmeets h
    · intro hclosing
      cases hclosing
    · exact fun s a t _ hs hguard hstep => step_emptied hs hguard hstep
  have hempty : s.pending = [] := hemptied (by simp [closing, hreturned])
  refine ⟨hempty, ?_⟩
  intro c _ hpc
  rcases waiting_cases h hreturned hempty hpc with hsent | hheld
  · exact .inl hsent
  · have hdelivering : s.delivering .reader = true := by
      by_contra hidle
      rw [(run_control cfg acts h).2 .reader (Bool.not_eq_true _ ▸ hidle)] at hheld
      cases hheld
    refine .inr ⟨hheld, fun hlive => ?_⟩
    exact answered_by_owner acts s h hlive hdelivering hheld

def closedInFlight : List Act :=
  List.flatten [[.sup .launch], callRequest 0 .execute, closeClient [0], answerExecute 0 [],
    [.sup (.delivered .stop), .sup .setClosed]]

theorem closed_in_flight_answers : ∃ s, run (step sampleConfig) init closedInFlight = some s ∧
    s.pending = [] ∧ ∀ c, (s.calls c).kind = .execute → (s.calls c).pc = .waiting →
      Answered sampleConfig s c := by
  obtain ⟨s, hs, hreturned⟩ := exists_run_of_check (step sampleConfig)
    (fun s => s.sup.pc = .returned) init closedInFlight (by decide)
  have hmeets : Meets (step sampleConfig) (LeavesNone sampleConfig) init closedInFlight :=
    meets_of_checkMeets _ _ _ _ (by decide)
  exact ⟨s, hs, no_orphaned_call sampleConfig closedInFlight s hs hmeets hreturned⟩

def closedBeforeInsert : List Act :=
  [.sup .launch, .call 0 (.begin .execute), .call 0 .passCheck,
   .close .skipShutdown, .close .closeStop, .sup .stopped, .env .waitReturns,
   .sup (.reaped .stop), .sup (.swap .stop []), .sup (.delivered .stop),
   .call 0 .insert, .call 0 .enqueue, .sup .setClosed, .reader .endOfInput, .writer .stop]

def closedInBackoff : List Act :=
  List.flatten [[.sup .launch], callRequest 0 .execute, crash (.request 0) [] [0],
    answerExecute 0 [], [.sup (.delivered .crash), .sup .count, .sup .setRestarting],
    callRequest 1 .execute,
    [.close .skipShutdown, .close .closeStop, .sup .backoffStop, .sup .setClosed]]

/-- An execute call that waits with nobody left to answer it. -/
structure Abandoned (s : Sys) (c : ℕ) : Prop where
  sup : s.sup.pc = .returned
  reader : s.reader = .exited
  kind : (s.calls c).kind = .execute
  pc : (s.calls c).pc = .waiting
  done : (s.calls c).done.Unused

theorem callTo_abandoned {d : ℕ} {a : CallAct}
    (hs : Abandoned s c) (h : CallTo cfg s d a t) : Abandoned t c := by
  have hcall : (t.calls c).kind = .execute ∧ (t.calls c).pc = .waiting ∧
    (t.calls c).done.Unused := by
    by_cases hd : d = c
    · subst hd
      cases h with
      | takeEvent ch => simpa [Sys.setCall] using ⟨hs.kind, hs.pc, hs.done⟩
      | receive v hpc hv => simp [Chan.buffered, hs.done.1] at hv
      | receiveClosed hpc hempty hclosed => simp [hs.done.2] at hclosed
      | waitCancelled hpc hkind => exact absurd hs.kind hkind
      | begin kind hpc | refuse hpc | passCheck hpc | reject hpc | insert hpc | duplicate hpc
      | marshalFails hpc | enqueue hpc | sendCancelled hpc | sendStopped hpc
      | unregister e hpc =>
        rw [hs.pc] at hpc
        cases hpc
    · have hother : t.calls c = s.calls c := by
        cases h <;> simp [Sys.setCall, Sys.setPc, Ne.symm hd]
      rw [hother]
      exact ⟨hs.kind, hs.pc, hs.done⟩
  refine ⟨?_, ?_, hcall.1, hcall.2.1, hcall.2.2⟩
  · rw [h.frame]
    exact hs.sup
  · rw [h.frame]
    exact hs.reader

theorem step_abandoned (hs : Abandoned s c) (h : step cfg s a = some t) : Abandoned t c := by
  cases (step_to cfg s t a h).2 with
  | call d a hto => exact callTo_abandoned hs hto
  | close a hto | writer a hto | env a hto =>
    rw [hto.frame]
    exact ⟨hs.sup, hs.reader, hs.kind, hs.pc, hs.done⟩
  | reader a hto =>
    have hreader := hs.reader
    cases hto <;> simp_all
  | deliver p a hto =>
    have hdelivering := hto.delivering
    cases p with
    | supervisor => simp [Sys.delivering, hs.sup] at hdelivering
    | reader => simp [Sys.delivering, hs.reader] at hdelivering
  | sup a hto =>
    have hsup := hs.sup
    cases hto <;> simp_all

/-- A call inserted after the last mass failure waits for ever. -/
theorem insert_after_last_failure_orphans :
    (∃ s, run (step sampleConfig) init closedBeforeInsert = some s ∧ s.state = .closed ∧
      s.pending = [("r", 0)] ∧ ∀ more t, run (step sampleConfig) s more = some t →
        (t.calls 0).pc = .waiting ∧ (t.calls 0).done.sent = []) ∧
    (run (step sampleConfig) init closedInBackoff).map (fun s => (s.state, s.sup.pc, s.pending)) =
      some (.closed, .returned, [("rr", 1)]) := by
  constructor
  · obtain ⟨s, hs, hclosed, hpending, hsup, hreader, hcall⟩ := exists_run_of_check
      (step sampleConfig) (fun s => s.state = .closed ∧ s.pending = [("r", 0)] ∧
        s.sup.pc = .returned ∧ s.reader = .exited ∧
        s.calls 0 = ⟨.execute, .waiting, Chan.empty, some Chan.empty⟩) init closedBeforeInsert
      (by decide)
    have habandoned : Abandoned s 0 :=
      ⟨hsup, hreader, by rw [hcall], by rw [hcall], by rw [hcall]; exact Chan.unused_empty⟩
    refine ⟨s, hs, hclosed, hpending, ?_⟩
    intro more t hmore
    have hfinal := invariant (step sampleConfig) (fun s => Abandoned s 0) habandoned
      (fun s a t hs hstep => step_abandoned hs hstep) hmore
    exact ⟨hfinal.pc, hfinal.done.1⟩
  · decide

end IronGolem.OrphanedCalls
