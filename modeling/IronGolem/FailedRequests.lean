import IronGolem.PendingLedger

/-!
Whether a request can still reach a child after its caller was told that it failed. Requests are
tracked in the map, but their messages sit in the outbound queue, which survives the child.
-/
namespace IronGolem.FailedRequests

open GoChannels RuntimeClient ClientSteps PendingLedger TransitionRuns

variable (s : Sys)

def toldFailed (c : ℕ) : Bool :=
  decide (.failed .childExited ∈ (s.calls c).done.sent)

def queued (c : ℕ) : Bool :=
  decide (.request c ∈ s.outbound ∨ s.writer = .writing (.request c))

def QueueClean : Prop := ∀ c, toldFailed s c = true → queued s c = false

/-- Only requests that are not queued are failed, and only requests not failed are queued. -/
def KeepsClean : Act → Prop
  | .deliver p (.send c _) => (s.jobs p).value = .failed .childExited → queued s c = false
  | .call c .enqueue => toldFailed s c = false
  | _ => True

instance (s : Sys) (a : Act) : Decidable (KeepsClean s a) := by
  unfold KeepsClean
  split <;> infer_instance

theorem queued_iff (s : Sys) (c : ℕ) :
    queued s c = true ↔ .request c ∈ s.outbound ∨ s.writer = .writing (.request c) := by
  exact decide_eq_true_iff

theorem writerTo_queued {s t : Sys} {a : WriterAct} {c : ℕ} (h : WriterTo s a t)
    (ht : queued t c = true) : queued s c = true := by
  rw [queued_iff] at ht ⊢
  cases h with
  | take m rest hpc hout =>
    left
    rw [hout]
    rcases ht with hrest | hheld
    · exact List.mem_cons_of_mem m hrest
    · cases hheld
      exact List.mem_cons_self
  | stop | write | writeFails =>
    rcases ht with hrest | hheld
    · exact .inl hrest
    · cases hheld

theorem supTo_queued {cfg : Config} {s t : Sys} {a : SupAct} {c : ℕ} (h : SupTo cfg s a t)
    (ht : queued t c = true) : queued s c = true := by
  cases h with
  | launch =>
    rw [queued_iff] at ht ⊢
    rcases ht with hrest | hheld
    · exact .inl hrest
    · cases hheld
  | _ => exact ht

variable {cfg : Config} {s t : Sys} {a : Act} {c : ℕ}

theorem step_queued (h : step cfg s a = some t)
    (ha : a ≠ .call c .enqueue) (ht : queued t c = true) : queued s c = true := by
  cases (step_to cfg s t a h).2 with
  | call d a hto =>
    cases hto with
    | enqueue =>
      have hd : c ≠ d := by
        rintro rfl
        exact ha rfl
      simpa [queued, Sys.setPc, Sys.setCall, hd] using ht
    | _ => exact ht
  | close a hto => cases hto <;> simpa [queued] using ht
  | writer a hto => exact writerTo_queued hto ht
  | env a hto | reader a hto | deliver p a hto =>
    rw [hto.frame] at ht
    exact ht
  | sup a hto => exact supTo_queued hto ht

theorem enqueue_queued (h : step cfg s (.call c .enqueue) = some t) : queued t c = true := by
  cases (step_to cfg s t _ h).2 with
  | call c a hto =>
    cases hto with
    | enqueue => simp [queued]

theorem toldFailed_of_sent
    (h : (t.calls c).done.sent = (s.calls c).done.sent) : toldFailed t c = toldFailed s c := by
  unfold toldFailed
  rw [h]

variable {p : Party}

theorem deliver_send_sent {rest : List ℕ}
    (ho : Owned cfg (ledger s)) (h : DeliverTo s p (.send c rest) t) :
    t.calls = Function.update s.calls c { s.calls c with
      done := { (s.calls c).done with sent := (s.calls c).done.sent ++ [(s.jobs p).value] } } := by
  cases h with
  | send => rfl
  | sendPanics c rest hdelivering htodo hstage hclosed =>
    have hold : Answering (s.calls c) (s.jobs p).stage := (ho.jobs p c rest htodo).1
    rw [hstage] at hold
    rw [hold.1.2] at hclosed
    cases hclosed

theorem deliverTo_sent {a : DeliverAct} (c : ℕ) (h : DeliverTo s p a t)
    (hsend : ∀ d rest, a ≠ .send d rest) : (t.calls c).done.sent = (s.calls c).done.sent := by
  cases h with
  | send d rest | sendPanics d rest => exact absurd rfl (hsend d rest)
  | closeDonePanics | closeEventsPanics => rfl
  | closeDone d rest | closeEvents d rest =>
    by_cases hd : d = c
    · subst hd
      simp [Sys.setJob, Sys.setCall]
    · simp [Sys.setJob, Sys.setCall, Ne.symm hd]

theorem step_sent (ho : Owned cfg (ledger s)) (c : ℕ) (h : step cfg s a = some t) :
    (t.calls c).done.sent = (s.calls c).done.sent ∨ ∃ p rest, a = .deliver p (.send c rest) ∧
      (t.calls c).done.sent = (s.calls c).done.sent ++ [(s.jobs p).value] := by
  by_cases ha : ∃ p b, a = .deliver p b
  · obtain ⟨p, b, rfl⟩ := ha
    cases (step_to cfg s t _ h).2 with
    | deliver p b hto =>
      by_cases hb : ∃ d rest, b = .send d rest
      · obtain ⟨d, rest, rfl⟩ := hb
        have hcalls := deliver_send_sent ho hto
        by_cases hd : d = c
        · subst hd
          exact .inr ⟨p, rest, rfl, by simp [hcalls]⟩
        · exact .inl (by simp [hcalls, Ne.symm hd])
      · push Not at hb
        exact .inl (deliverTo_sent c hto hb)
  · push Not at ha
    left
    rcases step_sameUse c ha h with ⟨kind, rfl⟩ | ⟨huse, -⟩
    · cases (step_to cfg s t _ h).2 with
      | call c a hto =>
        cases hto with
        | begin kind hpc =>
          have hearly : early ((ledger s).calls c).pc = true := by
            change early (s.calls c).pc = true
            rw [hpc]
            rfl
          have hunused : (s.calls c).done.sent = [] := (ho.early c hearly).2.1.1
          simp [Sys.setCall, newCall, Chan.empty, hunused]
    · exact huse.1

theorem queueClean_of_keepsClean (ho : Owned cfg (ledger s)) (hs : QueueClean s)
    (hguard : KeepsClean s a) (h : step cfg s a = some t) : QueueClean t := by
  intro c htold
  by_contra hqueued
  rw [Bool.not_eq_false] at hqueued
  rcases step_sent ho c h with hsame | ⟨p, rest, rfl, hsent⟩
  · rw [toldFailed_of_sent hsame] at htold
    by_cases ha : a = .call c .enqueue
    · subst ha
      rw [hguard] at htold
      cases htold
    · have hold := step_queued h ha hqueued
      rw [hs c htold] at hold
      cases hold
  · have hold := step_queued h (by simp) hqueued
    by_cases hvalue : (s.jobs p).value = .failed .childExited
    · rw [hguard hvalue] at hold
      cases hold
    · have htold' : toldFailed s c = true := by
        unfold toldFailed at htold ⊢
        rw [decide_eq_true_iff, hsent, List.mem_append] at htold
        rw [decide_eq_true_iff]
        rcases htold with hin | hin
        · exact hin
        · exact absurd (List.mem_singleton.mp hin).symm hvalue
      rw [hs c htold'] at hold
      cases hold

theorem keepsClean_of_queueClean (ho : Owned cfg (ledger s)) (ht : QueueClean t)
    (h : step cfg s a = some t) : KeepsClean s a := by
  unfold KeepsClean
  split
  · rename_i p c rest
    intro hvalue
    cases (step_to cfg s t _ h).2 with
    | deliver p a hto =>
      have htold : toldFailed t c = true := by
        unfold toldFailed
        rw [deliver_send_sent ho hto]
        simp [hvalue]
      have hclean := ht c htold
      rw [hto.frame] at hclean
      exact hclean
  · rename_i c
    have hqueued := enqueue_queued h
    by_contra htold
    rw [Bool.not_eq_false] at htold
    have hsame : toldFailed t c = true := by
      rcases step_sent ho c h with hsame | ⟨p, rest, hact, -⟩
      · rw [toldFailed_of_sent hsame]
        exact htold
      · cases hact
    rw [ht c hsame] at hqueued
    cases hqueued
  · trivial

theorem queueClean_init : QueueClean init := by
  intro c htold
  simp [toldFailed, init, Chan.empty] at htold

/-- The queue is free of failed requests exactly when every step keeps it so; then nothing is
written for a caller that was told. -/
theorem queue_clean_iff (cfg : Config) (acts : List Act) (s : Sys)
    (h : run (step cfg) init acts = some s) :
    (Along (step cfg) QueueClean init acts ↔ Meets (step cfg) KeepsClean init acts) ∧
    (Meets (step cfg) KeepsClean init acts → ∀ pre c post t,
      acts = pre ++ .writer (.write (.request c)) :: post →
      run (step cfg) init pre = some t → toldFailed t c = false) := by
  have hiff : Along (step cfg) QueueClean init acts ↔ Meets (step cfg) KeepsClean init acts := by
    refine along_iff_meets (step cfg) KeepsClean QueueClean (fun s => Owned cfg (ledger s))
      queueClean_init (run_owned cfg) ?_ s h
    intro t a u ho hclean hstep
    exact ⟨fun hu => keepsClean_of_queueClean ho hu hstep,
      fun hguard => queueClean_of_keepsClean ho hclean hguard hstep⟩
  refine ⟨hiff, ?_⟩
  intro hmeets pre c post t hacts hpre
  have hclean := hiff.mpr hmeets pre _ t hacts hpre
  have hqueued : queued t c = true := by
    rw [hacts, run_append, hpre, Option.bind_some, run_cons] at h
    obtain ⟨u, hwrite, -⟩ := Option.bind_eq_some_iff.mp h
    cases (step_to cfg t u _ hwrite).2 with
    | writer a hto =>
      cases hto with
      | write m hpc => exact (queued_iff t c).mpr (.inr hpc)
  by_contra htold
  rw [Bool.not_eq_false] at htold
  rw [hclean c htold] at hqueued
  cases hqueued

def oneRequestLost : List Act :=
  List.flatten [[.sup .launch], callRequest 0 .execute, crash (.request 0) [] [0],
    answerExecute 0 [], restart]

/-- A second request is still queued when the child exits and the next one is launched. -/
def secondRequestQueued : List Act :=
  List.flatten [[.sup .launch], callRequest 0 .execute, callRequest 1 .execute,
    crash (.request 0) [.request 1] [0, 1], answerExecute 0 [1], answerExecute 1 [], restart]

def secondRequestWritten : List Act :=
  List.flatten [secondRequestQueued,
    [.writer (.take (.request 1) []), .writer (.write (.request 1))]]

theorem one_request_lost_clean : Along (step sampleConfig) QueueClean init oneRequestLost := by
  obtain ⟨s, hs⟩ : ∃ s, run (step sampleConfig) init oneRequestLost = some s :=
    Option.isSome_iff_exists.mp (by decide)
  exact (queue_clean_iff sampleConfig oneRequestLost s hs).1.mpr
    (meets_of_checkMeets _ _ _ _ (by decide))

/-- A request whose caller was told of the exit is written to the next child. -/
theorem failed_request_written :
    (run (step sampleConfig) init secondRequestQueued).map
      (fun s => (s.written, s.outbound, (s.calls 1).done.sent)) =
        some ([], [.request 1], [.failed .childExited]) ∧
    (run (step sampleConfig) init secondRequestWritten).map Sys.written =
      some [(1, .request 1)] := by
  decide

end IronGolem.FailedRequests
