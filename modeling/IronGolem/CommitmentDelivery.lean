import IronGolem.TransitionRuns
import IronGolem.CommitmentRuntime

/-!
How often a commitment is delivered, and to whom nothing is delivered any more. A tick takes its
batch once and then works through it, dispatching each row before it marks it sent.
-/
namespace IronGolem.CommitmentDelivery

open TransitionRuns CommitmentStore CommitmentRuntime

def remaining : Ticker → List Commitment
  | .firing batch => batch
  | .marking c rest => c :: rest
  | .fired _ rest => rest
  | _ => []

def awaitsMark : Ticker → Bool
  | .marking _ _ => true
  | _ => false

/-- No request names a row of the running batch, and no mark is lost in the database. -/
def Undisturbed (s : Sys) : Action → Prop
  | .request r => ∀ c ∈ remaining s.ticker, c.id ≠ r.id
  | .ticker .dbError => awaitsMark s.ticker = false
  | _ => True

/-- Every row of the running batch is in the table as it was read, and due. -/
structure BatchDue (s : Sys) : Prop where
  row : ∀ c ∈ remaining s.ticker, s.db.get c.id = some c
  pending : ∀ c ∈ remaining s.ticker, c.status = .pending
  opened : ∀ c ∈ remaining s.ticker, c.dueWindow.earliestMs ≤ s.now
  distinct : ((remaining s.ticker).map Commitment.id).Nodup

theorem batchDue_init (db : DB) (now : ℤ) : BatchDue (init db now) where
  row := by simp [init, remaining]
  pending := by simp [init, remaining]
  opened := by simp [init, remaining]
  distinct := by simp [init, remaining]

theorem BatchDue.of_sublist {s t : Sys} (h : BatchDue s)
    (hsub : (remaining t.ticker).Sublist (remaining s.ticker)) (hnow : s.now ≤ t.now)
    (hrow : ∀ c ∈ remaining t.ticker, t.db.get c.id = s.db.get c.id) : BatchDue t where
  row := by
    intro c hc
    rw [hrow c hc]
    exact h.row c (hsub.subset hc)
  pending := fun c hc => h.pending c (hsub.subset hc)
  opened := fun c hc => (h.opened c (hsub.subset hc)).trans hnow
  distinct := (hsub.map Commitment.id).nodup h.distinct

theorem batchDue_fireDue (rt : Runtime) {s : Sys} {nowMs : ℤ} (hclock : nowMs ≤ s.now) :
    BatchDue { s with ticker := .firing (dueBatch rt s.db nowMs) } := by
  have hmem : ∀ c ∈ dueBatch rt s.db nowMs, c ∈ s.db.rows ∧ due nowMs c = true :=
    fun c hc => s.db.mem_of_mem_select _ _ _ _ c hc
  refine ⟨?_, ?_, ?_, s.db.select_keys_nodup _ _ _ _⟩
  · intro c hc
    exact (s.db.mem_rows_iff c).mp (hmem c hc).1
  · intro c hc
    exact ((due_iff nowMs c).mp (hmem c hc).2).1
  · intro c hc
    have hopen := ((due_iff nowMs c).mp (hmem c hc).2).2.1
    show c.dueWindow.earliestMs ≤ s.now
    omega

theorem get_markSent_behind (s : Sys) (c : Commitment) (rest : List Commitment)
    (h : BatchDue s) (hpc : s.ticker = .marking c rest) (d : Commitment) (hd : d ∈ rest) :
    (markSent s.db c.id s.now).1.get d.id = s.db.get d.id := by
  have hdistinct := h.distinct
  rw [hpc] at hdistinct
  have hne : c.id ≠ d.id := by
    intro heq
    exact (List.nodup_cons.mp hdistinct).1 (heq ▸ List.mem_map_of_mem hd)
  refine get_mark_of_ne s.db d.id _ _ _ ?_
  intro r hr
  simp only [pendingWithID, Bool.and_eq_false_iff, decide_eq_false_iff_not]
  exact .inl (fun heq => hne (heq ▸ hr))

variable {rt : Runtime} (s : Sys) {t : Sys} {a : TickerAct}

theorem tickerTo_batchDue (h : BatchDue s) (hto : TickerTo rt s a t) : BatchDue t := by
  cases hto with
  | fireDue nowMs hpc hclock => exact batchDue_fireDue rt hclock
  | delivered c rest hpc hdispatcher hroute | undelivered c rest hpc hdispatcher
  | skipDispatch c rest hpc hdispatcher | emitFired c rest hpc | markFails c rest hpc =>
    exact h.of_sublist (by simp [remaining, hpc]) le_rfl (fun _ _ => rfl)
  | marked c rest hpc hok | notMarked c rest hpc herr =>
    exact h.of_sublist (by simp [remaining, hpc]) le_rfl (get_markSent_behind s c rest h hpc)
  | expireSelect nowMs hpc hclock | emitExpired c rest hpc =>
    exact h.of_sublist (by simp [remaining]) le_rfl (fun _ _ => rfl)
  | expireUpdate snapshot hpc =>
    have hnone : remaining (afterExpiry rt (expireUpdate s.db snapshot s.now).2) = [] := by
      unfold afterExpiry
      split <;> rfl
    refine h.of_sublist (by simp [hnone]) le_rfl ?_
    intro c hc
    simp [hnone] at hc
  | endTick hpc | noBatch hpc | expireFails hpc | stop hpc =>
    exact h.of_sublist (by simp [remaining]) le_rfl (fun _ _ => rfl)

theorem step_batchDue {a : Action} (h : BatchDue s)
    (hguard : Undisturbed s a) (hstep : step rt s a = some t) : BatchDue t := by
  cases step_to hstep with
  | elapse ms =>
    have hnow : s.now ≤ s.now + ms := by omega
    exact h.of_sublist (List.Sublist.refl _) hnow (fun _ _ => rfl)
  | ticker act t hto => exact tickerTo_batchDue s h hto
  | request r haccepted =>
    refine h.of_sublist (List.Sublist.refl _) le_rfl ?_
    intro c hc
    exact r.get_run_of_ne s.db s.now c.id (hguard c hc).symm
  | enqueue turn candidates => exact h.of_sublist (List.Sublist.refl _) le_rfl (fun _ _ => rfl)
  | task i task act t hi hto =>
    obtain ⟨hticker, hnow, hrows⟩ := hto.frame
    refine h.of_sublist (by rw [hticker]) (by rw [hnow]) ?_
    intro c hc
    rw [hticker] at hc
    rw [h.row c hc]
    exact hrows c.id c (h.row c hc)

variable {acts : List Action}

theorem run_batchDue (h : BatchDue s)
    (hmeets : Meets (step rt) Undisturbed s acts) (hrun : run (step rt) s acts = some t) :
    BatchDue t :=
  guarded_invariant (step rt) Undisturbed (fun _ => True) BatchDue h (fun _ _ _ => trivial)
    (fun u _ _ _ hu hguard hstep => step_batchDue u hu hguard hstep) hmeets hrun

/-- The row handed to the dispatcher is pending and its window has opened. -/
def NotWithdrawn (s : Sys) (a : Action) : Prop :=
  ∀ ok c rest, a = .ticker (.dispatch ok) → s.ticker = .firing (c :: rest) →
    ∃ r, s.db.get c.id = some r ∧ r.status = .pending ∧ r.dueWindow.earliestMs ≤ s.now

/-- Between two successful dispatches of a commitment its row has left the pending status. -/
def OncePerPeriod (rt : Runtime) (s₀ : Sys) (acts : List Action) : Prop :=
  ∀ pre mid post s t u c₁ rest₁ c₂ rest₂,
    acts = pre ++ .ticker (.dispatch true) :: (mid ++ .ticker (.dispatch true) :: post) →
    run (step rt) s₀ pre = some s → s.ticker = .firing (c₁ :: rest₁) →
    step rt s (.ticker (.dispatch true)) = some t → run (step rt) t mid = some u →
    u.ticker = .firing (c₂ :: rest₂) → c₁.id = c₂.id →
      ¬ Along (step rt) (fun v => statusOf v.db c₁.id = some .pending) t mid

theorem notWithdrawn_of_batchDue (a : Action) (h : BatchDue s) : NotWithdrawn s a := by
  intro ok c rest _ hpc
  have hc : c ∈ remaining s.ticker := by simp [remaining, hpc]
  exact ⟨c, h.row c hc, h.pending c hc, h.opened c hc⟩

variable {c : Commitment}

theorem statusOf_markSent {db : DB} (now : ℤ) (hget : db.get c.id = some c)
    (hpending : c.status = .pending) : statusOf (markSent db c.id now).1 c.id = some .sent := by
  rw [statusOf_eq_some_iff]
  refine ⟨asSent now c, ?_, rfl⟩
  rw [get_markSent db c.id now hget, if_pos ⟨rfl, hpending⟩]

/-- From a delivered row the ticker only gets on by marking it sent. -/
theorem marking_step {a : Action}
    {rest : List Commitment} (h : BatchDue s) (hguard : Undisturbed s a)
    (hstep : step rt s a = some t) (hpc : s.ticker = .marking c rest) :
    t.ticker = .marking c rest ∨ statusOf t.db c.id = some .sent := by
  cases step_to hstep with
  | elapse ms | request r haccepted | enqueue turn candidates => exact .inl hpc
  | task i task act t hi hto => exact .inl (hto.frame.1.trans hpc)
  | ticker act t hto =>
    have hc : c ∈ remaining s.ticker := by simp [remaining, hpc]
    have hsent := statusOf_markSent s.now (h.row c hc) (h.pending c hc)
    cases hto with
    | marked d rest' hpc' hok | notMarked d rest' hpc' herr =>
      obtain ⟨rfl, rfl⟩ : c = d ∧ rest = rest' := by simpa [hpc] using hpc'
      exact .inr hsent
    | markFails d rest' hpc' =>
      have hno : awaitsMark s.ticker = false := hguard
      rw [hpc'] at hno
      exact absurd hno (by simp [awaitsMark])
    | fireDue nowMs hpc' | delivered d rest' hpc' | undelivered d rest' hpc'
    | skipDispatch d rest' hpc' | emitFired d rest' hpc' | expireSelect nowMs hpc'
    | expireUpdate snapshot hpc' | emitExpired d rest' hpc' | endTick hpc' | noBatch hpc'
    | expireFails hpc' | stop hpc' => simp [hpc] at hpc'

theorem marking_run {rest batch : List Commitment} (h : BatchDue s)
    (hmeets : Meets (step rt) Undisturbed s acts) (hrun : run (step rt) s acts = some t)
    (hpc : s.ticker = .marking c rest) (hlast : t.ticker = .firing batch) :
    ¬ Along (step rt) (fun v => statusOf v.db c.id = some .pending) s acts := by
  induction acts generalizing s with
  | nil =>
    rw [run_nil, Option.some.injEq] at hrun
    rw [hrun, hlast] at hpc
    exact absurd hpc (by simp)
  | cons a acts ih =>
    intro halong
    obtain ⟨u, hu, hrest⟩ := Option.bind_eq_some_iff.mp hrun
    have hone : run (step rt) s [a] = some u := by simp [run_cons, hu]
    have hguard : Undisturbed s a := hmeets [] a acts s rfl rfl
    have htail : Meets (step rt) Undisturbed u acts :=
      hmeets.middle (step rt) [a] acts [] (by simp) hone
    rcases marking_step s h hguard hu hpc with hstay | hsent
    · refine ih u (step_batchDue s h hguard hu) htail hrest hstay ?_
      exact halong.tail (step rt) hu
    · have hpending : statusOf u.db c.id = some .pending := halong [a] acts u rfl hone
      rw [hsent] at hpending
      exact absurd hpending (by decide)

/-- Undisturbed runs dispatch nothing withdrawn and deliver at most once per pending period. -/
theorem delivery_of_undisturbed (rt : Runtime) (db : DB) (now : ℤ) (acts : List Action)
    (hmeets : Meets (step rt) Undisturbed (init db now) acts) :
    Meets (step rt) NotWithdrawn (init db now) acts ∧ OncePerPeriod rt (init db now) acts := by
  have hdue : ∀ pre post s, acts = pre ++ post → run (step rt) (init db now) pre = some s →
      BatchDue s := by
    intro pre post s hacts hrun
    have hpre : Meets (step rt) Undisturbed (init db now) pre :=
      hmeets.middle (step rt) [] pre post (by simp [hacts]) rfl
    exact run_batchDue (init db now) (batchDue_init db now) hpre hrun
  constructor
  · intro pre a post s hacts hrun
    exact notWithdrawn_of_batchDue s a (hdue pre (a :: post) s hacts hrun)
  · intro pre mid post s t u c₁ rest₁ c₂ rest₂ hacts hpre hpc hstep hmid hlast _
    have ht : run (step rt) (init db now) (pre ++ [.ticker (.dispatch true)]) = some t :=
      (run_concat_iff _ _ _ _ _).mpr ⟨s, hpre, hstep⟩
    have hafter : t.ticker = .marking c₁ rest₁ := by
      cases tickerStep_to (s := s) (t := t) (a := .dispatch true) hstep with
      | delivered c rest hpc' hdispatcher hroute =>
        obtain ⟨rfl, rfl⟩ : c₁ = c ∧ rest₁ = rest := by simpa [hpc] using hpc'
        rfl
    refine marking_run t ?_ ?_ hmid hafter hlast
    · exact hdue (pre ++ [.ticker (.dispatch true)]) (mid ++ .ticker (.dispatch true) :: post) t
        (by simp [hacts]) ht
    · exact hmeets.middle (step rt) (pre ++ [.ticker (.dispatch true)]) mid
        (.ticker (.dispatch true) :: post) (by simp [hacts]) ht

def twoReminders : DB :=
  ⟨[reminder "c1" "tax" 5 100, reminder "c2" "rent" 6 100], by decide⟩

def deliverBoth : List Action :=
  [.ticker (.fireDue 10), .ticker (.dispatch true), .ticker .markSent, .ticker .emitFired,
    .ticker (.dispatch true), .ticker .markSent, .ticker .emitFired]

instance (s : Sys) (a : Action) : Decidable (Undisturbed s a) := by
  unfold Undisturbed
  split <;> infer_instance

theorem delivery_of_both :
    Meets (step gatewayRuntime) NotWithdrawn (init twoReminders 10) deliverBoth ∧
      OncePerPeriod gatewayRuntime (init twoReminders 10) deliverBoth :=
  delivery_of_undisturbed gatewayRuntime twoReminders 10 deliverBoth
    (meets_of_checkMeets _ _ _ _ (by decide))

def dismissInBatch : List Action :=
  [.ticker (.fireDue 10), .ticker (.dispatch true), .request (.dismiss "c2"),
    .ticker .markSent, .ticker .emitFired, .ticker (.dispatch true)]

/-- The mark of a delivered reminder is lost, and the next tick delivers it again. -/
def lostMark : List Action :=
  [.ticker (.fireDue 10), .ticker (.dispatch true), .ticker .dbError, .ticker (.dispatch false),
    .ticker (.expireSelect 10), .ticker .expireUpdate, .ticker .endTick, .ticker (.fireDue 10),
    .ticker (.dispatch true)]

/-- A dismissed reminder is delivered, and a delivered one is delivered once more. -/
theorem delivered_after_dismiss_and_twice :
    ¬ Meets (step gatewayRuntime) NotWithdrawn (init twoReminders 10) dismissInBatch ∧
      ¬ OncePerPeriod gatewayRuntime (init twoReminders 10) lostMark := by
  constructor
  · intro h
    obtain ⟨r, hget, hpending, -⟩ := h (dismissInBatch.take 5) (.ticker (.dispatch true)) [] _ rfl
      rfl true _ _ rfl rfl
    have hstatus := (statusOf_eq_some_iff _ _ _).mpr ⟨r, hget, hpending⟩
    exact absurd hstatus (by decide)
  · intro h
    refine h (lostMark.take 1) ((lostMark.drop 2).take 6) [] _ _ _ _ _ _ _ rfl rfl rfl rfl rfl rfl
      rfl ?_
    exact along_of_checkAlong _ _ _ (by decide)

end IronGolem.CommitmentDelivery
