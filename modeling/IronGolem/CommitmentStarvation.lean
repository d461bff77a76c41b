import IronGolem.TransitionRuns
import IronGolem.CommitmentRuntime

/-!
Whether a commitment can expire without anybody having tried to deliver it. A tick reads at most
`dueNowBatch` rows, the earliest ones first, and a failed delivery leaves its row where it was.
-/
namespace IronGolem.CommitmentStarvation

open TransitionRuns CommitmentStore CommitmentRuntime

def tickAt (s : Sys) : Action → Option ℤ
  | .ticker (.fireDue nowMs) => some nowMs
  | .ticker .dbError => if s.ticker = .idle then some s.now else none
  | _ => none

def dispatched (s : Sys) : Action → Option String
  | .ticker (.dispatch _) => match s.ticker with
    | .firing (c :: _) => some c.id
    | _ => none
  | _ => none

variable (rt : Runtime)

def Attempted (s : Sys) (acts : List Action) (id : String) : Prop :=
  ∃ pre a post t, acts = pre ++ a :: post ∧ run (step rt) s pre = some t ∧ dispatched t a = some id

/-- A row with an open window is not expired without a delivery having been tried. -/
def TriedBeforeExpiry (s₀ : Sys) (acts : List Action) : Prop :=
  ∀ pre a mid post nowMs s t u v, ∀ c ∈ s.db.rows,
    acts = pre ++ a :: (mid ++ .ticker .expireUpdate :: post) →
    run (step rt) s₀ pre = some s → tickAt s a = some nowMs → due nowMs c = true →
    step rt s a = some t → run (step rt) t mid = some u →
    step rt u (.ticker .expireUpdate) = some v →
    statusOf u.db c.id = some .pending → statusOf v.db c.id = some .expired →
      Attempted rt s₀ (pre ++ a :: mid) c.id

/-- A tick reads its batch with a dispatcher at hand, and all that is due fits into it. -/
def Uncrowded (s : Sys) (a : Action) : Prop :=
  ∀ nowMs, tickAt s a = some nowMs →
    rt.dispatcher = true ∧ a ≠ .ticker .dbError ∧ s.db.affected (due nowMs) ≤ dueNowBatch

def untried : Ticker → List Commitment
  | .firing batch => batch
  | .marking _ rest => rest
  | .fired _ rest => rest
  | _ => []

variable {rt : Runtime} (s : Sys) {t : Sys} {a : TickerAct} {id : String}

theorem tickerTo_untried (hdispatcher : rt.dispatcher = true) (hto : TickerTo rt s a t)
    (hid : id ∈ (untried s.ticker).map Commitment.id) :
    id ∈ (untried t.ticker).map Commitment.id ∨ dispatched s (.ticker a) = some id := by
  cases hto with
  | delivered c rest hpc | undelivered c rest hpc =>
    rw [hpc] at hid
    rcases List.mem_cons.mp hid with rfl | hrest
    · exact .inr (by simp [dispatched, hpc])
    · exact .inl hrest
  | skipDispatch c rest hpc hnone => exact absurd hdispatcher hnone
  | marked c rest hpc | notMarked c rest hpc | markFails c rest hpc | emitFired c rest hpc =>
    rw [hpc] at hid
    exact .inl hid
  | emitExpired c rest hpc => simp [hpc, untried] at hid
  | fireDue _ hpc | expireSelect _ hpc | expireUpdate _ hpc => simp [hpc, untried] at hid
  | endTick hpc | noBatch hpc | stop hpc => simp [hpc, untried] at hid
  | expireFails hpc =>
    rcases hpc with hpc | ⟨snapshot, hpc⟩ <;> simp [hpc, untried] at hid

variable {a : Action}

theorem step_untried (hdispatcher : rt.dispatcher = true) (hstep : step rt s a = some t)
    (hid : id ∈ (untried s.ticker).map Commitment.id) :
    id ∈ (untried t.ticker).map Commitment.id ∨ dispatched s a = some id := by
  cases step_to hstep with
  | elapse ms | request r haccepted | enqueue turn candidates => exact .inl hid
  | task i task act t hi hto =>
    rw [← hto.frame.1] at hid
    exact .inl hid
  | ticker act t hto => exact tickerTo_untried s hdispatcher hto hid

variable {acts : List Action}

theorem Attempted.cons {s : Sys} (hstep : step rt s a = some t) (h : Attempted rt t acts id) :
    Attempted rt s (a :: acts) id := by
  obtain ⟨pre, b, post, u, rfl, hrun, hdispatched⟩ := h
  refine ⟨a :: pre, b, post, u, rfl, ?_, hdispatched⟩
  rw [run_cons, hstep]
  exact hrun

theorem run_tries_batch (hdispatcher : rt.dispatcher = true) (hrun : run (step rt) s acts = some t)
    (hid : id ∈ (untried s.ticker).map Commitment.id) (hdone : untried t.ticker = []) :
    Attempted rt s acts id := by
  induction acts generalizing s with
  | nil =>
    rw [run_nil, Option.some.injEq] at hrun
    rw [hrun, hdone] at hid
    exact absurd hid List.not_mem_nil
  | cons a acts ih =>
    obtain ⟨u, hu, hrest⟩ := Option.bind_eq_some_iff.mp hrun
    rcases step_untried s hdispatcher hu hid with hstay | htried
    · exact (ih u hrest hstay).cons hu
    · exact ⟨[], a, acts, s, rfl, rfl, htried⟩

theorem Attempted.append {s : Sys} {pre : List Action}
    (hpre : run (step rt) s pre = some t) (h : Attempted rt t acts id) :
    Attempted rt s (pre ++ acts) id := by
  obtain ⟨before, b, post, u, rfl, hrun, hdispatched⟩ := h
  refine ⟨pre ++ before, b, post, u, by simp, ?_, hdispatched⟩
  rw [run_append, hpre]
  exact hrun

/-- An uncrowded tick puts every row with an open window into its batch. -/
theorem fireDue_takes_due {nowMs : ℤ} {c : Commitment}
    (hguard : Uncrowded rt s a) (htick : tickAt s a = some nowMs) (hc : c ∈ s.db.rows)
    (hdue : due nowMs c = true) (hstep : step rt s a = some t) :
    c.id ∈ (untried t.ticker).map Commitment.id := by
  obtain ⟨-, hok, hroom⟩ := hguard nowMs htick
  cases step_to hstep with
  | elapse ms | request r haccepted | enqueue turn candidates | task i task act t hi hto =>
    simp [tickAt] at htick
  | ticker act t hto =>
    cases hto with
    | fireDue nowMs' hpc hclock =>
      obtain rfl : nowMs' = nowMs := by simpa [tickAt] using htick
      refine List.mem_map_of_mem ?_
      refine s.db.mem_select_of_le (due nowMs') _ _ _ c ?_ hc hdue
      have hlimit : (limitOr 50 dueNowBatch : ℤ) = dueNowBatch := rfl
      omega
    | noBatch hpc | markFails d rest hpc | expireFails hpc => exact absurd rfl hok
    | delivered d rest hpc | undelivered d rest hpc | skipDispatch d rest hpc | marked d rest hpc
    | notMarked d rest hpc | emitFired d rest hpc | expireSelect nowMs' hpc
    | expireUpdate snapshot hpc | emitExpired d rest hpc | endTick hpc | stop hpc =>
      simp [tickAt] at htick

/-- If the ticks have room for what is due, nothing expires without a delivery having been tried. -/
theorem tried_before_expiry_of_uncrowded (rt : Runtime) (s₀ : Sys) (acts : List Action)
    (hmeets : Meets (step rt) (Uncrowded rt) s₀ acts) : TriedBeforeExpiry rt s₀ acts := by
  intro pre a mid post nowMs s t u v c hc hacts hpre htick hdue hstep hmid hexpire _ _
  have hguard : Uncrowded rt s a := hmeets pre a _ s hacts hpre
  have hdispatcher : rt.dispatcher = true := (hguard nowMs htick).1
  have hbatch := fireDue_takes_due s hguard htick hc hdue hstep
  have hdone : untried u.ticker = [] := by
    cases tickerStep_to (s := u) (t := v) (a := .expireUpdate) hexpire with
    | expireUpdate snapshot hpc =>
      rw [hpc]
      rfl
  have hmidTried := run_tries_batch t hdispatcher hmid hbatch hdone
  exact (hmidTried.cons hstep).append hpre

instance (rt : Runtime) (s : Sys) (a : Action) : Decidable (Uncrowded rt s a) :=
  decidable_of_iff (∀ nowMs ∈ tickAt s a,
    rt.dispatcher = true ∧ a ≠ .ticker .dbError ∧ s.db.affected (due nowMs) ≤ dueNowBatch) Iff.rfl

/-- A single reminder whose delivery fails in its window, and which then expires. -/
def failAndExpire : List Action :=
  [.ticker (.fireDue 10), .ticker (.dispatch false), .ticker (.expireSelect 10),
    .ticker .expireUpdate, .ticker .endTick, .elapse 700000, .ticker (.fireDue 700010),
    .ticker (.expireSelect 700010), .ticker .expireUpdate]

theorem tried_before_single_expiry :
    TriedBeforeExpiry gatewayRuntime (init ⟨[reminder "c1" "tax" 5 100], by decide⟩ 10)
      failAndExpire :=
  tried_before_expiry_of_uncrowded gatewayRuntime _ failAndExpire
    (meets_of_checkMeets _ _ _ _ (by decide))

def crowd : List Commitment :=
  "abcdefghijklmnopqrstuvwxyzABCDEFGHIJKLMNOPQRSTUVWX".toList.map
    (fun ch => reminder (String.singleton ch) (String.singleton ch) 1 100)

def crowdedTable : DB := ⟨crowd ++ [reminder "hidden" "hidden" 2 100], by decide +kernel⟩

def crowdedTicks : List Action :=
  List.flatten [[.ticker (.fireDue 10)], List.replicate 50 (.ticker (.dispatch false)),
    [.ticker (.expireSelect 10), .ticker .expireUpdate, .ticker .endTick, .elapse 700000,
      .ticker (.fireDue 700010), .ticker (.expireSelect 700010), .ticker .expireUpdate]]

/-- The fifty-first reminder is open at a tick and expires with the others, untried. -/
theorem hidden_reminder_starves :
    ¬ TriedBeforeExpiry gatewayRuntime (init crowdedTable 10) crowdedTicks := by
  intro h
  obtain ⟨t, ht, -⟩ := exists_run_of_check (step gatewayRuntime) (fun _ => True)
    (init crowdedTable 10) [.ticker (.fireDue 10)] (by decide +kernel)
  have hstep : step gatewayRuntime (init crowdedTable 10) (.ticker (.fireDue 10)) = some t := by
    simpa [run_cons] using ht
  obtain ⟨v, hv, hpending, hexpired⟩ := exists_run_of_check (step gatewayRuntime)
    (fun u => statusOf u.db "hidden" = some .pending ∧
      (step gatewayRuntime u (.ticker .expireUpdate)).map
        (fun w => statusOf w.db "hidden") = some (some .expired))
    (init crowdedTable 10) crowdedTicks.dropLast (by decide +kernel)
  obtain ⟨w, hw, hlast⟩ := Option.map_eq_some_iff.mp hexpired
  have hmid : run (step gatewayRuntime) t crowdedTicks.dropLast.tail = some v := by
    have hsplit : crowdedTicks.dropLast = .ticker (.fireDue 10) :: crowdedTicks.dropLast.tail := rfl
    rw [hsplit, run_cons, hstep] at hv
    exact hv
  have huntried : Meets (step gatewayRuntime) (fun s a => dispatched s a ≠ some "hidden")
      (init crowdedTable 10) crowdedTicks.dropLast :=
    meets_of_checkMeets _ _ _ _ (by decide +kernel)
  obtain ⟨pre, a, post, s, hacts, hrun, hdispatched⟩ :=
    h [] (.ticker (.fireDue 10)) crowdedTicks.dropLast.tail [] 10 _ t v w
      (reminder "hidden" "hidden" 2 100) (by simp [init, crowdedTable]) rfl rfl rfl rfl hstep hmid
      hw hpending hlast
  exact huntried pre a post s hacts hrun hdispatched

end IronGolem.CommitmentStarvation
