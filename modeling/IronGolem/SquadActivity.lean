import IronGolem.TransitionRuns
import IronGolem.SquadStore

/-!
Creating, running, pausing and activating squads at the same time. A call is a SELECT, a look at
the clock and a write, and the steps of other calls fall between them.
-/
namespace IronGolem.SquadActivity

open TransitionRuns SquadStore List Option

inductive Phase
  | begun (call : Call)
  /-- The SELECT is done and the clock is read next. -/
  | editing (call : Call) (sq : Squad)
  /-- The edited copy is written next. -/
  | writing (call : Call) (now : ℤ) (sq : Squad)
  | returned (result : Except StoreError Squad)
  deriving DecidableEq

structure Sys where
  db : DB
  calls : ℕ → Option Phase
  /-- History: a `Pause` of the squad has returned and no `Activate` has begun since. -/
  paused : String → Bool
  /-- History: the squads and times of the calls of `RecordRun` that returned no error. -/
  runs : List (String × ℤ)

variable (db : DB)

def init : Sys := ⟨db, fun _ => none, fun _ => false, []⟩

variable (s : Sys)

def Sys.setCall (c : ℕ) (p : Phase) : Sys :=
  { s with calls := Function.update s.calls c (some p) }

def pausedAtBegin (paused : String → Bool) : Call → String → Bool
  | .setActive id true => Function.update paused id false
  | _ => paused

def pausedAtReturn (paused : String → Bool) : Call → String → Bool
  | .setActive id false => Function.update paused id true
  | _ => paused

def runsAtReturn (runs : List (String × ℤ)) (now : ℤ) : Call → List (String × ℤ)
  | .recordRun id => runs ++ [(id, now)]
  | _ => runs

/-- A statement that fails in the database carries `ok = false`. -/
inductive Act
  | begin (c : ℕ) (call : Call)
  | select (c : ℕ) (ok : Bool)
  | stamp (c : ℕ) (now : ℤ)
  | write (c : ℕ) (ok : Bool)
  deriving DecidableEq

def afterSelect (call : Call) (ok : Bool) : Phase :=
  match select db ok call with
  | .error e => .returned (.error e)
  | .ok sq => .editing call sq

def step : Act → Option Sys
  | .begin c call =>
      match s.calls c with
      | none => some { s.setCall c (.begun call) with paused := pausedAtBegin s.paused call }
      | some _ => none
  | .select c ok =>
      match s.calls c with
      | some (.begun call) => some (s.setCall c (afterSelect s.db call ok))
      | _ => none
  | .stamp c now =>
      match s.calls c with
      | some (.editing call sq) => some (s.setCall c (.writing call now (edit now sq call)))
      | _ => none
  | .write c ok =>
      match s.calls c with
      | some (.writing call now sq) =>
          match ok, write s.db sq call with
          | true, some db => some
              ⟨db, Function.update s.calls c (some (.returned (.ok sq))),
                pausedAtReturn s.paused call, runsAtReturn s.runs now call⟩
          | _, _ => some (s.setCall c (.returned (.error .database)))
      | _ => none

inductive StepTo (s : Sys) : Act → Sys → Prop
  | begin (c : ℕ) (call : Call) (hcall : s.calls c = none) :
      StepTo s (.begin c call)
        { s.setCall c (.begun call) with paused := pausedAtBegin s.paused call }
  | select (c : ℕ) (ok : Bool) (call : Call) (hcall : s.calls c = some (.begun call)) :
      StepTo s (.select c ok) (s.setCall c (afterSelect s.db call ok))
  | stamp (c : ℕ) (now : ℤ) (call : Call) (sq : Squad)
      (hcall : s.calls c = some (.editing call sq)) :
      StepTo s (.stamp c now) (s.setCall c (.writing call now (edit now sq call)))
  | failed (c : ℕ) (ok : Bool) (call : Call) (now : ℤ) (sq : Squad)
      (hcall : s.calls c = some (.writing call now sq))
      (hfail : ok = true → write s.db sq call = none) :
      StepTo s (.write c ok) (s.setCall c (.returned (.error .database)))
  | wrote (c : ℕ) (call : Call) (now : ℤ) (sq : Squad) (db : DB)
      (hcall : s.calls c = some (.writing call now sq)) (hwrite : write s.db sq call = some db) :
      StepTo s (.write c true)
        ⟨db, Function.update s.calls c (some (.returned (.ok sq))),
          pausedAtReturn s.paused call, runsAtReturn s.runs now call⟩

variable (s : Sys) {t : Sys} {act : Act}

theorem step_cases (h : step s act = some t) : StepTo s act t := by
  cases act with
  | begin c call =>
    simp only [step] at h
    split at h
    · rename_i hcall
      cases h
      exact .begin c call hcall
    · cases h
  | select c ok =>
    simp only [step] at h
    split at h
    · rename_i call hcall
      cases h
      exact .select c ok call hcall
    · cases h
  | stamp c now =>
    simp only [step] at h
    split at h
    · rename_i call sq hcall
      cases h
      exact .stamp c now call sq hcall
    · cases h
  | write c ok =>
    simp only [step] at h
    split at h
    · rename_i call now sq hcall
      cases ok with
      | false =>
        cases h
        exact .failed c false call now sq hcall (by simp)
      | true =>
        cases hwrite : write s.db sq call with
        | none =>
          rw [hwrite] at h
          cases h
          exact .failed c true call now sq hcall (fun _ => hwrite)
        | some db =>
          rw [hwrite] at h
          cases h
          exact .wrote c call now sq db hcall hwrite
    · cases h

structure Kept (s : Sys) : Prop where
  column : ∀ id r, s.db.get id = some r → r.isActive = r.body.isActive
  paused : ∀ id r, s.paused id = true → s.db.get id = some r → r.body.isActive = false
  recorded : ∀ e ∈ s.runs, ∃ r, s.db.get e.1 = some r ∧
    ∃ last, r.body.lastRunAt = some last ∧ e.2 ≤ last

def noLaterRun (runs : List (String × ℤ)) (id : String) (last : Option ℤ) : Bool :=
  runs.all (fun e => decide (e.1 = id → last.any (fun t => decide (e.2 ≤ t)) = true))

/-- A write carries the latest run and no activation overtakes a pause that returned. -/
def nothingOlder (s : Sys) : Act → Bool
  | .write c true =>
      match s.calls c with
      | some (.writing (.recordRun id) now _) =>
          (s.db.get id).any Row.isActive && noLaterRun s.runs id (some now)
      | some (.writing (.setActive id active) _ sq) =>
          !(active && s.paused id) && noLaterRun s.runs id sq.lastRunAt
      | _ => true
  | _ => true

theorem noLaterRun_iff (runs : List (String × ℤ)) (id : String) (last : Option ℤ) :
    noLaterRun runs id last = true ↔ ∀ e ∈ runs, e.1 = id → ∃ t, last = some t ∧ e.2 ≤ t := by
  simp only [noLaterRun, List.all_eq_true, decide_eq_true_eq, Option.any_eq_true]

/-- A copy about to be written has its row, and the copy of a run is active. -/
def Prepared (sq : Squad) : Call → Prop
  | .create _ => True
  | .recordRun id => (db.get id).isSome = true ∧ sq.isActive = true
  | .setActive id _ => (db.get id).isSome = true

structure Held (s : Sys) : Prop where
  editing : ∀ c call sq, s.calls c = some (.editing call sq) → Prepared s.db sq call
  writing : ∀ c call now sq, s.calls c = some (.writing call now sq) →
    ∃ sq₀, sq = edit now sq₀ call ∧ Prepared s.db sq₀ call
  row : ∀ id, s.paused id = true → (s.db.get id).isSome = true

variable {db : DB} {sq : Squad} {call : Call}

theorem Prepared.mono {db' : DB} (h : Prepared db sq call)
    (hrows : ∀ k, (db.get k).isSome = true → (db'.get k).isSome = true) : Prepared db' sq call := by
  cases call with
  | create squad => trivial
  | recordRun id => exact ⟨hrows id h.1, h.2⟩
  | setActive id active => exact hrows id h

theorem prepared_of_select {ok : Bool} (h : select db ok call = .ok sq) : Prepared db sq call := by
  cases call with
  | create squad => trivial
  | recordRun id =>
    simp only [select] at h
    split at h
    · rename_i sq' hget
      obtain ⟨r, hr, -⟩ := map_eq_some_iff.mp hget
      split at h
      · rename_i hactive
        cases h
        exact ⟨by rw [hr]; rfl, hactive⟩
      · cases h
    · cases h
  | setActive id active =>
    simp only [select] at h
    split at h
    · rename_i sq' hget
      obtain ⟨r, hr, -⟩ := map_eq_some_iff.mp hget
      show (db.get id).isSome = true
      rw [hr]
      rfl
    · cases h

variable (c : ℕ)

theorem setCall_self (p : Phase) : (s.setCall c p).calls c = some p := by
  simp [Sys.setCall]

theorem setCall_of_ne {c c' : ℕ} (p : Phase) (h : c' ≠ c) :
    (s.setCall c p).calls c' = s.calls c' := by
  simp [Sys.setCall, h]

theorem Held.move {s : Sys} (hs : Held s) (c : ℕ) (p : Phase)
    (hcalls : t.calls = (s.setCall c p).calls)
    (hrows : ∀ k, (s.db.get k).isSome = true → (t.db.get k).isSome = true)
    (hpaused : ∀ id, t.paused id = true → (t.db.get id).isSome = true)
    (hediting : ∀ call sq, p = .editing call sq → Prepared t.db sq call)
    (hwriting : ∀ call now sq, p = .writing call now sq →
      ∃ sq₀, sq = edit now sq₀ call ∧ Prepared t.db sq₀ call) : Held t := by
  refine ⟨?_, ?_, hpaused⟩
  · intro c' call sq hcall
    rw [hcalls] at hcall
    by_cases hc : c' = c
    · rw [hc, setCall_self, some.injEq] at hcall
      exact hediting call sq hcall
    · rw [setCall_of_ne s p hc] at hcall
      exact (hs.editing c' call sq hcall).mono hrows
  · intro c' call now sq hcall
    rw [hcalls] at hcall
    by_cases hc : c' = c
    · rw [hc, setCall_self, some.injEq] at hcall
      exact hwriting call now sq hcall
    · rw [setCall_of_ne s p hc] at hcall
      obtain ⟨sq₀, hsq, hprepared⟩ := hs.writing c' call now sq hcall
      exact ⟨sq₀, hsq, hprepared.mono hrows⟩

variable {id : String} (paused : String → Bool)

theorem pausedAtBegin_le (h : pausedAtBegin paused call id = true) : paused id = true := by
  unfold pausedAtBegin at h
  split at h
  · rename_i id'
    by_cases hid : id = id'
    · simp [hid] at h
    · simpa [hid] using h
  · exact h

theorem pausedAtReturn_cases (h : pausedAtReturn paused call id = true) :
    paused id = true ∨ call = .setActive id false := by
  unfold pausedAtReturn at h
  split at h
  · rename_i id'
    by_cases hid : id = id'
    · exact .inr (by rw [hid])
    · exact .inl (by simpa [hid] using h)
  · exact .inl h

theorem held_init (db : DB) : Held (init db) where
  editing c call sq h := by simp [init] at h
  writing c call now sq h := by simp [init] at h
  row id h := by simp [init] at h

theorem held_step (hs : Held s) (h : step s act = some t) : Held t := by
  cases step_cases s h with
  | begin c call hcall =>
    refine hs.move c (.begun call) rfl (fun k hk => hk) ?_ (by simp) (by simp)
    intro id hid
    exact hs.row id (pausedAtBegin_le s.paused hid)
  | select c ok call hcall =>
    refine hs.move c (afterSelect s.db call ok) rfl (fun k hk => hk) hs.row ?_ ?_
    · intro call' sq hp
      unfold afterSelect at hp
      split at hp
      · cases hp
      · rename_i sq' hselect
        cases hp
        exact prepared_of_select hselect
    · intro call' now sq hp
      unfold afterSelect at hp
      split at hp <;> cases hp
  | stamp c now call sq hcall =>
    refine hs.move c _ rfl (fun k hk => hk) hs.row (by simp) ?_
    intro call' now' sq' hp
    cases hp
    exact ⟨sq, rfl, hs.editing c call sq hcall⟩
  | failed c ok call now sq hcall hfail =>
    exact hs.move c _ rfl (fun k hk => hk) hs.row (by simp) (by simp)
  | wrote c call now sq db hcall hwrite =>
    have hrows := isSome_get_write s.db db sq call hwrite
    refine hs.move c (.returned (.ok sq)) rfl hrows ?_ (by simp) (by simp)
    intro id hid
    rcases pausedAtReturn_cases s.paused hid with hpaused | hcall'
    · exact hrows id (hs.row id hpaused)
    · subst hcall'
      obtain ⟨sq₀, -, hprepared⟩ := hs.writing c _ now sq hcall
      exact hrows id hprepared

theorem held_run (db : DB) (acts : List Act) {s : Sys} (h : run step (init db) acts = some s) :
    Held s :=
  invariant step Held (held_init db) (fun s _ _ hs h => held_step s hs h) h

theorem kept_create {squad : Squad} (hs : Held s)
    (hkept : Kept s) (hwrite : write s.db sq (.create squad) = some db) :
    Kept ⟨db, Function.update s.calls c (some (.returned (.ok sq))), s.paused, s.runs⟩ := by
  have hget := s.db.get_insert db (createdRow s.db sq) hwrite
  have hold := s.db.get_insert_of_some db (createdRow s.db sq) hwrite
  refine ⟨?_, ?_, ?_⟩
  · intro id r hr
    rw [hget] at hr
    split at hr
    · cases hr
      rfl
    · exact hkept.column id r hr
  · intro id r hpaused hr
    obtain ⟨r', hr'⟩ := isSome_iff_exists.mp (hs.row id hpaused)
    rw [hold id r' hr', some.injEq] at hr
    exact hr ▸ hkept.paused id r' hpaused hr'
  · intro e he
    obtain ⟨r, hr, hlast⟩ := hkept.recorded e he
    exact ⟨r, hold e.1 r hr, hlast⟩

variable {row : Row}

/-- A write replaces one row, which has to agree with the history of its squad. -/
theorem kept_replaced_iff {new : Row} (hkept : Kept s)
    (hget : ∀ k, t.db.get k = if k = id then some new else s.db.get k)
    (hpaused : ∀ k, k ≠ id → t.paused k = true → s.paused k = true)
    (hruns : ∀ e ∈ t.runs, e.1 ≠ id → e ∈ s.runs) :
    Kept t ↔ new.isActive = new.body.isActive ∧ (t.paused id = true → new.body.isActive = false) ∧
      ∀ e ∈ t.runs, e.1 = id → ∃ last, new.body.lastRunAt = some last ∧ e.2 ≤ last := by
  have hself : t.db.get id = some new := by rw [hget, if_pos rfl]
  have hother : ∀ k, k ≠ id → t.db.get k = s.db.get k := fun k hk => by rw [hget, if_neg hk]
  constructor
  · intro h
    refine ⟨h.column id new hself, fun hp => h.paused id new hp hself, ?_⟩
    intro e he hid
    obtain ⟨r, hr, hlast⟩ := h.recorded e he
    rw [hid, hself, some.injEq] at hr
    exact hr ▸ hlast
  · rintro ⟨hcolumn, hpause, hrun⟩
    refine ⟨?_, ?_, ?_⟩
    · intro k r hr
      by_cases hk : k = id
      · rw [hk, hself, some.injEq] at hr
        exact hr ▸ hcolumn
      · exact hkept.column k r (hother k hk ▸ hr)
    · intro k r hp hr
      by_cases hk : k = id
      · rw [hk, hself, some.injEq] at hr
        exact hr ▸ hpause (hk ▸ hp)
      · exact hkept.paused k r (hpaused k hk hp) (hother k hk ▸ hr)
    · intro e he
      by_cases hid : e.1 = id
      · exact ⟨new, by rw [hid, hself], hrun e he hid⟩
      · rw [hother e.1 hid]
        exact hkept.recorded e (hruns e he hid)

/-- A run is written without harm exactly over an active squad that has no later run. -/
theorem kept_recordRun_iff (now : ℤ) {sq₀ : Squad}
    (hkept : Kept s) (hrow : s.db.get id = some row) (hactive : sq₀.isActive = true) :
    Kept ⟨updateBody s.db id (edit now sq₀ (.recordRun id)),
        Function.update s.calls c (some (.returned (.ok (edit now sq₀ (.recordRun id))))),
        s.paused, s.runs ++ [(id, now)]⟩ ↔
      row.isActive = true ∧ noLaterRun s.runs id (some now) = true := by
  have hget := get_updateBody s.db id (edit now sq₀ (.recordRun id))
  simp only [hrow, map_some] at hget
  refine (kept_replaced_iff (t := ⟨_, _, _, _⟩) s hkept hget (fun _ _ h => h) ?_).trans ?_
  · intro e he hid
    rcases mem_append.mp he with hold | hnew
    · exact hold
    · exact absurd (congrArg Prod.fst (mem_singleton.mp hnew)) hid
  · rw [noLaterRun_iff]
    constructor
    · rintro ⟨hcolumn, -, hrun⟩
      exact ⟨hcolumn.trans hactive, fun e he => hrun e (mem_append_left _ he)⟩
    · rintro ⟨hrowActive, hlater⟩
      refine ⟨hrowActive.trans hactive.symm, ?_, ?_⟩
      · intro hpaused
        -- a paused squad would be inactive in its row
        have hinactive := hkept.paused id row hpaused hrow
        rw [← hkept.column id row hrow, hrowActive] at hinactive
        cases hinactive
      · intro e he hid
        rcases mem_append.mp he with hold | hnew
        · exact hlater e hold hid
        · exact ⟨now, rfl, by rw [mem_singleton.mp hnew]⟩

/-- A flag does no harm if the copy has the latest run and wakes no paused squad. -/
theorem kept_setActive_iff (active : Bool) (now : ℤ)
    (sq₀ : Squad) (hkept : Kept s) (hrow : s.db.get id = some row) :
    Kept ⟨updateActive s.db id active (edit now sq₀ (.setActive id active)),
        Function.update s.calls c (some (.returned (.ok (edit now sq₀ (.setActive id active))))),
        pausedAtReturn s.paused (.setActive id active), s.runs⟩ ↔
      (!(active && s.paused id)) = true ∧ noLaterRun s.runs id sq₀.lastRunAt = true := by
  have hget := get_updateActive s.db id active (edit now sq₀ (.setActive id active))
  simp only [hrow, map_some] at hget
  refine (kept_replaced_iff (t := ⟨_, _, _, _⟩) s hkept hget ?_ (fun _ he _ => he)).trans ?_
  · intro k hk hp
    rcases pausedAtReturn_cases s.paused hp with hold | hcall
    · exact hold
    · cases hcall
      exact absurd rfl hk
  · rw [noLaterRun_iff]
    refine (and_iff_right rfl).trans (and_congr_left' ?_)
    cases active with
    | false => simp [edit]
    | true => cases hpaused : s.paused id <;> simp [pausedAtReturn, edit, hpaused]

theorem kept_init (db : DB) (hdb : ∀ r ∈ db.rows, r.isActive = r.body.isActive) :
    Kept (init db) where
  column id r h := hdb r ((db.get_eq_some_iff id r).mp h).1
  paused id r h := by simp [init] at h
  recorded e he := absurd he not_mem_nil

theorem kept_step_iff (hs : Held s) (hkept : Kept s)
    (h : step s act = some t) : Kept t ↔ nothingOlder s act = true := by
  cases step_cases s h with
  | begin c call hcall =>
    refine iff_of_true ⟨hkept.column, ?_, hkept.recorded⟩ rfl
    intro id r hpaused hr
    exact hkept.paused id r (pausedAtBegin_le s.paused hpaused) hr
  | failed c ok call now sq hcall hfail =>
    refine iff_of_true ⟨hkept.column, hkept.paused, hkept.recorded⟩ ?_
    cases ok with
    | false => rfl
    | true =>
      cases call with
      | create squad => simp [nothingOlder, hcall]
      | _ => exact absurd (hfail rfl) (by simp [write])
  | wrote c call now sq db hcall hwrite =>
    obtain ⟨sq₀, rfl, hprepared⟩ := hs.writing c call now sq hcall
    cases call with
    | create squad =>
      refine iff_of_true (kept_create s c hs hkept hwrite) ?_
      simp [nothingOlder, hcall]
    | recordRun id =>
      obtain ⟨row, hrow⟩ := isSome_iff_exists.mp hprepared.1
      cases hwrite
      refine (kept_recordRun_iff s c now hkept hrow hprepared.2).trans ?_
      simp [nothingOlder, hcall, hrow]
    | setActive id active =>
      obtain ⟨row, hrow⟩ := isSome_iff_exists.mp hprepared
      cases hwrite
      refine (kept_setActive_iff s c active now sq₀ hkept hrow).trans ?_
      simp [nothingOlder, hcall, edit]
  | _ =>
    exact iff_of_true ⟨hkept.column, hkept.paused, hkept.recorded⟩ rfl

/-- Pauses, columns and runs are kept exactly when no write puts back something older. -/
theorem squads_kept_iff_nothing_older (db : DB)
    (hdb : ∀ r ∈ db.rows, r.isActive = r.body.isActive) (acts : List Act) (s : Sys)
    (h : run step (init db) acts = some s) :
    Along step Kept (init db) acts ↔
      Meets step (fun s act => nothingOlder s act = true) (init db) acts :=
  along_iff_meets step _ Kept Held (s := init db) (kept_init db hdb) (held_run db)
    (fun s _ _ hs hkept h => kept_step_iff s hs hkept h) s h

/-- An active squad that has not run yet. -/
def researchSquad : Squad where
  id := "squad-research"
  name := "Research Squad"
  description := "Finds and checks sources."
  purpose := "Research"
  members := []
  workspaceID := "default"
  isActive := true
  trustLevel := 1
  autonomyLevel := .low
  createdAt := 1
  updatedAt := 1
  lastRunAt := none

def oneSquad : DB := ⟨[⟨"squad-research", true, researchSquad, 1, 1, 0⟩], by decide⟩

def alone (c : ℕ) (call : Call) (now : ℤ) : List Act :=
  [.begin c call, .select c true, .stamp c now, .write c true]

def inTurn : List Act :=
  List.flatten [alone 0 (.recordRun "squad-research") 2, alone 1 (.pause "squad-research") 3,
    [.begin 2 (.recordRun "squad-research"), .select 2 true],
    alone 3 (.activate "squad-research") 4]

theorem squads_kept_in_turn :
    (∃ s, run step (init oneSquad) inTurn = some s ∧
      s.calls 2 = some (.returned (.error .squadNotActive)) ∧
      (getByID s.db "squad-research").map Squad.isActive = some true) ∧
      Along step Kept (init oneSquad) inTurn := by
  obtain ⟨s, hrun, hend⟩ := exists_run_of_check step (fun s : Sys =>
    s.calls 2 = some (.returned (.error .squadNotActive)) ∧
      (getByID s.db "squad-research").map Squad.isActive = some true)
    (init oneSquad) inTurn (by decide)
  refine ⟨⟨s, hrun, hend⟩, ?_⟩
  rw [squads_kept_iff_nothing_older oneSquad (by decide) inTurn s hrun]
  exact meets_of_checkMeets step _ _ _ (by decide)

def pausedDuringRun : List Act :=
  List.flatten [[.begin 0 (.recordRun "squad-research"), .select 0 true],
    alone 1 (.pause "squad-research") 2, [.stamp 0 3, .write 0 true]]

def ranDuringPause : List Act :=
  List.flatten [[.begin 0 (.pause "squad-research"), .select 0 true],
    alone 1 (.recordRun "squad-research") 2, [.stamp 0 3, .write 0 true]]

theorem paused_squad_wakes_and_run_is_lost :
    (∃ s, run step (init oneSquad) pausedDuringRun = some s ∧
      s.paused "squad-research" = true ∧
      (getByID s.db "squad-research").map Squad.isActive = some true ∧
      (s.db.get "squad-research").map Row.isActive = some false ∧ ¬ Kept s) ∧
    ∃ s, run step (init oneSquad) ranDuringPause = some s ∧
      s.runs = [("squad-research", 2)] ∧
      (getByID s.db "squad-research").map Squad.lastRunAt = some none ∧ ¬ Kept s := by
  refine ⟨?_, ?_⟩
  · obtain ⟨s, hrun, hpaused, hactive, hcolumn⟩ := exists_run_of_check step (fun s : Sys =>
      s.paused "squad-research" = true ∧
        (getByID s.db "squad-research").map Squad.isActive = some true ∧
        (s.db.get "squad-research").map Row.isActive = some false)
      (init oneSquad) pausedDuringRun (by decide)
    refine ⟨s, hrun, hpaused, hactive, hcolumn, ?_⟩
    intro hkept
    obtain ⟨r, hr, hfalse⟩ := map_eq_some_iff.mp hcolumn
    rw [getByID, hr] at hactive
    have hbody : r.body.isActive = true := by simpa using hactive
    rw [hkept.paused _ r hpaused hr] at hbody
    cases hbody
  · obtain ⟨s, hrun, hruns, hlast⟩ := exists_run_of_check step (fun s : Sys =>
      s.runs = [("squad-research", 2)] ∧
        (getByID s.db "squad-research").map Squad.lastRunAt = some none)
      (init oneSquad) ranDuringPause (by decide)
    refine ⟨s, hrun, hruns, hlast, ?_⟩
    intro hkept
    obtain ⟨r, hr, last, hsome, -⟩ := hkept.recorded ("squad-research", 2) (by simp [hruns])
    rw [getByID, hr] at hlast
    have hnone : r.body.lastRunAt = none := by simpa using hlast
    rw [hnone] at hsome
    cases hsome

end IronGolem.SquadActivity
