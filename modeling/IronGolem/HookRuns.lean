import IronGolem.HookPipeline
import IronGolem.TransitionRuns

/-!
Plugin hooks beside each other. A trigger call takes its handlers from the registry once and then
awaits one after the other. A handler that rejects ends the call, so the ones after it are not
started and the results are lost. A plugin that is removed while a call waits stays in the rest of
that call.
-/

namespace IronGolem.HookRuns

open HookPipeline StableSorts TransitionRuns List

section Call

variable {P W E : Type}

/-- The results of the handlers that answer, when every one of them is called in turn. -/
def succeeded (payload : P) : List (HookEntry (Handler P W E)) → W → List (HookHandlerResult P)
  | [], _ => []
  | entry :: rest, w =>
    match entry.handler payload w with
    | (.ok result, w') => result :: succeeded payload rest w'
    | (.error _, w') => succeeded payload rest w'

/-- Every handler is started once and what the others answer is returned. -/
structure Isolated (order : List (HookEntry (Handler P W E))) (payload : P) (w : W)
    (t : Triggered P W E) : Prop where
  started : t.started = order.map (fun entry => (entry, payload))
  returns : t.rejected = none
  results : t.results = succeeded payload order w

def NoneRejects (payload : P) : List (HookEntry (Handler P W E)) → W → Prop
  | [], _ => True
  | entry :: rest, w =>
    match entry.handler payload w with
    | (.ok _, w') => NoneRejects payload rest w'
    | (.error _, _) => False

variable {hookType : HookType} {entry : HookEntry (Handler P W E)}
    (rest : List (HookEntry (Handler P W E))) {payload : P} {w w' : W}

theorem runFrom_cons_error {err : E} (h : entry.handler payload w = (.error err, w')) :
    runFrom hookType (entry :: rest) payload w =
      ⟨[(entry, payload)], [], payload, some err, w'⟩ := by
  rw [runFrom, h]

theorem runFrom_cons_ok (hother : hookType ≠ .beforeAction)
    (rest : List (HookEntry (Handler P W E))) {result : HookHandlerResult P}
    (h : entry.handler payload w = (.ok result, w')) :
    runFrom hookType (entry :: rest) payload w =
      (runFrom hookType rest payload w').after entry payload result := by
  rw [runFrom, h]
  simp [if_neg hother]

variable {order : List (HookEntry (Handler P W E))}

theorem noneRejects_of_answers (w : W)
    (h : ∀ entry ∈ order, ∀ w, ∃ result w', entry.handler payload w = (.ok result, w')) :
    NoneRejects payload order w := by
  induction order generalizing w with
  | nil => trivial
  | cons entry rest ih =>
    obtain ⟨result, w', hanswer⟩ := h entry mem_cons_self w
    simp only [NoneRejects, hanswer]
    exact ih w' fun e he => h e (mem_cons_of_mem entry he)

theorem rejected_none_iff (hother : hookType ≠ .beforeAction)
    (order : List (HookEntry (Handler P W E))) (payload : P) (w : W) :
    (runFrom hookType order payload w).rejected = none ↔ NoneRejects payload order w := by
  induction order generalizing w with
  | nil => simp [runFrom, NoneRejects]
  | cons entry rest ih =>
    cases hanswer : entry.handler payload w with
    | mk answer w' =>
      cases answer with
      | error err =>
        rw [runFrom_cons_error rest hanswer]
        simp [NoneRejects, hanswer]
      | ok result =>
        rw [runFrom_cons_ok hother rest hanswer]
        simp only [NoneRejects, hanswer]
        exact ih w'

theorem isolated_of_noneRejects (hother : hookType ≠ .beforeAction) (w : W)
    (h : NoneRejects payload order w) :
    Isolated order payload w (runFrom hookType order payload w) := by
  induction order generalizing w with
  | nil => exact ⟨rfl, rfl, rfl⟩
  | cons entry rest ih =>
    cases hanswer : entry.handler payload w with
    | mk answer w' =>
      cases answer with
      | error err => simp [NoneRejects, hanswer] at h
      | ok result =>
        simp only [NoneRejects, hanswer] at h
        have hrest := ih w' h
        rw [runFrom_cons_ok hother rest hanswer]
        refine ⟨?_, hrest.returns, ?_⟩
        · simp [Triggered.after, hrest.started]
        · simp [Triggered.after, hrest.results, succeeded, hanswer]

/-- A trigger starts the registered handlers of its type, in priority order. -/
def Isolates (calls : List (Call (Handler P W E))) (hookType : HookType) (payload : P) (w : W) :
    Prop :=
  ∃ order, order.Perm (relevant (live calls) hookType) ∧
    Ranked HookEntry.priority order (relevant (live calls) hookType) ∧
    Isolated order payload w (trigger (hooksAfter calls) hookType payload w)

theorem isolates_iff (calls : List (Call (Handler P W E)))
    (hother : hookType ≠ .beforeAction) (payload : P) (w : W) :
    Isolates calls hookType payload w ↔
      NoneRejects payload (relevant (hooksAfter calls) hookType) w := by
  constructor
  · rintro ⟨order, -, -, h⟩
    exact (rejected_none_iff hother _ payload w).mp h.returns
  · intro h
    have hranked : Ranked HookEntry.priority (relevant (hooksAfter calls) hookType)
        (relevant (live calls) hookType) := (ranked_hooksAfter calls).filter _
    exact ⟨_, hranked.perm, hranked, isolated_of_noneRejects hother w h⟩

end Call

/-- A trigger call: it waits for the running handler, or it has returned or rejected. -/
inductive TriggerCall (H P E : Type) where
  | waits (hookType : HookType) (running : HookEntry H) (payload : P)
      (results : List (HookHandlerResult P)) (rest : List (HookEntry H))
  | returned (results : List (HookHandlerResult P)) (finalPayload : P)
  | rejected (err : E)

section Waiting

variable {H P E : Type}

def goOn (hookType : HookType) (payload : P) (results : List (HookHandlerResult P)) :
    List (HookEntry H) → TriggerCall H P E
  | [] => .returned results payload
  | entry :: rest => .waits hookType entry payload results rest

def settled (hookType : HookType) (payload : P) (results : List (HookHandlerResult P))
    (rest : List (HookEntry H)) : Except E (HookHandlerResult P) → TriggerCall H P E
  | .error err => .rejected err
  | .ok result =>
    if hookType = .beforeAction then
      if result.action = .abort then .returned (results ++ [result]) payload
      else
        let next := if result.action = .modify then result.modifiedPayload.getD payload else payload
        goOn hookType next (results ++ [result]) rest
    else goOn hookType payload (results ++ [result]) rest

def TriggerCall.running : TriggerCall H P E → Option (HookEntry H)
  | .waits _ entry _ _ _ => some entry
  | _ => none

def TriggerCall.ahead : TriggerCall H P E → List (HookEntry H)
  | .waits _ _ _ _ rest => rest
  | _ => []

variable (hookType : HookType) (payload : P) (results : List (HookHandlerResult P))
    (entries : List (HookEntry H))

theorem running_goOn :
    (goOn hookType payload results entries : TriggerCall H P E).running = entries.head? := by
  cases entries <;> rfl

theorem ahead_goOn :
    (goOn hookType payload results entries : TriggerCall H P E).ahead = entries.tail := by
  cases entries <;> rfl

theorem settled_cases (rest : List (HookEntry H)) (answer : Except E (HookHandlerResult P)) :
    ((settled hookType payload results rest answer).running = none ∧
      (settled hookType payload results rest answer).ahead = []) ∨
    ((settled hookType payload results rest answer).running = rest.head? ∧
      (settled hookType payload results rest answer).ahead = rest.tail) := by
  cases answer with
  | error err => exact .inl ⟨rfl, rfl⟩
  | ok result =>
    by_cases hbefore : hookType = .beforeAction
    · by_cases habort : result.action = .abort
      · left
        simp only [settled, if_pos hbefore, if_pos habort]
        exact ⟨rfl, rfl⟩
      · right
        simp only [settled, if_pos hbefore, if_neg habort]
        exact ⟨running_goOn _ _ _ _, ahead_goOn _ _ _ _⟩
    · right
      simp only [settled, if_neg hbefore]
      exact ⟨running_goOn _ _ _ _, ahead_goOn _ _ _ _⟩

end Waiting

section Drive

variable {P W E : Type}

/-- A call whose handlers settle with nothing else in between, for at most `n` of them. -/
def drive : ℕ → TriggerCall (Handler P W E) P E → W →
    List (HookEntry (Handler P W E) × P) × TriggerCall (Handler P W E) P E × W
  | n + 1, .waits hookType entry payload results rest, w =>
    let answer := entry.handler payload w
    let more := drive n (settled hookType payload results rest answer.1) answer.2
    ((entry, payload) :: more.1, more.2)
  | _, call, w => ([], call, w)

def endsAs (t : Triggered P W E) (before : List (HookHandlerResult P)) :
    TriggerCall (Handler P W E) P E :=
  match t.rejected with
  | some err => .rejected err
  | none => .returned (before ++ t.results) t.finalPayload

theorem endsAs_after (t : Triggered P W E) (entry : HookEntry (Handler P W E)) (payload : P)
    (result : HookHandlerResult P) (before : List (HookHandlerResult P)) :
    endsAs (t.after entry payload result) before = endsAs t (before ++ [result]) := by
  simp [endsAs, Triggered.after]

theorem drive_goOn (hookType : HookType) {entries : List (HookEntry (Handler P W E))} (payload : P)
    (results : List (HookHandlerResult P)) (w : W) (n : ℕ) (hn : entries.length ≤ n) :
    drive n (goOn hookType payload results entries) w =
      ((runFrom hookType entries payload w).started,
        endsAs (runFrom hookType entries payload w) results,
        (runFrom hookType entries payload w).world) := by
  induction entries generalizing payload results w n with
  | nil => cases n <;> simp [drive, goOn, runFrom, endsAs]
  | cons entry rest ih =>
    obtain ⟨m, rfl⟩ : ∃ m, n = m + 1 := ⟨n - 1, by simp only [length_cons] at hn; omega⟩
    have hm : rest.length ≤ m := by simpa using hn
    cases hanswer : entry.handler payload w with
    | mk answer w' =>
      simp only [drive, goOn, hanswer]
      cases answer with
      | error err =>
        rw [runFrom_cons_error rest hanswer]
        cases m <;> simp [drive, settled, endsAs]
      | ok result =>
        rw [runFrom, hanswer]
        simp only [settled]
        split
        · split
          · cases m <;> simp [drive, endsAs]
          · rw [ih _ _ _ _ hm, endsAs_after]
            rfl
        · rw [ih _ _ _ _ hm, endsAs_after]
          rfl

theorem drive_trigger (hooks : List (HookEntry (Handler P W E))) (hookType : HookType) (payload : P)
    (w : W) :
    drive hooks.length (goOn hookType payload [] (relevant hooks hookType)) w =
      ((trigger hooks hookType payload w).started,
        endsAs (trigger hooks hookType payload w) [],
        (trigger hooks hookType payload w).world) :=
  drive_goOn hookType payload [] w _ (length_filter_le _ _)

end Drive

/-- A handler is told by the number of its registration. -/
structure Manager (P E : Type) where
  hooks : List (HookEntry ℕ)
  registered : ℕ
  calls : List (TriggerCall ℕ P E)

inductive Act (P E : Type) where
  | register (pluginId : String) (hookType : HookType) (priority : ℚ)
  | unregisterPlugin (pluginId : String)
  | trigger (hookType : HookType) (payload : P)
  | settle (call : ℕ) (answer : Except E (HookHandlerResult P))

section System

variable {P E : Type}

def init : Manager P E := { hooks := [], registered := 0, calls := [] }

variable (m : Manager P E)

def step : Act P E → Option (Manager P E)
  | .register pluginId hookType priority => some { m with
      hooks := register m.hooks ⟨pluginId, hookType, priority, m.registered⟩
      registered := m.registered + 1 }
  | .unregisterPlugin pluginId => some { m with hooks := unregisterPlugin m.hooks pluginId }
  | .trigger hookType payload => some { m with
      calls := m.calls ++ [goOn hookType payload [] (relevant m.hooks hookType)] }
  | .settle call answer =>
    match m.calls[call]? with
    | some (.waits hookType _ payload results rest) => some { m with
        calls := m.calls.set call (settled hookType payload results rest answer) }
    | _ => none

def startedBy : Act P E → Option (HookEntry ℕ)
  | .trigger hookType payload =>
    (goOn hookType payload [] (relevant m.hooks hookType) : TriggerCall ℕ P E).running
  | .settle call answer =>
    match m.calls[call]? with
    | some (.waits hookType _ payload results rest) =>
      (settled hookType payload results rest answer).running
    | _ => none
  | _ => none

/-- From here on no handler of the plugin is started that was registered among the first `n` ones.
-/
def NeverStarts (pluginId : String) (n : ℕ) : Prop :=
  ∀ acts u a entry, run step m acts = some u → startedBy u a = some entry →
    entry.pluginId = pluginId → n ≤ entry.handler

/-- The handlers that the manager can still start. -/
structure Pending (Q : HookEntry ℕ → Prop) (m : Manager P E) : Prop where
  hooks : ∀ entry ∈ m.hooks, Q entry
  calls : ∀ call ∈ m.calls, ∀ entry ∈ call.ahead, Q entry

theorem mem_register {H : Type} (hooks : List (HookEntry H)) (entry e : HookEntry H) :
    e ∈ register hooks entry ↔ e ∈ hooks ∨ e = entry := by
  unfold register stableSort
  rw [mem_insertionSort, mem_append, mem_singleton]

variable {hookType : HookType}

theorem mem_relevant {H : Type} {hooks : List (HookEntry H)}
    {e : HookEntry H} (h : e ∈ relevant hooks hookType) : e ∈ hooks :=
  (mem_filter.mp h).1

variable {Q : HookEntry ℕ → Prop} {m u : Manager P E}

/-- What holds of all handlers that can still start is kept if it holds of a new one. -/
theorem Pending.step (h : Pending Q m) (a : Act P E)
    (hnew : ∀ pluginId hookType priority, a = .register pluginId hookType priority →
      Q ⟨pluginId, hookType, priority, m.registered⟩)
    (hstep : step m a = some u) : Pending Q u := by
  cases a with
  | register pluginId hookType priority =>
    cases hstep
    refine ⟨?_, h.calls⟩
    intro entry hentry
    rcases (mem_register m.hooks _ entry).mp hentry with hold | rfl
    · exact h.hooks entry hold
    · exact hnew pluginId hookType priority rfl
  | unregisterPlugin pluginId =>
    cases hstep
    exact ⟨fun entry hentry => h.hooks entry (mem_filter.mp hentry).1, h.calls⟩
  | trigger hookType payload =>
    cases hstep
    refine ⟨h.hooks, ?_⟩
    intro call hcall entry hentry
    rcases mem_append.mp hcall with hold | hnewcall
    · exact h.calls call hold entry hentry
    · rw [mem_singleton.mp hnewcall, ahead_goOn] at hentry
      exact h.hooks entry (mem_relevant (mem_of_mem_tail hentry))
  | settle k answer =>
    simp only [HookRuns.step] at hstep
    split at hstep
    · next hookType running payload results rest hcall =>
      cases hstep
      refine ⟨h.hooks, ?_⟩
      intro call hmem entry hentry
      rcases mem_or_eq_of_mem_set hmem with hold | rfl
      · exact h.calls call hold entry hentry
      · refine h.calls _ (mem_of_getElem? hcall) entry ?_
        rcases settled_cases hookType payload results rest answer with ⟨-, hend⟩ | ⟨-, hgoes⟩
        · rw [hend] at hentry
          exact absurd hentry not_mem_nil
        · rw [hgoes] at hentry
          exact mem_of_mem_tail hentry
    · cases hstep

theorem Pending.started (h : Pending Q m) (a : Act P E)
    (entry : HookEntry ℕ) (hstart : startedBy m a = some entry) : Q entry := by
  unfold startedBy at hstart
  split at hstart
  · rw [running_goOn] at hstart
    exact h.hooks entry (mem_relevant (mem_of_mem_head? hstart))
  · next k answer =>
    split at hstart
    · next hookType running payload results rest hcall =>
      refine h.calls _ (mem_of_getElem? hcall) entry ?_
      rcases settled_cases hookType payload results rest answer with ⟨hend, -⟩ | ⟨hgoes, -⟩
      · rw [hend] at hstart
        cases hstart
      · rw [hgoes] at hstart
        exact mem_of_mem_head? hstart
    · cases hstart
  · cases hstart

theorem le_registered_step {a : Act P E} (hstep : step m a = some u) :
    m.registered ≤ u.registered := by
  cases a with
  | register pluginId hookType priority =>
    cases hstep
    exact Nat.le_succ _
  | settle k answer =>
    simp only [step] at hstep
    split at hstep
    · cases hstep
      exact Nat.le_refl _
    · cases hstep
  | _ =>
    cases hstep
    exact Nat.le_refl _

variable {acts : List (Act P E)}

theorem registered_before
    (hrun : run step init acts = some m) : Pending (fun e => e.handler < m.registered) m := by
  refine invariant step (fun m : Manager P E => Pending (fun e => e.handler < m.registered) m)
    ⟨by simp [init], by simp [init]⟩ ?_ hrun
  intro s a u h hstep
  have hle := le_registered_step hstep
  have hwide : Pending (fun e => e.handler < u.registered) s :=
    ⟨fun e he => lt_of_lt_of_le (h.hooks e he) hle,
      fun c hc e he => lt_of_lt_of_le (h.calls c hc e he) hle⟩
  refine hwide.step a ?_ hstep
  intro pluginId hookType priority ha
  subst ha
  cases hstep
  exact Nat.lt_succ_self _

variable {pluginId : String}

theorem neverStarts_of_pending {n : ℕ} (hn : n ≤ m.registered)
    (h : Pending (fun e => e.pluginId = pluginId → n ≤ e.handler) m) :
    NeverStarts m pluginId n := by
  intro acts u a entry hrun hstart
  have hinv : n ≤ u.registered ∧ Pending (fun e => e.pluginId = pluginId → n ≤ e.handler) u := by
    refine invariant step (fun u : Manager P E => n ≤ u.registered ∧
      Pending (fun e => e.pluginId = pluginId → n ≤ e.handler) u) ⟨hn, h⟩ ?_ hrun
    intro s b v hs hstep
    refine ⟨hs.1.trans (le_registered_step hstep), hs.2.step b ?_ hstep⟩
    intro _ _ _ _ _
    exact hs.1
  exact hinv.2.started a entry hstart

theorem exists_start {k : ℕ} {entry : HookEntry ℕ} {rest : List (HookEntry ℕ)}
    (hmem : entry ∈ rest) (m : Manager P E) (running : HookEntry ℕ)
    {payload : P} (results : List (HookHandlerResult P))
    (hcall : m.calls[k]? = some (.waits hookType running payload results rest)) :
    ∃ acts u a, run step m acts = some u ∧ startedBy u a = some entry := by
  induction rest generalizing m running results with
  | nil => exact absurd hmem List.not_mem_nil
  | cons next rest ih =>
    -- the running handler answers continue, and the next one is started
    have hsettled : (settled hookType payload results (next :: rest) (.ok ⟨.proceed, none, none⟩) :
        TriggerCall ℕ P E) =
        .waits hookType next payload (results ++ [⟨.proceed, none, none⟩]) rest := by
      simp [settled, goOn]
    by_cases hnext : entry = next
    · refine ⟨[], m, .settle k (.ok ⟨.proceed, none, none⟩), rfl, ?_⟩
      simp only [startedBy, hcall, hsettled, hnext]
      rfl
    · have hlater : entry ∈ rest := (List.mem_cons.mp hmem).resolve_left hnext
      have hlen : k < m.calls.length := (List.getElem?_eq_some_iff.mp hcall).1
      obtain ⟨v, hstep, hv⟩ : ∃ v, step m (.settle k (.ok ⟨.proceed, none, none⟩)) = some v ∧
          v.calls[k]? =
            some (.waits hookType next payload (results ++ [⟨.proceed, none, none⟩]) rest) := by
        simp only [step, hcall, hsettled]
        exact ⟨_, rfl, List.getElem?_set_self hlen⟩
      obtain ⟨acts, u, a, hrun, hstart⟩ := ih hlater v next _ hv
      refine ⟨.settle k (.ok ⟨.proceed, none, none⟩) :: acts, u, a, ?_, hstart⟩
      rw [run_cons, hstep]
      exact hrun

theorem neverStarts_iff
    (hrun : run step init acts = some m) (hstep : step m (.unregisterPlugin pluginId) = some u) :
    NeverStarts u pluginId m.registered ↔
      ∀ call ∈ m.calls, ∀ entry ∈ call.ahead, entry.pluginId ≠ pluginId := by
  have hbefore := registered_before hrun
  cases hstep
  constructor
  · intro hnever call hcall entry hentry hplugin
    obtain ⟨k, hk⟩ := mem_iff_getElem?.mp hcall
    have hold : entry.handler < m.registered := hbefore.calls call hcall entry hentry
    cases call with
    | waits hookType running payload results rest =>
      obtain ⟨more, v, a, hmore, hstart⟩ := exists_start hentry
        { m with hooks := unregisterPlugin m.hooks pluginId } running results hk
      exact absurd (hnever more v a entry hmore hstart hplugin) (by omega)
    | _ => exact absurd hentry not_mem_nil
  · intro hahead
    refine neverStarts_of_pending (Nat.le_refl _) ⟨?_, ?_⟩
    · intro entry hentry hplugin
      have hkept := (mem_filter.mp hentry).2
      simp [hplugin] at hkept
    · intro call hcall entry hentry hplugin
      exact absurd hplugin (hahead call hcall entry hentry)

end System

/-- Handlers are isolated exactly if none rejects; a removed plugin is not started again exactly if
no waiting call has one of its handlers ahead. -/
theorem hooks_isolated_iff {P W E : Type} :
    (∀ (calls : List (Call (Handler P W E))) (hookType : HookType) (payload : P) (w : W),
      hookType ≠ .beforeAction →
      (Isolates calls hookType payload w ↔
        NoneRejects payload (relevant (hooksAfter calls) hookType) w)) ∧
    ∀ (acts : List (Act P E)) (m u : Manager P E) (pluginId : String),
      run step init acts = some m → step m (.unregisterPlugin pluginId) = some u →
      (NeverStarts u pluginId m.registered ↔
        ∀ call ∈ m.calls, ∀ entry ∈ call.ahead, entry.pluginId ≠ pluginId) :=
  ⟨fun calls _ payload w hother => isolates_iff calls hother payload w,
    fun _ _ _ _ hrun hstep => neverStarts_iff hrun hstep⟩

def answers : Handler ℕ Unit String := fun _ w => (.ok ⟨.proceed, none, none⟩, w)

def rejects : Handler ℕ Unit String := fun _ w => (.error "offline", w)

def twoListeners (first : Handler ℕ Unit String) : List (Call (Handler ℕ Unit String)) :=
  [.register ⟨"mail", .onEvent, 1, first⟩, .register ⟨"notes", .onEvent, 2, answers⟩]

def removedInBetween : List (Act ℕ String) :=
  [.register "mail" .onEvent 1, .register "notes" .onEvent 2, .trigger .onEvent 0]

/-- Listeners that answer are isolated; a plugin running already is not started again. -/
theorem hooks_isolated_sample :
    Isolates (twoListeners answers) .onEvent 0 () ∧
    ∃ m u, run step init removedInBetween = some m ∧
      step m (.unregisterPlugin "mail") = some u ∧ NeverStarts u "mail" m.registered := by
  have hboth := @hooks_isolated_iff ℕ Unit String
  obtain ⟨m, hrun, hahead⟩ : ∃ m, run step init removedInBetween = some m ∧
      m.calls.map (fun call => call.ahead.map HookEntry.pluginId) = [["notes"]] :=
    ⟨_, rfl, by decide +kernel⟩
  refine ⟨(hboth.1 (twoListeners answers) .onEvent 0 () (by decide)).mpr ?_, m, _, hrun, rfl,
    (hboth.2 removedInBetween m _ "mail" hrun rfl).mpr ?_⟩
  · refine noneRejects_of_answers () ?_
    intro entry hentry w
    have hlive := (ranked_hooksAfter (twoListeners answers)).perm.mem_iff.mp (mem_relevant hentry)
    have hhandler : entry.handler = answers := by
      rcases mem_pair.mp hlive with rfl | rfl <;> rfl
    rw [hhandler]
    exact ⟨_, _, rfl⟩
  · intro call hcall entry hentry hmail
    have hids : call.ahead.map HookEntry.pluginId ∈ [["notes"]] := by
      rw [← hahead]
      exact mem_map_of_mem hcall
    have hid : entry.pluginId ∈ ["notes"] := by
      rw [← mem_singleton.mp hids]
      exact mem_map_of_mem hentry
    rw [hmail] at hid
    revert hid
    decide

/-- A rejecting listener stops the next one; a removed plugin is started by a waiting trigger. -/
theorem hooks_not_isolated :
    ((trigger (hooksAfter (twoListeners rejects)) .onEvent 0 ()).started.map
        (fun x => x.1.pluginId) = ["mail"] ∧
      (trigger (hooksAfter (twoListeners rejects)) .onEvent 0 ()).rejected = some "offline") ∧
    ∃ m u entry, run step init removedInBetween = some m ∧
      step m (.unregisterPlugin "notes") = some u ∧
      startedBy u (.settle 0 (.ok ⟨.proceed, none, none⟩)) = some entry ∧
      entry.pluginId = "notes" ∧ ¬ NeverStarts u "notes" m.registered := by
  refine ⟨⟨by decide +kernel, by decide +kernel⟩, ?_⟩
  obtain ⟨m, hrun, u, hstep, entry, hstart, hplugin, hold⟩ : ∃ m : Manager ℕ String,
      run step init removedInBetween = some m ∧ ∃ u,
      step m (.unregisterPlugin "notes") = some u ∧ ∃ entry,
      startedBy u (.settle 0 (.ok ⟨.proceed, none, none⟩)) = some entry ∧
      entry.pluginId = "notes" ∧ entry.handler < m.registered :=
    ⟨_, rfl, _, rfl, _, rfl, by decide +kernel, by decide +kernel⟩
  refine ⟨m, u, entry, hrun, hstep, hstart, hplugin, ?_⟩
  intro hnever
  have hlate := hnever [] u _ entry rfl hstart hplugin
  omega

end IronGolem.HookRuns
