import Mathlib.Data.List.Induction
import Mathlib.Data.Rat.Cast.Order
import IronGolem.StableSorts

/-!
The hook manager of the plugin SDK. Registrations are kept sorted by priority; the sort of the
platform is stable, so equal priorities stay in the order of their registration. A trigger runs the
handlers of one type in that order.
-/

namespace IronGolem.HookPipeline

open StableSorts List

inductive HookType where
  | beforeAction
  | afterAction
  | onEvent
  | onSchedule
  | onApproval
  deriving DecidableEq, Repr

structure HookEntry (H : Type) where
  pluginId : String
  hookType : HookType
  priority : ℚ
  handler : H

section Registry

variable {H : Type} (hooks : List (HookEntry H))

/-- The entry is pushed and the array sorted by the difference of the priorities. -/
def register (entry : HookEntry H) : List (HookEntry H) :=
  stableSort HookEntry.priority (hooks ++ [entry])

def unregisterPlugin (pluginId : String) : List (HookEntry H) :=
  hooks.filter (fun h => decide (h.pluginId ≠ pluginId))

def relevant (hookType : HookType) : List (HookEntry H) :=
  hooks.filter (fun h => decide (h.hookType = hookType))

inductive Call (H : Type) where
  | register (entry : HookEntry H)
  | unregisterPlugin (pluginId : String)

def apply : Call H → List (HookEntry H)
  | .register entry => register hooks entry
  | .unregisterPlugin pluginId => unregisterPlugin hooks pluginId

def hooksAfter (calls : List (Call H)) : List (HookEntry H) := calls.foldl apply []

def Call.removes (pluginId : String) : Call H → Bool
  | .register _ => false
  | .unregisterPlugin other => decide (other = pluginId)

def live : List (Call H) → List (HookEntry H)
  | [] => []
  | .register entry :: calls =>
    if calls.any (Call.removes entry.pluginId) then live calls else entry :: live calls
  | .unregisterPlugin _ :: calls => live calls

variable (calls : List (Call H))

theorem live_register (entry : HookEntry H) :
    live (calls ++ [.register entry]) = live calls ++ [entry] := by
  induction calls with
  | nil => rfl
  | cons call calls ih =>
    cases call with
    | register e =>
      simp only [cons_append, live, any_append, ih]
      simp only [any_cons, any_nil, Call.removes, Bool.or_false]
      split <;> rfl
    | unregisterPlugin pluginId => exact ih

theorem live_unregisterPlugin (pluginId : String) :
    live (calls ++ [.unregisterPlugin pluginId]) = unregisterPlugin (live calls) pluginId := by
  induction calls with
  | nil => rfl
  | cons call calls ih =>
    cases call with
    | register e =>
      simp only [cons_append, live, any_append, ih]
      simp only [any_cons, any_nil, Call.removes, Bool.or_false, unregisterPlugin]
      by_cases hlater : calls.any (Call.removes e.pluginId) = true
      · rw [hlater, Bool.true_or, if_pos rfl, if_pos rfl]
      · rw [Bool.not_eq_true] at hlater
        rw [hlater, Bool.false_or, if_neg Bool.false_ne_true]
        by_cases hplugin : e.pluginId = pluginId
        · rw [if_pos (by simp [hplugin]), filter_cons_of_neg (by simp [hplugin])]
        · have hother : ¬ pluginId = e.pluginId := fun h => hplugin h.symm
          rw [if_neg (by simp [hother]), filter_cons_of_pos (by simp [hplugin])]
    | unregisterPlugin other => exact ih

theorem ranked_hooksAfter : Ranked HookEntry.priority (hooksAfter calls) (live calls) := by
  induction calls using reverseRecOn with
  | nil => exact Ranked.nil
  | append_singleton calls call ih =>
    unfold hooksAfter
    rw [foldl_append]
    cases call with
    | register entry =>
      rw [live_register]
      exact ih.append entry
    | unregisterPlugin pluginId =>
      rw [live_unregisterPlugin]
      exact ih.filter _

end Registry

/-- The first action is called continue in the source. -/
inductive HookAction where
  | proceed
  | abort
  | modify
  deriving DecidableEq, Repr

structure HookHandlerResult (P : Type) where
  action : HookAction
  modifiedPayload : Option P := none
  reason : Option String := none
  deriving DecidableEq, Repr

/-- A handler may change the world, and answers a result, rejects or throws. -/
abbrev Handler (P W E : Type) := P → W → Except E (HookHandlerResult P) × W

/-- What a trigger did: handlers started, results, last payload, error, and the world after it. -/
structure Triggered (P W E : Type) where
  started : List (HookEntry (Handler P W E) × P)
  results : List (HookHandlerResult P)
  finalPayload : P
  rejected : Option E
  world : W

section Trigger

variable {P W E : Type}

def Triggered.after (t : Triggered P W E) (entry : HookEntry (Handler P W E)) (payload : P)
    (result : HookHandlerResult P) : Triggered P W E :=
  { t with started := (entry, payload) :: t.started, results := result :: t.results }

/-- The loop over the relevant entries. -/
def runFrom (hookType : HookType) :
    List (HookEntry (Handler P W E)) → P → W → Triggered P W E
  | [], currentPayload, w => ⟨[], [], currentPayload, none, w⟩
  | entry :: rest, currentPayload, w =>
    match entry.handler currentPayload w with
    | (.error err, w') => ⟨[(entry, currentPayload)], [], currentPayload, some err, w'⟩
    | (.ok result, w') =>
      if hookType = .beforeAction then
        if result.action = .abort then
          ⟨[(entry, currentPayload)], [result], currentPayload, none, w'⟩
        else
          let next := if result.action = .modify then result.modifiedPayload.getD currentPayload
            else currentPayload
          (runFrom hookType rest next w').after entry currentPayload result
      else (runFrom hookType rest currentPayload w').after entry currentPayload result

def trigger (hooks : List (HookEntry (Handler P W E))) (hookType : HookType) (payload : P) (w : W) :
    Triggered P W E :=
  runFrom hookType (relevant hooks hookType) payload w

def HookHandlerResult.handsOn (r : HookHandlerResult P) : Option P :=
  if r.action = .modify then r.modifiedPayload else none

def latest (payload : P) (results : List (HookHandlerResult P)) : P :=
  ((results.filterMap HookHandlerResult.handsOn).getLast?).getD payload

/-- What the pipeline over the entries in `order` should do with a payload. -/
structure Pipeline (order : List (HookEntry (Handler P W E))) (payload : P) (w : W)
    (t : Triggered P W E) : Prop where
  returns : t.rejected = none
  inOrder : (t.started.map Prod.fst) <+: order
  paired : t.results.length = t.started.length
  answered : ∃ worlds : ℕ → W, worlds 0 = w ∧ worlds t.started.length = t.world ∧
    ∀ i entry fed result, t.started[i]? = some (entry, fed) → t.results[i]? = some result →
      entry.handler fed (worlds i) = (.ok result, worlds (i + 1))
  fed : ∀ i entry p, t.started[i]? = some (entry, p) → p = latest payload (t.results.take i)
  abortsLast : ∀ i result, t.results[i]? = some result → result.action = .abort →
    i + 1 = t.results.length
  complete : t.started.length < order.length →
    ∃ result, t.results.getLast? = some result ∧ result.action = .abort
  final : t.finalPayload = latest payload t.results

theorem latest_cons (payload : P) (r : HookHandlerResult P) (results : List (HookHandlerResult P)) :
    latest payload (r :: results) = latest (r.handsOn.getD payload) results := by
  unfold latest
  cases hr : r.handsOn with
  | none => rw [filterMap_cons_none hr, Option.getD_none]
  | some p =>
    rw [filterMap_cons_some hr, getLast?_cons, Option.getD_some, Option.getD_some]

theorem getD_handsOn (r : HookHandlerResult P) (payload : P) :
    r.handsOn.getD payload =
      if r.action = .modify then r.modifiedPayload.getD payload else payload := by
  unfold HookHandlerResult.handsOn
  split <;> rfl

variable {entry : HookEntry (Handler P W E)} {payload : P} {w w' : W} {result : HookHandlerResult P}

theorem pipeline_abort (rest : List (HookEntry (Handler P W E)))
    (hanswer : entry.handler payload w = (.ok result, w')) (habort : result.action = .abort) :
    Pipeline (entry :: rest) payload w ⟨[(entry, payload)], [result], payload, none, w'⟩ := by
  constructor
  · rfl
  · exact ⟨rest, rfl⟩
  · rfl
  · refine ⟨fun i => if i = 0 then w else w', rfl, rfl, ?_⟩
    intro i e fed r he hr
    cases i with
    | zero =>
      cases he
      cases hr
      exact hanswer
    | succ i => simp at he
  · intro i e p he
    cases i with
    | zero =>
      cases he
      rfl
    | succ i => simp at he
  · intro i r hr _
    cases i with
    | zero => rfl
    | succ i => simp at hr
  · intro _
    exact ⟨result, rfl, habort⟩
  · simp [latest, HookHandlerResult.handsOn, habort]

/-- A handler that does not abort hands its payload to the pipeline of the rest. -/
theorem Pipeline.after {rest : List (HookEntry (Handler P W E))} {t : Triggered P W E}
    (h : Pipeline rest (result.handsOn.getD payload) w' t)
    (hanswer : entry.handler payload w = (.ok result, w')) (hgoes : result.action ≠ .abort) :
    Pipeline (entry :: rest) payload w (t.after entry payload result) := by
  constructor
  · exact h.returns
  · simpa [Triggered.after] using h.inOrder
  · simpa [Triggered.after] using h.paired
  · obtain ⟨worlds, hzero, hend, hworlds⟩ := h.answered
    refine ⟨fun i => if i = 0 then w else worlds (i - 1), rfl, ?_, ?_⟩
    · simpa [Triggered.after] using hend
    · intro i e fed r he hr
      cases i with
      | zero =>
        cases he
        cases hr
        simpa [hzero] using hanswer
      | succ i =>
        have hnext := hworlds i e fed r (by simpa [Triggered.after] using he)
          (by simpa [Triggered.after] using hr)
        simpa using hnext
  · intro i e p he
    cases i with
    | zero =>
      cases he
      rfl
    | succ i =>
      have hfed := h.fed i e p (by simpa [Triggered.after] using he)
      rw [hfed]
      exact (latest_cons payload result (t.results.take i)).symm
  · intro i r hr habort
    cases i with
    | zero =>
      cases hr
      exact absurd habort hgoes
    | succ i =>
      have hlast := h.abortsLast i r (by simpa [Triggered.after] using hr) habort
      simpa [Triggered.after] using hlast
  · intro hlen
    obtain ⟨r, hr, habort⟩ := h.complete (by simpa [Triggered.after] using hlen)
    refine ⟨r, ?_, habort⟩
    simp only [Triggered.after, getLast?_cons, hr, Option.getD_some]
  · rw [show (t.after entry payload result).finalPayload = t.finalPayload from rfl, h.final]
    exact (latest_cons payload result t.results).symm

theorem runFrom_pipeline {order : List (HookEntry (Handler P W E))} (payload : P) (w : W)
    (hnormal : ∀ e ∈ order, ∀ p w, ∃ r w', e.handler p w = (.ok r, w')) :
    Pipeline order payload w (runFrom .beforeAction order payload w) := by
  induction order generalizing payload w with
  | nil =>
    refine ⟨rfl, nil_prefix, rfl, ⟨fun _ => w, rfl, rfl, ?_⟩, ?_, ?_, ?_, rfl⟩
    · intro i e fed r he
      simp [runFrom] at he
    · intro i e p he
      simp [runFrom] at he
    · intro i r hr
      simp [runFrom] at hr
    · intro hlen
      simp [runFrom] at hlen
  | cons entry rest ih =>
    obtain ⟨result, w', hanswer⟩ := hnormal entry mem_cons_self payload w
    have hrest := fun p => ih p w' fun e he => hnormal e (mem_cons_of_mem entry he)
    unfold runFrom
    simp only [hanswer, if_pos]
    split
    · next habort => exact pipeline_abort rest hanswer habort
    · next hgoes =>
      rw [← getD_handsOn]
      exact (hrest _).after hanswer hgoes

end Trigger

/-- Before an action the pipeline runs over the handlers, by priority with ties as registered. -/
theorem trigger_beforeAction_pipeline {P W E : Type} (calls : List (Call (Handler P W E)))
    (payload : P) (w : W)
    (hnormal : ∀ e ∈ live calls, e.hookType = .beforeAction →
      ∀ p w, ∃ r w', e.handler p w = (.ok r, w')) :
    ∃ order, order.Perm (relevant (live calls) .beforeAction) ∧
      Ranked HookEntry.priority order (relevant (live calls) .beforeAction) ∧
      Pipeline order payload w (trigger (hooksAfter calls) .beforeAction payload w) := by
  have hranked : Ranked HookEntry.priority (relevant (hooksAfter calls) .beforeAction)
      (relevant (live calls) .beforeAction) := (ranked_hooksAfter calls).filter _
  refine ⟨_, hranked.perm, hranked, runFrom_pipeline payload w ?_⟩
  intro e he
  obtain ⟨hlive, htype⟩ := mem_filter.mp (hranked.perm.mem_iff.mp he)
  exact hnormal e hlive (by simpa using htype)

def answering (r : HookHandlerResult ℕ) : Handler ℕ Unit String := fun _ w => (.ok r, w)

def sampleCalls : List (Call (Handler ℕ Unit String)) :=
  [.register ⟨"audit", .beforeAction, 100, answering ⟨.abort, none, some "no"⟩⟩,
    .register ⟨"gone", .beforeAction, 1, answering ⟨.modify, some 9, none⟩⟩,
    .register ⟨"limits", .beforeAction, 50, answering ⟨.modify, some 7, none⟩⟩,
    .unregisterPlugin "gone",
    .register ⟨"late", .beforeAction, 100, answering ⟨.proceed, none, none⟩⟩]

/-- The limits run first, the audit aborts with their payload, and the late hook does not run. -/
theorem trigger_beforeAction_sample :
    ((trigger (hooksAfter sampleCalls) .beforeAction 3 ()).started.map
      (fun x => (x.1.pluginId, x.2)) = [("limits", 3), ("audit", 7)]) ∧
    ∃ order, order.Perm (relevant (live sampleCalls) .beforeAction) ∧
      Ranked HookEntry.priority order (relevant (live sampleCalls) .beforeAction) ∧
      Pipeline order 3 () (trigger (hooksAfter sampleCalls) .beforeAction 3 ()) := by
  refine ⟨by decide +kernel, trigger_beforeAction_pipeline sampleCalls 3 () ?_⟩
  intro e he _ p w
  simp only [sampleCalls, live, Call.removes, any_cons, any_nil] at he
  simp at he
  rcases he with rfl | rfl | rfl <;> exact ⟨_, _, rfl⟩

end IronGolem.HookPipeline
