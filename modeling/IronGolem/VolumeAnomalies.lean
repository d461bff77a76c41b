import Mathlib.Data.List.Induction
import Mathlib.Algebra.Order.Ring.Unbundled.Rat
import Mathlib.Data.Set.Basic

/-!
The volume part of a threat assessment: recent requests are counted in one bucket per key, and the
key joins tenant and user by a colon. The count is that of one caller exactly when no two callers
share a key.
-/
namespace IronGolem.VolumeAnomalies

open List

structure DetectorConfig where
  anomalyWindow : ℤ
  anomalyMaxVolume : ℤ

variable (c : DetectorConfig)

def DetectorConfig.window : ℤ :=
  if c.anomalyWindow ≤ 0 then 5 * 60 * 1000000000 else c.anomalyWindow

def DetectorConfig.maxVolume : ℤ :=
  if c.anomalyMaxVolume ≤ 0 then 100 else c.anomalyMaxVolume

/-- The part of a request that names its caller. -/
structure CheckRequest where
  tenantID : String
  userID : String
  deriving DecidableEq

structure ThreatFinding where
  detector : String
  threatType : String
  score : ℚ
  description : String

def anomalyKey (req : CheckRequest) : String :=
  if req.userID ≠ "" then req.tenantID ++ ":" ++ req.userID else req.tenantID

def score (buckets : String → List ℤ) (key : String) (now : ℤ) :
    (String → List ℤ) × List ThreatFinding :=
  let cutoff := now - c.window
  let pruned := (buckets key).filter (fun t => cutoff < t) ++ [now]
  let ratio : ℚ := pruned.length / c.maxVolume
  (Function.update buckets key pruned,
    if (pruned.length : ℤ) ≤ c.maxVolume then []
    else [⟨"anomaly", "volume_anomaly", min 1 (1 / 2 + (ratio - 1) / 4),
      "request volume exceeds threshold for source key"⟩])

structure Call where
  req : CheckRequest
  now : ℤ

variable (calls : List Call)

def bucketsAfter : String → List ℤ :=
  calls.foldl (fun buckets x => (score c buckets (anomalyKey x.req) x.now).1) (fun _ => [])

/-- What the anomaly scorer contributes to the assessment of a call after earlier ones. -/
def assess (call : Call) : List ThreatFinding :=
  (score c (bucketsAfter c calls) (anomalyKey call.req) call.now).2

def ReportsVolume (call : Call) : Prop :=
  ∃ f ∈ assess c calls call, f.threatType = "volume_anomaly"

variable {c}

theorem one_le_maxVolume : 1 ≤ c.maxVolume := by
  unfold DetectorConfig.maxVolume
  split <;> omega

theorem window_pos : 0 < c.window := by
  unfold DetectorConfig.window
  split <;> omega

/-- Pruning forgets only what later calls would not count. -/
theorem filter_bucketsAfter (key : String) {cutoff : ℤ} {calls : List Call}
    (hcutoff : ∀ x ∈ calls, x.now - c.window ≤ cutoff) :
    (bucketsAfter c calls key).filter (fun t => cutoff < t) =
      ((calls.filter (fun x => anomalyKey x.req = key)).map Call.now).filter
        (fun t => cutoff < t) := by
  induction calls using reverseRecOn with
  | nil => rfl
  | append_singleton calls x ih =>
    have hbefore := ih (fun y hy => hcutoff y (mem_append_left _ hy))
    have hlast : x.now - c.window ≤ cutoff := hcutoff x (by simp)
    have hstep : bucketsAfter c (calls ++ [x]) = Function.update (bucketsAfter c calls)
        (anomalyKey x.req) ((bucketsAfter c calls (anomalyKey x.req)).filter
          (fun t => x.now - c.window < t) ++ [x.now]) := by
      simp [bucketsAfter, score]
    rw [hstep, filter_append, map_append, filter_append, ← hbefore]
    by_cases hkey : anomalyKey x.req = key
    · subst hkey
      have hagain : ∀ t ∈ bucketsAfter c calls (anomalyKey x.req),
          (decide (cutoff < t) && decide (x.now - c.window < t)) = decide (cutoff < t) := by
        intro t _
        by_cases ht : cutoff < t
        · simp [ht, show x.now - c.window < t by omega]
        · simp [ht]
      rw [Function.update_self, filter_append, filter_filter, filter_congr hagain]
      simp
    · rw [Function.update_of_ne (Ne.symm hkey)]
      simp [hkey]

theorem reportsVolume_iff {calls : List Call} {call : Call} (hnow : ∀ x ∈ calls, x.now ≤ call.now) :
    ReportsVolume c calls call ↔ c.maxVolume < ((calls ++ [call]).filter (fun x =>
      call.now - c.window < x.now ∧ anomalyKey x.req = anomalyKey call.req)).length := by
  have hkept := filter_bucketsAfter (anomalyKey call.req)
    (fun x hx => Int.sub_le_sub_right (hnow x hx) c.window)
  have hcount : ((calls ++ [call]).filter (fun x =>
      call.now - c.window < x.now ∧ anomalyKey x.req = anomalyKey call.req)).length =
      ((bucketsAfter c calls (anomalyKey call.req)).filter
        (fun t => call.now - c.window < t) ++ [call.now]).length := by
    rw [hkept, filter_map, length_append, length_map, filter_filter, filter_append, length_append]
    simp [Int.sub_lt_self call.now window_pos]
  unfold ReportsVolume assess score
  rw [hcount]
  by_cases hfew : ((bucketsAfter c calls (anomalyKey call.req)).filter
      (fun t => call.now - c.window < t) ++ [call.now]).length ≤ c.maxVolume
  · simp only [hfew, if_true]
    simpa using hfew
  · simp only [hfew, if_false]
    simpa using hfew

/-- Volumes are counted per tenant and user exactly when no two callers share a key. -/
theorem reportsVolume_exact_iff (c : DetectorConfig) (callers : Set CheckRequest) :
    (∀ (calls : List Call) (call : Call), (∀ x ∈ calls ++ [call], x.req ∈ callers) →
        (calls ++ [call]).Pairwise (fun x y => x.now ≤ y.now) →
        (ReportsVolume c calls call ↔ c.maxVolume < ((calls ++ [call]).filter (fun x =>
          call.now - c.window < x.now ∧ x.req = call.req)).length)) ↔
      ∀ p ∈ callers, ∀ q ∈ callers, anomalyKey p = anomalyKey q → p = q := by
  constructor
  · intro hexact p hp q hq hkey
    by_contra hne
    -- As many calls of q as are allowed, and one of p.
    have hreport := hexact (replicate c.maxVolume.toNat ⟨q, 0⟩) ⟨p, 0⟩
      (by simp only [mem_append, mem_replicate, mem_singleton]; grind)
      (by simp [pairwise_append, pairwise_replicate])
    rw [reportsVolume_iff (by simp)] at hreport
    have hmax := one_le_maxVolume (c := c)
    simp [hkey, window_pos, Ne.symm hne] at hreport
    omega
  · intro hkeys calls call hcallers hordered
    have hnow : ∀ x ∈ calls, x.now ≤ call.now := by
      intro x hx
      exact (pairwise_append.mp hordered).2.2 x hx call (mem_singleton_self call)
    rw [reportsVolume_iff hnow]
    have hsame : ∀ x ∈ calls ++ [call],
        decide (call.now - c.window < x.now ∧ anomalyKey x.req = anomalyKey call.req) =
          decide (call.now - c.window < x.now ∧ x.req = call.req) := by
      intro x hx
      have hinj := hkeys _ (hcallers x hx) _ (hcallers call (by simp))
      exact decide_eq_decide.mpr (and_congr_right fun _ => ⟨hinj, fun h => by rw [h]⟩)
    rw [filter_congr hsame]

/-- The first call of user b of tenant a is reported after one of tenant a:b. -/
theorem reportsVolume_shared_key :
    let c : DetectorConfig := ⟨1, 1⟩
    let other : Call := ⟨⟨"a:b", ""⟩, 0⟩
    let call : Call := ⟨⟨"a", "b"⟩, 0⟩
    ReportsVolume c [other] call ∧ [other, call].filter (fun x => x.req = call.req) = [call] := by
  refine ⟨?_, rfl⟩
  rw [reportsVolume_iff (by simp)]
  decide

end IronGolem.VolumeAnomalies
