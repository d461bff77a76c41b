import Mathlib.Algebra.Order.Field.Basic
import Mathlib.Tactic.Linarith
import Mathlib.Tactic.Ring

/-!
Token buckets with exact numbers. A bucket holds tokens as of a time, refills at a constant rate
up to a bound, and a bucket that is not there counts as full. What a bucket can still give
within a window of time is its level and what flows in until the window ends; taking tokens
and letting time pass never raises that allowance.
-/
namespace IronGolem.TokenBuckets

structure Bucket (K : Type*) where
  tokens : K
  lastRefill : K
  deriving DecidableEq

variable {K : Type*} [Field K] [LinearOrder K] [IsStrictOrderedRing K] (rate burst : K)

def level (b : Bucket K) (now : K) : K := min burst (b.tokens + (now - b.lastRefill) * rate)

def available : Option (Bucket K) → K → K
  | none, _ => burst
  | some b, now => level rate burst b now

def take (b : Option (Bucket K)) (now : K) : Bucket K × Bool :=
  if available rate burst b now < 1 then (⟨available rate burst b now, now⟩, false)
  else (⟨available rate burst b now - 1, now⟩, true)

def SoundAt (now : K) (b : Option (Bucket K)) : Prop :=
  ∀ c ∈ b, 0 ≤ c.tokens ∧ c.lastRefill ≤ now

variable {now later : K}

omit [IsStrictOrderedRing K] in
theorem SoundAt.mono {b : Option (Bucket K)} (h : SoundAt now b)
    (hle : now ≤ later) : SoundAt later b :=
  fun c hc => ⟨(h c hc).1, (h c hc).2.trans hle⟩

omit [IsStrictOrderedRing K] in
theorem available_le_burst (b : Option (Bucket K)) (now : K) : available rate burst b now ≤
    burst := by
  cases b with
  | none => exact le_refl burst
  | some b => exact min_le_left _ _

theorem available_nonneg (hrate : 0 ≤ rate) (hburst : 0 ≤ burst) {b : Option (Bucket K)}
    (hb : SoundAt now b) : 0 ≤ available rate burst b now := by
  cases b with
  | none => exact hburst
  | some b =>
    obtain ⟨htokens, hrefill⟩ := hb b rfl
    have hflow : 0 ≤ (now - b.lastRefill) * rate := mul_nonneg (by linarith) hrate
    exact le_min hburst (by linarith)

theorem available_le_add (hrate : 0 ≤ rate) (b : Option (Bucket K)) (hle : now ≤ later) :
    available rate burst b later ≤ available rate burst b now + (later - now) * rate := by
  have hflow : 0 ≤ (later - now) * rate := mul_nonneg (by linarith) hrate
  cases b with
  | none => simpa [available] using hflow
  | some b =>
    simp only [available, level]
    have hsplit : (later - b.lastRefill) * rate =
        (now - b.lastRefill) * rate + (later - now) * rate := by ring
    rcases le_total burst (b.tokens + (now - b.lastRefill) * rate) with hfull | hfull
    · rw [min_eq_left hfull]
      linarith [min_le_left burst (b.tokens + (later - b.lastRefill) * rate)]
    · rw [min_eq_right hfull, hsplit]
      linarith [min_le_right burst
        (b.tokens + ((now - b.lastRefill) * rate + (later - now) * rate))]

theorem available_eq_burst (hrate : 0 ≤ rate) {b : Bucket K} {idle : K}
    (htokens : 0 ≤ b.tokens) (hidle : b.lastRefill < now - idle) (hfull : burst ≤ rate * idle) :
    available rate burst (some b) now = burst := by
  have hflow : rate * idle ≤ rate * (now - b.lastRefill) :=
    mul_le_mul_of_nonneg_left (by linarith) hrate
  apply min_eq_left
  linarith [mul_comm rate (now - b.lastRefill)]

omit [IsStrictOrderedRing K] in
theorem available_fresh (tokens now : K) (h : tokens ≤ burst) :
    available rate burst (some ⟨tokens, now⟩) now = tokens := by
  simp only [available, level]
  rw [sub_self, zero_mul, add_zero, min_eq_right h]

theorem available_take (b : Option (Bucket K)) (now : K) :
    available rate burst (some (take rate burst b now).1) now =
      available rate burst b now - if (take rate burst b now).2 then 1 else 0 := by
  have hle := available_le_burst rate burst b now
  unfold take
  split
  · rw [available_fresh rate burst _ _ hle]
    simp
  · rw [available_fresh rate burst _ _ (by linarith)]
    simp

theorem soundAt_take (hrate : 0 ≤ rate) (hburst : 0 ≤ burst) {b : Option (Bucket K)}
    (hb : SoundAt now b) : SoundAt now (some (take rate burst b now).1) := by
  have hnonneg := available_nonneg rate burst hrate hburst hb
  intro c hc
  rw [← Option.some.inj hc]
  unfold take
  split
  · exact ⟨hnonneg, le_refl now⟩
  · rename_i hone
    exact ⟨by linarith [not_lt.mp hone], le_refl now⟩

/-- What a bucket can still give: its level and the inflow within the window. -/
def allowance (start stop : K) (b : Option (Bucket K)) (now : K) : K :=
  if stop < now then 0
  else if start ≤ now then available rate burst b now + (stop - now) * rate
  else burst + (stop - start) * rate

section Window

variable (hrate : 0 ≤ rate) (hburst : 0 ≤ burst) (start stop : K) (hwindow : start ≤ stop)
  (b : Option (Bucket K))

include hrate hburst hwindow

theorem allowance_le (now : K) :
    allowance rate burst start stop b now ≤ burst + (stop - start) * rate := by
  have hle := available_le_burst rate burst b now
  have hwide : 0 ≤ (stop - start) * rate := mul_nonneg (by linarith) hrate
  unfold allowance
  split
  · linarith
  · split
    · have hflow : (stop - now) * rate ≤ (stop - start) * rate :=
        mul_le_mul_of_nonneg_right (by linarith) hrate
      linarith
    · exact le_refl _

theorem allowance_nonneg (hb : SoundAt now b) : 0 ≤ allowance rate burst start stop b now := by
  have hlevel := available_nonneg rate burst hrate hburst hb
  unfold allowance
  split
  · exact le_refl 0
  · split
    · rename_i hin _
      have hflow : 0 ≤ (stop - now) * rate := mul_nonneg (by linarith [not_lt.mp hin]) hrate
      linarith
    · have hwide : 0 ≤ (stop - start) * rate := mul_nonneg (by linarith) hrate
      linarith

theorem allowance_antitone (hle : now ≤ later) (hb : SoundAt now b) :
    allowance rate burst start stop b later ≤ allowance rate burst start stop b now := by
  by_cases hafter : stop < later
  · have hzero : allowance rate burst start stop b later = 0 := if_pos hafter
    rw [hzero]
    exact allowance_nonneg rate burst hrate hburst start stop hwindow b hb
  · by_cases hin : start ≤ now
    · have hflow := available_le_add rate burst hrate b hle
      unfold allowance
      rw [if_neg hafter, if_neg (not_lt.mpr (by linarith [not_lt.mp hafter])), if_pos
        (hin.trans hle), if_pos hin]
      linarith
    · have hfull : allowance rate burst start stop b now = burst + (stop - start) * rate := by
        unfold allowance
        rw [if_neg (not_lt.mpr (by linarith [not_lt.mp hafter])), if_neg hin]
      rw [hfull]
      exact allowance_le rate burst hrate hburst start stop hwindow b later

omit hrate hburst hwindow in
theorem allowance_take (now : K) :
    (if (take rate burst b now).2 = true ∧ start ≤ now ∧ now ≤ stop then 1 else 0) +
        allowance rate burst start stop (some (take rate burst b now).1) now ≤
      allowance rate burst start stop b now := by
  have htake := available_take rate burst b now
  unfold allowance
  by_cases hafter : stop < now
  · rw [if_pos hafter, if_neg (by simp [hafter]), if_pos hafter, add_zero]
  · rw [if_neg hafter, if_neg hafter]
    by_cases hin : start ≤ now
    · rw [if_pos hin, if_pos hin, htake]
      by_cases hok : (take rate burst b now).2 = true
      · rw [if_pos ⟨hok, hin, not_lt.mp hafter⟩, if_pos hok]
        linarith
      · rw [if_neg (fun h => hok h.1), if_neg hok]
        linarith
    · rw [if_neg hin, if_neg hin, if_neg (fun h => hin h.2.1), zero_add]

end Window

end IronGolem.TokenBuckets
