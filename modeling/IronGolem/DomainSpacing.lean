import IronGolem.TransitionRuns
import Mathlib.Data.Int.Notation

/-!
The per-domain rate limiter of the research service. Wait reads the last request of a domain, sleeps
outside the lock and then writes the time at which it goes on, whatever was written in between. The
requests are spaced exactly where each write finds the time that its call has read, or a time that
is old enough by then.
-/
namespace IronGolem.DomainSpacing

open TransitionRuns List Function

/-- Where a call of Wait stands, with the last request it has read. -/
inductive Wait
  | measuring (domain : String) (last : ℤ)
  | sleeping (domain : String) (last wakeAt : ℤ)
  | ready (domain : String) (last : Option ℤ)
  | returned (cancelled : Bool)
  deriving DecidableEq, Repr

structure RateLimiter where
  lastRequest : String → Option ℤ
  calls : ℕ → Option Wait
  clock : ℤ
  /-- The times written by the calls that returned nil. -/
  granted : List (String × ℤ)

inductive Move
  | read (domain : String)
  | since
  | wake
  | cancel
  | write

structure Act where
  c : ℕ
  move : Move
  now : ℤ

def newRateLimiter (now : ℤ) : RateLimiter := ⟨fun _ => none, fun _ => none, now, []⟩

variable (minInterval : ℤ)

def next (lastRequest : String → Option ℤ) (now : ℤ) : Move → Option Wait → Option Wait
  | .read domain, none => match lastRequest domain with
    | none => some (.ready domain none)
    | some last => some (.measuring domain last)
  | .since, some (.measuring domain last) =>
    let elapsed := now - last
    if elapsed < minInterval then some (.sleeping domain last (now + (minInterval - elapsed)))
    else some (.ready domain (some last))
  | .wake, some (.sleeping domain last wakeAt) =>
    if now < wakeAt then none else some (.ready domain (some last))
  | .cancel, some (.sleeping _ _ _) => some (.returned true)
  | _, _ => none

variable (s : RateLimiter)

def RateLimiter.goTo (c : ℕ) (now : ℤ) (w : Wait) : RateLimiter :=
  { s with calls := Function.update s.calls c (some w), clock := now }

def RateLimiter.grant (domain : String) (now : ℤ) : RateLimiter where
  lastRequest := Function.update s.lastRequest domain (some now)
  calls := s.calls
  clock := s.clock
  granted := s.granted ++ [(domain, now)]

def step (a : Act) : Option RateLimiter :=
  if a.now < s.clock then none
  else match a.move, s.calls a.c with
    | .write, some (.ready domain _) =>
      some ((s.goTo a.c a.now (.returned false)).grant domain a.now)
    | move, call => (next minInterval s.lastRequest a.now move call).map (s.goTo a.c a.now)

def Spaced : Prop := s.granted.Pairwise (fun a b => a.1 = b.1 → minInterval ≤ b.2 - a.2)

instance : Decidable (Spaced minInterval s) := inferInstanceAs (Decidable (Pairwise _ _))

def findsRead (a : Act) : Bool :=
  match a.move, s.calls a.c with
  | .write, some (.ready domain last) => s.lastRequest domain = last ∨
      (s.lastRequest domain).all (fun t => minInterval ≤ a.now - t)
  | _, _ => true

def Timely (now : ℤ) : Wait → Prop
  | .sleeping _ last wakeAt => wakeAt = last + minInterval
  | .ready _ (some last) => minInterval ≤ now - last
  | _ => True

/-- The map holds the newest granted time of each domain, and no call is ready too early. -/
structure Held : Prop where
  past : ∀ g ∈ s.granted, g.2 ≤ s.clock
  newest : ∀ g ∈ s.granted, ∃ t, s.lastRequest g.1 = some t ∧ g.2 ≤ t
  recorded : ∀ domain t, s.lastRequest domain = some t → (domain, t) ∈ s.granted
  timely : ∀ c w, s.calls c = some w → Timely minInterval s.clock w

variable {d : ℤ} {s t : RateLimiter} {a : Act} {now : ℤ} {c : ℕ} {w : Wait}

theorem Timely.mono {clock : ℤ} (h : Timely d clock w) (hnow : clock ≤ now) : Timely d now w := by
  match w with
  | .ready _ (some last) =>
    simp only [Timely] at h ⊢
    omega
  | .sleeping _ _ _ => exact h
  | .ready _ none | .measuring _ _ | .returned _ => trivial

theorem next_timely {found : String → Option ℤ} {move : Move} {call : Option Wait}
    (hcall : ∀ v ∈ call, Timely d now v)
    (h : next d found now move call = some w) : Timely d now w := by
  unfold next at h
  split at h
  · split at h <;> cases h <;> trivial
  · simp only at h
    split at h <;> cases h <;> simp only [Timely] <;> omega
  · have hwake := hcall _ rfl
    simp only [Timely] at hwake
    split at h <;> cases h
    simp only [Timely]
    omega
  · cases h
    trivial
  · cases h

theorem held_goTo (hs : Held d s) (hnow : s.clock ≤ now)
    (hw : Timely d now w) : Held d (s.goTo c now w) where
  past g hg := Int.le_trans (hs.past g hg) hnow
  newest := hs.newest
  recorded := hs.recorded
  timely := by
    intro k v hv
    change update s.calls c (some w) k = some v at hv
    by_cases hk : k = c
    · subst hk
      rw [update_self] at hv
      exact Option.some.inj hv ▸ hw
    · rw [update_of_ne hk] at hv
      exact (hs.timely k v hv).mono hnow

theorem held_grant (hs : Held d s) (domain : String) :
    Held d (s.grant domain s.clock) where
  past := by
    simp only [RateLimiter.grant, mem_append, mem_singleton]
    rintro g (hold | rfl)
    · exact hs.past g hold
    · exact Int.le_refl _
  newest := by
    simp only [RateLimiter.grant, mem_append, mem_singleton]
    rintro g (hold | rfl)
    · by_cases hd : g.1 = domain
      · exact ⟨s.clock, by rw [hd, update_self], hs.past g hold⟩
      · rw [update_of_ne hd]
        exact hs.newest g hold
    · exact ⟨s.clock, update_self _ _ _, Int.le_refl _⟩
  recorded := by
    intro k t ht
    change update s.lastRequest domain (some s.clock) k = some t at ht
    by_cases hd : k = domain
    · rw [hd, update_self, Option.some.injEq] at ht
      exact mem_append_right _ (by simp [hd, ht])
    · rw [update_of_ne hd] at ht
      exact mem_append_left _ (hs.recorded k t ht)
  timely := hs.timely

theorem held_step (hs : Held d s) (h : step d s a = some t) : Held d t := by
  unfold step at h
  split at h
  · cases h
  · rename_i hnow
    rw [Int.not_lt] at hnow
    split at h
    · cases h
      exact held_grant (held_goTo (w := .returned false) hs hnow trivial) _
    · obtain ⟨w, hw, rfl⟩ := Option.map_eq_some_iff.mp h
      exact held_goTo hs hnow (next_timely (fun v hv => (hs.timely _ v hv).mono hnow) hw)

theorem held_new (start : ℤ) : Held d (newRateLimiter start) := by
  constructor <;> simp [newRateLimiter]

theorem spaced_grant_iff (hs : Held d s) (hspaced : Spaced d s) (domain : String) :
    Spaced d (s.grant domain now) ↔ ∀ t ∈ s.lastRequest domain, d ≤ now - t := by
  unfold Spaced RateLimiter.grant
  rw [pairwise_append]
  constructor
  · intro h t ht
    exact h.2.2 (domain, t) (hs.recorded domain t ht) _ (mem_singleton_self _) rfl
  · intro h
    refine ⟨hspaced, pairwise_singleton _ _, ?_⟩
    intro g hg b hb hd
    rw [mem_singleton.mp hb] at hd ⊢
    obtain ⟨t, ht, hle⟩ := hs.newest g hg
    rw [hd] at ht
    have hlast := h t ht
    change d ≤ now - g.2
    omega

theorem spaced_step_iff (hs : Held d s) (hspaced : Spaced d s) (h : step d s a = some t) :
    Spaced d t ↔ findsRead d s a = true := by
  unfold step at h
  split at h
  · cases h
  · rename_i hnow
    rw [Int.not_lt] at hnow
    split at h
    · rename_i domain last hmove hcall
      cases h
      have hgone := held_goTo (c := a.c) (w := .returned false) hs hnow trivial
      refine (spaced_grant_iff hgone hspaced domain).trans ?_
      simp only [findsRead, hmove, hcall, decide_eq_true_eq, Option.all_eq_true]
      refine ⟨.inr, ?_⟩
      rintro (hread | hold) t ht
      · -- the call has waited for the time it read, which is still the last one
        change t ∈ s.lastRequest domain at ht
        rw [hread] at ht
        cases ht
        exact (hs.timely _ _ hcall).mono hnow
      · exact hold t ht
    · rename_i hother
      obtain ⟨w, -, rfl⟩ := Option.map_eq_some_iff.mp h
      refine iff_of_true hspaced ?_
      unfold findsRead
      split
      · exact absurd ‹_› (hother _ _ ‹_›)
      · rfl

/-- The granted times of a domain are spaced exactly when no write goes on from an outdated read. -/
theorem spaced_iff_findsRead (start : ℤ) (acts : List Act)
    (hrun : run (step d) (newRateLimiter start) acts = some s) :
    Along (step d) (Spaced d) (newRateLimiter start) acts ↔
      Meets (step d) (fun s a => findsRead d s a = true)
        (newRateLimiter start) acts :=
  along_iff_meets (step d) _ _ (Held d) (s := newRateLimiter start)
    Pairwise.nil (fun _ _ => invariant _ _ (held_new start) (fun _ _ _ => held_step))
    (fun _ _ _ hs hspaced h => spaced_step_iff hs hspaced h) s hrun

def inTurn : List Act :=
  [⟨0, .read "go.dev", 0⟩, ⟨0, .write, 0⟩, ⟨1, .read "go.dev", 1⟩, ⟨1, .since, 1⟩,
    ⟨1, .wake, 2⟩, ⟨1, .write, 3⟩]

theorem spaced_in_turn : Along (step 2) (Spaced 2) (newRateLimiter 0) inTurn := by
  obtain ⟨s, hrun, -⟩ := exists_run_of_check (step 2) (fun _ => True) (newRateLimiter 0) inTurn
    (by decide)
  rw [spaced_iff_findsRead 0 inTurn hrun]
  exact meets_of_checkMeets (step 2) _ _ _ (by decide)

theorem two_requests_at_once : ∃ s, run (step 2) (newRateLimiter 0)
    [⟨0, .read "go.dev", 0⟩, ⟨1, .read "go.dev", 0⟩, ⟨0, .write, 0⟩, ⟨1, .write, 1⟩] = some s ∧
      ¬ Spaced 2 s :=
  exists_run_of_check (step 2) (fun s => ¬ Spaced 2 s) (newRateLimiter 0) _ (by decide)

end IronGolem.DomainSpacing
