import Mathlib.Data.List.Induction
import Mathlib.Data.List.Monad

/-!
Runs of an executable transition function, and how properties of single steps carry over to them. A
run is the list of its actions; it exists when each action is enabled in the state that the ones
before it lead to.
-/
namespace IronGolem.TransitionRuns

open List Option

variable {σ ι : Type*} (step : σ → ι → Option σ)

def run (s : σ) (acts : List ι) : Option σ := acts.foldlM step s

def Meets (G : σ → ι → Prop) (s : σ) (acts : List ι) : Prop :=
  ∀ pre a post t, acts = pre ++ a :: post → run step s pre = some t → G t a

def Along (P : σ → Prop) (s : σ) (acts : List ι) : Prop :=
  ∀ pre post t, acts = pre ++ post → run step s pre = some t → P t

@[simp] theorem run_nil (s : σ) : run step s [] = some s := rfl

theorem run_concat_iff (s u : σ) (acts : List ι) (a : ι) :
    run step s (acts ++ [a]) = some u ↔ ∃ t, run step s acts = some t ∧ step t a = some u := by
  unfold run
  simp [bind_eq_some_iff]

/-- Where a marked action lies in a list that was extended by one action. -/
theorem concat_eq_split {acts pre post : List ι} {a b : ι} (h : acts ++ [a] = pre ++ b :: post) :
    (post = [] ∧ acts = pre ∧ a = b) ∨ ∃ post', post = post' ++ [a] ∧ acts = pre ++ b :: post' := by
  rcases eq_nil_or_concat post with rfl | ⟨post', c, rfl⟩
  · obtain ⟨hpre, hb⟩ := append_inj' h rfl
    exact .inl ⟨rfl, hpre, by simpa using hb⟩
  · rw [concat_eq_append, ← cons_append, ← append_assoc] at h
    obtain ⟨hpre, hc⟩ := append_inj' h rfl
    exact .inr ⟨post', by simpa using hc.symm, hpre⟩

variable (G : σ → ι → Prop) (s : σ) (acts : List ι) (a : ι)

theorem meets_concat_iff :
    Meets step G s (acts ++ [a]) ↔ Meets step G s acts ∧ ∀ t, run step s acts = some t → G t a := by
  constructor
  · intro h
    refine ⟨?_, fun t hrun => h acts a [] t rfl hrun⟩
    intro pre b post t hacts hrun
    exact h pre b (post ++ [a]) t (by simp [hacts]) hrun
  · rintro ⟨h, hlast⟩ pre b post t hacts hrun
    rcases concat_eq_split hacts with ⟨-, rfl, rfl⟩ | ⟨post', -, hpre⟩
    · exact hlast t hrun
    · exact h pre b post' t hpre hrun

theorem along_concat_iff (P : σ → Prop) (s : σ) (acts : List ι) (a : ι) :
    Along step P s (acts ++ [a]) ↔
      Along step P s acts ∧ ∀ t, run step s (acts ++ [a]) = some t → P t := by
  constructor
  · intro h
    refine ⟨?_, fun t hrun => h _ [] t (by simp) hrun⟩
    intro pre post t hacts hrun
    exact h pre (post ++ [a]) t (by simp [hacts]) hrun
  · rintro ⟨h, hlast⟩ pre post t hacts hrun
    cases post with
    | nil =>
      rw [append_nil] at hacts
      exact hlast t (hacts ▸ hrun)
    | cons b post =>
      rcases concat_eq_split hacts with ⟨-, rfl, -⟩ | ⟨post', -, hpre⟩
      · exact h acts [] t (by simp) hrun
      · exact h pre (b :: post') t hpre hrun

variable {t : σ}

theorem Along.last {P : σ → Prop} {s : σ} {acts : List ι} (h : Along step P s acts)
    (hrun : run step s acts = some t) : P t :=
  h acts [] t (by simp) hrun

/-- Induction over a guarded run, for a property of the actions so far and the state. -/
theorem history_invariant (I : σ → Prop) (P : List ι → σ → Prop) {s : σ}
    (hinit : P [] s) (hI : ∀ acts t, run step s acts = some t → I t)
    (hstep : ∀ acts t a u, I t → P acts t → G t a → step t a = some u → P (acts ++ [a]) u)
    {acts : List ι} (t : σ) (hmeets : Meets step G s acts) (hrun : run step s acts = some t) :
    P acts t := by
  induction acts using reverseRecOn generalizing t with
  | nil =>
    rw [run_nil, some.injEq] at hrun
    exact hrun ▸ hinit
  | append_singleton acts a ih =>
    obtain ⟨u, hu, hlast⟩ := (run_concat_iff step s t acts a).mp hrun
    obtain ⟨hbefore, hguard⟩ := (meets_concat_iff step G s acts a).mp hmeets
    exact hstep acts u a t (hI acts u hu) (ih u hbefore hu) (hguard u hu) hlast

variable (I P : σ → Prop)

/-- What every step that meets the guard preserves holds after a run whose steps all meet it. -/
theorem guarded_invariant {s : σ} (hinit : P s) (hI : ∀ acts t, run step s acts = some t → I t)
    (hstep : ∀ t a u, I t → P t → G t a → step t a = some u → P u) {acts : List ι}
    (hmeets : Meets step G s acts) (hrun : run step s acts = some t) : P t :=
  history_invariant step G I (fun _ => P) hinit hI (fun _ => hstep) t hmeets hrun

/-- An invariant whose step may use another one that is proved already. -/
theorem relative_invariant {s : σ} (hinit : P s) (hI : ∀ acts t, run step s acts = some t → I t)
    (hstep : ∀ t a u, I t → P t → step t a = some u → P u) {acts : List ι}
    (hrun : run step s acts = some t) : P t :=
  guarded_invariant step (fun _ _ => True) I P hinit hI
    (fun t a u hi hp _ h => hstep t a u hi hp h) (fun _ _ _ _ _ _ => trivial) hrun

theorem invariant {s : σ} (hinit : P s)
    (hstep : ∀ t a u, P t → step t a = some u → P u) {acts : List ι}
    (hrun : run step s acts = some t) : P t :=
  relative_invariant step (fun _ => True) P hinit (fun _ _ _ => trivial)
    (fun t a u _ hp h => hstep t a u hp h) hrun

/-- If a step keeps `P` exactly when it meets the guard, a run keeps `P` throughout exactly when
all of its steps meet the guard. -/
theorem along_iff_meets (I : σ → Prop) {s : σ} (hinit : P s)
    (hI : ∀ acts t, run step s acts = some t → I t)
    (hexact : ∀ t a u, I t → P t → step t a = some u → (P u ↔ G t a)) {acts : List ι} (t : σ)
    (hrun : run step s acts = some t) : Along step P s acts ↔ Meets step G s acts := by
  induction acts using reverseRecOn generalizing t with
  | nil =>
    constructor
    · intro _ pre a post u hacts
      simp at hacts
    · intro _ pre post u hacts hu
      obtain ⟨rfl, -⟩ := append_eq_nil_iff.mp hacts.symm
      rw [run_nil, some.injEq] at hu
      exact hu ▸ hinit
  | append_singleton acts a ih =>
    obtain ⟨u, hu, hlast⟩ := (run_concat_iff step s t acts a).mp hrun
    rw [along_concat_iff, meets_concat_iff, ih u hu]
    refine and_congr_right fun hmeets => ?_
    have hstep := hexact u a t (hI acts u hu) (((ih u hu).mpr hmeets).last step hu) hlast
    simp only [hrun, hu, some.injEq, forall_eq']
    exact hstep

theorem run_cons (acts : List ι) :
    run step s (a :: acts) = (step s a).bind (fun t => run step t acts) := rfl

theorem meets_nil : Meets step G s [] := by
  intro pre a post t hacts
  simp at hacts

theorem meets_cons {acts : List ι} (ha : G s a)
    (hacts : ∀ t, step s a = some t → Meets step G t acts) : Meets step G s (a :: acts) := by
  intro pre b post t hsplit hrun
  cases pre with
  | nil =>
    obtain ⟨rfl, -⟩ := cons.inj hsplit
    cases hrun
    exact ha
  | cons c pre =>
    rw [cons_append, cons.injEq] at hsplit
    obtain ⟨rfl, hsplit⟩ := hsplit
    obtain ⟨u, hu, hrest⟩ := bind_eq_some_iff.mp hrun
    exact hacts u hu pre b post t hsplit hrest

theorem run_append (more : List ι) :
    run step s (acts ++ more) = (run step s acts).bind (fun t => run step t more) := by
  unfold run
  rw [foldlM_append]
  rfl

/-- A stretch of a guarded run is a guarded run from the state where it begins. -/
theorem Meets.middle {G : σ → ι → Prop} {s : σ} {acts : List ι} (pre mid post : List ι)
    (h : Meets step G s acts) (hacts : acts = pre ++ (mid ++ post))
    (hrun : run step s pre = some t) : Meets step G t mid := by
  intro before a after u hmid hu
  refine h (pre ++ before) a (after ++ post) u ?_ ?_
  · simp [hacts, hmid]
  · rw [run_append, hrun]
    exact hu

theorem Along.tail {P : σ → Prop} {s : σ} {a : ι} {acts : List ι}
    (h : Along step P s (a :: acts)) (hstep : step s a = some t) : Along step P t acts := by
  intro pre post u hacts hrun
  refine h (a :: pre) post u (by simp [hacts]) ?_
  rw [run_cons, hstep]
  exact hrun

def Halted (s : σ) : Prop := ∀ a, step s a = none

/-- Where each step decreases a measure, some run ends in a state without steps. -/
theorem exists_halted (measure : σ → ℕ)
    (hstep : ∀ t a u, I t → step t a = some u → I u ∧ measure u < measure t) (s : σ) (hs : I s) :
    ∃ acts t, run step s acts = some t ∧ I t ∧ Halted step t := by
  induction hn : measure s using Nat.strongRecOn generalizing s with
  | ind n ih =>
    by_cases hend : Halted step s
    · exact ⟨[], s, rfl, hs, hend⟩
    · unfold Halted at hend
      push Not at hend
      obtain ⟨a, ha⟩ := hend
      obtain ⟨t, ht⟩ := ne_none_iff_exists'.mp ha
      obtain ⟨hI, hlt⟩ := hstep s a t hs ht
      obtain ⟨acts, u, hrun, hu, hhalted⟩ := ih (measure t) (by omega) t hI rfl
      refine ⟨a :: acts, u, ?_, hu, hhalted⟩
      rw [run_cons, ht]
      exact hrun

theorem exists_run_of_check [DecidablePred P] (s : σ) (acts : List ι)
    (h : (run step s acts).any (fun t => decide (P t)) = true) :
    ∃ t, run step s acts = some t ∧ P t := by
  obtain ⟨t, ht, hp⟩ := (any_eq_true _ _).mp h
  exact ⟨t, ht, of_decide_eq_true hp⟩

def checkMeets (G : σ → ι → Prop) [∀ s a, Decidable (G s a)] : σ → List ι → Bool
  | _, [] => true
  | s, a :: acts => decide (G s a) && match step s a with
    | none => true
    | some t => checkMeets G t acts

theorem meets_of_checkMeets [∀ s a, Decidable (G s a)] (s : σ)
    (acts : List ι) (h : checkMeets step G s acts = true) : Meets step G s acts := by
  induction acts generalizing s with
  | nil => exact meets_nil step G s
  | cons a acts ih =>
    simp only [checkMeets, Bool.and_eq_true, decide_eq_true_eq] at h
    refine meets_cons step G s a h.1 ?_
    intro t ht
    rw [ht] at h
    exact ih t h.2

def checkAlong (P : σ → Prop) [DecidablePred P] : σ → List ι → Bool
  | s, [] => decide (P s)
  | s, a :: acts => decide (P s) && match step s a with
    | none => true
    | some t => checkAlong P t acts

theorem along_of_checkAlong [DecidablePred P] (s : σ) {acts : List ι}
    (h : checkAlong step P s acts = true) : Along step P s acts := by
  induction acts generalizing s with
  | nil =>
    intro pre post t hacts hrun
    obtain ⟨rfl, -⟩ := append_eq_nil_iff.mp hacts.symm
    rw [run_nil, some.injEq] at hrun
    exact hrun ▸ of_decide_eq_true h
  | cons a acts ih =>
    simp only [checkAlong, Bool.and_eq_true, decide_eq_true_eq] at h
    intro pre post t hacts hrun
    cases pre with
    | nil =>
      rw [run_nil, some.injEq] at hrun
      exact hrun ▸ h.1
    | cons b pre =>
      rw [cons_append, cons.injEq] at hacts
      obtain ⟨rfl, hacts⟩ := hacts
      obtain ⟨u, hu, hrest⟩ := bind_eq_some_iff.mp hrun
      rw [hu] at h
      exact ih u h.2 pre post t hacts hrest

end IronGolem.TransitionRuns
