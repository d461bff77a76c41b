import Mathlib.Data.List.Basic

/-!
Deterministic machines that answer each input with an output. Two machines whose states are
related step by step give the same answers exactly if they agree at every single input; what
that takes may be said in terms of the first machine alone.
-/
namespace IronGolem.OutputMachines

variable {σ τ ι ω : Type*}

def outcomes (step : σ → ι → σ × ω) : σ → List ι → List ω
  | _, [] => []
  | s, a :: rest => (step s a).2 :: outcomes step (step s a).1 rest

def Along (step : σ → ι → σ × ω) (C : σ → ι → Prop) : σ → List ι → Prop
  | _, [] => True
  | s, a :: rest => C s a ∧ Along step C (step s a).1 rest

instance decidableAlong (step : σ → ι → σ × ω) (C : σ → ι → Prop) [∀ s a, Decidable (C s a)] :
    (s : σ) → (l : List ι) → Decidable (Along step C s l)
  | _, [] => isTrue trivial
  | s, a :: rest =>
      have := decidableAlong step C (step s a).1 rest
      inferInstanceAs (Decidable (C s a ∧ Along step C (step s a).1 rest))

theorem outcomes_eq_iff_along (step : σ → ι → σ × ω) (step' : τ → ι → τ × ω)
    (R : σ → τ → Prop) (G : ι → Prop) (C : σ → ι → Prop)
    (hkeep : ∀ s t a, R s t → G a → R (step s a).1 (step' t a).1)
    (hagree : ∀ s t a, R s t → G a → ((step s a).2 = (step' t a).2 ↔ C s a))
    (s : σ) (t : τ) (l : List ι) (hR : R s t) (hG : ∀ a ∈ l, G a) :
    outcomes step s l = outcomes step' t l ↔ Along step C s l := by
  induction l generalizing s t with
  | nil => exact iff_of_true rfl trivial
  | cons a rest ih =>
    have ha := hG a List.mem_cons_self
    have hrest := ih (step s a).1 (step' t a).1 (hkeep s t a hR ha)
      (fun b hb => hG b (List.mem_cons_of_mem a hb))
    have hhere := hagree s t a hR ha
    unfold outcomes Along
    rw [List.cons.injEq, hhere, hrest]

end IronGolem.OutputMachines
