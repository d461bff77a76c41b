import IronGolem.TransitionRuns

/-!
Programs that issue atomic commands on a shared state, alone and side by side. A program is a tree:
it is done, or it issues a command and goes on with the reply. What a command does is given from
outside, so one program can be run by itself or in any interleaving with others.
-/
namespace IronGolem.InterleavedPrograms

open TransitionRuns

inductive Program (κ : Type) (ρ : κ → Type) (α : Type)
  | done (a : α)
  | call (c : κ) (next : ρ c → Program κ ρ α)

variable {κ : Type} {ρ : κ → Type} {α β δ : Type}

namespace Program

def bind : Program κ ρ α → (α → Program κ ρ β) → Program κ ρ β
  | .done a, f => f a
  | .call c next, f => .call c (fun r => (next r).bind f)

end Program

def Attempt (κ : Type) (ρ : κ → Type) (δ α : Type) := Program κ ρ (Except δ α)

namespace Attempt

def throw (e : δ) : Attempt κ ρ δ α := .done (.error e)

def andThen (f : α → Attempt κ ρ δ β) : Except δ α → Attempt κ ρ δ β
  | .ok a => f a
  | .error e => throw e

instance : Monad (Attempt κ ρ δ) where
  pure a := Program.done (.ok a)
  bind p f := Program.bind p (andThen f)

def ask (c : κ) : Attempt κ ρ δ (ρ c) := Program.call c (fun r => .done (.ok r))

def require (c : κ) (read : ρ c → Except δ α) : Attempt κ ρ δ α :=
  Program.call c (fun r => .done (read r))

end Attempt

section Alone

variable {ε σ : Type} (effect : (c : κ) → ε → σ → σ × ρ c)

/-- Each command takes its input from outside, such as the clock. -/
def Runs : Program κ ρ α → σ → σ → α → Prop
  | .done a, s, t, b => t = s ∧ b = a
  | .call c next, s, t, b => ∃ e, Runs (next (effect c e s).2) (effect c e s).1 t b

def exec (e : ε) : Program κ ρ α → σ → σ × α
  | .done a, s => (s, a)
  | .call c next, s => exec e (next (effect c e s).2) (effect c e s).1

/-- Alone, with one and the same environment for all commands, a program runs to its end. -/
theorem runs_exec (e : ε) (p : Program κ ρ α) (s : σ) :
    Runs effect p s (exec effect e p s).1 (exec effect e p s).2 := by
  induction p generalizing s with
  | done a => exact ⟨rfl, rfl⟩
  | call c next ih => exact ⟨e, ih _ _⟩

theorem runs_bind_iff (p : Program κ ρ α) (f : α → Program κ ρ β) (s t : σ) (b : β) :
    Runs effect (p.bind f) s t b ↔ ∃ u a, Runs effect p s u a ∧ Runs effect (f a) u t b := by
  induction p generalizing s with
  | done a =>
    constructor
    · intro h
      exact ⟨s, a, ⟨rfl, rfl⟩, h⟩
    · rintro ⟨u, a', ⟨rfl, rfl⟩, h⟩
      exact h
  | call c next ih =>
    constructor
    · rintro ⟨e, h⟩
      obtain ⟨u, a, hfirst, hrest⟩ := (ih _ _).mp h
      exact ⟨u, a, ⟨e, hfirst⟩, hrest⟩
    · rintro ⟨u, a, ⟨e, hfirst⟩, hrest⟩
      exact ⟨e, (ih _ _).mpr ⟨u, a, hfirst, hrest⟩⟩

/-- What every command preserves holds after a program. -/
theorem runs_invariant (P : σ → Prop) (hP : ∀ c e s, P s → P (effect c e s).1)
    {p : Program κ ρ α} (s t : σ) {a : α} (hs : P s) (h : Runs effect p s t a) : P t := by
  induction p generalizing s with
  | done b =>
    rw [h.1]
    exact hs
  | call c next ih =>
    obtain ⟨e, hrest⟩ := h
    exact ih _ _ (hP c e s hs) hrest

/-- An attempt goes on after a success and ends at the first error. -/
theorem runs_attempt_iff (p : Attempt κ ρ δ α) (f : α → Attempt κ ρ δ β) (s t : σ)
    (r : Except δ β) :
    Runs effect (p >>= f : Attempt κ ρ δ β) s t r ↔
      (∃ u a, Runs effect p s u (.ok a) ∧ Runs effect (f a) u t r) ∨
        ∃ e, Runs effect p s t (.error e) ∧ r = .error e := by
  refine (runs_bind_iff effect p (Attempt.andThen f) s t r).trans ?_
  constructor
  · rintro ⟨u, e | a, hfirst, hrest⟩
    · obtain ⟨rfl, rfl⟩ := hrest
      exact .inr ⟨e, hfirst, rfl⟩
    · exact .inl ⟨u, a, hfirst, hrest⟩
  · rintro (⟨u, a, hfirst, hrest⟩ | ⟨e, hfirst, rfl⟩)
    · exact ⟨u, .ok a, hfirst, hrest⟩
    · exact ⟨t, .error e, hfirst, rfl, rfl⟩

theorem runs_require_ok {c : κ} (read : ρ c → Except δ α) (f : α → Attempt κ ρ δ β) {s t : σ}
    {r : Except δ β} (a : ε → α) (hok : ∀ e, read (effect c e s).2 = .ok (a e))
    (h : Runs effect (Attempt.require c read >>= f : Attempt κ ρ δ β) s t r) :
    ∃ e, Runs effect (f (a e)) (effect c e s).1 t r := by
  rcases (runs_attempt_iff effect _ f s t r).mp h with ⟨u, b, ⟨e, rfl, hb⟩, hrest⟩ |
    ⟨d, ⟨e, -, hd⟩, -⟩
  · have hab : Except.ok b = Except.ok (a e) := hb.trans (hok e)
    cases hab
    exact ⟨e, hrest⟩
  · have hd' : Except.error d = Except.ok (a e) := hd.trans (hok e)
    cases hd'

end Alone

variable {ν ε χ σ : Type}

/-- `rely`: how the state may move between two commands; `guard`: when one may be issued;
`tolerates`: which changes from outside may happen. -/
structure Contract (ν κ ε χ σ : Type) where
  inv : σ → Prop
  rely : ν → σ → σ → Prop
  rely_refl : ∀ l s, rely l s s
  rely_trans : ∀ l s t u, rely l s t → rely l t u → rely l s u
  guard : ν → κ → ε → σ → Prop
  tolerates : χ → σ → Prop

section Rules

variable (C : Contract ν κ ε χ σ) (effect : ν → (c : κ) → ε → σ → σ × ρ c)

/-- A command of one caller keeps the invariant and what the others rely on. -/
structure Fair (l : ν) (c : κ) (e : ε) (s : σ) : Prop where
  inv : C.inv (effect l c e s).1
  rely : ∀ m, m ≠ l → C.rely m s (effect l c e s).1

/-- Whatever the others do, only fair commands are issued and the result is right. -/
def Assures (l : ν) (Q : σ → α → Prop) : Program κ ρ α → σ → Prop
  | .done a, s => ∀ t, C.rely l s t → C.inv t → Q t a
  | .call c next, s => ∀ t e, C.rely l s t → C.inv t → C.guard l c e t →
      Fair C effect l c e t ∧ Assures l Q (next (effect l c e t).2) (effect l c e t).1

variable {C effect} {l : ν} {Q : σ → α → Prop} {p : Program κ ρ α} {s : σ}

theorem Assures.mono {Q' : σ → α → Prop}
    (h : Assures C effect l Q p s) (hQ : ∀ t a, C.inv t → Q t a → Q' t a) :
    Assures C effect l Q' p s := by
  induction p generalizing s with
  | done a => exact fun t hrely hinv => hQ t a hinv (h t hrely hinv)
  | call c next ih =>
    intro t e hrely hinv hguard
    obtain ⟨hfair, hnext⟩ := h t e hrely hinv hguard
    exact ⟨hfair, ih _ hnext⟩

/-- A promise survives what the other programs do. -/
theorem Assures.stable {t : σ}
    (h : Assures C effect l Q p s) (hrely : C.rely l s t) : Assures C effect l Q p t := by
  cases p with
  | done a => exact fun u hu hinv => h u (C.rely_trans l s t u hrely hu) hinv
  | call c next =>
    exact fun u e hu hinv hguard => h u e (C.rely_trans l s t u hrely hu) hinv hguard

/-- The rule of composition: the first part promises what the second one starts from. -/
theorem Assures.bind {Q : σ → β → Prop} {f : α → Program κ ρ β}
    (hinv : C.inv s) (h : Assures C effect l (fun t a => Assures C effect l Q (f a) t) p s) :
    Assures C effect l Q (p.bind f) s := by
  induction p generalizing s with
  | done a => exact h s (C.rely_refl l s) hinv
  | call c next ih =>
    intro t e hrely hinvt hguard
    obtain ⟨hfair, hnext⟩ := h t e hrely hinvt hguard
    exact ⟨hfair, ih _ hfair.inv hnext⟩

theorem assures_done {a : α}
    (h : ∀ t, C.rely l s t → C.inv t → Q t a) : Assures C effect l Q (.done a) s := h

/-- Composition where the first part may fail; its error is then the answer. -/
theorem Assures.attempt {Q : σ → Except δ β → Prop} {p : Attempt κ ρ δ α}
    {f : α → Attempt κ ρ δ β} (hinv : C.inv s)
    (h : Assures C effect l (fun t r => (∀ a, r = .ok a → Assures C effect l Q (f a) t) ∧
      ∀ e, r = .error e → ∀ u, C.rely l t u → C.inv u → Q u (.error e)) p s) :
    Assures C effect l Q (p >>= f : Attempt κ ρ δ β) s := by
  refine Assures.bind hinv (h.mono ?_)
  rintro t (e | a) - ⟨hok, herror⟩
  · exact herror e rfl
  · exact hok a rfl

theorem assures_require {Q : σ → Except δ α → Prop} {c : κ} {read : ρ c → Except δ α}
    (h : ∀ t e, C.rely l s t → C.inv t → C.guard l c e t → Fair C effect l c e t ∧
      ∀ u, C.rely l (effect l c e t).1 u → C.inv u → Q u (read (effect l c e t).2)) :
    Assures C effect l Q (Attempt.require c read) s := h

end Rules

/-- The programs of the callers that have begun, and the state they share. -/
structure Sys (ν κ : Type) (ρ : κ → Type) (σ α : Type) where
  shared : σ
  programs : ν → Option (Program κ ρ α)

def Sys.result (s : Sys ν κ ρ σ α) (l : ν) : Option α :=
  match s.programs l with
  | some (.done a) => some a
  | _ => none

theorem result_eq_some {s : Sys ν κ ρ σ α} {l : ν} {a : α} (h : s.result l = some a) :
    s.programs l = some (.done a) := by
  unfold Sys.result at h
  split at h
  · rename_i b hdone
    cases h
    exact hdone
  · cases h

/-- A caller begins, issues its next command or is stopped; or the state changes from outside. -/
inductive Act (ν ε χ : Type)
  | begin (l : ν)
  | advance (l : ν) (e : ε)
  | stop (l : ν)
  | outside (x : χ)

section Interleaving

variable [DecidableEq ν] (effect : ν → (c : κ) → ε → σ → σ × ρ c) (change : χ → σ → σ)
  (halt : ν → σ → σ) (script : ν → Program κ ρ α) (stopped : α) (s : Sys ν κ ρ σ α)

def Sys.put (l : ν) (p : Program κ ρ α) (t : σ) : Sys ν κ ρ σ α :=
  ⟨t, Function.update s.programs l (some p)⟩

theorem put_self (s : Sys ν κ ρ σ α) (l : ν) (p : Program κ ρ α) (t : σ) :
    (s.put l p t).programs l = some p := by simp [Sys.put]

theorem put_of_ne (s : Sys ν κ ρ σ α) {l m : ν} (p : Program κ ρ α) (t : σ) (hm : m ≠ l) :
    (s.put l p t).programs m = s.programs m := by simp [Sys.put, hm]

def start (s : σ) : Sys ν κ ρ σ α := ⟨s, fun _ => none⟩

def step : Act ν ε χ → Option (Sys ν κ ρ σ α)
  | .begin l =>
      match s.programs l with
      | none => some (s.put l (script l) s.shared)
      | some _ => none
  | .advance l e =>
      match s.programs l with
      | some (.call c next) =>
          some (s.put l (next (effect l c e s.shared).2) (effect l c e s.shared).1)
      | _ => none
  | .stop l =>
      match s.programs l with
      | some (.call _ _) => some (s.put l (.done stopped) (halt l s.shared))
      | _ => none
  | .outside x => some { s with shared := change x s.shared }

/-- What a step does. -/
inductive StepTo (s : Sys ν κ ρ σ α) : Act ν ε χ → Sys ν κ ρ σ α → Prop
  | begin (l : ν) (hnew : s.programs l = none) : StepTo s (.begin l) (s.put l (script l) s.shared)
  | advance (l : ν) (e : ε) (c : κ) (next : ρ c → Program κ ρ α)
      (hcall : s.programs l = some (.call c next)) :
      StepTo s (.advance l e) (s.put l (next (effect l c e s.shared).2) (effect l c e s.shared).1)
  | stop (l : ν) (c : κ) (next : ρ c → Program κ ρ α) (hcall : s.programs l = some (.call c next)) :
      StepTo s (.stop l) (s.put l (.done stopped) (halt l s.shared))
  | outside (x : χ) : StepTo s (.outside x) { s with shared := change x s.shared }

variable {s t : Sys ν κ ρ σ α} {act : Act ν ε χ}

/-- Every step of the system is of one of the shapes of `StepTo`. -/
theorem step_cases (h : step effect change halt script stopped s act = some t) :
    StepTo effect change halt script stopped s act t := by
  cases act with
  | begin l =>
    simp only [step] at h
    split at h
    · rename_i hnew
      cases h
      exact .begin l hnew
    · cases h
  | advance l e =>
    simp only [step] at h
    split at h
    · rename_i c next hcall
      cases h
      exact .advance l e c next hcall
    · cases h
  | stop l =>
    simp only [step] at h
    split at h
    · rename_i c next hcall
      cases h
      exact .stop l c next hcall
    · cases h
  | outside x =>
    cases h
    exact .outside x

variable (C : Contract ν κ ε χ σ)

def Allowed (s : Sys ν κ ρ σ α) : Act ν ε χ → Prop
  | .advance l e =>
      match s.programs l with
      | some (.call c _) => C.guard l c e s.shared
      | _ => True
  | .outside x => C.tolerates x s.shared
  | _ => True

instance [∀ l c e s, Decidable (C.guard l c e s)] [∀ x s, Decidable (C.tolerates x s)]
    (s : Sys ν κ ρ σ α) (act : Act ν ε χ) : Decidable (Allowed C s act) :=
  match act with
  | .begin _ => inferInstanceAs (Decidable True)
  | .stop _ => inferInstanceAs (Decidable True)
  | .outside x => inferInstanceAs (Decidable (C.tolerates x s.shared))
  | .advance l e =>
      match h : s.programs l with
      | some (.call c _) => decidable_of_iff (C.guard l c e s.shared) (by simp only [Allowed, h])
      | some (.done _) => isTrue (by simp only [Allowed, h])
      | none => isTrue (by simp only [Allowed, h])

/-- The invariant, and that every program that has begun is still good for its result. -/
structure Assured (Q : ν → σ → α → Prop) (s : Sys ν κ ρ σ α) : Prop where
  inv : C.inv s.shared
  program : ∀ l p, s.programs l = some p → Assures C effect l (Q l) p s.shared

variable {effect change halt script stopped C} {Q : ν → σ → α → Prop}

omit [DecidableEq ν] in
theorem Assured.result (h : Assured effect C Q s)
    (l : ν) (a : α) (hdone : s.result l = some a) : Q l s.shared a :=
  h.program l (.done a) (result_eq_some hdone) s.shared (C.rely_refl l s.shared) h.inv

/-- One program moves on; the others keep their promises if they rely on no more than it keeps. -/
theorem Assured.put (h : Assured effect C Q s) (l : ν)
    (p : Program κ ρ α) (t : σ) (hinv : C.inv t) (hp : Assures C effect l (Q l) p t)
    (hrely : ∀ m, m ≠ l → C.rely m s.shared t) : Assured effect C Q (s.put l p t) where
  inv := hinv
  program := by
    intro m q hq
    by_cases hm : m = l
    · subst hm
      rw [put_self] at hq
      cases hq
      exact hp
    · rw [put_of_ne s p t hm] at hq
      exact (h.program m q hq).stable (hrely m hm)

variable (hscript : ∀ l s, C.inv s → Assures C effect l (Q l) (script l) s)
  (hstopped : ∀ l s, C.inv s → Q l s stopped)
  (hhalt : ∀ l s, C.inv s → C.inv (halt l s) ∧ ∀ m, m ≠ l → C.rely m s (halt l s))
  (hchange : ∀ x s, C.inv s → C.tolerates x s → C.inv (change x s) ∧ ∀ l, C.rely l s (change x s))

include hscript hstopped hhalt hchange

theorem assured_step (hs : Assured effect C Q s)
    (hallowed : Allowed C s act) (h : step effect change halt script stopped s act = some t) :
    Assured effect C Q t := by
  cases step_cases effect change halt script stopped h with
  | begin l hnew =>
    exact hs.put l _ _ hs.inv (hscript l s.shared hs.inv) (fun m _ => C.rely_refl m s.shared)
  | advance l e c next hcall =>
    have hguard : C.guard l c e s.shared := by simpa only [Allowed, hcall] using hallowed
    obtain ⟨hfair, hnext⟩ :=
      hs.program l _ hcall s.shared e (C.rely_refl l s.shared) hs.inv hguard
    exact hs.put l _ _ hfair.inv hnext hfair.rely
  | stop l c next hcall =>
    obtain ⟨hinv, hrely⟩ := hhalt l s.shared hs.inv
    exact hs.put l _ _ hinv (assures_done (fun u _ hu => hstopped l u hu)) hrely
  | outside x =>
    obtain ⟨hinv, hrely⟩ := hchange x s.shared hs.inv hallowed
    exact ⟨hinv, fun l p hp => (hs.program l p hp).stable (hrely l)⟩

/-- Every program keeps its promise in every interleaving of allowed steps. -/
theorem assured_run {s : σ} (hs : C.inv s) {acts : List (Act ν ε χ)}
    (hmeets : Meets (step effect change halt script stopped) (Allowed C) (start s) acts)
    (hrun : run (step effect change halt script stopped) (start s) acts = some t) :
    Assured effect C Q t := by
  have hinit : Assured effect C Q (start s) := by
    refine ⟨hs, ?_⟩
    intro l p hp
    cases hp
  exact guarded_invariant _ (Allowed C) (fun _ => True) _ hinit (fun _ _ _ => trivial)
    (fun u act v _ hu hallowed h => assured_step hscript hstopped hhalt hchange hu hallowed h)
      hmeets hrun

end Interleaving

end IronGolem.InterleavedPrograms
