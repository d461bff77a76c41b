import Mathlib.Data.List.Basic

/-!
The leftmost place of a list where a pattern matches. A pattern is tried on every suffix
in turn, from the whole list down to the empty one, and is told the element that stands
before the suffix. What it answers at the first suffix that it accepts is the result.
-/
namespace IronGolem.TextSearch

open List

variable {α β : Type*}

def searchAfter (p : Option α → List α → Option β) (before : Option α) : List α → Option β
  | [] => p before []
  | a :: rest => (p before (a :: rest)).or (searchAfter p (some a) rest)

def search (p : List α → Option β) (l : List α) : Option β :=
  searchAfter (fun _ => p) none l

variable (p : List α → Option β)

theorem searchAfter_const (before : Option α) (l : List α) :
    searchAfter (fun _ => p) before l = search p l := by
  cases l <;> rfl

theorem search_cons (a : α) (l : List α) : search p (a :: l) = (p (a :: l)).or (search p l) := by
  rw [← searchAfter_const p (some a) l]
  rfl

/-- The answer is the pattern's at a suffix, and no longer suffix is accepted. -/
theorem search_eq_some_iff (l : List α) (b : β) :
    search p l = some b ↔
      ∃ pre rest, l = pre ++ rest ∧ p rest = some b ∧
        ∀ pre' rest', l = pre' ++ rest' → pre'.length < pre.length → p rest' = none := by
  induction l with
  | nil =>
    constructor
    · intro h
      exact ⟨[], [], rfl, h, fun pre' _ _ hlt => absurd hlt (Nat.not_lt_zero _)⟩
    · intro h
      obtain ⟨pre, rest, hl, hrest, -⟩ := h
      obtain ⟨rfl, rfl⟩ := append_eq_nil_iff.mp hl.symm
      exact hrest
  | cons a l ih =>
    rw [search_cons]
    constructor
    · intro h
      cases hp : p (a :: l) with
      | some c =>
        rw [hp, Option.some_or] at h
        exact ⟨[], a :: l, rfl, hp.trans h, fun pre' _ _ hlt => absurd hlt (Nat.not_lt_zero _)⟩
      | none =>
        rw [hp, Option.none_or] at h
        obtain ⟨pre, rest, hl, hrest, hfirst⟩ := ih.mp h
        refine ⟨a :: pre, rest, by rw [hl, cons_append], hrest, ?_⟩
        intro pre' rest' hsplit hlt
        cases pre' with
        | nil => rwa [← (show a :: l = rest' from hsplit)]
        | cons c pre' =>
          obtain ⟨rfl, htail⟩ := cons.inj hsplit
          exact hfirst pre' rest' htail (by simpa using hlt)
    · intro h
      obtain ⟨pre, rest, hl, hrest, hfirst⟩ := h
      cases pre with
      | nil =>
        rw [show a :: l = rest from hl, hrest]
        rfl
      | cons c pre =>
        obtain ⟨rfl, htail⟩ := cons.inj hl
        rw [hfirst [] (a :: l) rfl (by simp), Option.none_or]
        refine ih.mpr ⟨pre, rest, htail, hrest, ?_⟩
        intro pre' rest' hsplit hlt
        exact hfirst (a :: pre') rest' (by rw [hsplit, cons_append]) (by simpa using hlt)

end IronGolem.TextSearch
