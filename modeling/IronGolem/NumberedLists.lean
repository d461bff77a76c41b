import Mathlib.Data.List.Nodup

/-!
Lists whose elements are known by their number. New elements are appended and get the next
number, and an element is changed or replaced in its place, so that a number keeps its meaning
while the list grows. What stands at a number after such a change is said in terms of what stood
there before.
-/
namespace IronGolem.NumberedLists

open Option

variable {α : Type*} {l : List α} {f : α → α} {i j : ℕ} {b : α}

theorem getElem?_modify_eq_some_iff :
    (l.modify i f)[j]? = some b ↔ ∃ a, l[j]? = some a ∧ b = if i = j then f a else a := by
  rw [List.getElem?_modify]
  simp only [map_eq_map, map_eq_some_iff]
  constructor
  · rintro ⟨a, ha, rfl⟩
    refine ⟨a, ha, ?_⟩
    split <;> rfl
  · rintro ⟨a, ha, rfl⟩
    refine ⟨a, ha, ?_⟩
    split <;> rfl

variable (l f i j b)

theorem exists_getElem?_modify {a : α} (p : α → Prop)
    (ha : l[j]? = some a) (hp : p a) (hf : p a → p (f a)) :
    ∃ b, (l.modify i f)[j]? = some b ∧ p b := by
  refine ⟨_, getElem?_modify_eq_some_iff.mpr ⟨a, ha, rfl⟩, ?_⟩
  split
  · exact hf hp
  · exact hp

theorem getElem?_set_eq_some {a b : α} (h : (l.set i a)[j]? = some b) :
    (i = j ∧ b = a) ∨ (i ≠ j ∧ l[j]? = some b) := by
  by_cases hij : i = j
  · subst hij
    have hlt : i < l.length := by
      have hlength := (List.getElem?_eq_some_iff.mp h).1
      rwa [List.length_set] at hlength
    rw [List.getElem?_set_self hlt] at h
    exact .inl ⟨rfl, (some.inj h).symm⟩
  · rw [List.getElem?_set_ne hij] at h
    exact .inr ⟨hij, h⟩

theorem getElem?_concat_eq_some_iff (a b : α) (i : ℕ) :
    (l ++ [a])[i]? = some b ↔ l[i]? = some b ∨ (i = l.length ∧ b = a) := by
  constructor
  · intro h
    by_cases hi : i < l.length
    · rw [List.getElem?_append_left hi] at h
      exact .inl h
    · rw [List.getElem?_append_right (Nat.not_lt.mp hi)] at h
      obtain ⟨hlt, hb⟩ := List.getElem?_eq_some_iff.mp h
      have hi' : i = l.length := by
        simp only [List.length_singleton] at hlt
        omega
      exact .inr ⟨hi', by rw [← hb]; simp⟩
  · rintro (h | ⟨rfl, rfl⟩)
    · have hi : i < l.length := (List.getElem?_eq_some_iff.mp h).1
      rw [List.getElem?_append_left hi, h]
    · simp

variable {β : Type*}

theorem map_set_of_eq {l : List α} (f : α → β) {i : ℕ} {a b : α}
    (hb : l[i]? = some b) (h : f a = f b) : (l.set i a).map f = l.map f := by
  apply List.ext_getElem?
  intro j
  rw [List.getElem?_map, List.getElem?_map]
  by_cases hij : i = j
  · subst hij
    have hlt : i < l.length := (List.getElem?_eq_some_iff.mp hb).1
    rw [List.getElem?_set_self hlt, hb, map_some, map_some, h]
  · rw [List.getElem?_set_ne hij]

theorem nodup_map_snd {l : List (α × α)} (hown : ∀ e ∈ l, e.1 = e.2) (hl : l.Nodup) :
    (l.map Prod.snd).Nodup := by
  refine List.Nodup.map_on ?_ hl
  intro e he e' he' heq
  have hown₁ := hown e he
  have hown₂ := hown e' he'
  exact Prod.ext (by rw [hown₁, hown₂, heq]) heq

theorem flatten_map_set_last {l : List α} (f : α → List β) {i : ℕ} {a b : α}
    {more : List β} (hb : l[i]? = some b) (hlast : i + 1 = l.length) (h : f a = f b ++ more) :
    ((l.set i a).map f).flatten = (l.map f).flatten ++ more := by
  rcases List.eq_nil_or_concat l with rfl | ⟨front, c, rfl⟩
  · cases hb
  · rw [List.concat_eq_append] at hb hlast ⊢
    have hi : i = front.length := by
      simp only [List.length_append, List.length_singleton] at hlast
      omega
    subst hi
    rw [List.getElem?_concat_length, some.injEq] at hb
    rw [List.set_append_right _ _ (Nat.le_refl _), Nat.sub_self, List.set_cons_zero,
      List.map_append, List.map_append, List.flatten_append, List.flatten_append, hb]
    simp [h]

end IronGolem.NumberedLists
