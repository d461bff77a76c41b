import Mathlib.Data.List.Forall2

/-!
Lists addressed by the first element that passes a test.
`updateFirst` is what writing through the reference returned by an iterator's
`find` does: it rewrites the first match and leaves every other place alone.
Nothing here depends on what the elements are.
-/
namespace IronGolem.FirstMatch

open List

variable {α β : Type*}

def updateFirst (q : α → Bool) (f : α → α) : List α → List α
  | [] => []
  | a :: rest => if q a then f a :: rest else a :: updateFirst q f rest

variable (q : α → Bool) (f : α → α)

variable {a : α}

theorem updateFirst_split (pre post : List α) (hpre : ∀ b ∈ pre, q b = false) (ha : q a = true) :
    updateFirst q f (pre ++ a :: post) = pre ++ f a :: post := by
  induction pre with
  | nil => simp [updateFirst, ha]
  | cons b rest ih =>
    have hb : q b = false := hpre b mem_cons_self
    have hrest : ∀ c ∈ rest, q c = false := fun c hc => hpre c (mem_cons_of_mem b hc)
    simp [updateFirst, hb, ih hrest]

theorem updateFirst_append_left (left right : List α) (h : ∃ a ∈ left, q a = true) :
    updateFirst q f (left ++ right) = updateFirst q f left ++ right := by
  induction left with
  | nil => simp at h
  | cons b rest ih =>
    by_cases hb : q b = true
    · simp [updateFirst, hb]
    · have hrest : ∃ a ∈ rest, q a = true := by
        obtain ⟨a, ha, hq⟩ := h
        rcases mem_cons.mp ha with rfl | ha
        · exact absurd hq hb
        · exact ⟨a, ha, hq⟩
      simp [updateFirst, hb, ih hrest]

theorem map_updateFirst (g : α → β) (hg : ∀ a, g (f a) = g a) (l : List α) :
    (updateFirst q f l).map g = l.map g := by
  induction l with
  | nil => rfl
  | cons a rest ih =>
    by_cases ha : q a = true
    · simp [updateFirst, ha, hg]
    · simp [updateFirst, ha, ih]

variable {l : List α}

theorem forall_updateFirst (P : α → Prop) (hl : ∀ a ∈ l, P a) (hf : ∀ a ∈ l, P a → P (f a)) :
    ∀ a ∈ updateFirst q f l, P a := by
  induction l with
  | nil => simp [updateFirst]
  | cons b rest ih =>
    intro a ha
    by_cases hb : q b = true
    · rw [updateFirst, if_pos hb, mem_cons] at ha
      rcases ha with rfl | ha
      · exact hf b mem_cons_self (hl b mem_cons_self)
      · exact hl a (mem_cons_of_mem b ha)
    · rw [updateFirst, if_neg hb, mem_cons] at ha
      rcases ha with rfl | ha
      · exact hl a mem_cons_self
      · exact ih (fun c hc => hl c (mem_cons_of_mem b hc))
          (fun c hc => hf c (mem_cons_of_mem b hc)) a ha

/-- With distinct keys, the first match is the only one. -/
theorem updateFirst_eq_map [BEq β] [LawfulBEq β] [DecidableEq β] (key : α → β) (k : β)
    (f : α → α) (hl : (l.map key).Nodup) :
    updateFirst (fun a => key a == k) f l = l.map (fun a => if key a = k then f a else a) := by
  induction l with
  | nil => rfl
  | cons a rest ih =>
    rw [map_cons, nodup_cons] at hl
    by_cases ha : key a = k
    · have hrest : ∀ b ∈ rest, key b ≠ k := by
        intro b hb hk
        exact hl.1 (ha.trans hk.symm ▸ mem_map_of_mem hb)
      have hmap : rest.map (fun b => if key b = k then f b else b) = rest := by
        conv_rhs => rw [← map_id rest]
        apply map_congr_left
        intro b hb
        simp [hrest b hb]
      simp [updateFirst, ha, hmap]
    · simp [updateFirst, ha, ih hl.2]

theorem eraseP_eq_filter [BEq β] [LawfulBEq β] (key : α → β) (k : β) (hl : (l.map key).Nodup) :
    l.eraseP (fun a => key a == k) = l.filter (fun a => !(key a == k)) := by
  induction l with
  | nil => rfl
  | cons a rest ih =>
    rw [map_cons, nodup_cons] at hl
    by_cases ha : key a = k
    · have hrest : ∀ b ∈ rest, (!(key b == k)) = true := by
        intro b hb
        have hne : key b ≠ k := fun hk => hl.1 (ha.trans hk.symm ▸ mem_map_of_mem hb)
        simp [hne]
      simp [ha, filter_eq_self.mpr hrest]
    · simp [ha, ih hl.2]

theorem find?_split (pre post : List α) (hpre : ∀ b ∈ pre, q b = false) (ha : q a = true) :
    (pre ++ a :: post).find? q = some a := by
  have hnone : pre.find? q = none := by
    rw [find?_eq_none]
    intro b hb
    simp [hpre b hb]
  simp [find?_append, hnone, ha]

theorem find?_of_pairwise
    (hl : l.Pairwise (fun b c => ¬ (q b = true ∧ q c = true))) (hmem : a ∈ l) (ha : q a = true) :
    l.find? q = some a := by
  induction l with
  | nil => cases hmem
  | cons b rest ih =>
    rw [pairwise_cons] at hl
    by_cases hb : q b = true
    · rcases mem_cons.mp hmem with rfl | hrest
      · simp [hb]
      · exact absurd ⟨hb, ha⟩ (hl.1 a hrest)
    · rcases mem_cons.mp hmem with rfl | hrest
      · exact absurd ha hb
      · rw [find?_cons_of_neg hb]
        exact ih hl.2 hrest

variable {R : α → β → Prop}

theorem forall₂_exists_left {l' : List β} (h : List.Forall₂ R l l') : ∀ b ∈ l', ∃ a ∈ l, R a b := by
  induction h with
  | nil => simp
  | @cons a b l l' hab _ ih =>
    intro c hc
    rcases mem_cons.mp hc with rfl | hc
    · exact ⟨a, mem_cons_self, hab⟩
    · obtain ⟨d, hd, hdc⟩ := ih c hc
      exact ⟨d, mem_cons_of_mem a hd, hdc⟩

/-- A choice for each entry is a list of choices. -/
theorem exists_forall₂ (h : ∀ a ∈ l, ∃ b, R a b) : ∃ l', List.Forall₂ R l l' := by
  induction l with
  | nil => exact ⟨[], List.Forall₂.nil⟩
  | cons a l ih =>
    obtain ⟨b, hb⟩ := h a mem_cons_self
    obtain ⟨l', hl'⟩ := ih (fun c hc => h c (mem_cons_of_mem a hc))
    exact ⟨b :: l', List.Forall₂.cons hb hl'⟩

end IronGolem.FirstMatch
