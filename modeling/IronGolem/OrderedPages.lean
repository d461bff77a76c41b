import IronGolem.RowTables
import Mathlib.Data.List.Pairwise
import Mathlib.Tactic.Ring

/-!
Rows in descending order of a key, and the pages cut from such a list. The sort keeps the order of
rows with equal keys, as an ordered scan of a table does, so sorting and filtering may be
exchanged. A list sorted by one key is sorted by another when the keys agree on which of two rows
comes first.
-/
namespace IronGolem.OrderedPages

open List

variable {ρ κ ι : Type*}

section Order

variable [LinearOrder κ] (key : ρ → κ)

def descending (l : List ρ) : List ρ := l.insertionSort (fun a b => key b ≤ key a)

theorem descending_perm (l : List ρ) : (descending key l).Perm l := perm_insertionSort _ l

theorem descending_pairwise (l : List ρ) :
    (descending key l).Pairwise (fun a b => key b ≤ key a) := by
  exact pairwise_insertionSort _ l

theorem mem_descending (l : List ρ) (r : ρ) : r ∈ descending key l ↔ r ∈ l :=
  (descending_perm key l).mem_iff

theorem length_descending (l : List ρ) : (descending key l).length = l.length :=
  (descending_perm key l).length_eq

variable {l : List ρ}

theorem orderedInsert_of_forall {a : ρ} (h : ∀ b ∈ l, key b ≤ key a) :
    l.orderedInsert (fun a b => key b ≤ key a) a = a :: l := by
  cases l with
  | nil => rfl
  | cons b l => rw [orderedInsert_cons, if_pos (h b mem_cons_self)]

theorem filter_orderedInsert (p : ρ → Bool) (a : ρ) (hl : l.Pairwise (fun a b => key b ≤ key a)) :
    (l.orderedInsert (fun a b => key b ≤ key a) a).filter p =
      if p a then (l.filter p).orderedInsert (fun a b => key b ≤ key a) a else l.filter p := by
  induction l with
  | nil =>
    cases hp : p a with
    | true | false => simp [hp]
  | cons b l ih =>
    rw [pairwise_cons] at hl
    rw [orderedInsert_cons]
    by_cases hab : key b ≤ key a
    · rw [if_pos hab, filter_cons]
      have hall : ∀ c ∈ (b :: l).filter p, key c ≤ key a := by
        intro c hc
        rcases mem_cons.mp (mem_of_mem_filter hc) with rfl | hc
        · exact hab
        · exact (hl.1 c hc).trans hab
      rw [orderedInsert_of_forall key hall]
    · rw [if_neg hab, filter_cons, ih hl.2, filter_cons]
      cases hpa : p a with
      | false => simp
      | true =>
        cases hpb : p b with
        | false => simp
        | true => simp [hab]

/-- Selecting and ordering commute, since the order is stable. -/
theorem filter_descending (p : ρ → Bool) (l : List ρ) :
    (descending key l).filter p = descending key (l.filter p) := by
  induction l with
  | nil => rfl
  | cons a l ih =>
    have hcons : descending key (a :: l) =
        (descending key l).orderedInsert (fun a b => key b ≤ key a) a := rfl
    rw [hcons, filter_orderedInsert key p a (descending_pairwise key l), ih, filter_cons]
    split <;> rfl

/-- Rows with equal keys stay in table order. -/
theorem descending_of_const {k : κ} (h : ∀ a ∈ l, key a = k) : descending key l = l := by
  induction l with
  | nil => rfl
  | cons a l ih =>
    have hrest := ih (fun b hb => h b (mem_cons_of_mem a hb))
    have hcons : descending key (a :: l) =
        (descending key l).orderedInsert (fun a b => key b ≤ key a) a := rfl
    rw [hcons, hrest]
    refine orderedInsert_of_forall key ?_
    intro b hb
    rw [h a mem_cons_self, h b (mem_cons_of_mem a hb)]

theorem orderedInsert_last {a : ρ} (h : ∀ b ∈ l, key a < key b) :
    l.orderedInsert (fun a b => key b ≤ key a) a = l ++ [a] := by
  induction l with
  | nil => rfl
  | cons b l ih =>
    have hb := h b mem_cons_self
    rw [orderedInsert_cons, if_neg (not_le.mpr hb), ih fun c hc => h c (mem_cons_of_mem b hc)]
    rfl

theorem descending_of_ascending (h : l.Pairwise (fun a b => key a < key b)) :
    descending key l = l.reverse := by
  induction l with
  | nil => rfl
  | cons a l ih =>
    rw [pairwise_cons] at h
    have hcons : descending key (a :: l) =
        (descending key l).orderedInsert (fun a b => key b ≤ key a) a := rfl
    rw [hcons, ih h.2, reverse_cons]
    apply orderedInsert_last
    intro b hb
    exact h.1 b (mem_reverse.mp hb)

end Order

section Rank

variable {ν : Type*} [LinearOrder κ] [DecidableEq ν] (key : ρ → κ) (name : ρ → ν)

/-- How many rows the sort puts before this one. -/
def ahead (l : List ρ) (r : ρ) : ℕ :=
  l.countP (fun a => decide (key r < key a)) +
    (l.takeWhile (fun a => decide (name a ≠ name r))).countP (fun a => decide (key a = key r))

/-- The number of rows before a row, read off the table without sorting it. -/
theorem length_left_eq_ahead (pre post left right : List ρ) (r : ρ)
    (hnames : ((pre ++ r :: post).map name).Nodup)
    (hsplit : descending key (pre ++ r :: post) = left ++ r :: right) :
    left.length = ahead key name (pre ++ r :: post) r := by
  have hnodup : (pre ++ r :: post).Nodup := List.Nodup.of_map name hnames
  have hpre : ∀ a ∈ pre, decide (name a ≠ name r) = true := by
    intro a ha
    rw [map_append, nodup_append] at hnames
    simpa using hnames.2.2 (name a) (mem_map_of_mem ha) (name r) (by simp)
  have hsorted := descending_pairwise key (pre ++ r :: post)
  rw [hsplit, pairwise_append, pairwise_cons] at hsorted
  obtain ⟨-, ⟨hright, -⟩, hleft⟩ := hsorted
  -- the greater keys all stand on the left
  have hgreater : left.countP (fun a => decide (key r < key a)) =
      (pre ++ r :: post).countP (fun a => decide (key r < key a)) := by
    have hzero : right.countP (fun a => decide (key r < key a)) = 0 := by
      rw [countP_eq_zero]
      intro a ha
      simpa using hright a ha
    rw [← (descending_perm key (pre ++ r :: post)).countP_eq, hsplit, countP_append,
      countP_cons_of_neg (by simp), hzero, Nat.add_zero]
  -- the rows of the same key keep their order
  have hequal : left.filter (fun a => decide (key a = key r)) =
      pre.filter (fun a => decide (key a = key r)) := by
    have hconst := descending_of_const key
      (l := ((pre ++ r :: post).filter (fun a => decide (key a = key r)))) (k := key r)
      (fun a ha => of_decide_eq_true (mem_filter.mp ha).2)
    rw [← filter_descending, hsplit, filter_append, filter_append,
      filter_cons_of_pos (by simp), filter_cons_of_pos (by simp)] at hconst
    have hpreNot : r ∉ pre.filter (fun a => decide (key a = key r)) :=
      fun h => (nodup_append.mp hnodup).2.2 r (mem_of_mem_filter h) r (by simp) rfl
    have hpostNot : r ∉ post.filter (fun a => decide (key a = key r)) :=
      fun h => (nodup_cons.mp (nodup_append.mp hnodup).2.1).1 (mem_of_mem_filter h)
    exact ((append_cons_inj_of_notMem hpreNot hpostNot).mp hconst.symm).1.symm
  have hlength := length_eq_countP_add_countP (fun a => decide (key r < key a)) (l := left)
  have hrest : left.countP (fun a => decide ¬ decide (key r < key a) = true) =
      left.countP (fun a => decide (key a = key r)) := by
    refine countP_congr ?_
    intro a ha
    have hle := hleft a ha r mem_cons_self
    simp only [decide_eq_true_eq, not_lt]
    exact ⟨fun h => le_antisymm h hle, fun h => h.le⟩
  unfold ahead
  rw [hlength, hrest, hgreater, takeWhile_append_of_pos hpre,
    countP_eq_length_filter (l := left), hequal]
  simp [countP_eq_length_filter]

/-- A row is on the first page exactly if fewer than `n` rows are ahead of it. -/
theorem mem_take_descending_iff {l : List ρ} (hnames : (l.map name).Nodup) {r : ρ} (hr : r ∈ l)
    (n : ℕ) : r ∈ (descending key l).take n ↔ ahead key name l r < n := by
  obtain ⟨pre, post, rfl⟩ := append_of_mem hr
  obtain ⟨left, right, hsplit⟩ := append_of_mem ((mem_descending key (pre ++ r :: post) r).mpr hr)
  have hnodup : (left ++ r :: right).Nodup := by
    rw [← hsplit, (descending_perm key _).nodup_iff]
    exact List.Nodup.of_map name hnames
  have hleft : r ∉ left := fun h => (nodup_append.mp hnodup).2.2 r h r (by simp) rfl
  rw [← length_left_eq_ahead key name pre post left right r hnames hsplit, hsplit]
  exact RowTables.mem_take_append_cons_iff left right n hleft

end Rank

section TwoKeys

variable [LinearOrder κ] [LinearOrder ι] (f : ρ → κ) (g : ρ → ι)

/-- Rows ordered by one key are ordered by another exactly if the keys never disagree. -/
theorem descending_pairwise_iff {l : List ρ} (hfine : ∀ a ∈ l, ∀ b ∈ l, f a = f b → g a = g b) :
    (descending f l).Pairwise (fun a b => g b ≤ g a) ↔ ∀ a ∈ l, ∀ b ∈ l, g a < g b → f a < f b := by
  constructor
  · intro h a ha b hb hab
    have hsymm : Std.Symm (fun x y => (f y ≤ f x ∧ g y ≤ g x) ∨ (f x ≤ f y ∧ g x ≤ g y)) :=
      ⟨fun _ _ => Or.symm⟩
    have hboth : (descending f l).Pairwise
        (fun x y => (f y ≤ f x ∧ g y ≤ g x) ∨ (f x ≤ f y ∧ g x ≤ g y)) :=
      ((descending_pairwise f l).and h).imp .inl
    have hrefl : ∀ x ∈ descending f l, (f x ≤ f x ∧ g x ≤ g x) ∨ (f x ≤ f x ∧ g x ≤ g x) :=
      fun x _ => .inl ⟨le_refl _, le_refl _⟩
    have hpair := List.Pairwise.forall_of_forall hrefl hboth
      ((mem_descending f l a).mpr ha) ((mem_descending f l b).mpr hb)
    rcases hpair with hfirst | hsecond
    · exact absurd hfirst.2 (not_le.mpr hab)
    · refine lt_of_le_of_ne hsecond.1 ?_
      intro heq
      exact absurd (hfine a ha b hb heq) (ne_of_lt hab)
  · intro h
    refine (descending_pairwise f l).imp_of_mem ?_
    intro a b ha hb hfab
    rw [mem_descending] at ha hb
    by_contra hlt
    exact absurd hfab (not_le.mpr (h a ha b hb (not_le.mp hlt)))

end TwoKeys

section LeftOut

variable (l : List ρ) (p q : ρ → Bool) (n : ℕ)

theorem filter_eq_take_append : l.filter q = (l.take n).filter q ++ (l.drop n).filter q := by
  rw [← filter_append, take_append_drop]

/-- The first rows are the first selected ones exactly if all of them are selected. -/
theorem take_eq_take_filter_iff : l.take n = (l.filter q).take n ↔ ∀ a ∈ l.take n, q a = true := by
  constructor
  · intro h a ha
    rw [h] at ha
    exact (mem_filter.mp (mem_of_mem_take ha)).2
  · intro h
    rw [filter_eq_take_append l q n, filter_eq_self.mpr h]
    by_cases hn : n ≤ l.length
    · rw [take_append_of_le_length (by rw [length_take]; omega), take_take, min_self]
    · rw [drop_eq_nil_of_le (by omega), filter_nil, append_nil, take_take, min_self]

theorem filter_take_eq_take_filter :
    (l.take n).filter q = (l.filter q).take ((l.take n).countP q) := by
  rw [filter_eq_take_append l q n, countP_eq_length_filter,
    take_append_of_le_length (le_refl _), take_length]

variable {p q}

theorem filter_take_filter (hpq : ∀ a, p a = true → q a = true) :
    (l.take n).filter p = ((l.filter q).take ((l.take n).countP q)).filter p := by
  rw [← filter_take_eq_take_filter, filter_filter]
  refine filter_congr ?_
  intro a _
  cases hp : p a with
  | false => rfl
  | true => rw [hpq a hp, Bool.and_self]

/-- Selecting after the limit can only lose rows. -/
theorem filter_take_sublist (hpq : ∀ a, p a = true → q a = true) :
    ((l.take n).filter p).Sublist (((l.filter q).take n).filter p) := by
  rw [filter_take_filter l n hpq]
  refine List.Sublist.filter p ?_
  exact take_sublist_take_left (countP_le_length.trans (length_take_le n l))

theorem filter_take_eq_iff (hl : l.Nodup) (hpq : ∀ a, p a = true → q a = true) :
    (l.take n).filter p = ((l.filter q).take n).filter p ↔
      ∀ a ∈ (l.filter q).take n, p a = true → a ∈ l.take n := by
  constructor
  · intro h a ha hp
    have hmem : a ∈ ((l.filter q).take n).filter p := mem_filter.mpr ⟨ha, hp⟩
    rw [← h] at hmem
    exact mem_of_mem_filter hmem
  · intro h
    refine (filter_take_sublist l n hpq).eq_of_length_le ?_
    have hnodup : (((l.filter q).take n).filter p).Nodup :=
      (filter_sublist.trans ((take_sublist n _).trans filter_sublist)).nodup hl
    have hsub : ((l.filter q).take n).filter p ⊆ (l.take n).filter p := by
      intro a ha
      obtain ⟨hin, hp⟩ := mem_filter.mp ha
      exact mem_filter.mpr ⟨h a hin hp, hp⟩
    exact (subperm_of_subset hnodup hsub).length_le

end LeftOut

/-- `LIMIT limit OFFSET offset`. -/
def window (limit offset : ℕ) (l : List ρ) : List ρ := (l.drop offset).take limit

/-- The offset of a page, as a product of 64 bits; an offset below zero counts as none. -/
def pageOffset (page pageSize : ℤ) : ℕ := (((page - 1) * pageSize).bmod (2 ^ 64)).toNat

theorem pageOffset_of_lt {index size : ℕ} (h : index * size < 2 ^ 63) :
    pageOffset (index + 1) size = index * size := by
  have hproduct : ((index : ℤ) + 1 - 1) * size = ((index * size : ℕ) : ℤ) := by
    push_cast
    ring
  unfold pageOffset
  rw [hproduct, Int.bmod_eq_of_le (by omega) (by omega)]
  rfl

/-- Consecutive pages are a prefix of the list, without gaps or repetitions. -/
theorem flatten_windows (l : List ρ) (size pages : ℕ) :
    ((List.range pages).map (fun i => window size (i * size) l)).flatten =
      l.take (pages * size) := by
  induction pages with
  | zero => simp
  | succ pages ih =>
    rw [range_succ, map_append, flatten_append, ih, Nat.succ_mul, take_add]
    simp [window]

end IronGolem.OrderedPages
