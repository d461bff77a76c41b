import Mathlib.Data.List.Sort

/-!
Tables of rows with a primary key, and the statements that read and write them. A table keeps its
rows in the order in which a scan visits them and carries the proof that no two rows share a key.
Seen from outside it is a partial map from keys to rows: `get` reads the map, and every write is
described by what it does to `get`.
-/
namespace IronGolem.RowTables

open List

variable {ρ κ : Type*}

section Ranking

variable (ord : ρ → ℤ)

def sorted (l : List ρ) : List ρ := l.insertionSort (fun a b => ord a ≤ ord b)

variable (l : List ρ)

theorem sorted_perm : (sorted ord l).Perm l := perm_insertionSort _ l

theorem sorted_pairwise : (sorted ord l).Pairwise (fun a b => ord a ≤ ord b) := by
  exact pairwise_insertionSort _ l

variable {a r : ρ} (left right : List ρ)

theorem orderedInsert_before (h : ord a ≤ ord r) :
    (left ++ r :: right).orderedInsert (fun a b => ord a ≤ ord b) a =
      left.orderedInsert (fun a b => ord a ≤ ord b) a ++ r :: right := by
  induction left with
  | nil => simp [h]
  | cons b left ih =>
    by_cases hb : ord a ≤ ord b
    · simp [hb]
    · simp [hb, ih]

theorem orderedInsert_after (hleft : ∀ b ∈ left, ord b < ord a) (h : ord r < ord a) :
    (left ++ r :: right).orderedInsert (fun a b => ord a ≤ ord b) a =
      left ++ r :: right.orderedInsert (fun a b => ord a ≤ ord b) a := by
  induction left with
  | nil => simp [h]
  | cons b left ih =>
    have hb : ord b < ord a := hleft b mem_cons_self
    have hrest := ih (fun c hc => hleft c (mem_cons_of_mem b hc))
    simp [if_neg (not_le.mpr hb), hrest]

theorem length_takeWhile_lt {l : List ρ} (hl : l.Pairwise (fun a b => ord a ≤ ord b)) :
    (l.takeWhile (fun b => decide (ord b < ord r))).length =
      l.countP (fun b => decide (ord b < ord r)) := by
  induction l with
  | nil => rfl
  | cons b l ih =>
    rw [pairwise_cons] at hl
    by_cases hb : ord b < ord r
    · simp [hb, ih hl.2]
    · have hnone : l.countP (fun c => decide (ord c < ord r)) = 0 := by
        rw [countP_eq_zero]
        intro c hc
        have hbc := hl.1 c hc
        simp only [decide_eq_true_eq]
        omega
      simp [hb, hnone]

def rankBetween (r : ρ) (pre post : List ρ) : ℕ :=
  pre.countP (fun a => decide (ord a ≤ ord r)) + post.countP (fun a => decide (ord a < ord r))

/-- Sorting puts an element behind as many others as are ranked before it. -/
theorem sorted_split (pre post : List ρ) :
    ∃ left right, sorted ord (pre ++ r :: post) = left ++ r :: right ∧
      left.length = rankBetween ord r pre post := by
  induction pre with
  | nil =>
    refine ⟨_, _, insertionSort_cons_eq_take_drop _ r post, ?_⟩
    have hcount := length_takeWhile_lt ord (r := r) (sorted_pairwise ord post)
    have hperm := (sorted_perm ord post).countP_eq (fun b => decide (ord b < ord r))
    unfold rankBetween
    rw [countP_nil, Nat.zero_add, ← hperm, ← hcount]
    simp [sorted]
  | cons a pre ih =>
    obtain ⟨left, right, hsplit, hlen⟩ := ih
    have hcons : sorted ord (a :: pre ++ r :: post) =
        (left ++ r :: right).orderedInsert (fun a b => ord a ≤ ord b) a := by
      rw [← hsplit]
      rfl
    by_cases ha : ord a ≤ ord r
    · refine ⟨_, right, hcons.trans (orderedInsert_before ord (a := a) (r := r) left right ha), ?_⟩
      unfold rankBetween at hlen ⊢
      rw [orderedInsert_length, countP_cons_of_pos (by simpa using ha), hlen]
      omega
    · have hra : ord r < ord a := not_le.mp ha
      have hleft : ∀ b ∈ left, ord b < ord a := by
        intro b hb
        have hpair := sorted_pairwise ord (pre ++ r :: post)
        rw [hsplit, pairwise_append] at hpair
        have hbr : ord b ≤ ord r := hpair.2.2 b hb r mem_cons_self
        omega
      refine ⟨left, _, hcons.trans (orderedInsert_after ord left right hleft hra), ?_⟩
      unfold rankBetween at hlen ⊢
      rw [countP_cons_of_neg (by simpa using ha), hlen]

theorem mem_take_append_cons_iff (n : ℕ) (hleft : r ∉ left) :
    r ∈ (left ++ r :: right).take n ↔ left.length < n := by
  rw [take_append]
  constructor
  · intro h
    rcases mem_append.mp h with hin | hin
    · exact absurd (mem_of_mem_take hin) hleft
    · by_contra hle
      rw [show n - left.length = 0 by omega, take_zero] at hin
      exact absurd hin not_mem_nil
  · intro h
    obtain ⟨m, hm⟩ : ∃ m, n - left.length = m + 1 := ⟨n - left.length - 1, by omega⟩
    rw [hm, take_succ_cons]
    exact mem_append_right _ mem_cons_self

/-- A row is among the first of the order exactly if its rank is below the limit. -/
theorem mem_take_sorted_iff {pre post : List ρ} (limit : ℕ) (hnodup : (pre ++ r :: post).Nodup) :
    r ∈ (sorted ord (pre ++ r :: post)).take limit ↔ rankBetween ord r pre post < limit := by
  obtain ⟨left, right, hsplit, hlen⟩ := sorted_split ord pre post
  have hsorted : (left ++ r :: right).Nodup := by
    rw [← hsplit, (sorted_perm ord _).nodup_iff]
    exact hnodup
  have hleft : r ∉ left := by
    intro hmem
    exact (nodup_append.mp hsorted).2.2 r hmem r mem_cons_self rfl
  rw [hsplit, ← hlen]
  exact mem_take_append_cons_iff (r := r) left right limit hleft

end Ranking

/-- The order in which a query comes upon its rows, that of the table or of an index. How two rows
come does not depend on the others. -/
structure Scan (ρ : Type*) where
  visit : List ρ → List ρ
  perm : ∀ l, (visit l).Perm l
  filter : ∀ (p : ρ → Bool) l, visit (l.filter p) = (visit l).filter p

def Scan.tableOrder : Scan ρ := ⟨id, Perm.refl, fun _ _ => rfl⟩

/-- Cutting to the count of passing elements leaves these if no failing one comes before them. -/
theorem mem_take_countP_iff (q : ρ → Bool) {l : List ρ} (hl : l.Nodup) :
    (∀ x, x ∈ l.take (l.countP q) ↔ x ∈ l ∧ q x = true) ↔
      l.Pairwise (fun a b => q b = true → q a = true) := by
  induction l with
  | nil => simp
  | cons a l ih =>
    rw [nodup_cons] at hl
    rw [pairwise_cons]
    by_cases ha : q a = true
    · have hhead : ∀ b ∈ l, q b = true → q a = true := fun _ _ _ => ha
      rw [countP_cons_of_pos ha, take_succ_cons, and_iff_right hhead, ← ih hl.2]
      refine forall_congr' fun x => ?_
      by_cases hx : x = a
      · have htake : a ∉ l.take (l.countP q) := fun hmem => hl.1 (mem_of_mem_take hmem)
        simp [hx, ha, hl.1, htake]
      · simp [hx]
    · rw [countP_cons_of_neg ha]
      constructor
      · intro h
        have hzero : l.countP q = 0 := by
          by_contra hpos
          obtain ⟨n, hn⟩ := Nat.exists_eq_succ_of_ne_zero hpos
          have hmem : a ∈ (a :: l).take (l.countP q) := by simp [hn]
          exact ha ((h a).mp hmem).2
        have hnone : ∀ b ∈ l, ¬ q b = true := countP_eq_zero.mp hzero
        refine ⟨fun b hb hq => absurd hq (hnone b hb), ?_⟩
        refine pairwise_iff_forall_sublist.mpr ?_
        intro b c hsub hq
        exact absurd hq (hnone c (hsub.subset (by simp)))
      · rintro ⟨hhead, -⟩ x
        have hnone : ∀ b ∈ l, ¬ q b = true := fun b hb hq => ha (hhead b hb hq)
        rw [countP_eq_zero.mpr hnone, take_zero]
        refine iff_of_false not_mem_nil ?_
        rintro ⟨hx, hq⟩
        rcases mem_cons.mp hx with rfl | hx
        · exact ha hq
        · exact hnone x hx hq

structure Table (key : ρ → κ) where
  rows : List ρ
  nodup : (rows.map key).Nodup

namespace Table

variable {key : ρ → κ}

instance [DecidableEq ρ] : DecidableEq (Table key) := fun t u =>
  decidable_of_iff (t.rows = u.rows) (by cases t; cases u; simp)

def empty : Table key := ⟨[], List.nodup_nil⟩

variable (t : Table key) (p : ρ → Bool)

/-- `UPDATE … SET f WHERE p`; an update never writes the key. -/
def update (f : ρ → ρ) (hf : ∀ r, key (f r) = key r) : Table key where
  rows := t.rows.map (fun r => if p r then f r else r)
  nodup := by
    have hkeys : (t.rows.map (fun r => if p r then f r else r)).map key = t.rows.map key := by
      rw [List.map_map]
      apply List.map_congr_left
      intro r _
      show key (if p r then f r else r) = key r
      split
      · exact hf r
      · rfl
    exact hkeys ▸ t.nodup

def affected : ℕ := t.rows.countP p

/-- `DELETE … WHERE p`. -/
def delete : Table key where
  rows := t.rows.filter (fun r => !p r)
  nodup := (List.filter_sublist.map key).nodup t.nodup

variable (t : Table key) (p : ρ → Bool) (r : ρ)

theorem mem_delete_of_not (hr : r ∈ t.rows) (hp : p r = false) : r ∈ (t.delete p).rows :=
  mem_filter.mpr ⟨hr, by simp [hp]⟩

/-- `SELECT … WHERE p ORDER BY ord ASC LIMIT limit`; rows of equal rank stay as they are come
upon. -/
def select (t : Table key) (scan : Scan ρ) (p : ρ → Bool) (ord : ρ → ℤ) (limit : ℕ) : List ρ :=
  (sorted ord (scan.visit (t.rows.filter p))).take limit

/-- The key is a primary key. -/
theorem eq_of_key_eq (a b : ρ) (ha : a ∈ t.rows) (hb : b ∈ t.rows) (hkey : key a = key b) : a = b :=
  inj_on_of_nodup_map t.nodup ha hb hkey

theorem eq_of_map_key_eq (l m : List ρ) (hl : ∀ r ∈ l, r ∈ t.rows)
    (hm : ∀ r ∈ m, r ∈ t.rows) (h : l.map key = m.map key) : l = m := by
  induction l generalizing m with
  | nil => exact (map_eq_nil_iff.mp h.symm).symm
  | cons a l ih =>
    cases m with
    | nil => cases h
    | cons b m =>
      rw [map_cons, map_cons, cons.injEq] at h
      have hab := t.eq_of_key_eq a b (hl a mem_cons_self) (hm b mem_cons_self) h.1
      rw [hab, ih m (fun r hr => hl r (mem_cons_of_mem a hr))
        (fun r hr => hm r (mem_cons_of_mem b hr)) h.2]

section

variable [DecidableEq κ] (t : Table key)

def get (k : κ) : Option ρ := t.rows.find? (fun r => decide (key r = k))

/-- `INSERT`, refused when the key is taken. -/
def insert (r : ρ) : Option (Table key) :=
  if h : key r ∈ t.rows.map key then none
  else some ⟨t.rows ++ [r], by
    rw [List.map_append, List.map_singleton, List.nodup_append]
    refine ⟨t.nodup, List.nodup_singleton _, ?_⟩
    intro a ha b hb hab
    rw [List.mem_singleton] at hb
    exact h (hb ▸ hab ▸ ha)⟩

/-- `INSERT OR REPLACE`: a row with the same key goes, and the new row is the last one. -/
def replace (r : ρ) : Table key where
  rows := (t.delete (fun s => decide (key s = key r))).rows ++ [r]
  nodup := by
    rw [List.map_append, List.nodup_append]
    refine ⟨(t.delete _).nodup, List.nodup_singleton _, ?_⟩
    intro a ha b hb hab
    obtain ⟨s, hs, rfl⟩ := List.mem_map.mp ha
    have hkept := (List.mem_filter.mp hs).2
    rw [List.map_singleton, List.mem_singleton] at hb
    simp [hab, hb] at hkept

variable (k : κ)

theorem get_eq_some_iff (r : ρ) : t.get k = some r ↔ r ∈ t.rows ∧ key r = k := by
  unfold get
  constructor
  · intro h
    exact ⟨mem_of_find?_eq_some h, by simpa using find?_some h⟩
  · rintro ⟨hr, rfl⟩
    cases hfind : t.rows.find? (fun s => decide (key s = key r)) with
    | none =>
      rw [find?_eq_none] at hfind
      exact absurd (hfind r hr) (by simp)
    | some s =>
      have hs : key s = key r := by simpa using find?_some hfind
      rw [t.eq_of_key_eq s r (mem_of_find?_eq_some hfind) hr hs]

theorem get_eq_none_iff : t.get k = none ↔ ∀ r ∈ t.rows, key r ≠ k := by
  simp [get]

theorem mem_rows_iff : r ∈ t.rows ↔ t.get (key r) = some r := by
  rw [get_eq_some_iff]
  exact (and_iff_left rfl).symm

theorem key_of_get (r : ρ) (h : t.get k = some r) : key r = k :=
  ((t.get_eq_some_iff k r).mp h).2

variable (f : ρ → ρ)

@[simp] theorem get_update (hf : ∀ r, key (f r) = key r) (k : κ) :
    (t.update p f hf).get k = (t.get k).map (fun r => if p r then f r else r) := by
  have hkey : ∀ r, key (if p r then f r else r) = key r := by
    intro r
    split
    · exact hf r
    · rfl
  have htest : (fun s => decide (key s = k)) ∘ (fun r => if p r then f r else r) =
      fun r => decide (key r = k) := by
    funext r
    simp [hkey]
  unfold get update
  rw [find?_map, htest]

theorem get_update_key (hf : ∀ r, key (f r) = key r) (k' : κ) :
    (t.update (fun r => decide (key r = k)) f hf).get k' =
      if k' = k then (t.get k).map f else t.get k' := by
  rw [get_update]
  by_cases hk : k' = k
  · subst hk
    cases hget : t.get k' with
    | none => simp
    | some r => simp [t.key_of_get k' r hget]
  · cases hget : t.get k' with
    | none => simp [hk]
    | some r =>
      have hkey : ¬ key r = k := fun h => hk ((t.key_of_get k' r hget).symm.trans h)
      simp [hk, hkey]

@[simp] theorem get_delete : (t.delete p).get k = (t.get k).filter (fun r => !p r) := by
  cases h : t.get k with
  | none =>
    rw [get_eq_none_iff] at h
    rw [Option.filter_none, get_eq_none_iff]
    intro r hr
    exact h r (mem_of_mem_filter hr)
  | some r =>
    obtain ⟨hr, rfl⟩ := (t.get_eq_some_iff k r).mp h
    cases hp : p r with
    | true =>
      have hfilter : (some r).filter (fun s => !p s) = none := by simp [hp]
      rw [hfilter, get_eq_none_iff]
      intro s hs hkey
      obtain ⟨hmem, hkeep⟩ := mem_filter.mp hs
      rw [t.eq_of_key_eq s r hmem hr hkey, hp] at hkeep
      exact absurd hkeep (by decide)
    | false =>
      have hfilter : (some r).filter (fun s => !p s) = some r := by simp [hp]
      rw [hfilter, get_eq_some_iff]
      exact ⟨mem_filter.mpr ⟨hr, by simp [hp]⟩, rfl⟩

/-- A deletion removes the row of a key or leaves it alone. -/
theorem get_delete_cases :
    ((∃ r ∈ t.rows, key r = k ∧ p r = true) ∧ (∃ r, t.get k = some r) ∧
      (t.delete p).get k = none) ∨
    (¬ (∃ r ∈ t.rows, key r = k ∧ p r = true) ∧ (t.delete p).get k = t.get k) := by
  rw [get_delete]
  by_cases h : ∃ r ∈ t.rows, key r = k ∧ p r = true
  · obtain ⟨r, hr, hkey, hp⟩ := h
    have hget : t.get k = some r := (t.get_eq_some_iff k r).mpr ⟨hr, hkey⟩
    refine .inl ⟨⟨r, hr, hkey, hp⟩, ⟨r, hget⟩, ?_⟩
    rw [hget]
    simp [hp]
  · refine .inr ⟨h, ?_⟩
    cases hget : t.get k with
    | none => rfl
    | some r =>
      obtain ⟨hr, hkey⟩ := (t.get_eq_some_iff k r).mp hget
      have hp : p r = false := by
        rw [← Bool.not_eq_true]
        exact fun hp => h ⟨r, hr, hkey, hp⟩
      simp [hp]

theorem mem_update_key_of_ne (hf : ∀ r, key (f r) = key r)
    (r : ρ) (hr : r ∈ t.rows) (hne : key r ≠ k) :
    r ∈ (t.update (fun r => decide (key r = k)) f hf).rows := by
  rw [mem_rows_iff, get_update_key, if_neg hne]
  exact (t.mem_rows_iff r).mp hr

theorem replace_replace (r' : ρ) (h : key r = key r') :
    (t.replace r).replace r' = t.replace r' := by
  simp [replace, delete, h, filter_filter]

theorem get_replace : (t.replace r).get k = if k = key r then some r else t.get k := by
  by_cases hk : k = key r
  · rw [if_pos hk, get_eq_some_iff]
    exact ⟨mem_append_right _ (mem_singleton_self r), hk.symm⟩
  · rw [if_neg hk]
    ext s
    rw [get_eq_some_iff, get_eq_some_iff]
    constructor
    · rintro ⟨hs, hkey⟩
      rcases mem_append.mp hs with hs | hs
      · exact ⟨mem_of_mem_filter hs, hkey⟩
      · rw [mem_singleton] at hs
        exact absurd (hkey.symm.trans (congrArg key hs)) hk
    · rintro ⟨hs, hkey⟩
      refine ⟨mem_append_left _ (t.mem_delete_of_not _ s hs ?_), hkey⟩
      exact decide_eq_false (fun h => hk (hkey.symm.trans h))

theorem mem_replace_of_ne (s r : ρ) (hr : r ∈ t.rows) (hne : key r ≠ key s) :
    r ∈ (t.replace s).rows :=
  mem_append_left _ (t.mem_delete_of_not _ r hr (by simp [hne]))

theorem get_eq_none_iff_key : t.get k = none ↔ k ∉ t.rows.map key := by
  rw [get_eq_none_iff]
  simp

theorem insert_eq_none_iff : t.insert r = none ↔ ¬ t.get (key r) = none := by
  rw [get_eq_none_iff_key]
  unfold insert
  split
  · rename_i hin
    simp [hin]
  · rename_i hout
    simp [hout]

variable (u : Table key)

theorem insert_eq_some_iff (r : ρ) :
    t.insert r = some u ↔ t.get (key r) = none ∧ u.rows = t.rows ++ [r] := by
  rw [get_eq_none_iff_key]
  unfold insert
  split
  · rename_i hin
    simp [hin]
  · rename_i hout
    cases u
    simp [hout, eq_comm]

theorem get_insert (r : ρ) (h : t.insert r = some u) (k : κ) :
    u.get k = if key r = k then some r else t.get k := by
  obtain ⟨hfree, hrows⟩ := (t.insert_eq_some_iff u r).mp h
  unfold get
  rw [hrows, find?_append]
  by_cases hk : key r = k
  · subst hk
    unfold get at hfree
    simp [hfree]
  · simp [hk]

theorem get_insert_of_some (r : ρ) (h : t.insert r = some u) (k : κ) (s : ρ)
    (hget : t.get k = some s) : u.get k = some s := by
  have hne : key r ≠ k := by
    intro heq
    have hfree := ((t.insert_eq_some_iff u r).mp h).1
    rw [heq, hget] at hfree
    exact absurd hfree (by simp)
  rw [t.get_insert u r h k, if_neg hne]
  exact hget

/-- `INSERT … ON CONFLICT (key) DO UPDATE`: a row with the same key is merged with the new one. -/
def upsert (merge : ρ → ρ → ρ) (hmerge : ∀ r old, key (merge r old) = key old)
    (r : ρ) : Table key :=
  (t.insert r).getD (t.update (fun s => decide (key s = key r)) (merge r) (hmerge r))

def merged (merge : ρ → ρ → ρ) (r : ρ) : ρ := (t.get (key r)).elim r (merge r)

/-- After an upsert the table has the merged row and the rows of the other keys. -/
theorem mem_upsert_iff (t : Table key) (merge : ρ → ρ → ρ)
    (hmerge : ∀ r old, key (merge r old) = key old) (r s : ρ) :
    s ∈ (t.upsert merge hmerge r).rows ↔ s = t.merged merge r ∨ (s ∈ t.rows ∧ key s ≠ key r) := by
  unfold upsert merged
  cases hget : t.get (key r) with
  | none =>
    obtain ⟨u, hu⟩ := Option.ne_none_iff_exists'.mp fun h => (t.insert_eq_none_iff r).mp h hget
    have hfree := (t.get_eq_none_iff (key r)).mp hget
    rw [hu, Option.getD_some, ((t.insert_eq_some_iff u r).mp hu).2, mem_append,
      mem_singleton, or_comm]
    exact or_congr_right (and_iff_left_of_imp (hfree s)).symm
  | some old =>
    obtain ⟨hold, hkey⟩ := (t.get_eq_some_iff _ old).mp hget
    rw [(t.insert_eq_none_iff r).mpr (by simp [hget]), Option.getD_none]
    constructor
    · intro h
      obtain ⟨x, hx, rfl⟩ := mem_map.mp h
      by_cases hxkey : key x = key r
      · rw [t.eq_of_key_eq x old hx hold (hxkey.trans hkey.symm)]
        exact .inl (by simp [hkey])
      · exact .inr (by simpa [hxkey] using hx)
    · rintro (rfl | ⟨hs, hskey⟩)
      · exact mem_map.mpr ⟨old, hold, by simp [hkey]⟩
      · exact mem_map.mpr ⟨s, hs, by simp [hskey]⟩

/-- A selection that neither the old nor the new row is in is unchanged. -/
theorem filter_upsert (t : Table key) (merge : ρ → ρ → ρ)
    (hmerge : ∀ r old, key (merge r old) = key old) (r : ρ) (q : ρ → Bool)
    (hold : ∀ old, t.get (key r) = some old → q old = false) (hnew : q (t.merged merge r) = false) :
    (t.upsert merge hmerge r).rows.filter q = t.rows.filter q := by
  unfold upsert
  cases hget : t.get (key r) with
  | none =>
    obtain ⟨u, hu⟩ := Option.ne_none_iff_exists'.mp fun h => (t.insert_eq_none_iff r).mp h hget
    rw [merged, hget, Option.elim_none] at hnew
    rw [hu, Option.getD_some, ((t.insert_eq_some_iff u r).mp hu).2]
    simp [hnew]
  | some old =>
    rw [merged, hget, Option.elim_some] at hnew
    rw [(t.insert_eq_none_iff r).mpr (by simp [hget]), Option.getD_none]
    obtain ⟨hmem, hkey⟩ := (t.get_eq_some_iff _ old).mp hget
    unfold update
    have hrow : ∀ x ∈ t.rows, key x = key r → x = old := fun x hx hxkey =>
      t.eq_of_key_eq x old hx hmem (hxkey.trans hkey.symm)
    -- the only row that the update changes is left out before and after
    rw [filter_map, filter_congr (q := q), map_congr_left (g := id), map_id]
    · intro x hx
      obtain ⟨hx, hq⟩ := mem_filter.mp hx
      have hxkey : key x ≠ key r := fun hxkey => by
        rw [hrow x hx hxkey, hold old hget] at hq
        cases hq
      simp [hxkey]
    · intro x hx
      by_cases hxkey : key x = key r
      · simp [hrow x hx hxkey, hkey, hnew, hold old hget]
      · simp [hxkey]

/-- The number of affected rows, counted over any keys that cover them. -/
theorem affected_eq_countP_keys (ks : List κ) (hks : ks.Nodup)
    (hcover : ∀ r ∈ t.rows, p r = true → key r ∈ ks) :
    t.affected p = ks.countP (fun k => (t.get k).any p) := by
  have hperm : ((t.rows.filter p).map key).Perm (ks.filter (fun k => (t.get k).any p)) := by
    rw [perm_ext_iff_of_nodup ((filter_sublist.map key).nodup t.nodup) (hks.filter _)]
    intro k
    rw [mem_map, mem_filter, Option.any_eq_true]
    constructor
    · rintro ⟨r, hr, rfl⟩
      obtain ⟨hmem, hp⟩ := mem_filter.mp hr
      exact ⟨hcover r hmem hp, r, (t.mem_rows_iff r).mp hmem, hp⟩
    · rintro ⟨-, r, hget, hp⟩
      obtain ⟨hmem, hkey⟩ := (t.get_eq_some_iff k r).mp hget
      exact ⟨r, mem_filter.mpr ⟨hmem, hp⟩, hkey⟩
  unfold affected
  rw [countP_eq_length_filter, countP_eq_length_filter, ← hperm.length_eq, length_map]

end

variable (scan : Scan ρ) (ord : ρ → ℤ)

theorem mem_visit (r : ρ) : r ∈ scan.visit (t.rows.filter p) ↔ r ∈ t.rows ∧ p r = true := by
  rw [(scan.perm _).mem_iff, mem_filter]

theorem visit_keys_nodup : ((scan.visit (t.rows.filter p)).map key).Nodup := by
  rw [((scan.perm _).map key).nodup_iff]
  exact (filter_sublist.map key).nodup t.nodup

theorem mem_of_mem_select (limit : ℕ) (r : ρ)
    (h : r ∈ t.select scan p ord limit) : r ∈ t.rows ∧ p r = true := by
  have hsorted := mem_of_mem_take h
  rwa [(sorted_perm ord _).mem_iff, mem_visit] at hsorted

/-- A selection lists no row twice, in whatever order the scan visits them. -/
theorem select_keys_nodup (limit : ℕ) : ((t.select scan p ord limit).map key).Nodup := by
  have hsorted := ((sorted_perm ord _).map key).nodup_iff.mpr (t.visit_keys_nodup p scan)
  exact ((take_sublist limit _).map key).nodup hsorted

theorem mem_select_of_le (limit : ℕ) (r : ρ)
    (hlen : t.affected p ≤ limit) (hr : r ∈ t.rows) (hp : p r = true) :
    r ∈ t.select scan p ord limit := by
  have hlength : (sorted ord (scan.visit (t.rows.filter p))).length ≤ limit := by
    rw [(sorted_perm ord _).length_eq, (scan.perm _).length_eq, ← countP_eq_length_filter]
    exact hlen
  unfold select
  rw [take_of_length_le hlength, (sorted_perm ord _).mem_iff, mem_visit]
  exact ⟨hr, hp⟩

/-- How many of the passing rows come before a row. -/
def ahead [DecidableEq κ] (t : Table key) (scan : Scan ρ) (p : ρ → Bool) (ord : ρ → ℤ) (r : ρ) :
    ℕ :=
  let rows := scan.visit (t.rows.filter p)
  (rows.takeWhile (fun a => decide (key a ≠ key r))).countP (fun a => decide (ord a ≤ ord r)) +
    (rows.dropWhile (fun a => decide (key a ≠ key r))).countP (fun a => decide (ord a < ord r))

theorem ahead_of_split [DecidableEq κ] (t : Table key) (p : ρ → Bool) (scan : Scan ρ)
    (ord : ρ → ℤ) (r : ρ) (pre post : List ρ)
    (hrows : scan.visit (t.rows.filter p) = pre ++ r :: post) :
    t.ahead scan p ord r = rankBetween ord r pre post := by
  have hpre : ∀ a ∈ pre, decide (key a ≠ key r) = true := by
    intro a ha
    have hnodup := t.visit_keys_nodup p scan
    rw [hrows, map_append, nodup_append] at hnodup
    simpa using hnodup.2.2 (key a) (mem_map_of_mem ha) (key r) (by simp)
  simp only [ahead, rankBetween, hrows, takeWhile_append_of_pos hpre, dropWhile_append_of_pos hpre]
  simp

/-- A row is selected exactly if it matches and fewer than `limit` rows come before it. -/
theorem mem_select_iff [DecidableEq κ] (t : Table key) (p : ρ → Bool) (scan : Scan ρ)
    (ord : ρ → ℤ) (limit : ℕ) (r : ρ) (hr : r ∈ t.rows) :
    r ∈ t.select scan p ord limit ↔ p r = true ∧ t.ahead scan p ord r < limit := by
  by_cases hp : p r = true
  · obtain ⟨pre, post, hrows⟩ := append_of_mem ((t.mem_visit p scan r).mpr ⟨hr, hp⟩)
    have hnodup : (pre ++ r :: post).Nodup := by
      rw [← hrows]
      exact List.Nodup.of_map key (t.visit_keys_nodup p scan)
    rw [t.ahead_of_split p scan ord r pre post hrows]
    unfold select
    rw [hrows, mem_take_sorted_iff ord limit hnodup]
    exact (and_iff_right hp).symm
  · refine iff_of_false ?_ (fun h => hp h.1)
    intro hmem
    exact hp (t.mem_of_mem_select p scan ord limit r hmem).2

end Table

end IronGolem.RowTables
