import Mathlib.Data.Finset.Card
import Mathlib.Data.Finset.Union

/-!
Files, trees, commits and the object database of git. A tree is the finite set of its files with
their paths; no file lies below another one. An object is its own name, as it is where names are
hashes without collisions.
-/
namespace IronGolem.GitObjects

open List

abbrev Path := List String

abbrev Blob := List UInt8

inductive Mode
  | file
  | executable
  | symlink
  deriving DecidableEq

structure Entry where
  mode : Mode
  data : Blob
  deriving DecidableEq

def Touches (p q : Path) : Prop := p <+: q ∨ q <+: p

instance (p q : Path) : Decidable (Touches p q) := inferInstanceAs (Decidable (_ ∨ _))

/-- The files of a directory; there is no file where another one needs a directory. -/
structure FileTree where
  files : Finset (Path × Entry)
  apart : ∀ e ∈ files, ∀ f ∈ files, e.1 <+: f.1 → e = f
  deriving DecidableEq

namespace FileTree

variable (t u w : FileTree)

theorem eq_of_touches (e f : Path × Entry) (he : e ∈ t.files) (hf : f ∈ t.files)
    (h : Touches e.1 f.1) : e = f := by
  rcases h with h | h
  · exact t.apart e he f hf h
  · exact (t.apart f hf e he h).symm

@[ext] theorem ext_files (h : t.files = u.files) : t = u := by
  cases t
  cases h
  rfl

def empty : FileTree := ⟨∅, fun e he => absurd he (Finset.notMem_empty e)⟩

def only (p : Path) (x : Entry) : FileTree where
  files := {(p, x)}
  apart e he f hf _ := by rw [Finset.mem_singleton.mp he, Finset.mem_singleton.mp hf]

def filter (p : Path × Entry → Bool) : FileTree where
  files := t.files.filter (fun e => p e = true)
  apart e he f hf h :=
    t.apart e (Finset.mem_of_mem_filter e he) f (Finset.mem_of_mem_filter f hf) h

theorem mem_filter (p : Path × Entry → Bool) (e : Path × Entry) :
    e ∈ (t.filter p).files ↔ e ∈ t.files ∧ p e = true := Finset.mem_filter

def Clear (p : Path) : Prop := ∀ f ∈ t.files, ¬ Touches p f.1

instance (p : Path) : Decidable (t.Clear p) := inferInstanceAs (Decidable (∀ f ∈ t.files, _))

/-- The files of one tree written over another: what is in their way goes, the rest stays. -/
def overlay : FileTree where
  files := t.files ∪ w.files.filter (fun e => t.Clear e.1)
  apart := by
    intro e he f hf h
    rw [Finset.mem_union, Finset.mem_filter] at he hf
    rcases he with he | ⟨he, heClear⟩
    · rcases hf with hf | ⟨-, hfClear⟩
      · exact t.apart e he f hf h
      · exact absurd (Or.inr h) (hfClear e he)
    · rcases hf with hf | ⟨hf, -⟩
      · exact absurd (Or.inl h) (heClear f hf)
      · exact w.apart e he f hf h

/-- Checking out a tree replaces what lies at, above or below its files. -/
theorem mem_overlay (e : Path × Entry) :
    e ∈ (t.overlay w).files ↔ e ∈ t.files ∨ (e ∈ w.files ∧ t.Clear e.1) := by
  unfold overlay
  rw [Finset.mem_union, Finset.mem_filter]

/-- Files laid over a tree and partly restored give it back if nothing new stays or was in the way.
-/
theorem overlay_overlay_eq_iff (hu : u.files ⊆ w.files) :
    u.overlay (t.overlay w) = w ↔ (∀ e ∈ t.files, e ∈ w.files ∨ ¬ u.Clear e.1) ∧
      ∀ e ∈ w.files, e ∉ u.files → e ∈ t.files ∨ t.Clear e.1 := by
  constructor
  · intro h
    constructor
    · intro e he
      by_cases hclear : u.Clear e.1
      · left
        rw [← h, mem_overlay, mem_overlay]
        exact .inr ⟨.inl he, hclear⟩
      · exact .inr hclear
    · intro e he heu
      rw [← h, mem_overlay, mem_overlay] at he
      rcases he.resolve_left heu with ⟨he | ⟨-, hclear⟩, -⟩
      · exact .inl he
      · exact .inr hclear
  · rintro ⟨hnew, hold⟩
    ext e
    rw [mem_overlay, mem_overlay]
    constructor
    · rintro (he | ⟨he | ⟨he, -⟩, hclear⟩)
      · exact hu he
      · exact (hnew e he).resolve_right (not_not.mpr hclear)
      · exact he
    · intro he
      by_cases heu : e ∈ u.files
      · exact .inl heu
      · have hclear : u.Clear e.1 := by
          intro f hf htouch
          rw [w.eq_of_touches e f he (hu hf) htouch] at heu
          exact heu hf
        rcases hold e he heu with het | het
        · exact .inr ⟨.inl het, hclear⟩
        · exact .inr ⟨.inr ⟨he, het⟩, hclear⟩

def blobs : Finset Blob := t.files.image (fun e => e.2.data)

theorem mem_blobs (b : Blob) : b ∈ t.blobs ↔ ∃ e ∈ t.files, e.2.data = b := Finset.mem_image

/-- The files below a directory, with their paths from there. -/
def under (d : Path) : FileTree where
  files := (t.files.filter (fun e => d <+: e.1)).image (fun e => (e.1.drop d.length, e.2))
  apart := by
    intro e he f hf h
    obtain ⟨e', he', rfl⟩ := Finset.mem_image.mp he
    obtain ⟨f', hf', rfl⟩ := Finset.mem_image.mp hf
    obtain ⟨hemem, p, hp⟩ := Finset.mem_filter.mp he'
    obtain ⟨hfmem, q, hq⟩ := Finset.mem_filter.mp hf'
    have hsame : e' = f' := by
      refine t.apart e' hemem f' hfmem ?_
      rw [← hp, ← hq] at h ⊢
      simpa using h
    rw [hsame]

variable (d : Path)

theorem mem_under (e : Path × Entry) : e ∈ (t.under d).files ↔ (d ++ e.1, e.2) ∈ t.files := by
  unfold under
  rw [Finset.mem_image]
  constructor
  · rintro ⟨e', he', rfl⟩
    obtain ⟨hmem, p, hp⟩ := Finset.mem_filter.mp he'
    have hpath : d ++ e'.1.drop d.length = e'.1 := by
      rw [← hp]
      simp
    simp only [hpath]
    exact hmem
  · intro h
    exact ⟨(d ++ e.1, e.2), Finset.mem_filter.mpr ⟨h, prefix_append d e.1⟩, by simp⟩

theorem under_under (d' : Path) : (t.under d).under d' = t.under (d ++ d') := by
  ext e
  rw [mem_under, mem_under, mem_under, append_assoc]

def subtrees : Finset FileTree :=
  insert t ((t.files.biUnion (fun e => e.1.dropLast.inits.toFinset)).image t.under)

theorem mem_subtrees (u : FileTree) :
    u ∈ t.subtrees ↔ u = t ∨ ∃ e ∈ t.files, ∃ d, d <+: e.1.dropLast ∧ u = t.under d := by
  unfold subtrees
  simp only [Finset.mem_insert, Finset.mem_image, Finset.mem_biUnion, mem_toFinset, mem_inits]
  constructor
  · rintro (h | ⟨d, ⟨e, he, hd⟩, rfl⟩)
    · exact .inl h
    · exact .inr ⟨e, he, d, hd, rfl⟩
  · rintro (h | ⟨e, he, d, hd, rfl⟩)
    · exact .inl h
    · exact .inr ⟨d, ⟨e, he, hd⟩, rfl⟩

theorem self_mem_subtrees : t ∈ t.subtrees := (t.mem_subtrees t).mpr (.inl rfl)

theorem blobs_subset_of_mem_subtrees (u : FileTree) (h : u ∈ t.subtrees) : u.blobs ⊆ t.blobs := by
  rcases (t.mem_subtrees u).mp h with rfl | ⟨-, -, d, -, rfl⟩
  · exact Finset.Subset.refl _
  · intro b hb
    obtain ⟨e, he, rfl⟩ := (mem_blobs _ b).mp hb
    exact (t.mem_blobs _).mpr ⟨_, (t.mem_under d e).mp he, rfl⟩

theorem subtrees_subset (u : FileTree) (h : u ∈ t.subtrees) : u.subtrees ⊆ t.subtrees := by
  rcases (t.mem_subtrees u).mp h with rfl | ⟨-, -, d, -, rfl⟩
  · exact Finset.Subset.refl _
  intro v hv
  rcases ((t.under d).mem_subtrees v).mp hv with rfl | ⟨e, he, d', hd', rfl⟩
  · exact h
  by_cases hnil : e.1 = []
  · -- only the directory itself lies above a file without a path
    rw [hnil, dropLast_nil, prefix_nil] at hd'
    rw [hd', under_under, append_nil]
    exact h
  · refine (t.mem_subtrees _).mpr (.inr ⟨_, (t.mem_under d e).mp he, d ++ d', ?_, ?_⟩)
    · rw [dropLast_append_of_ne_nil hnil]
      exact (prefix_append_right_inj d).mpr hd'
    · exact t.under_under d d'

end FileTree

/-- A time with the minutes its zone is east of UTC. -/
structure Date where
  seconds : ℤ
  zone : ℤ
  deriving DecidableEq

inductive Commit
  | mk (tree : FileTree) (parents : List Commit) (authorDate committerDate : Date)
      (message : String)

namespace Commit

def tree : Commit → FileTree
  | mk tree _ _ _ _ => tree

def parents : Commit → List Commit
  | mk _ parents _ _ _ => parents

def authorDate : Commit → Date
  | mk _ _ authorDate _ _ => authorDate

def committerDate : Commit → Date
  | mk _ _ _ committerDate _ => committerDate

def message : Commit → String
  | mk _ _ _ _ message => message

mutual

def decEq : (a b : Commit) → Decidable (a = b)
  | mk t ps a c m, mk t' ps' a' c' m' =>
      match decEqAll ps ps' with
      | isTrue hps =>
          if h : t = t' ∧ a = a' ∧ c = c' ∧ m = m' then
            isTrue (by rw [hps, h.1, h.2.1, h.2.2.1, h.2.2.2])
          else isFalse (fun heq => h (by injection heq with h1 _ h3 h4 h5; exact ⟨h1, h3, h4, h5⟩))
      | isFalse hps => isFalse (fun heq => hps (by injection heq))

def decEqAll : (as bs : List Commit) → Decidable (as = bs)
  | [], [] => isTrue rfl
  | [], _ :: _ => isFalse (fun h => by cases h)
  | _ :: _, [] => isFalse (fun h => by cases h)
  | a :: as, b :: bs =>
      match decEq a b, decEqAll as bs with
      | isTrue hab, isTrue hrest => isTrue (by rw [hab, hrest])
      | isFalse hab, _ => isFalse (fun h => hab (by injection h))
      | _, isFalse hrest => isFalse (fun h => hrest (by injection h))

end

instance : DecidableEq Commit := decEq

mutual

def history : Commit → List Commit
  | mk t ps a c m => mk t ps a c m :: historyAll ps

def historyAll : List Commit → List Commit
  | [] => []
  | c :: cs => c.history ++ historyAll cs

end

variable (c : Commit)

theorem history_eq : c.history = c :: historyAll c.parents := by
  cases c
  rfl

theorem mem_historyAll (cs : List Commit) (a : Commit) :
    a ∈ historyAll cs ↔ ∃ c ∈ cs, a ∈ c.history := by
  induction cs with
  | nil => simp [historyAll]
  | cons c cs ih => simp [historyAll, ih]

theorem mem_history_iff (a : Commit) : a ∈ c.history ↔ a = c ∨ ∃ p ∈ c.parents, a ∈ p.history := by
  rw [history_eq, mem_cons, mem_historyAll]

theorem self_mem_history : c ∈ c.history := (mem_history_iff c c).mpr (.inl rfl)

theorem mem_history_of_parent (p a : Commit) (hp : p ∈ c.parents) (ha : a ∈ p.history) :
    a ∈ c.history := (mem_history_iff c a).mpr (.inr ⟨p, hp, ha⟩)

theorem induction_on {P : Commit → Prop} (h : ∀ c, (∀ p ∈ c.parents, P p) → P c) (c : Commit) :
    P c := by
  refine @Commit.rec P (fun ps => ∀ p ∈ ps, P p) ?_ ?_ ?_ c
  · intro t ps a d m ih
    exact h _ ih
  · intro p hp
    cases hp
  · intro p ps hp hps q hq
    rcases mem_cons.mp hq with rfl | hq
    · exact hp
    · exact hps q hq

theorem history_trans (a b : Commit) (ha : a ∈ c.history) (hb : b ∈ a.history) : b ∈ c.history := by
  induction c using induction_on with
  | h c ih =>
    rcases (mem_history_iff c a).mp ha with rfl | ⟨p, hp, hap⟩
    · exact hb
    · exact mem_history_of_parent c p b hp (ih p hp hap)

theorem historyAll_append (as bs : List Commit) :
    historyAll (as ++ bs) = historyAll as ++ historyAll bs := by
  induction as with
  | nil => rfl
  | cons a as ih => rw [cons_append, historyAll, historyAll, ih, append_assoc]

theorem historyAll_toList (c : Option Commit) : historyAll c.toList = (c.map history).getD [] := by
  cases c with
  | none => rfl
  | some c => exact append_nil _

/-- The history ends at a commit without parents. -/
theorem getLast_history_parents (a : Commit) (h : c.history.getLast? = some a) :
    a.parents = [] := by
  induction c using induction_on with
  | h c ih =>
    rw [history_eq] at h
    rcases eq_nil_or_concat c.parents with hnil | ⟨ps, q, hq⟩
    · rw [hnil] at h
      cases h
      exact hnil
    · -- the last parent's history comes last
      have hend : c :: historyAll c.parents = (c :: historyAll ps) ++ q.history := by
        rw [hq, concat_eq_append, historyAll_append, historyAll, historyAll, append_nil]
        rfl
      have hsome : ∃ b, q.history.getLast? = some b := by
        rw [history_eq]
        exact ⟨_, getLast?_eq_some_getLast (cons_ne_nil _ _)⟩
      obtain ⟨b, hb⟩ := hsome
      rw [hend, getLast?_append, hb] at h
      cases h
      exact ih q (by rw [hq]; simp) hb

def Linear (c : Commit) : Prop := ∀ a ∈ c.history, a.parents.length ≤ 1

end Commit

section Names

variable {α : Type} (s : Finset α) (p : α → Bool)

theorem existsUnique_of_card (h : (s.filter (fun a => p a = true)).card = 1) :
    ∃! a, a ∈ s ∧ p a = true := by
  obtain ⟨a, ha⟩ := Finset.card_eq_one.mp h
  have hmem : ∀ b, b ∈ s ∧ p b = true ↔ b = a := by
    intro b
    have hb : b ∈ s.filter (fun a => p a = true) ↔ b ∈ s ∧ p b = true := Finset.mem_filter
    rw [← hb, ha, Finset.mem_singleton]
  exact ⟨a, (hmem a).mpr rfl, fun b hb => (hmem b).mp hb⟩

def theOnly : Option α :=
  if h : (s.filter (fun a => p a = true)).card = 1 then
    some (Finset.choose (fun a => p a = true) s (existsUnique_of_card s p h))
  else none

theorem theOnly_eq_some {a : α} (h : theOnly s p = some a) : a ∈ s ∧ p a = true := by
  unfold theOnly at h
  split at h
  · cases h
    exact ⟨Finset.choose_mem _ _ _, Finset.choose_property (fun a => p a = true) s _⟩
  · cases h

theorem theOnly_of_unique {a : α} (ha : a ∈ s) (hp : p a = true)
    (hunique : ∀ b ∈ s, p b = true → b = a) : theOnly s p = some a := by
  have hcard : (s.filter (fun a => p a = true)).card = 1 := by
    rw [Finset.card_eq_one]
    refine ⟨a, ?_⟩
    ext b
    rw [Finset.mem_filter, Finset.mem_singleton]
    constructor
    · rintro ⟨hb, hpb⟩
      exact hunique b hb hpb
    · rintro rfl
      exact ⟨ha, hp⟩
  unfold theOnly
  rw [dif_pos hcard, Option.some.injEq]
  exact hunique _ (Finset.choose_mem _ _ _) (Finset.choose_property (fun a => p a = true) s _)

end Names

structure Database where
  blobs : Finset Blob
  trees : Finset FileTree
  commits : Finset Commit
  deriving DecidableEq

namespace Database

/-- What a stored object refers to is stored. -/
structure Closed (db : Database) : Prop where
  blobs : ∀ t ∈ db.trees, t.blobs ⊆ db.blobs
  subtrees : ∀ t ∈ db.trees, t.subtrees ⊆ db.trees
  tree : ∀ c ∈ db.commits, c.tree ∈ db.trees
  parents : ∀ c ∈ db.commits, ∀ p ∈ c.parents, p ∈ db.commits

def Complete (db : Database) (c : Commit) : Prop :=
  ∀ a ∈ c.history, a ∈ db.commits ∧ ∀ t ∈ a.tree.subtrees, t ∈ db.trees ∧ t.blobs ⊆ db.blobs

variable {db : Database}

theorem Closed.history (h : db.Closed) (c : Commit) (hc : c ∈ db.commits) :
    ∀ a ∈ c.history, a ∈ db.commits := by
  induction c using Commit.induction_on with
  | h c ih =>
    intro a ha
    rcases (Commit.mem_history_iff c a).mp ha with rfl | ⟨p, hp, hap⟩
    · exact hc
    · exact ih p hp (h.parents c hc p hp) a hap

/-- In a closed database every commit can be read in full. -/
theorem Closed.complete (h : db.Closed) (c : Commit) (hc : c ∈ db.commits) : db.Complete c := by
  intro a ha
  have hmem := h.history c hc a ha
  refine ⟨hmem, ?_⟩
  intro t ht
  have htree := h.subtrees a.tree (h.tree a hmem) ht
  exact ⟨htree, h.blobs t htree⟩

def addBlobs (db : Database) (bs : Finset Blob) : Database := { db with blobs := db.blobs ∪ bs }

def addTree (db : Database) (t : FileTree) : Database := { db with trees := db.trees ∪ t.subtrees }

def addCommit (db : Database) (c : Commit) : Database := { db with commits := insert c db.commits }

theorem Closed.addBlobs (h : db.Closed) (bs : Finset Blob) : (db.addBlobs bs).Closed where
  blobs t ht := (h.blobs t ht).trans Finset.subset_union_left
  subtrees := h.subtrees
  tree := h.tree
  parents := h.parents

theorem Closed.addTree (h : db.Closed) (t : FileTree) (ht : t.blobs ⊆ db.blobs) :
    (db.addTree t).Closed where
  blobs := by
    intro u hu
    rcases Finset.mem_union.mp hu with hu | hu
    · exact h.blobs u hu
    · exact (t.blobs_subset_of_mem_subtrees u hu).trans ht
  subtrees := by
    intro u hu
    rcases Finset.mem_union.mp hu with hu | hu
    · exact (h.subtrees u hu).trans Finset.subset_union_left
    · exact (t.subtrees_subset u hu).trans Finset.subset_union_right
  tree c hc := Finset.mem_union_left _ (h.tree c hc)
  parents := h.parents

theorem Closed.addCommit (h : db.Closed) (c : Commit) (htree : c.tree ∈ db.trees)
    (hparents : ∀ p ∈ c.parents, p ∈ db.commits) : (db.addCommit c).Closed where
  blobs := h.blobs
  subtrees := h.subtrees
  tree := by
    intro d hd
    rcases Finset.mem_insert.mp hd with rfl | hd
    · exact htree
    · exact h.tree d hd
  parents := by
    intro d hd p hp
    rcases Finset.mem_insert.mp hd with rfl | hd
    · exact Finset.mem_insert_of_mem (hparents p hp)
    · exact Finset.mem_insert_of_mem (h.parents d hd p hp)

/-- What is left when everything is deleted that cannot be reached from the roots. -/
def collect (db : Database) (roots : List Commit) : Database where
  blobs := db.blobs.filter (fun b => ∃ r ∈ roots, ∃ a ∈ r.history, b ∈ a.tree.blobs)
  trees := db.trees.filter (fun t => ∃ r ∈ roots, ∃ a ∈ r.history, t ∈ a.tree.subtrees)
  commits := db.commits.filter (fun c => ∃ r ∈ roots, c ∈ r.history)

theorem Closed.collect (h : db.Closed) (roots : List Commit) : (db.collect roots).Closed where
  blobs := by
    intro t ht b hb
    obtain ⟨hmem, r, hr, a, ha, hta⟩ := Finset.mem_filter.mp ht
    exact Finset.mem_filter.mpr
      ⟨h.blobs t hmem hb, r, hr, a, ha, a.tree.blobs_subset_of_mem_subtrees t hta hb⟩
  subtrees := by
    intro t ht u hu
    obtain ⟨hmem, r, hr, a, ha, hta⟩ := Finset.mem_filter.mp ht
    exact Finset.mem_filter.mpr
      ⟨h.subtrees t hmem hu, r, hr, a, ha, a.tree.subtrees_subset t hta hu⟩
  tree := by
    intro c hc
    obtain ⟨hmem, r, hr, hcr⟩ := Finset.mem_filter.mp hc
    exact Finset.mem_filter.mpr ⟨h.tree c hmem, r, hr, c, hcr, c.tree.self_mem_subtrees⟩
  parents := by
    intro c hc p hp
    obtain ⟨hmem, r, hr, hcr⟩ := Finset.mem_filter.mp hc
    refine Finset.mem_filter.mpr ⟨h.parents c hmem p hp, r, hr, ?_⟩
    exact r.history_trans c p hcr (c.mem_history_of_parent p p hp p.self_mem_history)

theorem mem_commits_collect (db : Database) (roots : List Commit) (r : Commit) (hr : r ∈ roots)
    (hmem : r ∈ db.commits) : r ∈ (db.collect roots).commits :=
  Finset.mem_filter.mpr ⟨hmem, r, hr, r.self_mem_history⟩

def reachable (roots : List Commit) : Database where
  blobs := (roots.flatMap Commit.history).toFinset.biUnion (fun a => a.tree.blobs)
  trees := (roots.flatMap Commit.history).toFinset.biUnion (fun a => a.tree.subtrees)
  commits := (roots.flatMap Commit.history).toFinset

theorem Closed.tree_mem (h : db.Closed) (roots : List Commit)
    (hroots : ∀ r ∈ roots, r ∈ db.commits) (r a : Commit) (hr : r ∈ roots) (ha : a ∈ r.history) :
    a.tree ∈ db.trees := h.tree a (h.history r (hroots r hr) a ha)

/-- Collecting garbage leaves exactly what can be reached. -/
theorem Closed.collect_eq (h : db.Closed) (roots : List Commit)
    (hroots : ∀ r ∈ roots, r ∈ db.commits) : db.collect roots = reachable roots := by
  unfold Database.collect reachable
  congr 1
  · ext b
    simp only [Finset.mem_filter, Finset.mem_biUnion, mem_toFinset, mem_flatMap]
    constructor
    · rintro ⟨-, r, hr, a, ha, hb⟩
      exact ⟨a, ⟨r, hr, ha⟩, hb⟩
    · rintro ⟨a, ⟨r, hr, ha⟩, hb⟩
      exact ⟨h.blobs _ (h.tree_mem roots hroots r a hr ha) hb, r, hr, a, ha, hb⟩
  · ext t
    simp only [Finset.mem_filter, Finset.mem_biUnion, mem_toFinset, mem_flatMap]
    constructor
    · rintro ⟨-, r, hr, a, ha, ht⟩
      exact ⟨a, ⟨r, hr, ha⟩, ht⟩
    · rintro ⟨a, ⟨r, hr, ha⟩, ht⟩
      exact ⟨h.subtrees _ (h.tree_mem roots hroots r a hr ha) ht, r, hr, a, ha, ht⟩
  · ext c
    simp only [Finset.mem_filter, mem_toFinset, mem_flatMap]
    constructor
    · rintro ⟨-, r, hr, hc⟩
      exact ⟨r, hr, hc⟩
    · rintro ⟨r, hr, hc⟩
      exact ⟨h.history r (hroots r hr) c hc, r, hr, hc⟩

end Database

end IronGolem.GitObjects
