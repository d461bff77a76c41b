import IronGolem.SnapshotFidelity
import IronGolem.StoreHistory

/-!
Restoring a snapshot, and restoring what was there before. A checkout writes the files of a commit
over the working directory and removes nothing else, and the snapshot taken before it leaves out
the files over the limit.
-/
namespace IronGolem.RestoreUndo

open InterleavedPrograms GitObjects StoreCommands SharedStore StoreHistory SnapshotFidelity List

section

variable (git : Git) (limits : Limits)

/-- The files of a snapshot of these files. -/
def kept (w : FileTree) : FileTree := (dropped git limits w).getD w

theorem dropAll_subset {w index i : FileTree} {pieces : List (List Path)}
    (h : dropAll git w index pieces = some i) : i.files ⊆ index.files := by
  induction pieces generalizing index with
  | nil =>
    cases h
    exact Finset.Subset.refl _
  | cons piece rest ih =>
    rw [dropAll] at h
    split at h
    · rename_i left hleft
      exact (ih h).trans (git.unstaged_subset _ _ _ _ hleft)
    · cases h

theorem kept_subset (w : FileTree) : (kept git limits w).files ⊆ w.files := by
  unfold kept
  cases h : dropped git limits w with
  | none => exact Finset.Subset.refl _
  | some i => exact dropAll_subset git h

theorem blobs_mono {t u : FileTree} (h : t.files ⊆ u.files) : t.blobs ⊆ u.blobs :=
  Finset.image_subset_image h

theorem setIndex_self (s : Store) (p : Project) : s.setIndex p (s.index p) = s := by
  have h : (fun q => if q = p then s.index p else s.index q) = s.index := by
    funext q
    by_cases hq : q = p
    · rw [if_pos hq, hq]
    · rw [if_neg hq]
  unfold Store.setIndex
  rw [h]

theorem setIndex_setIndex (s : Store) (p : Project) (t u : FileTree) :
    (s.setIndex p t).setIndex p u = s.setIndex p u := by
  have h : (fun q => if q = p then u else (s.setIndex p t).index q) =
      fun q => if q = p then u else s.index q := by
    funext q
    by_cases hq : q = p
    · rw [if_pos hq, if_pos hq]
    · rw [if_neg hq, if_neg hq]
      exact if_neg hq
  unfold Store.setIndex at h ⊢
  rw [h]

theorem index_setIndex (s : Store) (p : Project) (t : FileTree) : (s.setIndex p t).index p = t :=
  if_pos rfl

variable {git limits} {p : Project} {s t : Store}

theorem runs_rmChunks {pieces : List (List Path)} {r : Except GitStoreError Unit}
    (h : Runs (effect git limits p) (rmChunks pieces) s t r) :
    match dropAll git (s.workdir p) (s.index p) pieces with
    | some i => r = .ok () ∧ t = s.setIndex p i | none => ∃ e, r = .error e := by
  induction pieces generalizing s with
  | nil =>
    obtain ⟨rfl, rfl⟩ := h
    exact ⟨rfl, (setIndex_self t p).symm⟩
  | cons piece rest ih =>
    rw [dropAll]
    cases hrm : git.unstaged (s.index p) (s.workdir p) piece with
    | none =>
      rcases (runs_attempt_iff _ _ _ s t r).mp h with ⟨u, a, ⟨now, -, hreply⟩, -⟩ | ⟨e, -, rfl⟩
      · simp only [effect, hrm] at hreply
        cases hreply
      · exact ⟨e, rfl⟩
    | some index =>
      rcases (runs_attempt_iff _ _ _ s t r).mp h with ⟨u, a, ⟨now, hu, -⟩, hrest⟩ |
        ⟨e, ⟨now, -, he⟩, -⟩
      · simp only [effect, hrm] at hu
        have hrec := ih hrest
        rw [hu, index_setIndex] at hrec
        simp only [setIndex_setIndex] at hrec
        exact hrec
      · simp only [effect, hrm] at he
        cases he

theorem runs_dropOversizeFiles {r : Except GitStoreError Unit}
    (h : Runs (effect git limits p) dropOversizeFiles s t r) :
    match dropAll git (s.workdir p) (s.index p)
      (chunks 100 (oversizeAt limits (s.workdir p) (git.listFiles (s.index p)))) with
    | some i => r = .ok () ∧ t = s.setIndex p i | none => ∃ e, r = .error e := by
  rcases (runs_attempt_iff _ _ _ s t r).mp h with ⟨u, paths, ⟨now, rfl, hpaths⟩, hrest⟩ |
    ⟨e, ⟨now, -, he⟩, -⟩
  · cases hpaths
    rcases (runs_attempt_iff _ _ _ _ t r).mp hrest with ⟨v, large, ⟨now', rfl, hlarge⟩, hrm⟩ |
      ⟨e, ⟨now', -, he⟩, -⟩
    · cases hlarge
      exact runs_rmChunks hrm
    · cases he
  · cases he

def stagedIn (s : Store) (p : Project) : Store :=
  { s.setIndex p (s.workdir p) with db := s.db.addBlobs (s.workdir p).blobs }

/-- What a snapshot leaves behind. -/
structure Took (p : Project) (s t : Store) (i : FileTree) : Prop where
  workdir : t.workdir = s.workdir
  excluded : t.excluded = s.excluded
  commits : s.db.commits ⊆ t.db.commits
  ref : ∃ c, t.ref p = some c ∧ c.tree = i

theorem runs_touchMeta {answer : Option Commit} {r : Except GitStoreError (Option Commit)}
    (h : Runs (effect git limits p)
      (do let _ ← ask .touchMeta; pure answer : Script (Option Commit)) s t r) :
    t = s ∧ r = .ok answer := by
  obtain ⟨now, hrest⟩ := runs_require_ok (effect git limits p) (c := .touchMeta) .ok _ (s := s)
    (t := t) (r := r) (fun _ => ()) (fun _ => rfl) h
  exact hrest

variable {reason : String} {old : Option Commit} {r : Except GitStoreError (Option Commit)}

theorem runs_record (hs : Sound s) (hold : s.ref p = old) (hblobs : (s.index p).blobs ⊆ s.db.blobs)
    (h : Runs (effect git limits p) (record p reason old) s t r) :
    (∃ a, r = .ok a) ∧ Took p s t (s.index p) := by
  obtain ⟨_, hcommit⟩ := runs_require_ok (effect git limits p) _ _
    (fun _ => s.index p) (fun now => by simp only [effect, if_pos hblobs]; rfl) h
  simp only [effect, if_pos hblobs] at hcommit
  have hparent : ∀ c ∈ old, c ∈ s.db.commits := by
    intro c hc
    exact hs.mem_of_ref p c (hold.trans hc)
  have hmade : ∀ now, commitTree git (s.db.addTree (s.index p)) now (orCheckpoint reason) old
      (.written (s.index p)) none =
        some (.mk (s.index p) old.toList now now (completeLine (orCheckpoint reason))) := by
    intro now
    have htree : s.index p ∈ (s.db.addTree (s.index p)).trees :=
      Finset.mem_union_right _ (s.index p).self_mem_subtrees
    simp only [commitTree, resolveTree, if_pos htree, commitDate]
    exact if_pos hparent
  obtain ⟨now, hupdate⟩ := runs_require_ok (effect git limits p) _ _
    (fun now => .mk (s.index p) old.toList now now (completeLine (orCheckpoint reason)))
    (fun now => by simp only [effect, hmade]; rfl) hcommit
  simp only [effect, hmade] at hupdate
  generalize hc : Commit.mk (s.index p) old.toList now now (completeLine (orCheckpoint reason)) = c
    at hupdate
  have href : ¬ (Store.ref { s with db := (s.db.addTree (s.index p)).addCommit c } p ≠ old) :=
    not_not.mpr hold
  have hstored : ¬ (c ∉ ((s.db.addTree (s.index p)).addCommit c).commits) :=
    not_not.mpr (Finset.mem_insert_self c _)
  obtain ⟨_, htouch⟩ := runs_require_ok (effect git limits p) _ _ (fun _ => ())
    (fun now => by simp [effect, if_neg href, if_neg hstored]) hupdate
  obtain ⟨rfl, rfl⟩ := runs_touchMeta htouch
  simp only [effect, if_neg href, if_neg hstored]
  refine ⟨⟨some c, rfl⟩, rfl, rfl, Finset.subset_insert c _, c, ?_, ?_⟩
  · rw [ref_setRef, if_pos rfl]
  · rw [← hc]
    rfl

theorem runs_compare (hs : Sound s) (hold : s.ref p = old) (hblobs : (s.index p).blobs ⊆ s.db.blobs)
    (h : Runs (effect git limits p) (do
      let same ← unchanged old
      if same then do
        let _ ← ask .touchMeta
        pure none
      else record p reason old : Script (Option Commit)) s t r) :
    (∃ a, r = .ok a) ∧ Took p s t (s.index p) := by
  cases old with
  | none => exact runs_record hs hold hblobs h
  | some old =>
    have hmem := hs.mem_of_ref p old hold
    have hstored : old ∈ s.db.commits ∧ old.tree.subtrees ⊆ s.db.trees :=
      ⟨hmem, hs.closed.subtrees _ (hs.closed.tree old hmem)⟩
    obtain ⟨now, hrest⟩ := runs_require_ok (effect git limits p) _ _
      (fun _ => decide (s.index p = old.tree))
      (fun now => by simp only [effect, if_pos hstored]; rfl) h
    simp only [effect, if_pos hstored] at hrest
    split at hrest
    · rename_i hsame
      obtain ⟨rfl, rfl⟩ := runs_touchMeta hrest
      exact ⟨⟨none, rfl⟩, rfl, rfl, Finset.Subset.refl _, old, hold, (of_decide_eq_true hsame).symm⟩
    · exact runs_record hs hold hblobs hrest

theorem addAll_setIndex {x : FileTree} (hstaged : git.staged x (s.workdir p) = s.workdir p)
    (now : Date) : (effect git limits p .addAll now (s.setIndex p x)).1 = stagedIn s p := by
  have hindex :
      git.staged ((s.setIndex p x).index p) ((s.setIndex p x).workdir p) = s.workdir p := by
    rw [index_setIndex]
    exact hstaged
  simp only [effect, stagedIn, hindex]
  rw [setIndex_setIndex]
  rfl

theorem sound_stagedIn (hs : Sound s) (i : FileTree) : Sound ((stagedIn s p).setIndex p i) :=
  ⟨hs.closed.addBlobs _, hs.refs, hs.single⟩

theorem effect_readTree (git : Git) (limits : Limits) (hs : Sound s) (hold : s.ref p = old)
    (now : Date) :
    effect git limits p (.readTree old) now s = (s.setIndex p (treeOf old), some ()) := by
  cases old with
  | none => rfl
  | some old =>
    have hmem := hs.mem_of_ref p old hold
    exact if_pos ⟨hmem, hs.closed.subtrees _ (hs.closed.tree old hmem)⟩

theorem runs_takeInner (hs : Sound s) (hold : s.ref p = old)
    (hstaged : git.staged (treeOf old) (s.workdir p) = s.workdir p)
    (h : Runs (effect git limits p) (takeInner p reason old) s t r) :
    ((dropped git limits (s.workdir p)).isSome = true ∧ (∃ a, r = .ok a) ∧
        Took p s t (kept git limits (s.workdir p))) ∨
      (dropped git limits (s.workdir p) = none ∧ ∃ e, r = .error e) := by
  have hread := effect_readTree git limits hs hold
  obtain ⟨now, hadd⟩ := runs_require_ok (effect git limits p) _ _ (fun _ => ())
    (fun now => by rw [hread now]; rfl) h
  rw [hread now] at hadd
  obtain ⟨now', hdrop⟩ := runs_require_ok (effect git limits p) (c := .addAll) .ok _ (t := t)
    (r := r) (fun _ => ()) (fun _ => rfl) hadd
  rw [addAll_setIndex hstaged] at hdrop
  -- from here on the index is what is left of the working directory
  have hindex : (stagedIn s p).index p = s.workdir p := if_pos rfl
  have hspec : ∀ u r', Runs (effect git limits p) dropOversizeFiles (stagedIn s p) u r' →
      match dropped git limits (s.workdir p) with
      | some i => r' = .ok () ∧ u = (stagedIn s p).setIndex p i
      | none => ∃ e, r' = .error e := by
    intro u r' hruns
    have hdropped := runs_dropOversizeFiles hruns
    rw [hindex] at hdropped
    exact hdropped
  rcases (runs_attempt_iff _ _ _ _ t r).mp hdrop with ⟨u, a, hfirst, hrest⟩ | ⟨e, hfirst, rfl⟩
  · have hleft := hspec u _ hfirst
    cases hi : dropped git limits (s.workdir p) with
    | none =>
      rw [hi] at hleft
      obtain ⟨e, he⟩ := hleft
      cases he
    | some i =>
      rw [hi] at hleft
      obtain ⟨-, rfl⟩ := hleft
      have hkept : kept git limits (s.workdir p) = i := by rw [kept, hi, Option.getD_some]
      have hblobs : i.blobs ⊆ (stagedIn s p).db.blobs :=
        (blobs_mono (dropAll_subset git hi)).trans Finset.subset_union_right
      have hcompared := runs_compare (sound_stagedIn hs _) hold
        (by rw [index_setIndex]; exact hblobs) hrest
      rw [index_setIndex] at hcompared
      obtain ⟨hok, hworkdir, hexcluded, hcommits, href⟩ := hcompared
      exact .inl ⟨rfl, hok, hworkdir, hexcluded, hcommits, hkept ▸ href⟩
  · have hleft := hspec _ _ hfirst
    cases hi : dropped git limits (s.workdir p) with
    | none => exact .inr ⟨rfl, e, rfl⟩
    | some i =>
      rw [hi] at hleft
      cases hleft.1

/-- What a restore of a whole commit leaves behind. -/
structure Restored (git : Git) (limits : Limits) (p : Project) (c : Commit) (s t : Store) :
    Prop where
  count : (s.workdir p).files.card + s.excluded p ≤ limits.maxFileCount
  droppable : (dropped git limits (s.workdir p)).isSome = true
  nonempty : c.tree.files.Nonempty
  workdir : t.workdir p = c.tree.overlay (s.workdir p)
  excluded : t.excluded = s.excluded
  ref : ∃ snap, t.ref p = some snap ∧ snap.tree = kept git limits (s.workdir p)

variable {α : Type} {r : Except GitStoreError α}

theorem runs_sound {script : Script α} (hs : Sound s)
    (h : Runs (effect git limits p) script s t r) : Sound t :=
  runs_invariant _ Sound (fun c now _ => effect_sound git limits p c now) s t hs h

variable (f : Option Commit → Script α)

theorem runs_readRef
    (hs : Sound s) (h : Runs (effect git limits p) (do let old ← readRef; f old : Script α) s t r) :
    Runs (effect git limits p) (f (s.ref p)) s t r := by
  have hfound : (s.ref p).filter (fun c => decide (c ∈ s.db.commits)) = s.ref p := by
    cases href : s.ref p with
    | none => rfl
    | some c => exact Option.filter_some_pos (decide_eq_true (hs.mem_of_ref p c href))
  obtain ⟨now, hrest⟩ := runs_require_ok (effect git limits p) (c := .revParse) .ok _ (t := t)
    (r := r) (fun _ => s.ref p) (fun _ => congrArg Except.ok hfound) h
  exact hrest

theorem runs_counted (hs : Sound s) (h : Runs (effect git limits p) (do
      checkFileCount limits
      let old ← readRef
      f old : Script α) s t r) :
    ((s.workdir p).files.card + s.excluded p ≤ limits.maxFileCount ∧
        Runs (effect git limits p) (f (s.ref p)) s t r) ∨
      (limits.maxFileCount < (s.workdir p).files.card + s.excluded p ∧ ∃ e, r = .error e) := by
  by_cases hcount : limits.maxFileCount < (s.workdir p).files.card + s.excluded p
  · rcases (runs_attempt_iff _ _ _ s t r).mp h with ⟨u, a, ⟨now, -, ha⟩, -⟩ | ⟨e, -, rfl⟩
    · have hrefused : Except.ok a = Except.error (GitStoreError.tooManyFiles limits.maxFileCount) :=
        ha.trans (if_pos hcount)
      cases hrefused
    · exact .inr ⟨hcount, e, rfl⟩
  · refine .inl ⟨not_lt.mp hcount, ?_⟩
    obtain ⟨now, hread⟩ := runs_require_ok (effect git limits p) _ _ (fun _ => ())
      (fun now => if_neg hcount) h
    exact runs_readRef f hs hread

theorem effect_checkout (c : Commit) (now : Date) :
    effect git limits p (.checkout c none) now s =
      if c ∈ s.db.commits ∧ c.tree.files.Nonempty ∧ c.tree.blobs ⊆ s.db.blobs then
        ((s.setIndex p (c.tree.overlay (s.index p))).setWorkdir p
          (git.written c.tree (s.workdir p)), some ())
      else (s, none) := rfl

variable {c : Commit}

theorem runs_restore_ok (hs : Sound s)
    (hstaged : git.staged (treeOf (s.ref p)) (s.workdir p) = s.workdir p)
    (hwritten : git.written c.tree (s.workdir p) = c.tree.overlay (s.workdir p))
    (h : Runs (effect git limits p) (restore limits p c none) s t (.ok ())) :
    Restored git limits p c s t := by
  rcases runs_counted _ hs h with ⟨hcount, hinner⟩ | ⟨-, e, he⟩
  · rcases (runs_attempt_iff _ _ _ s t _).mp hinner with ⟨u, a, htake, hcheckout⟩ | ⟨e, -, he⟩
    · rcases runs_takeInner hs rfl hstaged htake with ⟨hdroppable, -, htook⟩ | ⟨-, e, he⟩
      · obtain ⟨now, rfl, hreply⟩ := hcheckout
        have hreply' := orFail_eq_ok hreply.symm
        rw [effect_checkout] at hreply' ⊢
        by_cases hchecked : c ∈ u.db.commits ∧ c.tree.files.Nonempty ∧ c.tree.blobs ⊆ u.db.blobs
        · rw [if_pos hchecked]
          obtain ⟨hworkdir, hexcluded, -, snap, hsnap, htree⟩ := htook
          refine ⟨hcount, hdroppable, hchecked.2.1, ?_, hexcluded, snap, hsnap, htree⟩
          rw [← hwritten, ← hworkdir]
          exact if_pos rfl
        · rw [if_neg hchecked] at hreply'
          cases hreply'
      · cases he
    · cases he
  · cases he

theorem runs_restore_returns {r : Except GitStoreError Unit} (hs : Sound s)
    (hstaged : git.staged (treeOf (s.ref p)) (s.workdir p) = s.workdir p)
    (hc : c ∈ s.db.commits) (hcount : (s.workdir p).files.card + s.excluded p ≤ limits.maxFileCount)
    (hdroppable : (dropped git limits (s.workdir p)).isSome = true)
    (hnonempty : c.tree.files.Nonempty)
    (h : Runs (effect git limits p) (restore limits p c none) s t r) : r = .ok () := by
  rcases runs_counted _ hs h with ⟨-, hinner⟩ | ⟨hmany, -⟩
  · rcases (runs_attempt_iff _ _ _ s t _).mp hinner with ⟨u, a, htake, hcheckout⟩ | ⟨e, htake, -⟩
    · rcases runs_takeInner hs rfl hstaged htake with ⟨-, -, htook⟩ | ⟨hnone, -⟩
      · have hsound := runs_sound hs htake
        have hmem := htook.commits hc
        have hblobs := hsound.closed.blobs _ (hsound.closed.tree c hmem)
        obtain ⟨now, -, rfl⟩ := hcheckout
        rw [effect_checkout, if_pos ⟨hmem, hnonempty, hblobs⟩]
        rfl
      · rw [hnone] at hdroppable
        cases hdroppable
    · rcases runs_takeInner hs rfl hstaged htake with ⟨-, ⟨a, ha⟩, -⟩ | ⟨hnone, -⟩
      · cases ha
      · rw [hnone] at hdroppable
        cases hdroppable
  · exact absurd hcount (not_le.mpr hmany)

end

/-- The files are those of the commit, and the snapshot gives the old ones back. -/
structure ExactAndUndone (git : Git) (limits : Limits) (p : Project) (c : Commit) (s t : Store) :
    Prop where
  exact : ∀ e, oversize limits e = false → (e ∈ (t.workdir p).files ↔ e ∈ c.tree.files)
  undone : ∃ snap, t.ref p = some snap ∧
    (∀ u r, Runs (effect git limits p) (restore limits p snap none) t u r →
      r = .ok () ∧ u.workdir p = s.workdir p) ∧
    ∀ e ∈ (s.workdir p).files, e ∉ (t.workdir p).files → e ∈ snap.tree.files

/-- Every file lies where the commit has one; what the commit brings is removed by the undo; a file
left out of the snapshot is that of the commit or not in its way; and the undo is not refused. -/
@[mk_iff] structure Reversible (git : Git) (limits : Limits) (p : Project) (c : Commit)
    (s : Store) : Prop where
  covered : ∀ e ∈ (s.workdir p).files, oversize limits e = false → ¬ c.tree.Clear e.1
  replaced : ∀ e ∈ c.tree.files,
    e ∈ (s.workdir p).files ∨ ¬ (kept git limits (s.workdir p)).Clear e.1
  spared : ∀ e ∈ (s.workdir p).files, e ∉ (kept git limits (s.workdir p)).files →
    e ∈ c.tree.files ∨ c.tree.Clear e.1
  something : (kept git limits (s.workdir p)).files.Nonempty
  count : (c.tree.overlay (s.workdir p)).files.card + s.excluded p ≤ limits.maxFileCount
  droppable : (dropped git limits (c.tree.overlay (s.workdir p))).isSome = true

/-- The restore and its undo stage and write the files as they are. -/
structure AsTheyAre (git : Git) (limits : Limits) (p : Project) (c : Commit) (s : Store) :
    Prop where
  staged : git.staged (treeOf (s.ref p)) (s.workdir p) = s.workdir p
  written : git.written c.tree (s.workdir p) = c.tree.overlay (s.workdir p)
  stagedBack : git.staged (kept git limits (s.workdir p)) (c.tree.overlay (s.workdir p)) =
    c.tree.overlay (s.workdir p)
  writtenBack : git.written (kept git limits (s.workdir p)) (c.tree.overlay (s.workdir p)) =
    (kept git limits (s.workdir p)).overlay (c.tree.overlay (s.workdir p))

instance (git : Git) (limits : Limits) (p : Project) (c : Commit) (s : Store) :
    Decidable (Reversible git limits p c s) := decidable_of_iff' _ (reversible_iff git limits p c s)

def firstTaken : Store × Except GitStoreError (Option Commit) :=
  exec (effect plainGit fourBytes "notes") ⟨0, 0⟩ (take fourBytes "notes" "first")
    (.bare (fun _ => aFile "a" 1))

def thenRestored (w : FileTree) (c : Commit) : Store × Except GitStoreError Unit :=
  exec (effect plainGit fourBytes "notes") ⟨0, 0⟩ (restore fourBytes "notes" c none)
    (edit ("notes", w, 0) firstTaken.1)

def overgrown : FileTree := (aFile "a" 9).overlay (aFile "b" 1)

end IronGolem.RestoreUndo
