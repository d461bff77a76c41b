import IronGolem.LogLines
import IronGolem.RestoreUndo

/-!
What a prune leaves of the history of a project.
The kept snapshots are read from the log and committed again, the oldest first, each on top of
the one before. So the new chain has the trees, dates and subjects of the newest commits of the
old one, and is determined by them; what is left of the database is what the refs reach.
-/
namespace IronGolem.PruneHistory

open InterleavedPrograms GitObjects StoreCommands SharedStore StoreHistory LogLines List RestoreUndo

def entry (c : Commit) : FileTree × Date × String := (c.tree, c.authorDate, subject c.message)

def again (c : Commit) (parent : Option Commit) : Commit :=
  .mk c.tree parent.toList c.authorDate c.authorDate (completeLine (subject c.message))

def rebuilt (cs : List Commit) : Option Commit := cs.foldr (fun c parent => some (again c parent))
    none

def chain (s : Store) (p : Project) : List Commit := ((s.ref p).map Commit.history).getD []

theorem entry_again {c : Commit} (parent : Option Commit) (h : subject c.message ≠ "") :
    entry (again c parent) = entry c := by
  have hsame := subject_completeLine (endsInWord_subject h) (notMem_subject c.message)
  simp only [entry, again, Commit.tree, Commit.authorDate, Commit.message] at hsame ⊢
  rw [hsame]

variable (cs : List Commit)

theorem history_rebuilt (h : ∀ c ∈ cs, subject c.message ≠ "") :
    ((rebuilt cs).map Commit.history |>.getD []).map entry = cs.map entry := by
  induction cs with
  | nil => rfl
  | cons c cs ih =>
    have hrest := ih (fun d hd => h d (mem_cons_of_mem c hd))
    have hhistory : (again c (rebuilt cs)).history =
        again c (rebuilt cs) :: ((rebuilt cs).map Commit.history).getD [] := by
      rw [Commit.history_eq, ← Commit.historyAll_toList]
      rfl
    show ((again c (rebuilt cs)).history).map entry = _
    rw [hhistory, map_cons, hrest, entry_again _ (h c mem_cons_self), map_cons]

theorem rebuilt_congr (as bs : List Commit) (h : as.map entry = bs.map entry) :
    rebuilt as = rebuilt bs := by
  induction as generalizing bs with
  | nil =>
    rw [map_nil, eq_comm, map_eq_nil_iff] at h
    rw [h]
  | cons a as ih =>
    cases bs with
    | nil => cases h
    | cons b bs =>
      rw [map_cons, map_cons, cons.injEq] at h
      obtain ⟨hentry, hrest⟩ := h
      simp only [entry, Prod.mk.injEq] at hentry
      obtain ⟨htree, hdate, hsubject⟩ := hentry
      show some (again a (rebuilt as)) = some (again b (rebuilt bs))
      rw [ih bs hrest]
      simp [again, htree, hdate, hsubject]

def collected (s : Store) : Store :=
  { s with db := Database.reachable (s.refs.rows.map Prod.snd) }

def pruned (p : Project) (n : ℕ) (s : Store) : Store :=
  if (chain s p).length ≤ n then s
  else match rebuilt ((chain s p).take n) with
    | none => s
    | some tip => collected (s.setRef p tip)

variable (s : Store) {p : Project} {tip : Commit}

theorem chain_of_ref (h : s.ref p = some tip) : chain s p = tip.history := by
  unfold chain
  rw [h]
  rfl

theorem chain_collected_setRef : chain (collected (s.setRef p tip)) p = tip.history := by
  refine chain_of_ref _ ?_
  show (s.setRef p tip).ref p = some tip
  rw [ref_setRef, if_pos rfl]

variable {n : ℕ}

theorem exists_rebuilt (hn : 1 ≤ n) (hcs : cs ≠ []) : ∃ tip, rebuilt (cs.take n) = some tip := by
  cases cs with
  | nil => exact absurd rfl hcs
  | cons c cs =>
    obtain ⟨m, rfl⟩ := Nat.exists_eq_add_of_le' hn
    exact ⟨_, rfl⟩

theorem pruned_of_lt {s : Store}
    (hlong : n < (chain s p).length) (htip : rebuilt ((chain s p).take n) = some tip) :
    pruned p n s = collected (s.setRef p tip) := by
  unfold pruned
  rw [if_neg (not_le.mpr hlong), htip]

theorem chain_pruned (hn : 1 ≤ n) {s : Store} (h : ∀ c ∈ chain s p, subject c.message ≠ "") :
    (chain (pruned p n s) p).map entry = ((chain s p).map entry).take n := by
  rcases Nat.lt_or_ge n (chain s p).length with hlong | hshort
  · obtain ⟨tip, htip⟩ := exists_rebuilt (chain s p) (n := n) hn (ne_nil_of_length_pos (by omega))
    have hentries := history_rebuilt ((chain s p).take n) (fun c hc => h c (mem_of_mem_take hc))
    rw [htip] at hentries
    rw [pruned_of_lt hlong htip, chain_collected_setRef, ← map_take]
    exact hentries
  · have hsame : pruned p n s = s := if_pos hshort
    rw [hsame, take_of_length_le (by rw [length_map]; exact hshort)]

theorem collected_setRef_setRef (c d : Commit) :
    collected ((collected (s.setRef p c)).setRef p d) = collected (s.setRef p d) := by
  have hrefs : ((collected (s.setRef p c)).setRef p d).refs = (s.setRef p d).refs :=
    s.refs.replace_replace (p, c) (p, d) rfl
  unfold collected at hrefs ⊢
  rw [hrefs]
  rfl

/-- One prune after another is the stronger of the two. -/
theorem pruned_pruned {k : ℕ} (hn : 1 ≤ n) (hk : 1 ≤ k) {s : Store}
    (h : ∀ c ∈ chain s p, subject c.message ≠ "") :
    pruned p n (pruned p k s) = pruned p (min n k) s := by
  rcases Nat.lt_or_ge k (chain s p).length with hlong | hshort
  · have hne : chain s p ≠ [] := ne_nil_of_length_pos (by omega)
    obtain ⟨tip, htip⟩ := exists_rebuilt (chain s p) hk hne
    have hfirst := pruned_of_lt hlong htip
    have hentries := chain_pruned hk h
    have hlength : (chain (pruned p k s) p).length = k := by
      have hmap := congrArg length hentries
      rw [length_map, length_take, length_map] at hmap
      omega
    rcases Nat.lt_or_ge n k with hnk | hnk
    · -- both build the chain of the same entries
      have hsame : rebuilt ((chain (pruned p k s) p).take n) = rebuilt ((chain s p).take n) := by
        refine rebuilt_congr _ _ ?_
        rw [map_take, hentries, take_take, Nat.min_eq_left hnk.le, map_take]
      obtain ⟨tip', htip'⟩ := exists_rebuilt (chain s p) hn hne
      rw [htip'] at hsame
      rw [Nat.min_eq_left hnk.le, pruned_of_lt (by omega) htip',
        pruned_of_lt (by omega) hsame, hfirst]
      exact collected_setRef_setRef s tip tip'
    · rw [Nat.min_eq_right hnk]
      exact if_pos (by omega)
  · -- the first prune finds nothing to do
    have hfirst : pruned p k s = s := if_pos hshort
    rw [hfirst]
    rcases Nat.le_total n k with hnk | hnk
    · rw [Nat.min_eq_left hnk]
    · rw [Nat.min_eq_right hnk, hfirst]
      exact if_pos (le_trans hshort hnk)

/-- What `prune` can read back: distinct tree names, dates as printed, and subjects. -/
structure Readable (git : Git) (p : Project) (s : Store) : Prop where
  distinct : ∀ t ∈ s.db.trees, ∀ u ∈ s.db.trees, git.treeName t = git.treeName u → t = u
  dates : ∀ c ∈ chain s p, git.readDate (git.dateText c.authorDate) = some c.authorDate
  subjects : ∀ c ∈ chain s p, subject c.message ≠ ""

section

variable {git : Git} {limits : Limits} {p : Project} {s t : Store}

theorem commitTree_keptOf {c : Commit} {parent : Option Commit} (now : Date)
    (hdistinct : ∀ t ∈ s.db.trees, ∀ u ∈ s.db.trees, git.treeName t = git.treeName u → t = u)
    (htree : c.tree ∈ s.db.trees)
    (hdate : git.readDate (git.dateText c.authorDate) = some c.authorDate)
    (hsubject : subject c.message ≠ "") (hparent : ∀ d ∈ parent, d ∈ s.db.commits) :
    commitTree git s.db now (orCheckpoint (keptOf git c).subject) parent
      (.printed (keptOf git c).tree) (some (keptOf git c).date) = some (again c parent) := by
  have hresolve : resolveTree git s.db (.printed (keptOf git c).tree) = some c.tree := by
    refine theOnly_of_unique _ _ htree (decide_eq_true rfl) ?_
    intro u hu hname
    exact hdistinct u hu c.tree htree (of_decide_eq_true hname)
  have hread : commitDate git now (some (keptOf git c).date) = some c.authorDate := hdate
  have hmessage : orCheckpoint (keptOf git c).subject = subject c.message := if_neg hsubject
  unfold commitTree
  rw [hresolve, hread, hmessage]
  simp only
  rw [if_pos hparent, again]

theorem runs_rebuild {cs : List Commit} (parent : Option Commit)
    {r : Except GitStoreError (Option Commit)}
    (hdistinct : ∀ t ∈ s.db.trees, ∀ u ∈ s.db.trees, git.treeName t = git.treeName u → t = u)
    (hcs : ∀ c ∈ cs, c.tree ∈ s.db.trees ∧
      git.readDate (git.dateText c.authorDate) = some c.authorDate ∧ subject c.message ≠ "")
    (hparent : ∀ d ∈ parent, d ∈ s.db.commits)
    (h : Runs (effect git limits p) (rebuild parent (cs.map (keptOf git))) s t r) :
    r = .ok (cs.foldl (fun parent c => some (again c parent)) parent) ∧
      t = { s with db := { s.db with commits := t.db.commits } } ∧
      ∀ d ∈ cs.foldl (fun parent c => some (again c parent)) parent, d ∈ t.db.commits := by
  induction cs generalizing parent s with
  | nil =>
    obtain ⟨rfl, rfl⟩ := h
    exact ⟨rfl, rfl, hparent⟩
  | cons c cs ih =>
    obtain ⟨htree, hdate, hsubject⟩ := hcs c mem_cons_self
    have hmade := fun now =>
      commitTree_keptOf now hdistinct htree hdate hsubject hparent
    obtain ⟨now, hrest⟩ := runs_require_ok (effect git limits p) _ _
      (fun _ => again c parent) (fun now => by simp only [effect, hmade]; rfl) h
    simp only [effect, hmade] at hrest
    have hparent' : ∀ d ∈ some (again c parent), d ∈ (s.db.addCommit (again c parent)).commits := by
      intro d hd
      cases hd
      exact Finset.mem_insert_self _ _
    obtain ⟨hr, ht, htip⟩ := ih (s := { s with db := s.db.addCommit (again c parent) })
      (some (again c parent)) hdistinct (fun d hd => hcs d (mem_cons_of_mem c hd)) hparent' hrest
    exact ⟨hr, ht, htip⟩

variable {r : Except GitStoreError Unit}

theorem runs_replaceChain {newTip : Commit} (hs : Sound s)
    (href : s.ref p = some tip) (hnew : newTip ∈ s.db.commits)
    (h : Runs (effect git limits p) (replaceChain p tip (some newTip)) s t r) :
    r = .ok () ∧ t = collected (s.setRef p newTip) ∧ t.db.trees ⊆ s.db.trees := by
  have hold : ¬ (s.ref p ≠ some tip) := not_not.mpr href
  have hstored : ¬ (newTip ∉ s.db.commits) := not_not.mpr hnew
  obtain ⟨_, hexpire⟩ := runs_require_ok (effect git limits p) _ _ (fun _ => ())
    (fun now => by simp [effect, if_neg hold, if_neg hstored]) h
  simp only [effect, if_neg hold, if_neg hstored] at hexpire
  obtain ⟨_, hgc⟩ := runs_require_ok (effect git limits p) (c := .reflogExpire) .ok _ (t := t)
    (r := r) (fun _ => ()) (fun _ => rfl) hexpire
  obtain ⟨_, hdone⟩ := runs_require_ok (effect git limits p) (c := .gc) .ok _ (t := t) (r := r)
    (fun _ => ()) (fun _ => rfl) hgc
  obtain ⟨rfl, rfl⟩ := hdone
  have hsound := hs.setRef p newTip hnew
  refine ⟨rfl, ?_, Finset.filter_subset _ _⟩
  have hdb := hsound.closed.collect_eq ((s.setRef p newTip).refs.rows.map Prod.snd) (by
    intro c hc
    obtain ⟨row, hrow, rfl⟩ := mem_map.mp hc
    exact hsound.refs row hrow)
  simp only [effect, collected]
  rw [hdb]

/-- A prune that runs alone goes through, and leaves the store that is given by its chain. -/
theorem runs_prune (hn : 1 ≤ n) (hs : Sound s) (hgit : Legible git) (hread : Readable git p s)
    (h : Runs (effect git limits p) (prune p n) s t r) :
    r = .ok () ∧ t = pruned p n s ∧ t.db.trees ⊆ s.db.trees := by
  unfold prune at h
  rw [if_neg (by omega)] at h
  have htip := runs_readRef _ hs h
  cases href : s.ref p with
  | none =>
    rw [href] at htip
    obtain ⟨rfl, rfl⟩ := htip
    have hchain : chain t p = [] := by
      unfold chain
      rw [href]
      rfl
    refine ⟨rfl, ?_, Finset.Subset.refl _⟩
    unfold pruned
    rw [if_pos (by rw [hchain]; exact Nat.zero_le n)]
  | some tip =>
    rw [href] at htip
    have hchain := chain_of_ref s href
    obtain ⟨_, hcount⟩ := runs_require_ok (effect git limits p) _ _
      (fun _ => tip.history.length) (fun now => by simp only [effect, href]; rfl) htip
    split at hcount
    · rename_i hshort
      obtain ⟨rfl, rfl⟩ := hcount
      refine ⟨rfl, ?_, Finset.Subset.refl _⟩
      unfold pruned
      rw [if_pos (by rw [hchain]; exact hshort)]
    · rename_i hlong
      obtain ⟨_, hlog⟩ := runs_require_ok (effect git limits p) _ _
        (fun _ => logText git n tip) (fun now => by simp only [effect, href]; rfl) hcount
      rw [filterMap_parseLine_logText hgit n
        (fun c hc => hread.subjects c (by rw [hchain]; exact hc)), ← map_reverse] at hlog
      have hkept : ∀ c ∈ (tip.history.take n).reverse, c.tree ∈ s.db.trees ∧
          git.readDate (git.dateText c.authorDate) = some c.authorDate ∧
          subject c.message ≠ "" := by
        intro c hc
        have hmem : c ∈ tip.history := mem_of_mem_take (mem_reverse.mp hc)
        have hin : c ∈ chain s p := by
          rw [hchain]
          exact hmem
        have hstored := hs.closed.history tip (hs.mem_of_ref p tip href) c hmem
        exact ⟨hs.closed.tree c hstored, hread.dates c hin, hread.subjects c hin⟩
      have hne : chain s p ≠ [] := by
        rw [hchain, Commit.history_eq]
        exact cons_ne_nil _ _
      obtain ⟨newTip, hnewTip⟩ := exists_rebuilt (chain s p) hn hne
      have hfold : (tip.history.take n).reverse.foldl (fun parent c => some (again c parent)) none =
          some newTip := by
        rw [foldl_reverse, ← hchain]
        exact hnewTip
      rcases (runs_attempt_iff _ _ _ _ t r).mp hlog with ⟨u, made, hrebuild, hreplace⟩ |
        ⟨e, hrebuild, -⟩
      · have hsound := runs_sound hs hrebuild
        obtain ⟨hmade, hu, hin⟩ := runs_rebuild none hread.distinct hkept (by simp) hrebuild
        rw [hfold] at hmade hin
        cases hmade
        have href' : u.ref p = some tip := by
          rw [hu]
          exact href
        obtain ⟨hr, ht, htrees⟩ := runs_replaceChain hsound href' (hin newTip rfl) hreplace
        refine ⟨hr, ?_, ?_⟩
        · rw [ht, pruned_of_lt (by rw [hchain]; omega) hnewTip, hu]
          rfl
        · rw [hu] at htrees
          exact htrees
      · obtain ⟨hmade, -, -⟩ := runs_rebuild none hread.distinct hkept (by simp) hrebuild
        cases hmade

end

theorem Readable.pruned {git : Git} {s t : Store} (h : Readable git p s) (n : ℕ)
    (hn : 1 ≤ n) (ht : t = PruneHistory.pruned p n s) (htrees : t.db.trees ⊆ s.db.trees) :
    Readable git p t := by
  have hentries := chain_pruned hn h.subjects
  rw [← ht] at hentries
  have hold : ∀ c ∈ chain t p, ∃ d ∈ chain s p, entry d = entry c := by
    intro c hc
    have hmem := mem_map_of_mem (f := entry) hc
    rw [hentries] at hmem
    exact mem_map.mp (mem_of_mem_take hmem)
  refine ⟨fun a ha b hb => h.distinct a (htrees ha) b (htrees hb), ?_, ?_⟩
  · intro c hc
    obtain ⟨d, hd, hentry⟩ := hold c hc
    have hdate : d.authorDate = c.authorDate := congrArg (fun e => e.2.1) hentry
    rw [← hdate]
    exact h.dates d hd
  · intro c hc
    obtain ⟨d, hd, hentry⟩ := hold c hc
    have hsubject : subject d.message = subject c.message := congrArg (fun e => e.2.2) hentry
    rw [← hsubject]
    exact h.subjects d hd

/-- A prune that runs alone leaves exactly the newest entries, and two prunes leave what one prune
to the smaller number leaves. -/
theorem prune_keeps_newest (git : Git) (limits : Limits) (p : Project) (s : Store) (n : ℕ)
    (hn : 1 ≤ n) (hs : Sound s) (hgit : Legible git) (hread : Readable git p s) :
    (∀ t r, Runs (effect git limits p) (prune p n) s t r →
      r = .ok () ∧ (chain t p).map entry = ((chain s p).map entry).take n ∧
        ∀ c, (chain t p).getLast? = some c → c.parents = []) ∧
    (∀ k, 1 ≤ k → ∀ u t v r₁ r₂ r₃, Runs (effect git limits p) (prune p k) s u r₁ →
      Runs (effect git limits p) (prune p n) u t r₂ →
      Runs (effect git limits p) (prune p (min n k)) s v r₃ → t = v) := by
  refine ⟨?_, ?_⟩
  · intro t r hrun
    obtain ⟨hr, ht, -⟩ := runs_prune hn hs hgit hread hrun
    refine ⟨hr, ?_, ?_⟩
    · rw [ht]
      exact chain_pruned hn hread.subjects
    · intro c hc
      cases href : t.ref p with
      | none =>
        unfold chain at hc
        rw [href] at hc
        cases hc
      | some tip =>
        rw [chain_of_ref t href] at hc
        exact tip.getLast_history_parents c hc
  · intro k hk u t v r₁ r₂ r₃ hfirst hsecond hboth
    obtain ⟨-, hu, htrees⟩ := runs_prune hk hs hgit hread hfirst
    have hsound := runs_sound hs hfirst
    obtain ⟨-, ht, -⟩ := runs_prune hn hsound hgit (hread.pruned k hk hu htrees) hsecond
    obtain ⟨-, hv, -⟩ := runs_prune (by omega) hs hgit hread hboth
    rw [ht, hu, hv]
    exact pruned_pruned hn hk hread.subjects

theorem legible_plainGit : Legible plainGit := by
  have hbar : ∀ n, '|' ∉ (hexText n).toList := by
    intro n
    rw [hexText, String.toList_ofList]
    exact Identifiers.notMem_toHex (by decide) 8 n
  have hbreak : ∀ n, '\n' ∉ (hexText n).toList := by
    intro n
    rw [hexText, String.toList_ofList]
    exact Identifiers.notMem_toHex (by decide) 8 n
  refine ⟨fun c => ⟨hbar _, hbreak _⟩, fun t => ⟨hbar _, hbreak _⟩, fun d => ?_⟩
  constructor
  · show '|' ∉ (hexText _ ++ hexText _).toList
    rw [String.toList_append, mem_append, not_or]
    exact ⟨hbar _, hbar _⟩
  · show '\n' ∉ (hexText _ ++ hexText _).toList
    rw [String.toList_append, mem_append, not_or]
    exact ⟨hbreak _, hbreak _⟩

def takenOf (reason : String) (w : FileTree) (s : Store) : Store :=
  (exec (effect plainGit .default "notes") ⟨5, 0⟩ (take .default "notes" reason)
    (edit ("notes", w, 0) s)).1

def threeTaken : Store :=
  takenOf "third" .empty (takenOf "a|b" ((aFile "a" 1).overlay (aFile "b" 1))
    (takenOf "first" (aFile "a" 1) (.bare (fun _ => .empty))))

theorem sound_takenOf (reason : String) (w : FileTree) {s : Store} (hs : Sound s) :
    Sound (takenOf reason w s) := by
  have hedited : Sound (edit ("notes", w, 0) s) := ⟨hs.closed, hs.refs, hs.single⟩
  exact runs_sound hedited (runs_exec _ _ _ _)

theorem two_of_three_kept :
    (chain threeTaken "notes").map (fun c => subject c.message) = ["third", "a|b", "first"] ∧
      ∃ t, Runs (effect plainGit .default "notes") (prune "notes" 2) threeTaken t (.ok ()) ∧
        (chain t "notes").map entry = ((chain threeTaken "notes").map entry).take 2 := by
  have hsound : Sound threeTaken :=
    sound_takenOf _ _ (sound_takenOf _ _ (sound_takenOf _ _ (sound_bare _)))
  have hread : Readable plainGit "notes" threeTaken :=
    ⟨by decide +kernel, by decide +kernel, by decide +kernel⟩
  have hruns := runs_exec (effect plainGit .default "notes") ⟨0, 0⟩ (prune "notes" 2) threeTaken
  obtain ⟨hr, hchain, -⟩ := (prune_keeps_newest plainGit .default "notes" threeTaken 2 (by decide)
    hsound legible_plainGit hread).1 _ _ hruns
  rw [hr] at hruns
  exact ⟨by decide +kernel, _, hruns, hchain⟩

end IronGolem.PruneHistory
