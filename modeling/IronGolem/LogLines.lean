import IronGolem.SharedStore

/-!
The log of a project, written by git and read by `prune`. A line holds the name, the tree, the date
and the subject of a commit, with bars between them; only the subject may hold bars of its own.
-/
namespace IronGolem.LogLines

open GitObjects SeparatedText StoreCommands SharedStore List

def EndsInWord (s : String) : Prop := ∃ c, s.toList.getLast? = some c ∧ isSpace c = false

variable {s : String}

theorem EndsInWord.ne_empty (h : EndsInWord s) : s ≠ "" := by
  rintro rfl
  obtain ⟨c, hc, -⟩ := h
  simp at hc

theorem EndsInWord.trimEnd (h : EndsInWord s) : trimEnd s = s := by
  obtain ⟨c, hc, hspace⟩ := h
  obtain ⟨l, hl⟩ := getLast?_eq_some_iff.mp hc
  unfold StoreCommands.trimEnd
  rw [hl, rdropWhile_concat_neg isSpace l c (by simp [hspace]), ← hl, String.ofList_toList]

theorem endsInWord_trimEnd (h : trimEnd s ≠ "") : EndsInWord (trimEnd s) := by
  have hne : s.toList.rdropWhile isSpace ≠ [] := by
    intro hnil
    refine h ?_
    unfold trimEnd
    rw [hnil]
  refine ⟨(s.toList.rdropWhile isSpace).getLast hne, ?_, ?_⟩
  · unfold trimEnd
    rw [String.toList_ofList, getLast?_eq_some_getLast hne]
  · have hlast := rdropWhile_last_not isSpace s.toList hne
    simpa using hlast

theorem EndsInWord.append (s : String) {t : String} (h : EndsInWord t) : EndsInWord (s ++ t) := by
  obtain ⟨c, hc, hspace⟩ := h
  refine ⟨c, ?_, hspace⟩
  rw [String.toList_append, getLast?_append, hc]
  rfl

variable {l : List String}

theorem endsInWord_joinWith (c : Char) (hl : l ≠ [])
    (h : ∀ s ∈ l, EndsInWord s) : EndsInWord (joinWith c l) := by
  induction l with
  | nil => exact absurd rfl hl
  | cons s rest ih =>
    cases rest with
    | nil =>
      exact h s mem_cons_self
    | cons t rest =>
      rw [joinWith_cons_cons]
      exact (ih (by simp) (fun u hu => h u (mem_cons_of_mem s hu))).append _

def paragraph (message : String) : List String :=
  (((split '\n' message).map trimEnd).dropWhile (fun l => decide (l = ""))).takeWhile
    (fun l => decide (l ≠ ""))

theorem paragraph_line (message line : String) (h : line ∈ paragraph message) :
    EndsInWord line ∧ '\n' ∉ line.toList := by
  have htaken := mem_takeWhile_imp h
  have hne : line ≠ "" := of_decide_eq_true htaken
  have hmem := (dropWhile_sublist _).mem ((takeWhile_sublist _).mem h)
  obtain ⟨piece, hpiece, rfl⟩ := mem_map.mp hmem
  refine ⟨endsInWord_trimEnd hne, ?_⟩
  intro hbreak
  refine notMem_of_mem_split '\n' message hpiece ?_
  unfold trimEnd at hbreak
  rw [String.toList_ofList] at hbreak
  exact (List.rdropWhile_prefix isSpace piece.toList).mem hbreak

theorem notMem_joinWith {c d : Char} (hcd : d ≠ c) (h : ∀ s ∈ l, d ∉ s.toList) :
    d ∉ (joinWith c l).toList := by
  induction l with
  | nil => simp [joinWith]
  | cons s rest ih =>
    have hs := h s mem_cons_self
    have hrest := fun u hu => h u (mem_cons_of_mem s hu)
    cases rest with
    | nil =>
      exact hs
    | cons t rest =>
      rw [joinWith_cons_cons]
      simp only [String.toList_append, String.toList_singleton, mem_append, mem_singleton, not_or]
      exact ⟨⟨hs, hcd⟩, ih hrest⟩

theorem notMem_subject (message : String) : '\n' ∉ (subject message).toList :=
  notMem_joinWith (by decide) (fun line hline => (paragraph_line message line hline).2)

theorem endsInWord_subject {message : String} (h : subject message ≠ "") :
    EndsInWord (subject message) := by
  refine endsInWord_joinWith ' ' (l := paragraph message) ?_
    (fun line hline => (paragraph_line message line hline).1)
  intro hnil
  have hempty : subject message = joinWith ' ' (paragraph message) := rfl
  rw [hnil] at hempty
  exact h hempty

/-- A subject that is written again is read back. -/
theorem subject_completeLine (h : EndsInWord s) (hline : '\n' ∉ s.toList) :
    subject (completeLine s) = s := by
  have hend : ¬ (s = "" ∨ s.toList.getLast? = some '\n') := by
    rintro (hs | hs)
    · exact h.ne_empty hs
    · exact hline (mem_of_getLast? hs)
  have hcut : split '\n' (s ++ String.singleton '\n') = [s, ""] := by
    have happend := split_append '\n' s ""
    rw [String.append_empty, split_of_notMem '\n' s hline, split_empty] at happend
    exact happend
  have htrim : trimEnd "" = "" := rfl
  unfold completeLine subject
  rw [if_neg hend, hcut, map_cons, map_cons, map_nil, h.trimEnd, htrim]
  simp [h.ne_empty, joinWith_singleton]

/-- Names and dates, as git prints them, hold no bar and no line break. -/
structure Legible (git : Git) : Prop where
  commit : ∀ c, '|' ∉ (git.commitName c).toList ∧ '\n' ∉ (git.commitName c).toList
  tree : ∀ t, '|' ∉ (git.treeName t).toList ∧ '\n' ∉ (git.treeName t).toList
  date : ∀ d, '|' ∉ (git.dateText d).toList ∧ '\n' ∉ (git.dateText d).toList

def keptOf (git : Git) (c : Commit) : Kept :=
  ⟨git.treeName c.tree, git.dateText c.authorDate, subject c.message⟩

def body (git : Git) (c : Commit) : String :=
  joinWith '|' [git.commitName c, git.treeName c.tree, git.dateText c.authorDate, subject c.message]

variable {git : Git}

theorem notMem_body (hgit : Legible git) (c : Commit) : '\n' ∉ (body git c).toList := by
  refine notMem_joinWith (by decide) ?_
  intro s hs
  simp only [mem_cons, not_mem_nil, or_false] at hs
  rcases hs with rfl | rfl | rfl | rfl
  · exact (hgit.commit c).2
  · exact (hgit.tree c.tree).2
  · exact (hgit.date c.authorDate).2
  · exact notMem_subject c.message

theorem endsInWord_body (git : Git) {c : Commit} (h : subject c.message ≠ "") :
    EndsInWord (body git c) := by
  unfold body
  rw [joinWith_cons_cons, joinWith_cons_cons, joinWith_cons_cons, joinWith_singleton]
  exact (((endsInWord_subject h).append _).append _).append _

theorem split_logText (hgit : Legible git) (cs : List Commit) :
    split '\n' ((cs.map (logLine git)).foldr (fun line rest => line ++ rest) "") =
      cs.map (body git) ++ [""] := by
  induction cs with
  | nil => exact split_empty '\n'
  | cons c cs ih =>
    have hline : logLine git c = body git c ++ String.singleton '\n' := rfl
    rw [map_cons, foldr_cons, hline, split_append, ih, split_of_notMem '\n' _ (notMem_body hgit c)]
    rfl

variable {tip : Commit}

theorem lines_logText (hgit : Legible git) (n : ℕ)
    (hsubjects : ∀ c ∈ tip.history, subject c.message ≠ "") :
    lines (logText git n tip) = (tip.history.take n).map (body git) := by
  unfold lines logText
  simp only [split_logText hgit, dropLast_concat, getLast?_concat, Option.toList_some]
  have hlast : ["" ].filter (fun l : String => decide (l ≠ "")) = [] := by simp
  rw [hlast, append_nil, map_map]
  refine map_congr_left ?_
  intro c hc
  obtain ⟨d, hd, hspace⟩ := endsInWord_body git (hsubjects c (mem_of_mem_take hc))
  refine if_neg ?_
  rw [hd]
  intro h
  cases h
  cases hspace

/-- The reader of the log finds tree, date and subject in every line. -/
theorem parseLine_body (hgit : Legible git) (c : Commit) :
    parseLine (body git c) = some (keptOf git c) := by
  have hparts : split '|' (body git c) = git.commitName c :: git.treeName c.tree ::
      git.dateText c.authorDate :: split '|' (subject c.message) := by
    unfold body
    rw [split_joinWith '|' (by simp)]
    simp only [flatMap_cons, flatMap_nil, append_nil,
      split_of_notMem '|' _ (hgit.commit c).1, split_of_notMem '|' _ (hgit.tree c.tree).1,
      split_of_notMem '|' _ (hgit.date c.authorDate).1, singleton_append]
  unfold parseLine
  rw [hparts]
  simp only [if_neg (split_ne_nil '|' (subject c.message)), joinWith_split]
  rfl

/-- Reading the printed log gives the commits that were printed. -/
theorem filterMap_parseLine_logText (hgit : Legible git) (n : ℕ)
    (hsubjects : ∀ c ∈ tip.history, subject c.message ≠ "") :
    (lines (logText git n tip)).filterMap parseLine = (tip.history.take n).map (keptOf git) := by
  rw [lines_logText hgit n hsubjects, filterMap_map]
  have hparse : parseLine ∘ body git = fun c => some (keptOf git c) := by
    funext c
    exact parseLine_body hgit c
  rw [hparse, filterMap_eq_map']

end IronGolem.LogLines
