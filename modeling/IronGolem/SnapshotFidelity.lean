import IronGolem.SharedStore

/-!
What a snapshot holds when several calls work on one project. The index file of a project is shared
by its calls. Each reads the old tree into it, stages the files, drops those over the limit and
writes a tree from it, one command after the other.
-/
namespace IronGolem.SnapshotFidelity

open InterleavedPrograms TransitionRuns GitObjects StoreCommands SharedStore List Function

def snapshot (limits : Limits) (w : FileTree) : FileTree := w.filter (fun e => !oversize limits e)

/-- What `rm --cached` leaves, piece by piece. -/
def dropAll (git : Git) (w : FileTree) : FileTree → List (List Path) → Option FileTree
  | index, [] => some index
  | index, piece :: rest =>
      match git.unstaged index w piece with
      | some index => dropAll git w index rest
      | none => none

/-- What is left of the files, staged as they are, when those over the limit have been dropped. -/
def dropped (git : Git) (limits : Limits) (w : FileTree) : Option FileTree :=
  dropAll git w w (chunks 100 (oversizeAt limits w (git.listFiles w)))

def treeOf : Option Commit → FileTree
  | none => .empty
  | some c => c.tree

/-- The files are staged as they are, and exactly those over the limit are dropped from them. -/
def Verbatim (git : Git) (limits : Limits) (index w : FileTree) : Prop :=
  git.staged index w = w ∧ ∀ i ∈ dropped git limits w, i = snapshot limits w

instance (git : Git) (limits : Limits) (index w : FileTree) :
    Decidable (Verbatim git limits index w) := inferInstanceAs (Decidable (_ ∧ _))

/-- What a call found when it issued a command: the files and the ref of its project. -/
structure Moment where
  call : Call
  workdir : FileTree
  ref : Option Commit

/-- A store, the call that is using the index of a project, and what all calls have found. -/
structure Watched where
  store : Store
  holder : Project → Option Call
  moments : List Moment

def release (l : Call) (h : Option Call) : Option Call := if h = some l then none else h

/-- A call uses the index from its `read-tree` to its `write-tree` or its end. -/
def held (l : Call) : (c : Command) → Reply c → Option Call → Option Call
  | .readTree _, r, h =>
      match (r : Option Unit) with
      | some _ => some l
      | none => h
  | .rmCached _, r, h =>
      match (r : Option Unit) with
      | some _ => h
      | none => release l h
  | .diffIndex _, r, h =>
      match (r : Option Bool) with
      | some false => h
      | _ => release l h
  | .writeTree, _, h => release l h
  | _, _, h => h

def Free (l : Call) (s : Watched) : Prop :=
  s.holder l.project = none ∨ s.holder l.project = some l

instance (l : Call) (s : Watched) : Decidable (Free l s) := inferInstanceAs (Decidable (_ ∨ _))

section

variable (git : Git) (limits : Limits)

def watched (l : Call) (c : Command) (now : Date) (s : Watched) : Watched × Reply c :=
  let r := effect git limits l.project c now s.store
  (⟨r.1, Function.update s.holder l.project (held l c r.2 (s.holder l.project)),
    ⟨l, s.store.workdir l.project, s.store.ref l.project⟩ :: s.moments⟩, r.2)

/-- The index is not shared while a tree is read, and the files go into the snapshot verbatim. -/
def Undisturbed (l : Call) (c : Command) (s : Watched) : Prop :=
  match c with
  | .readTree old => Free l s ∧ Verbatim git limits (treeOf old) (s.store.workdir l.project)
  | .checkout _ _ => Free l s
  | _ => True

instance (l : Call) (c : Command) (s : Watched) : Decidable (Undisturbed git limits l c s) :=
  match c with
  | .readTree _ => inferInstanceAs (Decidable (_ ∧ _))
  | .checkout _ _ => inferInstanceAs (Decidable (Free l s))
  | .countFiles | .revParse | .addAll | .lsFiles | .statOversize _ | .rmCached _ | .diffIndex _
  | .writeTree | .commitTree _ _ _ _ | .updateRef _ _ | .touchMeta | .revListCount | .log _
  | .reflogExpire | .gc => inferInstanceAs (Decidable True)

/-- Nothing found is forgotten, and nobody else writes what the call uses. -/
structure Relies (l : Call) (s t : Watched) : Prop where
  moments : ∀ m ∈ s.moments, m ∈ t.moments
  files : s.holder l.project = some l → t.holder l.project = some l ∧
    t.store.index l.project = s.store.index l.project ∧
    t.store.workdir l.project = s.store.workdir l.project

def contract : Contract Call Command Date (Project × FileTree × ℕ) Watched where
  inv _ := True
  rely := Relies
  rely_refl _ _ := ⟨fun _ hm => hm, fun h => ⟨h, rfl, rfl⟩⟩
  rely_trans := by
    intro l s t u hst htu
    refine ⟨fun m hm => htu.moments m (hst.moments m hm), ?_⟩
    intro hs
    obtain ⟨ht, hindex, hworkdir⟩ := hst.files hs
    obtain ⟨hu, hindex', hworkdir'⟩ := htu.files ht
    exact ⟨hu, hindex'.trans hindex, hworkdir'.trans hworkdir⟩
  guard l c _ s := Undisturbed git limits l c s
  tolerates x s := s.holder x.1 = none

instance (l : Call) (c : Command) (now : Date) (s : Watched) :
    Decidable ((contract git limits).guard l c now s) :=
  inferInstanceAs (Decidable (Undisturbed git limits l c s))

instance (x : Project × FileTree × ℕ) (s : Watched) :
    Decidable ((contract git limits).tolerates x s) :=
  inferInstanceAs (Decidable (s.holder x.1 = none))

def writesFiles : Command → Bool
  | .readTree _ => true
  | .addAll => true
  | .rmCached _ => true
  | .checkout _ _ => true
  | _ => false

variable {p q : Project}

theorem setIndex_of_ne (s : Store) (t : FileTree) (hq : q ≠ p) :
    (s.setIndex p t).index q = s.index q := if_neg hq

theorem setWorkdir_of_ne (s : Store) (t : FileTree) (hq : q ≠ p) :
    (s.setWorkdir p t).workdir q = s.workdir q := if_neg hq

variable {c : Command} (now : Date)

/-- A command writes no index and no files, or only those of its own project. -/
theorem effect_files (s : Store) (h : writesFiles c = false ∨ q ≠ p) :
    (effect git limits p c now s).1.index q = s.index q ∧
      (effect git limits p c now s).1.workdir q = s.workdir q := by
  cases c with
  | readTree old =>
    have hq : q ≠ p := h.resolve_left (by simp [writesFiles])
    cases old with
    | none => exact ⟨setIndex_of_ne s _ hq, rfl⟩
    | some old =>
      simp only [effect]
      split
      · exact ⟨setIndex_of_ne s _ hq, rfl⟩
      · exact ⟨rfl, rfl⟩
  | addAll =>
    have hq : q ≠ p := h.resolve_left (by simp [writesFiles])
    exact ⟨setIndex_of_ne s _ hq, rfl⟩
  | rmCached paths =>
    have hq : q ≠ p := h.resolve_left (by simp [writesFiles])
    simp only [effect]
    split
    · exact ⟨setIndex_of_ne s _ hq, rfl⟩
    · exact ⟨rfl, rfl⟩
  | checkout commit target =>
    have hq : q ≠ p := h.resolve_left (by simp [writesFiles])
    simp only [effect]
    split
    · exact ⟨setIndex_of_ne s _ hq, setWorkdir_of_ne _ _ hq⟩
    · exact ⟨rfl, rfl⟩
  | diffIndex old | writeTree | commitTree message parent tree date =>
    simp only [effect]
    split <;> exact ⟨rfl, rfl⟩
  | updateRef new old =>
    simp only [effect]
    split
    · exact ⟨rfl, rfl⟩
    split <;> exact ⟨rfl, rfl⟩
  | _ => exact ⟨rfl, rfl⟩

/-- Of all commands only a checkout writes files of the project. -/
theorem effect_workdir (p : Project) (now : Date) (s : Store)
    (hc : ∀ commit target, c ≠ .checkout commit target) :
    (effect git limits p c now s).1.workdir = s.workdir := by
  cases c with
  | readTree old =>
    cases old with
    | none => rfl
    | some old =>
      simp only [effect]
      split <;> rfl
  | addAll => rfl
  | rmCached paths =>
    simp only [effect]
    split <;> rfl
  | checkout commit target => exact absurd rfl (hc commit target)
  | _ =>
    funext q
    exact (effect_files git limits now s (.inl rfl)).2

theorem release_of_ne {l m : Call} (hm : m ≠ l) : release l (some m) = some m := by
  unfold release
  simpa using hm

theorem held_of_other {l m : Call} (r : Reply c) (hc : writesFiles c = false)
    (hm : m ≠ l) : held l c r (some m) = some m := by
  cases c with
  | readTree old | addAll | rmCached paths | checkout commit target => cases hc
  | diffIndex old =>
    simp only [held]
    split
    · rfl
    · exact release_of_ne hm
  | writeTree => exact release_of_ne hm
  | _ => rfl

theorem fair {l : Call} {s : Watched} (h : writesFiles c = false ∨ Free l s) :
    Fair (contract git limits) (watched git limits) l c now s := by
  refine ⟨trivial, ?_⟩
  intro m hm
  refine ⟨fun x hx => mem_cons_of_mem _ hx, ?_⟩
  intro hholder
  by_cases hproject : m.project = l.project
  · have hc : writesFiles c = false := by
      rcases h with hc | hnone | hself
      · exact hc
      · rw [hproject, hnone] at hholder
        cases hholder
      · rw [hproject, hself] at hholder
        cases hholder
        exact absurd rfl hm
    rw [hproject] at hholder
    refine ⟨?_, effect_files git limits now s.store (.inl hc)⟩
    simp only [watched, hproject, update_self, hholder]
    exact held_of_other _ hc hm
  · refine ⟨?_, effect_files git limits now s.store (.inr hproject)⟩
    simp only [watched, update_of_ne hproject]
    exact hholder

variable {git limits} {α β : Type} {l : Call} {s : Watched}

def Yields (P : Watched → α → Prop) (s : Watched) (r : Except GitStoreError α) : Prop :=
  ∀ a, r = .ok a → P s a

variable {P : Watched → α → Prop}

theorem yields_pure {a : α} (h : ∀ t, Relies l s t → P t a) :
    Assures (contract git limits) (watched git limits) l (Yields P) (pure a : Script α) s := by
  intro t ht _ b hb
  cases hb
  exact h t ht

/-- The rule for one command whose failure ends the script. -/
theorem yields_require {read : Reply c → Except GitStoreError α}
    (h : ∀ t now, Relies l s t → Undisturbed git limits l c t →
      (writesFiles c = false ∨ Free l t) ∧ ∀ a, read (watched git limits l c now t).2 = .ok a →
        ∀ u, Relies l (watched git limits l c now t).1 u → P u a) :
    Assures (contract git limits) (watched git limits) l (Yields P) (Attempt.require c read) s := by
  intro t now ht _ hguard
  obtain ⟨hwrites, hok⟩ := h t now ht hguard
  exact ⟨fair git limits now hwrites, fun u hu _ a ha => hok a ha u hu⟩

theorem yields_then {P : Watched → β → Prop} {R : Watched → α → Prop} {p : Script α}
    {f : α → Script β} (hp : Assures (contract git limits) (watched git limits) l (Yields R) p s)
    (hf : ∀ a t, R t a → Assures (contract git limits) (watched git limits) l (Yields P) (f a) t) :
    Assures (contract git limits) (watched git limits) l (Yields P) (p >>= f : Script β) s := by
  refine Assures.attempt trivial (hp.mono ?_)
  intro t r _ hr
  refine ⟨fun a ha => hf a t (hr a ha), ?_⟩
  intro e _ u _ _ a ha
  cases ha

/-- A command that leaves index and files alone is passed over. -/
theorem yields_ask {read : Reply c → Except GitStoreError β}
    {f : β → Script α} (hc : writesFiles c = false) (hf : ∀ a t, (∀ m ∈ s.moments, m ∈ t.moments) →
      Assures (contract git limits) (watched git limits) l (Yields P) (f a) t) :
    Assures (contract git limits) (watched git limits) l (Yields P)
      (Attempt.require c read >>= f : Script α) s := by
  refine yields_then (R := fun t _ => ∀ m ∈ s.moments, m ∈ t.moments) (yields_require ?_) hf
  intro t now ht _
  refine ⟨.inl hc, ?_⟩
  intro a _ u hu m hm
  exact hu.moments m (mem_cons_of_mem _ (ht.moments m hm))

def Found (l : Call) (w : FileTree) (s : Watched) : Prop :=
  ∃ m ∈ s.moments, m.call = l ∧ m.workdir = w

def Seen (l : Call) (old : Commit) (s : Watched) : Prop :=
  ∃ m ∈ s.moments, m.call = l ∧ m.ref = some old

variable {w : FileTree}

theorem Found.mono {t : Watched} (h : Found l w s)
    (hmoments : ∀ m ∈ s.moments, m ∈ t.moments) : Found l w t := by
  obtain ⟨m, hm, hcall⟩ := h
  exact ⟨m, hmoments m hm, hcall⟩

theorem Seen.mono {old : Commit} {t : Watched} (h : Seen l old s)
    (hmoments : ∀ m ∈ s.moments, m ∈ t.moments) : Seen l old t := by
  obtain ⟨m, hm, hcall⟩ := h
  exact ⟨m, hmoments m hm, hcall⟩

/-- What a call knows: it has found these files, and the old snapshot it builds on. -/
structure Knows (l : Call) (old : Option Commit) (w : FileTree) (s : Watched) : Prop where
  found : Found l w s
  seen : ∀ c, old = some c → Seen l c s

variable {old : Option Commit}

theorem Knows.mono {t : Watched} (h : Knows l old w s)
    (hmoments : ∀ m ∈ s.moments, m ∈ t.moments) : Knows l old w t :=
  ⟨h.found.mono hmoments, fun c hc => (h.seen c hc).mono hmoments⟩

/-- The call uses the index, and the files and the index are these. -/
structure Staging (l : Call) (old : Option Commit) (w index : FileTree) (s : Watched) : Prop where
  holder : s.holder l.project = some l
  workdir : s.store.workdir l.project = w
  index : s.store.index l.project = index
  knows : Knows l old w s

variable {index : FileTree}

theorem Staging.stable {t : Watched} (h : Staging l old w index s)
    (hrely : Relies l s t) : Staging l old w index t := by
  obtain ⟨hholder, hindex, hworkdir⟩ := hrely.files h.holder
  exact ⟨hholder, hworkdir.trans h.workdir, hindex.trans h.index, h.knows.mono hrely.moments⟩

theorem Staging.free (h : Staging l old w index s) : Free l s :=
  .inr h.holder

theorem Staging.after (git : Git) (limits : Limits)
    (h : Staging l old w index s) (c : Command) (now : Date)
    (hc : ∀ commit target, c ≠ .checkout commit target)
    (hheld : held l c (effect git limits l.project c now s.store).2 (some l) = some l) :
    Staging l old w ((effect git limits l.project c now s.store).1.index l.project)
      (watched git limits l c now s).1 where
  holder := by
    simp only [watched, update_self, h.holder]
    exact hheld
  workdir := by
    show (effect git limits l.project c now s.store).1.workdir l.project = w
    rw [effect_workdir git limits l.project now s.store hc]
    exact h.workdir
  index := rfl
  knows := h.knows.mono (fun _ hm => mem_cons_of_mem _ hm)

/-- Reading commands leave the staged index as it is. -/
theorem Staging.reads (git : Git) (limits : Limits)
    (h : Staging l old w index s) (c : Command) (now : Date) (hc : writesFiles c = false)
    (hheld : held l c (effect git limits l.project c now s.store).2 (some l) = some l) :
    Staging l old w index (watched git limits l c now s).1 := by
  have hafter := h.after git limits c now ?_ hheld
  · rw [(effect_files git limits now s.store (.inl hc)).1, h.index] at hafter
    exact hafter
  · rintro commit target rfl
    cases hc

theorem yields_rmChunks (w index : FileTree) {pieces : List (List Path)}
    (hs : Staging l old w index s) :
    Assures (contract git limits) (watched git limits) l
      (Yields (fun t _ => ∃ i, dropAll git w index pieces = some i ∧ Staging l old w i t))
        (rmChunks pieces) s := by
  induction pieces generalizing index s with
  | nil =>
    refine yields_pure ?_
    intro t ht
    exact ⟨index, rfl, hs.stable ht⟩
  | cons piece rest ih =>
    refine yields_then
      (R := fun t _ => ∃ i, git.unstaged index w piece = some i ∧ Staging l old w i t)
      (yields_require ?_) ?_
    · intro t now ht _
      have hst := hs.stable ht
      refine ⟨.inr hst.free, ?_⟩
      intro a ha u hu
      cases hrm : git.unstaged index w piece with
      | none =>
        simp only [watched, effect, hst.index, hst.workdir, hrm] at ha
        cases ha
      | some i =>
        have hafter := hst.after git limits (.rmCached piece) now (by simp)
          (by simp only [effect, hst.index, hst.workdir, hrm]; rfl)
        have hindex : (effect git limits l.project (.rmCached piece) now t.store).1.index
            l.project = i := by
          simp only [effect, hst.index, hst.workdir, hrm, Store.setIndex, if_true]
        rw [hindex] at hafter
        exact ⟨i, rfl, hafter.stable hu⟩
    · rintro a t ⟨i, hi, ht⟩
      simp only [dropAll, hi]
      exact ih i ht

/-- The index after the large files were taken out of it. -/
theorem yields_dropOversizeFiles (hs : Staging l old w w s) :
    Assures (contract git limits) (watched git limits) l
      (Yields (fun t _ => ∃ i, dropped git limits w = some i ∧ Staging l old w i t))
        dropOversizeFiles s := by
  refine yields_then (R := fun t paths => Staging l old w w t ∧ paths = git.listFiles w)
    (yields_require ?_) ?_
  · intro t now ht _
    have hst := hs.stable ht
    refine ⟨.inl rfl, ?_⟩
    intro paths hpaths u hu
    refine ⟨(hst.reads git limits .lsFiles now rfl rfl).stable hu, ?_⟩
    cases hpaths
    exact congrArg git.listFiles hst.index
  rintro paths t ⟨ht, rfl⟩
  refine yields_then (R := fun t paths => Staging l old w w t ∧
    paths = oversizeAt limits w (git.listFiles w)) (yields_require ?_) ?_
  · intro u now hu _
    have hst := ht.stable hu
    refine ⟨.inl rfl, ?_⟩
    intro large hlarge v hv
    refine ⟨(hst.reads git limits (.statOversize _) now rfl rfl).stable hv, ?_⟩
    cases hlarge
    exact congrArg (fun x => oversizeAt limits x (git.listFiles w)) hst.workdir
  rintro large u ⟨hu, rfl⟩
  exact yields_rmChunks w w hu

/-- Where the index is the old tree there was an old snapshot; otherwise the call goes on. -/
def Compared (l : Call) (old : Option Commit) (w index : FileTree) (s : Watched) (same : Bool) :
    Prop :=
  Knows l old w s ∧ if same then ∃ c, old = some c ∧ c.tree = index else Staging l old w index s

theorem yields_unchanged (hs : Staging l old w index s) :
    Assures (contract git limits) (watched git limits) l (Yields (Compared l old w index))
      (unchanged old) s := by
  cases old with
  | none =>
    refine yields_pure ?_
    intro t ht
    have hst := hs.stable ht
    exact ⟨hst.knows, hst⟩
  | some old =>
    refine yields_require ?_
    intro t now ht _
    have hst := hs.stable ht
    refine ⟨.inl rfl, ?_⟩
    intro same hsame u hu
    refine ⟨(hst.knows.mono (fun _ hm => mem_cons_of_mem _ hm)).mono hu.moments, ?_⟩
    by_cases hstored : old ∈ t.store.db.commits ∧ old.tree.subtrees ⊆ t.store.db.trees
    · simp only [watched, effect, if_pos hstored, hst.index] at hsame
      cases hsame
      by_cases hequal : index = old.tree
      · rw [if_pos (decide_eq_true hequal)]
        exact ⟨old, rfl, hequal.symm⟩
      · rw [if_neg (by simpa using hequal)]
        refine (hst.reads git limits (.diffIndex old) now rfl ?_).stable hu
        simp only [effect, if_pos hstored, hst.index, decide_eq_false hequal]
        rfl
    · simp only [watched, effect, if_neg hstored] at hsame
      cases hsame

/-- A new snapshot holds the files found, or a ref that was found holds them. -/
def Faithful (limits : Limits) (l : Call) (s : Watched) (answer : Option Commit) : Prop :=
  ∃ w, Found l w s ∧ match answer with
    | some c => c.tree = snapshot limits w
    | none => ∃ old, Seen l old s ∧ old.tree = snapshot limits w

variable {answer : Option Commit}

theorem Faithful.mono {t : Watched} (h : Faithful limits l s answer)
    (hmoments : ∀ m ∈ s.moments, m ∈ t.moments) : Faithful limits l t answer := by
  obtain ⟨w, hw, hanswer⟩ := h
  refine ⟨w, hw.mono hmoments, ?_⟩
  cases answer with
  | some c => exact hanswer
  | none =>
    obtain ⟨old, hold, htree⟩ := hanswer
    exact ⟨old, hold.mono hmoments, htree⟩

theorem yields_touchMeta (hs : Faithful limits l s answer) :
    Assures (contract git limits) (watched git limits) l (Yields (Faithful limits l))
      (do let _ ← ask .touchMeta; pure answer : Script (Option Commit)) s := by
  refine yields_ask rfl ?_
  intro _ t ht
  refine yields_pure ?_
  intro u hu
  exact (hs.mono ht).mono hu.moments

variable (reason : String)

theorem yields_record (hs : Staging l old w (snapshot limits w) s) :
    Assures (contract git limits) (watched git limits) l (Yields (Faithful limits l))
      (record l.project reason old) s := by
  refine yields_then (R := fun t tree => Found l w t ∧ tree = snapshot limits w)
    (yields_require ?_) ?_
  · intro t now ht _
    have hst := hs.stable ht
    refine ⟨.inl rfl, ?_⟩
    intro tree htree u hu
    refine ⟨(hst.knows.found.mono (fun _ hm => mem_cons_of_mem _ hm)).mono hu.moments, ?_⟩
    have hreply := orFail_eq_ok htree
    simp only [watched, effect, id] at hreply
    split at hreply
    · cases hreply
      exact hst.index
    · cases hreply
  rintro tree t ⟨ht, rfl⟩
  refine yields_then (R := fun t commit => Found l w t ∧ commit.tree = snapshot limits w)
    (yields_require ?_) ?_
  · intro u now hu _
    refine ⟨.inl rfl, ?_⟩
    intro commit hcommit v hv
    refine ⟨((ht.mono hu.moments).mono (fun _ hm => mem_cons_of_mem _ hm)).mono hv.moments, ?_⟩
    have hreply := orFail_eq_ok hcommit
    simp only [watched, effect, id] at hreply
    split at hreply
    · rename_i c hc
      cases hreply
      obtain ⟨-, htree, -⟩ := commitTree_eq_some git hc
      exact (written_eq_some git htree).symm
    · cases hreply
  rintro commit u ⟨hu, htree⟩
  refine yields_ask rfl ?_
  intro _ v hv
  exact yields_touchMeta ⟨w, hu.mono hv, htree⟩

theorem readTree_index {p : Project} {now : Date} {s : Store}
    (h : (effect git limits p (.readTree old) now s).2 = some ()) :
    (effect git limits p (.readTree old) now s).1.index p = treeOf old := by
  cases old with
  | none => exact if_pos rfl
  | some old =>
    simp only [effect] at h ⊢
    split at h
    · rename_i hstored
      rw [if_pos hstored]
      exact if_pos rfl
    · cases h

/-- A snapshot holds files that were found at one moment of the call, or the ref already did. -/
theorem yields_takeInner (hold : ∀ c, old = some c → Seen l c s) :
    Assures (contract git limits) (watched git limits) l (Yields (Faithful limits l))
      (takeInner l.project reason old) s := by
  -- the files that lie there when the tree is read are those of the snapshot
  refine yields_then
    (R := fun t _ => ∃ w, Verbatim git limits (treeOf old) w ∧ Staging l old w (treeOf old) t)
    (yields_require ?_) ?_
  · intro t now ht hguard
    refine ⟨.inr hguard.1, ?_⟩
    intro a ha u hu
    have hreply := orFail_eq_ok ha
    refine ⟨t.store.workdir l.project, hguard.2, ?_⟩
    refine Staging.stable ⟨?_, ?_, readTree_index hreply, ⟨_, mem_cons_self, rfl, rfl⟩, ?_⟩ hu
    · simp only [watched, update_self, held, id] at hreply ⊢
      rw [hreply]
    · show (effect git limits l.project (.readTree old) now t.store).1.workdir l.project = _
      rw [effect_workdir git limits _ now t.store (by simp)]
    · intro c hc
      exact ((hold c hc).mono ht.moments).mono (fun _ hm => mem_cons_of_mem _ hm)
  rintro - t ⟨w, ⟨hstaged, hdropped⟩, ht⟩
  refine yields_then (R := fun u _ => Staging l old w w u) (yields_require ?_) ?_
  · intro u now hu _
    have hst := ht.stable hu
    refine ⟨.inr hst.free, ?_⟩
    intro a _ v hv
    have hafter := hst.after git limits .addAll now (by simp) rfl
    have hindex : (effect git limits l.project .addAll now u.store).1.index l.project = w := by
      simp only [effect, Store.setIndex, if_true, hst.index, hst.workdir, hstaged]
    rw [hindex] at hafter
    exact hafter.stable hv
  intro _ u hu
  refine yields_then (yields_dropOversizeFiles hu) ?_
  rintro _ v ⟨i, hi, hv⟩
  obtain rfl := hdropped i hi
  refine yields_then (yields_unchanged hv) ?_
  intro same x hx
  cases same with
  | true =>
    obtain ⟨hknows, c, hc, htree⟩ := hx
    exact yields_touchMeta ⟨w, hknows.found, c, hknows.seen c hc, htree⟩
  | false => exact yields_record reason hx.2

theorem yields_readRef :
    Assures (contract git limits) (watched git limits) l
      (Yields (fun t old => ∀ c, old = some c → Seen l c t)) readRef s := by
  refine yields_require ?_
  intro t now _ _
  refine ⟨.inl rfl, ?_⟩
  intro old hold u hu c hc
  cases hold
  refine Seen.mono ⟨_, mem_cons_self, rfl, ?_⟩ hu.moments
  exact (Option.filter_eq_some_iff.mp hc).1

theorem yields_take :
    Assures (contract git limits) (watched git limits) l (Yields (Faithful limits l))
      (take limits l.project reason) s := by
  refine yields_ask rfl ?_
  intro _ t _
  refine yields_then yields_readRef ?_
  intro old u hold
  exact yields_takeInner reason hold

theorem yields_restore (commit : Commit) (path : Option String) :
    Assures (contract git limits) (watched git limits) l (Yields (fun _ _ => True))
      (restore limits l.project commit path) s := by
  unfold restore
  split
  · intro t _ _ a ha
    cases ha
  refine yields_ask rfl ?_
  intro _ t _
  refine yields_then yields_readRef ?_
  intro old u hold
  refine yields_then (yields_takeInner "pre-restore snapshot" hold) ?_
  intro _ v _
  refine yields_require ?_
  intro x now _ hguard
  exact ⟨.inr hguard, fun _ _ _ _ => trivial⟩

theorem yields_rebuild (parent : Option Commit) (kept : List SharedStore.Kept) :
    Assures (contract git limits) (watched git limits) l (Yields (fun _ _ => True))
      (rebuild parent kept) s := by
  induction kept generalizing parent s with
  | nil => exact yields_pure (fun _ _ => trivial)
  | cons k rest ih =>
    refine yields_ask rfl ?_
    intro commit t _
    exact ih (some commit)

theorem yields_prune (keepLast : ℕ) :
    Assures (contract git limits) (watched git limits) l (Yields (fun _ _ => True))
      (prune l.project keepLast) s := by
  unfold prune
  split
  · intro t _ _ a ha
    cases ha
  refine yields_ask rfl ?_
  intro tip t _
  cases tip with
  | none => exact yields_pure (fun _ _ => trivial)
  | some tip =>
    refine yields_ask rfl ?_
    intro count u _
    split
    · exact yields_pure (fun _ _ => trivial)
    refine yields_ask rfl ?_
    intro text v _
    -- any list of lines will do, and the elaborator must not try to reverse this one
    generalize ((lines text).filterMap parseLine).reverse = kept
    refine yields_then (yields_rebuild none kept) ?_
    intro newTip x _
    cases newTip with
    | none => exact yields_pure (fun _ _ => trivial)
    | some newTip =>
      refine yields_ask rfl ?_
      intro _ y _
      refine yields_ask rfl ?_
      intro _ z _
      refine yields_ask rfl ?_
      intro _ z' _
      exact yields_pure (fun _ _ => trivial)

def FaithfulAnswer (limits : Limits) (l : Call) (s : Watched) (answer : Answer) : Prop :=
  ∀ commit, answer = .taken commit → Faithful limits l s commit

/-- Every operation keeps its promise, whatever undisturbed calls run beside it. -/
theorem yields_script :
    Assures (contract git limits) (watched git limits) l (Yields (FaithfulAnswer limits l))
      (script limits l) s := by
  unfold script
  cases l.job with
  | take reason =>
    refine yields_then (yields_take reason) ?_
    intro commit t ht
    refine yields_pure ?_
    intro u hu commit' h
    cases h
    exact ht.mono hu.moments
  | restore commit path =>
    refine yields_then (yields_restore commit path) ?_
    intro _ t _
    refine yields_pure ?_
    intro u _ commit' h
    cases h
  | prune keepLast =>
    refine yields_then (yields_prune keepLast) ?_
    intro _ t _
    refine yields_pure ?_
    intro u _ commit' h
    cases h

end

def halted (l : Call) (s : Watched) : Watched :=
  ⟨s.store, Function.update s.holder l.project (release l (s.holder l.project)), s.moments⟩

def calls (git : Git) (limits : Limits) :=
  step (watched git limits) (fun x s => { s with store := edit x s.store }) halted
    (script limits) (Except.error GitStoreError.interrupted)

def fourBytes : Limits := ⟨4, 100⟩

def grown : FileTree := (aFile "a" 2).overlay (aFile "b" 9)

def ours : Call := ⟨1, "notes", .take "ours"⟩

def theirs : Call := ⟨2, "notes", .take "theirs"⟩

def commands (l : Call) (n : ℕ) : List (Act Call Date (Project × FileTree × ℕ)) :=
  List.replicate n (.advance l ⟨0, 0⟩)

def oneAfterTheOther : List (Act Call Date (Project × FileTree × ℕ)) :=
  allOfCall ⟨0, "notes", .take "first"⟩ 10 ++ .outside ("notes", grown, 0) ::
    allOfCall ours 2 ++ allOfCall theirs 2 ++ commands ours 10 ++ commands theirs 9

/-- The other call reads the old tree into the index before ours writes a tree from it. -/
def readInBetween : List (Act Call Date (Project × FileTree × ℕ)) :=
  allOfCall ⟨0, "notes", .take "first"⟩ 10 ++ .outside ("notes", grown, 0) ::
    allOfCall ours 8 ++ allOfCall theirs 3 ++ commands ours 4

end IronGolem.SnapshotFidelity
