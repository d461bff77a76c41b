import IronGolem.SharedStore

/-!
The history of every project under any number of calls at once. Whatever the order of the commands,
and with garbage collected at any moment, a stored object never refers to one that is missing, so a
ref that can be set names a complete history.
-/
namespace IronGolem.StoreHistory

open InterleavedPrograms TransitionRuns GitObjects RowTables StoreCommands SharedStore List

/-- Objects and refs name stored objects; commits have at most one parent. -/
structure Sound (s : Store) : Prop where
  closed : s.db.Closed
  refs : ∀ r ∈ s.refs.rows, r.2 ∈ s.db.commits
  single : ∀ c ∈ s.db.commits, c.parents.length ≤ 1

theorem sound_bare (workdir : Project → FileTree) : Sound (.bare workdir) where
  closed := ⟨by simp [Store.bare], by simp [Store.bare], by simp [Store.bare], by simp [Store.bare]⟩
  refs := by simp [Store.bare, Table.empty]
  single := by simp [Store.bare]

theorem Sound.mem_of_ref {s : Store} (h : Sound s) (p : Project) (c : Commit)
    (hc : s.ref p = some c) : c ∈ s.db.commits := by
  obtain ⟨r, hr, rfl⟩ := Option.map_eq_some_iff.mp hc
  exact h.refs r ((s.refs.get_eq_some_iff p r).mp hr).1

theorem Sound.linear {s : Store} (h : Sound s) (c : Commit) (hc : c ∈ s.db.commits) : c.Linear :=
  fun a ha => h.single a (h.closed.history c hc a ha)

theorem ref_setRef (s : Store) (p q : Project) (c : Commit) :
    (s.setRef p c).ref q = if q = p then some c else s.ref q := by
  unfold Store.ref Store.setRef
  rw [Table.get_replace]
  split <;> rfl

theorem Sound.addCommit {s : Store} (hs : Sound s) (c : Commit) (htree : c.tree ∈ s.db.trees)
    (hparents : ∀ p ∈ c.parents, p ∈ s.db.commits) (hsingle : c.parents.length ≤ 1) :
    Sound { s with db := s.db.addCommit c } where
  closed := hs.closed.addCommit c htree hparents
  refs r hr := Finset.mem_insert_of_mem (hs.refs r hr)
  single d hd := by
    rcases Finset.mem_insert.mp hd with rfl | hd
    · exact hsingle
    · exact hs.single d hd

theorem Sound.setRef {s : Store} (hs : Sound s) (p : Project) (c : Commit)
    (hc : c ∈ s.db.commits) : Sound (s.setRef p c) where
  closed := hs.closed
  refs r hr := by
    rcases mem_append.mp hr with hr | hr
    · exact hs.refs r (mem_of_mem_filter hr)
    · rw [mem_singleton] at hr
      rw [hr]
      exact hc
  single := hs.single

theorem Sound.collect {s : Store} (hs : Sound s) :
    Sound { s with db := s.db.collect (s.refs.rows.map Prod.snd) } where
  closed := hs.closed.collect _
  refs r hr := s.db.mem_commits_collect _ r.2 (mem_map_of_mem hr) (hs.refs r hr)
  single c hc := hs.single c (Finset.mem_of_mem_filter c hc)

section

variable (git : Git) (limits : Limits) (p : Project)

/-- No command makes a sound store unsound. -/
theorem effect_sound (c : Command) (now : Date) {s : Store} (hs : Sound s) :
    Sound (effect git limits p c now s).1 := by
  cases c with
  | readTree old =>
    cases old with
    | none => exact ⟨hs.closed, hs.refs, hs.single⟩
    | some old =>
      simp only [effect]
      split
      · exact ⟨hs.closed, hs.refs, hs.single⟩
      · exact hs
  | addAll => exact ⟨hs.closed.addBlobs _, hs.refs, hs.single⟩
  | rmCached paths | checkout commit target =>
    simp only [effect]
    split
    · exact ⟨hs.closed, hs.refs, hs.single⟩
    · exact hs
  | diffIndex old =>
    simp only [effect]
    split <;> exact hs
  | writeTree =>
    simp only [effect]
    split
    · rename_i hblobs
      exact ⟨hs.closed.addTree _ hblobs, hs.refs, hs.single⟩
    · exact hs
  | commitTree message parent tree date =>
    simp only [effect]
    split
    · rename_i commit hcommit
      obtain ⟨hparents, htree, hmem⟩ := commitTree_eq_some git hcommit
      refine hs.addCommit commit (resolveTree_mem git htree) ?_ ?_
      · intro d hd
        rw [hparents, Option.mem_toList] at hd
        exact hmem d hd
      · rw [hparents]
        cases parent with
        | none => exact Nat.zero_le 1
        | some d => exact le_refl 1
    · exact hs
  | updateRef new old =>
    simp only [effect]
    split
    · exact hs
    split
    · exact hs
    · rename_i hnew
      exact hs.setRef p new (not_not.mp hnew)
  | gc => exact hs.collect
  | _ => exact hs

/-- Only an `update-ref` that goes through writes a ref, that of its project. -/
theorem effect_refs_cases (c : Command) (now : Date) (s : Store) :
    (effect git limits p c now s).1.refs = s.refs ∨
      ∃ new old, c = .updateRef new old ∧ s.ref p = old ∧ new ∈ s.db.commits ∧
        (effect git limits p c now s).1 = s.setRef p new := by
  cases c with
  | readTree old =>
    left
    cases old with
    | none => rfl
    | some old =>
      simp only [effect]
      split <;> rfl
  | rmCached paths | diffIndex old | writeTree | commitTree message parent tree date
  | checkout commit target =>
    left
    simp only [effect]
    split <;> rfl
  | updateRef new old =>
    simp only [effect]
    split
    · exact .inl rfl
    rename_i hold
    split
    · exact .inl rfl
    rename_i hnew
    exact .inr ⟨new, old, rfl, not_not.mp hold, not_not.mp hnew, rfl⟩
  | _ => exact .inl rfl

theorem effect_ref_of_ne {p q : Project} (c : Command) (now : Date) (s : Store) (hq : q ≠ p) :
    (effect git limits p c now s).1.ref q = s.ref q := by
  rcases effect_refs_cases git limits p c now s with h | ⟨new, old, -, -, -, h⟩
  · unfold Store.ref
    rw [h]
  · rw [h, ref_setRef, if_neg hq]

structure Update where
  call : Call
  commit : Commit

def isPrune : Job → Bool
  | .prune _ => true
  | _ => false

/-- A store, and the updates of refs that went through, the last one first. -/
structure Traced where
  store : Store
  updates : List Update

def noted (l : Call) : (c : Command) → Reply c → List Update → List Update
  | .updateRef new _, r, us =>
      match (r : UpdateReply) with
      | .updated => ⟨l, new⟩ :: us
      | _ => us
  | _, _, us => us

def traced (l : Call) (c : Command) (now : Date) (s : Traced) : Traced × Reply c :=
  let r := effect git limits l.project c now s.store
  (⟨r.1, noted l c r.2 s.updates⟩, r.2)

/-- Recorded by a call that is no prune, and not pruned since. -/
def Stands (us : List Update) (u : Update) : Prop :=
  isPrune u.call.job = false ∧ ∃ newer older, us = newer ++ u :: older ∧
    ∀ v ∈ newer, v.call.project = u.call.project → isPrune v.call.job = false

theorem stands_cons_iff (us : List Update) (v u : Update) :
    Stands (v :: us) u ↔ (isPrune u.call.job = false ∧ u = v) ∨
      (Stands us u ∧ (v.call.project = u.call.project → isPrune v.call.job = false)) := by
  constructor
  · rintro ⟨hjob, newer, older, hsplit, hnewer⟩
    cases newer with
    | nil =>
      rw [nil_append, cons.injEq] at hsplit
      exact .inl ⟨hjob, hsplit.1.symm⟩
    | cons w newer =>
      rw [cons_append, cons.injEq] at hsplit
      obtain ⟨rfl, hsplit⟩ := hsplit
      exact .inr ⟨⟨hjob, newer, older, hsplit, fun x hx => hnewer x (mem_cons_of_mem v hx)⟩,
        hnewer v mem_cons_self⟩
  · rintro (⟨hjob, rfl⟩ | ⟨⟨hjob, newer, older, rfl, hnewer⟩, hv⟩)
    · exact ⟨hjob, [], us, rfl, fun x hx => absurd hx not_mem_nil⟩
    · refine ⟨hjob, v :: newer, older, rfl, ?_⟩
      intro x hx hproject
      rcases mem_cons.mp hx with rfl | hx
      · exact hv hproject
      · exact hnewer x hx hproject

/-- The store is sound, and every snapshot that stands is in the chain of its project. -/
structure Safe (s : Traced) : Prop where
  sound : Sound s.store
  chain : ∀ u, Stands s.updates u → ∃ tip, s.store.ref u.call.project = some tip ∧
    u.commit ∈ tip.history

def Recorded (s t : Traced) : Prop := ∃ newer, t.updates = newer ++ s.updates

def contract : Contract Call Command Date (Project × FileTree × ℕ) Traced where
  inv := Safe
  rely _ := Recorded
  rely_refl _ s := ⟨[], rfl⟩
  rely_trans := by
    rintro l s t u ⟨newer, ht⟩ ⟨newest, hu⟩
    exact ⟨newest ++ newer, by rw [hu, ht, List.append_assoc]⟩
  guard _ _ _ _ := True
  tolerates _ _ := True

theorem Recorded.mem {s t : Traced} (h : Recorded s t) (u : Update) (hu : u ∈ s.updates) :
    u ∈ t.updates := by
  obtain ⟨newer, ht⟩ := h
  rw [ht]
  exact mem_append_right newer hu

theorem noted_suffix (l : Call) (c : Command) (r : Reply c) (us : List Update) :
    ∃ newer, noted l c r us = newer ++ us := by
  cases c with
  | updateRef new old =>
    simp only [noted]
    split
    · exact ⟨[⟨l, new⟩], rfl⟩
    · exact ⟨[], rfl⟩
  | _ => exact ⟨[], rfl⟩

theorem recorded_traced (l : Call) (c : Command) (now : Date) (s : Traced) :
    Recorded s (traced git limits l c now s).1 := noted_suffix l c _ s.updates

variable {c : Command}

theorem fair_of_ne (l : Call) (now : Date) {s : Traced} (hs : Safe s)
    (hc : ∀ new old, c ≠ .updateRef new old) : Fair contract (traced git limits) l c now s := by
  have hrefs : (effect git limits l.project c now s.store).1.refs = s.store.refs := by
    rcases effect_refs_cases git limits l.project c now s.store with h | ⟨new, old, h, -⟩
    · exact h
    · exact absurd h (hc new old)
  have hnoted : (traced git limits l c now s).1.updates = s.updates := by
    cases c with
    | updateRef new old => exact absurd rfl (hc new old)
    | _ => rfl
  refine ⟨⟨effect_sound git limits l.project c now hs.sound, ?_⟩,
    fun m _ => recorded_traced git limits l c now s⟩
  intro u hu
  rw [hnoted] at hu
  obtain ⟨tip, htip, hmem⟩ := hs.chain u hu
  refine ⟨tip, ?_, hmem⟩
  show (((effect git limits l.project c now s.store).1.refs.get u.call.project).map Prod.snd) = _
  rw [hrefs]
  exact htip

/-- So is `update-ref` in a prune, and where the new commit comes on top of the old one. -/
theorem fair_updateRef {l : Call} {new : Commit} {old : Option Commit} (now : Date) {s : Traced}
    (hs : Safe s) (hnew : isPrune l.job = true ∨ new.parents = old.toList) :
    Fair contract (traced git limits) l (.updateRef new old) now s := by
  have hsound := effect_sound git limits l.project (.updateRef new old) now hs.sound
  refine ⟨⟨hsound, ?_⟩, fun m _ => recorded_traced git limits l (.updateRef new old) now s⟩
  intro u hu
  simp only [traced, effect] at hu ⊢
  split at hu
  · rename_i hold
    rw [if_pos hold]
    exact hs.chain u hu
  rename_i hold
  rw [if_neg hold]
  split at hu
  · rename_i hmem
    rw [if_pos hmem]
    exact hs.chain u hu
  rename_i hmem
  rw [if_neg hmem]
  simp only [noted, stands_cons_iff] at hu
  simp only [ref_setRef]
  rcases hu with ⟨-, rfl⟩ | ⟨hu, hprune⟩
  · exact ⟨new, by simp, new.self_mem_history⟩
  · obtain ⟨tip, htip, hin⟩ := hs.chain u hu
    by_cases hproject : u.call.project = l.project
    · -- the old ref is the parent of the new one, or the chain has just been replaced
      rcases hnew with hjob | hparents
      · rw [hprune hproject.symm] at hjob
        cases hjob
      · refine ⟨new, by rw [if_pos hproject], ?_⟩
        rw [hproject, not_not.mp hold] at htip
        refine new.mem_history_of_parent tip u.commit ?_ hin
        rw [hparents, htip]
        exact mem_singleton_self tip
    · exact ⟨tip, by rw [if_neg hproject]; exact htip, hin⟩

variable {git limits} {α β : Type} {l : Call} {s : Traced} {Q : Traced → Except GitStoreError α →
    Prop} {f : β → Script α}

theorem assures_command {read : Reply c → Except GitStoreError β} (hs : Safe s)
    (hc : ∀ new old, c ≠ .updateRef new old) (herror : ∀ u e, Q u (.error e))
    (hnext : ∀ t now a, read (traced git limits l c now t).2 = .ok a → ∀ u, Safe u →
      Assures contract (traced git limits) l Q (f a) u) :
    Assures contract (traced git limits) l Q (Attempt.require c read >>= f : Script α) s := by
  refine Assures.attempt hs (assures_require ?_)
  intro t now _ ht _
  refine ⟨fair_of_ne git limits l now ht hc, ?_⟩
  intro u _ hu
  exact ⟨fun a ha => hnext t now a ha u hu, fun e _ v _ _ => herror v e⟩

theorem assures_then {p : Script β} (hs : Safe s)
    (hp : Assures contract (traced git limits) l (fun _ _ => True) p s)
    (herror : ∀ u e, Q u (.error e))
    (hnext : ∀ a u, Safe u → Assures contract (traced git limits) l Q (f a) u) :
    Assures contract (traced git limits) l Q (p >>= f : Script α) s := by
  refine Assures.attempt hs (hp.mono ?_)
  intro t r ht _
  exact ⟨fun a _ => hnext a t ht, fun e _ u _ _ => herror u e⟩

theorem assures_rmChunks (chunks : List (List Path)) (s : Traced) (hs : Safe s) :
    Assures contract (traced git limits) l (fun _ _ => True) (rmChunks chunks) s := by
  induction chunks generalizing s with
  | nil => exact assures_done (fun _ _ _ => trivial)
  | cons chunk rest ih =>
    refine assures_command hs (by simp) (fun _ _ => trivial) ?_
    intro _ _ _ _ u hu
    exact ih u hu

theorem assures_dropOversizeFiles (hs : Safe s) :
    Assures contract (traced git limits) l (fun _ _ => True) dropOversizeFiles s := by
  refine assures_command hs (by simp) (fun _ _ => trivial) ?_
  intro _ _ paths _ u hu
  refine assures_command hu (by simp) (fun _ _ => trivial) ?_
  intro _ _ oversize _ v hv
  exact assures_rmChunks (chunks 100 oversize) v hv

theorem assures_unchanged (old : Option Commit) (s : Traced) :
    Assures contract (traced git limits) l (fun _ _ => True) (unchanged old) s := by
  cases old with
  | none => exact assures_done (fun _ _ _ => trivial)
  | some old =>
    intro t now _ ht _
    exact ⟨fair_of_ne git limits l now ht (by simp), fun _ _ _ => trivial⟩

def Noted (l : Call) (s : Traced) (r : Except GitStoreError (Option Commit)) : Prop :=
  ∀ c, r = .ok (some c) → ⟨l, c⟩ ∈ s.updates

theorem noted_error (l : Call) (s : Traced) (e : GitStoreError) : Noted l s (.error e) := by
  intro c h
  cases h

theorem noted_none (l : Call) (s : Traced) : Noted l s (.ok none) := by
  intro c h
  cases h

theorem assures_touchMeta {answer : Option Commit} (hs : Safe s) (hnoted : Noted l s (.ok answer)) :
    Assures contract (traced git limits) l (Noted l)
      (do let _ ← ask .touchMeta; pure answer : Script (Option Commit)) s := by
  refine Assures.attempt hs (assures_require ?_)
  intro t now hrely ht _
  refine ⟨fair_of_ne git limits l now ht (by simp), ?_⟩
  intro u hu _
  refine ⟨fun _ _ => assures_done ?_, fun e _ v _ _ => noted_error l v e⟩
  intro v hv _ c hc
  have hmem : ⟨l, c⟩ ∈ s.updates := hnoted c hc
  exact hv.mem _ (hu.mem _ (hrely.mem _ hmem))

variable (reason : String)

/-- The commit is made on top of the old ref, so the record may be extended by it. -/
theorem assures_record (old : Option Commit) (hs : Safe s) :
    Assures contract (traced git limits) l (Noted l) (record l.project reason old) s := by
  refine assures_command hs (by simp) (noted_error l) ?_
  intro _ _ tree _ u hu
  refine assures_command hu (by simp) (noted_error l) ?_
  intro v now commit hcommit w hw
  have hparents : commit.parents = old.toList := by
    cases hmade : commitTree git v.store.db now (orCheckpoint reason) old (.written tree) none with
    | none =>
      simp only [traced, effect, hmade] at hcommit
      cases hcommit
    | some c =>
      simp only [traced, effect, hmade] at hcommit
      cases hcommit
      exact (commitTree_eq_some git hmade).1
  refine Assures.attempt hw (assures_require ?_)
  intro x now' _ hx _
  refine ⟨fair_updateRef git limits now' hx (.inr hparents), ?_⟩
  intro y hy hsafe
  refine ⟨?_, fun e _ z _ _ => noted_error l z e⟩
  intro _ hupdated
  refine assures_touchMeta hsafe ?_
  intro c hc
  cases hc
  refine hy.mem _ ?_
  simp only [traced] at hupdated ⊢
  split at hupdated
  · rename_i hreply
    simp only [noted, hreply]
    exact mem_cons_self
  · cases hupdated
  · cases hupdated

theorem assures_takeInner (old : Option Commit) (hs : Safe s) :
    Assures contract (traced git limits) l (Noted l) (takeInner l.project reason old) s := by
  refine assures_command hs (by simp) (noted_error l) ?_
  intro _ _ _ _ u hu
  refine assures_command hu (by simp) (noted_error l) ?_
  intro _ _ _ _ v hv
  refine assures_then hv (assures_dropOversizeFiles hv) (noted_error l) ?_
  intro _ w hw
  refine assures_then hw (assures_unchanged old w) (noted_error l) ?_
  intro same x hx
  cases same with
  | true => exact assures_touchMeta hx (noted_none l x)
  | false => exact assures_record reason old hx

theorem assures_take (hs : Safe s) :
    Assures contract (traced git limits) l (Noted l) (take limits l.project reason) s := by
  refine assures_command hs (by simp) (noted_error l) ?_
  intro _ _ _ _ u hu
  refine assures_command hu (by simp) (noted_error l) ?_
  intro _ _ old _ v hv
  exact assures_takeInner reason old hv

theorem assures_restore (commit : Commit) (path : Option String) (hs : Safe s) :
    Assures contract (traced git limits) l (fun _ _ => True)
      (restore limits l.project commit path) s := by
  unfold restore
  split
  · exact assures_done (fun _ _ _ => trivial)
  refine assures_command hs (by simp) (fun _ _ => trivial) ?_
  intro _ _ _ _ u hu
  refine assures_command hu (by simp) (fun _ _ => trivial) ?_
  intro _ _ old _ v hv
  refine assures_then hv ?_ (fun _ _ => trivial) ?_
  · exact (assures_takeInner "pre-restore snapshot" old hv).mono (fun _ _ _ _ => trivial)
  intro _ w hw t now _ ht _
  exact ⟨fair_of_ne git limits l now ht (by simp), fun _ _ _ => trivial⟩

theorem assures_rebuild (parent : Option Commit) (kept : List SharedStore.Kept) (s : Traced)
    (hs : Safe s) :
    Assures contract (traced git limits) l (fun _ _ => True) (rebuild parent kept) s := by
  induction kept generalizing parent s with
  | nil => exact assures_done (fun _ _ _ => trivial)
  | cons k rest ih =>
    refine assures_command hs (by simp) (fun _ _ => trivial) ?_
    intro _ _ commit _ u hu
    exact ih (some commit) u hu

theorem assures_replaceChain (tip : Commit) (newTip : Option Commit)
    (hjob : isPrune l.job = true) (hs : Safe s) :
    Assures contract (traced git limits) l (fun _ _ => True)
      (replaceChain l.project tip newTip) s := by
  cases newTip with
  | none => exact assures_done (fun _ _ _ => trivial)
  | some newTip =>
    refine Assures.attempt hs (assures_require ?_)
    intro t now _ ht _
    refine ⟨fair_updateRef git limits now ht (.inl hjob), ?_⟩
    intro u _ hu
    refine ⟨fun _ _ => ?_, fun _ _ _ _ _ => trivial⟩
    refine assures_command hu (by simp) (fun _ _ => trivial) ?_
    intro _ _ _ _ v hv
    refine assures_command hv (by simp) (fun _ _ => trivial) ?_
    intro _ _ _ _ w hw
    exact assures_done (fun _ _ _ => trivial)

theorem assures_prune (keepLast : ℕ) (hjob : isPrune l.job = true) (hs : Safe s) :
    Assures contract (traced git limits) l (fun _ _ => True) (prune l.project keepLast) s := by
  unfold prune
  split
  · exact assures_done (fun _ _ _ => trivial)
  refine assures_command hs (by simp) (fun _ _ => trivial) ?_
  intro _ _ tip _ u hu
  cases tip with
  | none => exact assures_done (fun _ _ _ => trivial)
  | some tip =>
    refine assures_command hu (by simp) (fun _ _ => trivial) ?_
    intro _ _ count _ v hv
    split
    · exact assures_done (fun _ _ _ => trivial)
    refine assures_command hv (by simp) (fun _ _ => trivial) ?_
    intro _ _ text _ w hw
    -- any list of lines will do, and the elaborator must not try to reverse this one
    generalize ((lines text).filterMap parseLine).reverse = kept
    refine assures_then hw (assures_rebuild none kept w hw) (fun _ _ => trivial) ?_
    intro newTip x hx
    exact assures_replaceChain tip newTip hjob hx

def AnswerNoted (l : Call) (s : Traced) (r : Except GitStoreError Answer) : Prop :=
  ∀ c, r = .ok (.taken (some c)) → isPrune l.job = false ∧ ⟨l, c⟩ ∈ s.updates

theorem assures_script (l : Call) (hs : Safe s) :
    Assures contract (traced git limits) l (AnswerNoted l) (script limits l) s := by
  unfold script
  cases hjob : l.job with
  | take reason =>
    refine Assures.attempt hs ((assures_take reason hs).mono ?_)
    intro t r _ hnoted
    refine ⟨?_, ?_⟩
    · rintro commit rfl
      rintro u hu - c ⟨⟩
      exact ⟨by rw [hjob]; rfl, hu.mem _ (hnoted c rfl)⟩
    · rintro e rfl u - - c ⟨⟩
  | restore commit path =>
    refine assures_then hs (assures_restore commit path hs) ?_ ?_
    · rintro u e c ⟨⟩
    · intro _ u _
      rintro v - - c ⟨⟩
  | prune keepLast =>
    refine assures_then hs (assures_prune keepLast (by rw [hjob]; rfl) hs) ?_ ?_
    · rintro u e c ⟨⟩
    · intro _ u _
      rintro v - - c ⟨⟩

end

def calls (git : Git) (limits : Limits) :=
  step (traced git limits) (fun x s => { s with store := edit x s.store }) (fun _ s => s)
    (script limits) (Except.error GitStoreError.interrupted)

theorem assured_calls {git : Git} {limits : Limits} {s : Store} (hs : Sound s)
    {acts : List (Act Call Date (Project × FileTree × ℕ))}
    {t : Sys Call Command Reply Traced (Except GitStoreError Answer)}
    (hrun : run (calls git limits) (start ⟨s, []⟩) acts = some t) :
    Assured (traced git limits) contract AnswerNoted t := by
  refine assured_run (fun l s hs => assures_script l hs) ?_ ?_ ?_ ⟨hs, ?_⟩ ?_ hrun
  · rintro l u - c ⟨⟩
  · intro l u hu
    exact ⟨hu, fun m _ => ⟨[], rfl⟩⟩
  · intro x u hu _
    exact ⟨⟨⟨hu.sound.closed, hu.sound.refs, hu.sound.single⟩, hu.chain⟩, fun l => ⟨[], rfl⟩⟩
  · rintro u ⟨-, newer, older, hsplit, -⟩
    exact absurd hsplit (by simp)
  · intro pre act post u _ _
    cases act with
    | advance l now =>
      simp only [Allowed]
      split <;> trivial
    | _ => trivial

/-- Every ref names a complete chain, a returned snapshot stays in it until a prune, and no prune
moves the ref of another project. -/
theorem histories_safe (git : Git) (limits : Limits) (s : Store) (hs : Sound s)
    (acts : List (Act Call Date (Project × FileTree × ℕ)))
    (t : Sys Call Command Reply Traced (Except GitStoreError Answer))
    (hrun : run (calls git limits) (start ⟨s, []⟩) acts = some t) :
    (∀ p tip, t.shared.store.ref p = some tip →
      t.shared.store.db.Complete tip ∧ tip.Linear) ∧
    (∀ l c, t.result l = some (.ok (.taken (some c))) →
      ∃ newer older, t.shared.updates = newer ++ ⟨l, c⟩ :: older ∧
        ((∀ v ∈ newer, v.call.project = l.project → isPrune v.call.job = false) →
          ∃ tip, t.shared.store.ref l.project = some tip ∧ c ∈ tip.history)) ∧
    (∀ l now u, isPrune l.job = true → calls git limits t (.advance l now) = some u →
      ∀ q, q ≠ l.project → u.shared.store.ref q = t.shared.store.ref q) := by
  have hassured := assured_calls hs hrun
  have hsound := hassured.inv.sound
  refine ⟨?_, ?_, ?_⟩
  · intro p tip htip
    have hmem := hsound.mem_of_ref p tip htip
    exact ⟨hsound.closed.complete tip hmem, hsound.linear tip hmem⟩
  · intro l c hdone
    obtain ⟨hjob, hmem⟩ := hassured.result l _ hdone c rfl
    obtain ⟨newer, older, hsplit⟩ := append_of_mem hmem
    refine ⟨newer, older, hsplit, ?_⟩
    intro hnewer
    exact hassured.inv.chain ⟨l, c⟩ ⟨hjob, newer, older, hsplit, hnewer⟩
  · intro l now u _ hstep q hq
    cases step_cases _ _ _ _ _ hstep with
    | advance l now c next hcall =>
      exact effect_ref_of_ne git limits c now t.shared.store hq

def takeNotes : Call := ⟨0, "notes", .take "draft"⟩

/-- Two snapshots, then a prune while another project waits for its answer. -/
def mailPruned : List (Act Call Date (Project × FileTree × ℕ)) :=
  allOfCall ⟨0, "mail", .take "first"⟩ 10 ++
    .outside ("mail", (aFile "b" 1).overlay (aFile "a" 2), 0) ::
      allOfCall ⟨0, "mail", .take "second"⟩ 11 ++
        allOfCall takeNotes 9 ++ allOfCall ⟨0, "mail", .prune 1⟩ 7 ++ [.advance takeNotes ⟨0, 0⟩]

theorem notes_outlive_prune_of_mail :
    ∃ t c tip, run (calls plainGit .default) (start ⟨.bare (fun _ => aFile "a" 2), []⟩) mailPruned =
        some t ∧ t.result takeNotes = some (.ok (.taken (some c))) ∧
      t.shared.store.ref "notes" = some tip ∧ c ∈ tip.history ∧ t.shared.store.db.Complete tip := by
  obtain ⟨t, hrun, hkept, c, -, hdone⟩ := exists_run_of_check (calls plainGit .default)
    (fun t => (∀ u ∈ t.shared.updates, u.call.project = "notes" → isPrune u.call.job = false) ∧
      ∃ c ∈ t.shared.store.db.commits, t.result takeNotes = some (.ok (.taken (some c))))
    (start ⟨.bare (fun _ => aFile "a" 2), []⟩) mailPruned (by decide +kernel)
  obtain ⟨hrefs, htaken, -⟩ := histories_safe plainGit .default _ (sound_bare _) mailPruned t hrun
  obtain ⟨newer, older, hsplit, hstays⟩ := htaken takeNotes c hdone
  have hnewer : ∀ u ∈ newer, u.call.project = "notes" → isPrune u.call.job = false := by
    intro u hu
    refine hkept u ?_
    rw [hsplit]
    exact mem_append_left _ hu
  obtain ⟨tip, htip, hmem⟩ := hstays hnewer
  exact ⟨t, c, tip, hrun, hdone, htip, hmem, (hrefs "notes" tip htip).1⟩

end IronGolem.StoreHistory
