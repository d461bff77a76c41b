import IronGolem.TransitionRuns
import Mathlib.Data.Int.Notation

/-!
Reviews of quarantined items. Release, Escalate and ExpireStale read copies of items and write them
back whole later on, whatever the stored item has become. Decisions stand where every call reads
items that it may change and nobody else writes them before the call does.
-/
namespace IronGolem.QuarantineReviews

open TransitionRuns List

inductive QuarantineStatus
  | quarantined
  | released
  | escalated
  | expired
  deriving DecidableEq

structure QuarantineItem where
  id : String
  status : QuarantineStatus
  quarantinedAt : ℤ
  releasedAt : Option ℤ
  reviewedBy : String
  releaseReason : String
  ttl : ℤ
  deriving DecidableEq

inductive Op
  | release (id reviewer reason : String)
  | escalate (id : String)
  | expireStale
  deriving DecidableEq

/-- Whether a call that reads an item writes its copy back. -/
def selects (now : ℤ) (item : QuarantineItem) : Op → Bool
  | .release id _ _ | .escalate id => item.id = id
  | .expireStale =>
    item.status = .quarantined ∧ 0 < item.ttl ∧ item.quarantinedAt + item.ttl < now

def edit (now : ℤ) (item : QuarantineItem) : Op → QuarantineItem
  | .release _ reviewer reason =>
    { item with
      status := .released
      releasedAt := some now
      reviewedBy := reviewer
      releaseReason := reason }
  | .escalate _ => { item with status := .escalated }
  | .expireStale => { item with status := .expired, releasedAt := some now }

/-- A copy that a call is about to edit and write back. -/
structure Write where
  op : Op
  now : ℤ
  copy : QuarantineItem
  deriving DecidableEq

structure Sys where
  items : List QuarantineItem
  pending : ℕ → List Write

/-- A call reads the store; its writes follow one by one, in any order. -/
inductive Act
  | call (c : ℕ) (op : Op) (now : ℤ)
  | write (c : ℕ) (w : Write)

def update (items : List QuarantineItem) (item : QuarantineItem) : List QuarantineItem :=
  items.map (fun old => if old.id = item.id then item else old)

def step (s : Sys) : Act → Option Sys
  | .call c op now =>
    if s.pending c = [] then
      some ⟨s.items, Function.update s.pending c
        ((s.items.filter (fun item => selects now item op)).map (Write.mk op now))⟩
    else none
  | .write c w =>
    if w ∈ s.pending c then
      some ⟨update s.items (edit w.now w.copy w.op),
        Function.update s.pending c ((s.pending c).erase w)⟩
    else none

def start (items : List QuarantineItem) : Sys := ⟨items, fun _ => []⟩

/-- A release stands for good, what has expired stays so, and only quarantined items expire. -/
structure DecisionsKept (items : List QuarantineItem) (acts : List Act) (u : Sys) : Prop where
  released : ∀ pre c id reviewer reason now copy post,
    acts = pre ++ .write c ⟨.release id reviewer reason, now, copy⟩ :: post →
    ∀ item ∈ u.items, item.id = copy.id → item.status = .released ∧ item.reviewedBy = reviewer
  expired : ∀ pre post t, acts = pre ++ post → run step (start items) pre = some t →
    ∀ id, (∀ old ∈ t.items, old.id = id → old.status = .expired) →
      ∀ item ∈ u.items, item.id = id → item.status = .expired
  swept : ∀ pre c now copy post t, acts = pre ++ .write c ⟨.expireStale, now, copy⟩ :: post →
    run step (start items) pre = some t →
    ∀ old ∈ t.items, old.id = copy.id → old.status = .quarantined

/-- What an operation may change: nothing that has expired, a release only by its reviewer. -/
def MayChange (old : QuarantineItem) : Op → Prop
  | .release _ reviewer _ =>
    old.status ≠ .expired ∧ (old.status = .released → old.reviewedBy = reviewer)
  | .escalate _ => old.status ≠ .expired ∧ old.status ≠ .released
  | .expireStale => old.status = .quarantined

/-- A call reads only items that it may change. -/
def ReadsOpen (s : Sys) : Act → Prop
  | .call _ op now => ∀ item ∈ s.items, selects now item op →
    ∀ old ∈ s.items, old.id = item.id → MayChange old op
  | .write _ _ => True

/-- The actions since the last read of the call, which is in progress. -/
def SinceRead (acts : List Act) (c : ℕ) (mid : List Act) : Prop :=
  ∃ pre op now, acts = pre ++ .call c op now :: mid ∧ ∀ op' now', .call c op' now' ∉ mid

/-- Between the read of a call and its write to an item, no other write to the item lands. -/
def NoneBetween (acts : List Act) : Prop :=
  ∀ pre c w post mid, acts = pre ++ .write c w :: post → SinceRead pre c mid →
    ∀ c' w', .write c' w' ∈ mid → w'.copy.id ≠ w.copy.id

def FindsOpen (s : Sys) : Act → Prop
  | .call _ _ _ => True
  | .write _ w => ∀ old ∈ s.items, old.id = w.copy.id → MayChange old w.op

variable {items : List QuarantineItem} {acts : List Act} {s t u : Sys} {id reviewer : String}
  {status : QuarantineStatus}

/-- The decision on an id: its status, and for a release the reviewer. -/
def Decided (id : String) (status : QuarantineStatus) (reviewer : String) (s : Sys) : Prop :=
  ∀ item ∈ s.items, item.id = id →
    item.status = status ∧ (status = .released → item.reviewedBy = reviewer)

theorem edit_id (now : ℤ) (item : QuarantineItem) (op : Op) : (edit now item op).id = item.id := by
  cases op <;> rfl

theorem decided_run (hfinal : status = .released ∨ status = .expired)
    (h : Decided id status reviewer s) (hmeets : Meets step FindsOpen s acts)
    (hrun : run step s acts = some u) : Decided id status reviewer u := by
  refine guarded_invariant step FindsOpen (fun _ => True) (Decided id status reviewer) h
    (fun _ _ _ => trivial) ?_ hmeets hrun
  intro s a t _ h hopen hstep
  cases a with
  | call c op now =>
    obtain ⟨-, heq⟩ := Option.ite_none_right_eq_some.mp hstep
    cases heq
    exact h
  | write c w =>
    obtain ⟨op, now, copy⟩ := w
    obtain ⟨-, heq⟩ := Option.ite_none_right_eq_some.mp hstep
    cases heq
    intro item hitem hid
    obtain ⟨old, hold, rfl⟩ := mem_map.mp hitem
    split_ifs at hid ⊢ with hsame
    · obtain ⟨rfl, hreviewer⟩ := h old hold (hsame.trans hid)
      have hmay := hopen old hold (hsame.trans (edit_id now copy op))
      -- Only a further release by the same reviewer may write over a decision.
      cases op with
      | release id' reviewer' reason =>
        have hreleased := hfinal.resolve_right hmay.1
        exact ⟨hreleased.symm, fun _ => (hmay.2 hreleased).symm.trans (hreviewer hreleased)⟩
      | escalate id' => exact absurd (hfinal.resolve_right hmay.1) hmay.2
      | expireStale => rcases hfinal with hfinal | hfinal <;> cases hmay.symm.trans hfinal
    · exact h old hold hid

theorem SinceRead.concat {c : ℕ} {mid : List Act} (h : SinceRead acts c mid) {a : Act}
    (ha : ∀ op now, a ≠ .call c op now) : SinceRead (acts ++ [a]) c (mid ++ [a]) := by
  obtain ⟨pre, op, now, rfl, hmid⟩ := h
  refine ⟨pre, op, now, by simp, fun op' now' hmem => ?_⟩
  rcases mem_append.mp hmem with hmem | hmem
  · exact hmid op' now' hmem
  · exact ha op' now' (mem_singleton.mp hmem).symm

/-- A copy that waits to be written is of an item that its call may still change, unless another
write to the item has landed since the call's read. -/
def Waits (acts : List Act) (s : Sys) : Prop :=
  ∀ c, ∀ w ∈ s.pending c, ∃ mid, SinceRead acts c mid ∧
    ((∃ c' w', .write c' w' ∈ mid ∧ w'.copy.id = w.copy.id) ∨
      ∀ old ∈ s.items, old.id = w.copy.id → MayChange old w.op)

theorem landed_concat {mid : List Act} {id : String} (a : Act)
    (h : ∃ c w, Act.write c w ∈ mid ∧ w.copy.id = id) :
    ∃ c w, Act.write c w ∈ mid ++ [a] ∧ w.copy.id = id := by
  obtain ⟨c, w, hlanded, hid⟩ := h
  exact ⟨c, w, mem_append_left _ hlanded, hid⟩

theorem waits_step (h : Waits acts s) {a : Act} (hreads : ReadsOpen s a)
    (hstep : step s a = some t) : Waits (acts ++ [a]) t := by
  cases a with
  | call c op now =>
    obtain ⟨-, heq⟩ := Option.ite_none_right_eq_some.mp hstep
    cases heq
    intro c' w hw
    by_cases hsame : c' = c
    · subst hsame
      simp only [Function.update_self, mem_map] at hw
      obtain ⟨item, hitem, rfl⟩ := hw
      obtain ⟨hmem, hselects⟩ := mem_filter.mp hitem
      exact ⟨[], ⟨acts, op, now, rfl, by simp⟩, .inr (hreads item hmem hselects)⟩
    · simp only [Function.update_of_ne hsame] at hw
      obtain ⟨mid, hmid, hfound⟩ := h c' w hw
      exact ⟨_, hmid.concat (by rintro _ _ ⟨⟩; exact hsame rfl),
        hfound.imp_left (landed_concat _)⟩
  | write c w₀ =>
    obtain ⟨-, heq⟩ := Option.ite_none_right_eq_some.mp hstep
    cases heq
    intro c' w hw
    have hbefore : w ∈ s.pending c' := by
      by_cases hsame : c' = c
      · subst hsame
        simp only [Function.update_self] at hw
        exact mem_of_mem_erase hw
      · simpa only [Function.update_of_ne hsame] using hw
    obtain ⟨mid, hmid, hfound⟩ := h c' w hbefore
    refine ⟨_, hmid.concat (by simp), ?_⟩
    by_cases hid : w₀.copy.id = w.copy.id
    · exact .inl ⟨c, w₀, by simp, hid⟩
    · refine hfound.imp (landed_concat _) ?_
      intro hopen item hitem hitemID
      obtain ⟨old, hold, rfl⟩ := mem_map.mp hitem
      split_ifs at hitemID ⊢ with hwritten
      · exact absurd ((edit_id _ _ _).symm.trans hitemID) hid
      · exact hopen old hold hitemID

/-- What the writes of such a run find follows from what its calls have read. -/
theorem findsOpen_of_reads (hreads : Meets step ReadsOpen (start items) acts)
    (hbetween : NoneBetween acts) (hrun : run step (start items) acts = some u) :
    Meets step FindsOpen (start items) acts := by
  intro pre a post t hacts ht
  cases a with
  | call c op now => trivial
  | write c w =>
    have hbefore : Meets step ReadsOpen (start items) pre :=
      hreads.middle step [] pre (.write c w :: post) hacts rfl
    have hwaits : Waits pre t :=
      history_invariant step ReadsOpen (fun _ => True) Waits (fun c w hw => absurd hw not_mem_nil)
        (fun _ _ _ => trivial) (fun acts s a u _ h hg hs => waits_step h hg hs) t hbefore ht
    rw [hacts, run_append, ht, Option.bind_some, run_cons, Option.bind_eq_some_iff] at hrun
    obtain ⟨v, hstep, -⟩ := hrun
    obtain ⟨hpending, -⟩ := Option.ite_none_right_eq_some.mp hstep
    obtain ⟨mid, hmid, hfound⟩ := hwaits c w hpending
    refine hfound.resolve_left ?_
    rintro ⟨c', w', hlanded, hid⟩
    exact hbetween pre c w post mid hacts hmid c' w' hlanded hid

/-- Decisions stand in every run whose calls read items that they may change and whose writes come
before any other write to the item. -/
theorem decisionsKept_of_reads (items : List QuarantineItem) (acts : List Act) (u : Sys)
    (hreads : Meets step ReadsOpen (start items) acts) (hbetween : NoneBetween acts)
    (hrun : run step (start items) acts = some u) : DecisionsKept items acts u := by
  have hmeets := findsOpen_of_reads hreads hbetween hrun
  refine ⟨?_, ?_, ?_⟩
  · intro pre c id reviewer reason now copy post hacts item hitem hid
    rw [hacts, run_append, Option.bind_eq_some_iff] at hrun
    obtain ⟨s, hs, hrest⟩ := hrun
    rw [run_cons, Option.bind_eq_some_iff] at hrest
    obtain ⟨t, hstep, hlater⟩ := hrest
    have ht : Decided copy.id .released reviewer t := by
      obtain ⟨-, heq⟩ := Option.ite_none_right_eq_some.mp hstep
      cases heq
      intro item hitem hid
      obtain ⟨old, -, rfl⟩ := mem_map.mp hitem
      split_ifs at hid ⊢ with hsame
      · exact ⟨rfl, fun _ => rfl⟩
      · exact absurd hid hsame
    have hafter : Meets step FindsOpen t post := by
      refine hmeets.middle step (pre ++ [.write c ⟨.release id reviewer reason, now, copy⟩]) post []
        (by rw [hacts]; simp) ?_
      rw [run_concat_iff]
      exact ⟨s, hs, hstep⟩
    have hdecided := decided_run (.inl rfl) ht hafter hlater item hitem hid
    exact ⟨hdecided.1, hdecided.2 rfl⟩
  · intro pre post t hacts ht id hexpired item hitem hid
    rw [hacts, run_append, ht] at hrun
    have hafter := hmeets.middle step pre post [] (by rw [hacts, append_nil]) ht
    have ht : Decided id .expired "" t := fun old hold hid => ⟨hexpired old hold hid, nofun⟩
    exact (decided_run (.inr rfl) ht hafter hrun item hitem hid).1
  · exact fun pre c now copy post t hacts ht old hold hid =>
      hmeets pre (.write c ⟨.expireStale, now, copy⟩) post t hacts ht old hold hid

def heldItem : QuarantineItem := ⟨"q", .quarantined, 0, none, "", "", 10⟩

theorem decisionsKept_of_release :
    let w : Write := ⟨.release "q" "ann" "safe", 5, heldItem⟩
    let acts : List Act := [.call 0 w.op 5, .write 0 w]
    ∃ u, Meets step ReadsOpen (start [heldItem]) acts ∧ NoneBetween acts ∧
      DecisionsKept [heldItem] acts u := by
  intro w acts
  have hreads : Meets step ReadsOpen (start [heldItem]) acts := by
    refine meets_cons step _ _ _ ?_ fun _ _ =>
      meets_cons step _ _ _ trivial (fun _ _ => meets_nil step _ _)
    intro item _ _ old hold _
    rw [mem_singleton.mp hold]
    exact ⟨nofun, nofun⟩
  have hbetween : NoneBetween acts := by
    rintro pre c w' post mid hacts ⟨before, op, now, rfl, -⟩ c' w'' hlanded
    -- The run is the read and the write, so nothing stands between them.
    have hlength := congrArg length hacts
    have hmid : 0 < mid.length := length_pos_of_mem hlanded
    simp only [acts, length_append, length_cons, length_nil] at hlength
    omega
  exact ⟨_, hreads, hbetween, decisionsKept_of_reads _ _ _ hreads hbetween rfl⟩

/-- The sweep reads the item before it is escalated, and expires it after that. -/
theorem escalated_item_expires :
    let expiry : Write := ⟨.expireStale, 20, heldItem⟩
    let escalation : Write := ⟨.escalate "q", 20, heldItem⟩
    let acts : List Act :=
      [.call 0 .expireStale 20, .call 1 (.escalate "q") 20, .write 1 escalation, .write 0 expiry]
    ∃ u, run step (start [heldItem]) acts = some u ∧ ¬ DecisionsKept [heldItem] acts u := by
  intro expiry escalation acts
  refine ⟨_, rfl, fun h => ?_⟩
  have hswept := h.swept [.call 0 .expireStale 20, .call 1 (.escalate "q") 20, .write 1 escalation]
    0 20 heldItem [] _ rfl rfl _ (mem_singleton_self _) rfl
  cases hswept

end IronGolem.QuarantineReviews
