import IronGolem.NumberedLists
import IronGolem.TransitionRuns

/-!
Registering and taking down inbound pumps at the same time. Every section of the manager's calls
that holds the lock is one step, and so are starting a pump's goroutine and calling its cancel
function.
-/
namespace IronGolem.PumpRegistry

open NumberedLists TransitionRuns Option List

structure Pump where
  id : String
  started : Bool
  cancelled : Bool
  ended : Bool
  deriving DecidableEq, Repr

def Pump.live (p : Pump) : Bool := p.started && !p.cancelled && !p.ended

def Pump.due (p : Pump) : Bool := !p.cancelled && !p.ended

inductive Call
  | registerSource (id : String) (nilSource : Bool)
  | disconnect (id : String)
  | disconnectAll
  deriving DecidableEq, Repr

inductive Phase
  | checking (id : String)
  | connecting (id : String)
  | inserting (id : String)
  | starting (pump : ℕ)
  | removing (id : String)
  | closing
  | taking
  /-- The cancel functions that the call has taken from the table and not called yet. -/
  | cancelling (all : Bool) (pumps : List ℕ)
  | waiting
  | returned (err : Option String)
  | panicked
  deriving DecidableEq, Repr

structure Sys where
  handler : Bool
  /-- The connectors that have an entry in the health table. -/
  states : String → Bool
  sources : List (String × ℕ)
  stopClosed : Bool
  /-- Whether a `DisconnectAll` has emptied the table. -/
  snapshotTaken : Bool
  /-- Pumps in the order of their registration. -/
  pumps : List Pump
  calls : ℕ → Option Phase

def init : Sys := ⟨false, fun _ => false, [], false, false, [], fun _ => none⟩

variable (s : Sys) (c : ℕ)

def Sys.setCall (p : Phase) : Sys :=
  { s with calls := Function.update s.calls c (some p) }

def Call.first : Call → Phase
  | registerSource id nilSource =>
      if nilSource then .returned (some "connector: nil source") else .checking id
  | disconnect id => .removing id
  | disconnectAll => .closing

def check (id : String) : Phase :=
  if (s.sources.lookup id).isSome then
    .returned (some "connector: source already registered")
  else if s.handler then .connecting id
  else .returned (some "connector: inbound handler not set; call SetInboundHandler first")

def without (sources : List (String × ℕ)) (id : String) : List (String × ℕ) :=
  sources.filter (fun e => e.1 ≠ id)

/-- The next section of a call. -/
def advance : Phase → Option Sys
  | .checking id => some (s.setCall c (check s id))
  | .connecting id =>
      some { s.setCall c (.inserting id) with states := Function.update s.states id true }
  | .inserting id =>
      some { s.setCall c (.starting s.pumps.length) with
        sources := (id, s.pumps.length) :: without s.sources id
        pumps := s.pumps ++ [⟨id, false, false, false⟩] }
  | .starting i =>
      some { s.setCall c (.returned none) with
        pumps := s.pumps.modify i (fun p => { p with started := true }) }
  | .removing id =>
      if s.states id then
        match s.sources.lookup id with
        | none => some (s.setCall c (.returned none))
        | some i =>
            some { s.setCall c (.cancelling false [i]) with sources := without s.sources id }
      else some (s.setCall c (.returned (some "connector not found")))
  | .closing =>
      -- closing a closed channel panics
      if s.stopClosed then some (s.setCall c .panicked)
      else some { s.setCall c .taking with stopClosed := true }
  | .taking =>
      some { s.setCall c (.cancelling true (s.sources.map Prod.snd)) with
        sources := []
        snapshotTaken := true }
  | .cancelling all [] => some (s.setCall c (if all then .waiting else .returned none))
  | .cancelling _ (_ :: _) => none
  | .waiting =>
      if s.pumps.all (fun p => !p.started || p.ended) then some (s.setCall c (.returned none))
      else none
  | .returned _ => none
  | .panicked => none

/-- Cancel functions are called in any order; a pump ends when cancelled or without a channel. -/
inductive Act
  | setInboundHandler
  | begin (c : ℕ) (call : Call)
  | advance (c : ℕ)
  | cancel (c : ℕ) (pump : ℕ)
  | finish (pump : ℕ)
  deriving DecidableEq, Repr

variable (i : ℕ)

def cancelPump : Phase → Option Sys
  | .cancelling all pumps =>
      if i ∈ pumps then
        some { s.setCall c (.cancelling all (pumps.erase i)) with
          pumps := s.pumps.modify i (fun p => { p with cancelled := true }) }
      else none
  | _ => none

def step : Act → Option Sys
  | .setInboundHandler => some { s with handler := true }
  | .begin c call =>
      match s.calls c with
      | none => some (s.setCall c call.first)
      | some _ => none
  | .advance c =>
      match s.calls c with
      | some phase => advance s c phase
      | none => none
  | .cancel c i =>
      match s.calls c with
      | some phase => cancelPump s c i phase
      | none => none
  | .finish i =>
      match s.pumps[i]? with
      | some p =>
          if p.started ∧ p.ended = false then
            some { s with pumps := s.pumps.modify i (fun p => { p with ended := true }) }
          else none
      | none => none

def Phase.holds : Phase → Prop
  | cancelling _ pumps => i ∈ pumps
  | _ => False

def Sys.heldByCall : Prop := ∃ c phase, s.calls c = some phase ∧ phase.holds i

/-- The counted pumps are the only ones of their connectors, each within reach of a cancel. -/
structure Stoppable (counts : Pump → Bool) (s : Sys) : Prop where
  unique : ∀ (i j : ℕ) p q, s.pumps[i]? = some p → s.pumps[j]? = some q → counts p → counts q →
    p.id = q.id → i = j
  held : ∀ (i : ℕ) p, s.pumps[i]? = some p → counts p →
    s.sources.lookup p.id = some i ∨ s.heldByCall i
  shut : s.snapshotTaken = true → ∀ (i : ℕ) p, s.pumps[i]? = some p → counts p → s.heldByCall i

def Starts (a : Act) : Prop := ∃ c i, a = .advance c ∧ s.calls c = some (.starting i)

/-- The pumps are stoppable, now and after goroutines of registered pumps have been started. -/
def AlwaysStoppable : Prop :=
  ∀ starts v, Meets step Starts s starts → run step s starts = some v → Stoppable Pump.live v

/-- A source is written before any snapshot, with no older pump of the connector running. -/
def InsertsAlone : Act → Prop
  | .advance c =>
      match s.calls c with
      | some (.inserting id) =>
          s.snapshotTaken = false ∧ ∀ p ∈ s.pumps, p.id = id → p.due = false
      | _ => True
  | _ => True

instance (s : Sys) (a : Act) : Decidable (InsertsAlone s a) := by
  unfold InsertsAlone
  split
  · split <;> infer_instance
  · infer_instance

/-- A step that leaves the pumps, the table and the hands of the calls as they are. -/
structure Quiet (s : Sys) (a : Act) (u : Sys) : Prop where
  pumps : u.pumps = s.pumps
  sources : u.sources = s.sources
  snapshotTaken : u.snapshotTaken = s.snapshotTaken
  held : ∀ i, u.heldByCall i ↔ s.heldByCall i
  starting : ∀ c i, s.calls c = some (.starting i) → u.calls c = some (.starting i)
  not_inserting : ∀ c id, a = .advance c → s.calls c ≠ some (.inserting id)

inductive StepTo (s : Sys) : Act → Sys → Prop
  | quiet (a : Act) (u : Sys) (h : Quiet s a u) : StepTo s a u
  | inserted (c : ℕ) (id : String) (hcall : s.calls c = some (.inserting id)) :
      StepTo s (.advance c)
        { s.setCall c (.starting s.pumps.length) with
          sources := (id, s.pumps.length) :: without s.sources id
          pumps := s.pumps ++ [⟨id, false, false, false⟩] }
  | started (c i : ℕ) (hcall : s.calls c = some (.starting i)) :
      StepTo s (.advance c)
        { s.setCall c (.returned none) with
          pumps := s.pumps.modify i (fun p => { p with started := true }) }
  | removed (c : ℕ) (id : String) (i : ℕ) (hcall : s.calls c = some (.removing id))
      (hsource : s.sources.lookup id = some i) :
      StepTo s (.advance c)
        { s.setCall c (.cancelling false [i]) with sources := without s.sources id }
  | taken (c : ℕ) (hcall : s.calls c = some .taking) :
      StepTo s (.advance c)
        { s.setCall c (.cancelling true (s.sources.map Prod.snd)) with
          sources := []
          snapshotTaken := true }
  | cancelled (c i : ℕ) (all : Bool) (pumps : List ℕ)
      (hcall : s.calls c = some (.cancelling all pumps)) (hi : i ∈ pumps) :
      StepTo s (.cancel c i)
        { s.setCall c (.cancelling all (pumps.erase i)) with
          pumps := s.pumps.modify i (fun p => { p with cancelled := true }) }
  | finished (i : ℕ) (p : Pump) (hp : s.pumps[i]? = some p) (hstarted : p.started = true) :
      StepTo s (.finish i) { s with pumps := s.pumps.modify i (fun p => { p with ended := true }) }

variable {s : Sys} {c : ℕ} (i : ℕ) (p : Phase)

theorem heldByCall_setCall_iff :
    (s.setCall c p).heldByCall i ↔
      p.holds i ∨ ∃ c' p', c' ≠ c ∧ s.calls c' = some p' ∧ p'.holds i := by
  constructor
  · rintro ⟨c', p', hcall, hholds⟩
    by_cases hc : c' = c
    · subst hc
      simp only [Sys.setCall, Function.update_self, some.injEq] at hcall
      exact .inl (hcall ▸ hholds)
    · simp only [Sys.setCall, Function.update_of_ne hc] at hcall
      exact .inr ⟨c', p', hc, hcall, hholds⟩
  · rintro (hholds | ⟨c', p', hc, hcall, hholds⟩)
    · exact ⟨c, p, by simp [Sys.setCall], hholds⟩
    · exact ⟨c', p', by simp [Sys.setCall, hc, hcall], hholds⟩

theorem holds_or_held {i : ℕ} (h : (s.setCall c p).heldByCall i) : p.holds i ∨ s.heldByCall i := by
  rcases (heldByCall_setCall_iff i p).mp h with hnew | ⟨c', p', -, hcall, hholds⟩
  · exact .inl hnew
  · exact .inr ⟨c', p', hcall, hholds⟩

theorem held_setCall {i : ℕ} (hbefore : ∀ p', s.calls c = some p' → ¬ p'.holds i)
    (h : s.heldByCall i) : (s.setCall c p).heldByCall i := by
  obtain ⟨c', p', hcall, hholds⟩ := h
  refine (heldByCall_setCall_iff i p).mpr (.inr ⟨c', p', ?_, hcall, hholds⟩)
  rintro rfl
  exact hbefore p' hcall hholds

theorem heldByCall_setCall_of_idle {i : ℕ}
    (hbefore : ∀ p', s.calls c = some p' → ¬ p'.holds i) (hafter : ¬ p.holds i) :
    (s.setCall c p).heldByCall i ↔ s.heldByCall i :=
  ⟨fun h => (holds_or_held p h).resolve_left hafter, held_setCall p hbefore⟩

theorem setCall_starting (hc : ∀ i, s.calls c ≠ some (.starting i))
    {c' i : ℕ} (h : s.calls c' = some (.starting i)) :
    (s.setCall c p).calls c' = some (.starting i) := by
  have hne : c' ≠ c := by
    rintro rfl
    exact hc i h
  simp only [Sys.setCall, Function.update_of_ne hne, h]

/-- The phases that hold no cancel function and whose step changes neither the table nor a pump. -/
def Phase.plain : Phase → Bool
  | inserting _ => false
  | starting _ => false
  | cancelling _ pumps => pumps.isEmpty
  | _ => true

theorem not_holds_of_plain (i : ℕ) (h : p.plain = true) : ¬ p.holds i := by
  cases p with
  | cancelling all pumps =>
    simp only [Phase.plain, List.isEmpty_iff] at h
    simp [Phase.holds, h]
  | _ => exact id

variable {u : Sys} {a : Act}

theorem quiet_of_move {p : Phase}
    (hcalls : u.calls = (s.setCall c p).calls) (hpumps : u.pumps = s.pumps)
    (hsources : u.sources = s.sources) (hsnap : u.snapshotTaken = s.snapshotTaken)
    (ha : ∀ c', a = .advance c' → c' = c) (hbefore : ∀ q, s.calls c = some q → q.plain = true)
    (hafter : ∀ i, ¬ p.holds i) : Quiet s a u := by
  refine ⟨hpumps, hsources, hsnap, ?_, ?_, ?_⟩
  · intro i
    have hsame : u.heldByCall i ↔ (s.setCall c p).heldByCall i := by
      unfold Sys.heldByCall
      rw [hcalls]
    rw [hsame]
    exact heldByCall_setCall_of_idle p
      (fun q hq => not_holds_of_plain q i (hbefore q hq)) (hafter i)
  · intro c' i h
    rw [hcalls]
    refine setCall_starting p ?_ h
    intro j hj
    cases hbefore _ hj
  · intro c' id hac hid
    rw [ha c' hac] at hid
    cases hbefore _ hid

theorem quiet_of_advance {q p : Phase} (hcall : s.calls c = some q)
    (hplain : q.plain = true) (hcalls : u.calls = (s.setCall c p).calls)
    (hpumps : u.pumps = s.pumps) (hsources : u.sources = s.sources)
    (hsnap : u.snapshotTaken = s.snapshotTaken) (hafter : ∀ i, ¬ p.holds i) :
    StepTo s (.advance c) u := by
  refine .quiet _ _ (quiet_of_move hcalls hpumps hsources hsnap ?_ ?_ hafter)
  · intro c' hc'
    exact (Act.advance.inj hc').symm
  · intro q' hq'
    rw [hcall, some.injEq] at hq'
    rw [← hq', hplain]

theorem advance_to {phase : Phase} (hcall : s.calls c = some phase)
    (h : advance s c phase = some u) : StepTo s (.advance c) u := by
  cases phase with
  | checking id =>
    cases h
    refine quiet_of_advance hcall rfl rfl rfl rfl rfl ?_
    unfold check
    split
    · nofun
    · split <;> nofun
  | connecting id =>
    cases h
    exact quiet_of_advance hcall rfl rfl rfl rfl rfl (fun _ h => h)
  | inserting id =>
    cases h
    exact .inserted c id hcall
  | starting i =>
    cases h
    exact .started c i hcall
  | removing id =>
    simp only [advance] at h
    split at h
    · split at h
      · cases h
        exact quiet_of_advance hcall rfl rfl rfl rfl rfl (fun _ h => h)
      · rename_i i hsource
        cases h
        exact .removed c id i hcall hsource
    · cases h
      exact quiet_of_advance hcall rfl rfl rfl rfl rfl (fun _ h => h)
  | closing =>
    simp only [advance] at h
    split at h
    · cases h
      exact quiet_of_advance hcall rfl rfl rfl rfl rfl (fun _ h => h)
    · cases h
      exact quiet_of_advance hcall rfl rfl rfl rfl rfl (fun _ h => h)
  | taking =>
    cases h
    exact .taken c hcall
  | cancelling all pumps =>
    cases pumps with
    | nil =>
      cases h
      refine quiet_of_advance hcall rfl rfl rfl rfl rfl ?_
      split <;> nofun
    | cons i rest => cases h
  | waiting =>
    simp only [advance] at h
    split at h
    · cases h
      exact quiet_of_advance hcall rfl rfl rfl rfl rfl (fun _ h => h)
    · cases h
  | _ => cases h

theorem first_holds (call : Call) (i : ℕ) : ¬ call.first.holds i := by
  cases call with
  | registerSource id nilSource => cases nilSource <;> nofun
  | _ => nofun

theorem step_to (h : step s a = some u) : StepTo s a u := by
  cases a with
  | setInboundHandler =>
    cases h
    exact .quiet _ _ ⟨rfl, rfl, rfl, fun _ => Iff.rfl, fun _ _ => id, nofun⟩
  | begin c call =>
    simp only [step] at h
    split at h
    · rename_i hcall
      cases h
      refine .quiet _ _ (quiet_of_move rfl rfl rfl rfl nofun ?_ (first_holds call))
      intro q hq
      rw [hcall] at hq
      cases hq
    · cases h
  | advance c =>
    simp only [step] at h
    split at h
    · rename_i phase hcall
      exact advance_to hcall h
    · cases h
  | cancel c i =>
    simp only [step] at h
    split at h
    · rename_i phase hcall
      cases phase with
      | cancelling all pumps =>
        simp only [cancelPump] at h
        split at h
        · rename_i hi
          cases h
          exact .cancelled c i all pumps hcall hi
        · cases h
      | _ => cases h
    · cases h
  | finish i =>
    simp only [step] at h
    split at h
    · rename_i p hp
      split at h
      · rename_i hrunning
        cases h
        exact .finished i p hp hrunning.1
      · cases h
    · cases h

variable (sources : List (String × ℕ)) {id : String}

theorem mem_of_lookup_eq_some {i : ℕ} (h : sources.lookup id = some i) : (id, i) ∈ sources := by
  obtain ⟨before, after, rfl, -⟩ := lookup_eq_some_iff.mp h
  exact mem_append_right _ mem_cons_self

theorem lookup_without_of_ne {id' : String} (h : id' ≠ id) :
    (without sources id).lookup id' = sources.lookup id' := by
  induction sources with
  | nil => rfl
  | cons e sources ih =>
    unfold without at ih ⊢
    by_cases he : e.1 = id
    · have hne : (id' == e.1) = false := by simp [he, h]
      rw [filter_cons_of_neg (by simp [he]), ih, lookup_cons, hne]
    · rw [filter_cons_of_pos (by simp [he]), lookup_cons, lookup_cons, ih]

/-- What every step does that registers no pump. -/
structure Shrinks (s u : Sys) : Prop where
  length : u.pumps.length = s.pumps.length
  pumps : ∀ (i : ℕ) q, u.pumps[i]? = some q →
    ∃ p, s.pumps[i]? = some p ∧ q.id = p.id ∧ (q.due = true → p.due = true)
  sources : ∀ e ∈ u.sources, e ∈ s.sources
  lookup : ∀ id i, s.sources.lookup id = some i → u.sources.lookup id = some i ∨ u.heldByCall i
  held : ∀ i, s.heldByCall i → u.heldByCall i ∨ ∀ q, u.pumps[i]? = some q → q.due = false
  took : ∀ i, u.heldByCall i → s.heldByCall i ∨ ∃ id, (id, i) ∈ s.sources
  snapshot : u.snapshotTaken = true → s.snapshotTaken = true ∨
    ∀ id i, s.sources.lookup id = some i → u.heldByCall i
  starting : ∀ (i : ℕ) q, u.pumps[i]? = some q → q.started = false →
    ∃ p, s.pumps[i]? = some p ∧ p.started = false ∧
      ∀ c, s.calls c = some (.starting i) → u.calls c = some (.starting i)

theorem shrinks_quiet (h : Quiet s a u) : Shrinks s u where
  length := by rw [h.pumps]
  pumps := fun i q hq => ⟨q, h.pumps ▸ hq, rfl, id⟩
  sources := fun e he => h.sources ▸ he
  lookup := fun id i hi => .inl (by rw [h.sources, hi])
  held := fun i hi => .inl ((h.held i).mpr hi)
  took := fun i hi => .inl ((h.held i).mp hi)
  snapshot := fun hs => .inl (h.snapshotTaken ▸ hs)
  starting := fun i q hq hstarted => ⟨q, h.pumps ▸ hq, hstarted, fun c hc => h.starting c i hc⟩

theorem modified_pump {f : Pump → Pump} (hid : ∀ p, (f p).id = p.id)
    (hdue : ∀ p, (f p).due = true → p.due = true) (j : ℕ) (q : Pump)
    (hq : (s.pumps.modify i f)[j]? = some q) :
    ∃ p, s.pumps[j]? = some p ∧ q.id = p.id ∧ (q.due = true → p.due = true) := by
  obtain ⟨p, hp, rfl⟩ := getElem?_modify_eq_some_iff.mp hq
  refine ⟨p, hp, ?_⟩
  split
  · exact ⟨hid p, hdue p⟩
  · exact ⟨rfl, id⟩

theorem shrinks_started (hcall : s.calls c = some (.starting i)) :
    Shrinks s { s.setCall c (.returned none) with
      pumps := s.pumps.modify i (fun p => { p with started := true }) } := by
  have hheld : ∀ j, (s.setCall c (.returned none)).heldByCall j ↔ s.heldByCall j := by
    intro j
    refine heldByCall_setCall_of_idle _ ?_ nofun
    intro p hp
    rw [hcall, some.injEq] at hp
    rw [← hp]
    nofun
  refine ⟨length_modify .., modified_pump _ (fun _ => rfl) (fun _ => id), fun _ => id,
    fun _ _ => .inl, ?_, ?_, .inl, ?_⟩
  · exact fun j hj => .inl ((hheld j).mpr hj)
  · exact fun j hj => .inl ((hheld j).mp hj)
  · intro j q hq hstarted
    obtain ⟨p, hp, rfl⟩ := getElem?_modify_eq_some_iff.mp hq
    split at hstarted
    · cases hstarted
    · rename_i hij
      refine ⟨p, hp, hstarted, ?_⟩
      intro c' hc'
      have hne : c' ≠ c := by
        rintro rfl
        rw [hcall] at hc'
        cases hc'
        exact hij rfl
      simp only [Sys.setCall, Function.update_of_ne hne, hc']

theorem shrinks_removed {i : ℕ}
    (hcall : s.calls c = some (.removing id)) (hsource : s.sources.lookup id = some i) :
    Shrinks s { s.setCall c (.cancelling false [i]) with sources := without s.sources id } := by
  refine ⟨rfl, fun j q hq => ⟨q, hq, rfl, fun h => h⟩, ?_, ?_, ?_, ?_, .inl, ?_⟩
  · intro e he
    exact (mem_filter.mp he).1
  · intro id' j hj
    by_cases hid : id' = id
    · rw [hid, hsource, some.injEq] at hj
      exact .inr ((heldByCall_setCall_iff j _).mpr (.inl (by simp [Phase.holds, hj])))
    · exact .inl ((lookup_without_of_ne s.sources hid).trans hj)
  · exact fun j hj => .inl (held_setCall _ (by simp [hcall, Phase.holds]) hj)
  · intro j hj
    rcases holds_or_held _ hj with hnew | hold
    · rw [mem_singleton.mp hnew]
      exact .inr ⟨id, mem_of_lookup_eq_some s.sources hsource⟩
    · exact .inl hold
  · exact fun j q hq hstarted =>
      ⟨q, hq, hstarted, fun c' hc' => setCall_starting _ (by simp [hcall]) hc'⟩

theorem shrinks_taken (hcall : s.calls c = some .taking) :
    Shrinks s { s.setCall c (.cancelling true (s.sources.map Prod.snd)) with
      sources := []
      snapshotTaken := true } := by
  have hall : ∀ id j, s.sources.lookup id = some j →
      (s.setCall c (.cancelling true (s.sources.map Prod.snd))).heldByCall j := by
    intro id j hj
    refine (heldByCall_setCall_iff j _).mpr (.inl ?_)
    exact mem_map_of_mem (mem_of_lookup_eq_some s.sources hj)
  refine ⟨rfl, fun j q hq => ⟨q, hq, rfl, id⟩, nofun, fun id j hj => .inr (hall id j hj),
    ?_, ?_, fun _ => .inr hall, ?_⟩
  · exact fun j hj => .inl (held_setCall _ (by simp [hcall, Phase.holds]) hj)
  · intro j hj
    rcases holds_or_held _ hj with hnew | hold
    · obtain ⟨⟨id, k⟩, he, rfl⟩ := List.mem_map.mp hnew
      exact .inr ⟨id, he⟩
    · exact .inl hold
  · exact fun j q hq hstarted =>
      ⟨q, hq, hstarted, fun c' hc' => setCall_starting _ (by simp [hcall]) hc'⟩

theorem shrinks_cancelled {all : Bool} {pumps : List ℕ}
    (hcall : s.calls c = some (.cancelling all pumps)) :
    Shrinks s { s.setCall c (.cancelling all (pumps.erase i)) with
      pumps := s.pumps.modify i (fun p => { p with cancelled := true }) } := by
  refine ⟨length_modify .., modified_pump _ (fun _ => rfl) (by simp [Pump.due]), fun _ => id,
    fun _ _ => .inl, ?_, ?_, .inl, ?_⟩
  · rintro j ⟨c', p, hc', hp⟩
    by_cases hj : i = j
    · right
      intro q hq
      obtain ⟨p', -, rfl⟩ := getElem?_modify_eq_some_iff.mp hq
      rw [if_pos hj]
      rfl
    · refine .inl ((heldByCall_setCall_iff j _).mpr ?_)
      by_cases hc : c' = c
      · rw [hc, hcall, some.injEq] at hc'
        rw [← hc'] at hp
        exact .inl ((mem_erase_of_ne (Ne.symm hj)).mpr hp)
      · exact .inr ⟨c', p, hc, hc', hp⟩
  · intro j hj
    rcases holds_or_held _ hj with hnew | hold
    · exact .inl ⟨c, _, hcall, mem_of_mem_erase hnew⟩
    · exact .inl hold
  · intro j q hq hstarted
    obtain ⟨p, hp, rfl⟩ := getElem?_modify_eq_some_iff.mp hq
    refine ⟨p, hp, ?_, fun c' hc' => setCall_starting _ (by simp [hcall]) hc'⟩
    split at hstarted <;> exact hstarted

theorem shrinks_finished :
    Shrinks s { s with pumps := s.pumps.modify i (fun p => { p with ended := true }) } := by
  refine ⟨length_modify .., modified_pump _ (fun _ => rfl) (by simp [Pump.due]), fun _ => id,
    fun _ _ => .inl, fun _ => .inl, fun _ => .inl, .inl, ?_⟩
  intro j q hq hstarted
  obtain ⟨p, hp, rfl⟩ := getElem?_modify_eq_some_iff.mp hq
  refine ⟨p, hp, ?_, fun c' hc' => hc'⟩
  split at hstarted <;> exact hstarted

def Sys.inserted (s : Sys) (c : ℕ) (id : String) : Sys :=
  { s.setCall c (.starting s.pumps.length) with
    sources := (id, s.pumps.length) :: without s.sources id
    pumps := s.pumps ++ [⟨id, false, false, false⟩] }

theorem insertsAlone_of_phase (hp : ∀ id, s.calls c ≠ some (.inserting id)) : InsertsAlone s
    (.advance c) := by
  simp [InsertsAlone]

theorem insertsAlone_iff (hcall : s.calls c = some (.inserting id)) :
    InsertsAlone s (.advance c) ↔
      s.snapshotTaken = false ∧ ∀ p ∈ s.pumps, p.id = id → p.due = false := by
  simp [InsertsAlone, hcall]

theorem inserted_or_shrinks (h : step s a = some u) :
    (∃ c id, a = .advance c ∧ s.calls c = some (.inserting id) ∧ u = s.inserted c id) ∨
      (InsertsAlone s a ∧ Shrinks s u) := by
  cases step_to h with
  | quiet _ _ hq =>
    refine .inr ⟨?_, shrinks_quiet hq⟩
    cases a with
    | advance c => exact insertsAlone_of_phase (fun id => hq.not_inserting c id rfl)
    | _ => trivial
  | inserted c id hcall => exact .inl ⟨c, id, rfl, hcall, rfl⟩
  | started c i hcall =>
    exact .inr ⟨insertsAlone_of_phase (by simp [hcall]), shrinks_started i hcall⟩
  | removed c id i hcall hsource =>
    exact .inr ⟨insertsAlone_of_phase (by simp [hcall]), shrinks_removed hcall hsource⟩
  | taken c hcall =>
    exact .inr ⟨insertsAlone_of_phase (by simp [hcall]), shrinks_taken hcall⟩
  | cancelled c i all pumps hcall _ =>
    exact .inr ⟨trivial, shrinks_cancelled i hcall⟩
  | finished i _ _ _ => exact .inr ⟨trivial, shrinks_finished i⟩

/-- Named pumps are registered; a call is about to start each unstarted one. -/
structure Known (s : Sys) : Prop where
  sources : ∀ e ∈ s.sources, e.2 < s.pumps.length
  held : ∀ i, s.heldByCall i → i < s.pumps.length
  starting : ∀ (i : ℕ) p, s.pumps[i]? = some p → p.started = false →
    ∃ c, s.calls c = some (.starting i)

theorem known_init : Known init := by
  refine ⟨by simp [init], ?_, by simp [init]⟩
  rintro i ⟨c, p, hcall, -⟩
  cases hcall

theorem getElem?_inserted {i : ℕ} {q : Pump} (h : (s.inserted c id).pumps[i]? = some q) :
    s.pumps[i]? = some q ∨ (i = s.pumps.length ∧ q = ⟨id, false, false, false⟩) :=
  (getElem?_concat_eq_some_iff s.pumps _ q i).mp h

theorem heldByCall_inserted (hcall : s.calls c = some (.inserting id)) (i : ℕ) :
    (s.inserted c id).heldByCall i ↔ s.heldByCall i := by
  refine heldByCall_setCall_of_idle (.starting s.pumps.length) ?_ nofun
  intro p hp
  rw [hcall, some.injEq] at hp
  rw [← hp]
  nofun

theorem known_inserted (hk : Known s)
    (hcall : s.calls c = some (.inserting id)) : Known (s.inserted c id) := by
  have hlength : (s.inserted c id).pumps.length = s.pumps.length + 1 := by
    simp [Sys.inserted]
  refine ⟨?_, ?_, ?_⟩
  · intro e he
    rw [hlength]
    rcases mem_cons.mp he with rfl | he
    · exact Nat.lt_succ_self _
    · exact Nat.lt_succ_of_lt (hk.sources e (mem_filter.mp he).1)
  · intro i hi
    rw [hlength]
    exact Nat.lt_succ_of_lt (hk.held i ((heldByCall_inserted hcall i).mp hi))
  · intro i q hq hstarted
    rcases getElem?_inserted hq with hq | ⟨rfl, -⟩
    · obtain ⟨c', hc'⟩ := hk.starting i q hq hstarted
      refine ⟨c', setCall_starting _ ?_ hc'⟩
      intro j hj
      rw [hcall] at hj
      cases hj
    · exact ⟨c, Function.update_self ..⟩

theorem known_step (hk : Known s) (h : step s a = some u) : Known u := by
  rcases inserted_or_shrinks h with ⟨c, id, -, hcall, rfl⟩ | ⟨-, hsh⟩
  · exact known_inserted hk hcall
  · refine ⟨?_, ?_, ?_⟩
    · intro e he
      rw [hsh.length]
      exact hk.sources e (hsh.sources e he)
    · intro i hi
      rw [hsh.length]
      rcases hsh.took i hi with hold | ⟨id, hsource⟩
      · exact hk.held i hold
      · exact hk.sources _ hsource
    · intro i q hq hstarted
      obtain ⟨p, hp, hp', hstays⟩ := hsh.starting i q hq hstarted
      obtain ⟨c, hc⟩ := hk.starting i p hp hp'
      exact ⟨c, hstays c hc⟩

theorem known_run (acts : List Act) {t : Sys} (hrun : run step init acts = some t) : Known t :=
  invariant step Known known_init (fun _ _ _ hk h => known_step hk h) hrun

theorem stoppable_init : Stoppable Pump.due init :=
  ⟨by simp [init], by simp [init], nofun⟩

theorem stoppable_shrinks (hs : Stoppable Pump.due s) (h : Shrinks s u) : Stoppable Pump.due u := by
  have hheld : ∀ (i : ℕ) q, u.pumps[i]? = some q → q.due = true → s.heldByCall i →
      u.heldByCall i := by
    intro i q hq hdue hi
    rcases h.held i hi with hi | hend
    · exact hi
    · rw [hend q hq] at hdue
      cases hdue
  refine ⟨?_, ?_, ?_⟩
  · intro i j q q' hq hq' hdue hdue' hid
    obtain ⟨p, hp, hpid, hpdue⟩ := h.pumps i q hq
    obtain ⟨p', hp', hpid', hpdue'⟩ := h.pumps j q' hq'
    exact hs.unique i j p p' hp hp' (hpdue hdue) (hpdue' hdue') (by rw [← hpid, ← hpid', hid])
  · intro i q hq hdue
    obtain ⟨p, hp, hpid, hpdue⟩ := h.pumps i q hq
    rw [hpid]
    rcases hs.held i p hp (hpdue hdue) with hlookup | hi
    · exact h.lookup p.id i hlookup
    · exact .inr (hheld i q hq hdue hi)
  · intro hsnap i q hq hdue
    obtain ⟨p, hp, -, hpdue⟩ := h.pumps i q hq
    rcases h.snapshot hsnap with hbefore | hall
    · exact hheld i q hq hdue (hs.shut hbefore i p hp (hpdue hdue))
    · rcases hs.held i p hp (hpdue hdue) with hlookup | hi
      · exact hall p.id i hlookup
      · exact hheld i q hq hdue hi

theorem stoppable_inserted_iff (hk : Known s)
    (hs : Stoppable Pump.due s) (hcall : s.calls c = some (.inserting id)) :
    Stoppable Pump.due (s.inserted c id) ↔ InsertsAlone s (.advance c) := by
  have hnew : (s.inserted c id).pumps[s.pumps.length]? = some ⟨id, false, false, false⟩ :=
    (getElem?_concat_eq_some_iff s.pumps _ _ _).mpr (.inr ⟨rfl, rfl⟩)
  have hold : ∀ (i : ℕ) q, s.pumps[i]? = some q → (s.inserted c id).pumps[i]? = some q := by
    intro i q hq
    exact (getElem?_concat_eq_some_iff s.pumps _ q i).mpr (.inl hq)
  have hheld := heldByCall_inserted hcall
  rw [insertsAlone_iff hcall]
  constructor
  · intro h
    constructor
    · by_contra hsnap
      have := h.shut (Bool.not_eq_false _ ▸ hsnap) _ _ hnew rfl
      exact absurd (hk.held _ ((hheld _).mp this)) (Nat.lt_irrefl _)
    · intro p hp hid
      by_contra hdue
      obtain ⟨i, hi⟩ := mem_iff_getElem?.mp hp
      have heq := h.unique i _ p _ (hold i p hi) hnew (Bool.not_eq_false _ ▸ hdue) rfl hid
      have hlt : i < s.pumps.length := (List.getElem?_eq_some_iff.mp hi).1
      omega
  · rintro ⟨hsnap, halone⟩
    refine ⟨?_, ?_, ?_⟩
    · intro i j q q' hq hq' hdue hdue' hid
      rcases getElem?_inserted hq with hi | ⟨rfl, rfl⟩
      · rcases getElem?_inserted hq' with hj | ⟨rfl, rfl⟩
        · exact hs.unique i j q q' hi hj hdue hdue' hid
        · rw [halone q (mem_of_getElem? hi) hid] at hdue
          cases hdue
      · rcases getElem?_inserted hq' with hj | ⟨rfl, -⟩
        · rw [halone q' (mem_of_getElem? hj) hid.symm] at hdue'
          cases hdue'
        · rfl
    · intro i q hq hdue
      rcases getElem?_inserted hq with hi | ⟨rfl, rfl⟩
      · have hne : q.id ≠ id := by
          intro hid
          rw [halone q (mem_of_getElem? hi) hid] at hdue
          cases hdue
        rcases hs.held i q hi hdue with hlookup | hcalls
        · left
          have hne' : (q.id == id) = false := by simp [hne]
          simp only [Sys.inserted, lookup_cons, hne']
          rw [lookup_without_of_ne s.sources hne, hlookup]
        · exact .inr ((hheld i).mpr hcalls)
      · simp [Sys.inserted]
    · intro hs' 
      rw [show (s.inserted c id).snapshotTaken = s.snapshotTaken from rfl, hsnap] at hs'
      cases hs'

theorem stoppable_step_iff (hk : Known s) (hs : Stoppable Pump.due s)
    (h : step s a = some u) : Stoppable Pump.due u ↔ InsertsAlone s a := by
  rcases inserted_or_shrinks h with ⟨c, id, rfl, hcall, rfl⟩ | ⟨hg, hsh⟩
  · exact stoppable_inserted_iff hk hs hcall
  · exact ⟨fun _ => hg, fun _ => stoppable_shrinks hs hsh⟩

theorem stoppable_start (ha : Starts s a) (h : step s a = some u)
    (hs : Stoppable Pump.due s) : Stoppable Pump.due u := by
  obtain ⟨c, i, rfl, hcall⟩ := ha
  rcases inserted_or_shrinks h with ⟨c', id, hc, hcall', -⟩ | ⟨-, hsh⟩
  · rw [← Act.advance.inj hc, hcall] at hcall'
    cases hcall'
  · exact stoppable_shrinks hs hsh

/-- What the states have in common before and after goroutines were started. -/
structure Started (s v : Sys) (is : List ℕ) : Prop where
  pumps : ∀ (j : ℕ) p, s.pumps[j]? = some p →
    ∃ q, v.pumps[j]? = some q ∧ q.id = p.id ∧ q.due = p.due ∧
      (p.started = true ∨ j ∈ is → q.started = true)
  sources : v.sources = s.sources
  snapshotTaken : v.snapshotTaken = s.snapshotTaken
  held : ∀ i, v.heldByCall i ↔ s.heldByCall i

theorem started_step (hcall : s.calls c = some (.starting i)) :
    ∃ u, step s (.advance c) = some u ∧ Started s u [i] := by
  have hstep : step s (.advance c) = some { s.setCall c (.returned none) with
      pumps := s.pumps.modify i (fun p => { p with started := true }) } := by
    simp [step, hcall, advance]
  refine ⟨_, hstep, ?_, rfl, rfl, ?_⟩
  · intro j p hp
    refine ⟨_, getElem?_modify_eq_some_iff.mpr ⟨p, hp, rfl⟩, ?_⟩
    split
    · exact ⟨rfl, rfl, fun _ => rfl⟩
    · rename_i hij
      refine ⟨rfl, rfl, ?_⟩
      rintro (hp | hj)
      · exact hp
      · exact absurd (mem_singleton.mp hj).symm hij
  · intro j
    refine heldByCall_setCall_of_idle (.returned none) ?_ nofun
    intro p hp
    rw [hcall, some.injEq] at hp
    rw [← hp]
    nofun

/-- Registered pumps can be started, whichever they are. -/
theorem exists_started (is : List ℕ) (s : Sys) (hk : Known s) :
    ∃ starts v, Meets step Starts s starts ∧ run step s starts = some v ∧ Started s v is := by
  induction is generalizing s with
  | nil =>
    refine ⟨[], s, meets_nil step Starts s, rfl, ?_, rfl, rfl, fun _ => Iff.rfl⟩
    exact fun j p hp => ⟨p, hp, rfl, rfl, by simp⟩
  | cons i is ih =>
    by_cases hdue : ∃ p, s.pumps[i]? = some p ∧ p.started = false
    · obtain ⟨p, hp, hstarted⟩ := hdue
      obtain ⟨c, hc⟩ := hk.starting i p hp hstarted
      obtain ⟨u, hu, hsu⟩ := started_step i hc
      obtain ⟨starts, v, hmeets, hrun, huv⟩ := ih u (known_step hk hu)
      refine ⟨.advance c :: starts, v, ?_, ?_, ?_⟩
      · refine meets_cons step Starts s _ ⟨c, i, rfl, hc⟩ ?_
        intro t ht
        rw [hu, some.injEq] at ht
        exact ht ▸ hmeets
      · rw [run_cons, hu]
        exact hrun
      · refine ⟨?_, huv.sources.trans hsu.sources, huv.snapshotTaken.trans hsu.snapshotTaken,
          fun j => (huv.held j).trans (hsu.held j)⟩
        intro j p hp
        obtain ⟨q, hq, hid, hdue, hst⟩ := hsu.pumps j p hp
        obtain ⟨r, hr, hid', hdue', hst'⟩ := huv.pumps j q hq
        refine ⟨r, hr, hid'.trans hid, hdue'.trans hdue, ?_⟩
        rintro (hp | hj)
        · exact hst' (.inl (hst (.inl hp)))
        · rcases mem_cons.mp hj with rfl | hj
          · exact hst' (.inl (hst (.inr mem_cons_self)))
          · exact hst' (.inr hj)
    · obtain ⟨starts, v, hmeets, hrun, hsv⟩ := ih s hk
      refine ⟨starts, v, hmeets, hrun, ?_, hsv.sources, hsv.snapshotTaken, hsv.held⟩
      intro j p hp
      obtain ⟨q, hq, hid, hdue', hst⟩ := hsv.pumps j p hp
      refine ⟨q, hq, hid, hdue', ?_⟩
      rintro (hp' | hj)
      · exact hst (.inl hp')
      · rcases mem_cons.mp hj with rfl | hj
        · have hstarted : p.started = true := by
            by_contra hnot
            exact hdue ⟨p, hp, Bool.eq_false_iff.mpr hnot⟩
          exact hst (.inl hstarted)
        · exact hst (.inr hj)

theorem live_iff (p : Pump) : p.live = true ↔ p.started = true ∧ p.due = true := by
  simp [Pump.live, Pump.due, and_assoc]

theorem Started.live {v : Sys} {is : List ℕ} (h : Started s v is) (j : ℕ) (p : Pump)
    (hp : s.pumps[j]? = some p) (hdue : p.due = true) (hj : j ∈ is) :
    ∃ q, v.pumps[j]? = some q ∧ q.id = p.id ∧ q.live = true := by
  obtain ⟨q, hq, hid, hqdue, hst⟩ := h.pumps j p hp
  exact ⟨q, hq, hid, (live_iff q).mpr ⟨hst (.inr hj), hqdue.trans hdue⟩⟩

/-- Started pumps are stoppable in all states to come exactly if the registered ones are. -/
theorem alwaysStoppable_iff (hk : Known s) : AlwaysStoppable s ↔ Stoppable Pump.due s := by
  constructor
  · intro h
    refine ⟨?_, ?_, ?_⟩
    · intro i j p q hp hq hpdue hqdue hid
      obtain ⟨starts, v, hmeets, hrun, hsv⟩ := exists_started [i, j] s hk
      obtain ⟨p', hp', hpid, hplive⟩ := hsv.live i p hp hpdue (by simp)
      obtain ⟨q', hq', hqid, hqlive⟩ := hsv.live j q hq hqdue (by simp)
      exact (h starts v hmeets hrun).unique i j p' q' hp' hq' hplive hqlive
        (by rw [hpid, hqid, hid])
    · intro i p hp hpdue
      obtain ⟨starts, v, hmeets, hrun, hsv⟩ := exists_started [i] s hk
      obtain ⟨p', hp', hpid, hplive⟩ := hsv.live i p hp hpdue (by simp)
      have hheld := (h starts v hmeets hrun).held i p' hp' hplive
      rwa [hpid, hsv.sources, hsv.held] at hheld
    · intro hsnap i p hp hpdue
      obtain ⟨starts, v, hmeets, hrun, hsv⟩ := exists_started [i] s hk
      obtain ⟨p', hp', -, hplive⟩ := hsv.live i p hp hpdue (by simp)
      exact (hsv.held i).mp
        ((h starts v hmeets hrun).shut (hsv.snapshotTaken.trans hsnap) i p' hp' hplive)
  · intro h starts v hmeets hrun
    have hdue : Stoppable Pump.due v :=
      guarded_invariant step Starts (fun _ => True) (Stoppable Pump.due) h
        (fun _ _ _ => trivial) (fun t a u _ ht ha hu => stoppable_start ha hu ht) hmeets hrun
    refine ⟨?_, ?_, ?_⟩
    · intro i j p q hp hq hplive hqlive
      exact hdue.unique i j p q hp hq ((live_iff p).mp hplive).2 ((live_iff q).mp hqlive).2
    · intro i p hp hplive
      exact hdue.held i p hp ((live_iff p).mp hplive).2
    · intro hsnap i p hp hplive
      exact hdue.shut hsnap i p hp ((live_iff p).mp hplive).2

/-- Every pump is the only one of its connector and can be stopped exactly if registrations find no
pump of the connector that may still run, and no snapshot. -/
theorem pumps_stoppable_iff_inserts_alone (acts : List Act) (t : Sys)
    (hrun : run step init acts = some t) :
    Along step AlwaysStoppable init acts ↔ Meets step InsertsAlone init acts := by
  have hexact := along_iff_meets step InsertsAlone (Stoppable Pump.due) Known stoppable_init
    known_run (fun s a u hk hs h => stoppable_step_iff hk hs h) t hrun
  rw [← hexact]
  constructor
  · intro h pre post s hacts hpre
    exact (alwaysStoppable_iff (known_run pre hpre)).mp (h pre post s hacts hpre)
  · intro h pre post s hacts hpre
    exact (alwaysStoppable_iff (known_run pre hpre)).mpr (h pre post s hacts hpre)

def registeredAgain : List Act :=
  [.setInboundHandler, .begin 0 (.registerSource "slack" false), .advance 0, .advance 0,
    .advance 0, .advance 0, .begin 1 (.disconnect "slack"), .advance 1, .cancel 1 0,
    .begin 2 (.registerSource "slack" false), .advance 2, .advance 2, .advance 2, .advance 2]

theorem registered_again_stoppable :
    ∃ t, run step init registeredAgain = some t ∧
      Along step AlwaysStoppable init registeredAgain := by
  obtain ⟨t, hrun, -⟩ := exists_run_of_check step (fun s : Sys => s.pumps.length = 2) init
    registeredAgain (by decide)
  exact ⟨t, hrun, (pumps_stoppable_iff_inserts_alone registeredAgain t hrun).mpr
    (meets_of_checkMeets step _ _ _ (by decide))⟩

def bothCheckFirst : List Act :=
  [.setInboundHandler, .begin 0 (.registerSource "slack" false),
    .begin 1 (.registerSource "slack" false), .advance 0, .advance 1, .advance 0, .advance 0,
    .advance 0, .advance 1, .advance 1, .advance 1]

/-- Both pumps run, and nobody can cancel the first one any more. -/
theorem both_check_first_not_stoppable :
    ∃ t, run step init bothCheckFirst = some t ∧ ¬ Stoppable Pump.live t := by
  obtain ⟨t, hrun, hp, hq⟩ := exists_run_of_check step
    (fun s : Sys => s.pumps[0]? = some ⟨"slack", true, false, false⟩ ∧
      s.pumps[1]? = some ⟨"slack", true, false, false⟩) init bothCheckFirst (by decide)
  refine ⟨t, hrun, ?_⟩
  intro h
  exact absurd (h.unique 0 1 _ _ hp hq rfl rfl rfl) (by decide)

end IronGolem.PumpRegistry
