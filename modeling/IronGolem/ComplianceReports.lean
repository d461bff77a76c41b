import IronGolem.RankedTallies

/-!
Compliance reports over the in-memory audit store. Query selects the recorded
events that pass a filter. ComplianceSummary counts the events of a time range
by decision, by risk level and by actor. The actors come out of a Go map, so in
any order; they are sorted by their counts and the first ten are kept.
-/

namespace IronGolem.ComplianceReports

open RankedTallies List

/-- Besides the five named levels there are all other texts. -/
inductive RiskLevel where
  | none
  | low
  | medium
  | high
  | critical
  | other (text : String) (unnamed : text ∉ ["none", "low", "medium", "high", "critical"])
  deriving DecidableEq

inductive PolicyDecision where
  | allowed
  | blocked
  | approved
  | quarantined
  | escalated
  | other (text : String)
      (unnamed : text ∉ ["allowed", "blocked", "approved", "quarantined", "escalated"])
  deriving DecidableEq

def PolicyDecision.known : List PolicyDecision :=
  [.allowed, .blocked, .approved, .quarantined, .escalated]

/-- The fields of an event that filters and reports read. Times are instants. -/
structure AuditEvent where
  timestamp : ℤ
  actor : String
  action : String
  riskLevel : RiskLevel
  policyDecision : PolicyDecision
  workspaceID : String
  deriving DecidableEq

def RiskLevel.unset : RiskLevel := .other "" (by decide)

structure AuditFilter where
  fromTime : Option ℤ := Option.none
  toTime : Option ℤ := Option.none
  workspaceIDs : List String := []
  eventTypes : List String := []
  userIDs : List String := []
  severity : RiskLevel := .unset

structure InMemoryStore where
  events : List AuditEvent

def newInMemoryStore : InMemoryStore := ⟨[]⟩

def record (s : InMemoryStore) (evt : AuditEvent) : InMemoryStore := ⟨s.events ++ [evt]⟩

def severityOrder : RiskLevel → ℕ
  | .critical => 5
  | .high => 4
  | .medium => 3
  | .low => 2
  | .none => 1
  | .other _ _ => 0

def matchesFilter (evt : AuditEvent) (filter : AuditFilter) (minSeverity : ℕ) : Bool :=
  if filter.fromTime.any (fun t => decide (evt.timestamp < t)) then false
  else if filter.toTime.any (fun t => decide (t < evt.timestamp)) then false
  else if filter.workspaceIDs.length > 0 && !filter.workspaceIDs.contains evt.workspaceID then false
  else if filter.eventTypes.length > 0 && !filter.eventTypes.contains evt.action then false
  else if filter.userIDs.length > 0 && !filter.userIDs.contains evt.actor then false
  else if minSeverity > 0 && severityOrder evt.riskLevel < minSeverity then false
  else true

def query (s : InMemoryStore) (filter : AuditFilter) : List AuditEvent :=
  s.events.filter (fun evt => matchesFilter evt filter (severityOrder filter.severity))

structure ActorSummary where
  actor : String
  actionCount : ℕ
  deriving DecidableEq

structure ComplianceReport where
  generatedAt : ℤ
  periodFrom : ℤ
  periodTo : ℤ
  totalActions : ℕ
  allowed : ℕ := 0
  blocked : ℕ := 0
  approved : ℕ := 0
  quarantined : ℕ := 0
  escalated : ℕ := 0
  byRiskLevel : List (RiskLevel × ℕ) := []
  topActors : List ActorSummary := []

/-- The order in which a range over a map visits its entries: each of them once. -/
structure MapOrder (α : Type) where
  visit : List α → List α
  perm : ∀ l, (visit l).Perm l

def countDecision (report : ComplianceReport) : PolicyDecision → ComplianceReport
  | .allowed => { report with allowed := report.allowed + 1 }
  | .blocked => { report with blocked := report.blocked + 1 }
  | .approved => { report with approved := report.approved + 1 }
  | .quarantined => { report with quarantined := report.quarantined + 1 }
  | .escalated => { report with escalated := report.escalated + 1 }
  | .other _ _ => report

/-- One turn of the loop over the events, with the report and the map of actor counts. -/
def countEvent (st : ComplianceReport × List (String × ℕ)) (evt : AuditEvent) :
    ComplianceReport × List (String × ℕ) :=
  let report := countDecision st.1 evt.policyDecision
  ({ report with byRiskLevel := bump evt.riskLevel report.byRiskLevel }, bump evt.actor st.2)

def complianceSummary (order : MapOrder (String × ℕ)) (now : ℤ) (s : InMemoryStore)
    (fromTime toTime : ℤ) : ComplianceReport :=
  let evts := query s { fromTime := some fromTime, toTime := some toTime }
  let report : ComplianceReport :=
    { generatedAt := now, periodFrom := fromTime, periodTo := toTime, totalActions := evts.length }
  let (report, actorCounts) := evts.foldl countEvent (report, [])
  let actors := (order.visit actorCounts).map (fun e => ActorSummary.mk e.1 e.2)
  let actors := exchangeSort ActorSummary.actionCount actors
  { report with topActors := if actors.length > 10 then actors.take 10 else actors }

def inside (fromTime toTime : ℤ) (evt : AuditEvent) : Bool :=
  decide (fromTime ≤ evt.timestamp ∧ evt.timestamp ≤ toTime)

theorem query_range (s : InMemoryStore) (fromTime toTime : ℤ) :
    query s { fromTime := some fromTime, toTime := some toTime } =
      s.events.filter (inside fromTime toTime) := by
  refine filter_congr fun evt _ => ?_
  by_cases hfrom : evt.timestamp < fromTime
  · simp [matchesFilter, inside, hfrom]
  · by_cases hto : toTime < evt.timestamp
    · simp [matchesFilter, inside, hfrom, hto]
    · simp [matchesFilter, inside, hfrom, hto, severityOrder, RiskLevel.unset, not_lt.mp hfrom,
        not_lt.mp hto]

theorem foldl_countEvent (evts : List AuditEvent) (report : ComplianceReport)
    (actors : List (String × ℕ)) :
    evts.foldl countEvent (report, actors) =
      ({ report with
          allowed := report.allowed + (evts.map AuditEvent.policyDecision).count .allowed
          blocked := report.blocked + (evts.map AuditEvent.policyDecision).count .blocked
          approved := report.approved + (evts.map AuditEvent.policyDecision).count .approved
          quarantined := report.quarantined + (evts.map AuditEvent.policyDecision).count
            .quarantined
          escalated := report.escalated + (evts.map AuditEvent.policyDecision).count .escalated
          byRiskLevel := (evts.map AuditEvent.riskLevel).foldl (fun m k => bump k m)
            report.byRiskLevel },
        (evts.map AuditEvent.actor).foldl (fun m k => bump k m) actors) := by
  induction evts generalizing report actors with
  | nil => rfl
  | cons evt evts ih =>
    rw [foldl_cons, countEvent, ih]
    cases hdecision : evt.policyDecision <;>
      simp [countDecision, hdecision, Nat.add_comm, Nat.add_assoc]

theorem count_known (decisions : List PolicyDecision)
    (h : ∀ d ∈ decisions, d ∈ PolicyDecision.known) :
    decisions.count .allowed + decisions.count .blocked + decisions.count .approved +
      decisions.count .quarantined + decisions.count .escalated = decisions.length := by
  induction decisions with
  | nil => rfl
  | cons d decisions ih =>
    have htail := ih fun e he => h e (mem_cons_of_mem d he)
    have hd := h d mem_cons_self
    cases d with
    | other text unnamed => simp [PolicyDecision.known] at hd
    | _ =>
      simp
      omega

/-- A report that says what happened in the period. -/
structure Exact (recorded : List AuditEvent) (fromTime toTime : ℤ) (report : ComplianceReport) :
    Prop where
  total : report.totalActions = (recorded.filter (inside fromTime toTime)).length
  decisions : report.allowed + report.blocked + report.approved + report.quarantined +
    report.escalated = report.totalActions
  risks : (report.byRiskLevel.map Prod.snd).sum = report.totalActions
  listed : report.topActors.length =
    min 10 ((recorded.filter (inside fromTime toTime)).map AuditEvent.actor).dedup.length
  different : (report.topActors.map ActorSummary.actor).Nodup
  counts : ∀ a ∈ report.topActors,
    a.actor ∈ (recorded.filter (inside fromTime toTime)).map AuditEvent.actor ∧
    a.actionCount = (recorded.filter (inside fromTime toTime)).countP (fun e => e.actor = a.actor)
  sorted : report.topActors.Pairwise (fun a b => b.actionCount ≤ a.actionCount)
  omitted : ∀ a ∈ report.topActors, ∀ evt ∈ recorded.filter (inside fromTime toTime),
    evt.actor ∉ report.topActors.map ActorSummary.actor →
    (recorded.filter (inside fromTime toTime)).countP (fun e => e.actor = evt.actor) ≤ a.actionCount

theorem events_recorded (recorded : List AuditEvent) (s : InMemoryStore) :
    (recorded.foldl record s).events = s.events ++ recorded := by
  induction recorded generalizing s with
  | nil => simp
  | cons evt recorded ih => rw [foldl_cons, ih, record, append_assoc]; rfl

def ActorSummary.entry (a : ActorSummary) : String × ℕ := (a.actor, a.actionCount)

def ranking (order : MapOrder (String × ℕ)) (evts : List AuditEvent) : List ActorSummary :=
  exchangeSort ActorSummary.actionCount
    ((order.visit (tally (evts.map AuditEvent.actor))).map (fun e => ActorSummary.mk e.1 e.2))

theorem counts_ranking (order : MapOrder (String × ℕ)) (evts : List AuditEvent) :
    Counts ((ranking order evts).map ActorSummary.entry) (evts.map AuditEvent.actor) := by
  refine (counts_tally (evts.map AuditEvent.actor)).perm ?_
  have hperm := (exchangeSort_perm ActorSummary.actionCount
    ((order.visit (tally (evts.map AuditEvent.actor))).map
      (fun e => ActorSummary.mk e.1 e.2))).map ActorSummary.entry
  exact hperm.trans (by simpa [Function.comp_def, ActorSummary.entry] using order.perm _)

theorem complianceSummary_eq (order : MapOrder (String × ℕ)) (now : ℤ) (s : InMemoryStore)
    (fromTime toTime : ℤ) :
    complianceSummary order now s fromTime toTime =
      let evts := s.events.filter (inside fromTime toTime)
      let decisions := evts.map AuditEvent.policyDecision
      { generatedAt := now, periodFrom := fromTime, periodTo := toTime
        totalActions := evts.length
        allowed := decisions.count .allowed
        blocked := decisions.count .blocked
        approved := decisions.count .approved
        quarantined := decisions.count .quarantined
        escalated := decisions.count .escalated
        byRiskLevel := tally (evts.map AuditEvent.riskLevel)
        topActors := (ranking order evts).take 10 } := by
  simp only [complianceSummary, query_range, foldl_countEvent, Nat.zero_add]
  have hcut : ∀ l : List ActorSummary, (if l.length > 10 then l.take 10 else l) = l.take 10 := by
    intro l
    split
    · rfl
    · rw [take_of_length_le (by omega)]
  rw [hcut]
  rfl

section Ranking

variable (order : MapOrder (String × ℕ)) (evts : List AuditEvent)

theorem count_actor (actor : String) :
    (evts.map AuditEvent.actor).count actor = evts.countP (fun e => e.actor = actor) := by
  rw [count, countP_map]
  refine countP_congr fun e _ => ?_
  simp

theorem count_of_mem_ranking {a : ActorSummary} (ha : a ∈ ranking order evts) :
    a.actor ∈ evts.map AuditEvent.actor ∧
      a.actionCount = evts.countP (fun e => e.actor = a.actor) := by
  have hentry := ((counts_ranking order evts).mem a.actor a.actionCount).mp
    (mem_map_of_mem (f := ActorSummary.entry) ha)
  rw [count_actor] at hentry
  exact hentry

theorem exists_mem_ranking {evt : AuditEvent} (hevt : evt ∈ evts) :
    ∃ a ∈ ranking order evts, a.actor = evt.actor ∧
      a.actionCount = evts.countP (fun e => e.actor = evt.actor) := by
  have hentry := ((counts_ranking order evts).mem evt.actor
    ((evts.map AuditEvent.actor).count evt.actor)).mpr ⟨mem_map_of_mem hevt, rfl⟩
  rw [count_actor] at hentry
  obtain ⟨a, ha, heq⟩ := mem_map.mp hentry
  exact ⟨a, ha, congrArg Prod.fst heq, congrArg Prod.snd heq⟩

theorem length_ranking :
    (ranking order evts).length = (evts.map AuditEvent.actor).dedup.length := by
  rw [← (counts_ranking order evts).length_eq, length_map]

theorem nodup_ranking : ((ranking order evts).map ActorSummary.actor).Nodup := by
  have h := (counts_ranking order evts).nodup
  rw [map_map] at h
  exact h

end Ranking

/-- Every report over events with known decisions is exact, whatever order the actors come in. -/
theorem complianceSummary_exact (order : MapOrder (String × ℕ)) (now fromTime toTime : ℤ)
    (recorded : List AuditEvent)
    (hknown : ∀ evt ∈ recorded, evt.policyDecision ∈ PolicyDecision.known) :
    Exact recorded fromTime toTime
      (complianceSummary order now (recorded.foldl record newInMemoryStore) fromTime toTime) := by
  have hevents : (recorded.foldl record newInMemoryStore).events = recorded :=
    events_recorded recorded newInMemoryStore
  rw [complianceSummary_eq, hevents]
  have hsub := take_sublist 10 (ranking order (recorded.filter (inside fromTime toTime)))
  have hsorted : (ranking order (recorded.filter (inside fromTime toTime))).Pairwise
      (fun a b => b.actionCount ≤ a.actionCount) :=
    exchangeSort_sorted ActorSummary.actionCount _
  constructor
  · rfl
  · have hdecisions := count_known
      ((recorded.filter (inside fromTime toTime)).map AuditEvent.policyDecision) (by
        intro d hd
        obtain ⟨evt, hevt, rfl⟩ := mem_map.mp hd
        exact hknown evt (mem_filter.mp hevt).1)
    rw [length_map] at hdecisions
    exact hdecisions
  · have hrisks := (counts_tally
      ((recorded.filter (inside fromTime toTime)).map AuditEvent.riskLevel)).sum
    rw [length_map] at hrisks
    exact hrisks
  · simp [length_ranking]
  · exact (nodup_ranking order _).sublist (hsub.map _)
  · intro a ha
    exact count_of_mem_ranking order _ (hsub.mem ha)
  · exact hsorted.sublist hsub
  · intro a ha evt hevt hout
    obtain ⟨b, hb, hactor, hcount⟩ := exists_mem_ranking order _ hevt
    rw [← hcount]
    -- an actor that is not listed stands behind the first ten
    have hdrop : b ∈ (ranking order (recorded.filter (inside fromTime toTime))).drop 10 := by
      rw [← take_append_drop 10 (ranking order _), mem_append] at hb
      refine hb.resolve_left fun htake => hout ?_
      rw [← hactor]
      exact mem_map_of_mem htake
    exact le_of_mem_drop ActorSummary.actionCount hsorted ha hdrop

def sampleEvents : List AuditEvent :=
  [⟨5, "scout", "fetch", .low, .allowed, "w1"⟩, ⟨6, "clerk", "send", .high, .blocked, "w1"⟩,
    ⟨7, "scout", "fetch", .other "odd" (by decide), .escalated, "w2"⟩]

/-- A period that holds two of three events by two actors. -/
theorem complianceSummary_sample :
    (∀ evt ∈ sampleEvents, evt.policyDecision ∈ PolicyDecision.known) ∧
      Exact sampleEvents 6 9 (complianceSummary ⟨List.reverse, List.reverse_perm⟩ 10
        (sampleEvents.foldl record newInMemoryStore) 6 9) :=
  ⟨by decide, complianceSummary_exact ⟨reverse, reverse_perm⟩ 10 6 9 sampleEvents (by decide)⟩

end IronGolem.ComplianceReports
