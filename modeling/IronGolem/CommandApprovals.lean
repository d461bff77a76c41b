import IronGolem.RowTables
import IronGolem.TransitionRuns

/-!
Approval of blocked commands. Check stores a pending request under an id that is made from the
clock. A pending request can be approved or denied; whether its time to live has passed is looked
at by the sweep only, and a new request replaces an old one of the same id.
-/
namespace IronGolem.CommandApprovals

open RowTables TransitionRuns List

inductive CommandSeverity
  | low
  | medium
  | high
  | critical

inductive ApprovalStatus
  | pending
  | approved
  | denied
  | expired
  deriving DecidableEq, Repr

structure DeniedCommand where
  pattern : String
  reason : String
  severity : CommandSeverity
  requiresApproval : Bool

structure CommandApprovalRequest where
  id : String
  command : String
  pattern : String
  reason : String
  severity : CommandSeverity
  requestedBy : String
  requestedAt : ℤ
  status : ApprovalStatus
  reviewedBy : String
  reviewedAt : Option ℤ
  ttl : ℤ

structure CommandFilter where
  patterns : List DeniedCommand
  approvals : Table CommandApprovalRequest.id
  /-- History: the requests whose ids Check has returned. -/
  issued : List CommandApprovalRequest
  /-- History: the requests as they left the pending state. -/
  decided : List CommandApprovalRequest

structure CommandCheckResult where
  allowed : Bool
  command : String
  matchedPattern : String
  reason : String
  severity : Option CommandSeverity
  requiresApproval : Bool
  approvalID : String

inductive ReviewError
  | notFound (approvalID : String)
  | notPending (status : ApprovalStatus)

inductive Act
  | check (command userID : String) (idAt requestedAt : ℤ)
  | review (approve : Bool) (approvalID reviewer : String) (now : ℤ)
  | expire (now : ℤ)

def hour : ℤ := 3600000000000

def newCommandFilter (patterns : List DeniedCommand) : CommandFilter :=
  ⟨patterns, Table.empty, [], []⟩

def CommandApprovalRequest.stale (a : CommandApprovalRequest) (now : ℤ) : Bool :=
  a.status = .pending ∧ a.requestedAt + a.ttl < now

def CommandApprovalRequest.expire (a : CommandApprovalRequest) : CommandApprovalRequest :=
  { a with status := .expired }

variable (matchString : String → String → Bool) (format : ℤ → String) (f : CommandFilter)

def CommandFilter.issue (a : CommandApprovalRequest) : CommandFilter :=
  { f with approvals := f.approvals.replace a, issued := f.issued ++ [a] }

def CommandFilter.settle (a : CommandApprovalRequest) : CommandFilter :=
  { f with approvals := f.approvals.replace a, decided := f.decided ++ [a] }

def matched (command : String) : Option DeniedCommand :=
  f.patterns.find? (fun dc => matchString dc.pattern command)

def createApprovalRequest (command : String) (dc : DeniedCommand) (requestedBy : String)
    (idAt requestedAt : ℤ) : CommandApprovalRequest :=
  ⟨format idAt, command, dc.pattern, dc.reason, dc.severity, requestedBy, requestedAt, .pending, "",
    none, hour⟩

def check (command userID : String) (idAt requestedAt : ℤ) : CommandFilter × CommandCheckResult :=
  match matched matchString f command with
  | none => (f, ⟨true, command, "", "no matching deny patterns", none, false, ""⟩)
  | some dc =>
    if dc.requiresApproval then
      let approval := createApprovalRequest format command dc userID idAt requestedAt
      (f.issue approval,
        ⟨false, command, dc.pattern, dc.reason, some dc.severity, true, approval.id⟩)
    else (f, ⟨false, command, dc.pattern, dc.reason, some dc.severity, false, ""⟩)

def review (status : ApprovalStatus) (approvalID reviewer : String) (now : ℤ) :
    CommandFilter × Option ReviewError :=
  match f.approvals.get approvalID with
  | none => (f, some (.notFound approvalID))
  | some approval =>
    if approval.status ≠ .pending then (f, some (.notPending approval.status))
    else (f.settle { approval with
      status := status, reviewedBy := reviewer, reviewedAt := some now }, none)

def approveCommand := review f .approved

def denyCommand := review f .denied

def expireStaleApprovals (now : ℤ) : CommandFilter × ℕ :=
  ({ f with
      approvals := f.approvals.update (fun a => a.stale now) (fun a => a.expire)
        (fun a => (rfl : a.expire.id = a.id))
      decided := f.decided ++
        (f.approvals.rows.filter (fun a => a.stale now)).map (fun a => a.expire) },
    f.approvals.affected (fun a => a.stale now))

def step : Act → Option CommandFilter
  | .check command userID idAt requestedAt =>
    some (check matchString format f command userID idAt requestedAt).1
  | .review true approvalID reviewer now => some (approveCommand f approvalID reviewer now).1
  | .review false approvalID reviewer now => some (denyCommand f approvalID reviewer now).1
  | .expire now => some (expireStaleApprovals f now).1

/-- No decision is late or changed, and an id stays with its command and its user. -/
structure Sound : Prop where
  inTime : ∀ a ∈ f.decided, a.status = .approved → ∀ t ∈ a.reviewedAt, t ≤ a.requestedAt + a.ttl
  final : ∀ a ∈ f.decided, f.approvals.get a.id = some a
  own : ∀ a ∈ f.issued, ∃ b, f.approvals.get a.id = some b ∧ b.command = a.command ∧
    b.requestedBy = a.requestedBy
  distinct : f.issued.Pairwise (fun a b => a.id ≠ b.id)

def FreshAndSwept : Act → Prop
  | .check command _ idAt _ => ∀ dc ∈ matched matchString f command, dc.requiresApproval = true →
      f.approvals.get (format idAt) = none
  | .review true approvalID _ now => ∀ a ∈ f.approvals.get approvalID, a.status = .pending →
      now ≤ a.requestedAt + a.ttl
  | _ => True

structure Held : Prop where
  left : ∀ a ∈ f.decided, a.status ≠ .pending
  listed : ∀ id a, f.approvals.get id = some a → ∃ c ∈ f.issued, c.id = id

variable {m : String → String → Bool} {fmt : ℤ → String} {f g : CommandFilter} {act : Act}
  {a b : CommandApprovalRequest} {approvalID reviewer : String} {now : ℤ}

theorem issue_sound_iff (hs : Held f) (hf : Sound f) :
    Sound (f.issue a) ↔ f.approvals.get a.id = none := by
  constructor
  · intro h
    cases hget : f.approvals.get a.id with
    | none => rfl
    | some b =>
      obtain ⟨c, hc, hid⟩ := hs.listed a.id b hget
      exact absurd hid ((pairwise_append.mp h.distinct).2.2 c hc a (mem_singleton_self a))
  · intro hfree
    have hne : ∀ id b, f.approvals.get id = some b → id ≠ a.id := by
      rintro _ b hb rfl
      rw [hfree] at hb
      cases hb
    have hkept : ∀ id b, f.approvals.get id = some b → (f.issue a).approvals.get id = some b :=
      fun id b hb => (f.approvals.get_replace a id).trans (by rw [if_neg (hne id b hb), hb])
    refine ⟨hf.inTime, fun d hd => hkept _ _ (hf.final d hd), forall_mem_append.mpr ⟨?_, ?_⟩,
      pairwise_append.mpr ⟨hf.distinct, pairwise_singleton _ _, ?_⟩⟩
    · intro c hc
      obtain ⟨b, hb, hsame⟩ := hf.own c hc
      exact ⟨b, hkept _ _ hb, hsame⟩
    · rw [forall_mem_singleton]
      exact ⟨a, (f.approvals.get_replace a a.id).trans (if_pos rfl), rfl, rfl⟩
    · intro c hc k hk
      obtain ⟨b, hb, -⟩ := hf.own c hc
      exact mem_singleton.mp hk ▸ hne _ b hb

/-- A pending request is not among the decided ones, so only its own decision can be late. -/
theorem settle_sound_iff (hs : Held f) (hf : Sound f) (ha : f.approvals.get b.id = some a)
    (hpending : a.status = .pending)
    (hsame : b.command = a.command ∧ b.requestedBy = a.requestedBy) :
    Sound (f.settle b) ↔
      (b.status = .approved → ∀ t ∈ b.reviewedAt, t ≤ b.requestedAt + b.ttl) := by
  have hget : ∀ id, (f.settle b).approvals.get id = if id = b.id then some b
      else f.approvals.get id := f.approvals.get_replace b
  constructor
  · intro h
    exact h.inTime b (mem_append_right _ (mem_singleton_self b))
  · intro hb
    refine ⟨forall_mem_append.mpr ⟨hf.inTime, forall_mem_singleton.mpr hb⟩,
      forall_mem_append.mpr ⟨?_, ?_⟩, ?_, hf.distinct⟩
    · intro d hd
      have hstored := hf.final d hd
      rw [hget, if_neg ?_, hstored]
      intro h
      rw [h, ha] at hstored
      cases hstored
      exact hs.left _ hd hpending
    · rw [forall_mem_singleton, hget, if_pos rfl]
    · intro c hc
      obtain ⟨b', hb', hown⟩ := hf.own c hc
      rw [hget]
      split
      · rename_i h
        rw [h, ha] at hb'
        cases hb'
        exact ⟨b, rfl, hsame.1.trans hown.1, hsame.2.trans hown.2⟩
      · exact ⟨b', hb', hown⟩

theorem get_expire (id : String) :
    (expireStaleApprovals f now).1.approvals.get id =
      (f.approvals.get id).map (fun a => if a.stale now then a.expire else a) :=
  f.approvals.get_update _ _ (fun a => (rfl : a.expire.id = a.id)) id

theorem expire_sound (hs : Held f) (hf : Sound f) : Sound (expireStaleApprovals f now).1 := by
  refine ⟨forall_mem_append.mpr ⟨hf.inTime, forall_mem_map.mpr fun _ _ => nofun⟩,
    forall_mem_append.mpr ⟨?_, forall_mem_map.mpr ?_⟩, ?_, hf.distinct⟩
  · intro d hd
    simp [get_expire, hf.final d hd, CommandApprovalRequest.stale, hs.left d hd]
  · intro a ha
    obtain ⟨hrow, hstale⟩ := mem_filter.mp ha
    have hget : f.approvals.get a.expire.id = some a := (f.approvals.mem_rows_iff a).mp hrow
    simp [get_expire, hget, hstale]
  · intro c hc
    obtain ⟨b, hb, hown⟩ := hf.own c hc
    rw [get_expire, hb]
    refine ⟨_, rfl, ?_⟩
    simp only
    split <;> exact hown

theorem listed_replace (hs : Held f) {issued : List CommandApprovalRequest}
    (hb : ∃ c ∈ issued, c.id = b.id) (hissued : ∀ c ∈ f.issued, c ∈ issued) (id : String)
    (c : CommandApprovalRequest) (hc : (f.approvals.replace b).get id = some c) :
    ∃ c ∈ issued, c.id = id := by
  rw [Table.get_replace] at hc
  split at hc
  · rename_i hid
    exact hid ▸ hb
  · obtain ⟨c, hc, hid⟩ := hs.listed id c hc
    exact ⟨c, hissued c hc, hid⟩

theorem held_review (hs : Held f) {status : ApprovalStatus} (hstatus : status ≠ .pending) :
    Held (review f status approvalID reviewer now).1 := by
  unfold review
  split
  · exact hs
  · rename_i a ha
    split
    · exact hs
    · have hid := f.approvals.key_of_get _ a ha
      exact ⟨forall_mem_append.mpr ⟨hs.left, forall_mem_singleton.mpr hstatus⟩,
        listed_replace hs (hid ▸ hs.listed _ a ha) (fun _ h => h)⟩

theorem held_step (hs : Held f) (h : step m fmt f act = some g) : Held g := by
  match act with
  | .check _ _ _ _ =>
    cases h
    unfold check
    split
    · exact hs
    · split
      · exact ⟨hs.left, listed_replace hs ⟨_, mem_append_right _ (mem_singleton_self _), rfl⟩
          (fun _ => mem_append_left _)⟩
      · exact hs
  | .review true _ _ _ | .review false _ _ _ =>
    cases h
    exact held_review hs (by decide)
  | .expire _ =>
    cases h
    refine ⟨forall_mem_append.mpr ⟨hs.left, forall_mem_map.mpr fun _ _ => nofun⟩, ?_⟩
    intro id a ha
    rw [get_expire] at ha
    obtain ⟨b, hb, -⟩ := Option.map_eq_some_iff.mp ha
    exact hs.listed id b hb

theorem review_sound_iff (hs : Held f) (hf : Sound f) (status : ApprovalStatus) :
    Sound (review f status approvalID reviewer now).1 ↔ (status = .approved →
      ∀ a ∈ f.approvals.get approvalID, a.status = .pending → now ≤ a.requestedAt + a.ttl) := by
  unfold review
  split
  · rename_i hnone
    simp [hnone, hf]
  · rename_i a ha
    split
    · rename_i hdone
      simp [ha, hdone, hf]
    · rename_i hpending
      rw [not_not] at hpending
      refine (settle_sound_iff hs hf (a := a) ?_ hpending ?_).trans ?_
      · exact (f.approvals.key_of_get _ a ha).symm ▸ ha
      · exact ⟨rfl, rfl⟩
      · simp [ha, hpending]

theorem sound_step_iff (hs : Held f) (hf : Sound f) (h : step m fmt f act = some g) :
    Sound g ↔ FreshAndSwept m fmt f act := by
  cases act with
  | check =>
    cases h
    unfold check FreshAndSwept
    split
    · rename_i hnone
      simp [hnone, hf]
    · rename_i dc hdc
      split
      · rename_i happroval
        refine (issue_sound_iff hs hf).trans ?_
        simp [hdc, happroval, createApprovalRequest]
      · rename_i happroval
        simp [hdc, happroval, hf]
  | review approve =>
    cases approve with
    | true =>
      cases h
      exact (review_sound_iff hs hf _).trans (forall_prop_of_true rfl)
    | false =>
      cases h
      exact iff_of_true ((review_sound_iff hs hf _).mpr (by simp)) trivial
  | expire =>
    cases h
    exact iff_of_true (expire_sound hs hf) trivial

/-- Approvals are sound exactly when every new id is free and a request past its time to live is
approved only after a sweep. -/
theorem sound_iff_freshAndSwept (patterns : List DeniedCommand) (acts : List Act)
    (hrun : run (step m fmt) (newCommandFilter patterns) acts = some g) :
    Along (step m fmt) Sound (newCommandFilter patterns) acts ↔
      Meets (step m fmt) (FreshAndSwept m fmt) (newCommandFilter patterns) acts := by
  refine along_iff_meets (step m fmt) _ Sound Held ?_ ?_
    (fun _ _ _ hs hf h => sound_step_iff hs hf h) g hrun
  · constructor <;> simp [newCommandFilter]
  · refine fun _ _ => invariant _ Held ?_ (fun _ _ _ => held_step)
    constructor <;> simp [newCommandFilter, Table.empty, Table.get]

/-- The id of a request made at a time. -/
def timedID (now : ℤ) : String := "cmd-" ++ toString now

theorem approved_in_time : Along (step (fun _ _ => true) timedID) Sound
    (newCommandFilter [⟨"", "", .high, true⟩])
      [.check "reboot" "user" 0 0, .review true "cmd-0" "admin" 1] := by
  rw [sound_iff_freshAndSwept _ _ rfl]
  refine meets_cons _ _ _ _ (fun _ _ _ => rfl) ?_
  intro f hf
  cases hf
  refine meets_cons _ _ _ _ ?_ (fun _ _ => meets_nil _ _ _)
  intro a ha _
  cases ha
  decide

theorem approved_too_late : ∃ f, run (step (fun _ _ => true) timedID)
    (newCommandFilter [⟨"", "", .high, true⟩])
      [.check "reboot" "user" 0 0, .review true "cmd-0" "admin" (hour + 1)] = some f ∧
    ¬ Sound f := by
  refine ⟨_, rfl, ?_⟩
  intro h
  exact absurd (h.inTime _ mem_cons_self rfl _ rfl) (by decide)

end IronGolem.CommandApprovals
