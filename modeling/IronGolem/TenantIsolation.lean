import IronGolem.GatewayReads

/-!
What one tenant's rows have to do with another tenant's requests. A request is isolated from a
tenant when its answer is the one it would get if that tenant had no rows at all, and when it
leaves every row of that tenant as it was.
-/
namespace IronGolem.TenantIsolation

open RowTables OrderedPages TimestampOrder GatewayReads List
open InboundRequests (TokenClaims verifyToken sumHex sumHex_plain)
open ApprovalDecisions (DecisionRequest checkRequest)
open CommitmentStore (Commitment)
open EventStore (matching found passes Event)

variable (tenantID : String)

def approvalOf (r : ApprovalStore.Row) : Bool :=
  decide (r.body.1.tenantID = tenantID)

def commitmentOf (r : Commitment) : Bool := decide (r.tenantID = tenantID)

def eventOf (r : EventStore.Row) : Bool := decide (r.tenantID = tenantID)

def without (g : Gateway) (tenantID : String) : Gateway where
  approvals := g.approvals.delete (approvalOf tenantID)
  commitments := g.commitments.delete (commitmentOf tenantID)
  events := g.events.delete (eventOf tenantID)

/-- Every row of the tenant is still there as it was. -/
structure RowsKept (tenantID : String) (g g' : Gateway) : Prop where
  approvals : ∀ r ∈ g.approvals.rows, approvalOf tenantID r = true → r ∈ g'.approvals.rows
  commitments : ∀ r ∈ g.commitments.rows, commitmentOf tenantID r = true → r ∈ g'.commitments.rows
  events : ∀ r ∈ g.events.rows, eventOf tenantID r = true → r ∈ g'.events.rows

theorem RowsKept.refl (tenantID : String) (g : Gateway) : RowsKept tenantID g g where
  approvals := fun _ hr _ => hr
  commitments := fun _ hr _ => hr
  events := fun _ hr _ => hr

section

variable (lib : Library) (probes : HomeProbes) (freshID : String) (now : UtcTime)
  (claims : TokenClaims) (other : String) (g : Gateway)

/-- A request with these claims neither learns from the rows of the other tenant nor changes them.
-/
structure Isolated (req : Request) : Prop where
  response : (serve lib probes freshID now claims.tenantID claims.workspaceID g req).2 =
    (serve lib probes freshID now claims.tenantID claims.workspaceID (without g other) req).2
  rows : RowsKept other g (serve lib probes freshID now claims.tenantID claims.workspaceID g req).1

theorem isolated_iff (req : Request) :
    Isolated lib probes freshID now claims other g req ↔
      (serve lib probes freshID now claims.tenantID claims.workspaceID g req).2 =
          (serve lib probes freshID now claims.tenantID claims.workspaceID (without g other) req).2
            ∧
        RowsKept other g
          (serve lib probes freshID now claims.tenantID claims.workspaceID g req).1 :=
  ⟨fun h => ⟨h.response, h.rows⟩, fun h => ⟨h.1, h.2⟩⟩

variable (id : String)

def OwnsApproval : Prop :=
  ∃ r ∈ g.approvals.rows, r.id = id ∧ approvalOf other r = true

def OwnsCommitment : Prop :=
  ∃ r ∈ g.commitments.rows, r.id = id ∧ commitmentOf other r = true

/-- An event of the caller is pushed off the page by events of the other tenant. -/
def PushedOut (kind : String) (limit : ℕ) : Prop :=
  ∃ r ∈ matching g.events claims.workspaceID kind, r.tenantID = claims.tenantID ∧
    ahead (textKey Event.timestamp) Event.id
      (matching (without g other).events claims.workspaceID kind) r < limit ∧
    limit ≤ ahead (textKey Event.timestamp) Event.id (matching g.events claims.workspaceID kind) r

/-- The request comes upon a row of the other tenant. -/
def Reaches : Request → Prop
  | .listApprovals _ _ status =>
      ∃ r ∈ g.approvals.rows, ApprovalStore.hasStatus status r = true ∧ approvalOf other r = true
  | .getApproval id => id ≠ "" ∧ OwnsApproval other g id
  | .decideApproval req => ∃ id d, checkRequest req = .ok (id, d) ∧ OwnsApproval other g id
  | .listCommitments workspaceID status limit =>
      ∃ st n, parseStatus lib status = .ok st ∧ parseLimit limit = some n ∧
        ∃ r ∈ commitmentsMatching lib g.commitments workspaceID st, commitmentOf other r = true ∧
          ahead Commitment.createdAtMs Commitment.id
            (commitmentsMatching lib g.commitments workspaceID st) r < n.toNat
  | .dismissCommitment id => id ≠ "" ∧ OwnsCommitment other g id
  | .snoozeCommitment id body =>
      id ≠ "" ∧ (∃ untilMs, body = .ok untilMs ∧ now.instant / 1000000 < untilMs) ∧
        OwnsCommitment other g id
  | .deleteCommitment id => id ≠ "" ∧ OwnsCommitment other g id
  | .inbox page pageSize =>
      0 ≤ (((InboxPages.parsePagination page pageSize).1 - 1) *
          (InboxPages.parsePagination page pageSize).2).bmod (2 ^ 64) ∧
        PushedOut claims other g InboxPages.inbound
          ((InboxPages.parsePagination page pageSize).2 * 4).toNat
  | .home => PushedOut claims other g "" 20

variable {lib probes freshID now claims other g}

theorem approval_get_cases (other : String) (g : Gateway) (id : String) :
    (OwnsApproval other g id ∧ (∃ a, ApprovalStore.get g.approvals id = some a) ∧
      ApprovalStore.get (without g other).approvals id = none) ∨ (¬ OwnsApproval other g id ∧
      ApprovalStore.get (without g other).approvals id = ApprovalStore.get g.approvals id) := by
  rcases g.approvals.get_delete_cases (approvalOf other) id with
    ⟨howns, ⟨r, hr⟩, hnone⟩ | ⟨hnot, hsame⟩
  · refine .inl ⟨howns, ?_, (ApprovalStore.get_eq_none_iff _ id).mpr hnone⟩
    exact ⟨⟨r.body.1, r.body.2.trans (g.approvals.key_of_get id r hr)⟩,
      (ApprovalStore.get_eq_some_iff _ id _).mpr ⟨r, hr, rfl⟩⟩
  · refine .inr ⟨hnot, ?_⟩
    ext a
    rw [ApprovalStore.get_eq_some_iff, ApprovalStore.get_eq_some_iff]
    exact exists_congr (fun r => and_congr_left' (by rw [← hsame]; rfl))

theorem listApprovals_isolated_iff (page pageSize status : String) :
    Isolated lib probes freshID now claims other g (.listApprovals page pageSize status) ↔
      ¬ Reaches lib now claims other g (.listApprovals page pageSize status) := by
  have hfilter : (without g other).approvals.rows.filter (ApprovalStore.hasStatus status) =
      (g.approvals.rows.filter (ApprovalStore.hasStatus status)).filter
        (fun r => !approvalOf other r) := by
    exact filter_comm _ _ _
  constructor
  · rintro ⟨hresponse, -⟩ ⟨r, hr, hstatus, hother⟩
    simp only [serve, ApprovalStore.list, Response.approvals.injEq, length_descending] at hresponse
    have hlength := hresponse.2.1
    rw [hfilter, eq_comm, length_filter_eq_length_iff] at hlength
    have hkept := hlength r (mem_filter.mpr ⟨hr, hstatus⟩)
    rw [hother] at hkept
    cases hkept
  · intro hnot
    refine ⟨?_, RowsKept.refl other g⟩
    have hsame : (without g other).approvals.rows.filter (ApprovalStore.hasStatus status) =
        g.approvals.rows.filter (ApprovalStore.hasStatus status) := by
      rw [hfilter, filter_eq_self]
      intro r hr
      obtain ⟨hrow, hstatus⟩ := mem_filter.mp hr
      rw [Bool.not_eq_true']
      exact Bool.eq_false_iff.mpr (fun hother => hnot ⟨r, hrow, hstatus, hother⟩)
    simp [serve, ApprovalStore.list, hsame]

theorem getApproval_isolated_iff (id : String) :
    Isolated lib probes freshID now claims other g (.getApproval id) ↔
      ¬ Reaches lib now claims other g (.getApproval id) := by
  by_cases hid : id = ""
  · refine iff_of_true ⟨?_, ?_⟩ (fun h => h.1 hid)
    · simp [serve, if_pos hid]
    · simp only [serve, if_pos hid]
      exact RowsKept.refl other g
  rcases approval_get_cases other g id with
    ⟨howns, ⟨a, ha⟩, hnone⟩ | ⟨hnot, hsame⟩
  · refine iff_of_false ?_ (fun h => h ⟨hid, howns⟩)
    rintro ⟨hresponse, -⟩
    simp only [serve, if_neg hid, ha, hnone] at hresponse
    cases hresponse
  · refine iff_of_true ⟨?_, ?_⟩ (fun h => hnot h.2)
    · simp only [serve, if_neg hid, hsame]
      cases ApprovalStore.get g.approvals id with
      | _ => rfl
    · simp only [serve, if_neg hid]
      cases ApprovalStore.get g.approvals id with
      | _ => exact RowsKept.refl other g

variable (req : DecisionRequest)

theorem serveDecision_rowsKept (hfresh : ∀ r ∈ g.events.rows, r.id ≠ freshID)
    (hnot : ∀ id d, checkRequest req = .ok (id, d) → ¬ OwnsApproval other g id) :
    RowsKept other g (serveDecision lib g freshID now req).1 := by
  unfold serveDecision
  split
  · exact RowsKept.refl other g
  rename_i id d hcheck
  split
  · exact RowsKept.refl other g
  split
  · refine ⟨?_, fun _ hr _ => hr, ?_⟩
    · intro r hr hother
      refine ApprovalStore.mem_writeBody_of_ne _ _ hr ?_
      exact fun hid => hnot id d hcheck ⟨r, hr, hid, hother⟩
    · intro r hr _
      exact g.events.mem_replace_of_ne _ r hr (hfresh r hr)
  · exact RowsKept.refl other g

theorem serveDecision_response (hsame : ∀ id d, checkRequest req = .ok (id, d) →
      ApprovalStore.get (without g other).approvals id = ApprovalStore.get g.approvals id) :
    (serveDecision lib (without g other) freshID now req).2 =
      (serveDecision lib g freshID now req).2 := by
  unfold serveDecision
  cases hcheck : checkRequest req with
  | error r => rfl
  | ok checked =>
    obtain ⟨id, d⟩ := checked
    simp only [hsame id d hcheck]
    cases ApprovalStore.get g.approvals id with
    | none => rfl
    | some a =>
      by_cases hpending : a.1.status = .pending
      · simp [if_pos hpending]
      · simp [if_neg hpending]

theorem serveDecision_ne_notFound {id : String}
    {d : ApprovalStore.Decision} {a : ApprovalStore.RequestOf id}
    (hcheck : checkRequest req = .ok (id, d)) (ha : ApprovalStore.get g.approvals id = some a) :
    (serveDecision lib g freshID now req).2 ≠ .notFound "approval not found" := by
  unfold serveDecision
  simp only [hcheck, ha]
  split
  · intro h
    cases h
  · intro h
    cases h

theorem decideApproval_isolated_iff (hfresh : ∀ r ∈ g.events.rows, r.id ≠ freshID) :
    Isolated lib probes freshID now claims other g (.decideApproval req) ↔
      ¬ Reaches lib now claims other g (.decideApproval req) := by
  constructor
  · rintro ⟨hresponse, -⟩ ⟨id, d, hcheck, howns⟩
    rcases approval_get_cases other g id with ⟨-, ⟨a, ha⟩, hnone⟩ | ⟨hnot, -⟩
    · have hmissing : (serveDecision lib (without g other) freshID now req).2 =
          .notFound "approval not found" := by
        unfold serveDecision
        simp [hcheck, hnone]
      simp only [serve, Response.decision.injEq] at hresponse
      exact serveDecision_ne_notFound req hcheck ha (hresponse.trans hmissing)
    · exact hnot howns
  · intro hnot
    have hnone : ∀ id d, checkRequest req = .ok (id, d) → ¬ OwnsApproval other g id :=
      fun id d hcheck howns => hnot ⟨id, d, hcheck, howns⟩
    refine ⟨?_, serveDecision_rowsKept req hfresh hnone⟩
    simp only [serve, Response.decision.injEq]
    refine (serveDecision_response req ?_).symm
    intro id d hcheck
    rcases approval_get_cases other g id with ⟨howns, -⟩ | ⟨-, hsame⟩
    · exact absurd howns (hnone id d hcheck)
    · exact hsame

theorem commitment_get_cases (other : String) (g : Gateway) (id : String) :
    (OwnsCommitment other g id ∧ (∃ c, g.commitments.get id = some c) ∧
      (without g other).commitments.get id = none) ∨ (¬ OwnsCommitment other g id ∧
      (without g other).commitments.get id = g.commitments.get id) :=
  g.commitments.get_delete_cases (commitmentOf other) id

variable (db : CommitmentStore.DB) (id : String)

theorem rowsAffectedErr_hasID :
    CommitmentStore.rowsAffectedErr (db.affected (CommitmentStore.hasID id)) =
      if db.get id = none then some .notFound else none := by
  have hiff : db.affected (CommitmentStore.hasID id) = 0 ↔ db.get id = none := by
    unfold Table.affected
    rw [countP_eq_zero, db.get_eq_none_iff]
    simp [CommitmentStore.hasID]
  unfold CommitmentStore.rowsAffectedErr
  simp [hiff]

def markAnswer (id : String) (f : Commitment → Commitment) : Option Commitment → Response
  | none => notFound id
  | some c => .commitment (f c)

theorem markResponse_mark (f : Commitment → Commitment) (hf : ∀ r, (f r).id = r.id) :
    markResponse (CommitmentStore.mark db (CommitmentStore.hasID id) f hf).1 id
        (CommitmentStore.mark db (CommitmentStore.hasID id) f hf).2 =
      markAnswer id f (db.get id) := by
  have herr : (CommitmentStore.mark db (CommitmentStore.hasID id) f hf).2 =
      if db.get id = none then some .notFound else none := rowsAffectedErr_hasID db id
  rw [herr]
  cases hget : db.get id with
  | none => rfl
  | some c =>
    have hc : c.id = id := db.key_of_get id c hget
    have hrow : (CommitmentStore.mark db (CommitmentStore.hasID id) f hf).1.get id =
        some (f c) := by
      rw [CommitmentStore.get_mark, hget]
      simp [CommitmentStore.hasID, hc]
    simp [markResponse, markAnswer, hrow]

theorem serveMark_isolated_iff (other : String) (g : Gateway) (id : String)
    (f : Commitment → Commitment) (hf : ∀ r, (f r).id = r.id) :
    ((serveMark g id (CommitmentStore.mark g.commitments (CommitmentStore.hasID id) f hf)).2 =
        (serveMark (without g other) id
          (CommitmentStore.mark (without g other).commitments (CommitmentStore.hasID id) f hf)).2 ∧
      RowsKept other g
        (serveMark g id (CommitmentStore.mark g.commitments (CommitmentStore.hasID id) f hf)).1) ↔
    ¬ (id ≠ "" ∧ OwnsCommitment other g id) := by
  by_cases hid : id = ""
  · simp only [serveMark, if_pos hid]
    exact iff_of_true ⟨trivial, RowsKept.refl other g⟩ (fun h => h.1 hid)
  simp only [serveMark, if_neg hid, markResponse_mark]
  rcases commitment_get_cases other g id with ⟨howns, ⟨c, hc⟩, hnone⟩ | ⟨hnot, hsame⟩
  · refine iff_of_false ?_ (not_not.mpr ⟨hid, howns⟩)
    rintro ⟨hresponse, -⟩
    rw [hc, hnone] at hresponse
    cases hresponse
  · refine iff_of_true ⟨by rw [hsame], fun _ hr _ => hr, ?_, fun _ hr _ => hr⟩ (fun h => hnot h.2)
    intro r hr hother
    exact g.commitments.mem_update_key_of_ne id f hf r hr (fun h => hnot ⟨r, hr, h, hother⟩)

theorem dismissCommitment_isolated_iff :
    Isolated lib probes freshID now claims other g (.dismissCommitment id) ↔
      ¬ Reaches lib now claims other g (.dismissCommitment id) := by
  rw [isolated_iff]
  exact serveMark_isolated_iff other g id _ _

theorem snoozeCommitment_isolated_iff (body : Except String ℤ) :
    Isolated lib probes freshID now claims other g (.snoozeCommitment id body) ↔
      ¬ Reaches lib now claims other g (.snoozeCommitment id body) := by
  rw [isolated_iff]
  by_cases hid : id = ""
  · simp only [serve, if_pos hid]
    exact iff_of_true ⟨trivial, RowsKept.refl other g⟩ (fun h => h.1 hid)
  simp only [serve, if_neg hid]
  cases body with
  | error detail =>
    refine iff_of_true ⟨rfl, RowsKept.refl other g⟩ ?_
    rintro ⟨-, ⟨untilMs, hbody, -⟩, -⟩
    cases hbody
  | ok untilMs =>
    by_cases hpast : untilMs ≤ now.instant / 1000000
    · simp only [if_pos hpast]
      refine iff_of_true ⟨trivial, RowsKept.refl other g⟩ ?_
      rintro ⟨-, ⟨untilMs', hbody, hlater⟩, -⟩
      cases hbody
      omega
    · simp only [if_neg hpast]
      refine (serveMark_isolated_iff other g id _ _).trans (not_congr ?_)
      exact and_congr_right (fun _ => ⟨fun howns => ⟨⟨untilMs, rfl, by omega⟩, howns⟩, And.right⟩)

theorem deleteCommitment_isolated_iff :
    Isolated lib probes freshID now claims other g (.deleteCommitment id) ↔
      ¬ Reaches lib now claims other g (.deleteCommitment id) := by
  rw [isolated_iff]
  by_cases hid : id = ""
  · simp only [serve, if_pos hid]
    exact iff_of_true ⟨trivial, RowsKept.refl other g⟩ (fun h => h.1 hid)
  simp only [serve, if_neg hid, CommitmentStore.delete, rowsAffectedErr_hasID]
  rcases commitment_get_cases other g id with ⟨howns, ⟨c, hc⟩, hnone⟩ | ⟨hnot, hsame⟩
  · refine iff_of_false ?_ (not_not.mpr ⟨hid, howns⟩)
    rintro ⟨hresponse, -⟩
    rw [hc, hnone] at hresponse
    cases hresponse
  · refine iff_of_true ⟨by rw [hsame], fun _ hr _ => hr, ?_, fun _ hr _ => hr⟩ (fun h => hnot h.2)
    intro r hr hother
    refine g.commitments.mem_delete_of_not _ r hr ?_
    exact decide_eq_false (fun h => hnot ⟨r, hr, h, hother⟩)

theorem parseLimit_bounds {raw : String} {n : ℤ} (h : parseLimit raw = some n) :
    1 ≤ n ∧ n ≤ 1000 := by
  unfold parseLimit at h
  split at h
  · cases h
    decide
  split at h
  · cases h
  split at h
  · cases h
  · cases h
    omega

variable (workspaceID : String) (st : CommitmentStore.CommitmentStatus) {n : ℤ}

theorem listRows_of_bounds (h : 1 ≤ n ∧ n ≤ 1000) :
    listRows lib db workspaceID st n = (descending Commitment.createdAtMs
      (commitmentsMatching lib db workspaceID st)).take n.toNat := by
  have hlow : ¬ n ≤ 0 := by omega
  have hhigh : ¬ 1000 < n := by omega
  simp [listRows, if_neg hlow, if_neg hhigh]

theorem commitmentsMatching_without :
    commitmentsMatching lib (without g other).commitments workspaceID st =
      (commitmentsMatching lib g.commitments workspaceID st).filter
        (fun r => !commitmentOf other r) := by
  unfold commitmentsMatching
  rw [← (lib.listScan workspaceID st).filter]
  exact congrArg _ (filter_comm _ _ _)

theorem commitmentsMatching_ids_nodup :
    ((commitmentsMatching lib db workspaceID st).map Commitment.id).Nodup :=
  db.visit_keys_nodup _ _

theorem listRows_without_iff (lib : Library) (other : String) (g : Gateway) (workspaceID : String)
    (st : CommitmentStore.CommitmentStatus) (h : 1 ≤ n ∧ n ≤ 1000) :
    listRows lib g.commitments workspaceID st n =
        listRows lib (without g other).commitments workspaceID st n ↔
      ¬ ∃ r ∈ commitmentsMatching lib g.commitments workspaceID st, commitmentOf other r = true ∧
        ahead Commitment.createdAtMs Commitment.id
          (commitmentsMatching lib g.commitments workspaceID st) r < n.toNat := by
  rw [listRows_of_bounds _ _ _ h, listRows_of_bounds _ _ _ h, commitmentsMatching_without,
    ← filter_descending, take_eq_take_filter_iff]
  have hplace : ∀ r ∈ commitmentsMatching lib g.commitments workspaceID st,
      r ∈ (descending Commitment.createdAtMs
          (commitmentsMatching lib g.commitments workspaceID st)).take n.toNat ↔
        ahead Commitment.createdAtMs Commitment.id
          (commitmentsMatching lib g.commitments workspaceID st) r < n.toNat :=
    fun r hr => mem_take_descending_iff _ Commitment.id
      (commitmentsMatching_ids_nodup g.commitments workspaceID st) hr n.toNat
  constructor
  · rintro hall ⟨r, hr, hother, hahead⟩
    have hkept := hall r ((hplace r hr).mpr hahead)
    rw [hother] at hkept
    cases hkept
  · intro hnone r hr
    have hmem := (mem_descending _ _ r).mp (mem_of_mem_take hr)
    rw [Bool.not_eq_true']
    exact Bool.eq_false_iff.mpr (fun hother => hnone ⟨r, hmem, hother, (hplace r hmem).mp hr⟩)

theorem listCommitments_isolated_iff (status limit : String) :
    Isolated lib probes freshID now claims other g (.listCommitments workspaceID status limit) ↔
      ¬ Reaches lib now claims other g (.listCommitments workspaceID status limit) := by
  rw [isolated_iff]
  simp only [serve, serveListCommitments]
  cases hstatus : parseStatus lib status with
  | error detail =>
    refine iff_of_true ⟨rfl, RowsKept.refl other g⟩ ?_
    rintro ⟨st, n, hst, -⟩
    rw [hstatus] at hst
    cases hst
  | ok st =>
    cases hlimit : parseLimit limit with
    | none =>
      refine iff_of_true ⟨rfl, RowsKept.refl other g⟩ ?_
      rintro ⟨st', n, -, hn, -⟩
      rw [hlimit] at hn
      cases hn
    | some n =>
      have hlist := listRows_without_iff lib other g workspaceID st (parseLimit_bounds hlimit)
      constructor
      · rintro ⟨hresponse, -⟩ ⟨st', n', hst, hn, hrow⟩
        rw [hstatus] at hst
        rw [hlimit] at hn
        cases hst
        cases hn
        exact hlist.mp (Response.commitments.inj hresponse).1 hrow
      · intro hnot
        refine ⟨?_, RowsKept.refl other g⟩
        have hsame := hlist.mpr (fun hrow => hnot ⟨st, n, hstatus, hlimit, hrow⟩)
        simp [hsame]

def windowOf (db : EventStore.DB) (tenantID workspaceID kind : String) (limit : ℕ) :
    List EventStore.Row :=
  ((found db workspaceID kind).take limit).filter (fun r => passes tenantID r.tenantID)

theorem matching_without (other : String) (g : Gateway) (workspaceID kind : String) :
    matching (without g other).events workspaceID kind =
      (matching g.events workspaceID kind).filter (fun r => !eventOf other r) := by
  exact filter_comm _ _ _

theorem found_without (other : String) (g : Gateway) (workspaceID kind : String) :
    found (without g other).events workspaceID kind =
      (found g.events workspaceID kind).filter (fun r => !eventOf other r) := by
  unfold found
  rw [matching_without, filter_descending]

theorem found_nodup (db : EventStore.DB) (workspaceID kind : String) :
    (found db workspaceID kind).Nodup := by
  unfold found
  rw [(descending_perm _ _).nodup_iff]
  exact List.Nodup.of_map Event.id (EventStore.matching_ids_nodup db workspaceID kind)

theorem not_eventOf_of_passes (tenantID other : String) (htenant : tenantID ≠ "")
    (hother : other ≠ tenantID) (r : EventStore.Row) (h : passes tenantID r.tenantID = true) :
    (!eventOf other r) = true := by
  rcases (EventStore.passes_iff tenantID r.tenantID).mp h with hempty | hsame
  · exact absurd hempty htenant
  · rw [Bool.not_eq_true', eventOf, hsame]
    exact decide_eq_false hother.symm

theorem windowOf_sublist {other : String} (g : Gateway) (tenantID workspaceID kind : String)
    (limit : ℕ) (htenant : tenantID ≠ "") (hother : other ≠ tenantID) :
    (windowOf g.events tenantID workspaceID kind limit).Sublist
      (windowOf (without g other).events tenantID workspaceID kind limit) := by
  unfold windowOf
  rw [found_without]
  exact filter_take_sublist _ limit (not_eventOf_of_passes tenantID other htenant hother)

/-- The window holds the same events exactly when none of the caller's is pushed out. -/
theorem windowOf_without_iff {claims : TokenClaims} {other : String} (g : Gateway) (kind : String)
    (limit : ℕ) (htenant : claims.tenantID ≠ "") (hother : other ≠ claims.tenantID) :
    windowOf g.events claims.tenantID claims.workspaceID kind limit =
        windowOf (without g other).events claims.tenantID claims.workspaceID kind limit ↔
      ¬ PushedOut claims other g kind limit := by
  unfold windowOf
  rw [found_without, filter_take_eq_iff _ limit (found_nodup _ _ _)
    (not_eventOf_of_passes claims.tenantID other htenant hother), ← found_without]
  have hplace : ∀ (db : EventStore.DB) (r : EventStore.Row),
      r ∈ matching db claims.workspaceID kind → (r ∈ (found db claims.workspaceID kind).take limit ↔
          ahead (textKey Event.timestamp) Event.id (matching db claims.workspaceID kind) r <
            limit) :=
    fun db r hr => mem_take_descending_iff _ Event.id
      (EventStore.matching_ids_nodup db claims.workspaceID kind) hr limit
  constructor
  · rintro hall ⟨r, hr, hmine, hbefore, hnow⟩
    have hpasses : passes claims.tenantID r.tenantID = true := hmine ▸ EventStore.passes_self _
    have hkept : r ∈ matching (without g other).events claims.workspaceID kind := by
      rw [matching_without]
      exact mem_filter.mpr
        ⟨hr, not_eventOf_of_passes claims.tenantID other htenant hother r hpasses⟩
    have htake := hall r ((hplace _ r hkept).mpr hbefore) hpasses
    exact absurd ((hplace _ r hr).mp htake) (not_lt.mpr hnow)
  · intro hnone r hr hpasses
    have hkept : r ∈ matching (without g other).events claims.workspaceID kind :=
      (mem_descending _ _ r).mp (mem_of_mem_take hr)
    have hmem : r ∈ matching g.events claims.workspaceID kind := by
      rw [matching_without] at hkept
      exact mem_of_mem_filter hkept
    have hmine : r.tenantID = claims.tenantID :=
      ((EventStore.passes_iff _ _).mp hpasses).resolve_left htenant
    rw [hplace _ r hmem]
    by_contra hnow
    exact hnone ⟨r, hmem, hmine, (hplace _ r hkept).mp hr, not_lt.mp hnow⟩

theorem windowOf_eq_of_length {other : String} {g : Gateway} {tenantID workspaceID kind : String}
    {limit : ℕ} (htenant : tenantID ≠ "") (hother : other ≠ tenantID)
    (h : (windowOf g.events tenantID workspaceID kind limit).length =
      (windowOf (without g other).events tenantID workspaceID kind limit).length) :
    windowOf g.events tenantID workspaceID kind limit =
      windowOf (without g other).events tenantID workspaceID kind limit :=
  (windowOf_sublist g tenantID workspaceID kind limit htenant hother).eq_of_length h

theorem filter_first_page (db : EventStore.DB) {size : ℤ} (tenantID workspaceID kind : String)
    (hsize : 1 ≤ size) :
    (EventStore.list db 1 size workspaceID kind).1.filter
        (fun evt => passes tenantID evt.tenantID) =
      (windowOf db tenantID workspaceID kind size.toNat).map Event.atInstant := by
  rw [EventStore.list_first_page db workspaceID kind hsize, filter_map]
  rfl

theorem recentEvents_eq (db : EventStore.DB) (tenantID workspaceID : String) (now : ℤ) :
    recentEvents lib db tenantID workspaceID now =
      (windowOf db tenantID workspaceID "" 20).map (fun r => mapHomeEvent lib r.atInstant now) := by
  unfold recentEvents
  rw [filter_first_page db tenantID workspaceID "" (by decide), map_map]
  rfl

theorem home_isolated_iff (htenant : claims.tenantID ≠ "") (hother : other ≠ claims.tenantID) :
    Isolated lib probes freshID now claims other g .home ↔
      ¬ Reaches lib now claims other g .home := by
  have hwindow := windowOf_without_iff g "" 20 htenant hother
  refine Iff.trans ?_ hwindow
  constructor
  · rintro ⟨hresponse, -⟩
    simp only [serve, Response.home.injEq, listHome, HomeResponse.mk.injEq, true_and] at hresponse
    rw [recentEvents_eq, recentEvents_eq] at hresponse
    refine windowOf_eq_of_length htenant hother ?_
    simpa using congrArg length hresponse
  · intro hsame
    refine ⟨?_, RowsKept.refl other g⟩
    simp [serve, listHome, recentEvents_eq, hsame]

theorem listInbox_window (db : EventStore.DB) (tenantID workspaceID page pageSize : String)
    (now : ℤ) :
    InboxPages.listInbox lib.decode db tenantID workspaceID page pageSize now =
      InboxPages.cutPage
        ((windowOf db tenantID workspaceID InboxPages.inbound
          ((InboxPages.parsePagination page pageSize).2 * 4).toNat).map
            (fun r => InboxPages.shapeInboxItem lib.decode r.atInstant now))
        (InboxPages.parsePagination page pageSize).1
        (InboxPages.parsePagination page pageSize).2 := by
  have hbounds := InboxPages.parsePagination_bounds page pageSize
  unfold InboxPages.listInbox
  generalize InboxPages.parsePagination page pageSize = parsed at hbounds ⊢
  have hcap : ¬ 200 < parsed.2 := by omega
  simp only [if_neg hcap]
  rw [filter_first_page db tenantID workspaceID _ (by omega), map_map]
  rfl

theorem inbox_isolated_iff (page pageSize : String) (htenant : claims.tenantID ≠ "")
    (hother : other ≠ claims.tenantID) :
    Isolated lib probes freshID now claims other g (.inbox page pageSize) ↔
      ¬ Reaches lib now claims other g (.inbox page pageSize) := by
  have hbounds := InboxPages.parsePagination_bounds page pageSize
  have hwindow := windowOf_without_iff g InboxPages.inbound
    ((InboxPages.parsePagination page pageSize).2 * 4).toNat htenant hother
  rw [isolated_iff]
  simp only [serve, Reaches, listInbox_window]
  generalize InboxPages.parsePagination page pageSize = parsed at hbounds hwindow ⊢
  by_cases hstart : 0 ≤ ((parsed.1 - 1) * parsed.2).bmod (2 ^ 64)
  · constructor
    · rintro ⟨hresponse, -⟩ ⟨-, hpushed⟩
      refine hwindow.mp ?_ hpushed
      refine windowOf_eq_of_length htenant hother ?_
      have hcut := fun items =>
        InboxPages.cutPage_of_nonneg items (by omega) hstart
      rw [hcut, hcut] at hresponse
      have htotal := congrArg InboxPages.InboxResponse.total (Response.inbox.inj hresponse)
      simpa using htotal
    · intro hnot
      refine ⟨?_, RowsKept.refl other g⟩
      rw [hwindow.mpr (fun hpushed => hnot ⟨hstart, hpushed⟩)]
  · refine iff_of_true ⟨?_, RowsKept.refl other g⟩ (fun h => hstart h.1)
    rw [InboxPages.cutPage_of_neg _ (not_le.mp hstart),
      InboxPages.cutPage_of_neg _ (not_le.mp hstart)]

end

/-- A request is isolated exactly when it does not come upon a row of the other tenant. -/
theorem isolated_iff_not_reaching (hmacHex : String → String → String) (lib : Library)
    (probes : HomeProbes) (token secret freshID : String) (checkedAt clockSkew : ℤ)
    (now : UtcTime) (claims : TokenClaims) (other : String) (g : Gateway) (req : Request)
    (htoken : verifyToken hmacHex token secret checkedAt clockSkew = .ok claims)
    (hother : other ≠ claims.tenantID) (hfresh : ∀ r ∈ g.events.rows, r.id ≠ freshID) :
    Isolated lib probes freshID now claims other g req ↔ ¬ Reaches lib now claims other g req := by
  obtain ⟨-, -, -, -, -, -, htenant⟩ :=
    BearerTokens.verifyToken_eq_ok hmacHex token secret checkedAt clockSkew claims htoken
  cases req with
  | listApprovals page pageSize status => exact listApprovals_isolated_iff page pageSize status
  | getApproval id => exact getApproval_isolated_iff id
  | decideApproval req => exact decideApproval_isolated_iff req hfresh
  | listCommitments workspaceID status limit =>
    exact listCommitments_isolated_iff workspaceID status limit
  | dismissCommitment id => exact dismissCommitment_isolated_iff id
  | snoozeCommitment id body => exact snoozeCommitment_isolated_iff id body
  | deleteCommitment id => exact deleteCommitment_isolated_iff id
  | inbox page pageSize => exact inbox_isolated_iff page pageSize htenant hother
  | home => exact home_isolated_iff htenant hother

/-- A caller of tenant `a`. -/
def caller : TokenClaims := ⟨"a", "ws", "ann", "planner", "web", 2000⟩

def callerToken : String :=
  InboundRequests.signed sumHex "key"
    (SeparatedText.joinWith ':' ["a", "ws", "ann", "planner", "web", "2000"])

theorem callerToken_valid :
    verifyToken sumHex callerToken "key" 1000000000 0 = .ok caller :=
  InboundRequests.verifyToken_of_fields sumHex "key" 1000000000 0 caller "2000"
    (by decide) (by decide) (by decide) (by decide) (by decide) (sumHex_plain "key")

def plainLibrary : Library where
  decode := fun _ => ⟨"", "", "", "", ""⟩
  encode := fun _ => "\x7b\x7d"
  toLower := id
  quote := id
  listScan := fun _ _ => .tableOrder

def plainProbes : HomeProbes := ⟨"", 0, none, []⟩

/-- A pending approval of each of two tenants, and messages of both in one workspace. -/
def twoTenants : Gateway where
  approvals := ApprovalStore.create (ApprovalStore.create Table.empty
    ⟨"a1", "recipe", "step", "send the mail", .high, .pending, "a", "ws", 1, none, "", ""⟩ 1)
    ⟨"b1", "recipe", "step", "pay the bill", .high, .pending, "b", "ws", 2, none, "", ""⟩ 2
  commitments := Table.empty
  events := InboxPages.sharedWorkspace

def atNoon : UtcTime := EventListings.afterNoon 0

theorem own_approval_and_home_isolated :
    Isolated plainLibrary plainProbes "e1" atNoon caller "b" twoTenants
        (.decideApproval (.approve "a1" "ann")) ∧
      Isolated plainLibrary plainProbes "e1" atNoon caller "b" twoTenants .home := by
  constructor
  · refine (isolated_iff_not_reaching sumHex plainLibrary plainProbes callerToken "key"
      "e1" 1000000000 0 atNoon caller "b" twoTenants _ callerToken_valid (by decide)
      (by decide)).mpr ?_
    rintro ⟨id, d, hcheck, r, hr, hid, hother⟩
    cases hcheck
    revert r
    decide
  · refine (isolated_iff_not_reaching sumHex plainLibrary plainProbes callerToken "key"
      "e1" 1000000000 0 atNoon caller "b" twoTenants _ callerToken_valid (by decide)
      (by decide)).mpr ?_
    rintro ⟨r, hr, hmine, hbefore, hnow⟩
    revert r
    decide

/-- The caller approves the other tenant's request and sees it. -/
theorem other_tenants_approval_decided :
    verifyToken sumHex callerToken "key" 1000000000 0 = .ok caller ∧
      ((ApprovalStore.get (serve plainLibrary plainProbes "e1" atNoon caller.tenantID
          caller.workspaceID twoTenants (.decideApproval (.approve "b1" "ann"))).1.approvals
            "b1").map (fun a => (a.1.tenantID, a.1.status, a.1.respondedBy))) =
        some ("b", .approved, "ann") ∧
      ¬ Isolated plainLibrary plainProbes "e1" atNoon caller "b" twoTenants
        (.decideApproval (.approve "b1" "ann")) := by
  refine ⟨callerToken_valid, by decide, ?_⟩
  rw [decideApproval_isolated_iff _ (by decide), not_not]
  refine ⟨"b1", .approve "ann", rfl, ?_⟩
  unfold OwnsApproval
  decide

end IronGolem.TenantIsolation
