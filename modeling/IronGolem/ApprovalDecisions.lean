import IronGolem.TransitionRuns
import IronGolem.ApprovalStore

/-!
Any number of approve and deny requests at once on one store of approvals. A request is checked,
reads the row, writes it back as decided and emits its event; the two statements and the event are
steps of their own, and the steps of other requests fall between them.
-/
namespace IronGolem.ApprovalDecisions

open RowTables TransitionRuns ApprovalStore List

/-- What the handler has decoded; a body that does not decode is refused for a denial only. -/
inductive DecisionRequest
  | approve (id respondedBy : String)
  | deny (id : String) (body : Option (String × String))
  deriving DecidableEq

inductive Response
  | badRequest (error : String)
  | notFound (error : String)
  | decided (approval : ApprovalRequest) (status : String)
  deriving DecidableEq

def orAnonymous (respondedBy : String) : String :=
  if respondedBy = "" then "anonymous" else respondedBy

/-- The checks of `ApproveAction` and `DenyAction` before the store is called. -/
def checkRequest : DecisionRequest → Except Response (String × Decision)
  | .approve id respondedBy =>
      if id = "" then .error (.badRequest "approval id is required")
      else .ok (id, .approve (orAnonymous respondedBy))
  | .deny id body =>
      if id = "" then .error (.badRequest "approval id is required")
      else match body with
        | none => .error (.badRequest "invalid request body")
        | some (respondedBy, reason) =>
            if reason = "" then
              .error (.badRequest "reason is required when denying an approval")
            else .ok (id, .deny (orAnonymous respondedBy) reason)

/-- The payload of `approval.approved` has no reason, that of `approval.denied` has one. -/
structure DecisionEvent where
  kind : String
  approvalID : String
  recipeID : String
  stepID : String
  respondedBy : String
  reason : Option String
  deriving DecidableEq

def decisionEvent (d : Decision) (a : ApprovalRequest) : DecisionEvent where
  kind := match d with
    | .approve _ => "approval.approved"
    | .deny _ _ => "approval.denied"
  approvalID := a.id
  recipeID := a.recipeID
  stepID := a.stepID
  respondedBy := d.respondedBy
  reason := match d with
    | .approve _ => none
    | .deny _ reason => some reason

inductive Phase
  | reading (id : String) (d : Decision)
  /-- The row was read as pending; the UPDATE comes next. -/
  | updating (id : String) (d : Decision) (a : RequestOf id)
  /-- The store returned ok; the event comes next. -/
  | emitting (id : String) (d : Decision) (a : RequestOf id)
  /-- The store did not return ok; the handler reads the row again to choose its answer. -/
  | refused (id : String)
  | answered (response : Response)
  deriving DecidableEq

def Phase.returned : Phase → Option ApprovalRequest
  | emitting _ _ a => some a.1
  | answered (.decided a _) => some a
  | _ => none

structure Sys where
  db : DB
  calls : ℕ → Option Phase
  /-- The events emitted so far, each with the request that emitted it. -/
  emitted : List (ℕ × DecisionEvent)

variable (db : DB)

def init : Sys := ⟨db, fun _ => none, []⟩

variable (s : Sys)

def Sys.setCall (c : ℕ) (p : Phase) : Sys :=
  { s with calls := Function.update s.calls c (some p) }

/-- A statement that fails in the database carries `ok = false` and changes nothing. -/
inductive Act
  | start (c : ℕ) (req : DecisionRequest)
  | read (c : ℕ) (ok : Bool)
  | update (c : ℕ) (now : ℤ) (ok : Bool)
  | emit (c : ℕ)
  | reread (c : ℕ) (ok : Bool)
  deriving DecidableEq

def afterRead (id : String) (d : Decision) (ok : Bool) : Phase :=
  match ok, get db id with
  | true, some a => if a.1.status = .pending then .updating id d a else .refused id
  | _, _ => .refused id

def afterReread (id : String) (ok : Bool) : Response :=
  if ok = true ∧ (get db id).isSome = true then .badRequest "approval is not in pending state"
  else .notFound "approval not found"

def step : Act → Option Sys
  | .start c req =>
      match s.calls c with
      | none =>
          match checkRequest req with
          | .error response => some (s.setCall c (.answered response))
          | .ok (id, d) => some (s.setCall c (.reading id d))
      | some _ => none
  | .read c ok =>
      match s.calls c with
      | some (.reading id d) => some (s.setCall c (afterRead s.db id d ok))
      | _ => none
  | .update c now ok =>
      match s.calls c with
      | some (.updating id d a) =>
          if ok then
            some { s.setCall c (.emitting id d (decided d now a)) with
              db := writeBody s.db (decided d now a) now }
          else some (s.setCall c (.refused id))
      | _ => none
  | .emit c =>
      match s.calls c with
      | some (.emitting _ d a) =>
          some { s.setCall c (.answered (.decided a.1 d.target.text)) with
            emitted := s.emitted ++ [(c, decisionEvent d a.1)] }
      | _ => none
  | .reread c ok =>
      match s.calls c with
      | some (.refused id) => some (s.setCall c (.answered (afterReread s.db id ok)))
      | _ => none

def Returned (c : ℕ) (a : ApprovalRequest) : Prop :=
  (s.calls c).bind Phase.returned = some a

/-- Only reading a pending row, writing it and emitting do more than move a request. -/
inductive StepTo (s : Sys) : Act → Sys → Prop
  | quiet (act : Act) (c : ℕ) (p : Phase) (hbefore : (s.calls c).bind Phase.returned = none)
      (hafter : p.returned = none) (hidle : ∀ id d a, p ≠ .updating id d a)
      (hact : ∀ c now, act ≠ .update c now true) : StepTo s act (s.setCall c p)
  | read (c : ℕ) (ok : Bool) (id : String) (d : Decision) (a : RequestOf id)
      (hcall : s.calls c = some (.reading id d)) (hget : get s.db id = some a)
      (hpending : a.1.status = .pending) : StepTo s (.read c ok) (s.setCall c (.updating id d a))
  | update (c : ℕ) (now : ℤ) (id : String) (d : Decision) (a : RequestOf id)
      (hcall : s.calls c = some (.updating id d a)) :
      StepTo s (.update c now true)
        { s.setCall c (.emitting id d (decided d now a)) with
          db := writeBody s.db (decided d now a) now }
  | emit (c : ℕ) (id : String) (d : Decision) (a : RequestOf id)
      (hcall : s.calls c = some (.emitting id d a)) :
      StepTo s (.emit c)
        { s.setCall c (.answered (.decided a.1 d.target.text)) with
          emitted := s.emitted ++ [(c, decisionEvent d a.1)] }

theorem checkRequest_returned {req : DecisionRequest} {response : Response}
    (h : checkRequest req = .error response) : (Phase.answered response).returned = none := by
  cases req with
  | approve id respondedBy =>
    simp only [checkRequest] at h
    split at h <;> cases h
    rfl
  | deny id body =>
    simp only [checkRequest] at h
    split at h
    · cases h
      rfl
    · split at h
      · cases h
        rfl
      · split at h <;> cases h
        rfl

theorem afterReread_returned (id : String) (ok : Bool) :
    (Phase.answered (afterReread db id ok)).returned = none := by
  unfold afterReread
  split <;> rfl

theorem afterRead_cases (id : String) (d : Decision) (ok : Bool) :
    afterRead db id d ok = .refused id ∨
      ∃ a, get db id = some a ∧ a.1.status = .pending ∧
        afterRead db id d ok = .updating id d a := by
  cases ok with
  | false => exact .inl (by simp [afterRead])
  | true =>
    cases hget : get db id with
    | none => exact .inl (by simp [afterRead, hget])
    | some a =>
      by_cases hpending : a.1.status = .pending
      · exact .inr ⟨a, rfl, hpending, by simp [afterRead, hget, hpending]⟩
      · exact .inl (by simp [afterRead, hget, hpending])

variable {act : Act}

theorem step_cases {s t : Sys} (h : step s act = some t) : StepTo s act t := by
  cases act with
  | start c req =>
    simp only [step] at h
    split at h
    · rename_i hcall
      have hbefore : (s.calls c).bind Phase.returned = none := by rw [hcall]; rfl
      split at h
      · rename_i response hcheck
        cases h
        exact .quiet _ c _ hbefore (checkRequest_returned hcheck) (by simp) (by simp)
      · cases h
        exact .quiet _ c _ hbefore rfl (by simp) (by simp)
    · cases h
  | read c ok =>
    simp only [step] at h
    split at h
    · rename_i id d hcall
      cases h
      have hbefore : (s.calls c).bind Phase.returned = none := by rw [hcall]; rfl
      rcases afterRead_cases s.db id d ok with hafter | ⟨a, hget, hpending, hafter⟩
      · rw [hafter]
        exact .quiet _ c _ hbefore rfl (by simp) (by simp)
      · rw [hafter]
        exact .read c ok id d a hcall hget hpending
    · cases h
  | update c now ok =>
    simp only [step] at h
    split at h
    · rename_i id d a hcall
      cases ok with
      | true =>
        cases h
        exact .update c now id d a hcall
      | false =>
        cases h
        exact .quiet _ c _ (by rw [hcall]; rfl) rfl (by simp) (by simp)
    · cases h
  | emit c =>
    simp only [step] at h
    split at h
    · rename_i id d a hcall
      cases h
      exact .emit c id d a hcall
    · cases h
  | reread c ok =>
    simp only [step] at h
    split at h
    · rename_i id hcall
      cases h
      exact .quiet _ c _ (by rw [hcall]; rfl) (afterReread_returned s.db id ok) (by simp) (by simp)
    · cases h

/-- One decision for each approval, kept as it was returned, and one event for it. -/
structure OneDecision (s : Sys) : Prop where
  unique : ∀ c₁ c₂ a₁ a₂, Returned s c₁ a₁ → Returned s c₂ a₂ → a₁.id = a₂.id → c₁ = c₂
  kept : ∀ c a, Returned s c a → ∃ b, get s.db a.id = some b ∧
    b.1.status = a.status ∧ b.1.respondedBy = a.respondedBy ∧ b.1.reason = a.reason
  events : ∀ id, (s.emitted.filter (fun e => decide (e.2.approvalID = id))).length ≤ 1

def stillPending : Act → Bool
  | .update c _ true =>
      match s.calls c with
      | some (.updating id _ _) => (get s.db id).any (fun b => decide (b.1.status = .pending))
      | _ => true
  | _ => true

/-- A request about to write has a row; what was returned is a decision; events follow answers. -/
structure Held (s : Sys) : Prop where
  row : ∀ c id d a, s.calls c = some (.updating id d a) → ∃ b, get s.db id = some b ∧
    (b.1.status ≠ .pending → ∃ c' a', Returned s c' a' ∧ a'.id = id)
  final : ∀ c a, Returned s c a → a.status ≠ .pending
  answered : ∀ e ∈ s.emitted, ∃ a status, s.calls e.1 = some (.answered (.decided a status)) ∧
    e.2.approvalID = a.id

theorem setCall_self (s : Sys) (c : ℕ) (p : Phase) : (s.setCall c p).calls c = some p := by
  simp [Sys.setCall]

theorem setCall_of_ne (s : Sys) {c c' : ℕ} (p : Phase) (h : c' ≠ c) :
    (s.setCall c p).calls c' = s.calls c' := by
  simp [Sys.setCall, h]

theorem returned_setCall_iff {s : Sys} {c : ℕ} {p : Phase}
    (h : (s.calls c).bind Phase.returned = p.returned) (c' : ℕ) (a : ApprovalRequest) :
    Returned (s.setCall c p) c' a ↔ Returned s c' a := by
  unfold Returned
  by_cases hc : c' = c
  · rw [hc, setCall_self, h]
    rfl
  · rw [setCall_of_ne s p hc]

theorem Held.setCall {s : Sys} (hs : Held s) (c : ℕ) (p : Phase)
    (hbefore : (s.calls c).bind Phase.returned = none) (hafter : p.returned = none)
    (hrow : ∀ id d a, p = .updating id d a → ∃ b, get s.db id = some b ∧
      (b.1.status ≠ .pending → ∃ c' a', Returned s c' a' ∧ a'.id = id)) : Held (s.setCall c p) := by
  have hreturned := returned_setCall_iff (hbefore.trans hafter.symm)
  refine ⟨?_, ?_, ?_⟩
  · intro c' id d a hcall
    simp only [hreturned]
    by_cases hc : c' = c
    · rw [hc, setCall_self, Option.some.injEq] at hcall
      exact hrow id d a hcall
    · rw [setCall_of_ne s p hc] at hcall
      exact hs.row c' id d a hcall
  · intro c' a h
    exact hs.final c' a ((hreturned c' a).mp h)
  · intro e he
    obtain ⟨a, status, hcall, hid⟩ := hs.answered e he
    have hc : e.1 ≠ c := by
      intro hc
      rw [← hc, hcall] at hbefore
      cases hbefore
    exact ⟨a, status, by rw [setCall_of_ne s p hc, hcall], hid⟩

theorem OneDecision.setCall {s : Sys} (hs : OneDecision s) (c : ℕ) (p : Phase)
    (hbefore : (s.calls c).bind Phase.returned = none) (hafter : p.returned = none) :
    OneDecision (s.setCall c p) := by
  have hreturned := returned_setCall_iff (hbefore.trans hafter.symm)
  refine ⟨?_, ?_, hs.events⟩
  · intro c₁ c₂ a₁ a₂ h₁ h₂
    exact hs.unique c₁ c₂ a₁ a₂ ((hreturned c₁ a₁).mp h₁) ((hreturned c₂ a₂).mp h₂)
  · intro c' a h
    exact hs.kept c' a ((hreturned c' a).mp h)

section Update

variable (c : ℕ) (now : ℤ) (id : String) (d : Decision) (a : RequestOf id)

def updated : Sys :=
  { s.setCall c (.emitting id d (decided d now a)) with
    db := writeBody s.db (decided d now a) now }

variable {s c id d a}

theorem returned_updated_iff (hcall : s.calls c = some (.updating id d a)) (c' : ℕ)
    (a' : ApprovalRequest) :
    Returned (updated s c now id d a) c' a' ↔
      (c' = c ∧ a' = (decided d now a).1) ∨ Returned s c' a' := by
  have hcalls : (updated s c now id d a).calls =
      (s.setCall c (.emitting id d (decided d now a))).calls := rfl
  unfold Returned
  rw [hcalls]
  by_cases hc : c' = c
  · subst hc
    rw [setCall_self, hcall]
    simp [Phase.returned, eq_comm]
  · rw [setCall_of_ne s _ hc]
    simp [hc]

theorem held_updated (hs : Held s) (hcall : s.calls c = some (.updating id d a)) :
    Held (updated s c now id d a) := by
  have hreturned := returned_updated_iff now hcall
  have hself : Returned (updated s c now id d a) c (decided d now a).1 :=
    (hreturned c _).mpr (.inl ⟨rfl, rfl⟩)
  obtain ⟨old, hold, -⟩ := hs.row c id d a hcall
  refine ⟨?_, ?_, ?_⟩
  · intro c' id' d' a' hcall'
    have hc : c' ≠ c := by
      intro hc
      rw [hc] at hcall'
      have hemitting : (updated s c now id d a).calls c = some (.emitting id d (decided d now a)) :=
        setCall_self s c _
      rw [hemitting] at hcall'
      cases hcall'
    have hbefore : s.calls c' = some (.updating id' d' a') := by
      rw [← hcall']
      exact (setCall_of_ne s _ hc).symm
    by_cases hid : id' = id
    · subst hid
      exact ⟨decided d now a, get_writeBody_self _ old now hold,
        fun _ => ⟨c, _, hself, (decided d now a).2⟩⟩
    · obtain ⟨b, hb, hdecided⟩ := hs.row c' id' d' a' hbefore
      refine ⟨b, (get_writeBody_of_ne s.db _ now hid).trans hb, ?_⟩
      intro hne
      obtain ⟨c'', a'', hret, hid''⟩ := hdecided hne
      exact ⟨c'', a'', (hreturned c'' a'').mpr (.inr hret), hid''⟩
  · intro c' a' h
    rcases (hreturned c' a').mp h with ⟨-, rfl⟩ | hold'
    · exact target_ne_pending d
    · exact hs.final c' a' hold'
  · intro e he
    obtain ⟨a', status, hcall', hid⟩ := hs.answered e he
    have hc : e.1 ≠ c := by
      intro hc
      rw [hc, hcall] at hcall'
      cases hcall'
    exact ⟨a', status, (setCall_of_ne s _ hc).trans hcall', hid⟩

/-- The UPDATE keeps the rule exactly when the row is still pending. -/
theorem oneDecision_updated_iff (hs : Held s) (hone : OneDecision s)
    (hcall : s.calls c = some (.updating id d a)) :
    OneDecision (updated s c now id d a) ↔ ∃ b, get s.db id = some b ∧ b.1.status = .pending := by
  have hreturned := returned_updated_iff now hcall
  have hnot : ∀ a', ¬ Returned s c a' := by
    intro a' h
    unfold Returned at h
    rw [hcall] at h
    cases h
  obtain ⟨b, hb, hdecided⟩ := hs.row c id d a hcall
  constructor
  · intro hafter
    refine ⟨b, hb, ?_⟩
    by_contra hne
    obtain ⟨c', a', hret, hid⟩ := hdecided hne
    have hc : c = c' := hafter.unique c c' _ a' ((hreturned c _).mpr (.inl ⟨rfl, rfl⟩))
      ((hreturned c' a').mpr (.inr hret)) ((decided d now a).2.trans hid.symm)
    exact hnot a' (hc ▸ hret)
  · intro hstill
    obtain ⟨b', hb', hpending⟩ := hstill
    -- the row was pending, so no decision on this id had been returned
    have hother : ∀ c' a', Returned s c' a' → a'.id ≠ id := by
      intro c' a' hret hid
      subst hid
      obtain ⟨b'', hb'', hstatus, -⟩ := hone.kept c' a' hret
      rw [hb'] at hb''
      cases hb''
      exact hs.final c' a' hret (hstatus ▸ hpending)
    refine ⟨?_, ?_, hone.events⟩
    · intro c₁ c₂ a₁ a₂ h₁ h₂ hid
      rcases (hreturned c₁ a₁).mp h₁ with ⟨hc₁, ha₁⟩ | hold₁
      · rcases (hreturned c₂ a₂).mp h₂ with ⟨hc₂, -⟩ | hold₂
        · exact hc₁.trans hc₂.symm
        · rw [ha₁] at hid
          exact absurd (hid.symm.trans (decided d now a).2) (hother c₂ a₂ hold₂)
      · rcases (hreturned c₂ a₂).mp h₂ with ⟨-, ha₂⟩ | hold₂
        · rw [ha₂] at hid
          exact absurd (hid.trans (decided d now a).2) (hother c₁ a₁ hold₁)
        · exact hone.unique c₁ c₂ a₁ a₂ hold₁ hold₂ hid
    · intro c' a' h
      rcases (hreturned c' a').mp h with ⟨-, rfl⟩ | h
      · have hid : (decided d now a).1.id = id := (decided d now a).2
        obtain ⟨r, hr, hbody⟩ := (get_eq_some_iff _ _ _).mp
          (get_writeBody_self (decided d now a) b now hb)
        refine ⟨⟨(decided d now a).1, rfl⟩, (get_eq_some_iff _ _ _).mpr ⟨r, ?_, hbody⟩,
          rfl, rfl, rfl⟩
        rw [hid]
        exact hr
      · obtain ⟨b'', hb'', hsame⟩ := hone.kept c' a' h
        exact ⟨b'', (get_writeBody_of_ne s.db _ now (hother c' a' h)).trans hb'', hsame⟩

end Update

section Emit

variable (c : ℕ) (id : String) (d : Decision) (a : RequestOf id)

def emittedBy : Sys :=
  { s.setCall c (.answered (.decided a.1 d.target.text)) with
    emitted := s.emitted ++ [(c, decisionEvent d a.1)] }

variable {s c id d a}

theorem returned_emittedBy_iff (hcall : s.calls c = some (.emitting id d a)) (c' : ℕ)
    (a' : ApprovalRequest) : Returned (emittedBy s c id d a) c' a' ↔ Returned s c' a' :=
  returned_setCall_iff (by rw [hcall]; rfl) c' a'

theorem held_emittedBy (hs : Held s) (hcall : s.calls c = some (.emitting id d a)) :
    Held (emittedBy s c id d a) := by
  have hreturned := returned_emittedBy_iff hcall
  have hself : (emittedBy s c id d a).calls c = some (.answered (.decided a.1 d.target.text)) :=
    setCall_self s c _
  refine ⟨?_, ?_, ?_⟩
  · intro c' id' d' a' hcall'
    have hc : c' ≠ c := by
      intro hc
      rw [hc, hself] at hcall'
      cases hcall'
    simp only [hreturned]
    exact hs.row c' id' d' a' ((setCall_of_ne s _ hc).symm.trans hcall')
  · intro c' a' h
    exact hs.final c' a' ((hreturned c' a').mp h)
  · intro e he
    rcases mem_append.mp he with hold | hnew
    · obtain ⟨a', status, hcall', hid⟩ := hs.answered e hold
      have hc : e.1 ≠ c := by
        intro hc
        rw [hc, hcall] at hcall'
        cases hcall'
      exact ⟨a', status, (setCall_of_ne s _ hc).trans hcall', hid⟩
    · rw [mem_singleton.mp hnew]
      exact ⟨a.1, d.target.text, hself, rfl⟩

theorem oneDecision_emittedBy (hs : Held s) (hone : OneDecision s)
    (hcall : s.calls c = some (.emitting id d a)) : OneDecision (emittedBy s c id d a) := by
  have hreturned := returned_emittedBy_iff hcall
  refine ⟨?_, ?_, ?_⟩
  · intro c₁ c₂ a₁ a₂ h₁ h₂
    exact hone.unique c₁ c₂ a₁ a₂ ((hreturned c₁ a₁).mp h₁) ((hreturned c₂ a₂).mp h₂)
  · intro c' a' h
    exact hone.kept c' a' ((hreturned c' a').mp h)
  · intro id'
    have hlist : (emittedBy s c id d a).emitted = s.emitted ++ [(c, decisionEvent d a.1)] := rfl
    rw [hlist, filter_append, length_append]
    by_cases hid : a.1.id = id'
    · -- an earlier event on this approval would come from another decided request
      have hnone : s.emitted.filter (fun e => decide (e.2.approvalID = id')) = [] := by
        rw [filter_eq_nil_iff]
        intro e he heq
        obtain ⟨a', status, hcall', hid'⟩ := hs.answered e he
        have hret : Returned s e.1 a' := by
          unfold Returned
          rw [hcall']
          rfl
        have hown : Returned s c a.1 := by
          unfold Returned
          rw [hcall]
          rfl
        have hc := hone.unique e.1 c a' a.1 hret hown
          (hid'.symm.trans ((of_decide_eq_true heq).trans hid.symm))
        rw [hc, hcall] at hcall'
        cases hcall'
      rw [hnone, length_nil, Nat.zero_add]
      exact length_filter_le _ _
    · have hlast : [(c, decisionEvent d a.1)].filter
          (fun e => decide (e.2.approvalID = id')) = [] := by
        simp [decisionEvent, hid]
      rw [hlast, length_nil, Nat.add_zero]
      exact hone.events id'

end Emit

theorem not_returned_init (c : ℕ) (a : ApprovalRequest) : ¬ Returned (init db) c a := by
  simp [Returned, init]

theorem held_init : Held (init db) where
  row c id d a h := by simp [init] at h
  final c a h := absurd h (not_returned_init db c a)
  answered e he := absurd he not_mem_nil

theorem oneDecision_init : OneDecision (init db) where
  unique c₁ _ a₁ _ h₁ := absurd h₁ (not_returned_init db c₁ a₁)
  kept c a h := absurd h (not_returned_init db c a)
  events _ := Nat.zero_le 1

theorem held_step {s t : Sys} (hs : Held s) (h : step s act = some t) : Held t := by
  cases step_cases h with
  | quiet _ c p hbefore hafter hidle hact =>
    exact hs.setCall c p hbefore hafter (fun id d a hp => absurd hp (hidle id d a))
  | read c ok id d a hcall hget hpending =>
    refine hs.setCall c _ (by rw [hcall]; rfl) rfl ?_
    intro id' d' a' hp
    cases hp
    exact ⟨a, hget, fun hne => absurd hpending hne⟩
  | update c now id d a hcall => exact held_updated now hs hcall
  | emit c id d a hcall => exact held_emittedBy hs hcall

theorem held_run (acts : List Act) {s : Sys} (h : run step (init db) acts = some s) : Held s :=
  invariant step Held (held_init db) (fun _ _ _ hs h => held_step hs h) h

theorem oneDecision_step_iff {s t : Sys} (hs : Held s) (hone : OneDecision s)
    (h : step s act = some t) : OneDecision t ↔ stillPending s act = true := by
  cases step_cases h with
  | quiet _ c p hbefore hafter hidle hact =>
    refine iff_of_true (hone.setCall c p hbefore hafter) ?_
    unfold stillPending
    split
    · rename_i c' now
      exact absurd rfl (hact c' now)
    · rfl
  | read c ok id d a hcall hget hpending =>
    exact iff_of_true (hone.setCall c _ (by rw [hcall]; rfl) rfl) rfl
  | update c now id d a hcall =>
    refine (oneDecision_updated_iff now hs hone hcall).trans ?_
    simp only [stillPending, hcall, Option.any_eq_true, decide_eq_true_eq]
  | emit c id d a hcall => exact iff_of_true (oneDecision_emittedBy hs hone hcall) rfl

/-- Approvals are decided once and for good exactly when every UPDATE finds its row still pending.
-/
theorem one_decision_iff_still_pending (db : DB) (acts : List Act) (s : Sys)
    (h : run step (init db) acts = some s) :
    Along step OneDecision (init db) acts ↔
      Meets step (fun s act => stillPending s act = true) (init db) acts :=
  along_iff_meets step _ OneDecision Held (s := init db) (oneDecision_init db) (held_run db)
    (fun _ _ _ hs hone h => oneDecision_step_iff hs hone h) s h

def oneRequest : DB :=
  create Table.empty ⟨"a1", "recipe", "step", "send the mail", .high, .pending, "tenant", "ws", 1,
    none, "", ""⟩ 1

def oneAfterTheOther : List Act :=
  [.start 0 (.approve "a1" "ann"), .read 0 true, .update 0 2 true, .emit 0,
    .start 1 (.deny "a1" (some ("bob", "no"))), .read 1 true, .reread 1 true]

theorem one_decision_one_after_the_other :
    (∃ s, run step (init oneRequest) oneAfterTheOther = some s ∧ s.emitted.length = 1 ∧
      s.calls 1 = some (.answered (.badRequest "approval is not in pending state"))) ∧
      Along step OneDecision (init oneRequest) oneAfterTheOther := by
  obtain ⟨s, hrun, hend⟩ := exists_run_of_check step (fun s : Sys => s.emitted.length = 1 ∧
    s.calls 1 = some (.answered (.badRequest "approval is not in pending state")))
    (init oneRequest) oneAfterTheOther (by decide)
  refine ⟨⟨s, hrun, hend⟩, ?_⟩
  rw [one_decision_iff_still_pending oneRequest oneAfterTheOther s hrun]
  exact meets_of_checkMeets step _ _ _ (by decide)

def bothReadFirst : List Act :=
  [.start 0 (.approve "a1" "ann"), .start 1 (.deny "a1" (some ("bob", "no"))), .read 0 true,
    .read 1 true, .update 0 2 true, .emit 0, .update 1 3 true, .emit 1]

theorem approval_decided_twice :
    ∃ s, run step (init oneRequest) bothReadFirst = some s ∧
      ((s.calls 0).bind Phase.returned).map ApprovalRequest.status = some .approved ∧
      ((s.calls 1).bind Phase.returned).map ApprovalRequest.status = some .denied ∧
      (get s.db "a1").map (fun a => a.1.respondedBy) = some "bob" ∧ s.emitted.length = 2 ∧
      ¬ OneDecision s := by
  obtain ⟨s, hrun, hfirst, hsecond, hstored, hevents, hids⟩ := exists_run_of_check step
    (fun s : Sys => ((s.calls 0).bind Phase.returned).map ApprovalRequest.status = some .approved ∧
      ((s.calls 1).bind Phase.returned).map ApprovalRequest.status = some .denied ∧
      (get s.db "a1").map (fun a => a.1.respondedBy) = some "bob" ∧ s.emitted.length = 2 ∧
      (s.emitted.filter (fun e => decide (e.2.approvalID = "a1"))).length = 2)
    (init oneRequest) bothReadFirst (by decide)
  refine ⟨s, hrun, hfirst, hsecond, hstored, hevents, ?_⟩
  intro hone
  have hle := hone.events "a1"
  omega

end IronGolem.ApprovalDecisions
