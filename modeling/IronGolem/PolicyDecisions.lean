import IronGolem.PolicyMiddleware

/-!
What the engine's answer says about its layers, and what the middleware makes of it.
The engine tells a denial from everything else and nothing more, so its answer is
sound exactly when some layer refuses or every layer allows. The middleware has a
branch for audited actions that the engine never takes it to.
-/
namespace IronGolem.PolicyDecisions

open PolicyLayers PolicyMiddleware List

def refuses (req : EvalRequest) (lc : LayerChecker) : Bool :=
  (lc.check req).err.isSome || (lc.check req).decision == decisionDeny

theorem not_refuses_iff (req : EvalRequest) (lc : LayerChecker) :
    refuses req lc = false ↔ (lc.check req).err = none ∧
      (lc.check req).decision ≠ decisionDeny := by
  unfold refuses
  rw [Bool.or_eq_false_iff, Option.isSome_eq_false_iff, Option.isNone_iff_eq_none,
    beq_eq_false_iff_ne]

def refusal (req : EvalRequest) (lc : LayerChecker) : EvalResult × Option String :=
  match (lc.check req).err with
  | some err => (⟨decisionDeny, lc.layer, "layer error: " ++ err⟩, some err)
  | none => (⟨decisionDeny, lc.layer, (lc.check req).reason⟩, none)

def pass : EvalResult × Option String :=
  (⟨decisionAllow, .adminControls, "all layers passed"⟩, none)

variable (layers : List LayerChecker) (req : EvalRequest)

theorem evaluate_eq :
    evaluate layers req =
      match layers.find? (refuses req) with
      | some lc => refusal req lc
      | none => pass := by
  induction layers with
  | nil => rfl
  | cons lc rest ih =>
    unfold evaluate
    cases herr : (lc.check req).err with
    | some err =>
      have hrefuses : refuses req lc = true := by simp [refuses, herr]
      simp [hrefuses, refusal, herr]
    | none =>
      by_cases hdeny : (lc.check req).decision = decisionDeny
      · have hrefuses : refuses req lc = true := by simp [refuses, hdeny]
        simp [hrefuses, refusal, herr, hdeny]
      · have hpass : refuses req lc = false := (not_refuses_iff req lc).mpr ⟨herr, hdeny⟩
        simp [hpass, hdeny, ih]

theorem refusal_decision (lc : LayerChecker) :
    (refusal req lc).1.decision = decisionDeny ∧ (refusal req lc).1.layer = lc.layer := by
  unfold refusal
  split <;> exact ⟨rfl, rfl⟩

theorem evaluate_of_refuses (h : ∃ lc ∈ layers, refuses req lc = true) :
    (evaluate layers req).1.decision = decisionDeny := by
  rw [evaluate_eq]
  cases hfind : layers.find? (refuses req) with
  | some lc => exact (refusal_decision req lc).1
  | none =>
    obtain ⟨lc, hlc, hrefuses⟩ := h
    exact absurd hrefuses (find?_eq_none.mp hfind lc hlc)

theorem evaluate_of_not_refuses (h : ∀ lc ∈ layers, refuses req lc = false) : evaluate layers req =
    pass := by
  have hnone : layers.find? (refuses req) = none := by
    rw [find?_eq_none]
    intro lc hlc
    simp [h lc hlc]
  rw [evaluate_eq, hnone]

/-- What an answer of the engine is meant to say about its layers. -/
structure Sound (layers : List LayerChecker) (req : EvalRequest) (result : EvalResult) : Prop where
  deny_first : ∀ lc, layers.find? (refuses req) = some lc →
    result.decision = decisionDeny ∧ result.layer = lc.layer
  audit : (∀ lc ∈ layers, refuses req lc = false) →
    (∃ lc ∈ layers, (lc.check req).decision = decisionAudit) → result.decision = decisionAudit
  allow_exact : result.decision = decisionAllow →
    ∀ lc ∈ layers, (lc.check req).err = none ∧ (lc.check req).decision = decisionAllow

theorem sound_of_refuses (h : ∃ lc ∈ layers, refuses req lc = true) : Sound layers req
    (evaluate layers req).1 := by
  obtain ⟨lc, hlc, hrefuses⟩ := h
  have hdeny := evaluate_of_refuses layers req ⟨lc, hlc, hrefuses⟩
  refine ⟨?_, ?_, ?_⟩
  · intro first hfirst
    rw [evaluate_eq, hfirst]
    exact refusal_decision req first
  · intro hnone
    rw [hnone lc hlc] at hrefuses
    cases hrefuses
  · intro hallow
    rw [hdeny] at hallow
    exact absurd hallow (by decide)

/-- The engine's answer is sound exactly when a layer refuses or all of them allow. -/
theorem sound_iff :
    Sound layers req (evaluate layers req).1 ↔
      (∃ lc ∈ layers, (lc.check req).err ≠ none ∨ (lc.check req).decision = decisionDeny) ∨
      ∀ lc ∈ layers, (lc.check req).decision = decisionAllow := by
  by_cases hrefuses : ∃ lc ∈ layers, refuses req lc = true
  · have hsome : ∃ lc ∈ layers,
        (lc.check req).err ≠ none ∨ (lc.check req).decision = decisionDeny := by
      obtain ⟨lc, hlc, h⟩ := hrefuses
      refine ⟨lc, hlc, ?_⟩
      by_contra hno
      rw [not_or, not_not] at hno
      rw [(not_refuses_iff req lc).mpr hno] at h
      cases h
    exact iff_of_true (sound_of_refuses layers req hrefuses) (.inl hsome)
  · have hnone : ∀ lc ∈ layers, refuses req lc = false := by
      intro lc hlc
      by_contra h
      exact hrefuses ⟨lc, hlc, by simpa using h⟩
    have hpass := evaluate_of_not_refuses layers req hnone
    constructor
    · intro h
      exact .inr fun lc hlc => (h.allow_exact (by rw [hpass]; rfl) lc hlc).2
    · rintro (⟨lc, hlc, h⟩ | hallow)
      · have hno := (not_refuses_iff req lc).mp (hnone lc hlc)
        rcases h with herr | hdeny
        · exact absurd hno.1 herr
        · exact absurd hdeny hno.2
      · refine ⟨?_, ?_, ?_⟩
        · intro lc hfind
          have := hnone lc (mem_of_find?_eq_some hfind)
          rw [find?_some hfind] at this
          cases this
        · rintro - ⟨lc, hlc, haudit⟩
          rw [hallow lc hlc] at haudit
          exact absurd haudit (by decide)
        · exact fun _ lc hlc => ⟨((not_refuses_iff req lc).mp (hnone lc hlc)).1, hallow lc hlc⟩

theorem evaluate_decision :
    (evaluate layers req).1.decision = decisionDeny ∨
      (evaluate layers req).1.decision = decisionAllow := by
  rw [evaluate_eq]
  cases layers.find? (refuses req) with
  | some lc => exact .inl (refusal_decision req lc).1
  | none => exact .inr rfl

variable (emitter : Bool) (who : Identity) (perm : Permission) {result : EvalResult}
    (next : List Effect)

theorem answer_of_deny (h : result.decision = decisionDeny) {e : Effect}
    (he : e ∈ answer emitter who perm result next) :
    (∃ evt, e = .appendEvent evt) ∨ ∃ body, e = .respondDenied 403 body := by
  unfold answer at he
  rw [if_pos h, mem_append] at he
  rcases he with he | he
  · cases emitter with
    | false => simp at he
    | true => exact .inl ⟨_, by simpa using he⟩
  · exact .inr ⟨_, by simpa using he⟩

theorem answer_of_allow (h : result.decision = decisionAllow) :
    answer emitter who perm result next = next := by
  unfold answer
  rw [h, if_neg (by decide), if_neg (by decide)]

/-- The handler runs exactly when no layer refuses; no approval answer is given. -/
theorem gateway_evaluate {req : Request} {perm : Permission} (h : resolve req = some perm) :
    (.handle (mux req) ∈ gateway (evaluate layers) emitter who req ↔
      ∀ lc ∈ layers, refuses (evalRequest who perm) lc = false) ∧
    ∀ status body, .respondApproval status body ∉ gateway (evaluate layers) emitter who req := by
  obtain ⟨logs, hlogs, htrace⟩ := gateway_of_resolve_some (evaluate layers) emitter who h
  have hnotlog : ∀ e ∈ logs, e ≠ .handle (mux req) ∧ ∀ status body,
      e ≠ .respondApproval status body := by
    intro e he
    rcases hlogs e he with ⟨err, key, tenant, rfl⟩ | ⟨result, evalReq, rfl⟩ <;> simp
  have hmem : ∀ e, e ∈ gateway (evaluate layers) emitter who req → e ∉ logs →
      e ≠ .evaluate (evalRequest who perm) →
      e ∈ answer emitter who perm (evaluate layers (evalRequest who perm)).1
        [.handle (mux req)] := by
    intro e he hlog hne
    rw [htrace, cons_append, mem_cons, mem_append] at he
    tauto
  constructor
  · constructor
    · intro hhandle lc hlc
      by_contra hrefuses
      have hdeny := evaluate_of_refuses layers (evalRequest who perm)
        ⟨lc, hlc, by simpa using hrefuses⟩
      have hin := hmem _ hhandle (fun hlog => (hnotlog _ hlog).1 rfl) (by simp)
      rcases answer_of_deny emitter who perm _ hdeny hin with ⟨_, h⟩ | ⟨_, h⟩ <;> cases h
    · intro hnone
      have hallow := evaluate_of_not_refuses layers _ hnone
      rw [htrace, hallow, answer_of_allow emitter who perm _ rfl]
      simp
  · intro status body hin
    have hin := hmem _ hin (fun hlog => (hnotlog _ hlog).2 _ _ rfl) (by simp)
    rcases evaluate_decision layers (evalRequest who perm) with hdeny | hallow
    · rcases answer_of_deny emitter who perm _ hdeny hin with ⟨_, h⟩ | ⟨_, h⟩ <;> cases h
    · rw [answer_of_allow emitter who perm _ hallow] at hin
      simp at hin

def otherLayers : List LayerChecker :=
  [gatewayIdentityChecker, globalToolPolicyChecker, perAgentPermissionChecker, adminControlsChecker]

theorem defaultLayers_refuse_iff (env : String) {db : ChannelPolicies} {req : EvalRequest}
    {d : Decision} (hd : d ≠ decisionDeny) (hchannel : req.channelID ≠ "")
    (hrule : HasRule db req.channelID req.permission.action d) :
    (∀ lc ∈ defaultLayers env (some (db.toStore none none)), refuses req lc = false) ↔
      ∀ lc ∈ otherLayers, refuses req lc = false := by
  have hanswer := perChannel_check_of_hasRule env hchannel hrule
  have hpass : refuses req (perChannelRestrictionChecker env (some (db.toStore none none))) =
    false :=
    (not_refuses_iff req _).mpr ⟨hanswer.2, by rw [hanswer.1]; exact hd⟩
  simp [defaultLayers, otherLayers, hpass]

/-- The answer is sound exactly when some layer denies or fails or every layer allows; a request
with an audit rule never gets the approval response. -/
theorem policy_decisions_iff (layers : List LayerChecker) (evalReq : EvalRequest) (env : String)
    (db : ChannelPolicies) (emitter : Bool) (who : Identity) (req : Request) (perm : Permission) :
    (Sound layers evalReq (evaluate layers evalReq).1 ↔
      (∃ lc ∈ layers, (lc.check evalReq).err ≠ none ∨
        (lc.check evalReq).decision = decisionDeny) ∨
      ∀ lc ∈ layers, (lc.check evalReq).decision = decisionAllow) ∧
    (resolve req = some perm → who.channelID ≠ "" →
      HasRule db who.channelID perm.action decisionAudit →
      let trace := gateway (evaluate (defaultLayers env (some (db.toStore none none)))) emitter who
        req
      (∀ status body, .respondApproval status body ∉ trace) ∧
      (.handle (mux req) ∈ trace ↔
        ∀ lc ∈ otherLayers, refuses (evalRequest who perm) lc = false)) := by
  refine ⟨sound_iff layers evalReq, ?_⟩
  intro hperm hchannel hrule
  have hgateway := gateway_evaluate (defaultLayers env (some (db.toStore none none))) emitter who
    hperm
  refine ⟨hgateway.2, hgateway.1.trans ?_⟩
  exact defaultLayers_refuse_iff env (by decide) hchannel hrule

def auditRule : ChannelRule := ⟨"telegram", "execute", decisionAudit, "review squad runs"⟩

def auditedChannel : ChannelPolicies :=
  ⟨ChannelPolicies.upsertRow [] auditRule, ChannelPolicies.upsertRow_nodup [] auditRule (by simp)⟩

def squadRun : Request := (v1 "POST" [.lit "squads", .id, .lit "run"]).request "POST" "s-1"

def telegramUser : Identity := ⟨"default", "u-1", "", "telegram"⟩

theorem resolve_squadRun : resolve squadRun = some ⟨"squad.run", "execute"⟩ := by
  decide

theorem hasRule_auditedChannel : HasRule auditedChannel "telegram" "execute" decisionAudit :=
  hasRule_upsert ChannelPolicies.empty auditedChannel auditRule rfl

theorem audit_rule_runs_handler :
    .handle (mux squadRun) ∈ gateway
      (evaluate (defaultLayers "" (some (auditedChannel.toStore none none)))) true telegramUser
      squadRun := by
  have hdecisions := policy_decisions_iff [] (evalRequest telegramUser ⟨"squad.run", "execute"⟩)
    "" auditedChannel true telegramUser squadRun ⟨"squad.run", "execute"⟩
  apply (hdecisions.2 resolve_squadRun (by decide) hasRule_auditedChannel).2.mpr
  decide

/-- With an audit rule and every other layer passing, the handler runs. -/
theorem audit_rule_evaluates_to_allow :
    evaluate (defaultLayers "" (some (auditedChannel.toStore none none)))
      (evalRequest telegramUser ⟨"squad.run", "execute"⟩) =
        (⟨decisionAllow, .adminControls, "all layers passed"⟩, none) ∧
    gateway (evaluate (defaultLayers "" (some (auditedChannel.toStore none none)))) true
      telegramUser squadRun =
        [.evaluate (evalRequest telegramUser ⟨"squad.run", "execute"⟩),
         .logDecision ⟨decisionAllow, .adminControls, "all layers passed"⟩
           (evalRequest telegramUser ⟨"squad.run", "execute"⟩),
         .handle (some (v1 "POST" [.lit "squads", .id, .lit "run"]))] := by
  decide

end IronGolem.PolicyDecisions
