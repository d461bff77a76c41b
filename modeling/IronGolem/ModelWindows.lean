import IronGolem.CommitmentExtraction

/-!
The windows of what a model proposes. A batch of proposals is judged one by one: those that pass
the checks stay, in their order, and no proposal has a say in what becomes of another. The offsets
are minutes of 64 bits, and turning them into milliseconds wraps.
-/
namespace IronGolem.ModelWindows

open CommitmentStore CommitmentRuntime CommitmentExtraction MachineIntegers List

/-- The start that a proposal asks for, over the integers and never before the lead time. -/
def askedEarliest (now : ℤ) (rc : LlmCandidate) : ℤ :=
  max (now + rc.dueInEarliestMinutes * minuteMs) (now + minLeadTimeMs)

structure SaneWindow (now : ℤ) (rc : LlmCandidate) (w : DueWindow) : Prop where
  lead : now + minLeadTimeMs ≤ w.earliestMs
  ordered : w.earliestMs < w.latestMs
  exact_of_pos : 0 < rc.dueInEarliestMinutes → w.earliestMs = askedEarliest now rc

/-- The candidate says what the proposal says. -/
structure SameWords (rc : LlmCandidate) (c : Candidate) : Prop where
  kind : c.kind = kindOfText rc.kind
  sensitivity : c.sensitivity = sensitivityOfText rc.sensitivity
  reason : c.reason = rc.reason
  suggestedText : c.suggestedText = rc.suggestedText
  confidence : c.confidence = rc.confidence

/-- The results are those of some proposals in order, with sane windows, and independent. -/
structure SaneBatch (digest : String → String) (turn : Turn) (now : ℤ)
    (raw : List LlmCandidate) : Prop where
  survivors : ∃ kept : List LlmCandidate, kept.Sublist raw ∧
    List.Forall₂ (fun rc c => SameWords rc c ∧ SaneWindow now rc c.dueWindow) kept
      (validateLlmCandidates digest raw turn now)
  apart : ∀ pre rc post, raw = pre ++ rc :: post → ∃ before after,
    validateLlmCandidates digest (pre ++ post) turn now = before ++ after ∧
      ∀ rc', validateLlmCandidates digest (pre ++ rc' :: post) turn now =
        before ++ validateLlmCandidates digest [rc'] turn now ++ after

/-- The default span after the start is in range, or the wrapped end comes after the start. -/
def FitsRange (now : ℤ) (rc : LlmCandidate) : Prop :=
  rc.dueInEarliestMinutes ≤ 0 ∨ askedEarliest now rc + defaultDueWindowSpanMs < 2 ^ 63 ∨
    (0 < rc.dueInLatestMinutes ∧
      askedEarliest now rc < (now + rc.dueInLatestMinutes * minuteMs) % 2 ^ 64 ∧
      (now + rc.dueInLatestMinutes * minuteMs) % 2 ^ 64 < 2 ^ 63)

instance (now : ℤ) (rc : LlmCandidate) : Decidable (FitsRange now rc) := by
  unfold FitsRange
  infer_instance

section

variable (now : ℤ) (hnow : 0 ≤ now) (hbound : now ≤ 2 ^ 53) (rc : LlmCandidate)

theorem earliest_lt : rc.earliest now < 2 ^ 63 := by
  rw [LlmCandidate.earliest_eq]
  split <;> exact wrap_lt _

include hnow hbound

omit rc in
theorem wrap_lead : wrap (now + minLeadTimeMs) = now + minLeadTimeMs := by
  unfold minLeadTimeMs minuteMs
  exact wrap_of_range (by omega) (by omega)

theorem lead_le_earliest : now + minLeadTimeMs ≤ rc.earliest now := by
  rw [LlmCandidate.earliest_eq, wrap_lead now hnow hbound]
  split <;> omega

theorem earliest_of_nonpos (hpos : rc.dueInEarliestMinutes ≤ 0) :
    rc.earliest now = now + minLeadTimeMs := by
  rw [LlmCandidate.earliest_eq, if_pos (.inl hpos), wrap_lead now hnow hbound]

theorem earliest_eq_asked_iff (hpos : 0 < rc.dueInEarliestMinutes) :
    rc.earliest now = askedEarliest now rc ↔ askedEarliest now rc < 2 ^ 63 := by
  constructor
  · intro h
    rw [← h]
    exact earliest_lt now rc
  · intro h
    unfold askedEarliest minLeadTimeMs minuteMs at h ⊢
    have hasked : wrap (now + rc.dueInEarliestMinutes * 60000) =
        now + rc.dueInEarliestMinutes * 60000 := by
      apply wrap_of_range <;> omega
    have hlead : wrap (now + 5 * 60000) = now + 5 * 60000 := by
      apply wrap_of_range <;> omega
    rw [LlmCandidate.earliest_eq]
    unfold minLeadTimeMs minuteMs
    split <;> omega

omit hnow hbound in
theorem earliest_lt_latest_iff (hlow : 0 ≤ rc.earliest now) :
    rc.earliest now < rc.latest now ↔
      rc.earliest now + defaultDueWindowSpanMs < 2 ^ 63 ∨
        (0 < rc.dueInLatestMinutes ∧
          rc.earliest now < (now + rc.dueInLatestMinutes * minuteMs) % 2 ^ 64 ∧
          (now + rc.dueInLatestMinutes * minuteMs) % 2 ^ 64 < 2 ^ 63) := by
  have hhigh := earliest_lt now rc
  rw [LlmCandidate.latest_eq]
  generalize rc.earliest now = start at hlow hhigh ⊢
  generalize rc.dueInLatestMinutes = minutes
  unfold defaultDueWindowSpanMs minuteMs
  have hend := wrap_eq (now + minutes * 60000)
  have hspan := wrap_eq (start + 12 * 60 * 60000)
  split <;> omega

theorem saneWindow_iff :
    SaneWindow now rc ⟨rc.earliest now, rc.latest now, ""⟩ ↔ FitsRange now rc := by
  have hlead := lead_le_earliest now hnow hbound rc
  have hlow : 0 ≤ rc.earliest now := by
    unfold minLeadTimeMs minuteMs at hlead
    omega
  have hordered := earliest_lt_latest_iff now rc hlow
  by_cases hpos : 0 < rc.dueInEarliestMinutes
  · have hexact := earliest_eq_asked_iff now hnow hbound rc hpos
    constructor
    · intro h
      right
      have heq := h.exact_of_pos hpos
      rw [← heq]
      exact hordered.mp h.ordered
    · intro h
      have hrange : askedEarliest now rc < 2 ^ 63 := by
        unfold FitsRange defaultDueWindowSpanMs minuteMs at h
        omega
      have heq := hexact.mpr hrange
      refine ⟨hlead, ?_, fun _ => heq⟩
      apply hordered.mpr
      rw [heq]
      exact h.resolve_left (by omega)
  · have heq := earliest_of_nonpos now hnow hbound rc (by omega)
    have hspan : rc.earliest now + defaultDueWindowSpanMs < 2 ^ 63 := by
      rw [heq]
      unfold minLeadTimeMs defaultDueWindowSpanMs minuteMs
      omega
    constructor
    · intro _
      left
      omega
    · intro _
      exact ⟨hlead, hordered.mpr (.inl hspan), fun h => absurd h hpos⟩

end

section

variable (digest : String → String) (turn : Turn) (now : ℤ)

theorem sameWords_candidateOf (rc : LlmCandidate) : SameWords rc (candidateOf digest turn now rc) :=
  ⟨rfl, rfl, rfl, rfl, rfl⟩

theorem passes_of_sameWords {rc rc' : LlmCandidate}
    (h : SameWords rc (candidateOf digest turn now rc')) (hpass : rc'.passes = true) :
    rc.passes = true := by
  have hkind : kindOfText rc'.kind = kindOfText rc.kind := h.kind
  have hsensitivity : sensitivityOfText rc'.sensitivity = sensitivityOfText rc.sensitivity :=
    h.sensitivity
  have hreason : rc'.reason = rc.reason := h.reason
  have htext : rc'.suggestedText = rc.suggestedText := h.suggestedText
  have hconfidence : rc'.confidence = rc.confidence := h.confidence
  unfold LlmCandidate.passes LlmCandidate.threshold at hpass ⊢
  rw [hkind, hsensitivity, hreason, htext, hconfidence] at hpass
  exact hpass

theorem kept_eq_filter {raw kept : List LlmCandidate} (hsub : kept.Sublist raw)
    (hwords : List.Forall₂ SameWords kept (validateLlmCandidates digest raw turn now)) :
    kept = raw.filter LlmCandidate.passes := by
  rw [validateLlmCandidates_eq, forall₂_map_right_iff] at hwords
  have hpass : ∀ rc ∈ kept, rc.passes = true := by
    intro rc hrc
    obtain ⟨i, hi, rfl⟩ := mem_iff_getElem.mp hrc
    have hi' : i < (raw.filter LlmCandidate.passes).length := hwords.length_eq ▸ hi
    have hmem := (mem_filter.mp (getElem_mem hi')).2
    exact passes_of_sameWords digest turn now (hwords.get hi hi') hmem
  have hsub' := hsub.filter LlmCandidate.passes
  rw [filter_eq_self.mpr hpass] at hsub'
  exact hsub'.eq_of_length hwords.length_eq

theorem survivors_iff (raw : List LlmCandidate) :
    (∃ kept : List LlmCandidate, kept.Sublist raw ∧
      List.Forall₂ (fun rc c => SameWords rc c ∧ SaneWindow now rc c.dueWindow) kept
        (validateLlmCandidates digest raw turn now)) ↔
      ∀ rc ∈ raw, rc.passes = true → SaneWindow now rc ⟨rc.earliest now, rc.latest now, ""⟩ := by
  constructor
  · intro h rc hrc hpass
    obtain ⟨kept, hsub, hkept⟩ := h
    have heq := kept_eq_filter digest turn now hsub (hkept.imp fun _ _ h => h.1)
    rw [heq, validateLlmCandidates_eq, forall₂_map_right_iff, forall₂_same] at hkept
    exact (hkept rc (mem_filter.mpr ⟨hrc, hpass⟩)).2
  · intro h
    refine ⟨raw.filter LlmCandidate.passes, filter_sublist, ?_⟩
    rw [validateLlmCandidates_eq, forall₂_map_right_iff, forall₂_same]
    intro rc hrc
    obtain ⟨hmem, hpass⟩ := mem_filter.mp hrc
    exact ⟨sameWords_candidateOf digest turn now rc, h rc hmem hpass⟩

theorem validateLlmCandidates_apart (pre post : List LlmCandidate) :
    ∃ before after,
      validateLlmCandidates digest (pre ++ post) turn now = before ++ after ∧
        ∀ rc, validateLlmCandidates digest (pre ++ rc :: post) turn now =
          before ++ validateLlmCandidates digest [rc] turn now ++ after := by
  refine ⟨validateLlmCandidates digest pre turn now, validateLlmCandidates digest post turn now,
    ?_, ?_⟩
  · rw [validateLlmCandidates_eq, validateLlmCandidates_eq, validateLlmCandidates_eq,
      filter_append, map_append]
  · intro rc
    have hsplit : pre ++ rc :: post = pre ++ [rc] ++ post := by simp
    rw [hsplit]
    simp only [validateLlmCandidates_eq, filter_append, map_append]

end

/-- A batch is sane exactly if every proposal that passes has a window within 64 bits. -/
theorem saneBatch_iff_fitsRange (digest : String → String) (turn : Turn) (now : ℤ)
    (hnow : 0 ≤ now) (hbound : now ≤ 2 ^ 53) (raw : List LlmCandidate) :
    SaneBatch digest turn now raw ↔ ∀ rc ∈ raw, rc.passes = true → FitsRange now rc := by
  have hwindow := fun rc => saneWindow_iff now hnow hbound rc
  constructor
  · intro h rc hrc hpass
    exact (hwindow rc).mp ((survivors_iff digest turn now raw).mp h.survivors rc hrc hpass)
  · intro h
    refine ⟨?_, fun pre _ post _ => validateLlmCandidates_apart digest turn now pre post⟩
    apply (survivors_iff digest turn now raw).mpr
    intro rc hrc hpass
    exact (hwindow rc).mpr (h rc hrc hpass)

def aTurn : Turn := ⟨"w", "t", "e", "c", "ch", "u"⟩

def proposal (earliest latest : ℤ) : LlmCandidate :=
  ⟨"open_loop", "routine", "asked about the interview", "How did it go?", 1, "", earliest, latest⟩

theorem interview_batch_sane :
    SaneBatch id aTurn 1700000000000 [proposal 60 720, proposal (-1) 0] :=
  (saneBatch_iff_fitsRange id aTurn 1700000000000 (by decide) (by decide) _).mpr (by decide +kernel)

/-- An offset of some 292 million years is taken for the shortest lead time. -/
theorem far_proposal_due_in_five_minutes :
    (validateLlmCandidates id [proposal 153722867280913 0] aTurn 1700000000000).map
        Candidate.dueWindow = [⟨1700000300000, 1700043500000, ""⟩] ∧
      ¬ SaneBatch id aTurn 1700000000000 [proposal 153722867280913 0] := by
  refine ⟨by decide +kernel, fun h => ?_⟩
  have hsane := (survivors_iff id aTurn 1700000000000 _).mp h.survivors
    (proposal 153722867280913 0) mem_cons_self (by decide +kernel)
  have hfits := (saneWindow_iff 1700000000000 (by decide) (by decide) _).mp hsane
  exact absurd hfits (by decide)

end IronGolem.ModelWindows
