import Mathlib.Data.List.Infix
import Mathlib.Data.Int.Basic

/-!
The in-memory span exporter. Spans are kept in order of arrival and indexed by their trace; when
the store is full, the oldest quarter is dropped and the index is built again. The index is at any
time the list of the positions of each trace, so a trace is read without its evicted spans.
-/
namespace IronGolem.TraceIndex

open List

def maxStoredSpans : ℕ := 10000

/-- A span, with what is only stored and returned in `rest`. -/
structure SpanData (ρ : Type) where
  traceID : String
  startTime : ℤ
  rest : ρ

structure InMemoryExporter (ρ : Type) where
  spans : List (SpanData ρ)
  byTrace : String → Option (List ℕ)

/-- What `sort.Slice` may do with a slice: spans of one start time keep no order. -/
structure SliceSort (ρ : Type) where
  sort : List (SpanData ρ) → List (SpanData ρ)
  perm (spans) : (sort spans).Perm spans
  sorted (spans) : (sort spans).Pairwise (fun a b => a.startTime ≤ b.startTime)

def SliceSort.merge (ρ : Type) : SliceSort ρ where
  sort spans := spans.mergeSort (fun a b => a.startTime ≤ b.startTime)
  perm spans := mergeSort_perm spans _
  sorted spans := by
    refine (pairwise_mergeSort ?_ ?_ spans).imp of_decide_eq_true
    · intro a b c hab hbc
      simp only [decide_eq_true_eq] at hab hbc ⊢
      omega
    · intro a b
      simp only [Bool.or_eq_true, decide_eq_true_eq]
      omega

inductive Answer (ρ : Type)
  | missing
  | detail (spans : List (SpanData ρ))
  | panics

variable {ρ : Type}

def appendIndex (byTrace : String → Option (List ℕ)) (traceID : String) (i : ℕ) :
    String → Option (List ℕ) :=
  Function.update byTrace traceID (some ((byTrace traceID).getD [] ++ [i]))

def rebuildFrom (i : ℕ) (byTrace : String → Option (List ℕ)) :
    List (SpanData ρ) → String → Option (List ℕ)
  | [] => byTrace
  | span :: rest => rebuildFrom (i + 1) (appendIndex byTrace span.traceID i) rest

def evictOldest (e : InMemoryExporter ρ) : InMemoryExporter ρ :=
  let cutoff := if e.spans.length / 4 = 0 then 1 else e.spans.length / 4
  let spans := e.spans.drop cutoff
  ⟨spans, rebuildFrom 0 (fun _ => none) spans⟩

def exportSpan (e : InMemoryExporter ρ) (span : SpanData ρ) : InMemoryExporter ρ :=
  let e := if maxStoredSpans ≤ e.spans.length then evictOldest e else e
  ⟨e.spans ++ [span], appendIndex e.byTrace span.traceID e.spans.length⟩

def newInMemoryExporter : InMemoryExporter ρ := ⟨[], fun _ => none⟩

def exportAll (exported : List (SpanData ρ)) : InMemoryExporter ρ :=
  exported.foldl exportSpan newInMemoryExporter

def getTrace (S : SliceSort ρ) (e : InMemoryExporter ρ) (traceID : String) : Answer ρ :=
  match e.byTrace traceID with
  | none => .missing
  | some indices =>
    if indices = [] then .missing
    else match indices.mapM (fun i => e.spans[i]?) with
      | some spans => .detail (S.sort spans)
      | none => .panics

/-- The positions of the spans of a trace, in increasing order. -/
def positions (spans : List (SpanData ρ)) (traceID : String) : List ℕ :=
  (List.range spans.length).filter (fun i => (spans[i]?).any (fun span => span.traceID = traceID))

def Indexed (spans : List (SpanData ρ)) (byTrace : String → Option (List ℕ)) : Prop :=
  ∀ traceID, byTrace traceID =
    if positions spans traceID = [] then none else some (positions spans traceID)

theorem positions_concat (spans : List (SpanData ρ)) (span : SpanData ρ) (traceID : String) :
    positions (spans ++ [span]) traceID =
      positions spans traceID ++ if span.traceID = traceID then [spans.length] else [] := by
  have hold : (range spans.length).filter
      (fun i => ((spans ++ [span])[i]?).any (fun span => span.traceID = traceID)) =
      positions spans traceID := by
    apply filter_congr
    intro i hi
    rw [getElem?_append_left (mem_range.mp hi)]
  unfold positions at hold ⊢
  rw [length_append, length_singleton, range_succ, filter_append, hold]
  by_cases htrace : span.traceID = traceID <;> simp [htrace]

variable {byTrace : String → Option (List ℕ)} {spans : List (SpanData ρ)}

theorem Indexed.concat (h : Indexed spans byTrace) (span : SpanData ρ) :
    Indexed (spans ++ [span]) (appendIndex byTrace span.traceID spans.length) := by
  intro traceID
  rw [positions_concat]
  unfold appendIndex
  by_cases htrace : traceID = span.traceID
  · subst htrace
    rw [Function.update_self, h span.traceID]
    split <;> simp [*]
  · rw [Function.update_of_ne htrace, h traceID, if_neg (Ne.symm htrace), append_nil]

theorem Indexed.rebuildFrom (rest : List (SpanData ρ)) (h : Indexed spans byTrace) :
    Indexed (spans ++ rest) (rebuildFrom spans.length byTrace rest) := by
  induction rest generalizing spans byTrace with
  | nil =>
    rw [append_nil]
    exact h
  | cons span rest ih =>
    have hnext := ih (h.concat span)
    rw [length_append, append_assoc] at hnext
    exact hnext

theorem indexed_nil : Indexed ([] : List (SpanData ρ)) (fun _ => none) := fun _ => rfl

/-- What is kept through every export. -/
structure Kept (exported : List (SpanData ρ)) (e : InMemoryExporter ρ) : Prop where
  indexed : Indexed e.spans e.byTrace
  bounded : e.spans.length ≤ maxStoredSpans
  recent : e.spans <:+ exported

variable {exported : List (SpanData ρ)} {e : InMemoryExporter ρ}

theorem kept_evictOldest (h : Kept exported e) (hfull : maxStoredSpans ≤ e.spans.length) :
    Kept exported (evictOldest e) ∧ (evictOldest e).spans.length < maxStoredSpans := by
  have hlength : (evictOldest e).spans.length < maxStoredSpans := by
    have hbound := h.bounded
    unfold evictOldest
    unfold maxStoredSpans at *
    rw [length_drop]
    split <;> omega
  refine ⟨⟨?_, hlength.le, (drop_suffix _ _).trans h.recent⟩, hlength⟩
  exact indexed_nil.rebuildFrom _

theorem kept_exportSpan
    (h : Kept exported e) (span : SpanData ρ) : Kept (exported ++ [span]) (exportSpan e span) := by
  have hroom : ∃ e', Kept exported e' ∧ e'.spans.length < maxStoredSpans ∧
      exportSpan e span =
        ⟨e'.spans ++ [span], appendIndex e'.byTrace span.traceID e'.spans.length⟩ := by
    unfold exportSpan
    by_cases hfull : maxStoredSpans ≤ e.spans.length
    · rw [if_pos hfull]
      exact ⟨evictOldest e, (kept_evictOldest h hfull).1, (kept_evictOldest h hfull).2, rfl⟩
    · rw [if_neg hfull]
      exact ⟨e, h, Nat.lt_of_not_le hfull, rfl⟩
  obtain ⟨e', hkept, hlt, heq⟩ := hroom
  rw [heq]
  refine ⟨hkept.indexed.concat span, ?_, ?_⟩
  · rw [length_append]
    exact hlt
  · obtain ⟨dropped, hdropped⟩ := hkept.recent
    exact ⟨dropped, by rw [← append_assoc, hdropped]⟩

theorem kept_exportAll (exported : List (SpanData ρ)) : Kept exported (exportAll exported) := by
  induction exported using reverseRecOn with
  | nil => exact ⟨indexed_nil, Nat.zero_le _, suffix_refl _⟩
  | append_singleton exported span ih =>
    unfold exportAll at ih ⊢
    rw [foldl_append]
    exact kept_exportSpan ih span

theorem mapM_positions (spans : List (SpanData ρ)) (traceID : String) (later : List (SpanData ρ)) :
    (positions spans traceID).mapM (fun i => (spans ++ later)[i]?) =
      some (spans.filter (fun span => span.traceID = traceID)) := by
  induction spans using reverseRecOn generalizing later with
  | nil => rfl
  | append_singleton spans span ih =>
    rw [positions_concat, mapM_append, append_assoc, ih ([span] ++ later), filter_append]
    by_cases htrace : span.traceID = traceID <;> simp [htrace]

/-- The index and the span slice agree after every sequence of exports. -/
theorem exportAll_consistent (S : SliceSort ρ) (exported : List (SpanData ρ)) :
    let e := exportAll exported
    (∀ traceID, e.byTrace traceID =
        if positions e.spans traceID = [] then none else some (positions e.spans traceID)) ∧
      e.spans.length ≤ maxStoredSpans ∧ e.spans <:+ exported ∧
      ∀ traceID, match getTrace S e traceID with
        | .missing => ∀ span ∈ e.spans, span.traceID ≠ traceID
        | .detail spans => spans.Perm (e.spans.filter (fun span => span.traceID = traceID)) ∧
          spans.Pairwise (fun a b => a.startTime ≤ b.startTime)
        | .panics => False := by
  have h := kept_exportAll exported
  refine ⟨h.indexed, h.bounded, h.recent, ?_⟩
  intro traceID
  have hspans := mapM_positions (exportAll exported).spans traceID []
  rw [append_nil] at hspans
  unfold getTrace
  rw [h.indexed traceID]
  by_cases hnone : positions (exportAll exported).spans traceID = []
  · rw [hnone, mapM_nil] at hspans
    rw [if_pos hnone]
    simpa using filter_eq_nil_iff.mp (Option.some.inj hspans).symm
  · rw [if_neg hnone]
    simp only [if_neg hnone, hspans]
    exact ⟨S.perm _, S.sorted _⟩

/-- Nothing is evicted before the store is full. -/
theorem spans_exportAll (h : exported.length ≤ maxStoredSpans) :
    (exportAll exported).spans = exported := by
  induction exported using reverseRecOn with
  | nil => rfl
  | append_singleton exported span ih =>
    rw [length_append, length_singleton] at h
    have hspans : (exportAll exported).spans = exported := ih (by omega)
    have hroom : ¬ maxStoredSpans ≤ (exportAll exported).spans.length := by
      rw [hspans]
      omega
    unfold exportAll at hspans hroom ⊢
    rw [foldl_append, foldl_cons, foldl_nil, exportSpan, if_neg hroom, hspans]

/-- One span more than the store holds drops the oldest quarter. -/
theorem spans_evicted (h : exported.length = maxStoredSpans) (span : SpanData ρ) :
    (exportAll (exported ++ [span])).spans = exported.drop 2500 ++ [span] := by
  have hspans := spans_exportAll h.le
  have hfull : maxStoredSpans ≤ (exportAll exported).spans.length := by
    rw [hspans, h]
  have hquarter : exported.length / 4 = 2500 := by
    rw [h]
    rfl
  unfold exportAll at hspans hfull ⊢
  rw [foldl_append, foldl_cons, foldl_nil, exportSpan, if_pos hfull, evictOldest]
  simp only [hspans, hquarter]
  rfl

def firstSpan : SpanData Unit := ⟨"first", 0, ()⟩

def laterSpan : SpanData Unit := ⟨"later", 1, ()⟩

/-- After the first eviction the trace of the first span is missing and that of the later ones is
read whole. -/
theorem first_trace_evicted :
    ∃ exported, exported.head? = some firstSpan ∧ exported.length = maxStoredSpans + 1 ∧
      (exportAll exported).spans = replicate 7501 laterSpan ∧
      (exportAll exported).byTrace "first" = none ∧
      ∃ spans, getTrace (.merge Unit) (exportAll exported) "later" = .detail spans ∧
        spans.length = 7501 := by
  obtain ⟨exported, hhead, hlength, hspans⟩ : ∃ exported, exported.head? = some firstSpan ∧
      exported.length = maxStoredSpans + 1 ∧
      (exportAll exported).spans = replicate 7501 laterSpan := by
    have hlength : (firstSpan :: replicate 9999 laterSpan).length = maxStoredSpans := by
      rw [length_cons, length_replicate]
      rfl
    refine ⟨(firstSpan :: replicate 9999 laterSpan) ++ [laterSpan], rfl, ?_, ?_⟩
    · rw [length_append, hlength, length_singleton]
    · rw [spans_evicted hlength, drop_succ_cons, drop_replicate, ← replicate_succ']
  obtain ⟨hindex, -, -, htraces⟩ := exportAll_consistent (.merge Unit) exported
  refine ⟨exported, hhead, hlength, hspans, ?_, ?_⟩
  · rw [hindex "first", if_pos]
    unfold positions
    rw [filter_eq_nil_iff]
    intro i _
    rw [hspans, getElem?_replicate]
    split <;> simp [laterSpan]
  · have hlater := htraces "later"
    rw [hspans] at hlater
    cases hanswer : getTrace (.merge Unit) (exportAll exported) "later" with
    | missing =>
      rw [hanswer] at hlater
      exact absurd rfl (hlater laterSpan (mem_replicate.mpr ⟨by decide, rfl⟩))
    | detail spans =>
      rw [hanswer] at hlater
      refine ⟨spans, rfl, ?_⟩
      rw [hlater.1.length_eq, filter_replicate, if_pos (by decide), length_replicate]
    | panics =>
      rw [hanswer] at hlater
      exact hlater.elim

end IronGolem.TraceIndex
