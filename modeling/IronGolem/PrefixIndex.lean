import IronGolem.SeparatedText
import Mathlib.Data.List.Dedup

/-!
Full-text indexes for prefix queries. The words of a text are its runs of alphanumeric characters
with their case folded. An index lists which word stands in which column of which document; it
mirrors a set of documents if it lists exactly their words, and adding or removing a document keeps
that up.
-/
namespace IronGolem.PrefixIndex

open SeparatedText List

structure Alphabet where
  alphanumeric : Char → Bool
  whitespace : Char → Bool
  fold : Char → Char
  space_not_alphanumeric : alphanumeric ' ' = false

structure Document where
  rowid : ℕ
  columns : List String

structure Posting where
  rowid : ℕ
  column : ℕ
  word : List Char
  deriving DecidableEq

abbrev Index := List Posting

section

variable (A : Alphabet)

def words (text : String) : List (List Char) :=
  ((text.toList.splitOnP (fun c => !A.alphanumeric c)).filter (fun w => w ≠ [])).map
    (fun w => w.map A.fold)

def postings (d : Document) : List Posting :=
  d.columns.zipIdx.flatMap (fun (text, column) =>
    (words A text).map (fun word => ⟨d.rowid, column, word⟩))

variable (index : Index) (d : Document)

def add : Index := index ++ postings A d

def remove : Index := index.filter (fun p => p ∉ postings A d)

def Mirrors (docs : List Document) : Prop :=
  ∀ p, p ∈ index ↔ ∃ d ∈ docs, p ∈ postings A d

def Answers (terms : List (List Char)) : Prop :=
  ∀ t ∈ terms, ∃ text ∈ d.columns, ∃ w ∈ words A text, t <+: w

instance (d : Document) (terms : List (List Char)) : Decidable (Answers A d terms) := by
  unfold Answers
  infer_instance

def Found (rowid : ℕ) (terms : List (List Char)) : Prop :=
  ∀ t ∈ terms, ∃ p ∈ index, p.rowid = rowid ∧ t <+: p.word

instance (index : Index) (rowid : ℕ) (terms : List (List Char)) :
    Decidable (Found index rowid terms) := by
  unfold Found
  infer_instance

theorem mem_postings (d : Document) (p : Posting) :
    p ∈ postings A d ↔ p.rowid = d.rowid ∧
      ∃ text, d.columns[p.column]? = some text ∧ p.word ∈ words A text := by
  unfold postings
  rw [mem_flatMap]
  constructor
  · intro ⟨⟨text, column⟩, hcolumn, hword⟩
    obtain ⟨word, hmem, heq⟩ := mem_map.mp hword
    rw [← heq]
    exact ⟨rfl, text, mem_zipIdx_iff_getElem?.mp hcolumn, hmem⟩
  · intro ⟨hrow, text, hcolumn, hword⟩
    refine ⟨(text, p.column), mem_zipIdx_iff_getElem?.mpr hcolumn, ?_⟩
    refine mem_map.mpr ⟨p.word, hword, ?_⟩
    rw [← hrow]

theorem mirrors_nil : Mirrors A [] [] := by
  intro p
  simp

variable {index : Index} {docs : List Document}

theorem mirrors_congr {docs' : List Document} (h : Mirrors A index docs)
    (hsame : ∀ d, d ∈ docs ↔ d ∈ docs') : Mirrors A index docs' := by
  intro p
  rw [h p]
  simp only [hsame]

theorem mirrors_add (h : Mirrors A index docs)
    (d : Document) : Mirrors A (add A index d) (docs ++ [d]) := by
  intro p
  unfold add
  rw [mem_append, h p]
  constructor
  · intro hp
    rcases hp with ⟨e, he, hp⟩ | hp
    · exact ⟨e, mem_append_left _ he, hp⟩
    · exact ⟨d, mem_append_right _ (mem_singleton_self d), hp⟩
  · intro ⟨e, he, hp⟩
    rcases mem_append.mp he with he | he
    · exact .inl ⟨e, he, hp⟩
    · rw [mem_singleton] at he
      exact .inr (he ▸ hp)

variable {d : Document}

theorem mirrors_remove (h : Mirrors A index docs)
    (hrows : (docs.map Document.rowid).Nodup) (hd : d ∈ docs) :
    Mirrors A (remove A index d) (docs.filter (fun e => e.rowid ≠ d.rowid)) := by
  intro p
  unfold remove
  rw [mem_filter, h p, decide_eq_true_eq]
  constructor
  · intro ⟨⟨e, he, hp⟩, hnot⟩
    refine ⟨e, mem_filter.mpr ⟨he, decide_eq_true ?_⟩, hp⟩
    intro hsame
    have heq : e = d := inj_on_of_nodup_map hrows he hd hsame
    exact hnot (heq ▸ hp)
  · intro ⟨e, he, hp⟩
    obtain ⟨hmem, hne⟩ := mem_filter.mp he
    refine ⟨⟨e, hmem, hp⟩, ?_⟩
    intro hd'
    have hrow := ((mem_postings A d p).mp hd').1
    have hrow' := ((mem_postings A e p).mp hp).1
    exact of_decide_eq_true hne (hrow'.symm.trans hrow)

theorem found_iff (h : Mirrors A index docs)
    (hrows : (docs.map Document.rowid).Nodup) (hd : d ∈ docs)
    (terms : List (List Char)) : Found index d.rowid terms ↔ Answers A d terms := by
  refine forall₂_congr ?_
  intro t _
  constructor
  · intro ⟨p, hp, hrow, hleading⟩
    obtain ⟨e, he, hmem⟩ := (h p).mp hp
    obtain ⟨hrow', text, hcolumn, hword⟩ := (mem_postings A e p).mp hmem
    have heq : e = d := inj_on_of_nodup_map hrows he hd (hrow'.symm.trans hrow)
    rw [heq] at hcolumn
    exact ⟨text, mem_of_getElem? hcolumn, p.word, hword, hleading⟩
  · intro ⟨text, htext, w, hw, hleading⟩
    obtain ⟨i, hi⟩ := mem_iff_getElem?.mp htext
    refine ⟨⟨d.rowid, i, w⟩, (h _).mpr ⟨d, hd, ?_⟩, rfl, hleading⟩
    exact (mem_postings A d _).mpr ⟨rfl, text, hi, hw⟩

def PlainTerm (t : List Char) : Prop :=
  t ≠ [] ∧ ∀ c ∈ t, A.alphanumeric c = true ∧ A.fold c = c

instance (t : List Char) : Decidable (PlainTerm A t) :=
  -- the characters of the term are tried, not all characters
  have : Decidable (∀ c ∈ t, A.alphanumeric c = true ∧ A.fold c = c) := List.decidableBAll _ t
  inferInstanceAs (Decidable (t ≠ [] ∧ ∀ c ∈ t, A.alphanumeric c = true ∧ A.fold c = c))

def queryText (terms : List (List Char)) : String :=
  joinWith ' ' (terms.map (fun t => String.ofList (t ++ ['*'])))

/-- Terms are joined by AND, a star asks for a beginning, and a query needs a term. -/
structure FullText where
  evaluate : Index → String → Except String (List ℕ)
  evaluate_terms : ∀ index terms, terms ≠ [] → (∀ t ∈ terms, PlainTerm A t) →
    ∃ rows, evaluate index (queryText terms) = .ok rows ∧ rows.Nodup ∧
      ∀ rowid, rowid ∈ rows ↔ Found index rowid terms
  evaluate_empty : ∀ index, ∃ message, evaluate index "" = .error message

def plainEvaluate (index : Index) (text : String) : Except String (List ℕ) :=
  if text = "" then .error "fts5: syntax error near \"\""
  else .ok ((index.map Posting.rowid).dedup.filter (fun rowid =>
    Found index rowid ((split ' ' text).map (fun piece => piece.toList.dropLast))))

variable {terms : List (List Char)}

theorem split_queryText (hterms : terms ≠ []) (hplain : ∀ t ∈ terms, PlainTerm A t) :
    split ' ' (queryText terms) = terms.map (fun t => String.ofList (t ++ ['*'])) := by
  apply split_joinWith_of_notMem
  · simpa using hterms
  · intro piece hpiece
    obtain ⟨t, ht, heq⟩ := mem_map.mp hpiece
    rw [← heq, String.toList_ofList]
    intro hspace
    rcases mem_append.mp hspace with hspace | hspace
    · have halpha := ((hplain t ht).2 ' ' hspace).1
      rw [A.space_not_alphanumeric] at halpha
      exact absurd halpha (by decide)
    · exact absurd (mem_singleton.mp hspace) (by decide)

theorem queryText_ne_empty (hterms : terms ≠ [])
    (hplain : ∀ t ∈ terms, PlainTerm A t) : queryText terms ≠ "" := by
  intro hempty
  have hsplit := split_queryText A hterms hplain
  obtain ⟨t, rest, hcons⟩ := exists_cons_of_ne_nil hterms
  rw [hempty, split_empty, hcons, map_cons, cons.injEq] at hsplit
  have hchars := congrArg String.toList hsplit.1
  exact absurd hchars.symm (by simp)

theorem plainEvaluate_queryText (index : Index) (hterms : terms ≠ [])
    (hplain : ∀ t ∈ terms, PlainTerm A t) :
    plainEvaluate index (queryText terms) =
      .ok ((index.map Posting.rowid).dedup.filter (fun rowid => Found index rowid terms)) := by
  have hpieces : (split ' ' (queryText terms)).map (fun piece => piece.toList.dropLast) =
    terms := by
    rw [split_queryText A hterms hplain, map_map]
    simp [Function.comp_def]
  unfold plainEvaluate
  rw [if_neg (queryText_ne_empty A hterms hplain), hpieces]

def plainFullText : FullText A where
  evaluate := plainEvaluate
  evaluate_terms := by
    intro index terms hterms hplain
    refine ⟨_, plainEvaluate_queryText A index hterms hplain, (List.nodup_dedup _).filter _, ?_⟩
    intro rowid
    rw [List.mem_filter, List.mem_dedup, decide_eq_true_eq]
    refine and_iff_right_of_imp ?_
    intro hfound
    obtain ⟨t, rest, hcons⟩ := List.exists_cons_of_ne_nil hterms
    obtain ⟨p, hp, hrow, -⟩ := hfound t (hcons ▸ List.mem_cons_self)
    exact hrow ▸ List.mem_map_of_mem hp
  evaluate_empty := fun _ => ⟨_, rfl⟩

end

end IronGolem.PrefixIndex
