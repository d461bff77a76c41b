import IronGolem.InboundRequests

/-!
Sanitised strings of the validation package. SanitizeString drops the control characters, trims
white space at both ends and then cuts the text at a number of runes. The cut comes last, so it can
end the text in white space that stood in its middle.
-/

namespace IronGolem.SanitizedStrings

open InboundRequests (isSpace)
open List

/-- A byte that starts no valid encoding is read as U+FFFD of width one. -/
inductive Symbol where
  | rune (c : Char)
  | invalid
  deriving DecidableEq, Repr

abbrev GoString := List Symbol

def Symbol.decode : Symbol → Char
  | .rune c => c
  | .invalid => '\ufffd'

variable (s : GoString)

def runes : List Char := s.map Symbol.decode

def ofRunes (cs : List Char) : GoString := cs.map Symbol.rune

variable (cs : List Char)

@[simp]
theorem runes_ofRunes : runes (ofRunes cs) = cs := by
  simp [runes, ofRunes, Function.comp_def, Symbol.decode]

def maxStringLength : ℤ := 10000

variable (c : Char)

def isControl : Bool :=
  decide (c.toNat ≤ 0x1f) || (decide (0x7f ≤ c.toNat) && decide (c.toNat ≤ 0x9f))

def strip : Option Char :=
  if isControl c && c != '\n' && c != '\t' then none else some c

/-- strings.Map writes each rune again, so an invalid byte becomes the rune U+FFFD. -/
def mapRunes (f : Char → Option Char) (s : GoString) : GoString := ofRunes ((runes s).filterMap f)

def trimSpace : GoString :=
  (s.dropWhile (fun u => isSpace u.decode)).rdropWhile (fun u => isSpace u.decode)

def runeLimit (maxLen : ℤ) : ℕ := (if maxLen ≤ 0 then maxStringLength else maxLen).toNat

def sanitizeString (maxLen : ℤ) : GoString :=
  let cleaned := mapRunes strip s
  let cleaned := trimSpace cleaned
  let rs := runes cleaned
  let rs := if rs.length > runeLimit maxLen then rs.take (runeLimit maxLen) else rs
  ofRunes rs

def stays : Bool := !(isControl c && c != '\n' && c != '\t')

theorem strip_eq (c : Char) : strip c = Option.guard stays c := by
  unfold strip stays
  by_cases h : (isControl c && c != '\n' && c != '\t') = true <;> simp [Option.guard, h]

section Trim

variable {α : Type*} (p : α → Bool)

def trim (l : List α) : List α := (l.dropWhile p).rdropWhile p

variable (l : List α)

theorem trim_sublist : (trim p l).Sublist l :=
  (List.rdropWhile_prefix p _).sublist.trans (dropWhile_sublist p)

theorem head_trim (c : α) (h : (trim p l).head? = some c) : p c = false := by
  obtain ⟨t, ht⟩ := rdropWhile_prefix p (l.dropWhile p)
  have hhead : (l.dropWhile p).head? = some c := by
    rw [← ht, head?_append]
    simp only [trim] at h
    rw [h, Option.some_or]
  have hnot := head?_dropWhile_not p l
  rw [hhead] at hnot
  exact hnot

theorem getLast_trim (c : α) (h : (trim p l).getLast? = some c) : p c = false := by
  have hne : trim p l ≠ [] := by
    intro hnil
    rw [hnil] at h
    cases h
  rw [getLast?_eq_some_getLast hne] at h
  cases h
  have hnot := rdropWhile_last_not p (l.dropWhile p) hne
  exact Bool.not_eq_true _ ▸ hnot

theorem trim_eq_self {l : List α} (hhead : ∀ c, l.head? = some c → p c = false)
    (hlast : ∀ c, l.getLast? = some c → p c = false) : trim p l = l := by
  have hdrop : l.dropWhile p = l := by
    cases l with
    | nil => rfl
    | cons a l =>
      have ha : p a = false := hhead a rfl
      exact dropWhile_cons_of_neg (by simp [ha])
  unfold trim
  rw [hdrop, rdropWhile_eq_self_iff]
  intro hne
  simp [hlast (l.getLast hne) (getLast?_eq_some_getLast hne)]

theorem exists_trim : ∃ lead trail, l = lead ++ trim p l ++ trail ∧ (∀ c ∈ lead, p c = true) := by
  obtain ⟨trail, htrail⟩ := rdropWhile_prefix p (l.dropWhile p)
  refine ⟨l.takeWhile p, trail, ?_, fun c hc => mem_takeWhile_imp hc⟩
  unfold trim
  rw [append_assoc, htrail, takeWhile_append_dropWhile]

theorem rdropWhile_append_of_exists (a b : List α) (h : ∃ c ∈ b, p c = false) :
    (a ++ b).rdropWhile p = a ++ b.rdropWhile p := by
  induction b using reverseRecOn with
  | nil => simp at h
  | append_singleton b d ih =>
    rw [← append_assoc]
    by_cases hd : p d = true
    · obtain ⟨c, hc, hpc⟩ := h
      have hb : c ∈ b := by
        rcases mem_append.mp hc with hb | hb
        · exact hb
        · rw [mem_singleton.mp hb, hd] at hpc
          cases hpc
      rw [rdropWhile_concat_pos _ _ _ hd, rdropWhile_concat_pos _ _ _ hd, ih ⟨c, hb, hpc⟩]
    · rw [rdropWhile_concat_neg _ _ _ hd, rdropWhile_concat_neg _ _ _ hd, append_assoc]

theorem dropWhile_append_of_exists (a b : List α) (h : ∃ c ∈ a, p c = false) :
    (a ++ b).dropWhile p = a.dropWhile p ++ b := by
  rw [dropWhile_append, if_neg]
  obtain ⟨c, hc, hpc⟩ := h
  intro hempty
  have hall := dropWhile_eq_nil_iff.mp (List.isEmpty_iff.mp hempty)
  rw [hall c hc] at hpc
  cases hpc

end Trim

theorem trimSpace_ofRunes : trimSpace (ofRunes cs) = ofRunes (trim isSpace cs) := by
  simp only [trimSpace, ofRunes, trim, rdropWhile, dropWhile_map, ← map_reverse]
  rfl

theorem sanitizeString_eq (s : GoString) (maxLen : ℤ) :
    sanitizeString s maxLen =
      ofRunes ((trim isSpace ((runes s).filter stays)).take (runeLimit maxLen)) := by
  have hmap : mapRunes strip s = ofRunes ((runes s).filter stays) := by
    unfold mapRunes
    rw [← filterMap_eq_filter, funext strip_eq]
  simp only [sanitizeString, hmap, trimSpace_ofRunes, runes_ofRunes]
  split
  · rfl
  · next hlen => rw [take_of_length_le (by omega)]

/-- What a sanitised string is meant to be. -/
structure Projection (s : GoString) (maxLen : ℤ) (r : GoString) : Prop where
  short : (runes r).length ≤ runeLimit maxLen
  clean : ∀ c ∈ runes r, isControl c = true → c = '\n' ∨ c = '\t'
  head : ∀ c, (runes r).head? = some c → isSpace c = false
  last : ∀ c, (runes r).getLast? = some c → isSpace c = false
  taken : (runes r).Sublist (runes s)
  again : sanitizeString r maxLen = r

/-- White space is the rune number `limit`, and a rune that is kept comes after it. -/
def CutAtBlank (s : GoString) (limit : ℕ) : Prop :=
  ∃ before c after, runes s = before ++ c :: after ∧ stays c = true ∧ isSpace c = true ∧
    ((before.filter stays).dropWhile isSpace).length + 1 = limit ∧
    (∃ d ∈ before, stays d = true ∧ isSpace d = false) ∧
    ∃ d ∈ after, stays d = true ∧ isSpace d = false

section Cut

variable {s : GoString} {limit : ℕ} {c : Char}

theorem exists_of_filter_eq (q : Char → Bool) {l a b : List Char} (h : l.filter q = a ++ c :: b) :
    ∃ before after, l = before ++ c :: after ∧ before.filter q = a ∧ q c = true ∧
      after.filter q = b := by
  obtain ⟨l₁, l₂, rfl, rfl, h₂⟩ := filter_eq_append_iff.mp h
  obtain ⟨m₁, m₂, rfl, hm₁, hc, hm₂⟩ := filter_eq_cons_iff.mp h₂
  refine ⟨l₁ ++ m₁, m₂, by simp, ?_, hc, hm₂⟩
  rw [filter_append, filter_eq_nil_iff.mpr hm₁, append_nil]

/-- The last rune before the cut is white only if white space of the input stands there. -/
theorem cutAtBlank_of_last (hc : isSpace c = true)
    (hlast : ((trim isSpace ((runes s).filter stays)).take limit).getLast? = some c) :
    CutAtBlank s limit := by
  obtain ⟨lead, trail, hkept, hlead⟩ := exists_trim isSpace ((runes s).filter stays)
  have hhead := head_trim isSpace ((runes s).filter stays)
  have hend := getLast_trim isSpace ((runes s).filter stays)
  generalize trim isSpace ((runes s).filter stays) = t at hlast hkept hhead hend
  obtain ⟨u, hu⟩ := getLast?_eq_some_iff.mp hlast
  have hsplit : t = u ++ c :: t.drop limit := by
    conv_lhs => rw [← take_append_drop limit t, hu]
    simp
  generalize t.drop limit = rest at hsplit
  have hlen := congrArg length hu
  subst hsplit
  -- white space at an end of the trimmed text would have been trimmed
  obtain ⟨d, hd, hspace⟩ : ∃ d ∈ rest, isSpace d = false := by
    cases rest with
    | nil => rw [hend c (by simp)] at hc; cases hc
    | cons a rest =>
      refine ⟨(a :: rest).getLast (by simp), getLast_mem _, hend _ ?_⟩
      rw [getLast?_append, getLast?_cons_cons,
        getLast?_eq_some_getLast (cons_ne_nil a rest), Option.some_or]
  obtain ⟨e, u', rfl⟩ : ∃ e u', u = e :: u' := by
    cases u with
    | nil => rw [hhead c rfl] at hc; cases hc
    | cons e u' => exact ⟨e, u', rfl⟩
  have he : isSpace e = false := hhead e rfl
  obtain ⟨before, after, hrunes, hbefore, hstays, hafter⟩ :=
    exists_of_filter_eq stays (l := runes s) (a := lead ++ e :: u') (b := rest ++ trail) (c := c)
      (by simp [hkept])
  refine ⟨before, c, after, hrunes, hstays, hc, ?_, ⟨e, ?_⟩, ⟨d, ?_⟩⟩
  · rw [hbefore, dropWhile_append_of_pos hlead, dropWhile_cons_of_neg (by simp [he])]
    have hpos : 0 < rest.length := length_pos_of_mem hd
    simp only [length_take, length_append, length_cons, length_nil] at hlen ⊢
    omega
  · have hmem : e ∈ before.filter stays := by simp [hbefore]
    exact ⟨(mem_filter.mp hmem).1, (mem_filter.mp hmem).2, he⟩
  · have hmem : d ∈ after.filter stays := by simp [hafter, hd]
    exact ⟨(mem_filter.mp hmem).1, (mem_filter.mp hmem).2, hspace⟩

theorem last_of_cutAtBlank (h : CutAtBlank s limit) :
    ∃ c, isSpace c = true ∧
      ((trim isSpace ((runes s).filter stays)).take limit).getLast? = some c := by
  obtain ⟨before, c, after, hrunes, hstays, hc, hlen, ⟨d, hd, hdstays, hdspace⟩,
    e, he, hestays, hespace⟩ := h
  refine ⟨c, hc, ?_⟩
  have hdrop : ((runes s).filter stays).dropWhile isSpace =
      (before.filter stays).dropWhile isSpace ++ c :: after.filter stays := by
    rw [hrunes, filter_append, filter_cons_of_pos hstays]
    exact dropWhile_append_of_exists isSpace _ _ ⟨d, mem_filter.mpr ⟨hd, hdstays⟩, hdspace⟩
  have htrim : trim isSpace ((runes s).filter stays) =
      ((before.filter stays).dropWhile isSpace ++ [c]) ++
        (after.filter stays).rdropWhile isSpace := by
    unfold trim
    rw [hdrop, append_cons]
    exact rdropWhile_append_of_exists isSpace _ _ ⟨e, mem_filter.mpr ⟨he, hestays⟩, hespace⟩
  rw [htrim, take_left' (by simp [hlen])]
  simp

end Cut

/-- Sanitising is a projection exactly for the inputs without white space at the cut. -/
theorem sanitizeString_projection_iff (s : GoString) (maxLen : ℤ) :
    Projection s maxLen (sanitizeString s maxLen) ↔ ¬ CutAtBlank s (runeLimit maxLen) := by
  constructor
  · intro h hcut
    obtain ⟨c, hc, hlast⟩ := last_of_cutAtBlank hcut
    have hnot := h.last c (by rw [sanitizeString_eq, runes_ofRunes]; exact hlast)
    rw [hc] at hnot
    cases hnot
  · intro hcut
    generalize hr : (trim isSpace ((runes s).filter stays)).take (runeLimit maxLen) = r
    have hresult : sanitizeString s maxLen = ofRunes r := by rw [sanitizeString_eq, hr]
    have hsub : r.Sublist ((runes s).filter stays) := by
      rw [← hr]
      exact (take_sublist _ _).trans (trim_sublist isSpace _)
    have hstays : ∀ c ∈ r, stays c = true := fun c hc => (mem_filter.mp (hsub.mem hc)).2
    have hshort : r.length ≤ runeLimit maxLen := by
      rw [← hr, length_take]
      omega
    have hhead : ∀ c, r.head? = some c → isSpace c = false := by
      intro c hc
      refine head_trim isSpace ((runes s).filter stays) c ?_
      rw [← hr, head?_take] at hc
      split at hc
      · cases hc
      · exact hc
    have hlast : ∀ c, r.getLast? = some c → isSpace c = false := by
      intro c hc
      by_contra hspace
      exact hcut (cutAtBlank_of_last (by simpa using hspace) (by rw [hr]; exact hc))
    rw [hresult]
    constructor
    · simpa using hshort
    · intro c hc hcontrol
      have hkeep := hstays c (by simpa using hc)
      by_contra hother
      rw [not_or] at hother
      simp [stays, hcontrol, hother.1, hother.2] at hkeep
    · simpa using hhead
    · simpa using hlast
    · simpa using hsub.trans filter_sublist
    · rw [sanitizeString_eq, runes_ofRunes, filter_eq_self.mpr hstays,
        trim_eq_self isSpace hhead hlast, take_of_length_le hshort]

/-- The blank in the middle of the text becomes its end, and a second call drops it. -/
theorem sanitizeString_cut_at_blank :
    runes (sanitizeString (ofRunes ['a', ' ', 'b']) 2) = ['a', ' '] ∧
      runes (sanitizeString (sanitizeString (ofRunes ['a', ' ', 'b']) 2) 2) = ['a'] ∧
      ¬ Projection (ofRunes ['a', ' ', 'b']) 2 (sanitizeString (ofRunes ['a', ' ', 'b']) 2) := by
  refine ⟨by decide, by decide, fun h => ?_⟩
  have hlast := h.last ' ' (by decide)
  revert hlast
  decide

end IronGolem.SanitizedStrings
