import IronGolem.SeparatedText
import Mathlib.Data.Set.Finite.Basic

/-!
The origin of an HTTP address: its scheme, host and port, as a standard parser reads them. Blanks
around the text and line breaks within it are left out, the scheme ends at the first colon, slashes
and backslashes after it are skipped, and the authority reaches to the next slash, backslash,
question mark or hash.
-/
namespace IronGolem.UrlOrigins

open List

inductive Scheme
  | http | https
  deriving DecidableEq

def Scheme.defaultPort : Scheme → ℕ
  | .http => 80
  | .https => 443

structure Origin (H : Type) where
  scheme : Scheme
  host : H
  port : ℕ
  deriving DecidableEq

/-- A reader of hosts with an optional port. Names of small letters are hosts as they are. -/
structure HostParser (H : Type) where
  hostPort : List Char → Option (H × Option ℕ)
  name : List Char → H
  name_injective : Function.Injective name
  hostPort_name : ∀ s, s ≠ [] → (∀ c ∈ s, c.isLower = true) → hostPort s = some (name s, none)

variable (c : Char)

def isBlank : Bool := c.toNat ≤ 32

def isBreak : Bool := c = '\t' || c = '\n' || c = '\r'

def isSlash : Bool := c = '/' || c = '\\'

def isEnd : Bool := isSlash c || c = '?' || c = '#'

variable (text : List Char)

def trimRight : List Char := text.rdropWhile isBlank

def lead : List Char := (text.dropWhile isBlank).filter (fun c => !isBreak c)

def schemeOf : Option Scheme :=
  if text.map Char.toLower = "http".toList then some .http
  else if text.map Char.toLower = "https".toList then some .https
  else none

def beforeColon : List Char := text.takeWhile (fun c => c ≠ ':')

def afterSlashes : List Char :=
  ((text.dropWhile (fun c => c ≠ ':')).drop 1).dropWhile isSlash

def authority : List Char := (afterSlashes text).takeWhile (fun c => !isEnd c)

def afterUserinfo : List Char := text.rtakeWhile (· != '@')

section

variable {H : Type} (P : HostParser H)

def originAt (scheme : List Char) (authority : List Char) : Option (Origin H) :=
  (schemeOf scheme).bind (fun s => (P.hostPort (afterUserinfo authority)).map (fun (host, port) =>
    ⟨s, host, port.getD s.defaultPort⟩))

def originOf (text : List Char) : Option (Origin H) :=
  let t := lead (trimRight text)
  if ':' ∈ t then originAt P (beforeColon t) (authority t) else none

/-- A text that can be continued to an address without its authority being complete. -/
def Open (text : List Char) : Prop :=
  if ':' ∈ lead text then
    (schemeOf (beforeColon (lead text))).isSome = true ∧
      (afterSlashes (lead text)).all (fun c => !isEnd c) = true
  else (lead text).map Char.toLower <+: "https".toList

instance (text : List Char) : Decidable (Open text) := by
  unfold Open
  infer_instance

/-- Scheme, slashes and authority of a text, and what follows the authority. -/
structure Parts (t scheme slashes auth tail : List Char) : Prop where
  eq : t = scheme ++ ':' :: (slashes ++ (auth ++ tail))
  scheme_colon : ':' ∉ scheme
  slashes_all : ∀ c ∈ slashes, isSlash c = true
  head_not_slash : ∀ c ∈ (auth ++ tail).head?, isSlash c = false
  auth_all : ∀ c ∈ auth, isEnd c = false
  tail_head : ∀ c ∈ tail.head?, isEnd c = true

variable {l : List Char} (p : Char → Bool)

theorem dropWhile_of_head (h : ∀ c ∈ l.head?, p c = false) : l.dropWhile p = l := by
  cases l with
  | nil => rfl
  | cons c l =>
    have hc := h c rfl
    rw [dropWhile_cons_of_neg (by simp [hc])]

theorem takeWhile_of_head (h : ∀ c ∈ l.head?, p c = false) : l.takeWhile p = [] := by
  cases l with
  | nil => rfl
  | cons c l =>
    have hc := h c rfl
    rw [takeWhile_cons_of_neg (by simp [hc])]

variable {c : Char}

theorem head_append_cons (p : Char → Prop) (l m : List Char) (hl : ∀ b ∈ l.head?, p b)
    (hc : p c) : ∀ a ∈ (l ++ c :: m).head?, p a := by
  intro a ha
  cases l with
  | nil =>
    cases ha
    exact hc
  | cons b l => exact hl a ha

theorem beforeColon_append (scheme rest : List Char) (h : ':' ∉ scheme) :
    beforeColon (scheme ++ ':' :: rest) = scheme := by
  have hall : ∀ c ∈ scheme, decide (c ≠ ':') = true := by
    intro c hc
    exact decide_eq_true (ne_of_mem_of_not_mem hc h)
  unfold beforeColon
  rw [takeWhile_append_of_pos hall, takeWhile_cons_of_neg (by simp), append_nil]

theorem afterSlashes_append (scheme rest : List Char) (h : ':' ∉ scheme) :
    afterSlashes (scheme ++ ':' :: rest) = rest.dropWhile isSlash := by
  have hall : ∀ c ∈ scheme, decide (c ≠ ':') = true := by
    intro c hc
    exact decide_eq_true (ne_of_mem_of_not_mem hc h)
  unfold afterSlashes
  rw [dropWhile_append_of_pos hall, dropWhile_cons_of_neg (by simp)]
  rfl

variable {t scheme slashes auth tail : List Char}

theorem Parts.beforeColon_eq (h : Parts t scheme slashes auth tail) : beforeColon t = scheme := by
  rw [h.eq]
  exact beforeColon_append scheme _ h.scheme_colon

theorem Parts.afterSlashes_eq
    (h : Parts t scheme slashes auth tail) : afterSlashes t = auth ++ tail := by
  rw [h.eq, afterSlashes_append scheme _ h.scheme_colon, dropWhile_append_of_pos h.slashes_all]
  exact dropWhile_of_head isSlash h.head_not_slash

theorem Parts.authority_eq (h : Parts t scheme slashes auth tail) : authority t = auth := by
  have hall : ∀ c ∈ auth, (!isEnd c) = true := by
    intro c hc
    rw [h.auth_all c hc]
    rfl
  have htail : ∀ c ∈ tail.head?, (!isEnd c) = false := by
    intro c hc
    rw [h.tail_head c hc]
    rfl
  unfold authority
  rw [h.afterSlashes_eq, takeWhile_append_of_pos hall,
    takeWhile_of_head (fun c => !isEnd c) htail, append_nil]

theorem originOf_of_parts {text : List Char}
    (h : Parts (lead (trimRight text)) scheme slashes auth tail) :
    originOf P text = originAt P scheme auth := by
  have hcolon : ':' ∈ lead (trimRight text) := by
    rw [h.eq]
    simp
  unfold originOf
  simp [if_pos hcolon, h.beforeColon_eq, h.authority_eq]

theorem exists_parts (h : ':' ∈ t) :
    ∃ slashes tail, Parts t (beforeColon t) slashes (authority t) tail ∧
      afterSlashes t = authority t ++ tail := by
  obtain ⟨scheme, rest, heq, hcolon⟩ := eq_append_cons_of_mem h
  have hafter := afterSlashes_append scheme rest hcolon
  have hbefore := beforeColon_append scheme rest hcolon
  refine ⟨rest.takeWhile isSlash, (afterSlashes t).dropWhile (fun c => !isEnd c), ?_, ?_⟩
  · have hsplit : authority t ++ (afterSlashes t).dropWhile (fun c => !isEnd c) = afterSlashes t :=
      takeWhile_append_dropWhile
    refine ⟨?_, ?_, ?_, ?_, ?_, ?_⟩
    · rw [hsplit, heq, hafter, hbefore, takeWhile_append_dropWhile]
    · rw [heq, hbefore]
      exact hcolon
    · intro c hc
      exact mem_takeWhile_imp hc
    · rw [hsplit, heq, hafter]
      intro c hc
      have hhead := head?_dropWhile_not isSlash rest
      rw [Option.mem_def.mp hc] at hhead
      simpa using hhead
    · intro c hc
      have hend := mem_takeWhile_imp hc
      simpa using hend
    · intro c hc
      have hhead := head?_dropWhile_not (fun c => !isEnd c) (afterSlashes t)
      rw [Option.mem_def.mp hc] at hhead
      simpa using hhead
  · exact takeWhile_append_dropWhile.symm

theorem isBlank_of_isEnd (h : isEnd c = true) : isBlank c = false := by
  simp only [isEnd, isSlash, Bool.or_eq_true, decide_eq_true_eq] at h
  rcases h with ((h | h) | h) | h
  all_goals
    rw [h]
    decide

theorem trimRight_append_cons (l m : List Char) (h : isBlank c = false) :
    trimRight (l ++ c :: m) = l ++ c :: trimRight m := by
  unfold trimRight
  induction m using reverseRecOn with
  | nil => rw [rdropWhile_concat_neg _ _ _ (by simp [h]), rdropWhile_nil]
  | append_singleton m x ih =>
    rw [← cons_append, ← append_assoc]
    by_cases hx : isBlank x = true
    · rw [rdropWhile_concat_pos _ _ _ hx, rdropWhile_concat_pos _ _ _ hx, ih]
    · rw [rdropWhile_concat_neg _ _ _ hx, rdropWhile_concat_neg _ _ _ hx,
        append_assoc, cons_append]

theorem lead_append (d s : List Char) (hhead : ∀ c ∈ s.head?, isBlank c = false)
    (hbreak : ∀ c ∈ s, isBreak c = false) : lead (d ++ s) = lead d ++ s := by
  have hs : s.filter (fun c => !isBreak c) = s := by
    rw [List.filter_eq_self]
    intro c hc
    rw [hbreak c hc]
    rfl
  unfold lead
  rw [List.dropWhile_append]
  split
  · rename_i hempty
    rw [List.isEmpty_iff] at hempty
    rw [hempty, dropWhile_of_head isBlank hhead, hs]
    rfl
  · rw [List.filter_append, hs]

variable {d x : List Char}

theorem lead_mono (h : d <+: x) : lead d <+: lead x := by
  obtain ⟨s, rfl⟩ := h
  unfold lead
  rw [List.dropWhile_append]
  split
  · rename_i hempty
    rw [List.isEmpty_iff] at hempty
    rw [hempty]
    exact List.nil_prefix
  · rw [List.filter_append]
    exact List.prefix_append _ _

theorem lead_continued {q r : List Char} (hblank : isBlank c = false)
    (h : lead d = q ++ c :: r) (hx : d <+: x) : ∃ r', lead (trimRight x) = q ++ c :: r' := by
  obtain ⟨s, rfl⟩ := hx
  obtain ⟨l₁, l₂, hsplit, hq, hrest⟩ := filter_eq_append_iff.mp h
  obtain ⟨skipped, rest, hl₂, hskipped, hc, -⟩ := filter_eq_cons_iff.mp hrest
  have hd : d = d.takeWhile isBlank ++ ((l₁ ++ skipped) ++ c :: rest) := by
    rw [append_assoc, ← hl₂, ← hsplit, takeWhile_append_dropWhile]
  have hhead : ∀ m, ∀ a ∈ ((l₁ ++ skipped) ++ c :: m).head?, isBlank a = false := by
    intro m
    refine head_append_cons (fun a => isBlank a = false) _ m ?_ hblank
    intro b hb
    have hdrop := head?_dropWhile_not isBlank d
    rw [hsplit, hl₂, ← append_assoc, head?_append, Option.mem_def.mp hb] at hdrop
    simpa using hdrop
  have htrim : trimRight (d ++ s) =
      d.takeWhile isBlank ++ ((l₁ ++ skipped) ++ c :: trimRight (rest ++ s)) := by
    conv_lhs => rw [hd]
    rw [append_assoc, append_assoc (l₁ ++ skipped), cons_append,
      ← append_assoc (d.takeWhile isBlank), trimRight_append_cons _ _ hblank,
      append_assoc]
  refine ⟨(trimRight (rest ++ s)).filter (fun c => !isBreak c), ?_⟩
  have hnone : skipped.filter (fun c => !isBreak c) = [] := filter_eq_nil_iff.mpr hskipped
  unfold lead
  rw [htrim, dropWhile_append_of_pos (fun a ha => mem_takeWhile_imp ha),
    dropWhile_of_head isBlank (hhead _), filter_append, filter_append, hq, hnone,
    append_nil, filter_cons, if_pos hc]

variable {o : Origin H}

theorem schemeOf_isSome_of_continued
    (hparts : Parts (lead d) (beforeColon (lead d)) slashes auth tail) (hx : d <+: x)
      (h : originOf P x = some o) : (schemeOf (beforeColon (lead d))).isSome = true := by
  obtain ⟨r, hr⟩ := lead_continued (by decide) hparts.eq hx
  have hbefore := beforeColon_append _ r hparts.scheme_colon
  rw [← hr] at hbefore
  have hin : ':' ∈ lead (trimRight x) := by
    rw [hr]
    simp
  simp only [originOf, if_pos hin, hbefore, originAt] at h
  cases hs : schemeOf (beforeColon (lead d)) with
  | none =>
    rw [hs] at h
    cases h
  | some s => rfl

theorem originOf_of_continued {y : List Char}
    (hparts : Parts (lead d) scheme slashes auth (c :: tail)) (hy : d <+: y) :
    originOf P y = originAt P scheme auth := by
  have hend := hparts.tail_head c rfl
  have hshape : lead d = (scheme ++ ':' :: (slashes ++ auth)) ++ c :: tail := by
    rw [hparts.eq]
    simp
  obtain ⟨r, hr⟩ := lead_continued (isBlank_of_isEnd hend) hshape hy
  have hparts' : Parts (lead (trimRight y)) scheme slashes auth (c :: r) := by
    refine ⟨?_, hparts.scheme_colon, hparts.slashes_all, ?_, hparts.auth_all, ?_⟩
    · rw [hr]
      simp
    · intro a ha
      apply hparts.head_not_slash a
      cases auth with
      | _ => exact ha
    · intro a ha
      cases ha
      exact hend
  exact originOf_of_parts P hparts'

/-- A text without a colon that some address continues is the beginning of a scheme. -/
theorem open_of_no_colon (hx : d <+: x) (hcolon : ':' ∉ lead d)
    (h : originOf P x = some o) : Open d := by
  unfold Open
  rw [if_neg hcolon]
  unfold originOf at h
  by_cases hin : ':' ∈ lead (trimRight x)
  · rw [if_pos hin] at h
    have hshort : lead d <+: lead (trimRight x) := by
      have hlong := lead_mono (List.rdropWhile_prefix isBlank x)
      rcases prefix_or_prefix_of_prefix hlong (lead_mono hx) with hpre | hpre
      · exact absurd (hpre.subset hin) hcolon
      · exact hpre
    obtain ⟨m, hm⟩ := hshort
    have hbefore : beforeColon (lead (trimRight x)) = lead d ++ beforeColon m := by
      rw [← hm]
      apply takeWhile_append_of_pos
      intro c hc
      exact decide_eq_true (ne_of_mem_of_not_mem hc hcolon)
    rw [hbefore] at h
    have hleading : (lead d).map Char.toLower <+: (lead d ++ beforeColon m).map Char.toLower := by
      rw [map_append]
      exact prefix_append _ _
    unfold originAt schemeOf at h
    split at h
    · rename_i hhttp
      rw [hhttp] at hleading
      exact hleading.trans (by decide)
    · split at h
      · rename_i hhttps
        rw [hhttps] at hleading
        exact hleading
      · cases h
  · rw [if_neg hin] at h
    cases h

theorem originOf_of_not_open (hx : d <+: x) (hclosed : ¬ Open d) (h : originOf P x = some o) :
    originOf P d = some o := by
  by_cases hcolon : ':' ∈ lead d
  · obtain ⟨slashes, tail, hparts, hafter⟩ := exists_parts hcolon
    have hscheme := schemeOf_isSome_of_continued P hparts hx h
    cases tail with
    | nil =>
      refine absurd ?_ hclosed
      unfold Open
      rw [if_pos hcolon, hafter, append_nil]
      refine ⟨hscheme, all_eq_true.mpr ?_⟩
      intro c hc
      rw [hparts.auth_all c hc]
      rfl
    | cons c tail =>
      rw [originOf_of_continued P hparts prefix_rfl, ← originOf_of_continued P hparts hx]
      exact h
  · exact absurd (open_of_no_colon P hx hcolon h) hclosed

/-- A small letter is none of the characters that mean something in an address. -/
structure Plain (c : Char) : Prop where
  blank : isBlank c = false
  lineBreak : isBreak c = false
  authorityEnd : isEnd c = false
  at_ne : c ≠ '@'
  colon_ne : c ≠ ':'

theorem le_of_isLower (h : c.isLower = true) : 'a'.val ≤ c.val :=
  of_decide_eq_true (Bool.and_eq_true_iff.mp h).1

theorem plain_of_isLower (h : c.isLower = true) : Plain c := by
  have hne : ∀ d : Char, d.isLower = false → c ≠ d := by
    intro d hd heq
    rw [heq, hd] at h
    cases h
  have hval : 97 ≤ c.toNat := le_of_isLower h
  refine ⟨decide_eq_false (by omega), ?_, ?_, hne '@' (by decide), hne ':' (by decide)⟩
  · simp [isBreak, hne '\t' (by decide), hne '\n' (by decide), hne '\r' (by decide)]
  · simp [isEnd, isSlash, hne '/' (by decide), hne '\\' (by decide), hne '?' (by decide),
      hne '#' (by decide)]

theorem toLower_of_isLower (h : c.isLower = true) : c.toLower = c := by
  unfold Char.toLower
  rw [dif_neg]
  intro hupper
  have hle : 'a'.val ≤ 'Z'.val := UInt32.le_trans (le_of_isLower h) hupper.2
  revert hle
  decide

theorem isSlash_of_isEnd (h : isEnd c = false) : isSlash c = false := by
  unfold isEnd at h
  rw [Bool.or_eq_false_iff, Bool.or_eq_false_iff] at h
  exact h.1.1

theorem trimRight_of_plain {s : List Char} (h : ∀ c ∈ s, isBlank c = false) : trimRight s = s := by
  rw [trimRight, rdropWhile_eq_self_iff]
  intro hne
  rw [h _ (getLast_mem hne)]
  exact Bool.false_ne_true

variable {s : List Char} (hne : s ≠ []) (hs : ∀ c ∈ s, c.isLower = true)

include hne hs

theorem originAt_name {before : List Char} {k : Scheme} (hscheme : schemeOf scheme = some k)
    (hauth : afterUserinfo before = s) :
    originAt P scheme before = some ⟨k, P.name s, k.defaultPort⟩ := by
  simp [originAt, hscheme, hauth, P.hostPort_name s hne hs]

/-- An address that is open within its authority is continued by an at sign and any name. -/
theorem originOf_at_name (hcolon : ':' ∈ lead d) (hopen : Open d) :
    ∃ k, originOf P (d ++ '@' :: s) = some ⟨k, P.name s, Scheme.defaultPort k⟩ := by
  have hplain : ∀ c ∈ s, Plain c := fun c hc => plain_of_isLower (hs c hc)
  obtain ⟨slashes, tail, hparts, hafter⟩ := exists_parts hcolon
  unfold Open at hopen
  rw [if_pos hcolon, all_eq_true] at hopen
  obtain ⟨hscheme, hall⟩ := hopen
  obtain ⟨k, hk⟩ := Option.isSome_iff_exists.mp hscheme
  have htail : tail = [] := by
    cases tail with
    | nil => rfl
    | cons c tail =>
      have hend := hparts.tail_head c rfl
      have hnot := hall c (by rw [hafter]; simp)
      rw [hend] at hnot
      cases hnot
  rw [htail] at hparts
  have hlead : lead (trimRight (d ++ '@' :: s)) = lead d ++ '@' :: s := by
    rw [trimRight_append_cons d s (by decide), trimRight_of_plain (fun c hc => (hplain c hc).blank)]
    apply lead_append
    · intro c hc
      cases hc
      decide
    · intro c hc
      rcases mem_cons.mp hc with heq | hmem
      · rw [heq]
        decide
      · exact (hplain c hmem).lineBreak
  have hcontinued : Parts (lead (trimRight (d ++ '@' :: s))) (beforeColon (lead d)) slashes
      (authority (lead d) ++ '@' :: s) [] := by
    refine ⟨?_, hparts.scheme_colon, hparts.slashes_all, ?_, ?_, fun c hc => by cases hc⟩
    · rw [hlead]
      conv_lhs => rw [hparts.eq]
      simp
    · rw [append_nil]
      refine head_append_cons (fun a => isSlash a = false) _ s ?_ (by decide)
      intro b hb
      exact isSlash_of_isEnd (hparts.auth_all b (mem_of_mem_head? hb))
    · intro c hc
      rcases mem_append.mp hc with hmem | hmem
      · exact hparts.auth_all c hmem
      · rcases mem_cons.mp hmem with heq | hmem
        · rw [heq]
          decide
        · exact (hplain c hmem).authorityEnd
  have huser : afterUserinfo (authority (lead d) ++ '@' :: s) = s :=
    SeparatedText.rtakeWhile_of_notMem '@' _ s (fun hat => (hplain '@' hat).at_ne rfl)
  refine ⟨k, ?_⟩
  rw [originOf_of_parts P hcontinued]
  exact originAt_name P hne hs hk huser

/-- A beginning of the scheme is completed and continued by any name. -/
theorem originOf_scheme_name {m : List Char} (hcolon : ':' ∉ lead d)
    (hm : (lead d).map Char.toLower ++ m = "https".toList) :
    originOf P (d ++ (m ++ ':' :: '/' :: '/' :: s)) =
      some ⟨.https, P.name s, Scheme.defaultPort .https⟩ := by
  have hplain : ∀ c ∈ s, Plain c := fun c hc => plain_of_isLower (hs c hc)
  have hletters : ∀ c ∈ m, c.isLower = true := by
    have hall : "https".toList.all Char.isLower = true := by decide
    intro c hc
    exact all_eq_true.mp hall c (by rw [← hm]; exact mem_append_right _ hc)
  have hmap : m.map Char.toLower = m :=
    (map_congr_left (fun c hc => toLower_of_isLower (hletters c hc))).trans (map_id m)
  have hscheme : schemeOf (lead d ++ m) = some .https := by
    have hlower : (lead d ++ m).map Char.toLower = "https".toList := by
      rw [map_append, hmap, hm]
    unfold schemeOf
    rw [hlower]
    decide
  have htrim : trimRight (d ++ (m ++ ':' :: '/' :: '/' :: s)) =
      d ++ (m ++ ':' :: '/' :: '/' :: s) := by
    rw [← append_assoc, trimRight_append_cons (d ++ m) _ (by decide)]
    congr 2
    exact (trimRight_append_cons ['/'] s (by decide)).trans (by
      rw [trimRight_of_plain (fun c hc => (hplain c hc).blank)]
      rfl)
  have hlead : lead (d ++ (m ++ ':' :: '/' :: '/' :: s)) =
      lead d ++ (m ++ ':' :: '/' :: '/' :: s) := by
    apply lead_append
    · refine head_append_cons (fun a => isBlank a = false) m _ ?_ (by decide)
      intro b hb
      exact (plain_of_isLower (hletters b (mem_of_mem_head? hb))).blank
    · intro c hc
      simp only [mem_append, mem_cons] at hc
      rcases hc with hc | rfl | rfl | rfl | hc
      · exact (plain_of_isLower (hletters c hc)).lineBreak
      · decide
      · decide
      · decide
      · exact (hplain c hc).lineBreak
  have hparts : Parts (lead (trimRight (d ++ (m ++ ':' :: '/' :: '/' :: s)))) (lead d ++ m)
      ['/', '/'] s [] := by
    refine ⟨?_, ?_, ?_, ?_, fun c hc => (hplain c hc).authorityEnd, fun c hc => by cases hc⟩
    · rw [htrim, hlead]
      simp
    · intro hin
      rcases mem_append.mp hin with hin | hin
      · exact hcolon hin
      · exact (plain_of_isLower (hletters ':' hin)).colon_ne rfl
    · intro c hc
      simp only [mem_cons, not_mem_nil, or_false, or_self] at hc
      rw [hc]
      rfl
    · intro c hc
      rw [append_nil] at hc
      exact isSlash_of_isEnd (hplain c (mem_of_mem_head? hc)).authorityEnd
  have huser : afterUserinfo s = s := by
    unfold afterUserinfo
    rw [rtakeWhile_eq_self_iff]
    intro c hc
    exact bne_iff_ne.mpr (hplain c hc).at_ne
  rw [originOf_of_parts P hparts]
  exact originAt_name P hne hs hscheme huser

theorem exists_originOf_of_open (hopen : Open d) :
    ∃ x k, d <+: x ∧ originOf P x = some ⟨k, P.name s, Scheme.defaultPort k⟩ := by
  by_cases hcolon : ':' ∈ lead d
  · obtain ⟨k, hk⟩ := originOf_at_name P hne hs hcolon hopen
    exact ⟨_, k, prefix_append _ _, hk⟩
  · have hpre := hopen
    unfold Open at hpre
    rw [if_neg hcolon] at hpre
    obtain ⟨m, hm⟩ := hpre
    exact ⟨_, .https, prefix_append _ _, originOf_scheme_name P hne hs hcolon hm⟩

omit hne hs

theorem exists_other_host_of_open (hopen : Open d) (others : List (List Char)) :
    ∃ x o, d <+: x ∧ originOf P x = some o ∧ ∀ e ∈ others, originOf P e ≠ some o := by
  have hmany : Set.Infinite (Set.range (fun n => P.name (replicate (n + 1) 'a'))) := by
    apply Set.infinite_range_of_injective
    intro n m h
    have hlength := congrArg length (P.name_injective h)
    simpa using hlength
  obtain ⟨host, ⟨n, hn⟩, hfresh⟩ := hmany.exists_notMem_finite
    (((others.filterMap (originOf P)).map Origin.host).finite_toSet)
  have hletters : ∀ c ∈ replicate (n + 1) 'a', c.isLower = true := by
    intro c hc
    rw [eq_of_mem_replicate hc]
    rfl
  obtain ⟨x, k, hx, horigin⟩ := exists_originOf_of_open P (by simp) hletters hopen
  refine ⟨x, _, hx, horigin, ?_⟩
  intro e he heq
  apply hfresh
  exact mem_map.mpr ⟨_, mem_filterMap.mpr ⟨e, he, heq⟩, hn⟩

end

def decimal (text : List Char) : Option ℕ :=
  if text.all Char.isDigit then some (text.foldl (fun n c => 10 * n + (c.toNat - '0'.toNat)) 0)
  else none

/-- Names without escapes, read in small letters, with a decimal port behind a colon. -/
def plainHostPort (text : List Char) : Option (List Char × Option ℕ) :=
  if ':' ∈ text then
    (decimal ((text.dropWhile (fun c => c ≠ ':')).drop 1)).map (fun port =>
      ((beforeColon text).map Char.toLower, some port))
  else if text = [] then none
  else some (text.map Char.toLower, none)

theorem plainHostPort_name (s : List Char) (hne : s ≠ []) (hs : ∀ c ∈ s, c.isLower = true) :
    plainHostPort s = some (s, none) := by
  have hcolon : ':' ∉ s := fun h => (plain_of_isLower (hs ':' h)).colon_ne rfl
  have hmap : s.map Char.toLower = s :=
    (map_congr_left (fun c hc => toLower_of_isLower (hs c hc))).trans (map_id s)
  unfold plainHostPort
  rw [if_neg hcolon, if_neg hne, hmap]

def plainHosts : HostParser (List Char) where
  hostPort := plainHostPort
  name := id
  name_injective := Function.injective_id
  hostPort_name := plainHostPort_name

end IronGolem.UrlOrigins
