import IronGolem.PolicyMiddleware

/-!
Which requests the policy middleware evaluates before their handler runs. The mux patterns, the
known segments and the mapping are three separate tables.
-/
namespace IronGolem.RouteCoverage

open FirstMatch PolicyLayers SeparatedText PolicyMiddleware List

def Overlaps : List Segment → List Segment → Bool
  | [], [] => true
  | .lit a :: p, .lit b :: q => a == b && Overlaps p q
  | _ :: p, _ :: q => Overlaps p q
  | _, _ => false

theorem overlaps_of_match (p q : List Segment) {path : List String}
    (hp : matchSegments p path = true) (hq : matchSegments q path = true) :
    Overlaps p q = true := by
  induction path generalizing p q with
  | nil =>
    cases p with
    | nil => cases q <;> simp_all [matchSegments, Overlaps]
    | cons a p => simp [matchSegments] at hp
  | cons s path ih =>
    cases p with
    | nil => simp [matchSegments] at hp
    | cons a p =>
      cases q with
      | nil => simp [matchSegments] at hq
      | cons b q =>
        cases a <;> cases b <;> simp_all [matchSegments, Overlaps]

theorem matchSegments_fill (p : List Segment) {value : String} (hv : value ≠ "") :
    matchSegments p (p.map (Segment.fill value)) = true := by
  induction p with
  | nil => rfl
  | cons a p ih => cases a <;> simp [matchSegments, Segment.fill, ih, hv]

theorem muxRoutes_pairwise : muxRoutes.Pairwise (fun r r' =>
    ¬ (r.method = r'.method ∧ Overlaps r.segments r'.segments = true)) := by
  decide

variable {r : Route} {m : String}

theorem accepts_cases (h : r.accepts m = true) :
    m = r.method ∨ (r.method = "GET" ∧ m = "HEAD") := by
  unfold Route.accepts at h
  simpa using h

theorem method_eq_of_accepts {r' : Route} (hr : r ∈ muxRoutes) (hr' : r' ∈ muxRoutes)
    (h : r.accepts m = true) (h' : r'.accepts m = true) : r.method = r'.method := by
  have hne : ∀ r ∈ muxRoutes, r.method ≠ "HEAD" := by decide
  rcases accepts_cases h with hm | ⟨hget, hm⟩ <;>
    rcases accepts_cases h' with hm' | ⟨hget', hm'⟩
  · rw [← hm, ← hm']
  · exact absurd (hm.symm.trans hm') (hne r hr)
  · exact absurd (hm'.symm.trans hm) (hne r' hr')
  · rw [hget, hget']

theorem mux_request (hr : r ∈ muxRoutes) {value : String}
    (hm : r.accepts m = true) (hv : value ≠ "") : mux (r.request m value) = some r := by
  apply find?_of_pairwise
  · refine (pairwise_iff_forall_sublist.mpr ?_)
    intro a b hab
    have hpair := pairwise_iff_forall_sublist.mp muxRoutes_pairwise hab
    have ha : a ∈ muxRoutes := hab.subset (by simp)
    have hb : b ∈ muxRoutes := hab.subset (by simp)
    rintro ⟨hqa, hqb⟩
    simp only [Route.serves, Bool.and_eq_true] at hqa hqb
    exact hpair ⟨method_eq_of_accepts ha hb hqa.1 hqb.1, overlaps_of_match _ _ hqa.2 hqb.2⟩
  · exact hr
  · simp [Route.serves, Route.request, hm, matchSegments_fill r.segments hv]

def knownParts (text : String) : List String := (split '/' text).filter (· ∈ knownSegments)

def Plain (text : String) : Prop := ∀ p ∈ split '/' text, p ∉ knownSegments

theorem plain_iff (text : String) : Plain text ↔ knownParts text = [] := by
  unfold Plain knownParts
  simp

def cleaned (pattern : List Segment) (value : String) : List String :=
  pattern.flatMap (fun seg => knownParts (seg.fill value))

variable (text : String) (pattern : List Segment) (value : String)

theorem cleaned_lit :
    cleaned (.lit text :: pattern) value = knownParts text ++ cleaned pattern value := rfl

theorem cleaned_id :
    cleaned (.id :: pattern) value = knownParts value ++ cleaned pattern value := rfl

theorem normalizeRoute_request (hr : r.segments ≠ []) (m value : String) :
    normalizeRoute m (r.request m value).urlPath = routeKey m (cleaned r.segments value) := by
  have htest : (fun p => p != "" && !looksLikeID p) = fun p => decide (p ∈ knownSegments) := by
    funext p
    by_cases hp : p ∈ knownSegments
    · have hne : p ≠ "" := by
        rintro rfl
        exact absurd hp (by decide)
      simp [looksLikeID, hp, hne]
    · simp [looksLikeID, hp]
  have hpath : (r.request m value).urlPath =
      "" ++ String.singleton '/' ++ joinWith '/' (r.segments.map (Segment.fill value)) := rfl
  unfold normalizeRoute
  rw [htest, filter_split_trimRight _ _ (by decide), hpath, split_append,
    split_joinWith _ (by simpa using hr)]
  simp only [split_empty, filter_append, filter_flatMap, flatMap_map]
  rfl

variable {plain : String}

theorem length_cleaned (hplain : Plain plain) :
    (cleaned pattern value).length =
      (cleaned pattern plain).length + pattern.count .id * (knownParts value).length := by
  rw [plain_iff] at hplain
  induction pattern with
  | nil => simp [cleaned]
  | cons seg pattern ih =>
    cases seg with
    | lit text =>
      rw [cleaned_lit, cleaned_lit, length_append, length_append, ih, count_cons_of_ne (by simp)]
      omega
    | id =>
      rw [cleaned_id, cleaned_id, hplain, length_append, nil_append, ih, count_cons_self]
      ring

theorem cleaned_eq_iff (hplain : Plain plain) :
    cleaned pattern value = cleaned pattern plain ↔ (.id ∈ pattern → Plain value) := by
  constructor
  · intro h hid
    have hlen := length_cleaned pattern value hplain
    rw [h] at hlen
    have hcount : 0 < pattern.count .id := count_pos_iff.mpr hid
    rw [plain_iff, ← length_eq_zero_iff]
    have hzero : pattern.count .id * (knownParts value).length = 0 := by omega
    rcases Nat.mul_eq_zero.mp hzero with hc | hk
    · omega
    · exact hk
  · intro h
    apply flatMap_congr
    intro seg hseg
    cases seg with
    | lit text => rfl
    | id => exact ((plain_iff value).mp (h hseg)).trans ((plain_iff plain).mp hplain).symm

def knownLits : List Segment → List String
  | [] => []
  | .lit text :: pattern =>
    if text ∈ knownSegments then text :: knownLits pattern else knownLits pattern
  | .id :: pattern => knownLits pattern

theorem cleaned_of_plain (hplain : Plain plain)
    (hlit : ∀ text, .lit text ∈ pattern → '/' ∉ text.toList) :
    cleaned pattern plain = knownLits pattern := by
  rw [plain_iff] at hplain
  induction pattern with
  | nil => rfl
  | cons seg pattern ih =>
    have hrest := ih fun text ht => hlit text (mem_cons_of_mem seg ht)
    cases seg with
    | lit text =>
      have hsplit := split_of_notMem '/' text (hlit text mem_cons_self)
      rw [cleaned_lit, hrest, knownLits, knownParts, hsplit]
      by_cases htext : text ∈ knownSegments <;> simp [htext]
    | id => rw [cleaned_id, hplain, hrest, knownLits, nil_append]

theorem cleaned_sublist (hplain : Plain plain) :
    (cleaned pattern plain).Sublist (cleaned pattern value) := by
  rw [plain_iff] at hplain
  induction pattern with
  | nil => exact List.Sublist.refl _
  | cons seg pattern ih =>
    cases seg with
    | lit text =>
      exact ih.append_left (knownParts text)
    | id =>
      rw [cleaned_id, cleaned_id, hplain, nil_append]
      exact ih.trans (sublist_append_right _ _)

theorem mem_cleaned {p : String} (h : p ∈ cleaned pattern value) : p ∈ knownSegments := by
  obtain ⟨seg, _, hseg⟩ := mem_flatMap.mp h
  simpa using (mem_filter.mp hseg).2

variable {segs : List String}

theorem split_routeKey (hm : '/' ∉ m.toList) (hne : segs ≠ [])
    (hsegs : ∀ p ∈ segs, p ∈ knownSegments) : split '/' (routeKey m segs) = (m ++ " ") :: segs := by
  have hknown : ∀ p ∈ knownSegments, '/' ∉ p.toList := by decide
  have hkey : routeKey m segs = (m ++ " ") ++ String.singleton '/' ++ joinWith '/' segs := by
    apply String.toList_injective
    simp [routeKey]
  rw [hkey, split_append, split_of_notMem '/' (m ++ " ") (by simpa using hm),
    split_joinWith_of_notMem '/' hne fun p hp => hknown p (hsegs p hp)]
  rfl

variable {key : String} {perm : Permission}

theorem lookup_mem {l : List (String × Permission)}
    (h : l.lookup key = some perm) : (key, perm) ∈ l := by
  obtain ⟨pre, post, hl, _⟩ := lookup_eq_some_iff.mp h
  rw [hl]
  simp

theorem permission_injective {key' : String}
    (h : (key, perm) ∈ routeMapping) (h' : (key', perm) ∈ routeMapping) : key = key' := by
  have hnodup : (routeMapping.map Prod.snd).Nodup := by decide
  exact congrArg Prod.fst (inj_on_of_nodup_map hnodup h h' rfl)

def idText : String := "\x7bid\x7d"

/-- The permission of the pattern itself, with its `{id}` normalized away. -/
def routePermission (r : Route) : Option Permission := resolve (r.request r.method idText)

def unmappedRoutes : List Route :=
  [v1 "GET" [.lit "connectors", .id, .lit "status"],
   v1 "GET" [.lit "providers"],
   v2 "GET" [.lit "audit", .lit "findings"],
   v2 "GET" [.lit "commitments"],
   v2 "POST" [.lit "commitments", .id, .lit "dismiss"],
   v2 "POST" [.lit "commitments", .id, .lit "snooze"], v2 "DELETE" [.lit "commitments", .id]]

def Covered (r : Route) (m value : String) : Prop :=
  r ∉ unmappedRoutes ∧ m = r.method ∧ (.id ∈ r.segments → Plain value)

theorem plain_idText : Plain idText := by
  unfold Plain idText
  decide

section

variable (hr : r ∈ muxRoutes)

include hr

theorem segments_api (hz : r ≠ healthzRoute) : ∃ rest, r.segments = .lit "api" :: rest := by
  have hall : ∀ r ∈ muxRoutes, r ≠ healthzRoute → r.segments.head? = some (.lit "api") := by
    decide
  have hhead := hall r hr hz
  cases hseg : r.segments with
  | nil => simp [hseg] at hhead
  | cons seg rest =>
    rw [hseg, head?_cons, Option.some.injEq] at hhead
    exact ⟨rest, by rw [hhead]⟩

theorem resolve_request (hz : r ≠ healthzRoute) (m value : String) :
    resolve (r.request m value) = routeMapping.lookup (routeKey m (cleaned r.segments value)) := by
  obtain ⟨rest, hrest⟩ := segments_api hr hz
  have hpath : (r.request m value).urlPath ≠ "/healthz" := by
    intro hpath
    have hparts := congrArg (split '/') hpath
    have htext : (r.request m value).urlPath =
        "" ++ String.singleton '/' ++ joinWith '/' ("api" :: rest.map (Segment.fill value)) := by
      unfold Request.urlPath Route.request
      rw [hrest]
      rfl
    rw [htext, split_append, split_joinWith _ (by simp), flatMap_cons,
      split_of_notMem '/' "api" (by decide), show split '/' "/healthz" = ["", "healthz"] by decide]
      at hparts
    simp at hparts
  unfold resolve
  rw [if_neg hpath, ← normalizeRoute_request (by simp [hrest]) m value]
  rfl

theorem knownLits_eq : cleaned r.segments idText = knownLits r.segments := by
  have hlits : ∀ r ∈ muxRoutes, ∀ seg ∈ r.segments, '/' ∉ (seg.fill "").toList := by decide
  apply cleaned_of_plain r.segments plain_idText
  exact fun text htext => hlits r hr (.lit text) htext

theorem routePermission_eq (hz : r ≠ healthzRoute) :
    routePermission r = routeMapping.lookup (routeKey r.method (knownLits r.segments)) := by
  unfold routePermission
  rw [resolve_request hr hz, knownLits_eq hr]

theorem routePermission_isSome_iff (hz : r ≠ healthzRoute) :
    (routePermission r).isSome = true ↔ r ∉ unmappedRoutes := by
  have hall : ∀ r ∈ muxRoutes, r ≠ healthzRoute →
      ((routeMapping.lookup (routeKey r.method (knownLits r.segments))).isSome = true ↔
        r ∉ unmappedRoutes) := by decide +kernel
  rw [routePermission_eq hr hz]
  exact hall r hr hz

theorem split_key (hz : r ≠ healthzRoute) (m value : String) (hm : r.accepts m = true) :
    split '/' (routeKey m (cleaned r.segments value)) = (m ++ " ") :: cleaned r.segments value := by
  obtain ⟨rest, hrest⟩ := segments_api hr hz
  apply split_routeKey
  · have hmethod : ∀ r ∈ muxRoutes, '/' ∉ r.method.toList := by decide
    rcases accepts_cases hm with rfl | ⟨_, rfl⟩
    · exact hmethod r hr
    · decide
  · rw [hrest, cleaned_lit, show knownParts "api" = ["api"] by decide]
    simp
  · exact fun p hp => mem_cleaned r.segments value hp

theorem resolve_routePermission_iff (hz : r ≠ healthzRoute)
    (m value : String) (hm : r.accepts m = true) :
    (∃ perm, routePermission r = some perm ∧ resolve (r.request m value) = some perm) ↔
      Covered r m value := by
  have hpattern := resolve_request hr hz r.method idText
  constructor
  · rintro ⟨perm, hown, hreq⟩
    unfold routePermission at hown
    rw [resolve_request hr hz] at hreq
    rw [hpattern] at hown
    have hkey := permission_injective (lookup_mem hreq) (lookup_mem hown)
    have hparts := congrArg (split '/') hkey
    rw [split_key hr hz m value hm, split_key hr hz r.method idText (by simp [Route.accepts]),
      cons.injEq] at hparts
    refine ⟨?_, ?_, ?_⟩
    · apply (routePermission_isSome_iff hr hz).mp
      unfold routePermission
      rw [hpattern, hown]
      rfl
    · exact (String.append_left_inj " ").mp hparts.1
    · exact (cleaned_eq_iff r.segments value plain_idText).mp hparts.2
  · rintro ⟨hun, hmethod, hplain⟩
    obtain ⟨perm, hperm⟩ :=
      Option.isSome_iff_exists.mp ((routePermission_isSome_iff hr hz).mpr hun)
    refine ⟨perm, hperm, ?_⟩
    rw [resolve_request hr hz, hmethod,
      (cleaned_eq_iff r.segments value plain_idText).mpr hplain, ← hpattern]
    exact hperm

end

theorem knownParts_of_notMem (h : '/' ∉ value.toList) (hp : ¬ Plain value) :
    (knownParts value).length = 1 := by
  unfold Plain at hp
  unfold knownParts
  rw [split_of_notMem '/' value h] at hp ⊢
  have hknown : value ∈ knownSegments := by simpa using hp
  simp [hknown]

theorem no_longer_key (hr : r ∈ muxRoutes) (hid : .id ∈ r.segments)
    (hkey : (key, perm) ∈ routeMapping) (hlen : segs.length = (knownLits r.segments).length + 1)
    (hsub : (knownLits r.segments).Sublist segs) : split '/' key ≠ (r.method ++ " ") :: segs := by
  have hall : ∀ e ∈ routeMapping, ∀ r ∈ muxRoutes, .id ∈ r.segments →
      (split '/' e.1).head? = some (r.method ++ " ") →
      (split '/' e.1).tail.length = (knownLits r.segments).length + 1 →
      ¬ (knownLits r.segments).Sublist (split '/' e.1).tail := by decide +kernel
  intro hsplit
  refine hall (key, perm) hkey r hr hid ?_ ?_ ?_
  · simp [hsplit]
  · simp [hsplit, hlen]
  · simpa [hsplit] using hsub

theorem no_head_key (hkey : (key, perm) ∈ routeMapping)
    (segs : List String) : split '/' key ≠ "HEAD " :: segs := by
  have hall : ∀ e ∈ routeMapping, (split '/' e.1).head? ≠ some "HEAD " := by decide +kernel
  intro hsplit
  apply hall (key, perm) hkey
  simp [hsplit]

/-- A request with a single-segment id that is not covered resolves to nothing. -/
theorem resolve_none_of_not_covered (hr : r ∈ muxRoutes) (hz : r ≠ healthzRoute)
    {value : String} (hm : r.accepts m = true) (hv : '/' ∉ value.toList)
    (hcov : ¬ Covered r m value) : resolve (r.request m value) = none := by
  rw [resolve_request hr hz]
  cases hlookup : routeMapping.lookup (routeKey m (cleaned r.segments value)) with
  | none => rfl
  | some perm =>
    exfalso
    have hmem := lookup_mem hlookup
    have hsplit := split_key hr hz m value hm
    rcases accepts_cases hm with rfl | ⟨_, rfl⟩
    · by_cases hid : .id ∈ r.segments → Plain value
      · -- the key is the pattern's own, so the pattern itself has no entry
        have hun : r ∈ unmappedRoutes := by
          by_contra hun
          exact hcov ⟨hun, rfl, hid⟩
        apply (routePermission_isSome_iff hr hz).mp _ hun
        unfold routePermission
        rw [resolve_request hr hz,
          ← (cleaned_eq_iff r.segments value plain_idText).mpr hid, hlookup]
        rfl
      · rw [Classical.not_imp] at hid
        have hlen := length_cleaned r.segments value plain_idText
        have hsub := cleaned_sublist r.segments value plain_idText
        have hcount : ∀ r ∈ muxRoutes, r.segments.count .id ≤ 1 := by decide
        have hone : r.segments.count .id = 1 :=
          le_antisymm (hcount r hr) (count_pos_iff.mpr hid.1)
        rw [hone, knownParts_of_notMem value hv hid.2] at hlen
        rw [knownLits_eq hr] at hlen hsub
        exact no_longer_key hr hid.1 hmem hlen hsub hsplit
    · exact no_head_key hmem _ hsplit

/-- The first thing that happens is the evaluation of this permission. -/
def EvaluatesFirst (perm : Permission) (req : Request) : Prop :=
  ∀ (engine : Engine) (emitter : Bool) (who : Identity),
    (gateway engine emitter who req).head? = some (.evaluate (evalRequest who perm))

/-- Whatever the engine and the caller, the handler runs and nothing else happens. -/
def RunsUnchecked (r : Route) (req : Request) : Prop :=
  ∀ (engine : Engine) (emitter : Bool) (who : Identity),
    gateway engine emitter who req = [.handle (some r)]

theorem evaluatesFirst_iff (perm : Permission) (req : Request) :
    EvaluatesFirst perm req ↔ resolve req = some perm := by
  constructor
  · intro h
    have hfirst := h (evaluate []) false ⟨"", "", "", ""⟩
    cases hres : resolve req with
    | none =>
      rw [gateway_of_resolve_none _ _ _ hres] at hfirst
      simp at hfirst
    | some perm' =>
      obtain ⟨logs, _, htrace⟩ :=
        gateway_of_resolve_some (evaluate []) false ⟨"", "", "", ""⟩ hres
      rw [htrace] at hfirst
      simpa [evalRequest] using hfirst
  · intro h engine emitter who
    obtain ⟨logs, _, htrace⟩ := gateway_of_resolve_some engine emitter who h
    rw [htrace]
    rfl

/-- A request is evaluated under its route's own permission before the handler runs exactly when it
is covered. -/
theorem route_policy_iff (r : Route) (hr : r ∈ muxRoutes) (hz : r ≠ healthzRoute)
    (m value : String) (hm : r.accepts m = true) (hv : value ≠ "") :
    mux (r.request m value) = some r ∧
    ((∃ perm, routePermission r = some perm ∧ EvaluatesFirst perm (r.request m value)) ↔
      r ∉ unmappedRoutes ∧ m = r.method ∧ (.id ∈ r.segments → Plain value)) ∧
    ('/' ∉ value.toList →
      ¬ (r ∉ unmappedRoutes ∧ m = r.method ∧ (.id ∈ r.segments → Plain value)) →
      RunsUnchecked r (r.request m value)) := by
  have hmux := mux_request hr hm hv
  refine ⟨hmux, ?_, ?_⟩
  · simp only [evaluatesFirst_iff]
    exact resolve_routePermission_iff hr hz m value hm
  · intro hslash hcov engine emitter who
    have hnone := resolve_none_of_not_covered hr hz hm hslash hcov
    rw [gateway_of_resolve_none engine emitter who hnone, hmux]

theorem squad_run_evaluated :
    ∃ perm, routePermission (v1 "POST" [.lit "squads", .id, .lit "run"]) = some perm ∧
      EvaluatesFirst perm ((v1 "POST" [.lit "squads", .id, .lit "run"]).request "POST" "s-1") := by
  have hplain : Plain "s-1" := by
    unfold Plain
    decide
  exact (route_policy_iff (v1 "POST" [.lit "squads", .id, .lit "run"]) (by decide) (by decide)
    "POST" "s-1" (by decide) (by decide)).2.1.mpr ⟨by decide, rfl, fun _ => hplain⟩

/-- Deleting a commitment and running a squad named `run` are never evaluated. -/
theorem delete_commitment_unchecked :
    RunsUnchecked (v2 "DELETE" [.lit "commitments", .id])
      ((v2 "DELETE" [.lit "commitments", .id]).request "DELETE" "c-42") ∧
    RunsUnchecked (v1 "POST" [.lit "squads", .id, .lit "run"])
      ((v1 "POST" [.lit "squads", .id, .lit "run"]).request "POST" "run") := by
  constructor
  · intro engine emitter who
    rw [gateway_of_resolve_none engine emitter who
      (resolve_none_of_not_covered (by decide) (by decide) (by decide) (by decide) ?_),
      mux_request (by decide) (by decide) (by decide)]
    exact fun hcov => hcov.1 (by decide)
  · intro engine emitter who
    rw [gateway_of_resolve_none engine emitter who
      (resolve_none_of_not_covered (by decide) (by decide) (by decide) (by decide) ?_),
      mux_request (by decide) (by decide) (by decide)]
    intro hcov
    have hplain := hcov.2.2 (by decide)
    unfold Plain at hplain
    exact absurd hplain (by decide)

end IronGolem.RouteCoverage
