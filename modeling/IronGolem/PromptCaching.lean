import Mathlib.Data.List.Induction
import Mathlib.Data.Rat.Lemmas
import Mathlib.Data.Set.Function

/-!
The prompt cache. A request is hashed as one text in which the model, the system prompt and the
messages are separated by bars, so that requests whose parts contain bars may share an entry. The
cache serves only answers of the same request exactly when no two requests share their text.
-/
namespace IronGolem.PromptCaching

open List

structure CacheEntry where
  response : String
  cachedAt : ℤ
  hitCount : ℕ
  ttl : ℤ
  model : String
  inputTokens : ℤ
  estimatedCost : ℚ

def CacheEntry.isExpired (e : CacheEntry) (now : ℤ) : Bool := e.ttl < now - e.cachedAt

structure PromptCache where
  entries : List (String × CacheEntry)
  ttl : ℤ
  hits : ℕ
  misses : ℕ
  evictions : ℕ
  costSaved : ℚ

def defaultCacheTTL : ℤ := 30 * 60 * 1000000000

def newPromptCache (ttl : ℤ) : PromptCache :=
  ⟨[], if ttl ≤ 0 then defaultCacheTTL else ttl, 0, 0, 0, 0⟩

structure Request where
  model : String
  systemPrompt : String
  messages : List String
  deriving DecidableEq

/-- The bytes that are written to the hash. -/
def hashed (r : Request) : String :=
  r.model ++ "|" ++ r.systemPrompt ++ "|" ++ "|".intercalate r.messages

/-- A hash without collisions, written in hexadecimal. -/
structure Sha256 where
  digest : String → String
  injective : Function.Injective digest

def makeCacheKey (h : Sha256) (r : Request) : String := h.digest (hashed r)

def without (entries : List (String × CacheEntry)) (key : String) : List (String × CacheEntry) :=
  entries.filter (fun p => p.1 ≠ key)

def get (pc : PromptCache) (key : String) (now : ℤ) : PromptCache × Option String :=
  match pc.entries.find? (fun p => p.1 = key) with
  | none => ({ pc with misses := pc.misses + 1 }, none)
  | some (_, entry) =>
    if entry.isExpired now then
      ({ pc with
        entries := without pc.entries key
        evictions := pc.evictions + 1
        misses := pc.misses + 1 }, none)
    else
      ({ pc with
        entries := (key, { entry with hitCount := entry.hitCount + 1 }) :: without pc.entries key
        hits := pc.hits + 1
        costSaved := pc.costSaved + entry.estimatedCost }, some entry.response)

def put (pc : PromptCache) (key response model : String) (inputTokens : ℤ) (estimatedCost : ℚ)
    (now : ℤ) : PromptCache :=
  { pc with entries :=
      (key, ⟨response, now, 0, pc.ttl, model, inputTokens, estimatedCost⟩) ::
        without pc.entries key }

def evict (pc : PromptCache) (now : ℤ) : PromptCache :=
  let kept := pc.entries.filter (fun p => !p.2.isExpired now)
  { pc with entries := kept, evictions := pc.evictions + (pc.entries.length - kept.length) }

def clear (pc : PromptCache) : PromptCache := ⟨[], pc.ttl, 0, 0, 0, 0⟩

inductive Op
  | put (r : Request) (response model : String) (inputTokens : ℤ) (estimatedCost : ℚ) (now : ℤ)
  | get (r : Request) (now : ℤ)
  | evict (now : ℤ)
  | clear

def Op.request : Op → Option Request
  | .put r _ _ _ _ _ | .get r _ => some r
  | .evict _ | .clear => none

def Op.time : Op → Option ℤ
  | .put _ _ _ _ _ now | .get _ now | .evict now => some now
  | .clear => none

variable (h : Sha256)

def apply (pc : PromptCache) : Op → PromptCache
  | .put r response model tokens cost now =>
    put pc (makeCacheKey h r) response model tokens cost now
  | .get r now => (get pc (makeCacheKey h r) now).1
  | .evict now => evict pc now
  | .clear => clear pc

def after (ttl : ℤ) (ops : List Op) : PromptCache := ops.foldl (apply h) (newPromptCache ttl)

/-- The response and the time of the latest Put for the requests of a kind. -/
def latestPut (kind : Request → Bool) (ops : List Op) : Option (String × ℤ) :=
  ops.foldl (fun last op => match op with
    | .put r response _ _ _ now => if kind r then some (response, now) else last
    | _ => last) none

def getsSinceClear (ops : List Op) : ℕ :=
  ops.foldl (fun n op => match op with
    | .get _ _ => n + 1
    | .clear => 0
    | _ => n) 0

/-- A hit is answered by the latest Put of the same request, inside its time to live. -/
def ServesOwn (ttl : ℤ) (requests : Set Request) : Prop :=
  ∀ ops r now response, (∀ op ∈ ops ++ [Op.get r now], ∀ q ∈ op.request, q ∈ requests) →
    ((ops ++ [Op.get r now]).filterMap Op.time).Pairwise (· ≤ ·) →
    (get (after h ttl ops) (makeCacheKey h r) now).2 = some response →
    ∃ cachedAt, latestPut (fun q => q = r) ops = some (response, cachedAt) ∧
      now - cachedAt ≤ (newPromptCache ttl).ttl

structure Accounted (ttl : ℤ) (ops : List Op) (pc : PromptCache) : Prop where
  put : ∀ e ∈ pc.entries, latestPut (fun r => makeCacheKey h r = e.1) ops =
    some (e.2.response, e.2.cachedAt) ∧ e.2.ttl = ttl
  ttl : pc.ttl = ttl
  counted : pc.hits + pc.misses = getsSinceClear ops

variable {h} {ops : List Op}

theorem latestPut_congr {kind kind' : Request → Bool}
    (hsame : ∀ op ∈ ops, ∀ r ∈ op.request, kind r = kind' r) :
    latestPut kind ops = latestPut kind' ops := by
  induction ops using reverseRecOn with
  | nil => rfl
  | append_singleton ops op ih =>
    have hbefore := ih fun op hop => hsame op (mem_append_left _ hop)
    have hlast := hsame op (by simp)
    unfold latestPut at hbefore ⊢
    rw [foldl_append, foldl_append, hbefore]
    cases op with
    | put r response model tokens cost now => simp [hlast r rfl]
    | _ => rfl

theorem mem_of_find {entries : List (String × CacheEntry)} {key k : String} {e : CacheEntry}
    (hfind : entries.find? (fun p => p.1 = key) = some (k, e)) : (key, e) ∈ entries := by
  have hkey : k = key := by simpa using find?_some hfind
  exact hkey ▸ mem_of_find?_eq_some hfind

variable {pc : PromptCache} {ttl : ℤ}

/-- What an operation other than a Put leaves in the cache was there before. -/
theorem accounted_of_kept {pc' : PromptCache} {op : Op}
    (hpc : Accounted h ttl ops pc) (hop : ∀ kind, latestPut kind (ops ++ [op]) = latestPut kind ops)
    (hkept : ∀ e ∈ pc'.entries, ∃ n, (e.1, { e.2 with hitCount := n }) ∈ pc.entries)
    (httl : pc'.ttl = pc.ttl) (hcounted : pc'.hits + pc'.misses = getsSinceClear (ops ++ [op])) :
    Accounted h ttl (ops ++ [op]) pc' := by
  refine ⟨?_, httl.trans hpc.ttl, hcounted⟩
  intro e he
  obtain ⟨n, hold⟩ := hkept e he
  rw [hop]
  exact hpc.put (e.1, { e.2 with hitCount := n }) hold

theorem accounted_get (hpc : Accounted h ttl ops pc) (r : Request) (now : ℤ) :
    Accounted h ttl (ops ++ [.get r now]) (get pc (makeCacheKey h r) now).1 := by
  have hcounted := hpc.counted
  have hgets : getsSinceClear (ops ++ [.get r now]) = getsSinceClear ops + 1 := by
    simp [getsSinceClear]
  have hop : ∀ kind, latestPut kind (ops ++ [.get r now]) = latestPut kind ops := by
    simp [latestPut]
  unfold get
  split
  · exact accounted_of_kept hpc hop (fun e he => ⟨_, he⟩) rfl (by grind)
  · rename_i k entry hfind
    split
    · exact accounted_of_kept hpc hop (fun e he => ⟨_, (mem_filter.mp he).1⟩) rfl (by grind)
    · refine accounted_of_kept hpc hop ?_ rfl (by grind)
      intro e he
      rcases mem_cons.mp he with rfl | he
      · exact ⟨_, mem_of_find hfind⟩
      · exact ⟨_, (mem_filter.mp he).1⟩

theorem accounted_apply
    (hpc : Accounted h ttl ops pc) (op : Op) : Accounted h ttl (ops ++ [op]) (apply h pc op) := by
  cases op with
  | put r response model tokens cost now =>
    refine ⟨?_, hpc.ttl, by simp [apply, put, getsSinceClear, hpc.counted]⟩
    intro e he
    rcases mem_cons.mp he with rfl | he
    · simp [latestPut, hpc.ttl]
    · obtain ⟨hmem, hkey⟩ := mem_filter.mp he
      have hne : makeCacheKey h r ≠ e.1 := by simpa using Ne.symm (of_decide_eq_true hkey)
      have hold := hpc.put e hmem
      unfold latestPut at hold ⊢
      rw [foldl_append]
      simpa [hne] using hold
  | get r now => exact accounted_get hpc r now
  | evict now =>
    exact accounted_of_kept hpc (by simp [latestPut])
      (fun e he => ⟨_, (mem_filter.mp he).1⟩) rfl
      (by simp [apply, evict, getsSinceClear, hpc.counted])
  | clear => exact ⟨nofun, hpc.ttl, by simp [apply, clear, getsSinceClear]⟩

theorem accounted_after (ttl : ℤ) (ops : List Op) :
    Accounted h (newPromptCache ttl).ttl ops (after h ttl ops) := by
  induction ops using reverseRecOn with
  | nil => exact ⟨nofun, rfl, rfl⟩
  | append_singleton ops op ih =>
    unfold after at ih ⊢
    rw [foldl_append]
    exact accounted_apply ih op

theorem get_eq_some {key response : String} {now : ℤ} (hget : (get pc key now).2 = some response) :
    ∃ e, (key, e) ∈ pc.entries ∧ e.response = response ∧ now - e.cachedAt ≤ e.ttl := by
  unfold get at hget
  split at hget
  · cases hget
  · rename_i hfind
    split at hget
    · cases hget
    · rename_i e hlive
      refine ⟨e, mem_of_find hfind, Option.some.inj hget, ?_⟩
      simpa [CacheEntry.isExpired] using hlive

theorem get_put (httl : 0 ≤ pc.ttl) (key response model : String)
    (tokens : ℤ) (cost : ℚ) (now : ℤ) :
    (get (put pc key response model tokens cost now) key now).2 = some response := by
  simp [get, put, CacheEntry.isExpired, Int.not_lt.mpr httl]

theorem ttl_nonneg (ttl : ℤ) : 0 ≤ (newPromptCache ttl).ttl := by
  simp only [newPromptCache, defaultCacheTTL]
  split <;> omega

/-- Only answers of the same request are served exactly when no two requests are written to the hash
alike; hits and misses add up to the lookups. -/
theorem servesOwn_iff_injOn (h : Sha256) (ttl : ℤ) (requests : Set Request) :
    (ServesOwn h ttl requests ↔ Set.InjOn hashed requests) ∧ ∀ ops,
      (after h ttl ops).hits + (after h ttl ops).misses = getsSinceClear ops := by
  refine ⟨⟨?_, ?_⟩, fun ops => (accounted_after ttl ops).counted⟩
  · intro hserves p hp q hq hsame
    -- A lookup of q right after a Put for p.
    have hkey : makeCacheKey h p = makeCacheKey h q := congrArg h.digest hsame
    obtain ⟨cachedAt, hput, -⟩ := hserves [.put p "answer" "" 0 0 0] q 0 "answer"
      (by simp [Op.request, hp, hq]) (by simp [Op.time])
      (hkey ▸ get_put (ttl_nonneg ttl) (makeCacheKey h p) "answer" "" 0 0 0)
    have hsome : p = q ∧ 0 = cachedAt := by simpa [latestPut] using hput
    exact hsome.1
  · intro hinj ops r now response hrequests _ hget
    obtain ⟨e, he, rfl, hlive⟩ := get_eq_some hget
    obtain ⟨hput, httl⟩ := (accounted_after ttl ops).put _ he
    refine ⟨e.cachedAt, ?_, httl ▸ hlive⟩
    rw [← hput]
    apply latestPut_congr
    intro op hop q hq
    have hown := hinj (hrequests op (mem_append_left _ hop) q hq)
      (hrequests (.get r now) (by simp) r rfl)
    exact decide_eq_decide.mpr ⟨fun heq => by rw [heq], fun hkey => hown (h.injective hkey)⟩

/-- A Put for model a|b answers a lookup for model a. -/
theorem get_answers_foreign :
    let h : Sha256 := ⟨id, Function.injective_id⟩
    let ops : List Op := [.put ⟨"a|b", "c", []⟩ "answer" "a|b" 0 0 0]
    let asked : Request := ⟨"a", "b|c", []⟩
    (get (after h 1 ops) (makeCacheKey h asked) 0).2 = some "answer" ∧
      latestPut (fun q => q = asked) ops = none := by
  refine ⟨?_, rfl⟩
  exact get_put (ttl_nonneg 1) "a|b|c|" "answer" "a|b" 0 0 0

end IronGolem.PromptCaching
