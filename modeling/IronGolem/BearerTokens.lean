import IronGolem.InboundRequests

/-!
Bearer tokens from the call that mints them to the check that accepts them. A token is the fields
of its claims and the second of its expiry between colons, then a dot and the keyed hash of all
that. No field may hold a colon or a dot, so the parts of a token are found again whatever else the
fields hold.
-/
namespace IronGolem.BearerTokens

open InboundRequests SeparatedText Rfc3339 List

def decimal (n : ℕ) : List Char :=
  match (toDigits 20 n).dropWhile (· == '0') with
  | [] => ['0']
  | digits => digits

def formatInt (n : ℤ) : String :=
  String.ofList (if n < 0 then '-' :: decimal n.natAbs else decimal n.natAbs)

theorem ofDigits_dropWhile (digits : List Char) :
    ofDigits (digits.dropWhile (· == '0')) = ofDigits digits := by
  induction digits with
  | nil => rfl
  | cons c digits ih =>
    by_cases hc : c = '0'
    · rw [dropWhile_cons_of_pos (by simpa using hc), ih, hc]
      rfl
    · rw [dropWhile_cons_of_neg (by simpa using hc)]

theorem ofDigits_decimal {n : ℕ} (h : n < 10 ^ 20) : ofDigits (decimal n) = some n := by
  have hvalue := ofDigits_dropWhile (toDigits 20 n)
  rw [ofDigits_toDigits, Nat.mod_eq_of_lt h] at hvalue
  unfold decimal
  split
  · rename_i hnil
    rw [hnil] at hvalue
    cases hvalue
    rfl
  · exact hvalue

theorem decimal_digits (n : ℕ) : ∀ c ∈ decimal n, (digitValue c).isSome = true := by
  intro c hc
  unfold decimal at hc
  split at hc
  · rw [mem_singleton.mp hc]
    rfl
  · exact toDigits_all 20 n c ((dropWhile_sublist _).subset hc)

theorem decimal_ne_nil (n : ℕ) : decimal n ≠ [] := by
  unfold decimal
  split
  · simp
  · rename_i hne
    exact hne

theorem parseInt_formatInt {n : ℤ} (hlow : -2 ^ 63 ≤ n) (hhigh : n < 2 ^ 63) :
    parseInt (formatInt n) = some n := by
  have hvalue := ofDigits_decimal (n := n.natAbs) (by omega)
  have hne := decimal_ne_nil n.natAbs
  have hdigits := decimal_digits n.natAbs
  have hrange : (some n).filter (fun v => decide (-2 ^ 63 ≤ v ∧ v < 2 ^ 63)) = some n := by
    simpa using ⟨hlow, hhigh⟩
  unfold formatInt parseInt
  rw [String.toList_ofList]
  by_cases hneg : n < 0
  · have habs : -(n.natAbs : ℤ) = n := by omega
    rw [if_pos hneg]
    simp only [if_neg hne, hvalue]
    change (some (-(n.natAbs : ℤ))).filter _ = some n
    rw [habs, hrange]
  · have habs : (n.natAbs : ℤ) = n := by omega
    rw [if_neg hneg]
    generalize decimal n.natAbs = digits at hvalue hne hdigits
    split
    · exact absurd (hdigits '-' (by simp)) (by decide)
    · exact absurd (hdigits '+' (by simp)) (by decide)
    · simp only [if_neg hne, hvalue]
      change (some (n.natAbs : ℤ)).filter _ = some n
      rw [habs, hrange]

theorem colon_notMem_formatInt (n : ℤ) : ':' ∉ (formatInt n).toList := by
  have hdigits := decimal_digits n.natAbs
  have hcolon : ':' ∉ decimal n.natAbs := fun h => absurd (hdigits ':' h) (by decide)
  unfold formatInt
  rw [String.toList_ofList]
  split
  · simpa using hcolon
  · exact hcolon

/-- Claims to be minted, their expiry in nanoseconds since 1970. -/
structure MintClaims where
  tenantID : String
  workspaceID : String
  userID : String
  agentRole : String
  channelID : String
  expiresAt : ℤ
  expiresAt_mem : -2 ^ 63 ≤ expiresAt / second + 62135596800 ∧
    expiresAt / second + 62135596800 < 2 ^ 63

inductive MintError where
  | secretRequired
  | tenantRequired
  | expiryNotInFuture
  | separatorInField (field : String)
  deriving DecidableEq, Repr

namespace MintClaims

variable (c : MintClaims)

def fields : List String :=
  [c.tenantID, c.workspaceID, c.userID, c.agentRole, c.channelID]

def expUnix : ℤ := c.expiresAt / second

def payload : String := joinWith ':' (c.fields ++ [formatInt c.expUnix])

def truncated : TokenClaims :=
  ⟨c.tenantID, c.workspaceID, c.userID, c.agentRole, c.channelID, c.expUnix⟩

end MintClaims

def hasSeparator (field : String) : Bool := field.toList.any (fun c => c = ':' || c = '.')

section

variable (hmacHex : String → String → String)

def mintToken (c : MintClaims) (secret : String) (now : ℤ) : Except MintError String :=
  if secret = "" then .error .secretRequired
  else if c.tenantID = "" then .error .tenantRequired
  else if ¬ now < c.expiresAt then .error .expiryNotInFuture
  else match c.fields.find? hasSeparator with
    | some field => .error (.separatorInField field)
    | none => .ok (signed hmacHex secret c.payload)

/-- A string whose hash verifies was made by a call that minted its very payload. -/
def Unforged (secret : String) (minted : Set MintClaims) (token : String) : Prop :=
  ∀ payload, token = signed hmacHex secret payload → ∃ c ∈ minted, c.payload = payload

variable (c : MintClaims) (secret : String) (now : ℤ) (token : String)

theorem mintToken_eq_ok_iff :
    mintToken hmacHex c secret now = .ok token ↔
      secret ≠ "" ∧ c.tenantID ≠ "" ∧ now < c.expiresAt ∧
        (∀ field ∈ c.fields, hasSeparator field = false) ∧
        token = signed hmacHex secret c.payload := by
  unfold mintToken
  by_cases hsecret : secret = ""
  · simp [hsecret]
  by_cases htenant : c.tenantID = ""
  · simp [hsecret, htenant]
  by_cases hnow : now < c.expiresAt
  · cases hfind : c.fields.find? hasSeparator with
    | none =>
      have hall : ∀ field ∈ c.fields, hasSeparator field = false := by
        simpa using find?_eq_none.mp hfind
      simp only [hsecret, htenant, hnow, not_true_eq_false, if_false, Except.ok.injEq]
      exact ⟨fun h => ⟨hsecret, htenant, trivial, hall, h.symm⟩, fun h => h.2.2.2.2.symm⟩
    | some field =>
      have hbad : ¬ ∀ field ∈ c.fields, hasSeparator field = false := by
        intro hall
        have hsep := find?_some hfind
        rw [hall field (mem_of_find?_eq_some hfind)] at hsep
        cases hsep
      simp [hsecret, htenant, hnow, hbad]
  · simp [hsecret, htenant, hnow]

theorem colon_notMem_of_hasSeparator (field : String) (h : hasSeparator field = false) :
    ':' ∉ field.toList := by
  intro hmem
  have hsep : hasSeparator field = true := any_eq_true.mpr ⟨':', hmem, by decide⟩
  rw [hsep] at h
  cases h

theorem split_payload (h : ∀ field ∈ c.fields, hasSeparator field = false) :
    split ':' c.payload = c.fields ++ [formatInt c.expUnix] := by
  refine split_joinWith_of_notMem ':' (by simp [MintClaims.fields]) ?_
  intro part hpart
  rcases mem_append.mp hpart with hfield | hexp
  · exact colon_notMem_of_hasSeparator part (h part hfield)
  · rw [mem_singleton.mp hexp]
    exact colon_notMem_formatInt c.expUnix

theorem parseInt_expUnix (h : -2 ^ 63 ≤ c.expUnix) :
    parseInt (formatInt c.expUnix) = some c.expUnix := by
  have hmem := c.expiresAt_mem
  refine parseInt_formatInt (n := c.expUnix) h ?_
  unfold MintClaims.expUnix
  omega

/-- What is known of a string that is accepted. -/
theorem verifyToken_eq_ok (secret : String) (now clockSkew : ℤ) (claims : TokenClaims)
    (h : verifyToken hmacHex token secret now clockSkew = .ok claims) :
    ∃ payload exp, token = signed hmacHex secret payload ∧
      split ':' payload = [claims.tenantID, claims.workspaceID, claims.userID, claims.agentRole,
        claims.channelID, exp] ∧
      parseInt exp = some claims.expiresAt ∧ now ≤ claims.expiresAt * second + clockSkew ∧
      claims.tenantID ≠ "" := by
  unfold verifyToken at h
  split at h
  · cases h
  split at h
  · cases h
  rename_i payload gotMac hcut
  split at h
  · cases h
  split at h
  · cases h
  rename_i hmac
  split at h
  · rename_i tenantID workspaceID userID agentRole channelID exp hparts
    split at h
    · cases h
    rename_i expUnix hexp
    split at h
    · cases h
    rename_i hlive
    split at h
    · cases h
    rename_i htenant
    cases h
    refine ⟨payload, exp, ?_, hparts, hexp, not_lt.mp hlive, htenant⟩
    rw [append_of_splitLast '.' token hcut, not_not.mp hmac]
    rfl
  · cases h

theorem expUnix_nonneg (mintedAt : ℕ)
    (h : mintToken hmacHex c secret mintedAt = .ok token) : 0 ≤ c.expUnix := by
  obtain ⟨-, -, hnow, -⟩ := (mintToken_eq_ok_iff hmacHex c secret mintedAt token).mp h
  exact Int.ediv_nonneg (by omega) (by decide)

theorem verifyToken_minted (hmac : ∀ secret payload,
      hmacHex secret payload ≠ "" ∧ '.' ∉ (hmacHex secret payload).toList)
    {c : MintClaims} {secret token : String} {mintedAt : ℕ} {now clockSkew : ℤ}
    (h : mintToken hmacHex c secret mintedAt = .ok token)
    (hlive : now ≤ c.expUnix * second + clockSkew) :
    verifyToken hmacHex token secret now clockSkew = .ok c.truncated := by
  have hexp := expUnix_nonneg hmacHex c secret token mintedAt h
  obtain ⟨hsecret, htenant, -, hfields, rfl⟩ :=
    (mintToken_eq_ok_iff hmacHex c secret mintedAt token).mp h
  refine verifyToken_of_fields hmacHex secret now clockSkew c.truncated (formatInt c.expUnix)
    hsecret htenant ?_ (parseInt_expUnix c (by omega)) hlive (hmac secret)
  intro part hpart
  rcases mem_append.mp (show part ∈ c.fields ++ [formatInt c.expUnix] from hpart) with
    hfield | hlast
  · exact colon_notMem_of_hasSeparator part (hfields part hfield)
  · rw [mem_singleton.mp hlast]
    exact colon_notMem_formatInt c.expUnix

theorem claims_of_payload (minted : String) (mintedAt : ℕ)
    (now clockSkew : ℤ) (claims : TokenClaims)
    (hmint : mintToken hmacHex c secret mintedAt = .ok minted)
    (hpayload : ∀ payload, token = signed hmacHex secret payload → payload = c.payload)
    (h : verifyToken hmacHex token secret now clockSkew = .ok claims) : claims = c.truncated := by
  have hnonneg := expUnix_nonneg hmacHex c secret minted mintedAt hmint
  obtain ⟨-, -, -, hfields, -⟩ := (mintToken_eq_ok_iff hmacHex c secret mintedAt minted).mp hmint
  obtain ⟨payload, exp, htoken, hparts, hexp, -⟩ := verifyToken_eq_ok hmacHex token secret now
    clockSkew claims h
  rw [hpayload payload htoken, split_payload c hfields] at hparts
  obtain ⟨tenantID, workspaceID, userID, agentRole, channelID, expiresAt⟩ := claims
  obtain ⟨rfl, rfl, rfl, rfl, rfl, rfl⟩ := hparts
  rw [parseInt_expUnix c (by omega)] at hexp
  cases hexp
  rfl

theorem signed_injective (hmac : ∀ secret payload,
      hmacHex secret payload ≠ "" ∧ '.' ∉ (hmacHex secret payload).toList)
    {secret payload other : String}
    (h : signed hmacHex secret payload = signed hmacHex secret other) : payload = other := by
  have hcut := splitLast_append '.' payload _ (hmac secret payload).2
  have hcut' := splitLast_append '.' other _ (hmac secret other).2
  unfold signed at h
  rw [h, hcut'] at hcut
  exact (Prod.mk.inj (Option.some.inj hcut)).1.symm

/-- Minted strings come back as minted and, unless forged, nothing else does. -/
theorem tokens_round_trip_and_are_authentic (hmac : ∀ secret payload,
      hmacHex secret payload ≠ "" ∧ '.' ∉ (hmacHex secret payload).toList)
    (secret : String) (minted : Set MintClaims)
    (hminted : ∀ c ∈ minted, ∃ (mintedAt : ℕ) (token : String),
      mintToken hmacHex c secret mintedAt = .ok token) :
    (∀ (c : MintClaims) (mintedAt : ℕ) (token : String) (now clockSkew : ℤ),
      mintToken hmacHex c secret mintedAt = .ok token →
        now ≤ c.expUnix * second + clockSkew →
        verifyToken hmacHex token secret now clockSkew = .ok c.truncated) ∧
    (∀ (token : String) (now clockSkew : ℤ) (claims : TokenClaims),
      Unforged hmacHex secret minted token →
        verifyToken hmacHex token secret now clockSkew = .ok claims →
        (∃ c ∈ minted, token = signed hmacHex secret c.payload) ∧
          (∀ c ∈ minted, token = signed hmacHex secret c.payload →
            claims = c.truncated ∧ now ≤ c.expUnix * second + clockSkew)) ∧
    (∀ (c : MintClaims) (mintedAt : ℕ) (token : String) (now clockSkew : ℤ)
      (claims : TokenClaims), mintToken hmacHex c secret mintedAt = .ok token →
        verifyToken hmacHex token secret now clockSkew = .ok claims → claims = c.truncated) := by
  refine ⟨?_, ?_, ?_⟩
  · intro c mintedAt token now clockSkew h hlive
    exact verifyToken_minted hmacHex hmac (c := c) h hlive
  · intro token now clockSkew claims hunforged h
    obtain ⟨payload, -, htoken, -, -, hlive, -⟩ := verifyToken_eq_ok hmacHex token secret now
      clockSkew claims h
    obtain ⟨c₀, hc₀, hpayload⟩ := hunforged payload htoken
    refine ⟨⟨c₀, hc₀, by rw [hpayload, htoken]⟩, ?_⟩
    intro c hc hsigned
    obtain ⟨mintedAt, string, hmint⟩ := hminted c hc
    have hclaims := claims_of_payload hmacHex c secret token string mintedAt now clockSkew claims
      hmint (fun p hp => signed_injective hmacHex hmac (hp ▸ hsigned)) h
    refine ⟨hclaims, ?_⟩
    rw [hclaims] at hlive
    exact hlive
  · intro c mintedAt token now clockSkew claims hmint h
    obtain ⟨-, -, -, -, htoken⟩ := (mintToken_eq_ok_iff hmacHex c secret mintedAt token).mp hmint
    exact claims_of_payload hmacHex c secret token token mintedAt now clockSkew claims hmint
      (fun p hp => signed_injective hmacHex hmac (hp ▸ htoken)) h

end

/-- Claims with an empty workspace, a space, a line break and letters outside ASCII. -/
def visitor : MintClaims :=
  ⟨"tenant a", "", "Zoë", "line\nbreak", "web", 1900000000500000000, by decide⟩

theorem visitor_token_round_trip :
    verifyToken sumHex (signed sumHex "key" visitor.payload) "key"
        1900000000000000000 0 = .ok visitor.truncated ∧
      ∀ claims, verifyToken sumHex
          (signed sumHex "key" visitor.payload) "key" 1900000000000000000 0 =
            .ok claims → claims = visitor.truncated := by
  have hmint : mintToken sumHex visitor "key" (0 : ℕ) =
      .ok (signed sumHex "key" visitor.payload) :=
    (mintToken_eq_ok_iff _ _ _ _ _).mpr ⟨by decide, by decide, by decide, by decide, rfl⟩
  obtain ⟨hround, hauthentic, -⟩ := tokens_round_trip_and_are_authentic sumHex
    sumHex_plain "key" { visitor }
    (fun c hc => ⟨0, _, (Set.mem_singleton_iff.mp hc) ▸ hmint⟩)
  refine ⟨hround visitor 0 _ _ _ hmint (by decide), ?_⟩
  intro claims h
  have hunforged : Unforged sumHex "key" { visitor }
      (signed sumHex "key" visitor.payload) := by
    intro payload hpayload
    exact ⟨visitor, rfl, signed_injective _ sumHex_plain hpayload⟩
  exact ((hauthentic _ _ _ claims hunforged h).2 visitor rfl rfl).1

end IronGolem.BearerTokens
