import Mathlib.Data.List.Basic

/-!
Fetching of research sources. FetchSource checks the scheme and the host of the URL it is given. The
client then follows redirects as long as CheckRedirect returns nil, which counts the requests and
does not look where they go.
-/
namespace IronGolem.SourceFetching

open List

/-- An address as net.ParseIP gives it, of four bytes where To4 does. -/
inductive IP
  | v4 (bits : ℕ)
  | v6 (bits : ℕ)
  deriving DecidableEq, Repr

structure IPNet where
  base : IP
  ones : ℕ

def IPNet.contains : IPNet → IP → Bool
  | ⟨.v4 base, ones⟩, .v4 ip => ip >>> (32 - ones) = base >>> (32 - ones)
  | ⟨.v6 base, ones⟩, .v6 ip => ip >>> (128 - ones) = base >>> (128 - ones)
  | _, _ => false

def ipv4 (a b c d : ℕ) : IP := .v4 (((a * 256 + b) * 256 + c) * 256 + d)

def privateCIDRs : List IPNet :=
  [⟨ipv4 127 0 0 0, 8⟩, ⟨ipv4 10 0 0 0, 8⟩, ⟨ipv4 172 16 0 0, 12⟩, ⟨ipv4 192 168 0 0, 16⟩,
   ⟨ipv4 169 254 0 0, 16⟩, ⟨.v6 1, 128⟩, ⟨.v6 (0xfc00 <<< 112), 7⟩, ⟨.v6 (0xfe80 <<< 112), 10⟩]

structure URL where
  scheme : String
  hostname : String
  deriving DecidableEq, Repr

/-- The functions strings.ToLower, net.ParseIP and url.Parse. -/
structure Library where
  toLower : String → String
  parseIP : String → Option IP
  parse : String → Except String URL

inductive FetchError
  | invalidURL (err : String)
  | unsupportedScheme (scheme : String)
  | privateAddress
  | notInAllowlist (host : String)
  | fetching (rawURL : String) (err : String)
  | readingBody (err : String)

/-- A response whose body may break off with an error. -/
structure Response where
  body : List UInt8
  broken : Option String
  statusCode : ℕ

structure FetchResult where
  content : List UInt8
  statusCode : ℕ

/-- An error behind the first two megabytes is not come upon. -/
def readBody (resp : Response) : Except FetchError FetchResult :=
  match resp.broken.filter (fun _ => resp.body.length < 2 * 1024 * 1024) with
  | some err => .error (.readingBody err)
  | none => .ok ⟨resp.body.take (2 * 1024 * 1024), resp.statusCode⟩

def checkRedirect (via : List URL) : Option String :=
  if 3 ≤ via.length then some "stopped after 3 redirects" else none

/-- The requests of the client, given where each response redirects to and how the last one ends. -/
def clientDo (via : List URL) (answer : Except String Response) :
    List URL → List URL × Except String Response
  | [] => (via, answer)
  | location :: rest =>
    match checkRedirect via with
    | some err => (via, .error err)
    | none => clientDo (via ++ [location]) answer rest

variable (lib : Library) (hosts : List String) (rawURL : String) (locations : List URL)
  (answer : Except String Response)

def isPrivateHost (host : String) : Bool :=
  let lower := lib.toLower host
  if lower = "localhost" ∨ lower = "::1" ∨ lower = "0.0.0.0" then true
  else if lower = "metadata.google.internal" ∨ lower = "169.254.169.254" then true
  else match lib.parseIP host with
    | none => false
    | some ip => privateCIDRs.any (fun ipNet => ipNet.contains ip)

def allowedHosts : List String := hosts.map lib.toLower

def check : Except FetchError URL :=
  match lib.parse rawURL with
  | .error err => .error (.invalidURL err)
  | .ok parsed =>
    if parsed.scheme ≠ "http" ∧ parsed.scheme ≠ "https" then
      .error (.unsupportedScheme parsed.scheme)
    else if isPrivateHost lib parsed.hostname then .error .privateAddress
    else if allowedHosts lib hosts ≠ [] ∧ lib.toLower parsed.hostname ∉ allowedHosts lib hosts then
      .error (.notInAllowlist parsed.hostname)
    else .ok parsed

def fetchSource : List URL × Except FetchError FetchResult :=
  match check lib hosts rawURL with
  | .error err => ([], .error err)
  | .ok parsed =>
    match clientDo [parsed] answer locations with
    | (requests, .error err) => (requests, .error (.fetching rawURL err))
    | (requests, .ok resp) => (requests, readBody resp)

def Checked (url : URL) : Prop :=
  (url.scheme = "http" ∨ url.scheme = "https") ∧ isPrivateHost lib url.hostname = false ∧
    (allowedHosts lib hosts ≠ [] → lib.toLower url.hostname ∈ allowedHosts lib hosts)

def EveryHopChecked : Prop :=
  (∀ url ∈ (fetchSource lib hosts rawURL locations answer).1, Checked lib hosts url) ∧
    (fetchSource lib hosts rawURL locations answer).1.length ≤ 3

theorem clientDo_fst (via : List URL) :
    (clientDo via answer locations).1 = via ++ locations.take (3 - via.length) := by
  induction locations generalizing via with
  | nil => simp [clientDo]
  | cons location rest ih =>
    unfold clientDo checkRedirect
    split
    · rename_i hstop
      split at hstop
      · simp [show 3 - via.length = 0 by omega]
      · cases hstop
    · rename_i hgo
      split at hgo
      · cases hgo
      · obtain ⟨k, hk⟩ : ∃ k, 3 - via.length = k + 1 := ⟨2 - via.length, by omega⟩
        rw [ih, hk, length_append, length_singleton, show 3 - (via.length + 1) = k by omega]
        simp

variable {lib hosts rawURL}

theorem check_eq_ok_iff {parsed : URL} :
    check lib hosts rawURL = .ok parsed ↔
      lib.parse rawURL = .ok parsed ∧ Checked lib hosts parsed := by
  unfold check
  split
  · rename_i hparse
    simp [hparse]
  · rename_i url hparse
    rw [hparse, Except.ok.injEq]
    unfold Checked
    grind

theorem fetchSource_fst :
    (fetchSource lib hosts rawURL locations answer).1 =
      match check lib hosts rawURL with
      | .error _ => []
      | .ok parsed => parsed :: locations.take 2 := by
  unfold fetchSource
  split
  · rfl
  · rename_i parsed _
    have hrequests := clientDo_fst locations answer [parsed]
    split <;> simpa [*] using hrequests

variable (lib hosts rawURL)

/-- Every hop is checked exactly when the redirects that are followed lead to URLs which pass the
checks of the first one. -/
theorem everyHopChecked_iff :
    EveryHopChecked lib hosts rawURL locations answer ↔
      ∀ parsed, lib.parse rawURL = .ok parsed → Checked lib hosts parsed →
        ∀ location ∈ locations.take 2, Checked lib hosts location := by
  unfold EveryHopChecked
  rw [fetchSource_fst]
  cases hcheck : check lib hosts rawURL with
  | error err =>
    refine iff_of_true (by simp) ?_
    intro parsed hparse hchecked
    rw [check_eq_ok_iff.mpr ⟨hparse, hchecked⟩] at hcheck
    cases hcheck
  | ok parsed =>
    obtain ⟨hparse, hchecked⟩ := check_eq_ok_iff.mp hcheck
    have hlength : (parsed :: locations.take 2).length ≤ 3 := by
      rw [length_cons, length_take]
      omega
    rw [and_iff_left hlength]
    simp [hparse, hchecked]

theorem redirect_to_localhost :
    ¬ EveryHopChecked ⟨id, fun _ => none, fun _ => .ok ⟨"https", "go.dev"⟩⟩ [] "https://go.dev/"
      [⟨"http", "localhost"⟩] (.ok ⟨[], none, 200⟩) := by
  rintro ⟨hchecked, -⟩
  have hlocal := (hchecked ⟨"http", "localhost"⟩ (by decide)).2.1
  revert hlocal
  decide

end IronGolem.SourceFetching
