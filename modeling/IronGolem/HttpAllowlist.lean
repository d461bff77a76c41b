import IronGolem.PlanGraph
import IronGolem.UrlOrigins

/-!
The tools of the local sandbox, and the check the HTTP tool makes before it sends a request. A tool
call yields the requests it sends, each by the origin it goes to, and its answer. The HTTP client
is a parameter: it reads the host of an address and answers a request; what it does with a redirect
is part of its answer.
-/
namespace IronGolem.HttpAllowlist

open JsonValues PlanGraph UrlOrigins List

inductive Capability
  | fileRead | fileWrite | networkAccess | shellExecution | envAccess | databaseAccess
  | connectorSend
  | custom (name : String)
  deriving DecidableEq

structure SandboxConfig where
  capabilities : List Capability
  allowedDestinations : List String

structure Response where
  status : ℕ
  text : Except String String

structure Client (H : Type) where
  hosts : HostParser H
  /-- What the client says of an address it does not send to. -/
  refusal : String → String
  send : String → Except String Response

/-- What a tool call does: the requests it sends and what it answers. -/
structure Call (H : Type) where
  requests : List (Origin H)
  answer : Except Error Json

def Call.refused {H : Type} (reason : String) : Call H := ⟨[], .error (.sandbox reason)⟩

abbrev Tool (H : Type) := Json → SandboxConfig → Call H

section

variable {H : Type} (client : Client H)

def Json.get (name : String) : Json → Option Json
  | .obj fields => fields.lookup name
  | _ => none

def Json.asStr : Json → Option String
  | .str text => some text
  | _ => none

def startsWith (text start : String) : Bool := start.toList.isPrefixOf text.toList

def urlOf (input : Json) : Option String := (Json.get "url" input).bind Json.asStr

def answerOf : Except String Response → Except Error Json
  | .error e => .error (.sandbox ("http_get request failed: " ++ e))
  | .ok response =>
      match response.text with
      | .error e => .error (.sandbox ("http_get body read failed: " ++ e))
      | .ok body => .ok (.obj [("status", .num response.status), ("body", .str body)])

def get (url : String) : Call H :=
  match originOf client.hosts url.toList with
  | none => ⟨[], answerOf (.error (client.refusal url))⟩
  | some origin => ⟨[origin], answerOf (client.send url)⟩

def httpGetTool : Tool H := fun input config =>
  if !config.capabilities.contains .networkAccess then
    .refused "http_get requires NetworkAccess capability"
  else
    match urlOf input with
    | none => .refused "http_get requires 'url' string input"
    | some url =>
        if !config.allowedDestinations.any (fun allowed => startsWith url allowed) then
          .refused ("destination not in allowlist: " ++ url)
        else get client url

theorem startsWith_iff (text start : String) :
    startsWith text start = true ↔ start.toList <+: text.toList :=
  isPrefixOf_iff_prefix

theorem mem_requests_get_iff (url : String) (o : Origin H) :
    o ∈ (get client url).requests ↔ originOf client.hosts url.toList = some o := by
  unfold get
  cases originOf client.hosts url.toList with
  | none => simp
  | some origin => simp [eq_comm]

theorem mem_requests_iff (input : Json) (config : SandboxConfig) (o : Origin H) :
    o ∈ (httpGetTool client input config).requests ↔
      Capability.networkAccess ∈ config.capabilities ∧
      ∃ url, urlOf input = some url ∧ originOf client.hosts url.toList = some o ∧
        ∃ allowed ∈ config.allowedDestinations, allowed.toList <+: url.toList := by
  unfold httpGetTool
  by_cases hcap : Capability.networkAccess ∈ config.capabilities
  · rw [if_neg (by simp [hcap])]
    cases hurl : urlOf input with
    | none => simp [Call.refused]
    | some url =>
      by_cases hany : config.allowedDestinations.any (startsWith url) = true
      · have hallowed : ∃ allowed ∈ config.allowedDestinations, allowed.toList <+: url.toList := by
          obtain ⟨allowed, hmem, hstart⟩ := any_eq_true.mp hany
          exact ⟨allowed, hmem, (startsWith_iff url allowed).mp hstart⟩
        simp [hany, mem_requests_get_iff, hcap, hallowed]
      · have hnone : ¬ ∃ allowed ∈ config.allowedDestinations, allowed.toList <+: url.toList := by
          intro h
          obtain ⟨allowed, hmem, hstart⟩ := h
          exact hany (any_eq_true.mpr ⟨allowed, hmem, (startsWith_iff url allowed).mpr hstart⟩)
        simp [hany, Call.refused, hnone]
  · simp [Call.refused, hcap]

def StaysOnAllowed (config : SandboxConfig) : Prop :=
  ∀ input url, urlOf input = some url → (httpGetTool client input config).requests ≠ [] →
    ∃ allowed ∈ config.allowedDestinations, ∃ o,
      originOf client.hosts url.toList = some o ∧ originOf client.hosts allowed.toList = some o

/-- Requests stay on the allowed origins exactly if no allowed destination can be continued. -/
theorem staysOnAllowed_iff_not_open (config : SandboxConfig) :
    StaysOnAllowed client config ↔
      (Capability.networkAccess ∈ config.capabilities →
        ∀ allowed ∈ config.allowedDestinations, ¬ Open allowed.toList) := by
  constructor
  · intro hstays hcap allowed hmem hopen
    obtain ⟨x, o, hx, horigin, hother⟩ := exists_other_host_of_open client.hosts
      hopen (config.allowedDestinations.map String.toList)
    have hurl : urlOf (.obj [("url", .str (String.ofList x))]) = some (String.ofList x) := rfl
    have hsent :
        o ∈ (httpGetTool client (.obj [("url", .str (String.ofList x))]) config).requests := by
      rw [mem_requests_iff]
      refine ⟨hcap, _, hurl, ?_, allowed, hmem, ?_⟩
      · rw [String.toList_ofList]
        exact horigin
      · rw [String.toList_ofList]
        exact hx
    obtain ⟨destination, hdest, o', hurlOrigin, hdestOrigin⟩ :=
      hstays _ _ hurl (ne_nil_of_mem hsent)
    rw [String.toList_ofList, horigin] at hurlOrigin
    cases hurlOrigin
    exact hother _ (mem_map_of_mem hdest) hdestOrigin
  · intro hclosed input url hurl hne
    obtain ⟨o, ho⟩ := exists_mem_of_ne_nil _ hne
    obtain ⟨hcap, url', hurl', horigin, allowed, hmem, hstart⟩ :=
      (mem_requests_iff client input config o).mp ho
    rw [hurl] at hurl'
    cases hurl'
    exact ⟨allowed, hmem, o, horigin,
      originOf_of_not_open client.hosts hstart (hclosed hcap allowed hmem) horigin⟩

end

example : Open "https://api.example.com".toList ∧ ¬ Open "https://api.example.com/".toList := by
  decide

def plainClient : Client (List Char) := ⟨plainHosts, fun _ => "", fun _ => .error ""⟩

def oneDestination : SandboxConfig := ⟨[.networkAccess], ["https://api.example.com"]⟩

/-- The allowed destination is read as a user's name before another host. -/
theorem destination_as_userinfo :
    (httpGetTool plainClient (.obj [("url", .str "https://api.example.com@evil.com/")])
      oneDestination).requests = [⟨.https, "evil.com".toList, 443⟩] ∧
    ¬ StaysOnAllowed plainClient oneDestination := by
  have hsent : (httpGetTool plainClient (.obj [("url", .str "https://api.example.com@evil.com/")])
      oneDestination).requests = [⟨.https, "evil.com".toList, 443⟩] := by decide +kernel
  have hallowed : originOf plainHosts "https://api.example.com".toList =
      some ⟨.https, "api.example.com".toList, 443⟩ := by decide +kernel
  have hurl : originOf plainHosts "https://api.example.com@evil.com/".toList =
      some ⟨.https, "evil.com".toList, 443⟩ := by decide +kernel
  refine ⟨hsent, ?_⟩
  intro hstays
  obtain ⟨allowed, hmem, o, horigin, hdest⟩ := hstays _ _ rfl (by rw [hsent]; simp)
  rw [mem_singleton.mp hmem] at hdest
  have hsame := (hdest.symm.trans hallowed).symm.trans (horigin.symm.trans hurl)
  revert hsame
  decide +kernel

end IronGolem.HttpAllowlist
