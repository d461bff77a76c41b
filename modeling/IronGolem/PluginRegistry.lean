import Mathlib.Data.Int.Notation
import Mathlib.Data.List.Induction
import Mathlib.Data.List.Nodup
import Mathlib.Data.List.Perm.Basic

/-!
Registration of plugins. A manifest is checked field by field, its permissions against the closed
vocabulary of the schema package and then against the grants of the workspace. The first check
reads an absent list of permissions as an empty one, the second does not and throws a TypeError.
-/

namespace IronGolem.PluginRegistry

open List Option

/-- A permission of a manifest. The list of actions may be missing in the data. -/
structure PluginPermission where
  resource : String
  actions : Option (List String)
  deriving DecidableEq, Repr

/-- The fields of a manifest that registration reads. Any of them may be missing. -/
structure PluginManifest where
  id : Option String
  name : Option String
  version : Option String
  entryPoint : Option String
  capabilities : Option (List String)
  author : Option String
  permissions : Option (List PluginPermission)
  deriving DecidableEq, Repr

def isWhiteSpace (c : Char) : Bool :=
  c ∈ ['\t', '\n', '\x0b', '\x0c', '\r', ' ', '\u00a0', '\u1680', '\u2028',
    '\u2029', '\u202f', '\u205f', '\u3000', '\ufeff'] || ('\u2000' ≤ c && c ≤ '\u200a')

def missing : Option String → Bool
  | none => true
  | some s => s.toList.all isWhiteSpace

def afterDigits (cs : List Char) : Option (List Char) :=
  match cs with
  | c :: rest => if c.isDigit then some (rest.dropWhile Char.isDigit) else none
  | [] => none

def isVersion (s : String) : Bool :=
  match afterDigits s.toList with
  | some ('.' :: rest) =>
    match afterDigits rest with
    | some ('.' :: rest) => (afterDigits rest).isSome
    | _ => false
  | _ => false

def pluginPermissionResources : List String :=
  ["connectors", "events", "llm", "storage", "network", "commitments", "audit", "ui"]

def pluginPermissionActions : List String := ["read", "write", "execute", "subscribe"]

structure PluginPermissionIssue where
  resource : String
  problem : String
  deriving DecidableEq, Repr

def unknownResource (resource : String) : PluginPermissionIssue :=
  ⟨resource, "unknown resource \"" ++ resource ++ "\"; must be one of: " ++
    ", ".intercalate pluginPermissionResources⟩

def unknownAction (resource action : String) : PluginPermissionIssue :=
  ⟨resource, "unknown action \"" ++ action ++ "\"; must be one of: " ++
    ", ".intercalate pluginPermissionActions⟩

/-- The loop over the permissions, with the resources that it has seen. -/
def permissionIssues (seen : List String) : List PluginPermission → List PluginPermissionIssue
  | [] => []
  | perm :: rest =>
    if perm.resource ∉ pluginPermissionResources then
      unknownResource perm.resource :: permissionIssues seen rest
    else if perm.resource ∈ seen then
      ⟨perm.resource, "duplicate resource declaration"⟩ :: permissionIssues seen rest
    else if perm.actions.getD [] = [] then
      ⟨perm.resource, "at least one action is required"⟩ ::
        permissionIssues (perm.resource :: seen) rest
    else
      ((perm.actions.getD []).filter (fun a => decide (a ∉ pluginPermissionActions))).map
          (unknownAction perm.resource) ++ permissionIssues (perm.resource :: seen) rest

def validatePluginPermissions (permissions : List PluginPermission) : List PluginPermissionIssue :=
  permissionIssues [] permissions

def fieldIssues (manifest : PluginManifest) : List String :=
  (if missing manifest.id then ["id is required"] else []) ++
  (if missing manifest.name then ["name is required"] else []) ++
  (if (manifest.version.map isVersion).getD false then []
    else ["version must be a valid semver string"]) ++
  (if missing manifest.entryPoint then ["entryPoint is required"] else []) ++
  (if manifest.capabilities.getD [] = [] then ["at least one capability is required"] else []) ++
  (if missing manifest.author then ["author is required"] else [])

def validateManifest (manifest : PluginManifest) : List String :=
  fieldIssues manifest ++
    (validatePluginPermissions (manifest.permissions.getD [])).map
      (fun issue => "permission \"" ++ issue.resource ++ "\": " ++ issue.problem)

/-- What register throws. -/
inductive Thrown where
  | pluginValidationError (pluginId : String) (issues : List String)
  | typeError
  deriving DecidableEq, Repr

structure Grant where
  resource : String
  actions : List String
  deriving DecidableEq, Repr

abbrev Grants := String → Option (List String)

variable (grants : Grants)

def addGrant (g : Grant) : Grants :=
  Function.update grants g.resource (some ((grants g.resource).getD [] ++ g.actions))

def grantsOf (granted : List Grant) : Grants := granted.foldl addGrant (fun _ => none)

def allowedAll (grants : Grants) : List PluginPermission → Except Thrown Bool
  | [] => .ok true
  | p :: rest =>
    match grants p.resource with
    | none => .ok false
    | some actions =>
      match p.actions with
      | none => .error .typeError
      | some requested => if requested.all (· ∈ actions) then allowedAll grants rest else .ok false

def arePermissionsAllowed :
    Option (List PluginPermission) → Except Thrown Bool
  | none => .error .typeError
  | some permissions => allowedAll grants permissions

inductive PluginLifecycleState where
  | loaded
  | validated
  | activated
  | running
  | deactivated
  | error
  deriving DecidableEq, Repr

structure PluginRecord where
  manifest : PluginManifest
  state : PluginLifecycleState
  enabled : Bool
  activatedAt : Option ℤ := none
  error : Option String := none
  deriving DecidableEq, Repr

/-- Records are shared objects, so the maps refer to them by number. -/
structure Registry where
  records : List PluginRecord
  plugins : String → Option ℕ
  instances : String → Option ℕ

variable (r : Registry)

def Registry.store (id : String) (record : PluginRecord) (plugin : ℕ) : Registry where
  records := r.records ++ [record]
  plugins := Function.update r.plugins id (some r.records.length)
  instances := Function.update r.instances id (some plugin)

def register (manifest : PluginManifest) (plugin : ℕ) :
    Except Thrown ℕ × Registry :=
  let issues := validateManifest manifest
  if issues ≠ [] then
    (.error (.pluginValidationError (manifest.id.getD "unknown") issues), r)
  else
    match arePermissionsAllowed grants manifest.permissions with
    | .error thrown => (.error thrown, r)
    | .ok false => (.error (.pluginValidationError (manifest.id.getD "")
        ["required permissions are not allowed by workspace policy"]), r)
    | .ok true => (.ok r.records.length,
        r.store (manifest.id.getD "") ⟨manifest, .validated, false, none, none⟩ plugin)

def unregister (id : String) : Bool × Registry :=
  ((r.plugins id).isSome,
    { r with
      plugins := Function.update r.plugins id none
      instances := Function.update r.instances id none })

def Granted (granted : List Grant) (p : PluginPermission) : Prop :=
  ∀ a ∈ p.actions.getD [], ∃ g ∈ granted, g.resource = p.resource ∧ a ∈ g.actions

/-- A permission of the closed vocabulary. -/
structure WellFormed (p : PluginPermission) : Prop where
  resource : p.resource ∈ pluginPermissionResources
  nonempty : p.actions.getD [] ≠ []
  actions : ∀ a ∈ p.actions.getD [], a ∈ pluginPermissionActions

structure Admissible (granted : List Grant) (permissions : List PluginPermission) : Prop where
  distinct : (permissions.map PluginPermission.resource).Nodup
  wellFormed : ∀ p ∈ permissions, WellFormed p
  granted : ∀ p ∈ permissions, Granted granted p

theorem Admissible.perm {granted granted' : List Grant}
    {permissions permissions' : List PluginPermission}
    (hg : granted'.Perm granted) (hp : permissions'.Perm permissions)
    (h : Admissible granted permissions) : Admissible granted' permissions' := by
  refine ⟨(hp.map _).nodup_iff.mpr h.distinct, fun p hmem => h.wellFormed p (hp.mem_iff.mp hmem),
    ?_⟩
  intro p hmem a ha
  obtain ⟨g, hgmem, hgrant⟩ := h.granted p (hp.mem_iff.mp hmem) a ha
  exact ⟨g, hg.mem_iff.mpr hgmem, hgrant⟩

/-- Exactly the well-formed permissions of new, distinct resources pass. -/
theorem permissionIssues_eq_nil_iff (seen : List String) (permissions : List PluginPermission) :
    permissionIssues seen permissions = [] ↔
      (permissions.map PluginPermission.resource).Nodup ∧
        (∀ p ∈ permissions, p.resource ∉ seen) ∧ ∀ p ∈ permissions, WellFormed p := by
  induction permissions generalizing seen with
  | nil => simp [permissionIssues]
  | cons p rest ih =>
    unfold permissionIssues
    by_cases hknown : p.resource ∈ pluginPermissionResources
    · by_cases hseen : p.resource ∈ seen
      · simp [hknown, hseen]
      · by_cases hempty : p.actions.getD [] = []
        · simp only [hknown, hseen, hempty, not_true_eq_false, if_false, if_true]
          refine iff_of_false (by simp) ?_
          intro h
          exact (h.2.2 p mem_cons_self).nonempty hempty
        · simp only [hknown, hseen, hempty, not_true_eq_false, if_false, append_eq_nil_iff,
            List.map_eq_nil_iff, filter_eq_nil_iff, ih (p.resource :: seen)]
          constructor
          · rintro ⟨hactions, hnodup, hfresh, hrest⟩
            refine ⟨?_, ?_, ?_⟩
            · rw [map_cons, nodup_cons]
              refine ⟨fun hmem => ?_, hnodup⟩
              obtain ⟨q, hq, hsame⟩ := List.mem_map.mp hmem
              exact hfresh q hq (by simp [hsame])
            · intro q hq
              rcases mem_cons.mp hq with rfl | hq
              · exact hseen
              · exact fun hmem => hfresh q hq (mem_cons_of_mem _ hmem)
            · intro q hq
              rcases mem_cons.mp hq with rfl | hq
              · exact ⟨hknown, hempty, fun a ha => by simpa using hactions a ha⟩
              · exact hrest q hq
          · rintro ⟨hnodup, hfresh, hwell⟩
            rw [map_cons, nodup_cons] at hnodup
            refine ⟨?_, hnodup.2, ?_, fun q hq => hwell q (mem_cons_of_mem p hq)⟩
            · intro a ha
              simpa using (hwell p mem_cons_self).actions a ha
            · intro q hq hmem
              rcases mem_cons.mp hmem with hsame | hmem
              · exact hnodup.1 (hsame ▸ mem_map_of_mem hq)
              · exact hfresh q (mem_cons_of_mem p hq) hmem
    · simp only [hknown, not_false_eq_true, if_true]
      refine iff_of_false (by simp) ?_
      intro h
      exact hknown (h.2.2 p mem_cons_self).resource

/-- The map of the grants, resource by resource. -/
structure GrantsFor (granted : List Grant) (grants : Grants) : Prop where
  absent : ∀ r, grants r = none ↔ ∀ g ∈ granted, g.resource ≠ r
  actions : ∀ r actions, grants r = some actions →
    ∀ a, a ∈ actions ↔ ∃ g ∈ granted, g.resource = r ∧ a ∈ g.actions

theorem GrantsFor.add {granted : List Grant} {grants : Grants} (h : GrantsFor granted grants)
    (g : Grant) : GrantsFor (granted ++ [g]) (addGrant grants g) := by
  refine ⟨?_, ?_⟩
  · intro r
    by_cases hr : r = g.resource
    · subst hr
      simp [addGrant]
    · have hne : ¬ g.resource = r := fun heq => hr heq.symm
      rw [addGrant, Function.update_of_ne hr, h.absent]
      simp [or_imp, forall_and, hne]
  · intro r actions hactions a
    by_cases hr : r = g.resource
    · subst hr
      rw [addGrant, Function.update_self, some.injEq] at hactions
      have hold : a ∈ (grants g.resource).getD [] ↔
          ∃ g' ∈ granted, g'.resource = g.resource ∧ a ∈ g'.actions := by
        cases hget : grants g.resource with
        | none =>
          have hnone := (h.absent g.resource).mp hget
          simp only [getD_none, not_mem_nil, false_iff, not_exists, not_and]
          exact fun g' hg' hsame => absurd hsame (hnone g' hg')
        | some old => exact h.actions _ old hget a
      rw [← hactions, mem_append, hold]
      simp
    · have hne : ¬ g.resource = r := fun heq => hr heq.symm
      rw [addGrant, Function.update_of_ne hr] at hactions
      rw [h.actions r actions hactions a]
      simp only [mem_append, mem_singleton, or_and_right, exists_or, exists_eq_left, hne,
        false_and, or_false]

variable (granted : List Grant)

theorem grantsFor_grantsOf : GrantsFor granted (grantsOf granted) := by
  induction granted using reverseRecOn with
  | nil => exact ⟨by simp [grantsOf], by simp [grantsOf]⟩
  | append_singleton granted g ih =>
    unfold grantsOf
    rw [foldl_append]
    exact ih.add g

/-- On well-formed permissions the grant check answers whether all of them are granted. -/
theorem allowedAll_eq {permissions : List PluginPermission}
    (hwell : ∀ p ∈ permissions, WellFormed p) :
    ∃ answer, allowedAll (grantsOf granted) permissions = .ok answer ∧
      (answer = true ↔ ∀ p ∈ permissions, Granted granted p) := by
  have hgrants := grantsFor_grantsOf granted
  induction permissions with
  | nil => exact ⟨true, rfl, by simp⟩
  | cons p rest ih =>
    have hp := hwell p mem_cons_self
    obtain ⟨requested, hactions⟩ : ∃ requested, p.actions = some requested := by
      cases hactions : p.actions with
      | none => exact absurd (by simp [hactions]) hp.nonempty
      | some requested => exact ⟨requested, rfl⟩
    have hrequested : requested ≠ [] := by simpa [hactions] using hp.nonempty
    obtain ⟨answer, hrest, hanswer⟩ := ih fun q hq => hwell q (mem_cons_of_mem p hq)
    unfold allowedAll
    cases hget : grantsOf granted p.resource with
    | none =>
      refine ⟨false, rfl, iff_of_false (by simp) ?_⟩
      intro hall
      obtain ⟨a, ha⟩ := exists_mem_of_ne_nil requested hrequested
      obtain ⟨g, hg, hsame, -⟩ := hall p mem_cons_self a (by simpa [hactions] using ha)
      exact (hgrants.absent p.resource).mp hget g hg hsame
    | some actions =>
      have hgranted : Granted granted p ↔ requested.all (· ∈ actions) = true := by
        simp only [Granted, hactions, getD_some, List.all_eq_true, decide_eq_true_eq,
          hgrants.actions p.resource actions hget]
      simp only [hactions]
      by_cases hall : requested.all (· ∈ actions) = true
      · refine ⟨answer, by rw [if_pos hall]; exact hrest, ?_⟩
        rw [hanswer, forall_mem_cons, and_iff_right (hgranted.mpr hall)]
      · refine ⟨false, by rw [if_neg hall], iff_of_false (by simp) ?_⟩
        intro hgrantedAll
        exact hall (hgranted.mp (hgrantedAll p mem_cons_self))

/-- The fields besides the permissions are valid. -/
structure FieldsValid (manifest : PluginManifest) : Prop where
  id : missing manifest.id = false
  name : missing manifest.name = false
  version : (manifest.version.map isVersion).getD false = true
  entryPoint : missing manifest.entryPoint = false
  capabilities : manifest.capabilities.getD [] ≠ []
  author : missing manifest.author = false

theorem FieldsValid.fieldIssues_eq {manifest : PluginManifest} (h : FieldsValid manifest) :
    fieldIssues manifest = [] := by
  simp [fieldIssues, h.id, h.name, h.version, h.entryPoint, h.capabilities, h.author]

theorem FieldsValid.validateManifest_eq_nil_iff {manifest : PluginManifest}
    (h : FieldsValid manifest) :
    validateManifest manifest = [] ↔
      ((manifest.permissions.getD []).map PluginPermission.resource).Nodup ∧
        ∀ p ∈ manifest.permissions.getD [], WellFormed p := by
  unfold validateManifest validatePluginPermissions
  rw [h.fieldIssues_eq, nil_append, List.map_eq_nil_iff, permissionIssues_eq_nil_iff]
  simp

variable (r : Registry) (manifest : PluginManifest) (plugin : ℕ)
    {permissions : List PluginPermission}

theorem register_of_permissions (hfields : FieldsValid manifest)
    (hperms : manifest.permissions = some permissions) :
    (Admissible granted permissions ∧ register (grantsOf granted) r manifest plugin =
      (.ok r.records.length,
        r.store (manifest.id.getD "") ⟨manifest, .validated, false, none, none⟩ plugin)) ∨
    (¬ Admissible granted permissions ∧ ∃ pluginId issues,
      register (grantsOf granted) r manifest plugin =
        (.error (.pluginValidationError pluginId issues), r)) := by
  have hissues := hfields.validateManifest_eq_nil_iff
  rw [hperms, getD_some] at hissues
  by_cases hvalid : validateManifest manifest = []
  · obtain ⟨hdistinct, hwell⟩ := hissues.mp hvalid
    obtain ⟨answer, hallowed, hanswer⟩ := allowedAll_eq granted hwell
    simp only [register, hvalid, ne_eq, not_true_eq_false, if_false, hperms, arePermissionsAllowed,
      hallowed]
    cases answer with
    | true => exact .inl ⟨⟨hdistinct, hwell, hanswer.mp rfl⟩, rfl⟩
    | false =>
      refine .inr ⟨fun hadmissible => ?_, _, _, rfl⟩
      exact Bool.false_ne_true (hanswer.mpr hadmissible.granted)
  · refine .inr ⟨fun hadmissible => ?_, manifest.id.getD "unknown", validateManifest manifest, ?_⟩
    · exact hvalid (hissues.mpr ⟨hadmissible.distinct, hadmissible.wellFormed⟩)
    · simp only [register, ne_eq, hvalid, not_false_eq_true, if_true]

/-- Registration under grants that is deny-by-default and exact. -/
structure Exact (granted : List Grant) (r : Registry) (manifest : PluginManifest) (plugin : ℕ) :
    Prop where
  succeeds : (∃ record, (register (grantsOf granted) r manifest plugin).1 = .ok record) ↔
    Admissible granted (manifest.permissions.getD [])
  refuses : ¬ Admissible granted (manifest.permissions.getD []) →
    ∃ pluginId issues, register (grantsOf granted) r manifest plugin =
      (.error (.pluginValidationError pluginId issues), r)
  anyOrder : ∀ granted' permissions', granted'.Perm granted →
    permissions'.Perm (manifest.permissions.getD []) →
    ((∃ record, (register (grantsOf granted') r
        { manifest with permissions := some permissions' } plugin).1 = .ok record) ↔
      ∃ record, (register (grantsOf granted) r manifest plugin).1 = .ok record)

theorem succeeds_iff (hfields : FieldsValid manifest)
    (hperms : manifest.permissions = some permissions) :
    (∃ record, (register (grantsOf granted) r manifest plugin).1 = .ok record) ↔
      Admissible granted permissions := by
  rcases register_of_permissions granted r manifest plugin hfields hperms with
    ⟨hadmissible, hok⟩ | ⟨hnot, pluginId, issues, herror⟩
  · exact iff_of_true ⟨_, by rw [hok]⟩ hadmissible
  · refine iff_of_false ?_ hnot
    rintro ⟨record, hrecord⟩
    rw [herror] at hrecord
    cases hrecord

theorem register_of_absent (hfields : FieldsValid manifest) (hperms : manifest.permissions = none) :
    register (grantsOf granted) r manifest plugin = (.error .typeError, r) := by
  have hvalid : validateManifest manifest = [] := by
    rw [hfields.validateManifest_eq_nil_iff, hperms]
    simp
  simp only [register, hvalid, ne_eq, not_true_eq_false, if_false, hperms, arePermissionsAllowed]

/-- Registration is exact exactly for the manifests that carry a list of permissions. -/
theorem register_exact_iff (hfields : FieldsValid manifest) :
    Exact granted r manifest plugin ↔ manifest.permissions ≠ none := by
  cases hperms : manifest.permissions with
  | none =>
    refine iff_of_false (fun hexact => ?_) (by simp)
    have hempty : Admissible granted (manifest.permissions.getD []) := by
      rw [hperms]
      exact ⟨nodup_nil, by simp, by simp⟩
    obtain ⟨record, hrecord⟩ := hexact.succeeds.mpr hempty
    rw [register_of_absent granted r manifest plugin hfields hperms] at hrecord
    cases hrecord
  | some permissions =>
    refine iff_of_true ⟨?_, ?_, ?_⟩ (by simp)
    · rw [hperms]
      exact succeeds_iff granted r manifest plugin hfields hperms
    · intro hnot
      rw [hperms, getD_some] at hnot
      rcases register_of_permissions granted r manifest plugin hfields hperms with
        ⟨hadmissible, -⟩ | ⟨-, herror⟩
      · exact absurd hadmissible hnot
      · exact herror
    · intro granted' permissions' hgranted hpermissions
      rw [hperms, getD_some] at hpermissions
      have hother : FieldsValid { manifest with permissions := some permissions' } :=
        ⟨hfields.id, hfields.name, hfields.version, hfields.entryPoint, hfields.capabilities,
          hfields.author⟩
      rw [succeeds_iff granted' r _ plugin hother rfl,
        succeeds_iff granted r manifest plugin hfields hperms]
      exact ⟨fun h => h.perm hgranted.symm hpermissions.symm, fun h => h.perm hgranted hpermissions⟩

def emptyRegistry : Registry := ⟨[], fun _ => none, fun _ => none⟩

def sampleManifest (permissions : Option (List PluginPermission)) : PluginManifest :=
  { id := some "mail", name := some "Mail", version := some "1.0.0", entryPoint := some "index.js"
    capabilities := some ["hook"], author := some "ops", permissions }

theorem sampleManifest_valid (permissions : Option (List PluginPermission)) :
    FieldsValid (sampleManifest permissions) := by
  constructor <;> simp only [sampleManifest] <;> decide

/-- A plugin that asks for one granted action. -/
theorem register_exact_sample :
    FieldsValid (sampleManifest (some [⟨"storage", some ["read"]⟩])) ∧
      Exact [⟨"storage", ["write"]⟩, ⟨"storage", ["read"]⟩] emptyRegistry
        (sampleManifest (some [⟨"storage", some ["read"]⟩])) 0 :=
  ⟨sampleManifest_valid _, (register_exact_iff _ _ _ _ (sampleManifest_valid _)).mpr (by
    simp [sampleManifest])⟩

/-- A manifest without permissions asks for nothing, and its registration throws a TypeError. -/
theorem register_absent_throws :
    Admissible [] ((sampleManifest none).permissions.getD []) ∧
      (register (grantsOf []) emptyRegistry (sampleManifest none) 0).1 = .error .typeError ∧
      ¬ Exact [] emptyRegistry (sampleManifest none) 0 := by
  have hadmissible : Admissible [] ((sampleManifest none).permissions.getD []) :=
    ⟨nodup_nil, by simp [sampleManifest], by simp [sampleManifest]⟩
  have hthrows : (register (grantsOf []) emptyRegistry (sampleManifest none) 0).1 =
      .error .typeError := by
    rw [register_of_absent [] emptyRegistry _ 0 (sampleManifest_valid none) rfl]
  refine ⟨hadmissible, hthrows, fun hexact => ?_⟩
  obtain ⟨record, hrecord⟩ := hexact.succeeds.mpr hadmissible
  rw [hthrows] at hrecord
  cases hrecord

end IronGolem.PluginRegistry
