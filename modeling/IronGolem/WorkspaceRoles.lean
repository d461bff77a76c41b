import IronGolem.FirstMatch
import IronGolem.TransitionRuns
import Mathlib.Data.Int.Notation
import Mathlib.Data.List.Nodup

/-!
Roles in workspaces. `AssignRole` checks its arguments and the workspace but not the role of whoever
assigns, so nobody gains a role beyond the assigner's only where the calls before it have made the
assigner an admin or more. A stored role is the one that the last accepted call has granted.
-/
namespace IronGolem.WorkspaceRoles

open FirstMatch TransitionRuns List

inductive UserRole
  | owner
  | admin
  | member
  | viewer
  | other (text : String)

def roleLevel : UserRole → ℕ
  | .owner => 4
  | .admin => 3
  | .member => 2
  | .viewer => 1
  | .other _ => 0

structure RoleMember where
  userID : String
  tenantID : String
  workspaceID : String
  role : UserRole
  assignedAt : ℤ
  assignedBy : String

/-- The tenant of each workspace, and the roles in each. -/
structure MemoryTenantStore where
  workspaces : String → Option String
  roles : String → List RoleMember

def saveRole (s : MemoryTenantStore) (member : RoleMember) : MemoryTenantStore :=
  let existing := s.roles member.workspaceID
  { s with
    roles := Function.update s.roles member.workspaceID
      (if existing.any (fun m => m.userID == member.userID) then
        updateFirst (fun m => m.userID == member.userID) (fun _ => member) existing
      else existing ++ [member]) }

def getRole (s : MemoryTenantStore) (workspaceID userID : String) : Option RoleMember :=
  (s.roles workspaceID).find? (fun m => m.userID == userID)

def deleteRole (s : MemoryTenantStore) (workspaceID userID : String) : MemoryTenantStore :=
  { s with
    roles := Function.update s.roles workspaceID
      ((s.roles workspaceID).eraseP (fun m => m.userID == userID)) }

inductive AssignError
  | idsRequired
  | invalidRole (role : UserRole)
  | workspaceLookup

def assignRole (s : MemoryTenantStore) (workspaceID userID : String) (role : UserRole)
    (assignedBy : String) (now : ℤ) : Except AssignError MemoryTenantStore :=
  if workspaceID = "" ∨ userID = "" then .error .idsRequired
  else if roleLevel role = 0 then .error (.invalidRole role)
  else match s.workspaces workspaceID with
    | none => .error .workspaceLookup
    | some tenantID => .ok (saveRole s ⟨userID, tenantID, workspaceID, role, now, assignedBy⟩)

def checkAccess (s : MemoryTenantStore) (workspaceID userID : String) (required : UserRole) :
    Bool :=
  match getRole s workspaceID userID with
  | none => false
  | some member => roleLevel required ≤ roleLevel member.role

inductive Call
  | assign (workspaceID userID : String) (role : UserRole) (assignedBy : String) (now : ℤ)
  | remove (workspaceID userID : String)

def apply (s : MemoryTenantStore) : Call → MemoryTenantStore
  | .assign workspaceID userID role assignedBy now =>
    (assignRole s workspaceID userID role assignedBy now).toOption.getD s
  | .remove workspaceID userID => deleteRole s workspaceID userID

variable (workspaces : String → Option String) (calls : List Call)

def after : MemoryTenantStore := calls.foldl apply ⟨workspaces, fun _ => []⟩

def HadOwner (workspaceID : String) : Prop :=
  ∃ earlier, earlier <+: calls ∧ ∃ m ∈ (after workspaces earlier).roles workspaceID, m.role = .owner

/-- The assigner is an admin at least, and holds at least the role that is granted. -/
def MayGrant (s : MemoryTenantStore) (workspaceID assignedBy : String) (role : UserRole) : Prop :=
  ∃ m, getRole s workspaceID assignedBy = some m ∧ roleLevel .admin ≤ roleLevel m.role ∧
    roleLevel role ≤ roleLevel m.role

/-- The arguments that `AssignRole` accepts. -/
def Accepts (workspaceID userID : String) (role : UserRole) : Prop :=
  (workspaceID ≠ "" ∧ userID ≠ "") ∧ roleLevel role ≠ 0 ∧ (workspaces workspaceID).isSome

/-- The calls that grant the user a role in the workspace or take it away. -/
def Settles (workspaceID userID : String) : Call → Prop
  | .assign workspaceID' userID' role _ _ =>
    (workspaceID' = workspaceID ∧ userID' = userID) ∧ Accepts workspaces workspaceID userID role
  | .remove workspaceID' userID' => workspaceID' = workspaceID ∧ userID' = userID

/-- The last of these calls has granted this role. -/
def LastGrant (workspaceID userID : String) (role : UserRole) : Prop :=
  ∃ pre assignedBy now post, calls = pre ++ .assign workspaceID userID role assignedBy now :: post ∧
    Accepts workspaces workspaceID userID role ∧
      ∀ call ∈ post, ¬ Settles workspaces workspaceID userID call

variable {workspaces calls}

theorem workspaces_after : (after workspaces calls).workspaces = workspaces := by
  induction calls using reverseRecOn with
  | nil => rfl
  | append_singleton calls call ih =>
    unfold after at ih ⊢
    rw [foldl_append]
    cases call with
    | remove workspaceID userID => exact ih
    | assign workspaceID userID role assignedBy now =>
      simp only [foldl_cons, foldl_nil, apply, assignRole]
      split_ifs
      · exact ih
      · exact ih
      · split <;> exact ih

theorem assignRole_isOk_iff (s : MemoryTenantStore) (workspaceID userID : String) (role : UserRole)
    (assignedBy : String) (now : ℤ) :
    (assignRole s workspaceID userID role assignedBy now).isOk = true ↔
      Accepts s.workspaces workspaceID userID role := by
  unfold assignRole Accepts
  split_ifs with hids hrole
  · refine iff_of_false nofun ?_
    rintro ⟨⟨hworkspace, huser⟩, -⟩
    exact hids.elim hworkspace huser
  · simp [Except.isOk, Except.toBool, hrole]
  · rw [not_or] at hids
    cases s.workspaces workspaceID <;> simp [Except.isOk, Except.toBool, hids, hrole]

/-- No user has two roles in a workspace. -/
def OneRoleEach (s : MemoryTenantStore) : Prop :=
  ∀ workspaceID, ((s.roles workspaceID).map RoleMember.userID).Nodup

variable {s : MemoryTenantStore} {workspaceID : String}

theorem oneRoleEach_update (h : OneRoleEach s)
    {members : List RoleMember} (hmembers : (members.map RoleMember.userID).Nodup) :
    OneRoleEach { s with roles := Function.update s.roles workspaceID members } := by
  intro other
  by_cases hother : other = workspaceID
  · subst hother
    simpa using hmembers
  · simpa [hother] using h other

theorem oneRoleEach_saveRole (h : OneRoleEach s) (member : RoleMember) :
    OneRoleEach (saveRole s member) := by
  have hold := h member.workspaceID
  apply oneRoleEach_update h
  split_ifs with hfound
  · have hids : ∀ m ∈ s.roles member.workspaceID,
        (if m.userID = member.userID then member else m).userID = m.userID := by
      intro m _
      split_ifs with hm
      · exact hm.symm
      · rfl
    rw [updateFirst_eq_map RoleMember.userID member.userID (fun _ => member) hold, map_map]
    exact (map_congr_left hids).symm ▸ hold
  · rw [map_append, nodup_append]
    refine ⟨hold, nodup_singleton _, ?_⟩
    simpa using hfound

theorem oneRoleEach_after : OneRoleEach (after workspaces calls) := by
  induction calls using reverseRecOn with
  | nil => exact fun _ => nodup_nil
  | append_singleton calls call ih =>
    unfold after at ih ⊢
    rw [foldl_append]
    cases call with
    | remove workspaceID userID =>
      exact oneRoleEach_update ih ((ih workspaceID).sublist ((eraseP_sublist).map _))
    | assign workspaceID userID role assignedBy now =>
      simp only [foldl_cons, foldl_nil, apply, assignRole]
      split_ifs
      · exact ih
      · exact ih
      · split
        · exact ih
        · exact oneRoleEach_saveRole ih _

theorem getRole_of_mem (h : OneRoleEach s)
    {m : RoleMember} (hm : m ∈ s.roles workspaceID) : getRole s workspaceID m.userID = some m := by
  apply find?_of_pairwise _ _ hm (by simp)
  refine (pairwise_map.mp (h workspaceID)).imp ?_
  intro a b hab hboth
  exact hab ((beq_iff_eq.mp hboth.1).trans (beq_iff_eq.mp hboth.2).symm)

variable {userID : String} {role : UserRole} {m : RoleMember}

theorem mem_saveRole_iff (h : OneRoleEach s) (member : RoleMember) :
    m ∈ (saveRole s member).roles workspaceID ↔
      (member.workspaceID = workspaceID ∧ m = member) ∨ (m ∈ s.roles workspaceID ∧
        ¬ (member.workspaceID = workspaceID ∧ member.userID = m.userID)) := by
  by_cases hworkspace : member.workspaceID = workspaceID
  · subst hworkspace
    simp only [saveRole, Function.update_self, true_and]
    split_ifs with hfound
    · rw [updateFirst_eq_map RoleMember.userID member.userID (fun _ => member) (h _), mem_map]
      obtain ⟨old, hold, hid⟩ := any_eq_true.mp hfound
      constructor
      · rintro ⟨m, hm, rfl⟩
        split_ifs with hsame
        · exact .inl rfl
        · exact .inr ⟨hm, Ne.symm hsame⟩
      · rintro (rfl | ⟨hm, hne⟩)
        · exact ⟨old, hold, if_pos (beq_iff_eq.mp hid)⟩
        · exact ⟨m, hm, if_neg (Ne.symm hne)⟩
    · have hnone : ∀ m ∈ s.roles member.workspaceID, member.userID ≠ m.userID := by
        intro m hm hsame
        exact hfound (any_eq_true.mpr ⟨m, hm, beq_iff_eq.mpr hsame.symm⟩)
      rw [mem_append, mem_singleton, or_comm, and_iff_left_of_imp (hnone m)]
  · simp [saveRole, Function.update_of_ne (Ne.symm hworkspace), hworkspace]

theorem mem_deleteRole_iff (h : OneRoleEach s) (workspaceID' userID' : String) :
    m ∈ (deleteRole s workspaceID' userID').roles workspaceID ↔
      m ∈ s.roles workspaceID ∧ ¬ (workspaceID' = workspaceID ∧ userID' = m.userID) := by
  by_cases hworkspace : workspaceID' = workspaceID
  · subst hworkspace
    simp only [deleteRole, Function.update_self, true_and,
      eraseP_eq_filter RoleMember.userID userID' (h _), mem_filter, Bool.not_eq_true',
      beq_eq_false_iff_ne, ne_comm (b := userID'), ne_eq]
  · simp [deleteRole, Function.update_of_ne (Ne.symm hworkspace), hworkspace]

/-- One more call is the last grant, or it settles nothing and the last grant stays. -/
theorem lastGrant_concat_iff (call : Call) :
    LastGrant workspaces (calls ++ [call]) workspaceID userID role ↔
      ((∃ assignedBy now, call = .assign workspaceID userID role assignedBy now) ∧
        Accepts workspaces workspaceID userID role) ∨
      (LastGrant workspaces calls workspaceID userID role ∧
        ¬ Settles workspaces workspaceID userID call) := by
  constructor
  · rintro ⟨pre, assignedBy, now, post, hcalls, haccepts, hpost⟩
    rcases concat_eq_split hcalls with ⟨-, -, rfl⟩ | ⟨post', rfl, rfl⟩
    · exact .inl ⟨⟨assignedBy, now, rfl⟩, haccepts⟩
    · refine .inr ⟨⟨pre, assignedBy, now, post', rfl, haccepts, ?_⟩, hpost call (by simp)⟩
      exact fun earlier hearlier => hpost earlier (by simp [hearlier])
  · rintro (⟨⟨assignedBy, now, rfl⟩, haccepts⟩ |
      ⟨⟨pre, assignedBy, now, post, rfl, haccepts, hpost⟩, hcall⟩)
    · exact ⟨calls, assignedBy, now, [], rfl, haccepts, by simp⟩
    · refine ⟨pre, assignedBy, now, post ++ [call], by simp, haccepts, ?_⟩
      intro later hlater
      rcases mem_append.mp hlater with hlater | hlater
      · exact hpost later hlater
      · exact mem_singleton.mp hlater ▸ hcall

def Held (s : MemoryTenantStore) (workspaceID userID : String) (role : UserRole) : Prop :=
  ∃ m ∈ s.roles workspaceID, m.userID = userID ∧ m.role = role

theorem held_saveRole_iff (h : OneRoleEach s) (member : RoleMember) :
    Held (saveRole s member) workspaceID userID role ↔
      ((member.workspaceID = workspaceID ∧ member.userID = userID) ∧ member.role = role) ∨
      (Held s workspaceID userID role ∧
        ¬ (member.workspaceID = workspaceID ∧ member.userID = userID)) := by
  simp only [Held, mem_saveRole_iff h]
  constructor
  · rintro ⟨m, ⟨hworkspace, rfl⟩ | ⟨hm, hne⟩, rfl, hrole⟩
    · exact .inl ⟨⟨hworkspace, rfl⟩, hrole⟩
    · exact .inr ⟨⟨m, hm, rfl, hrole⟩, hne⟩
  · rintro (⟨⟨hworkspace, huser⟩, hrole⟩ | ⟨⟨m, hm, rfl, hrole⟩, hne⟩)
    · exact ⟨member, .inl ⟨hworkspace, rfl⟩, huser, hrole⟩
    · exact ⟨m, .inr ⟨hm, hne⟩, rfl, hrole⟩

theorem apply_assign_of_accepts {assignedBy : String} {now : ℤ}
    (h : Accepts s.workspaces workspaceID userID role) :
    ∃ tenantID, apply s (.assign workspaceID userID role assignedBy now) =
      saveRole s ⟨userID, tenantID, workspaceID, role, now, assignedBy⟩ := by
  obtain ⟨tenantID, htenant⟩ := Option.isSome_iff_exists.mp h.2.2
  exact ⟨tenantID, by simp [apply, assignRole, h.1, h.2.1, htenant, Except.toOption]⟩

/-- A call that fails changes nothing. -/
theorem apply_assign_of_not_accepts {assignedBy : String} {now : ℤ}
    (h : ¬ Accepts s.workspaces workspaceID userID role) :
    apply s (.assign workspaceID userID role assignedBy now) = s := by
  have hfails := mt (assignRole_isOk_iff s workspaceID userID role assignedBy now).mp h
  cases hassign : assignRole s workspaceID userID role assignedBy now with
  | error err => simp [apply, hassign, Except.toOption]
  | ok t => simp [hassign, Except.isOk, Except.toBool] at hfails

/-- What one call does to the role of a user. -/
theorem held_apply_iff (h : OneRoleEach s) (call : Call) :
    Held (apply s call) workspaceID userID role ↔
      ((∃ assignedBy now, call = .assign workspaceID userID role assignedBy now) ∧
        Accepts s.workspaces workspaceID userID role) ∨
      (Held s workspaceID userID role ∧ ¬ Settles s.workspaces workspaceID userID call) := by
  cases call with
  | remove workspaceID' userID' =>
    simp only [Held, apply, mem_deleteRole_iff h, Settles]
    constructor
    · rintro ⟨m, ⟨hm, hne⟩, rfl, rfl⟩
      exact .inr ⟨⟨m, hm, rfl, rfl⟩, hne⟩
    · rintro (⟨⟨_, _, hcall⟩, -⟩ | ⟨⟨m, hm, rfl, rfl⟩, hne⟩)
      · cases hcall
      · exact ⟨m, ⟨hm, hne⟩, rfl, rfl⟩
  | assign workspaceID' userID' role' assignedBy now =>
    have hsame : (∃ assignedBy' now', Call.assign workspaceID' userID' role' assignedBy now =
        .assign workspaceID userID role assignedBy' now') ↔
        (workspaceID' = workspaceID ∧ userID' = userID) ∧ role' = role := by
      simp [and_assoc]
    rw [hsame]
    by_cases haccepts : Accepts s.workspaces workspaceID' userID' role'
    · obtain ⟨tenantID, hsaved⟩ := apply_assign_of_accepts haccepts
      rw [hsaved, held_saveRole_iff h]
      refine or_congr ⟨?_, And.left⟩ (and_congr_right fun _ => not_congr ⟨?_, And.left⟩)
      · rintro ⟨⟨rfl, rfl⟩, rfl⟩
        exact ⟨⟨⟨rfl, rfl⟩, rfl⟩, haccepts⟩
      · rintro ⟨rfl, rfl⟩
        exact ⟨⟨rfl, rfl⟩, haccepts⟩
    · rw [apply_assign_of_not_accepts haccepts]
      constructor
      · refine fun hheld => .inr ⟨hheld, ?_⟩
        rintro ⟨⟨rfl, rfl⟩, hrole⟩
        exact haccepts hrole
      · rintro (⟨⟨⟨rfl, rfl⟩, rfl⟩, hrole⟩ | ⟨hheld, -⟩)
        · exact absurd hrole haccepts
        · exact hheld

/-- The stored role is the one that was granted last. -/
theorem held_iff_lastGrant : Held (after workspaces calls) workspaceID userID role ↔
    LastGrant workspaces calls workspaceID userID role := by
  induction calls using reverseRecOn with
  | nil => simp [Held, after, LastGrant]
  | append_singleton calls call ih =>
    have hlast : after workspaces (calls ++ [call]) = apply (after workspaces calls) call := by
      simp [after]
    rw [hlast, held_apply_iff oneRoleEach_after, workspaces_after, ih, lastGrant_concat_iff]

theorem mayGrant_iff_lastGrant {assignedBy : String} :
    MayGrant (after workspaces calls) workspaceID assignedBy role ↔
      ∃ held, LastGrant workspaces calls workspaceID assignedBy held ∧
        roleLevel .admin ≤ roleLevel held ∧ roleLevel role ≤ roleLevel held := by
  simp only [← held_iff_lastGrant]
  constructor
  · rintro ⟨m, hm, hright⟩
    exact ⟨m.role, ⟨m, mem_of_find?_eq_some hm, by simpa using find?_some hm, rfl⟩, hright⟩
  · rintro ⟨_, ⟨m, hm, rfl, rfl⟩, hright⟩
    exact ⟨m, getRole_of_mem oneRoleEach_after hm, hright⟩

theorem hadOwner_iff_granted : HadOwner workspaces calls workspaceID ↔
    ∃ userID assignedBy now, .assign workspaceID userID .owner assignedBy now ∈ calls ∧
      Accepts workspaces workspaceID userID .owner := by
  constructor
  · rintro ⟨earlier, hearlier, m, hm, hrole⟩
    obtain ⟨pre, assignedBy, now, post, rfl, haccepts, -⟩ :=
      held_iff_lastGrant.mp ⟨m, hm, rfl, hrole⟩
    exact ⟨m.userID, assignedBy, now, hearlier.subset (by simp), haccepts⟩
  · rintro ⟨userID, assignedBy, now, hcall, haccepts⟩
    obtain ⟨pre, post, rfl⟩ := append_of_mem hcall
    have hgrant : LastGrant workspaces (pre ++ [.assign workspaceID userID .owner assignedBy now])
        workspaceID userID .owner := ⟨pre, assignedBy, now, [], rfl, haccepts, by simp⟩
    obtain ⟨m, hm, -, hrole⟩ := held_iff_lastGrant.mpr hgrant
    exact ⟨_, ⟨post, by simp⟩, m, hm, hrole⟩

/-- Nobody grants a role without the right to it exactly when the calls before each accepted one
have last granted its assigner a role that gives the right; roles are unique in any case. -/
theorem assignments_guarded_iff (workspaces : String → Option String) (calls : List Call) :
    ((∀ pre post workspaceID userID role assignedBy now,
        calls = pre ++ .assign workspaceID userID role assignedBy now :: post →
        HadOwner workspaces pre workspaceID →
        (assignRole (after workspaces pre) workspaceID userID role assignedBy now).isOk = true →
        MayGrant (after workspaces pre) workspaceID assignedBy role) ↔
      ∀ pre post workspaceID userID role assignedBy now,
        calls = pre ++ .assign workspaceID userID role assignedBy now :: post →
        (∃ owner granter granted, .assign workspaceID owner .owner granter granted ∈ pre ∧
          Accepts workspaces workspaceID owner .owner) →
        Accepts workspaces workspaceID userID role →
        ∃ held, LastGrant workspaces pre workspaceID assignedBy held ∧
          roleLevel .admin ≤ roleLevel held ∧ roleLevel role ≤ roleLevel held) ∧
      ∀ workspaceID, (((after workspaces calls).roles workspaceID).map RoleMember.userID).Nodup ∧
        ∀ m ∈ (after workspaces calls).roles workspaceID, ∀ required,
          checkAccess (after workspaces calls) workspaceID m.userID required = true ↔
            roleLevel required ≤ roleLevel m.role := by
  refine ⟨?_, fun workspaceID => ⟨oneRoleEach_after workspaceID, ?_⟩⟩
  · simp only [assignRole_isOk_iff, workspaces_after, hadOwner_iff_granted,
      mayGrant_iff_lastGrant]
  · intro m hm required
    simp [checkAccess, getRole_of_mem oneRoleEach_after hm]

/-- A user without a role becomes an owner beside the first one. -/
theorem assignRole_to_oneself :
    let workspaces : String → Option String := fun _ => some "t"
    let first : Call := .assign "w" "ann" .owner "setup" 0
    HadOwner workspaces [first] "w" ∧
      (assignRole (after workspaces [first]) "w" "bob" .owner "bob" 1).isOk = true ∧
      getRole (after workspaces [first]) "w" "bob" = none ∧
      checkAccess (after workspaces [first, .assign "w" "bob" .owner "bob" 1]) "w" "bob" .owner =
        true := by
  refine ⟨⟨_, prefix_refl _, _, mem_singleton_self _, rfl⟩, rfl, rfl, rfl⟩

end IronGolem.WorkspaceRoles
