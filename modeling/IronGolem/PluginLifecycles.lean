import IronGolem.NumberedLists
import IronGolem.PluginRegistry
import IronGolem.TransitionRuns

/-!
Lifecycles of plugins in the registry. Activating or deactivating a plugin looks up its record and
its instance and then waits for the plugin's own hook. Other calls may come in between; registering
an id again or unregistering it replaces or removes the record and the instance, whatever the old
instance is doing.
-/

namespace IronGolem.PluginLifecycles

open NumberedLists PluginRegistry TransitionRuns List Function

inductive Hook where
  | onActivate
  | onDeactivate
  deriving DecidableEq, Repr

/-- What is fixed in a run: the grants of the registry, and the hooks that each plugin instance has.
-/
structure Host where
  grants : Grants
  hasHook : ℕ → Hook → Bool

/-- A call that waits for a hook, with what it looked up. -/
structure Waiting where
  hook : Hook
  id : String
  record : ℕ
  plugin : ℕ
  deriving DecidableEq, Repr

/-- The registry and the waiting calls, with the instances behind the records and the active ones.
-/
structure Sys where
  registry : Registry
  calls : List Waiting
  owners : List ℕ
  active : List (String × ℕ)
  completed : List ℕ

def init : Sys :=
  { registry := emptyRegistry, calls := [], owners := [], active := [], completed := [] }

/-- The record and the instance of an id, or the message of the error that is thrown. -/
def lookup (r : Registry) (id : String) : Except String (ℕ × ℕ) :=
  match r.plugins id with
  | none => .error ("Plugin \"" ++ id ++ "\" is not registered")
  | some record =>
    match r.instances id with
    | none => .error ("Plugin instance not found for \"" ++ id ++ "\"")
    | some plugin => .ok (record, plugin)

def setRecord (r : Registry) (record : ℕ) (f : PluginRecord → PluginRecord) : Registry :=
  { r with records := r.records.modify record f }

def succeed (s : Sys) (c : Waiting) (now : ℤ) : Sys :=
  match c.hook with
  | .onActivate => { s with
      registry := setRecord s.registry c.record (fun record => { record with
        state := .running, enabled := true, activatedAt := some now, error := none })
      active := (c.id, c.plugin) :: s.active
      completed := c.plugin :: s.completed }
  | .onDeactivate => { s with
      registry := setRecord s.registry c.record (fun record => { record with
        state := .deactivated, enabled := false })
      active := s.active.filter (fun e => decide (e.2 ≠ c.plugin)) }

def fail (s : Sys) (c : Waiting) (message : String) : Sys :=
  { s with registry := setRecord s.registry c.record (fun record => { record with
      state := .error, error := some message }) }

inductive Act where
  | register (manifest : PluginManifest) (plugin : ℕ)
  | unregister (id : String)
  | call (hook : Hook) (id : String) (now : ℤ)
  | settle (call : ℕ) (failure : Option String) (now : ℤ)

section

variable (host : Host)

/-- A plugin without the hook does not make the call wait, and counts as done at once. -/
def step (s : Sys) : Act → Option Sys
  | .register manifest plugin =>
    match register host.grants s.registry manifest plugin with
    | (.ok _, registry) => some { s with registry, owners := s.owners ++ [plugin] }
    | (.error _, registry) => some { s with registry }
  | .unregister id => some { s with registry := (unregister s.registry id).2 }
  | .call hook id now =>
    match lookup s.registry id with
    | .error _ => some s
    | .ok (record, plugin) =>
      if host.hasHook plugin hook then
        some { s with calls := s.calls ++ [⟨hook, id, record, plugin⟩] }
      else some (succeed s ⟨hook, id, record, plugin⟩ now)
  | .settle k failure now =>
    match s.calls[k]? with
    | none => none
    | some c =>
      match failure with
      | none => some (succeed { s with calls := s.calls.eraseIdx k } c now)
      | some message => some (fail { s with calls := s.calls.eraseIdx k } c message)

def accepted (manifest : PluginManifest) : Prop :=
  validateManifest manifest = [] ∧ arePermissionsAllowed host.grants manifest.permissions = .ok true

instance (manifest : PluginManifest) : Decidable (accepted host manifest) :=
  inferInstanceAs (Decidable (_ ∧ _))

end

def Known (s : Sys) : Prop := ∀ e ∈ s.active, s.registry.instances e.1 = some e.2

def Act.changesRegistry : Act → Bool
  | .register _ _ => true
  | .unregister _ => true
  | _ => false

section

variable (host : Host) (s : Sys)

/-- Every active instance is known now and until the registry is changed again. -/
def StaysKnown : Prop :=
  ∀ acts t, (∀ a ∈ acts, a.changesRegistry = false) → run (step host) s acts = some t → Known t

def tracked : List (String × ℕ) :=
  s.active ++ (s.calls.filter (fun c => decide (c.hook = .onActivate))).map
    (fun c => (c.id, c.plugin))

/-- An id changes only while no other instance is active or being activated under it. -/
def Guard : Act → Prop
  | .register manifest plugin => accepted host manifest →
      ∀ e ∈ tracked s, e.1 = manifest.id.getD "" → e.2 = plugin
  | .unregister id => ∀ e ∈ tracked s, e.1 ≠ id
  | _ => True

def Stored : Prop := ∀ e ∈ tracked s, s.registry.instances e.1 = some e.2

variable {s : Sys} {e : String × ℕ}

theorem mem_tracked_active (h : e ∈ s.active) : e ∈ tracked s :=
  mem_append_left _ h

theorem mem_tracked_call {c : Waiting} (h : c ∈ s.calls) (hhook : c.hook = .onActivate) :
    (c.id, c.plugin) ∈ tracked s := by
  refine mem_append_right _ (mem_map.mpr ⟨c, ?_, rfl⟩)
  exact mem_filter.mpr ⟨h, by simp [hhook]⟩

theorem mem_tracked (h : e ∈ tracked s) :
    e ∈ s.active ∨ ∃ c ∈ s.calls, c.hook = .onActivate ∧ e = (c.id, c.plugin) := by
  rcases mem_append.mp h with hactive | hcall
  · exact .inl hactive
  · obtain ⟨c, hc, rfl⟩ := mem_map.mp hcall
    obtain ⟨hmem, hhook⟩ := mem_filter.mp hc
    exact .inr ⟨c, hmem, by simpa using hhook, rfl⟩

theorem Stored.known (h : Stored s) : Known s :=
  fun e he => h e (mem_tracked_active he)

theorem Stored.succeed (h : Stored s) (c : Waiting) (now : ℤ)
    (hc : c.hook = .onActivate → s.registry.instances c.id = some c.plugin) :
    Stored (succeed s c now) := by
  intro e he
  cases hhook : c.hook with
  | onActivate =>
    simp only [PluginLifecycles.succeed, hhook] at he ⊢
    rcases mem_tracked he with hactive | ⟨d, hd, hdhook, rfl⟩
    · rcases mem_cons.mp hactive with rfl | hold
      · exact hc hhook
      · exact h e (mem_tracked_active hold)
    · exact h _ (mem_tracked_call hd hdhook)
  | onDeactivate =>
    simp only [PluginLifecycles.succeed, hhook] at he ⊢
    rcases mem_tracked he with hactive | ⟨d, hd, hdhook, rfl⟩
    · exact h e (mem_tracked_active (mem_filter.mp hactive).1)
    · exact h _ (mem_tracked_call hd hdhook)

theorem Stored.erase (h : Stored s) (k : ℕ) : Stored { s with calls := s.calls.eraseIdx k } := by
  intro e he
  rcases mem_tracked he with hactive | ⟨d, hd, hdhook, rfl⟩
  · exact h e (mem_tracked_active hactive)
  · exact h _ (mem_tracked_call (mem_of_mem_eraseIdx hd) hdhook)

theorem lookup_instances {r : Registry} {id : String} {record plugin : ℕ}
    (h : lookup r id = .ok (record, plugin)) :
    r.plugins id = some record ∧ r.instances id = some plugin := by
  unfold lookup at h
  split at h
  · cases h
  · next hrecord =>
    split at h
    · cases h
    · next hplugin =>
      cases h
      exact ⟨hrecord, hplugin⟩

theorem register_cases (grants : Grants) (r : Registry) (manifest : PluginManifest) (plugin : ℕ) :
    ((validateManifest manifest = [] ∧
        arePermissionsAllowed grants manifest.permissions = .ok true) ∧
      register grants r manifest plugin = (.ok r.records.length,
        r.store (manifest.id.getD "") ⟨manifest, .validated, false, none, none⟩ plugin)) ∨
    (¬ (validateManifest manifest = [] ∧
        arePermissionsAllowed grants manifest.permissions = .ok true) ∧
      ∃ thrown, register grants r manifest plugin = (.error thrown, r)) := by
  unfold register
  by_cases hvalid : validateManifest manifest = []
  · simp only [hvalid, ne_eq, not_true_eq_false, if_false, true_and]
    cases hallowed : arePermissionsAllowed grants manifest.permissions with
    | error thrown => exact .inr ⟨by simp, thrown, rfl⟩
    | ok answer =>
      cases answer with
      | true => exact .inl ⟨rfl, rfl⟩
      | false => exact .inr ⟨by simp, _, rfl⟩
  · simp only [hvalid, ne_eq, not_false_eq_true, if_true, false_and, not_false_eq_true, true_and]
    exact .inr ⟨_, rfl⟩

variable {host} {t : Sys}

/-- Calls and hooks keep what is tracked stored. -/
theorem Stored.quiet (h : Stored s) (a : Act) (hquiet : a.changesRegistry = false)
    (hstep : step host s a = some t) : Stored t := by
  cases a with
  | call hook id now =>
    simp only [step] at hstep
    split at hstep
    · cases hstep
      exact h
    · next record plugin hlookup =>
      obtain ⟨-, hplugin⟩ := lookup_instances hlookup
      split at hstep
      · cases hstep
        intro e he
        rcases mem_tracked he with hactive | ⟨d, hd, hdhook, rfl⟩
        · exact h e (mem_tracked_active hactive)
        · rcases mem_append.mp hd with hold | hnew
          · exact h _ (mem_tracked_call hold hdhook)
          · rw [mem_singleton.mp hnew]
            exact hplugin
      · cases hstep
        exact h.succeed _ now fun _ => hplugin
  | settle k failure now =>
    simp only [step] at hstep
    split at hstep
    · cases hstep
    · next c hc =>
      split at hstep
      · cases hstep
        refine (h.erase k).succeed c now fun hhook => ?_
        exact h _ (mem_tracked_call (mem_of_getElem? hc) hhook)
      · cases hstep
        exact h.erase k
  | _ => cases hquiet

theorem staysKnown_iff (s : Sys) : StaysKnown host s ↔ Stored s := by
  constructor
  · intro h e he
    rcases mem_tracked he with hactive | ⟨c, hc, hhook, rfl⟩
    · exact h [] s (by simp) rfl e hactive
    · -- the waiting activation may complete next
      obtain ⟨k, hk⟩ := mem_iff_getElem?.mp hc
      have hstep : step host s (.settle k none 0) =
          some (succeed { s with calls := s.calls.eraseIdx k } c 0) := by
        simp [step, hk]
      have hknown := h [.settle k none 0] _ (by simp [Act.changesRegistry])
        (by rw [run_cons, hstep]; rfl)
      have hactive := hknown (c.id, c.plugin) (by simp [succeed, hhook])
      simpa [succeed, hhook, setRecord] using hactive
  · intro h acts t hquiet hrun
    refine Stored.known ?_
    refine guarded_invariant (step host) (fun _ a => a.changesRegistry = false) (fun _ => True)
      Stored h (fun _ _ _ => trivial) (fun s a u _ hs ha hstep => hs.quiet a ha hstep) ?_ hrun
    intro pre a post u hacts _
    exact hquiet a (by simp [hacts])

/-- A step keeps what is tracked stored exactly if it meets the guard. -/
theorem stored_step_iff (h : Stored s) {a : Act} (hstep : step host s a = some t) :
    Stored t ↔ Guard host s a := by
  cases a with
  | register manifest plugin =>
    simp only [step] at hstep
    rcases register_cases host.grants s.registry manifest plugin with
      ⟨hok, hregister⟩ | ⟨hno, thrown, hregister⟩
    · rw [hregister] at hstep
      cases hstep
      simp only [Guard, accepted, hok, and_self, true_implies]
      constructor
      · intro ht e he hid
        have hstored := ht e he
        simp only [Registry.store, hid, update_self, Option.some.injEq] at hstored
        exact hstored.symm
      · intro hguard e he
        by_cases hid : e.1 = manifest.id.getD ""
        · simp only [Registry.store, hid, update_self]
          rw [hguard e he hid]
        · simp only [Registry.store, update_of_ne hid]
          exact h e he
    · rw [hregister] at hstep
      cases hstep
      exact iff_of_true h fun hok => absurd hok hno
  | unregister id =>
    cases hstep
    constructor
    · intro ht e he hid
      have hstored := ht e he
      simp only [unregister, hid, update_self] at hstored
      cases hstored
    · intro hguard e he
      simp only [unregister, update_of_ne (hguard e he)]
      exact h e he
  | _ => exact iff_of_true (h.quiet _ rfl hstep) trivial

/-- Records and instances belong together; the instance of a running record was activated. -/
structure Paired (s : Sys) : Prop where
  length : s.owners.length = s.registry.records.length
  stored : ∀ id record plugin, s.registry.plugins id = some record →
    s.registry.instances id = some plugin → s.owners[record]? = some plugin
  calls : ∀ c ∈ s.calls, s.owners[c.record]? = some c.plugin
  running : ∀ (k : ℕ) record, s.registry.records[k]? = some record → record.state = .running →
    ∃ plugin, s.owners[k]? = some plugin ∧ plugin ∈ s.completed

theorem Paired.setRecord (h : Paired s) (c : Waiting) (f : PluginRecord → PluginRecord)
    (active : List (String × ℕ)) (completed : List ℕ) (hc : s.owners[c.record]? = some c.plugin)
    (hsub : s.completed ⊆ completed)
    (hf : ∀ record, (f record).state = .running → c.plugin ∈ completed) :
    Paired { s with registry := setRecord s.registry c.record f, active, completed } where
  length := by simp [PluginLifecycles.setRecord, h.length]
  stored := h.stored
  calls := h.calls
  running := by
    intro k record hk hrunning
    obtain ⟨old, hold, rfl⟩ := getElem?_modify_eq_some_iff.mp hk
    by_cases hrecord : c.record = k
    · rw [if_pos hrecord] at hrunning
      exact ⟨c.plugin, hrecord ▸ hc, hf old hrunning⟩
    · rw [if_neg hrecord] at hrunning
      obtain ⟨plugin, hplugin, hmem⟩ := h.running k old hold hrunning
      exact ⟨plugin, hplugin, hsub hmem⟩

theorem Paired.succeed (h : Paired s) (c : Waiting) (now : ℤ)
    (hc : s.owners[c.record]? = some c.plugin) : Paired (succeed s c now) := by
  cases hhook : c.hook with
  | onActivate =>
    simp only [PluginLifecycles.succeed, hhook]
    exact h.setRecord c _ _ _ hc (subset_cons_self _ _) fun _ _ => mem_cons_self
  | onDeactivate =>
    simp only [PluginLifecycles.succeed, hhook]
    exact h.setRecord c _ _ _ hc (List.Subset.refl _) fun _ hrunning => nomatch hrunning

theorem Paired.erase (h : Paired s) (k : ℕ) : Paired { s with calls := s.calls.eraseIdx k } :=
  { h with calls := fun c hc => h.calls c (mem_of_mem_eraseIdx hc) }

theorem Paired.register (h : Paired s) (id : String) (manifest : PluginManifest) (plugin : ℕ) :
    Paired { s with
      registry := s.registry.store id ⟨manifest, .validated, false, none, none⟩ plugin
      owners := s.owners ++ [plugin] } where
  length := by simp [Registry.store, h.length]
  stored := by
    intro id' record plugin' hrecord hplugin
    apply (getElem?_concat_eq_some_iff _ _ _ _).mpr
    by_cases hid : id' = id
    · simp only [Registry.store, hid, update_self, Option.some.injEq] at hrecord hplugin
      exact .inr ⟨by rw [← hrecord, h.length], hplugin.symm⟩
    · simp only [Registry.store, update_of_ne hid] at hrecord hplugin
      exact .inl (h.stored id' record plugin' hrecord hplugin)
  calls := fun c hc => (getElem?_concat_eq_some_iff _ _ _ _).mpr (.inl (h.calls c hc))
  running := by
    intro k record hk hrunning
    rcases (getElem?_concat_eq_some_iff _ _ _ _).mp hk with hold | ⟨-, rfl⟩
    · obtain ⟨owner, howner, hmem⟩ := h.running k record hold hrunning
      exact ⟨owner, (getElem?_concat_eq_some_iff _ _ _ _).mpr (.inl howner), hmem⟩
    · cases hrunning

theorem Paired.unregister (h : Paired s) (id : String) :
    Paired { s with registry := (unregister s.registry id).2 } := by
  refine { h with stored := fun id' record plugin hrecord hplugin => ?_ }
  by_cases hid : id' = id
  · simp [PluginRegistry.unregister, hid] at hrecord
  · simp only [PluginRegistry.unregister, update_of_ne hid] at hrecord hplugin
    exact h.stored id' record plugin hrecord hplugin

theorem Paired.step (h : Paired s) (a : Act)
    (hstep : PluginLifecycles.step host s a = some t) : Paired t := by
  cases a with
  | register manifest plugin =>
    simp only [PluginLifecycles.step] at hstep
    rcases register_cases host.grants s.registry manifest plugin with
      ⟨-, hregister⟩ | ⟨-, thrown, hregister⟩
    · rw [hregister] at hstep
      cases hstep
      exact h.register _ manifest plugin
    · rw [hregister] at hstep
      cases hstep
      exact h
  | unregister id =>
    cases hstep
    exact h.unregister id
  | call hook id now =>
    simp only [PluginLifecycles.step] at hstep
    split at hstep
    · cases hstep
      exact h
    · next record plugin hlookup =>
      obtain ⟨hrecord, hplugin⟩ := lookup_instances hlookup
      have howner := h.stored id record plugin hrecord hplugin
      split at hstep
      · cases hstep
        refine { h with calls := fun c hc => ?_ }
        rcases mem_append.mp hc with hold | hnew
        · exact h.calls c hold
        · rw [mem_singleton.mp hnew]
          exact howner
      · cases hstep
        exact h.succeed _ now howner
  | settle k failure now =>
    simp only [PluginLifecycles.step] at hstep
    split at hstep
    · cases hstep
    · next c hc =>
      have howner := h.calls c (mem_of_getElem? hc)
      split at hstep
      · cases hstep
        exact (h.erase k).succeed c now howner
      · cases hstep
        exact (h.erase k).setRecord c _ _ _ howner (List.Subset.refl _)
          fun _ hrunning => nomatch hrunning

theorem paired_init : Paired init where
  length := rfl
  stored := fun _ _ _ hrecord => nomatch hrecord
  calls := fun _ hc => nomatch hc
  running := fun k _ hk => by simp [init, emptyRegistry] at hk

end

/-- The registry knows the active instances as long as no id is registered or unregistered while
another instance is active under it. -/
theorem registry_knows_iff (host : Host) (acts : List Act) (t : Sys)
    (hrun : run (step host) init acts = some t) :
    (Along (step host) (StaysKnown host) init acts ↔ Meets (step host) (Guard host) init acts) ∧
      ∀ (k : ℕ) record, t.registry.records[k]? = some record → record.state = .running →
        ∃ plugin, t.owners[k]? = some plugin ∧ plugin ∈ t.completed := by
  have hiff : StaysKnown host = Stored := funext fun s => propext (staysKnown_iff s)
  have hinit : Stored init := fun e he => nomatch he
  constructor
  · rw [hiff]
    exact along_iff_meets (step host) (Guard host) Stored (fun _ => True) hinit
      (fun _ _ _ => trivial) (fun s a u _ hs hstep => stored_step_iff hs hstep) t hrun
  · exact (invariant (step host) Paired paired_init (fun s a u hs => hs.step a) hrun).running

def plainHost : Host := ⟨grantsOf [], fun _ _ => false⟩

def lifecycle : List Act :=
  [.register (sampleManifest (some [])) 0, .call .onActivate "mail" 1,
    .call .onDeactivate "mail" 2, .unregister "mail"]

theorem lifecycle_meets : Meets (step plainHost) (Guard plainHost) init lifecycle := by
  refine meets_cons _ _ _ _ (fun _ e he => nomatch he) ?_
  rintro _ ⟨⟩
  refine meets_cons _ _ _ _ trivial ?_
  rintro _ ⟨⟩
  refine meets_cons _ _ _ _ trivial ?_
  rintro _ ⟨⟩
  refine meets_cons _ _ _ _ ?_ (fun _ _ => meets_nil _ _ _)
  exact fun e he => by simp [tracked, succeed, init] at he

/-- A plugin is registered, activated, deactivated and removed, and is known throughout. -/
theorem registry_knows_lifecycle :
    Meets (step plainHost) (Guard plainHost) init lifecycle ∧
      Along (step plainHost) (StaysKnown plainHost) init lifecycle :=
  ⟨lifecycle_meets, (registry_knows_iff plainHost lifecycle _ rfl).1.mpr lifecycle_meets⟩

/-- A running plugin is registered once more: the registry now holds the new instance only. -/
theorem reregister_forgets : ∃ t,
    run (step plainHost) init [.register (sampleManifest (some [])) 0, .call .onActivate "mail" 1,
      .register (sampleManifest (some [])) 1] = some t ∧
    ("mail", 0) ∈ t.active ∧ t.registry.instances "mail" = some 1 ∧ ¬ Known t := by
  refine ⟨_, rfl, by simp [succeed], rfl, fun hknown => ?_⟩
  have hstored := hknown ("mail", 0) (by simp [succeed])
  cases hstored

end IronGolem.PluginLifecycles
