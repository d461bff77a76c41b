import Mathlib.Data.List.Basic

/-!
Method bodies of one goroutine under one read-write mutex. A body works on a state that the mutex
guards and knows what its own goroutine holds. It returns, it panics, or it waits for the mutex
while the goroutine itself holds it, which never ends.
-/
namespace IronGolem.OwnLocks

/-- What the goroutine holds: the mutex for writing, and how often for reading. -/
structure Hold where
  writing : Bool
  reading : ℕ
  deriving DecidableEq, Repr

def Hold.free : Hold := ⟨false, 0⟩

inductive Stop
  | waits
  | panics
  deriving DecidableEq, Repr

structure Guarded (σ : Type) where
  state : σ
  hold : Hold

structure Body (σ α : Type) where
  run : Guarded σ → Except Stop α × Guarded σ

variable {σ α β ι : Type} (p : Body σ α)

def Body.andThen (f : α → Body σ β) : Body σ β :=
  ⟨fun g => match p.run g with
    | (.ok a, g') => (f a).run g'
    | (.error e, g') => (.error e, g')⟩

instance : Monad (Body σ) where
  pure a := ⟨fun g => (.ok a, g)⟩
  bind := Body.andThen

def lock : Body σ Unit := ⟨fun g =>
  if g.hold = Hold.free then (.ok (), { g with hold := ⟨true, 0⟩ }) else (.error .waits, g)⟩

def unlock : Body σ Unit := ⟨fun g =>
  if g.hold.writing then (.ok (), { g with hold := { g.hold with writing := false } })
  else (.error .panics, g)⟩

def rLock : Body σ Unit := ⟨fun g =>
  if g.hold.writing then (.error .waits, g)
  else (.ok (), { g with hold := { g.hold with reading := g.hold.reading + 1 } })⟩

def rUnlock : Body σ Unit := ⟨fun g =>
  if g.hold.reading = 0 then (.error .panics, g)
  else (.ok (), { g with hold := { g.hold with reading := g.hold.reading - 1 } })⟩

def read (f : σ → α) : Body σ α := ⟨fun g => (.ok (f g.state), g)⟩

def write (f : σ → σ) : Body σ Unit := ⟨fun g => (.ok (), { g with state := f g.state })⟩

def panic : Body σ α := ⟨fun g => (.error .panics, g)⟩

def deferring (last : Body σ Unit) : Body σ α := ⟨fun g =>
  match p.run g with
  | (.error .waits, g') => (.error .waits, g')
  | (result, g') => match last.run g' with
    | (.ok (), g'') => (result, g'')
    | (.error e, g'') => (.error e, g'')⟩

def locked : Body σ α := do
  lock
  deferring p unlock

def rLocked (f : σ → α) : Body σ α := do
  rLock
  let a ← read f
  rUnlock
  return a

variable {p : Body σ α} (f : α → Body σ β) {g g' : Guarded σ} (a : α)

theorem run_bind_ok (h : p.run g = (.ok a, g')) : (p >>= f).run g = (f a).run g' := by
  change (p.andThen f).run g = _
  unfold Body.andThen
  simp only [h]

theorem run_bind_error {e : Stop}
    (h : p.run g = (.error e, g')) : (p >>= f).run g = (.error e, g') := by
  change (p.andThen f).run g = _
  unfold Body.andThen
  simp only [h]

theorem run_write_bind (u : σ → σ) (f : Unit → Body σ β) (g : Guarded σ) :
    (write u >>= f).run g = (f ()).run { g with state := u g.state } := rfl

theorem run_read_bind (r : σ → α) (f : α → Body σ β) (g : Guarded σ) :
    (read r >>= f).run g = (f (r g.state)).run g := rfl

def Keeps (p : Body σ α) : Prop :=
  ∀ g, (p.run g).1 ≠ .error .waits ∧ (p.run g).2.hold = g.hold

theorem keeps_pure : Keeps (pure a : Body σ α) := fun _ => ⟨nofun, rfl⟩

theorem keeps_read (f : σ → α) : Keeps (read f) := fun _ => ⟨nofun, rfl⟩

theorem keeps_write (f : σ → σ) : Keeps (write f) := fun _ => ⟨nofun, rfl⟩

theorem keeps_panic : Keeps (panic : Body σ α) := fun _ => ⟨nofun, rfl⟩

variable {f}

/-- A sequence of bodies that leave the lock alone leaves it alone. -/
theorem Keeps.bind (hp : Keeps p) (hf : ∀ a, Keeps (f a)) : Keeps (p >>= f) := by
  intro g
  obtain ⟨hwaits, hhold⟩ := hp g
  cases hrun : p.run g with
  | mk result g' =>
    rw [hrun] at hwaits hhold
    cases result with
    | ok a =>
      rw [run_bind_ok f a hrun]
      exact ⟨(hf a g').1, (hf a g').2.trans hhold⟩
    | error e =>
      rw [run_bind_error f hrun]
      refine ⟨?_, hhold⟩
      intro h
      exact hwaits (congrArg Except.error (Except.error.inj h))

def Returns (p : Body σ α) : Prop :=
  ∀ g, g.hold = Hold.free → (p.run g).1 ≠ .error .waits ∧ (p.run g).2.hold = Hold.free

theorem Keeps.returns (h : Keeps p) : Returns p := by
  intro g hfree
  exact ⟨(h g).1, (h g).2.trans hfree⟩

theorem Returns.bind (hp : Returns p) (hf : ∀ a, Returns (f a)) : Returns (p >>= f) := by
  intro g hfree
  obtain ⟨hwaits, hhold⟩ := hp g hfree
  cases hrun : p.run g with
  | mk result g' =>
    rw [hrun] at hwaits hhold
    cases result with
    | ok a =>
      rw [run_bind_ok f a hrun]
      exact hf a g' hhold
    | error e =>
      rw [run_bind_error f hrun]
      refine ⟨?_, hhold⟩
      intro h
      exact hwaits (congrArg Except.error (Except.error.inj h))

theorem lock_of_free (h : g.hold = Hold.free) :
    lock.run g = (.ok (), { g with hold := ⟨true, 0⟩ }) := if_pos h

theorem unlock_of_writing (h : g.hold = ⟨true, 0⟩) :
    unlock.run g = (.ok (), { g with hold := Hold.free }) := by
  unfold unlock
  simp only [h]
  rfl

/-- A goroutine that asks for the read lock under its own write lock waits for itself. -/
theorem rLocked_of_writing (f : σ → α) (h : g.hold.writing = true) :
    (rLocked f).run g = (.error .waits, g) :=
  run_bind_error _ (if_pos h)

theorem rLocked_of_free (f : σ → α) (h : g.hold = Hold.free) :
    (rLocked f).run g = (.ok (f g.state), g) := by
  obtain ⟨state, hold⟩ := g
  subst h
  rfl

theorem returns_rLocked (f : σ → α) : Returns (rLocked f) := by
  intro g hfree
  rw [rLocked_of_free f hfree]
  exact ⟨nofun, hfree⟩

theorem deferring_of_waits (last : Body σ Unit)
    (h : p.run g = (.error .waits, g')) : (deferring p last).run g = (.error .waits, g') := by
  unfold deferring
  simp only [h]

/-- Deferred calls run after a return and after a panic. -/
theorem deferring_of_ends {last : Body σ Unit} {g'' : Guarded σ}
    {result : Except Stop α} (h : p.run g = (result, g')) (hresult : result ≠ .error .waits)
    (hlast : last.run g' = (.ok (), g'')) : (deferring p last).run g = (result, g'') := by
  unfold deferring
  cases result with
  | ok a => simp only [h, hlast]
  | error e =>
    cases e with
    | waits => exact absurd rfl hresult
    | panics => simp only [h, hlast]

theorem locked_of_waits (hfree : g.hold = Hold.free)
    (h : (p.run { g with hold := ⟨true, 0⟩ }).1 = .error .waits) :
    ((locked p).run g).1 = .error .waits := by
  unfold locked
  rw [run_bind_ok _ () (lock_of_free hfree), deferring_of_waits unlock (Prod.ext h rfl)]

/-- A critical section whose body does not lock returns. -/
theorem Keeps.locked (h : Keeps p) : Returns (locked p) := by
  intro g hfree
  unfold OwnLocks.locked
  rw [run_bind_ok _ () (lock_of_free hfree)]
  obtain ⟨hwaits, hhold⟩ := h { g with hold := ⟨true, 0⟩ }
  rw [deferring_of_ends rfl hwaits (unlock_of_writing hhold)]
  exact ⟨hwaits, rfl⟩

def CallsReturn : List (Body σ α) → Guarded σ → Prop
  | [], _ => True
  | p :: rest, g => (p.run g).1 ≠ .error .waits ∧ CallsReturn rest (p.run g).2

/-- Calls one after the other all return exactly if each of them is good. -/
theorem callsReturn_iff (body : ι → Body σ α) (Good : ι → Prop)
    (hgood : ∀ i, Good i → Returns (body i))
    (hbad : ∀ i g, ¬ Good i → g.hold = Hold.free → ((body i).run g).1 = .error .waits)
    (calls : List ι) (g : Guarded σ) (hfree : g.hold = Hold.free) :
    CallsReturn (calls.map body) g ↔ ∀ i ∈ calls, Good i := by
  induction calls generalizing g with
  | nil => simp [CallsReturn]
  | cons i calls ih =>
    rw [List.map_cons, CallsReturn, List.forall_mem_cons]
    by_cases hi : Good i
    · obtain ⟨hwaits, hhold⟩ := hgood i hi g hfree
      rw [ih _ hhold]
      exact and_congr (iff_of_true hwaits hi) Iff.rfl
    · refine iff_of_false ?_ (fun h => hi h.1)
      intro h
      exact h.1 (hbad i g hi hfree)

end IronGolem.OwnLocks
