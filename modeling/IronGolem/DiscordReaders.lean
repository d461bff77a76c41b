import IronGolem.NumberedLists
import IronGolem.TransitionRuns

/-!
The gateway sessions of a Discord worker and the goroutines that read their connections. A reader
hands each frame over an unbuffered channel and otherwise watches only the context of the worker,
while the session can end through a reconnect request, an invalidated session, a write that fails
or a panic.
-/
namespace IronGolem.DiscordReaders

open NumberedLists TransitionRuns Option

/-- What a frame asks of the session. -/
inductive Frame
  | malformed
  /-- A dispatched event, and whether it carries a message for the channel. -/
  | dispatch (message : Bool)
  | heartbeat
  | heartbeatAck
  | reconnect
  | invalidSession
  | other
  deriving DecidableEq, Repr

inductive ReaderPhase
  | reading
  | holding (frame : Frame)
  /-- The error is in the buffered channel and the goroutine has returned. -/
  | failed
  | released
  deriving DecidableEq, Repr

structure Reader where
  /-- The connection it reads is closed. -/
  closed : Bool
  phase : ReaderPhase
  deriving DecidableEq, Repr

def Reader.alive (r : Reader) : Bool :=
  match r.phase with
  | .reading => true
  | .holding _ => true
  | .failed => false
  | .released => false

def Reader.holds (r : Reader) : Bool :=
  match r.phase with
  | .holding _ => true
  | _ => false

/-- Where the worker stands; a session with a reader is named by it. -/
inductive Worker
  | top
  | fetching
  | dialing
  | greeting
  | identifying
  | looping (reader : ℕ)
  | handling (reader : ℕ) (frame : Frame)
  | sending (reader : ℕ)
  /-- The session returns and closes its connection next. -/
  | leaving (reader : Option ℕ)
  | judging
  | sleeping
  | stopped
  deriving DecidableEq, Repr

/-- Steps of the worker that meet no reader. A flag tells whether a call succeeds. -/
inductive Move
  | begin
  | fetched (ok : Bool)
  | dialed (ok : Bool)
  | greeted (ok : Bool)
  | refused
  | doneSeen
  | tick (ok : Bool)
  | handle (ok : Bool)
  | deliver
  | giveUp
  | crash
  | judge
  | wake
  | quit
  deriving DecidableEq, Repr

def handled (r : ℕ) (ok : Bool) : Frame → Worker
  | .malformed => .looping r
  | .dispatch message => if message then .sending r else .looping r
  | .heartbeat => if ok then .looping r else .leaving (some r)
  | .heartbeatAck => .looping r
  | .reconnect => .leaving (some r)
  | .invalidSession => .leaving (some r)
  | .other => .looping r

def Worker.move (cancelled : Bool) : Worker → Move → Option Worker
  | .top, .begin => some (if cancelled then .stopped else .fetching)
  | .fetching, .fetched ok => some (if ok then .dialing else .judging)
  | .dialing, .dialed ok => some (if ok then .greeting else .judging)
  | .greeting, .greeted ok => some (if ok then .identifying else .leaving none)
  | .identifying, .refused => some (.leaving none)
  | .looping r, .doneSeen => if cancelled then some (.leaving (some r)) else none
  | .looping r, .tick ok => some (if ok then .looping r else .leaving (some r))
  | .handling r frame, .handle ok => some (handled r ok frame)
  | .handling r _, .crash => some (.leaving (some r))
  | .sending r, .deliver => some (.looping r)
  | .sending r, .giveUp => if cancelled then some (.leaving (some r)) else none
  -- a send on a closed channel
  | .sending r, .crash => some (.leaving (some r))
  | .judging, .judge => some (if cancelled then .stopped else .sleeping)
  | .sleeping, .wake => some .top
  | .sleeping, .quit => if cancelled then some .stopped else none
  | _, _ => none

structure Sys where
  cancelled : Bool
  worker : Worker
  readers : List Reader
  deriving DecidableEq, Repr

def init : Sys := ⟨false, .top, []⟩

inductive Act
  | cancel
  | move (m : Move)
  /-- The session has identified itself and starts its reader. -/
  | identified
  | take
  | errorSeen
  | close
  | read (reader : ℕ) (frame : Frame)
  | fail (reader : ℕ)
  | release (reader : ℕ)
  deriving DecidableEq, Repr

variable (s : Sys) (i : ℕ)

def Sys.setReader (phase : ReaderPhase) : Sys :=
  { s with readers := s.readers.modify i (fun r => { r with phase := phase }) }

def closeReader (readers : List Reader) : Option ℕ → List Reader
  | none => readers
  | some i => readers.modify i (fun r => { r with closed := true })

def step : Act → Option Sys
  | .cancel => some { s with cancelled := true }
  | .move m => (s.worker.move s.cancelled m).map (fun w => { s with worker := w })
  | .identified =>
      match s.worker with
      | .identifying =>
          some { s with
            worker := .looping s.readers.length
            readers := s.readers ++ [⟨false, .reading⟩] }
      | _ => none
  | .take =>
      match s.worker with
      | .looping i =>
          match s.readers[i]? with
          | some ⟨_, .holding frame⟩ =>
              some { s.setReader i .reading with worker := .handling i frame }
          | _ => none
      | _ => none
  | .errorSeen =>
      match s.worker with
      | .looping i =>
          match s.readers[i]? with
          | some ⟨_, .failed⟩ => some { s with worker := .leaving (some i) }
          | _ => none
      | _ => none
  | .close =>
      match s.worker with
      | .leaving i => some { s with worker := .judging, readers := closeReader s.readers i }
      | _ => none
  | .read i frame =>
      match s.readers[i]? with
      | some ⟨false, .reading⟩ => some (s.setReader i (.holding frame))
      | _ => none
  | .fail i =>
      match s.readers[i]? with
      | some ⟨_, .reading⟩ => some (s.setReader i .failed)
      | _ => none
  | .release i =>
      match s.readers[i]? with
      | some ⟨_, .holding _⟩ => if s.cancelled then some (s.setReader i .released) else none
      | _ => none

def AliveAt : Prop := ∃ r, s.readers[i]? = some r ∧ r.alive = true

/-- Whatever happens while the worker is not told to stop, the goroutine is still there. -/
def BlockedForever : Prop :=
  ∀ acts v, (∀ a ∈ acts, a ≠ .cancel) → run step s acts = some v → AliveAt v i

/-- No reader is about to leave. -/
def Quiescent : Prop :=
  ∀ (i : ℕ) r, s.readers[i]? = some r →
    (r.closed = true → step s (.fail i) = none) ∧ step s (.release i) = none

structure ReadersBounded (s : Sys) : Prop where
  free : ∀ (i : ℕ) r, s.readers[i]? = some r → r.closed = true → ¬ BlockedForever s i
  one : Quiescent s → ∀ i j, AliveAt s i → AliveAt s j → i = j

/-- A connection is closed only while its reader holds no frame, or once cancelled. -/
def ClosesEmptyHanded : Act → Prop
  | .close =>
      match s.worker with
      | .leaving (some i) => s.cancelled = true ∨ ∀ r ∈ s.readers[i]?, r.holds = false
      | _ => True
  | _ => True

instance (s : Sys) (a : Act) : Decidable (ClosesEmptyHanded s a) := by
  unfold ClosesEmptyHanded
  split
  · split <;> infer_instance
  · infer_instance

def Worker.current : Worker → Option ℕ
  | looping r => some r
  | handling r _ => some r
  | sending r => some r
  | leaving r => r
  | _ => none

inductive StepTo (s : Sys) : Act → Sys → Prop
  | cancelled : StepTo s .cancel { s with cancelled := true }
  | moved (a : Act) (w : Worker) (ha : a ≠ .close) (hw : w.current = s.worker.current) :
      StepTo s a { s with worker := w }
  | identified (hw : s.worker = .identifying) :
      StepTo s .identified
        { s with
          worker := .looping s.readers.length
          readers := s.readers ++ [⟨false, .reading⟩] }
  | took (i : ℕ) (frame : Frame) (hw : s.worker = .looping i) :
      StepTo s .take { s.setReader i .reading with worker := .handling i frame }
  | closed (i : Option ℕ) (hw : s.worker = .leaving i) :
      StepTo s .close { s with worker := .judging, readers := closeReader s.readers i }
  | read (i : ℕ) (frame : Frame) (hr : s.readers[i]? = some ⟨false, .reading⟩) :
      StepTo s (.read i frame) (s.setReader i (.holding frame))
  | failed (i : ℕ) (closed : Bool) (hr : s.readers[i]? = some ⟨closed, .reading⟩) :
      StepTo s (.fail i) (s.setReader i .failed)
  | released (i : ℕ) (hcancelled : s.cancelled = true) :
      StepTo s (.release i) (s.setReader i .released)

theorem current_handled (r : ℕ) (ok : Bool) (frame : Frame) :
    (handled r ok frame).current = some r := by
  cases frame with
  | dispatch message => cases message <;> rfl
  | heartbeat => cases ok <;> rfl
  | _ => rfl

/-- The worker's own steps neither open nor leave a session with a reader. -/
theorem current_move {w w' : Worker} {cancelled : Bool} {m : Move}
    (h : w.move cancelled m = some w') : w'.current = w.current := by
  cases w with
  | top | judging => cases m <;> cases cancelled <;> cases h <;> rfl
  | fetching | dialing | greeting =>
    cases m with
    | fetched ok | dialed ok | greeted ok => cases ok <;> cases h <;> rfl
    | _ => cases h
  | looping r =>
    cases m with
    | doneSeen =>
      cases cancelled with
      | true =>
        cases h
        rfl
      | false => cases h
    | tick ok => cases ok <;> cases h <;> rfl
    | _ => cases h
  | handling r frame =>
    cases m with
    | handle ok =>
      cases h
      exact current_handled r ok frame
    | crash =>
      cases h
      rfl
    | _ => cases h
  | sending r | sleeping => cases m <;> cases cancelled <;> cases h <;> rfl
  | identifying | leaving reader | stopped => cases m <;> cases h <;> rfl

variable (s : Sys) {u : Sys} {a : Act}

theorem step_to (h : step s a = some u) : StepTo s a u := by
  cases a with
  | cancel =>
    cases h
    exact .cancelled
  | move m =>
    obtain ⟨w, hw, rfl⟩ := map_eq_some_iff.mp h
    exact .moved _ w nofun (current_move hw)
  | identified =>
    simp only [step] at h
    split at h
    · rename_i hw
      cases h
      exact .identified hw
    · cases h
  | take =>
    simp only [step] at h
    split at h
    · rename_i i hw
      split at h
      · rename_i frame hr
        cases h
        exact .took i frame hw
      · cases h
    · cases h
  | errorSeen =>
    simp only [step] at h
    split at h
    · rename_i i hw
      split at h
      · cases h
        exact .moved _ _ nofun (by rw [hw]; rfl)
      · cases h
    · cases h
  | close =>
    simp only [step] at h
    split at h
    · rename_i i hw
      cases h
      exact .closed i hw
    · cases h
  | read i frame =>
    simp only [step] at h
    split at h
    · rename_i hr
      cases h
      exact .read i frame hr
    · cases h
  | fail i =>
    simp only [step] at h
    split at h
    · rename_i closed hr
      cases h
      exact .failed i closed hr
    · cases h
  | release i =>
    simp only [step] at h
    split at h
    · split at h
      · rename_i hcancelled
        cases h
        exact .released i hcancelled
      · cases h
    · cases h

/-- The readers of open connections are the one of the current session. -/
structure Known (s : Sys) : Prop where
  only : ∀ (i : ℕ) r, s.readers[i]? = some r → r.closed = false → s.worker.current = some i
  there : ∀ i, s.worker.current = some i → ∃ r, s.readers[i]? = some r ∧ r.closed = false

theorem known_init : Known init := ⟨by simp [init], by nofun⟩

theorem known_setReader (hk : Known s) (i : ℕ) (phase : ReaderPhase) {w : Worker}
    (hw : w.current = s.worker.current) : Known { s.setReader i phase with worker := w } := by
  refine ⟨?_, ?_⟩
  · intro j q hq hopen
    obtain ⟨r, hr, rfl⟩ := getElem?_modify_eq_some_iff.mp hq
    refine hw.trans (hk.only j r hr ?_)
    split at hopen <;> exact hopen
  · intro j hj
    obtain ⟨r, hr, hopen⟩ := hk.there j (hw.symm.trans hj)
    exact exists_getElem?_modify s.readers _ i j (fun r => r.closed = false) hr hopen id

theorem known_identified (hk : Known s) (hw : s.worker = .identifying) :
    Known { s with
      worker := .looping s.readers.length
      readers := s.readers ++ [⟨false, .reading⟩] } := by
  refine ⟨?_, ?_⟩
  · intro i r hr hopen
    rcases (getElem?_concat_eq_some_iff s.readers _ r i).mp hr with hr | ⟨rfl, -⟩
    · have hcurrent := hk.only i r hr hopen
      rw [hw] at hcurrent
      cases hcurrent
    · rfl
  · intro i hi
    cases hi
    exact ⟨_, (getElem?_concat_eq_some_iff s.readers _ _ _).mpr (.inr ⟨rfl, rfl⟩), rfl⟩

theorem known_closed (hk : Known s) {i : Option ℕ} (hw : s.worker = .leaving i) :
    Known { s with worker := .judging, readers := closeReader s.readers i } := by
  refine ⟨?_, nofun⟩
  intro j q hq hopen
  cases i with
  | none =>
    have hcurrent := hk.only j q hq hopen
    rw [hw] at hcurrent
    cases hcurrent
  | some i =>
    obtain ⟨r, hr, rfl⟩ := getElem?_modify_eq_some_iff.mp hq
    split at hopen
    · cases hopen
    · rename_i hij
      have hcurrent := hk.only j r hr hopen
      rw [hw] at hcurrent
      exact absurd (some.inj hcurrent) hij

theorem known_step (hk : Known s) (h : step s a = some u) : Known u := by
  cases step_to s h with
  | cancelled => exact ⟨hk.only, hk.there⟩
  | moved _ w _ hw =>
    exact ⟨fun i r hr ho => hw.trans (hk.only i r hr ho), fun i hi => hk.there i (hw.symm.trans hi)⟩
  | identified hw => exact known_identified s hk hw
  | took i frame hw => exact known_setReader s hk i .reading (by rw [hw]; rfl)
  | closed i hw => exact known_closed s hk hw
  | read i frame hr | failed i closed hr | released i hcancelled =>
    exact known_setReader s hk i _ rfl

theorem known_run (acts : List Act) {t : Sys} (hrun : run step init acts = some t) : Known t :=
  invariant step Known known_init (fun s _ _ hk h => known_step s hk h) hrun

def Stranded (s : Sys) (i : ℕ) : Prop :=
  ∃ frame, s.readers[i]? = some ⟨true, .holding frame⟩

variable {i : ℕ}

/-- What a step does to a reader whose connection is closed. -/
theorem stranded_step (hk : Known s) (h : step s a = some u)
    (hi : Stranded s i) (hcancelled : s.cancelled = false) : Stranded u i := by
  obtain ⟨frame, hi⟩ := hi
  have hother : ∀ (j : ℕ) phase, j ≠ i → Stranded (s.setReader j phase) i := by
    intro j phase hj
    exact ⟨frame, getElem?_modify_eq_some_iff.mpr ⟨_, hi, by rw [if_neg hj]⟩⟩
  cases step_to s h with
  | identified _ => exact ⟨frame, (getElem?_concat_eq_some_iff s.readers _ _ i).mpr (.inl hi)⟩
  | took j frame' hw =>
    refine hother j .reading ?_
    rintro rfl
    -- the session that receives has an open connection
    obtain ⟨r, hr, hopen⟩ := hk.there j (by rw [hw]; rfl)
    rw [hi, some.injEq] at hr
    rw [← hr] at hopen
    cases hopen
  | closed j _ =>
    cases j with
    | none => exact ⟨frame, hi⟩
    | some j =>
      refine ⟨frame, getElem?_modify_eq_some_iff.mpr ⟨_, hi, ?_⟩⟩
      split <;> rfl
  | read j frame' hr | failed j closed hr =>
    refine hother j _ ?_
    rintro rfl
    rw [hi] at hr
    cases hr
  | released j hc =>
    rw [hcancelled] at hc
    cases hc
  | _ => exact ⟨frame, hi⟩

theorem cancelled_step (h : step s a = some u) (ha : a ≠ .cancel) : u.cancelled = s.cancelled := by
  cases step_to s h with
  | cancelled => exact absurd rfl ha
  | _ => rfl

theorem blockedForever_of_stranded (hk : Known s) (hi : Stranded s i)
    (hcancelled : s.cancelled = false) : BlockedForever s i := by
  intro acts
  induction acts generalizing s with
  | nil =>
    intro v _ hrun
    cases hrun
    obtain ⟨frame, hi⟩ := hi
    exact ⟨_, hi, rfl⟩
  | cons a acts ih =>
    intro v hacts hrun
    obtain ⟨u, hu, hrest⟩ := bind_eq_some_iff.mp hrun
    refine ih u (known_step s hk hu) (stranded_step s hk hu hi hcancelled) ?_ v
      (fun b hb => hacts b (List.mem_cons_of_mem a hb)) hrest
    rw [cancelled_step s hu (hacts a List.mem_cons_self), hcancelled]

theorem not_aliveAt_setReader (i : ℕ) {phase : ReaderPhase}
    (hphase : ∀ closed, (⟨closed, phase⟩ : Reader).alive = false) :
    ¬ AliveAt (s.setReader i phase) i := by
  rintro ⟨q, hq, halive⟩
  obtain ⟨r, -, rfl⟩ := getElem?_modify_eq_some_iff.mp hq
  rw [if_pos rfl, hphase] at halive
  cases halive

variable {r : Reader}

theorem blockedForever_iff (hk : Known s)
    (hr : s.readers[i]? = some r) (hclosed : r.closed = true) :
    BlockedForever s i ↔ Stranded s i ∧ s.cancelled = false := by
  constructor
  · intro h
    obtain ⟨closed, phase⟩ := r
    obtain rfl : closed = true := hclosed
    cases phase with
    | reading =>
      -- the read fails
      have hstep : step s (.fail i) = some (s.setReader i .failed) := by
        simp [step, hr]
      have halive := h [.fail i] _ (by simp) (by rw [run_cons, hstep]; rfl)
      exact absurd halive (not_aliveAt_setReader s i (fun _ => rfl))
    | holding frame =>
      refine ⟨⟨frame, hr⟩, ?_⟩
      by_contra hcancelled
      have hstep : step s (.release i) = some (s.setReader i .released) := by
        simp only [step, hr]
        rw [if_pos (Bool.not_eq_false _ ▸ hcancelled)]
      have halive := h [.release i] _ (by simp) (by rw [run_cons, hstep]; rfl)
      exact absurd halive (not_aliveAt_setReader s i (fun _ => rfl))
    | _ =>
      obtain ⟨q, hq, halive⟩ := h [] s (by simp) rfl
      rw [hr, some.injEq] at hq
      rw [← hq] at halive
      cases halive
  · intro h
    exact blockedForever_of_stranded s hk h.1 h.2

def NoneStranded (s : Sys) : Prop := s.cancelled = false → ∀ i, ¬ Stranded s i

theorem not_aliveAt_of_quiescent (hs : NoneStranded s) (hq : Quiescent s)
    (hr : s.readers[i]? = some r) (hclosed : r.closed = true) : r.alive = false := by
  obtain ⟨closed, phase⟩ := r
  obtain rfl : closed = true := hclosed
  cases phase with
  | reading =>
    have hfail := (hq i _ hr).1 rfl
    simp only [step, hr] at hfail
    cases hfail
  | holding frame =>
    have hrelease := (hq i _ hr).2
    simp only [step, hr] at hrelease
    split at hrelease
    · cases hrelease
    · rename_i hcancelled
      exact absurd ⟨frame, hr⟩ (hs (Bool.eq_false_iff.mpr hcancelled) i)
  | _ => rfl

theorem readersBounded_iff (hk : Known s) : ReadersBounded s ↔ NoneStranded s := by
  constructor
  · intro h hcancelled i hi
    obtain ⟨frame, hr⟩ := hi
    exact h.free i _ hr rfl ((blockedForever_iff s hk hr rfl).mpr ⟨⟨frame, hr⟩, hcancelled⟩)
  · intro hs
    refine ⟨?_, ?_⟩
    · intro i r hr hclosed hblocked
      obtain ⟨hi, hcancelled⟩ := (blockedForever_iff s hk hr hclosed).mp hblocked
      exact hs hcancelled i hi
    · intro hq i j hi hj
      have hcurrent : ∀ k, AliveAt s k → s.worker.current = some k := by
        rintro k ⟨r, hr, halive⟩
        cases hclosed : r.closed with
        | false => exact hk.only k r hr hclosed
        | true =>
          rw [not_aliveAt_of_quiescent s hs hq hr hclosed] at halive
          cases halive
      exact some.inj ((hcurrent i hi).symm.trans (hcurrent j hj))

/-- A reader is left behind where its connection is closed while it holds a frame. -/
theorem stranded_of_step (h : step s a = some u) (hi : Stranded u i) :
    Stranded s i ∨ (a = .close ∧ s.worker = .leaving (some i) ∧
      ∃ closed frame, s.readers[i]? = some ⟨closed, .holding frame⟩) := by
  obtain ⟨frame, hi⟩ := hi
  have hset : ∀ (j : ℕ) phase, (s.setReader j phase).readers[i]? = some ⟨true, .holding frame⟩ →
      Stranded s i ∨ (i = j ∧ phase = .holding frame ∧
        ∃ phase', s.readers[i]? = some ⟨true, phase'⟩) := by
    intro j phase hj
    obtain ⟨r, hr, heq⟩ := getElem?_modify_eq_some_iff.mp hj
    split at heq
    · rename_i hji
      obtain ⟨closed, phase'⟩ := r
      obtain ⟨rfl, rfl⟩ := heq
      exact .inr ⟨hji.symm, rfl, phase', hr⟩
    · exact .inl ⟨frame, by rw [hr, ← heq]⟩
  cases step_to s h with
  | identified _ =>
    rcases (getElem?_concat_eq_some_iff s.readers _ _ i).mp hi with hi | ⟨-, heq⟩
    · exact .inl ⟨frame, hi⟩
    · cases heq
  | took j frame' _ =>
    rcases hset j .reading hi with hold | ⟨-, hphase, -⟩
    · exact .inl hold
    · cases hphase
  | closed j hw =>
    cases j with
    | none => exact .inl ⟨frame, hi⟩
    | some j =>
      obtain ⟨r, hr, heq⟩ := getElem?_modify_eq_some_iff.mp hi
      split at heq
      · rename_i hji
        obtain ⟨closed, phase⟩ := r
        simp only [Reader.mk.injEq, true_and] at heq
        exact .inr ⟨rfl, hji ▸ hw, closed, frame, by rw [hr, heq]⟩
      · exact .inl ⟨frame, by rw [hr, ← heq]⟩
  | read j frame' hr =>
    rcases hset j _ hi with hold | ⟨rfl, -, phase, hphase⟩
    · exact .inl hold
    · rw [hr] at hphase
      cases hphase
  | failed j closed _ | released j _ =>
    rcases hset j _ hi with hold | ⟨-, hphase, -⟩
    · exact .inl hold
    · cases hphase
  | _ => exact .inl ⟨frame, hi⟩

theorem not_cancelled_of_step (h : step s a = some u)
    (hu : u.cancelled = false) : s.cancelled = false := by
  by_cases ha : a = .cancel
  · subst ha
    cases h
    cases hu
  · rw [← cancelled_step s h ha, hu]

theorem closesEmptyHanded_iff (hw : s.worker = .leaving (some i)) :
    ClosesEmptyHanded s .close ↔ s.cancelled = true ∨ ∀ r ∈ s.readers[i]?, r.holds = false := by
  simp [ClosesEmptyHanded, hw]

theorem noneStranded_of_not_closing (hs : NoneStranded s)
    (h : step s a = some u) (ha : ∀ i, ¬ (a = .close ∧ s.worker = .leaving (some i))) :
    NoneStranded u := by
  intro hu i hi
  rcases stranded_of_step s h hi with hold | ⟨hclose, hw, -⟩
  · exact hs (not_cancelled_of_step s h hu) i hold
  · exact ha i ⟨hclose, hw⟩

theorem closesEmptyHanded_of_not_closing (ha : ∀ i, ¬ (a = .close ∧ s.worker = .leaving (some i))) :
    ClosesEmptyHanded s a := by
  cases a with
  | close =>
    have hw : ∀ i, s.worker ≠ .leaving (some i) := fun i hw => ha i ⟨rfl, hw⟩
    simp [ClosesEmptyHanded]
  | _ => trivial

theorem noneStranded_step_iff (hs : NoneStranded s)
    (h : step s a = some u) : NoneStranded u ↔ ClosesEmptyHanded s a := by
  by_cases hclosing : ∃ i, a = .close ∧ s.worker = .leaving (some i)
  · obtain ⟨i, rfl, hw⟩ := hclosing
    rw [closesEmptyHanded_iff s hw]
    constructor
    · intro hu
      by_contra hnot
      push Not at hnot
      obtain ⟨hcancelled, ⟨closed, phase⟩, hr, hholds⟩ := hnot
      simp only [step, hw] at h
      cases h
      cases phase with
      | holding frame =>
        refine hu (Bool.eq_false_iff.mpr hcancelled) i ⟨frame, ?_⟩
        exact getElem?_modify_eq_some_iff.mpr ⟨_, hr, by rw [if_pos rfl]⟩
      | _ => exact hholds rfl
    · intro hg hu j hj
      have hcancelled := not_cancelled_of_step s h hu
      rcases stranded_of_step s h hj with hold | ⟨-, hw', closed, frame, hr⟩
      · exact hs hcancelled j hold
      · rw [hw] at hw'
        cases hw'
        rcases hg with hc | hempty
        · rw [hcancelled] at hc
          cases hc
        · cases hempty _ hr
  · have hclosing : ∀ i, ¬ (a = .close ∧ s.worker = .leaving (some i)) := not_exists.mp hclosing
    exact ⟨fun _ => closesEmptyHanded_of_not_closing s hclosing,
      fun _ => noneStranded_of_not_closing s hs h hclosing⟩

/-- No reader stays blocked and at most one is left exactly if connections are closed while their
readers hold no frame or after the context was cancelled. -/
theorem readers_bounded_iff_closes_empty_handed (acts : List Act) (t : Sys)
    (hrun : run step init acts = some t) :
    Along step ReadersBounded init acts ↔ Meets step ClosesEmptyHanded init acts := by
  have hexact := along_iff_meets step ClosesEmptyHanded NoneStranded Known
    (fun _ i hi => by obtain ⟨frame, hi⟩ := hi; cases hi) known_run
    (fun s a u _ hs h => noneStranded_step_iff s hs h) t hrun
  rw [← hexact]
  constructor
  · intro h pre post s hacts hpre
    exact (readersBounded_iff s (known_run pre hpre)).mp (h pre post s hacts hpre)
  · intro h pre post s hacts hpre
    exact (readersBounded_iff s (known_run pre hpre)).mpr (h pre post s hacts hpre)

def connects : List Act :=
  [.move .begin, .move (.fetched true), .move (.dialed true), .move (.greeted true), .identified]

def reconnects : List Act :=
  connects ++ [.read 0 .reconnect, .take, .move (.handle true), .close, .fail 0, .move .judge,
    .move .wake] ++ connects

theorem reconnect_leaves_no_reader :
    ∃ t, run step init reconnects = some t ∧ Along step ReadersBounded init reconnects := by
  obtain ⟨t, hrun, -⟩ := exists_run_of_check step (fun s : Sys => s.readers.length = 2) init
    reconnects (by decide)
  exact ⟨t, hrun, (readers_bounded_iff_closes_empty_handed reconnects t hrun).mpr
    (meets_of_checkMeets step _ _ _ (by decide))⟩

/-- Another frame comes in before the session has looked at the reconnect request. -/
def readsAhead : List Act :=
  connects ++ [.read 0 .reconnect, .take, .read 0 .heartbeatAck, .move (.handle true), .close]

theorem reader_ahead_blocked_forever :
    ∃ t, run step init readsAhead = some t ∧ ¬ ReadersBounded t := by
  obtain ⟨t, hrun, hcancelled, hr⟩ := exists_run_of_check step
    (fun s : Sys => s.cancelled = false ∧ s.readers[0]? = some ⟨true, .holding .heartbeatAck⟩) init
    readsAhead (by decide)
  refine ⟨t, hrun, ?_⟩
  rw [readersBounded_iff t (known_run readsAhead hrun)]
  intro h
  exact h hcancelled 0 ⟨_, hr⟩

end IronGolem.DiscordReaders
