import IronGolem.RuntimeDaemon
import Mathlib.Data.List.Flatten

/-!
What the daemon's steps do to its output. For every line read, what its task has written followed
by what the task still has to write is the whole answer to the line, and nothing is written for
other lines. The lock keeps the output a sequence of whole lines, with at most one line begun.
-/
namespace IronGolem.DaemonOutput

open RuntimeMessages RuntimeDaemon TransitionRuns WorkflowEngine List Option Function

variable {σ : Type} (cfg : Config σ)

/-- What a step can do. -/
inductive StepTo (d : Daemon) : Act → Daemon → Prop
  | receive (line : StdinLine) (hopen : d.inputClosed = false) :
      StepTo d (.receive line) { d with input := d.input ++ [line] }
  | closeInput (hopen : d.inputClosed = false) : StepTo d .closeInput { d with inputClosed := true }
  | read (line : StdinLine) (hpc : d.pc = .reading) (hline : d.input[d.next]? = some line) :
      StepTo d .read (d.take (dispatch cfg line))
  | endOfInput (hpc : d.pc = .reading) (hclosed : d.inputClosed = true)
      (hend : d.input.length ≤ d.next) : StepTo d .endOfInput { d with pc := .draining }
  | resume (n : ℕ) (hpc : d.pc = .awaiting n) (hidle : (d.tasks n).idle = true) :
      StepTo d (.resume n) { d with pc := .reading }
  | leave (hpc : d.pc = .draining) (hidle : ∀ n < d.next, (d.tasks n).idle = true) :
      StepTo d .leave { d with pc := .exited }
  | finish (n : ℕ) (work : Work) (messages : List (Reply Event)) (hpc : d.pc.running = true)
      (htask : d.tasks n = .computing work) (hdone : finished cfg n work = some messages) :
      StepTo d (.finish n) (d.setTask n (.writing messages))
  | lock (n : ℕ) (m : Reply Event) (rest : List (Reply Event)) (hpc : d.pc.running = true)
      (htask : d.tasks n = .writing (m :: rest)) (hlock : d.lock = none) :
      StepTo d (.lock n) { d with lock := some (n, .body) }
  | writeBody (n : ℕ) (m : Reply Event) (rest : List (Reply Event)) (hpc : d.pc.running = true)
      (htask : d.tasks n = .writing (m :: rest)) (hlock : d.lock = some (n, .body)) :
      StepTo d (.writeBody n)
        { d with lock := some (n, .newline), stdout := d.stdout ++ [.body n m] }
  | writeNewline (n : ℕ) (m : Reply Event) (rest : List (Reply Event))
      (hpc : d.pc.running = true) (htask : d.tasks n = .writing (m :: rest))
      (hlock : d.lock = some (n, .newline)) :
      StepTo d (.writeNewline n)
        { d with lock := some (n, .flush), stdout := d.stdout ++ [.newline] }
  | flush (n : ℕ) (m : Reply Event) (rest : List (Reply Event)) (hpc : d.pc.running = true)
      (htask : d.tasks n = .writing (m :: rest)) (hlock : d.lock = some (n, .flush)) :
      StepTo d (.flush n) { d.setTask n (.writing rest) with lock := none }

variable (d e : Daemon) {n : ℕ} (a : Act)

/-- A task finishes its work, or it is about to write its next message. -/
theorem taskStep_cases (h : taskStep cfg d n a = some e) :
    d.pc.running = true ∧
      ((∃ work messages k, d.tasks n = .computing work ∧ a = .finish k ∧
        finished cfg n work = some messages ∧ e = d.setTask n (.writing messages)) ∨
      ∃ m rest, d.tasks n = .writing (m :: rest) ∧ writeStep d n m rest a = some e) := by
  unfold taskStep at h
  split at h
  · rename_i hpc
    refine ⟨hpc, ?_⟩
    split at h
    · rename_i work k htask
      obtain ⟨messages, hdone, he⟩ := map_eq_some_iff.mp h
      exact .inl ⟨work, messages, k, htask, rfl, hdone, he.symm⟩
    · rename_i m rest htask
      exact .inr ⟨m, rest, htask, h⟩
    · cases h
  · cases h

theorem taskStep_writes (h : taskStep cfg d n a = some e) (ha : ∀ k, a ≠ .finish k) :
    d.pc.running = true ∧
      ∃ m rest, d.tasks n = .writing (m :: rest) ∧ writeStep d n m rest a = some e := by
  obtain ⟨hpc, ⟨work, messages, k, -, hfinish, -⟩ | hwrite⟩ := taskStep_cases cfg d e a h
  · exact absurd hfinish (ha k)
  · exact ⟨hpc, hwrite⟩

theorem step_to (h : step cfg d a = some e) : StepTo cfg d a e := by
  cases a with
  | receive line =>
    simp only [step, ite_none_left_eq_some, some.injEq] at h
    obtain ⟨hopen, rfl⟩ := h
    exact .receive line (by simpa using hopen)
  | closeInput =>
    simp only [step, ite_none_left_eq_some, some.injEq] at h
    obtain ⟨hopen, rfl⟩ := h
    exact .closeInput (by simpa using hopen)
  | read =>
    simp only [step, ite_none_right_eq_some, map_eq_some_iff] at h
    obtain ⟨hpc, line, hline, rfl⟩ := h
    exact .read line hpc hline
  | endOfInput =>
    simp only [step, ite_none_right_eq_some, some.injEq] at h
    obtain ⟨⟨hpc, hclosed, hend⟩, rfl⟩ := h
    exact .endOfInput hpc hclosed hend
  | resume n =>
    simp only [step, ite_none_right_eq_some, some.injEq] at h
    obtain ⟨⟨hpc, hidle⟩, rfl⟩ := h
    exact .resume n hpc hidle
  | leave =>
    simp only [step, ite_none_right_eq_some, some.injEq] at h
    obtain ⟨⟨hpc, hidle⟩, rfl⟩ := h
    exact .leave hpc hidle
  | finish n =>
    obtain ⟨hpc, ⟨work, messages, k, htask, -, hdone, rfl⟩ | ⟨m, rest, -, hwrite⟩⟩ :=
      taskStep_cases cfg d e _ h
    · exact .finish n work messages hpc htask hdone
    · cases hwrite
  | lock n =>
    obtain ⟨hpc, m, rest, htask, hwrite⟩ := taskStep_writes cfg d e _ h (fun _ => nofun)
    simp only [writeStep, ite_none_right_eq_some, some.injEq] at hwrite
    obtain ⟨hlock, rfl⟩ := hwrite
    exact .lock n m rest hpc htask hlock
  | writeBody n =>
    obtain ⟨hpc, m, rest, htask, hwrite⟩ := taskStep_writes cfg d e _ h (fun _ => nofun)
    simp only [writeStep, ite_none_right_eq_some, some.injEq] at hwrite
    obtain ⟨hlock, rfl⟩ := hwrite
    exact .writeBody n m rest hpc htask hlock
  | writeNewline n =>
    obtain ⟨hpc, m, rest, htask, hwrite⟩ := taskStep_writes cfg d e _ h (fun _ => nofun)
    simp only [writeStep, ite_none_right_eq_some, some.injEq] at hwrite
    obtain ⟨hlock, rfl⟩ := hwrite
    exact .writeNewline n m rest hpc htask hlock
  | flush n =>
    obtain ⟨hpc, m, rest, htask, hwrite⟩ := taskStep_writes cfg d e _ h (fun _ => nofun)
    simp only [writeStep, ite_none_right_eq_some, some.injEq] at hwrite
    obtain ⟨hlock, rfl⟩ := hwrite
    exact .flush n m rest hpc htask hlock

variable {e} {a}

theorem StepTo.step {d : Daemon} (h : StepTo cfg d a e) : step cfg d a = some e := by
  cases h with
  | receive line hopen | closeInput hopen => simp [RuntimeDaemon.step, hopen]
  | read line hpc hline => simp [RuntimeDaemon.step, hpc, hline]
  | endOfInput hpc hclosed hend => simp [RuntimeDaemon.step, hpc, hclosed, hend]
  | resume n hpc hidle => simp [RuntimeDaemon.step, hpc, hidle]
  | leave hpc hidle =>
    exact if_pos ⟨hpc, hidle⟩
  | finish n work messages hpc htask hdone =>
    simp [RuntimeDaemon.step, taskStep, hpc, htask, hdone]
  | lock n m rest hpc htask hlock | writeBody n m rest hpc htask hlock
    | writeNewline n m rest hpc htask hlock | flush n m rest hpc htask hlock =>
    simp [RuntimeDaemon.step, taskStep, writeStep, hpc, htask, hlock]

def taken : Dispatch → Task
  | .write message => .writing [message]
  | .spawn work => .computing work
  | .fail | .skip | .stop => .absent

structure Consistent (d : Daemon) : Prop where
  next_le : d.next ≤ d.input.length
  fresh : ∀ n, d.next ≤ n → d.tasks n = .absent
  held : ∀ n stage, d.lock = some (n, stage) → ∃ m rest, d.tasks n = .writing (m :: rest)
  spawned : ∀ n work, d.tasks n = .computing work →
    ∃ line, d.input[n]? = some line ∧ dispatch cfg line = .spawn work

variable (x : Dispatch)

theorem take_tasks (hfresh : d.tasks d.next = .absent) :
    (d.take x).tasks = Function.update d.tasks d.next (taken x) := by
  cases x with
  | write message | spawn work => rfl
  | fail | skip | stop =>
    change d.tasks = update d.tasks d.next .absent
    rw [← hfresh, update_eq_self]

/-- Taking a line writes nothing. -/
theorem take_frame :
    (d.take x).input = d.input ∧ (d.take x).inputClosed = d.inputClosed ∧
      (d.take x).next = d.next + 1 ∧ (d.take x).lock = d.lock ∧ (d.take x).stdout = d.stdout := by
  cases x <;> exact ⟨rfl, rfl, rfl, rfl, rfl⟩

theorem getElem?_of_append {α : Type*} {xs ys : List α} {x : α} (h : xs[n]? = some x) :
    (xs ++ ys)[n]? = some x := by
  obtain ⟨hlt, -⟩ := List.getElem?_eq_some_iff.mp h
  rw [List.getElem?_append_left hlt]
  exact h

theorem Consistent.setTask {d : Daemon} (hd : Consistent cfg d) (n : ℕ) (task : Task)
    (hn : d.tasks n ≠ .absent) (hwork : ∀ work, task ≠ .computing work)
    (hlock : ∀ stage, d.lock ≠ some (n, stage)) : Consistent cfg (d.setTask n task) := by
  refine ⟨hd.next_le, ?_, ?_, ?_⟩
  · intro k hk
    have hne : k ≠ n := fun h => hn (h ▸ hd.fresh k hk)
    change update d.tasks n task k = .absent
    rw [update_of_ne hne]
    exact hd.fresh k hk
  · intro k stage hk
    have hne : k ≠ n := fun h => hlock stage (h ▸ hk)
    obtain ⟨m, rest, htask⟩ := hd.held k stage hk
    refine ⟨m, rest, ?_⟩
    change update d.tasks n task k = _
    rw [update_of_ne hne]
    exact htask
  · intro k work hk
    change update d.tasks n task k = _ at hk
    by_cases hkn : k = n
    · rw [hkn, update_self] at hk
      exact absurd hk (hwork work)
    · rw [update_of_ne hkn] at hk
      exact hd.spawned k work hk

/-- A task has the number of the line it was started for. -/
theorem Consistent.take {d : Daemon} (hd : Consistent cfg d) (line : StdinLine)
    (hline : d.input[d.next]? = some line) : Consistent cfg (d.take (dispatch cfg line)) := by
  have htasks := take_tasks d (dispatch cfg line) (hd.fresh d.next (Nat.le_refl _))
  obtain ⟨hinput, -, hnext, hlock, -⟩ := take_frame d (dispatch cfg line)
  obtain ⟨hlt, -⟩ := List.getElem?_eq_some_iff.mp hline
  refine ⟨?_, ?_, ?_, ?_⟩
  · rw [hinput, hnext]
    omega
  · intro n hn
    rw [htasks, update_of_ne (by omega)]
    exact hd.fresh n (by omega)
  · intro n stage hn
    rw [hlock] at hn
    obtain ⟨m, rest, htask⟩ := hd.held n stage hn
    have hne : n ≠ d.next := by
      intro h
      rw [h, hd.fresh d.next (Nat.le_refl _)] at htask
      cases htask
    refine ⟨m, rest, ?_⟩
    rw [htasks, update_of_ne hne]
    exact htask
  · intro n work hn
    rw [hinput]
    rw [htasks] at hn
    by_cases hne : n = d.next
    · rw [hne, update_self] at hn
      refine ⟨line, hne ▸ hline, ?_⟩
      cases hx : dispatch cfg line with
      | spawn w =>
        rw [hx] at hn
        exact congrArg Dispatch.spawn (Task.computing.inj hn)
      | fail | skip | stop | write =>
        rw [hx] at hn
        cases hn
    · rw [update_of_ne hne] at hn
      exact hd.spawned n work hn

/-- The lock on standard output is held by tasks that have a message to write. -/
theorem Consistent.relock {d : Daemon} (hd : Consistent cfg d) (hinput : e.input = d.input)
    (hnext : e.next = d.next) (htasks : e.tasks = d.tasks)
    (hlock : ∀ n stage, e.lock = some (n, stage) → ∃ m rest, d.tasks n = .writing (m :: rest)) :
    Consistent cfg e := by
  refine ⟨?_, ?_, ?_, ?_⟩
  · rw [hinput, hnext]
    exact hd.next_le
  · rw [hnext, htasks]
    exact hd.fresh
  · rw [htasks]
    exact hlock
  · rw [hinput, htasks]
    exact hd.spawned

theorem Consistent.step {d : Daemon} (hd : Consistent cfg d) (h : StepTo cfg d a e) :
    Consistent cfg e := by
  cases h with
  | receive line =>
    refine ⟨?_, hd.fresh, hd.held, ?_⟩
    · have hle := hd.next_le
      simp only [length_append, length_singleton]
      omega
    · intro n work hn
      obtain ⟨l, hl, hspawn⟩ := hd.spawned n work hn
      exact ⟨l, getElem?_of_append hl, hspawn⟩
  | closeInput | endOfInput | resume | leave => exact hd.relock cfg rfl rfl rfl hd.held
  | read line hpc hline => exact hd.take cfg line hline
  | finish n work messages hpc htask =>
    refine hd.setTask cfg n _ ?_ (fun _ => nofun) ?_
    · rw [htask]
      exact nofun
    · intro stage hlock
      obtain ⟨m, rest, hwriting⟩ := hd.held n stage hlock
      rw [htask] at hwriting
      cases hwriting
  | lock n m rest hpc htask | writeBody n m rest hpc htask | writeNewline n m rest hpc htask =>
    refine hd.relock cfg rfl rfl rfl ?_
    intro k stage hk
    obtain ⟨rfl, -⟩ := Prod.mk.inj (some.inj hk)
    exact ⟨m, rest, htask⟩
  | flush n m rest hpc htask =>
    have hfree : Consistent cfg { d with lock := none } :=
      hd.relock cfg rfl rfl rfl (fun _ _ => nofun)
    refine hfree.setTask cfg n _ ?_ (fun _ => nofun) (fun _ => nofun)
    rw [htask]
    exact nofun

/-- Only lines that were taken have tasks, and the lock is held by a task that writes. -/
theorem run_consistent (acts : List Act) (d : Daemon)
    (hrun : run (step cfg) init acts = some d) : Consistent cfg d := by
  refine invariant (step cfg) (Consistent cfg) ?_ ?_ hrun
  · exact ⟨Nat.le_refl _, fun _ _ => rfl, fun _ _ => nofun, fun _ _ => nofun⟩
  · intro t a u ht hstep
    exact ht.step cfg (step_to cfg t u a hstep)

def replies (n : ℕ) (line : StdinLine) : List (Reply Event) :=
  match dispatch cfg line with
  | .write message => [message]
  | .spawn work => (finished cfg n work).getD []
  | .fail | .skip | .stop => []

def repliesAt (input : List StdinLine) (n : ℕ) : List (Reply Event) :=
  (input[n]?.map (replies cfg n)).getD []

def writtenBy (n : ℕ) (stdout : List Chunk) : List (Reply Event) :=
  stdout.filterMap fun chunk => match chunk with
    | .body k r => if k = n then some r else none
    | .newline => none

def begun (lock : Option (ℕ × Stage)) (n : ℕ) : ℕ :=
  if lock = some (n, .newline) ∨ lock = some (n, .flush) then 1 else 0

def remaining (lock : Option (ℕ × Stage)) (n : ℕ) : Task → List (Reply Event)
  | .absent => []
  | .computing work => (finished cfg n work).getD []
  | .writing messages => messages.drop (begun lock n)

variable (d : Daemon)

def due (n : ℕ) : List (Reply Event) :=
  if n < d.next then repliesAt cfg d.input n else []

def Accounted : Prop :=
  ∀ n, writtenBy n d.stdout ++ remaining cfg d.lock n (d.tasks n) = due cfg d n

theorem writtenBy_body (k : ℕ) (r : Reply Event) (stdout : List Chunk) :
    writtenBy n (stdout ++ [.body k r]) = writtenBy n stdout ++ (if k = n then [r] else []) := by
  unfold writtenBy
  by_cases hk : k = n <;> simp [hk]

theorem writtenBy_newline (stdout : List Chunk) :
    writtenBy n (stdout ++ [.newline]) = writtenBy n stdout := by
  simp [writtenBy, filterMap_append]

variable {lock : Option (ℕ × Stage)}

theorem begun_of_ne (h : ∀ stage, lock ≠ some (n, stage)) : begun lock n = 0 := by
  simp [begun, h]

theorem begun_other {k : ℕ} (stage : Stage) (h : k ≠ n) : begun (some (n, stage)) k = 0 := by
  apply begun_of_ne
  intro st hst
  exact h (Prod.mk.inj (some.inj hst)).1.symm

/-- A new task has all replies to its line before it. -/
theorem remaining_taken (line : StdinLine) (hlock : ∀ stage, lock ≠ some (n, stage)) :
    remaining cfg lock n (taken (dispatch cfg line)) = replies cfg n line := by
  unfold replies
  cases dispatch cfg line with
  | write message =>
    change [message].drop (begun lock n) = [message]
    rw [begun_of_ne hlock]
    rfl
  | _ => rfl

theorem Consistent.unlocked {d : Daemon} (hd : Consistent cfg d)
    (htask : ∀ m rest, d.tasks n ≠ .writing (m :: rest)) (stage : Stage) :
    d.lock ≠ some (n, stage) := by
  intro hlock
  obtain ⟨m, rest, hwriting⟩ := hd.held n stage hlock
  exact htask m rest hwriting

variable {input : List StdinLine}

theorem repliesAt_append (line : StdinLine)
    (h : n < input.length) : repliesAt cfg (input ++ [line]) n = repliesAt cfg input n := by
  unfold repliesAt
  rw [getElem?_append_left h]

theorem Accounted.take {d : Daemon} (hd : Consistent cfg d) (hacc : Accounted cfg d)
    (line : StdinLine) (hline : d.input[d.next]? = some line) :
    Accounted cfg (d.take (dispatch cfg line)) := by
  intro n
  have hfresh := hd.fresh d.next (Nat.le_refl _)
  have htasks := take_tasks d (dispatch cfg line) hfresh
  obtain ⟨hinput, -, hnext, hlock, hstdout⟩ := take_frame d (dispatch cfg line)
  have hn := hacc n
  unfold due at hn ⊢
  rw [hinput, hnext, hlock, hstdout, htasks]
  by_cases hne : n = d.next
  · subst hne
    rw [hfresh, if_neg (Nat.lt_irrefl _)] at hn
    obtain ⟨hwritten, -⟩ := append_eq_nil_iff.mp hn
    have hunlocked := hd.unlocked cfg (n := d.next) (by rw [hfresh]; exact fun _ _ => nofun)
    rw [hwritten, update_self, nil_append, if_pos (Nat.lt_succ_self _),
      remaining_taken cfg line hunlocked]
    simp [repliesAt, hline]
  · have hlt : n < d.next + 1 ↔ n < d.next := by omega
    rw [update_of_ne hne, hn]
    simp [hlt]

/-- What a task has written and what it has still to write are the replies to its line. -/
theorem Accounted.step {d : Daemon} (hd : Consistent cfg d) (hacc : Accounted cfg d)
    (h : StepTo cfg d a e) : Accounted cfg e := by
  cases h with
  | receive line =>
    intro n
    refine (hacc n).trans ?_
    unfold due
    by_cases hn : n < d.next
    · rw [if_pos hn, if_pos hn, repliesAt_append]
      have hle := hd.next_le
      omega
    · rw [if_neg hn, if_neg hn]
  | closeInput | endOfInput | resume | leave => exact hacc
  | read line hpc hline => exact hacc.take cfg hd line hline
  | finish n work messages hpc htask hdone =>
    intro k
    refine Eq.trans ?_ (hacc k)
    by_cases hk : k = n
    · subst hk
      have hunlocked := hd.unlocked cfg (n := k) (by rw [htask]; exact fun _ _ => nofun)
      simp [Daemon.setTask, remaining, htask, hdone, begun_of_ne hunlocked]
    · simp [Daemon.setTask, update_of_ne hk]
  | lock n m rest hpc htask hlock =>
    intro k
    refine Eq.trans ?_ (hacc k)
    have hbegun : begun (some (n, .body)) k = begun d.lock k := by
      rw [hlock]
      simp [begun]
    cases d.tasks k <;> simp [remaining, hbegun]
  | writeBody n m rest hpc htask hlock =>
    intro k
    refine Eq.trans ?_ (hacc k)
    rw [writtenBy_body]
    by_cases hk : k = n
    · subst hk
      simp [remaining, htask, hlock, begun]
    · rw [if_neg (Ne.symm hk), append_nil, hlock]
      cases d.tasks k <;> simp [remaining, begun_other _ hk]
  | writeNewline n m rest hpc htask hlock =>
    intro k
    refine Eq.trans ?_ (hacc k)
    have hbegun : begun (some (n, .flush)) k = begun d.lock k := by
      rw [hlock]
      simp [begun]
    rw [writtenBy_newline]
    cases d.tasks k <;> simp [remaining, hbegun]
  | flush n m rest hpc htask hlock =>
    intro k
    refine Eq.trans ?_ (hacc k)
    by_cases hk : k = n
    · subst hk
      simp [Daemon.setTask, remaining, htask, hlock, begun]
    · have hother : begun d.lock k = begun none k := by
        rw [hlock, begun_other _ hk]
        rfl
      cases htk : d.tasks k <;>
        simp [Daemon.setTask, update_of_ne hk, remaining, htk, hother]

variable {acts : List Act}

theorem run_accounted {d : Daemon}
    (hrun : run (step cfg) init acts = some d) : Accounted cfg d := by
  refine relative_invariant (step cfg) (Consistent cfg) (Accounted cfg) ?_
    (run_consistent cfg) ?_ hrun
  · exact fun _ => rfl
  · intro t a u ht hacc hstep
    exact hacc.step cfg ht (step_to cfg t u a hstep)

def wholeLine (line : ℕ × Reply Event) : List Chunk := [.body line.1 line.2, .newline]

/-- The output is whole lines, followed by the line that the holder of the lock has begun. -/
def Framed : Prop :=
  ∃ (lines : List (ℕ × Reply Event)) (begun : List Chunk),
    d.stdout = lines.flatMap wholeLine ++ begun ∧
    ((begun = [] ∧ ∀ n, d.lock ≠ some (n, .newline)) ∨
      ∃ n r, begun = [.body n r] ∧ d.lock = some (n, .newline))

theorem Framed.of_same {d : Daemon} (h : Framed d) (hstdout : e.stdout = d.stdout)
    (hlock : e.lock = d.lock) : Framed e := by
  unfold Framed
  rw [hstdout, hlock]
  exact h

/-- Outside a write the output consists of whole lines. -/
theorem Framed.whole {d : Daemon} (h : Framed d) (hlock : ∀ n, d.lock ≠ some (n, .newline)) :
    ∃ lines : List (ℕ × Reply Event), d.stdout = lines.flatMap wholeLine := by
  obtain ⟨lines, begun, hstdout, ⟨rfl, -⟩ | ⟨n, r, -, hheld⟩⟩ := h
  · exact ⟨lines, by rw [hstdout, append_nil]⟩
  · exact absurd hheld (hlock n)

theorem Framed.of_whole {d : Daemon} (lines : List (ℕ × Reply Event))
    (hstdout : d.stdout = lines.flatMap wholeLine) (hlock : ∀ n, d.lock ≠ some (n, .newline)) :
    Framed d :=
  ⟨lines, [], by rw [hstdout, append_nil], .inl ⟨rfl, hlock⟩⟩

/-- No task writes between the body of a message and its line feed. -/
theorem Framed.step {d : Daemon} (hd : Framed d) (h : StepTo cfg d a e) : Framed e := by
  cases h with
  | receive | closeInput | endOfInput | resume | leave | finish => exact hd.of_same rfl rfl
  | read line =>
    obtain ⟨-, -, -, hlock, hstdout⟩ := take_frame d (dispatch cfg line)
    exact hd.of_same hstdout hlock
  | lock n m rest hpc htask hlock | flush n m rest hpc htask hlock =>
    obtain ⟨lines, hstdout⟩ := hd.whole (by rw [hlock]; exact fun _ => nofun)
    exact Framed.of_whole lines hstdout (fun _ => nofun)
  | writeBody n m rest hpc htask hlock =>
    obtain ⟨lines, hstdout⟩ := hd.whole (by rw [hlock]; exact fun _ => nofun)
    refine ⟨lines, [.body n m], ?_, .inr ⟨n, m, rfl, rfl⟩⟩
    rw [hstdout]
  | writeNewline n m rest hpc htask hlock =>
    obtain ⟨lines, begun, hstdout, ⟨-, hfree⟩ | ⟨k, r, rfl, -⟩⟩ := hd
    · exact absurd hlock (hfree n)
    · refine Framed.of_whole (lines ++ [(k, r)]) ?_ (fun _ => nofun)
      rw [hstdout]
      simp [wholeLine]

theorem run_framed {d : Daemon} (hrun : run (step cfg) init acts = some d) : Framed d := by
  refine invariant (step cfg) Framed ?_ ?_ hrun
  · exact Framed.of_whole [] rfl (fun _ => nofun)
  · intro t a u ht hstep
    exact ht.step cfg (step_to cfg t u a hstep)

/-- Stdout is always whole lines but for one begun, and holds a first part of each line's answer. -/
theorem stdout_framed (acts : List Act) :
    Along (step cfg) (fun d => Framed d ∧ ∀ n, writtenBy n d.stdout <+: due cfg d n) init acts := by
  intro _ _ d _ hrun
  refine ⟨run_framed cfg hrun, ?_⟩
  intro n
  exact ⟨_, run_accounted cfg hrun n⟩

def isStop (line : StdinLine) : Bool :=
  match dispatch cfg line with
  | .stop => true
  | _ => false

/-- Line `n` comes before the end of what is read: no earlier line says stop. -/
def ReadBefore (input : List StdinLine) (n : ℕ) : Prop :=
  ∀ i line, i < n → input[i]? = some line → isStop cfg line = false

def LastRead (line : StdinLine) : Prop :=
  ∃ i, d.next = i + 1 ∧ d.input[i]? = some line

structure LoopState (d : Daemon) : Prop where
  before : ∀ n, n < d.next → ReadBefore cfg d.input n
  going : d.pc = .reading ∨ (∃ n, d.pc = .awaiting n) → ReadBefore cfg d.input d.next
  ended : d.pc = .draining ∨ d.pc = .exited →
    (d.inputClosed = true ∧ d.input.length ≤ d.next) ∨
      ∃ line, LastRead d line ∧ isStop cfg line = true
  failed : d.pc = .failed → LastRead d .notUtf8

theorem ReadBefore.append (h : ReadBefore cfg input n)
    (hn : n ≤ input.length) (line : StdinLine) : ReadBefore cfg (input ++ [line]) n := by
  intro i l hi hl
  rw [getElem?_append_left (by omega)] at hl
  exact h i l hi hl

variable {line : StdinLine}

theorem ReadBefore.succ
    (h : ReadBefore cfg input n) (hline : input[n]? = some line) (hgo : isStop cfg line = false) :
    ReadBefore cfg input (n + 1) := by
  intro i l hi hl
  rcases Nat.lt_succ_iff_lt_or_eq.mp hi with hlt | rfl
  · exact h i l hlt hl
  · rw [hline] at hl
    exact some.inj hl ▸ hgo

/-- Only a line that is not UTF-8 ends the loop with an error. -/
theorem dispatch_fail (h : dispatch cfg line = .fail) : line = .notUtf8 := by
  cases line with
  | notUtf8 => rfl
  | blank | notJson => cases h
  | document j =>
    simp only [dispatch] at h
    split at h <;> cases h

variable {d}

theorem LoopState.take (h : LoopState cfg d) (line : StdinLine)
    (hpc : d.pc = .reading) (hline : d.input[d.next]? = some line) :
    LoopState cfg (d.take (dispatch cfg line)) := by
  have hgoing := h.going (.inl hpc)
  obtain ⟨hinput, -, hnext, -, -⟩ := take_frame d (dispatch cfg line)
  have hlast : LastRead (d.take (dispatch cfg line)) line :=
    ⟨d.next, hnext, by rw [hinput]; exact hline⟩
  refine ⟨?_, ?_, ?_, ?_⟩
  · intro n hn
    rw [hinput]
    intro i l hi hl
    exact hgoing i l (by omega) hl
  · intro hrunning
    rw [hinput, hnext]
    refine hgoing.succ cfg hline ?_
    unfold isStop
    cases hx : dispatch cfg line with
    | stop => simp [hx, Daemon.take] at hrunning
    | fail | skip | write | spawn => rfl
  · intro hend
    refine .inr ⟨line, hlast, ?_⟩
    unfold isStop
    cases hx : dispatch cfg line with
    | stop => rfl
    | fail | write => simp [hx, Daemon.take] at hend
    | skip | spawn => simp [hx, Daemon.take, Daemon.setTask, hpc] at hend
  · intro hfailed
    cases hx : dispatch cfg line with
    | fail =>
      rw [hx, dispatch_fail cfg hx] at hlast
      exact hlast
    | stop | write => simp [hx, Daemon.take] at hfailed
    | skip | spawn => simp [hx, Daemon.take, Daemon.setTask, hpc] at hfailed

theorem LoopState.of_same (h : LoopState cfg d) (hinput : e.input = d.input)
    (hclosed : e.inputClosed = d.inputClosed) (hnext : e.next = d.next) (hpc : e.pc = d.pc) :
    LoopState cfg e := by
  obtain ⟨hbefore, hgoing, hended, hfailed⟩ := h
  refine ⟨?_, ?_, ?_, ?_⟩
  · rw [hnext, hinput]
    exact hbefore
  · rw [hnext, hinput, hpc]
    exact hgoing
  · unfold LastRead at hended ⊢
    rw [hnext, hinput, hpc, hclosed]
    exact hended
  · unfold LastRead at hfailed ⊢
    rw [hnext, hinput, hpc]
    exact hfailed

/-- The loop reads the lines in order and stops at the first shutdown or broken line. -/
theorem LoopState.step (hd : Consistent cfg d) (h : LoopState cfg d)
    (hstep : StepTo cfg d a e) : LoopState cfg e := by
  have hle := hd.next_le
  cases hstep with
  | receive line hopen =>
    refine ⟨?_, ?_, ?_, ?_⟩
    · intro n hn
      have hlt : n < d.next := hn
      exact (h.before n hn).append cfg (by omega) line
    · intro hrunning
      exact (h.going hrunning).append cfg hle line
    · intro hend
      rcases h.ended hend with ⟨hclosed, -⟩ | ⟨l, ⟨i, hi, hl⟩, hstop⟩
      · rw [hopen] at hclosed
        cases hclosed
      · exact .inr ⟨l, ⟨i, hi, getElem?_of_append hl⟩, hstop⟩
    · intro hfailed
      obtain ⟨i, hi, hl⟩ := h.failed hfailed
      exact ⟨i, hi, getElem?_of_append hl⟩
  | closeInput hopen =>
    refine ⟨h.before, h.going, ?_, h.failed⟩
    intro hend
    rcases h.ended hend with ⟨hclosed, -⟩ | hstop
    · rw [hopen] at hclosed
      cases hclosed
    · exact .inr hstop
  | read line hpc hline => exact h.take cfg line hpc hline
  | endOfInput hpc hclosed hend =>
    exact ⟨h.before, nofun, fun _ => .inl ⟨hclosed, hend⟩, nofun⟩
  | resume n hpc => exact ⟨h.before, fun _ => h.going (.inr ⟨n, hpc⟩), nofun, nofun⟩
  | leave hpc => exact ⟨h.before, nofun, fun _ => h.ended (.inl hpc), nofun⟩
  | finish | lock | writeBody | writeNewline | flush => exact h.of_same cfg rfl rfl rfl rfl

theorem run_loopState (hrun : run (step cfg) init acts = some d) : LoopState cfg d := by
  refine relative_invariant (step cfg) (Consistent cfg) (LoopState cfg) ?_
    (run_consistent cfg) ?_ hrun
  · refine ⟨fun n hn => ?_, fun _ i l hi => ?_, nofun, nofun⟩
    · exact absurd hn (Nat.not_lt_zero n)
    · exact absurd hi (Nat.not_lt_zero i)
  · intro t a u ht hloop hstep
    exact hloop.step cfg ht (step_to cfg t u a hstep)

end IronGolem.DaemonOutput
