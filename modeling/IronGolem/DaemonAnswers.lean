import IronGolem.DaemonOutput
import IronGolem.IpcRoundTrip
import Mathlib.Algebra.Order.BigOperators.Group.Finset

/-!
The daemon answers every request that it reads exactly once. A run on a given input is no longer
than a number computed from the answers, and a run that can go no further has left the loop with
nothing to write. So the output is whole lines, and sorted by the line they answer they are the
answers.
-/
namespace IronGolem.DaemonAnswers

open Finset RuntimeMessages RuntimeDaemon DaemonOutput TransitionRuns WorkflowEngine Option Function

variable {σ : Type} (cfg : Config σ)

def progress (lock : Option (ℕ × Stage)) (n : ℕ) : ℕ :=
  if lock = some (n, .body) then 1
  else if lock = some (n, .newline) then 2
  else if lock = some (n, .flush) then 3
  else 0

def taskWeight (lock : Option (ℕ × Stage)) (n : ℕ) : Task → ℕ
  | .absent => 0
  | .computing work => 1 + 4 * ((finished cfg n work).getD []).length
  | .writing messages => 4 * messages.length - progress lock n

variable (d : Daemon)

def lineWeight (n : ℕ) : ℕ :=
  if n < d.next then taskWeight cfg d.lock n (d.tasks n)
  else 3 + 4 * (repliesAt cfg d.input n).length

def loopWeight : LoopPc → ℕ
  | .awaiting _ => 3
  | .reading => 2
  | .draining => 1
  | .exited | .failed => 0

def potential : ℕ :=
  ∑ n ∈ range d.input.length, lineWeight cfg d n + loopWeight d.pc +
    if d.inputClosed then 0 else 1

def budget (input : List StdinLine) : ℕ :=
  ∑ n ∈ range input.length, (4 + 4 * (repliesAt cfg input n).length) + 3

variable {lock : Option (ℕ × Stage)} {n : ℕ}

theorem progress_of_ne (h : ∀ stage, lock ≠ some (n, stage)) : progress lock n = 0 := by
  simp [progress, h]

variable {k : ℕ}

theorem progress_other (stage : Stage) (h : k ≠ n) : progress (some (n, stage)) k = 0 := by
  apply progress_of_ne
  intro st hst
  exact h (Prod.mk.inj (some.inj hst)).1.symm

variable {d e : Daemon}

theorem potential_lt (hinput : e.input = d.input)
    (hclosed : e.inputClosed = d.inputClosed) (hk : k < d.input.length)
    (hother : ∀ n, n ≠ k → lineWeight cfg e n = lineWeight cfg d n)
    (hlt : lineWeight cfg e k + loopWeight e.pc < lineWeight cfg d k + loopWeight d.pc) :
    potential cfg e < potential cfg d := by
  have hsplit : ∀ x : Daemon, ∑ n ∈ range d.input.length, lineWeight cfg x n =
      lineWeight cfg x k + ∑ n ∈ (range d.input.length).erase k, lineWeight cfg x n :=
    fun x => (add_sum_erase _ _ (mem_range.mpr hk)).symm
  have hsame : ∑ n ∈ (range d.input.length).erase k, lineWeight cfg e n =
      ∑ n ∈ (range d.input.length).erase k, lineWeight cfg d n :=
    sum_congr rfl fun n hn => hother n (ne_of_mem_erase hn)
  unfold potential
  rw [hinput, hclosed, hsplit e, hsplit d, hsame]
  omega

theorem potential_lt_of_pc {pc : LoopPc} (hlt : loopWeight pc < loopWeight d.pc) :
    potential cfg { d with pc := pc } < potential cfg d := by
  have hsame : ∀ n, lineWeight cfg { d with pc := pc } n = lineWeight cfg d n := fun _ => rfl
  unfold potential
  simp only [hsame]
  omega

theorem taskWeight_congr {lock' : Option (ℕ × Stage)} (task : Task)
    (h : progress lock n = progress lock' n) :
    taskWeight cfg lock n task = taskWeight cfg lock' n task := by
  unfold taskWeight
  rw [h]

theorem potential_lt_of_task (hd : Consistent cfg d)
    (hk : d.tasks k ≠ .absent) (hinput : e.input = d.input)
    (hclosed : e.inputClosed = d.inputClosed) (hnext : e.next = d.next) (hpc : e.pc = d.pc)
    (hother : ∀ n, n ≠ k → e.tasks n = d.tasks n ∧ progress e.lock n = progress d.lock n)
    (hlt : taskWeight cfg e.lock k (e.tasks k) < taskWeight cfg d.lock k (d.tasks k)) :
    potential cfg e < potential cfg d := by
  have hread : k < d.next := by
    by_contra hge
    exact hk (hd.fresh k (by omega))
  have hle := hd.next_le
  refine potential_lt cfg hinput hclosed (k := k) (by omega) ?_ ?_
  · intro n hn
    obtain ⟨htasks, hprogress⟩ := hother n hn
    unfold lineWeight
    rw [hnext, hinput, htasks, taskWeight_congr cfg (d.tasks n) hprogress]
  · unfold lineWeight
    rw [hnext, if_pos hread, if_pos hread, hpc]
    omega

theorem taskWeight_taken (lock : Option (ℕ × Stage)) (n : ℕ) (line : StdinLine) :
    taskWeight cfg lock n (taken (dispatch cfg line)) ≤ 1 + 4 * (replies cfg n line).length := by
  unfold replies
  cases dispatch cfg line with
  | write message =>
    simp only [taken, taskWeight, List.length_singleton]
    omega
  | spawn work => exact Nat.le_refl _
  | fail | skip | stop => exact Nat.zero_le _

theorem loopWeight_take (x : Dispatch) (hpc : d.pc = .reading) : loopWeight (d.take x).pc ≤ 3 := by
  cases x <;> simp [Daemon.take, Daemon.setTask, loopWeight, hpc]

variable {line : StdinLine}

theorem potential_take (hd : Consistent cfg d)
    (hpc : d.pc = .reading) (hline : d.input[d.next]? = some line) :
    potential cfg (d.take (dispatch cfg line)) < potential cfg d := by
  have hfresh := hd.fresh d.next (Nat.le_refl _)
  have htasks := take_tasks d (dispatch cfg line) hfresh
  obtain ⟨hinput, hclosed, hnext, hlock, -⟩ := take_frame d (dispatch cfg line)
  obtain ⟨hlt, -⟩ := List.getElem?_eq_some_iff.mp hline
  refine potential_lt cfg hinput hclosed hlt ?_ ?_
  · intro n hn
    unfold lineWeight
    have hiff : n < d.next + 1 ↔ n < d.next := by omega
    rw [hnext, hinput, hlock, htasks, update_of_ne hn]
    simp [hiff]
  · have htask := taskWeight_taken cfg d.lock d.next line
    have hloop := loopWeight_take (dispatch cfg line) hpc
    have hreading : loopWeight .reading = 2 := rfl
    unfold lineWeight
    rw [hnext, hlock, htasks, update_self, if_pos (Nat.lt_succ_self _),
      if_neg (Nat.lt_irrefl _), hpc]
    simp only [repliesAt, hline, map_some, getD_some]
    omega

/-- Every step of the daemon itself leaves less to do. -/
theorem potential_step {a : Act} (hd : Consistent cfg d)
    (ha : ∀ line, a ≠ .receive line) (h : StepTo cfg d a e) :
    e.input = d.input ∧ potential cfg e < potential cfg d := by
  cases h with
  | receive line => exact absurd rfl (ha line)
  | closeInput hopen =>
    have hsame : ∀ n, lineWeight cfg { d with inputClosed := true } n = lineWeight cfg d n :=
      fun _ => rfl
    unfold potential
    simp only [hsame, hopen]
    simp
  | read line hpc hline =>
    exact ⟨(take_frame d _).1, potential_take cfg hd hpc hline⟩
  | endOfInput hpc | resume n hpc | leave hpc =>
    refine ⟨rfl, potential_lt_of_pc cfg ?_⟩
    simp [hpc, loopWeight]
  | finish n work messages hpc htask hdone =>
    refine ⟨rfl, potential_lt_of_task cfg hd (k := n) (by simp [htask]) rfl rfl rfl rfl ?_ ?_⟩
    · exact fun k hk => ⟨update_of_ne hk _ _, rfl⟩
    · simp only [Daemon.setTask, update_self, htask, taskWeight, hdone, getD_some]
      omega
  | lock n m rest hpc htask hlock =>
    refine ⟨rfl, potential_lt_of_task cfg hd (k := n) (by simp [htask]) rfl rfl rfl rfl ?_ ?_⟩
    · intro k hk
      exact ⟨rfl, by rw [hlock, progress_other _ hk]; rfl⟩
    · simp [htask, hlock, taskWeight, progress]
  | writeBody n m rest hpc htask hlock | writeNewline n m rest hpc htask hlock =>
    refine ⟨rfl, potential_lt_of_task cfg hd (k := n) (by simp [htask]) rfl rfl rfl rfl ?_ ?_⟩
    · intro k hk
      exact ⟨rfl, by rw [hlock, progress_other _ hk, progress_other _ hk]⟩
    · simp only [htask, hlock, taskWeight, List.length_cons]
      simp [progress]
      omega
  | flush n m rest hpc htask hlock =>
    refine ⟨rfl, potential_lt_of_task cfg hd (k := n) (by simp [htask]) rfl rfl rfl rfl ?_ ?_⟩
    · intro k hk
      exact ⟨update_of_ne hk _ _, by rw [hlock, progress_other _ hk]; rfl⟩
    · simp only [Daemon.setTask, update_self, htask, hlock, taskWeight, List.length_cons]
      simp [progress]
      omega

theorem potential_receive (hd : Consistent cfg d) (line : StdinLine) :
    potential cfg { d with input := d.input ++ [line] } + 1 + budget cfg d.input =
      potential cfg d + budget cfg (d.input ++ [line]) := by
  have hle := hd.next_le
  have hsame : ∀ n ∈ range d.input.length,
      repliesAt cfg (d.input ++ [line]) n = repliesAt cfg d.input n :=
    fun n hn => repliesAt_append cfg line (mem_range.mp hn)
  have hweight : ∑ n ∈ range d.input.length,
      lineWeight cfg { d with input := d.input ++ [line] } n =
        ∑ n ∈ range d.input.length, lineWeight cfg d n := by
    refine sum_congr rfl fun n hn => ?_
    unfold lineWeight
    rw [hsame n hn]
  have hcost : ∑ n ∈ range d.input.length, (4 + 4 * (repliesAt cfg (d.input ++ [line]) n).length) =
      ∑ n ∈ range d.input.length, (4 + 4 * (repliesAt cfg d.input n).length) :=
    sum_congr rfl fun n hn => by rw [hsame n hn]
  have hlast : lineWeight cfg { d with input := d.input ++ [line] } d.input.length =
      3 + 4 * (repliesAt cfg (d.input ++ [line]) d.input.length).length :=
    if_neg (by change ¬ d.input.length < d.next; omega)
  unfold potential budget
  simp only [List.length_append, List.length_singleton, sum_range_succ]
  rw [hweight, hcost, hlast]
  omega

variable {acts : List Act}

theorem run_length_le (hrun : run (step cfg) init acts = some d) :
    acts.length + potential cfg d ≤ budget cfg d.input := by
  refine history_invariant (step cfg) (fun _ _ => True) (Consistent cfg)
    (fun acts d => acts.length + potential cfg d ≤ budget cfg d.input) ?_
    (run_consistent cfg) ?_ d (fun _ _ _ _ _ _ => trivial) hrun
  · exact Nat.le_refl _
  · intro acts t a u ht hbound _ hstep
    have hto := step_to cfg t u a hstep
    rw [List.length_append, List.length_singleton]
    by_cases ha : ∃ line, a = .receive line
    · obtain ⟨line, rfl⟩ := ha
      cases hto
      have hpay := potential_receive cfg ht line
      change acts.length + 1 + potential cfg { t with input := t.input ++ [line] } ≤
        budget cfg (t.input ++ [line])
      omega
    · push Not at ha
      obtain ⟨hinput, hlt⟩ := potential_step cfg ht ha hto
      rw [hinput]
      omega

def Terminates (input : List StdinLine) : Prop :=
  ∀ n line req, input[n]? = some line → dispatch cfg line = .spawn (.executePlan req) →
    (processRequest cfg n req).isSome = true

variable {input : List StdinLine}

theorem finished_isSome (hterm : Terminates cfg input) {work : Work} (hline : input[n]? = some line)
    (hspawn : dispatch cfg line = .spawn work) : (finished cfg n work).isSome = true := by
  cases work with
  | executePlan req =>
    unfold finished
    rw [isSome_map]
    exact hterm n line req hline hspawn
  | llmCall req => rfl

variable {task : Task}

theorem idle_of_no_work (hwriting : ∀ m rest, task ≠ .writing (m :: rest))
    (hcomputing : ∀ work, task ≠ .computing work) : task.idle = true := by
  cases task with
  | absent => rfl
  | computing work => exact absurd rfl (hcomputing work)
  | writing messages =>
    cases messages with
    | nil => rfl
    | cons m rest => exact absurd rfl (hwriting m rest)

/-- As long as the program runs and its input is closed, some step is possible. -/
theorem exists_step (hd : Consistent cfg d) (hterm : Terminates cfg d.input)
    (hclosed : d.inputClosed = true) (hpc : d.pc.running = true) : ∃ a e, StepTo cfg d a e := by
  cases hlock : d.lock with
  | some holder =>
    obtain ⟨n, stage⟩ := holder
    obtain ⟨m, rest, htask⟩ := hd.held n stage hlock
    cases stage with
    | body => exact ⟨_, _, .writeBody n m rest hpc htask hlock⟩
    | newline => exact ⟨_, _, .writeNewline n m rest hpc htask hlock⟩
    | flush => exact ⟨_, _, .flush n m rest hpc htask hlock⟩
  | none =>
    by_cases hwriting : ∃ n m rest, d.tasks n = .writing (m :: rest)
    · obtain ⟨n, m, rest, htask⟩ := hwriting
      exact ⟨_, _, .lock n m rest hpc htask hlock⟩
    by_cases hcomputing : ∃ n work, d.tasks n = .computing work
    · obtain ⟨n, work, htask⟩ := hcomputing
      obtain ⟨line, hline, hspawn⟩ := hd.spawned n work htask
      obtain ⟨messages, hdone⟩ := isSome_iff_exists.mp (finished_isSome cfg hterm hline hspawn)
      exact ⟨_, _, .finish n work messages hpc htask hdone⟩
    push Not at hwriting hcomputing
    have hidle : ∀ n, (d.tasks n).idle = true := fun n =>
      idle_of_no_work (hwriting n) (hcomputing n)
    cases hloop : d.pc with
    | reading =>
      cases hline : d.input[d.next]? with
      | some line => exact ⟨_, _, .read line hloop hline⟩
      | none => exact ⟨_, _, .endOfInput hloop hclosed (List.getElem?_eq_none_iff.mp hline)⟩
    | awaiting n => exact ⟨_, _, .resume n hloop (hidle n)⟩
    | draining => exact ⟨_, _, .leave hloop (fun n _ => hidle n)⟩
    | exited | failed => simp [hloop, LoopPc.running] at hpc

theorem not_running_of_halted (hd : Consistent cfg d)
    (hterm : Terminates cfg d.input) (hhalted : Halted (step cfg) d) :
    d.inputClosed = true ∧ (d.pc = .exited ∨ d.pc = .failed) := by
  have hclosed : d.inputClosed = true := by
    by_contra hopen
    have h := hhalted .closeInput
    simp [step, hopen] at h
  refine ⟨hclosed, ?_⟩
  have hstopped : ¬ d.pc.running = true := by
    intro hpc
    obtain ⟨a, e, hstep⟩ := exists_step cfg hd hterm hclosed hpc
    have h := hhalted a
    rw [hstep.step] at h
    cases h
  cases hloop : d.pc with
  | exited => exact .inl rfl
  | failed => exact .inr rfl
  | reading | awaiting | draining => simp [hloop, LoopPc.running] at hstopped

/-- The program leaves when nothing remains to be written, and then nothing happens. -/
def LeftIdle (d : Daemon) : Prop := d.pc = .exited → ∀ n, (d.tasks n).idle = true

theorem LeftIdle.step {a : Act} (hd : Consistent cfg d) (hidle : LeftIdle d)
    (h : StepTo cfg d a e) : LeftIdle e := by
  intro hexited
  cases h with
  | receive | closeInput => exact hidle hexited
  | read line hpc hline =>
    cases hx : dispatch cfg line <;> simp [hx, Daemon.take, Daemon.setTask, hpc] at hexited
  | endOfInput | resume => cases hexited
  | leave hpc hdone =>
    intro n
    by_cases hn : n < d.next
    · exact hdone n hn
    · rw [hd.fresh n (by omega)]
      rfl
  | finish n work messages hpc | lock n m rest hpc | writeBody n m rest hpc
    | writeNewline n m rest hpc | flush n m rest hpc =>
    have hpc' : d.pc = .exited := hexited
    rw [hpc'] at hpc
    cases hpc

theorem run_leftIdle (hrun : run (step cfg) init acts = some d) : LeftIdle d := by
  refine relative_invariant (step cfg) (Consistent cfg) LeftIdle (s := init) nofun
    (run_consistent cfg) ?_ (t := d) hrun
  intro t a u ht hidle hstep
  exact hidle.step cfg ht (step_to cfg t u a hstep)

theorem remaining_idle (lock : Option (ℕ × Stage)) (n : ℕ)
    (h : task.idle = true) : remaining cfg lock n task = [] := by
  cases task with
  | absent => rfl
  | computing work => cases h
  | writing messages =>
    cases messages with
    | nil => exact List.drop_nil
    | cons m rest => cases h

/-- A plan's logged events and then its response; one error with the nil id for what is no message.
-/
def Answered (n : ℕ) (line : StdinLine) (out : List (Reply Event)) : Prop :=
  let rejected := ∃ reason, out = [.executePlanResponse (errorResponse nilUuid reason)]
  match line with
  | .blank => out = []
  | .notUtf8 | .notJson _ => rejected
  | .document j =>
      match messageFromLine cfg.reading j with
      | .error _ => rejected
      | .ok (.executePlanRequest req) =>
          ∃ k response, Returned (stateAt req.workspaceId cfg.executor req.plan.plan []
              (cfg.executorState n) k) ∧
            response.requestId = req.requestId ∧
            out = (stateAt req.workspaceId cfg.executor req.plan.plan []
                (cfg.executorState n) k).log.map
                  (fun event => .eventNotification ⟨req.requestId, event⟩) ++
              [.executePlanResponse response]
      | .ok (.pingRequest requestId) => out = [.pingResponse requestId]
      | .ok (.listProvidersRequest requestId) =>
          ∃ response : ListProvidersResponse, response.requestId = requestId ∧
            out = [.listProvidersResponse response]
      | .ok (.llmCallRequest req) =>
          ∃ response : LlmCallResponse, response.requestId = req.requestId ∧
            out = [.llmCallResponse response]
      | .ok (.shutdown _) | .ok (.reply _) => out = []

/-- The output is the answers of the lines read before the end or a shutdown, and nothing else. -/
structure AnsweredOnce (d : Daemon) : Prop where
  whole : ∃ lines : List (ℕ × Reply Event), d.stdout = lines.flatMap wholeLine
  answered : ∀ n line, d.input[n]? = some line → ReadBefore cfg d.input n →
    Answered cfg n line (writtenBy n d.stdout)
  silent : ∀ n, (d.input[n]? = none ∨ ¬ ReadBefore cfg d.input n) → writtenBy n d.stdout = []

theorem processRequest_spec {req : ExecutePlanRequest} {result : ProcessResult}
    (h : processRequest cfg n req = some result) :
    Returned (stateAt req.workspaceId cfg.executor req.plan.plan [] (cfg.executorState n)
      (cfg.stepBound n)) ∧ result.response.requestId = req.requestId ∧
    result.events = (stateAt req.workspaceId cfg.executor req.plan.plan [] (cfg.executorState n)
      (cfg.stepBound n)).log.map (fun event => ⟨req.requestId, event⟩) := by
  unfold processRequest at h
  simp only at h
  split at h
  · rename_i outcome hphase
    cases h
    refine ⟨⟨outcome, hphase⟩, ?_, rfl⟩
    cases outcome <;> rfl
  · cases h

theorem llmCallResponse_requestId (n : ℕ) (req : LlmCallRequest) :
    (llmCallResponse cfg n req).requestId = req.requestId := by
  unfold llmCallResponse
  simp only
  split <;> rfl

theorem answered_replies (hterm : Terminates cfg input) (hline : input[n]? = some line)
    (htext : line ≠ .notUtf8) : Answered cfg n line (replies cfg n line) := by
  have hplan := fun req => hterm n line req hline
  cases line with
  | notUtf8 => exact absurd rfl htext
  | blank => rfl
  | notJson reason => exact ⟨_, rfl⟩
  | document j =>
    unfold Answered replies
    simp only [dispatch] at hplan ⊢
    cases hread : messageFromLine cfg.reading j with
    | error reason => exact ⟨_, rfl⟩
    | ok message =>
      cases message with
      | executePlanRequest req =>
        obtain ⟨result, hresult⟩ :=
          isSome_iff_exists.mp (hplan req (by simp [hread]))
        obtain ⟨hreturned, hid, hevents⟩ := processRequest_spec cfg hresult
        refine ⟨cfg.stepBound n, result.response, hreturned, hid, ?_⟩
        simp only [finished, hresult, map_some, getD_some, hevents, List.map_map]
        rfl
      | listProvidersRequest requestId => exact ⟨_, rfl, rfl⟩
      | llmCallRequest req => exact ⟨_, llmCallResponse_requestId cfg n req, rfl⟩
      | _ => rfl

theorem read_of_ended (h : LoopState cfg d) (hpc : d.pc = .exited) (hline : d.input[n]? = some line)
    (hread : ReadBefore cfg d.input n) : n < d.next := by
  obtain ⟨hlt, -⟩ := List.getElem?_eq_some_iff.mp hline
  rcases h.ended (.inr hpc) with ⟨-, hend⟩ | ⟨l, ⟨i, hi, hl⟩, hstop⟩
  · omega
  · by_contra hge
    have hgo := hread i l (by omega) hl
    rw [hstop] at hgo
    cases hgo

theorem writtenBy_unread (hacc : Accounted cfg d) (hn : d.next ≤ n) :
    writtenBy n d.stdout = [] := by
  have h := hacc n
  unfold due at h
  rw [if_neg (by omega)] at h
  exact (List.append_eq_nil_iff.mp h).1

theorem answeredOnce_of_exited
    (hrun : run (step cfg) init acts = some d) (hterm : Terminates cfg d.input)
    (hpc : d.pc = .exited) (htext : ∀ n, ReadBefore cfg d.input n → d.input[n]? ≠ some .notUtf8) :
    AnsweredOnce cfg d := by
  have hd := run_consistent cfg acts d hrun
  have hacc := run_accounted cfg hrun
  have hloop := run_loopState cfg hrun
  have hidle := run_leftIdle cfg hrun hpc
  refine ⟨?_, ?_, ?_⟩
  · refine (run_framed cfg hrun).whole fun n hlock => ?_
    obtain ⟨m, rest, htask⟩ := hd.held n _ hlock
    have h := hidle n
    rw [htask] at h
    cases h
  · intro n line hline hread
    have hn := hacc n
    rw [remaining_idle cfg d.lock n (hidle n), List.append_nil] at hn
    unfold due repliesAt at hn
    rw [if_pos (read_of_ended cfg hloop hpc hline hread), hline] at hn
    rw [hn]
    exact answered_replies cfg hterm hline fun h => htext n hread (h ▸ hline)
  · intro n hn
    apply writtenBy_unread cfg hacc
    by_contra hlt
    have hle := hd.next_le
    rcases hn with hnone | hunread
    · have hlen := List.getElem?_eq_none_iff.mp hnone
      omega
    · exact hunread (hloop.before n (by omega))

theorem not_failed_of_text (h : LoopState cfg d)
    (htext : ∀ n, ReadBefore cfg d.input n → d.input[n]? ≠ some .notUtf8) : d.pc ≠ .failed := by
  intro hpc
  obtain ⟨i, hi, hline⟩ := h.failed hpc
  exact htext i (h.before i (by omega)) hline

variable (lines : List StdinLine)

theorem run_receive :
    run (step cfg) init (lines.map .receive) = some { init with input := lines } := by
  induction lines using List.reverseRecOn with
  | nil => rfl
  | append_singleton lines line ih =>
    rw [List.map_append, List.map_singleton, run_concat_iff]
    exact ⟨_, ih, rfl⟩

theorem exists_halted_run :
    ∃ acts d, run (step cfg) init acts = some d ∧ d.input = lines ∧ Halted (step cfg) d := by
  have hstart : run (step cfg) init (lines.map .receive ++ [.closeInput]) =
      some { init with input := lines, inputClosed := true } :=
    (run_concat_iff _ _ _ _ _).mpr ⟨_, run_receive cfg lines, rfl⟩
  obtain ⟨acts, d, hrun, ⟨hclosed, hinput, -⟩, hhalted⟩ := exists_halted (step cfg)
    (fun d => d.inputClosed = true ∧ d.input = lines ∧ Consistent cfg d) (potential cfg)
    (fun t a u ht hstep => by
      obtain ⟨hclosed, hinput, ht⟩ := ht
      have hto := step_to cfg t u a hstep
      have ha : ∀ line, a ≠ .receive line := by
        intro line h
        subst h
        simp [step, hclosed] at hstep
      obtain ⟨hsame, hlt⟩ := potential_step cfg ht ha hto
      refine ⟨⟨?_, hsame.trans hinput, ht.step cfg hto⟩, hlt⟩
      cases hto with
      | read line => exact (take_frame t _).2.1.trans hclosed
      | closeInput => rfl
      | receive | endOfInput | resume | leave | finish | lock | writeBody | writeNewline
        | flush => exact hclosed)
    _ ⟨rfl, rfl, run_consistent cfg _ _ hstart⟩
  refine ⟨lines.map .receive ++ [.closeInput] ++ acts, d, ?_, hinput, hhalted⟩
  rw [run_append, hstart]
  exact hrun

/-- Every run ends with one answer per request precisely if no line before the end is not text. -/
theorem answers_exactly_once_iff (lines : List StdinLine) (hterm : Terminates cfg lines) :
    (∀ acts d, run (step cfg) init acts = some d → d.input = lines →
      acts.length ≤ budget cfg lines ∧ (Halted (step cfg) d → AnsweredOnce cfg d)) ↔
    ∀ n, ReadBefore cfg lines n → lines[n]? ≠ some .notUtf8 := by
  constructor
  · intro h n hread hline
    obtain ⟨acts, d, hrun, rfl, hhalted⟩ := exists_halted_run cfg lines
    obtain ⟨reason, hout⟩ := ((h acts d hrun rfl).2 hhalted).answered n .notUtf8 hline hread
    have hacc := run_accounted cfg hrun n
    have hnone : due cfg d n = [] := by
      unfold due repliesAt
      rw [hline]
      split <;> rfl
    rw [hout, hnone] at hacc
    cases hacc
  · intro htext acts d hrun hinput
    subst hinput
    have hbound := run_length_le cfg hrun
    refine ⟨by omega, fun hhalted => ?_⟩
    have hd := run_consistent cfg acts d hrun
    obtain ⟨-, hpc | hpc⟩ := not_running_of_halted cfg hd hterm hhalted
    · exact answeredOnce_of_exited cfg hrun hterm hpc htext
    · exact absurd hpc (not_failed_of_text cfg (run_loopState cfg hrun) htext)

section

open IpcRoundTrip

def sampleConfig : Config Unit where
  executor := noopExecutor
  executorState := fun _ => ()
  stepBound := fun _ => 10
  complete := fun _ prompt => .ok prompt
  activeProfile := "local"
  profiles := []
  reading := ⟨id, fun _ => .error "not an event"⟩

def sampleLine : StdinLine :=
  match (sampleRequest (sampleNode (llmKind "hello") (some []))).marshal with
  | .ok j => .document j
  | .error reason => .notJson reason

theorem sampleLine_dispatch :
    dispatch sampleConfig sampleLine = .spawn (.executePlan (sampleMessage "hello")) := by
  obtain ⟨j, hj, hread⟩ := (executePlan_arrives_iff sampleConfig.reading
    (sampleRequest_corresponds "hello" rfl)).mpr samplePlan_arrives
  have hmarshal : (sampleRequest (sampleNode (llmKind "hello") (some []))).marshal = .ok j := hj
  simp [sampleLine, hmarshal, dispatch, hread]

theorem sampleLine_terminates (rest : List StdinLine) (hrest : ∀ line ∈ rest, line = .notUtf8) :
    Terminates sampleConfig (sampleLine :: rest) := by
  intro n line req hline hspawn
  cases n with
  | zero =>
    rw [List.getElem?_cons_zero, some.injEq] at hline
    rw [← hline, sampleLine_dispatch, Dispatch.spawn.injEq, Work.executePlan.injEq] at hspawn
    subst hspawn
    decide
  | succ n =>
    rw [hrest line (List.mem_of_getElem? hline)] at hspawn
    cases hspawn

/-- The plan's events and its response come out of every run that goes to its end. -/
theorem sampleLine_answered :
    ∃ acts d, run (step sampleConfig) init acts = some d ∧ d.input = [sampleLine] ∧
      AnsweredOnce sampleConfig d := by
  obtain ⟨acts, d, hrun, hinput, hhalted⟩ := exists_halted_run sampleConfig [sampleLine]
  have hterm := sampleLine_terminates [] (fun _ => nofun)
  refine ⟨acts, d, hrun, hinput, ?_⟩
  refine ((answers_exactly_once_iff sampleConfig _ hterm).mpr ?_ acts d hrun hinput).2 hhalted
  intro n _ hline
  have hmem := List.mem_of_getElem? hline
  rw [List.mem_singleton] at hmem
  have hdispatch := sampleLine_dispatch
  rw [← hmem] at hdispatch
  cases hdispatch

/-- A line that is not text ends the program, unanswered like the plan before it. -/
theorem line_not_text_unanswered :
    ∃ acts d, run (step sampleConfig) init acts = some d ∧ d.input = [sampleLine, .notUtf8] ∧
      Terminates sampleConfig d.input ∧ Halted (step sampleConfig) d ∧
      dispatch sampleConfig sampleLine = .spawn (.executePlan (sampleMessage "hello")) ∧
      d.next = 2 ∧ d.stdout = [] := by
  let received : Daemon := { init with input := [sampleLine, .notUtf8], inputClosed := true }
  let spawned := received.take (.spawn (.executePlan (sampleMessage "hello")))
  have hfirst : step sampleConfig received .read = some spawned := by
    change _ = some (received.take _)
    rw [← sampleLine_dispatch]
    exact (StepTo.read sampleLine rfl rfl).step
  have hsecond : step sampleConfig spawned .read = some (spawned.take .fail) := rfl
  refine ⟨[sampleLine, .notUtf8].map .receive ++ [.closeInput] ++ [.read] ++ [.read],
    spawned.take .fail, ?_, ?_⟩
  · rw [run_concat_iff]
    refine ⟨spawned, ?_, hsecond⟩
    rw [run_concat_iff]
    refine ⟨received, ?_, hfirst⟩
    rw [run_concat_iff]
    exact ⟨_, run_receive sampleConfig _, rfl⟩
  · refine ⟨rfl, sampleLine_terminates [.notUtf8] ?_, ?_, sampleLine_dispatch, rfl, rfl⟩
    · intro line hline
      exact List.mem_singleton.mp hline
    · intro a
      cases a <;> rfl

end

end IronGolem.DaemonAnswers
