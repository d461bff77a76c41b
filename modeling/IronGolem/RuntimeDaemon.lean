import IronGolem.RuntimeMessages
import IronGolem.TransitionRuns
import IronGolem.WorkflowEngine

/-!
The runtime daemon: a loop that reads lines, the tasks it spawns, and the output they share behind
a lock. The line with index `n` is handled by task `n`; for a line that the loop answers itself,
the loop waits for that task. A message is written in three steps under the lock, so that other
tasks may run in between.
-/
namespace IronGolem.RuntimeDaemon

open Identifiers JsonValues PlanGraph RuntimeMessages WorkflowEngine

/-- A line of the input, as far as it can be read. -/
inductive StdinLine where
  | notUtf8
  | blank
  | notJson (reason : String)
  | document (j : Json)

/-- Answers may differ from line to line; a plan beyond the bound is not done. -/
structure Config (σ : Type) where
  executor : StepExecutor σ
  executorState : ℕ → σ
  stepBound : ℕ → ℕ
  complete : ℕ → String → Except Error String
  activeProfile : String
  profiles : List Json
  reading : Reading Event

variable {σ : Type} (cfg : Config σ)

structure ProcessResult where
  events : List (EventNotification Event)
  response : ExecutePlanResponse

variable (n : ℕ)

def processRequest (req : ExecutePlanRequest) : Option ProcessResult :=
  let final := stateAt req.workspaceId cfg.executor req.plan.plan [] (cfg.executorState n)
    (cfg.stepBound n)
  match final.phase with
  | .returned result =>
      some
        { events := final.log.map (fun event => ⟨req.requestId, event⟩)
          response := match result with
            | .ok () =>
                { requestId := req.requestId
                  status := .completed
                  output := final.plan.nodes.getLast?.bind (fun node => node.output)
                  error := none }
            | .error e =>
                { requestId := req.requestId
                  status := .failed
                  output := none
                  error := some e.toText } }
  | _ => none

def listProvidersResponse (requestId : Uuid) : ListProvidersResponse :=
  ⟨requestId, cfg.activeProfile, cfg.profiles⟩

def llmCallResponse (req : LlmCallRequest) : LlmCallResponse :=
  let prompt := if req.system = "" then req.prompt else req.system ++ "\n\n" ++ req.prompt
  match cfg.complete n prompt with
  | .ok content => ⟨req.requestId, .completed, content, none⟩
  | .error e => ⟨req.requestId, .failed, "", some e.toText⟩

def errorResponse (requestId : Uuid) (reason : String) : ExecutePlanResponse where
  requestId := requestId
  status := .failed
  output := none
  error := some reason

def nilUuid : Uuid := 0

def parseError (reason : String) : Reply Event :=
  .executePlanResponse (errorResponse nilUuid ("parse error: " ++ reason))

/-- The requests that are handled by a spawned task. -/
inductive Work where
  | executePlan (req : ExecutePlanRequest)
  | llmCall (req : LlmCallRequest)

def finished : Work → Option (List (Reply Event))
  | .executePlan req => (processRequest cfg n req).map fun result =>
      result.events.map .eventNotification ++ [.executePlanResponse result.response]
  | .llmCall req => some [.llmCallResponse (llmCallResponse cfg n req)]

/-- What the loop does with a line. An input that is not text ends the program. -/
inductive Dispatch where
  | fail
  | skip
  | write (message : Reply Event)
  | spawn (work : Work)
  | stop

def dispatch : StdinLine → Dispatch
  | .notUtf8 => .fail
  | .blank => .skip
  | .notJson reason => .write (parseError reason)
  | .document j =>
      match messageFromLine cfg.reading j with
      | .error reason => .write (parseError reason)
      | .ok (.executePlanRequest req) => .spawn (.executePlan req)
      | .ok (.pingRequest requestId) => .write (.pingResponse requestId)
      | .ok (.listProvidersRequest requestId) =>
          .write (.listProvidersResponse (listProvidersResponse cfg requestId))
      | .ok (.llmCallRequest req) => .spawn (.llmCall req)
      | .ok (.shutdown _) => .stop
      | .ok (.reply _) => .skip

inductive LoopPc where
  | reading
  | awaiting (n : ℕ)
  | draining
  | exited
  | failed
  deriving DecidableEq, Repr

def LoopPc.running : LoopPc → Bool
  | .exited | .failed => false
  | _ => true

inductive Task where
  | absent
  | computing (work : Work)
  | writing (messages : List (Reply Event))

def Task.idle : Task → Bool
  | .absent | .writing [] => true
  | _ => false

/-- What the holder of the lock does next. -/
inductive Stage where
  | body | newline | flush
  deriving DecidableEq, Repr

inductive Chunk where
  | body (n : ℕ) (r : Reply Event)
  | newline

structure Daemon where
  input : List StdinLine
  inputClosed : Bool
  next : ℕ
  pc : LoopPc
  tasks : ℕ → Task
  lock : Option (ℕ × Stage)
  stdout : List Chunk

def init : Daemon where
  input := []
  inputClosed := false
  next := 0
  pc := .reading
  tasks := fun _ => .absent
  lock := none
  stdout := []

variable (d : Daemon) (n : ℕ)

def Daemon.setTask (task : Task) : Daemon :=
  { d with tasks := Function.update d.tasks n task }

def Daemon.take : Dispatch → Daemon
  | .fail => { d with next := d.next + 1, pc := .failed }
  | .skip => { d with next := d.next + 1 }
  | .write message =>
      { d.setTask d.next (.writing [message]) with next := d.next + 1, pc := .awaiting d.next }
  | .spawn work => { d.setTask d.next (.computing work) with next := d.next + 1 }
  | .stop => { d with next := d.next + 1, pc := .draining }

inductive Act where
  | receive (line : StdinLine)
  | closeInput
  | read
  | endOfInput
  | resume (n : ℕ)
  | leave
  | finish (n : ℕ)
  | lock (n : ℕ)
  | writeBody (n : ℕ)
  | writeNewline (n : ℕ)
  | flush (n : ℕ)

/-- One step of a task that writes: `write_message` from the lock to its release. -/
def writeStep (m : Reply Event) (rest : List (Reply Event)) :
    Act → Option Daemon
  | .lock _ => if d.lock = none then some { d with lock := some (n, .body) } else none
  | .writeBody _ =>
      if d.lock = some (n, .body) then
        some { d with lock := some (n, .newline), stdout := d.stdout ++ [.body n m] }
      else none
  | .writeNewline _ =>
      if d.lock = some (n, .newline) then
        some { d with lock := some (n, .flush), stdout := d.stdout ++ [.newline] }
      else none
  | .flush _ =>
      if d.lock = some (n, .flush) then some { d.setTask n (.writing rest) with lock := none }
      else none
  | _ => none

def taskStep (a : Act) : Option Daemon :=
  if d.pc.running then
    match d.tasks n, a with
    | .computing work, .finish _ =>
        (finished cfg n work).map fun messages => d.setTask n (.writing messages)
    | .writing (m :: rest), a => writeStep d n m rest a
    | _, _ => none
  else none

/-- The daemon with the pipe that feeds it, which takes lines until it is closed. -/
def step : Act → Option Daemon
  | .receive line =>
      if d.inputClosed then none else some { d with input := d.input ++ [line] }
  | .closeInput => if d.inputClosed then none else some { d with inputClosed := true }
  | .read =>
      if d.pc = .reading then
        d.input[d.next]?.map fun line => d.take (dispatch cfg line)
      else none
  | .endOfInput =>
      if d.pc = .reading ∧ d.inputClosed ∧ d.input.length ≤ d.next then
        some { d with pc := .draining }
      else none
  | .resume n =>
      if d.pc = .awaiting n ∧ (d.tasks n).idle then some { d with pc := .reading } else none
  | .leave =>
      if d.pc = .draining ∧ ∀ n < d.next, (d.tasks n).idle then some { d with pc := .exited }
      else none
  | .finish n => taskStep cfg d n (.finish n)
  | .lock n => taskStep cfg d n (.lock n)
  | .writeBody n => taskStep cfg d n (.writeBody n)
  | .writeNewline n => taskStep cfg d n (.writeNewline n)
  | .flush n => taskStep cfg d n (.flush n)

end IronGolem.RuntimeDaemon
