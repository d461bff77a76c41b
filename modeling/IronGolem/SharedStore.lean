import IronGolem.InterleavedPrograms
import IronGolem.StoreCommands

/-!
`take`, `restore` and `prune` of the shared checkpoint store, as programs of commands. Each follows
its method command by command: a command that fails ends the call with an error, and nothing but
the compare-and-swap on the ref guards against other calls on the project.
-/
namespace IronGolem.SharedStore

open InterleavedPrograms GitObjects SeparatedText StoreCommands

inductive GitStoreError
  | invalidPath (path : String)
  | invalidArgument (text : String)
  | tooManyFiles (limit : ℕ)
  | refCasConflict (reference : String)
  | gitCommand (command : Command)
  /-- A command that was killed or could not be run, or a file that could not be written. -/
  | interrupted
  deriving DecidableEq

abbrev Script (α : Type) := Attempt Command Reply GitStoreError α

def ask (c : Command) : Script (Reply c) := Attempt.ask c

def orFail {α : Type} (c : Command) : Option α → Except GitStoreError α
  | some a => .ok a
  | none => .error (.gitCommand c)

theorem orFail_eq_ok {α : Type} {c : Command} {r : Option α} {a : α} (h : orFail c r = .ok a) :
    r = some a := by
  cases r with
  | none => cases h
  | some b =>
    cases h
    rfl

def runOk {α : Type} (c : Command) (read : Reply c → Option α) : Script α :=
  .require c (fun r => orFail c (read r))

variable (limits : Limits)

def checkFileCount : Script Unit :=
  .require .countFiles (fun n : ℕ =>
    if limits.maxFileCount < n then .error (.tooManyFiles limits.maxFileCount) else .ok ())

def readRef : Script (Option Commit) := ask .revParse

variable (p : Project)

def updateRef (new : Commit) (old : Option Commit) : Script Unit :=
  .require (.updateRef new old) (fun r : UpdateReply => match r with
    | .updated => .ok ()
    | .conflict => .error (.refCasConflict (refname p))
    | .refused => .error (.gitCommand (.updateRef new old)))

/-- The list in pieces of this length; the first number is at least the number of pieces. -/
def chunksFrom {α : Type} (size : ℕ) : ℕ → List α → List (List α)
  | 0, _ => []
  | _ + 1, [] => []
  | fuel + 1, a :: l => (a :: l).take size :: chunksFrom size fuel ((a :: l).drop size)

def chunks {α : Type} (size : ℕ) (l : List α) : List (List α) := chunksFrom size l.length l

def rmChunks : List (List Path) → Script Unit
  | [] => pure ()
  | chunk :: rest => do
      runOk (.rmCached chunk) id
      rmChunks rest

def dropOversizeFiles : Script Unit := do
  let paths ← ask .lsFiles
  let oversize ← ask (.statOversize paths)
  rmChunks (chunks 100 oversize)

def unchanged : Option Commit → Script Bool
  | none => pure false
  | some old => runOk (.diffIndex old) id

def orCheckpoint (text : String) : String := if text = "" then "checkpoint" else text

variable (reason : String)

/-- The second half of `take_inner`. -/
def record (old : Option Commit) : Script (Option Commit) := do
  let tree ← runOk .writeTree id
  let commit ← runOk (.commitTree (orCheckpoint reason) old (.written tree) none) id
  updateRef p commit old
  let _ ← ask .touchMeta
  pure (some commit)

def takeInner (old : Option Commit) : Script (Option Commit) := do
  runOk (.readTree old) id
  let _ ← ask .addAll
  dropOversizeFiles
  let same ← unchanged old
  if same then do
    let _ ← ask .touchMeta
    pure none
  else record p reason old

def take : Script (Option Commit) := do
  checkFileCount limits
  let old ← readRef
  takeInner p reason old

def validRelativePath (path : String) : Bool :=
  decide (path ≠ "") && decide (path.toList.head? ≠ some '/') && decide (".." ∉ split '/' path)

def restore (commit : Commit) (path : Option String) :
    Script Unit :=
  match path.filter (fun path => !validRelativePath path) with
  | some path => .throw (.invalidPath path)
  | none => do
      checkFileCount limits
      let old ← readRef
      let _ ← takeInner p "pre-restore snapshot" old
      runOk (.checkout commit path) id

/-- The lines of a text, without the line breaks; a carriage return before one is part of it. -/
def lines (text : String) : List String :=
  let pieces := split '\n' text
  let ended := pieces.dropLast.map (fun l =>
    if l.toList.getLast? = some '\r' then String.ofList l.toList.dropLast else l)
  ended ++ pieces.getLast?.toList.filter (fun l => decide (l ≠ ""))

structure Kept where
  tree : String
  date : String
  subject : String
  deriving DecidableEq

def parseLine (line : String) : Option Kept :=
  match split '|' line with
  | _ :: tree :: date :: rest =>
      some ⟨tree, date, if rest = [] then "checkpoint" else joinWith '|' rest⟩
  | _ => none

def rebuild : Option Commit → List Kept → Script (Option Commit)
  | parent, [] => pure parent
  | parent, k :: rest => do
      let commit ← runOk
        (.commitTree (orCheckpoint k.subject) parent (.printed k.tree) (some k.date)) id
      rebuild (some commit) rest

def replaceChain (tip : Commit) : Option Commit → Script Unit
  | none => pure ()
  | some newTip => do
      updateRef p newTip (some tip)
      let _ ← ask .reflogExpire
      let _ ← ask .gc
      pure ()

def pruneFrom (keepLast : ℕ) (tip : Commit) : Script Unit := do
  let count ← runOk .revListCount id
  if count ≤ keepLast then pure ()
  else do
    let text ← runOk (.log keepLast) id
    let newTip ← rebuild none ((lines text).filterMap parseLine).reverse
    replaceChain p tip newTip

def prune (keepLast : ℕ) : Script Unit :=
  if keepLast = 0 then .throw (.invalidArgument "keep_last must be at least 1")
  else do
    let tip ← readRef
    match tip with
    | none => pure ()
    | some tip => pruneFrom p keepLast tip

inductive Job
  | take (reason : String)
  | restore (commit : Commit) (path : Option String)
  | prune (keepLast : ℕ)
  deriving DecidableEq

/-- Calls on one project with one job are told apart by a number. -/
structure Call where
  number : ℕ
  project : Project
  job : Job
  deriving DecidableEq

inductive Answer
  | taken (commit : Option Commit)
  | restored
  | pruned
  deriving DecidableEq

def script (l : Call) : Script Answer :=
  match l.job with
  | .take reason => do
      let commit ← take limits l.project reason
      pure (.taken commit)
  | .restore commit path => do
      restore limits l.project commit path
      pure .restored
  | .prune keepLast => do
      prune l.project keepLast
      pure .pruned

/-- Somebody works in a project: its files are now these, and so many are excluded. -/
def edit (x : Project × FileTree × ℕ) (s : Store) : Store :=
  { s.setWorkdir x.1 x.2.1 with excluded := fun q => if q = x.1 then x.2.2 else s.excluded q }

def allOfCall (l : Call) (n : ℕ) : List (Act Call Date (Project × FileTree × ℕ)) :=
  .begin l :: List.replicate n (.advance l ⟨0, 0⟩)

end IronGolem.SharedStore
