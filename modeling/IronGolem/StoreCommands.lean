import IronGolem.GitObjects
import IronGolem.Identifiers
import IronGolem.RowTables
import IronGolem.SeparatedText

/-!
The shared checkpoint store and what the commands on it do. All projects share one object database;
each has a ref, an index file and a working directory. A working directory is the tree of its files
that are not excluded, and the number of those that are.
-/
namespace IronGolem.StoreCommands

open GitObjects Identifiers RowTables SeparatedText

abbrev Project := String

def refname (p : Project) : String := "refs/irongolem/" ++ p

structure Limits where
  maxFileBytes : ℕ
  maxFileCount : ℕ

/-- `DEFAULT_MAX_FILE_BYTES` and `DEFAULT_MAX_FILE_COUNT`. -/
def Limits.default : Limits := ⟨10 * 1024 * 1024, 50000⟩

/-- How git lists and matches paths, stages and writes files, and prints names and dates. -/
structure Git where
  listFiles : FileTree → List Path
  covers : String → Path → Bool
  /-- The index that `add -A` makes of an index and the files. Attributes may convert what is
  staged, and ignored files are staged only if the index has them. -/
  staged : FileTree → FileTree → FileTree
  /-- What `rm --cached` of these pathspecs leaves of an index, given the files; it may refuse. -/
  unstaged : FileTree → FileTree → List Path → Option FileTree
  unstaged_subset : ∀ index w paths i, unstaged index w paths = some i → i.files ⊆ index.files
  /-- The files after a tree has been written over them, converted as the attributes say. -/
  written : FileTree → FileTree → FileTree
  commitName : Commit → String
  treeName : FileTree → String
  dateText : Date → String
  readDate : String → Option Date

abbrev Refs := Table (Prod.fst (α := Project) (β := Commit))

structure Store where
  db : Database
  refs : Refs
  index : Project → FileTree
  workdir : Project → FileTree
  excluded : Project → ℕ

def Store.bare (workdir : Project → FileTree) : Store :=
  ⟨⟨∅, ∅, ∅⟩, .empty, fun _ => .empty, workdir, fun _ => 0⟩

variable (s : Store) (p : Project)

def Store.ref : Option Commit := (s.refs.get p).map Prod.snd

def Store.setIndex (t : FileTree) : Store :=
  { s with index := fun q => if q = p then t else s.index q }

def Store.setWorkdir (t : FileTree) : Store :=
  { s with workdir := fun q => if q = p then t else s.workdir q }

def Store.setRef (c : Commit) : Store :=
  { s with refs := s.refs.replace (p, c) }

/-- A tree as `write-tree` has just named it, or as the log printed its name. -/
inductive TreeName
  | written (t : FileTree)
  | printed (name : String)
  deriving DecidableEq

inductive Command
  /-- The walk of `check_file_count`. -/
  | countFiles
  | revParse
  /-- `read-tree`, with `--empty` where there is no commit. -/
  | readTree (old : Option Commit)
  | addAll
  | lsFiles
  /-- `symlink_metadata` of these paths. -/
  | statOversize (paths : List Path)
  | rmCached (paths : List Path)
  | diffIndex (old : Commit)
  | writeTree
  /-- A date stands for `GIT_AUTHOR_DATE` and `GIT_COMMITTER_DATE`. -/
  | commitTree (message : String) (parent : Option Commit) (tree : TreeName) (date : Option String)
  | updateRef (new : Commit) (old : Option Commit)
  | touchMeta
  /-- `checkout` of a commit with a pattern, or with `.`. -/
  | checkout (commit : Commit) (target : Option String)
  | revListCount
  /-- `log` with `%H|%T|%aI|%s`. -/
  | log (n : ℕ)
  | reflogExpire
  | gc
  deriving DecidableEq

inductive UpdateReply
  | updated
  /-- The ref is not at the old value. -/
  | conflict
  /-- The new object is missing. -/
  | refused
  deriving DecidableEq

/-- `none` is a command that fails. -/
def Reply : Command → Type
  | .countFiles => ℕ
  | .revParse => Option Commit
  | .readTree _ => Option Unit
  | .addAll => Unit
  | .lsFiles => List Path
  | .statOversize _ => List Path
  | .rmCached _ => Option Unit
  | .diffIndex _ => Option Bool
  | .writeTree => Option FileTree
  | .commitTree _ _ _ _ => Option Commit
  | .updateRef _ _ => UpdateReply
  | .touchMeta => Unit
  | .checkout _ _ => Option Unit
  | .revListCount => Option ℕ
  | .log _ => Option String
  | .reflogExpire => Unit
  | .gc => Unit

def isSpace (c : Char) : Bool := decide (c ∈ [' ', '\t', '\n', '\r'])

def trimEnd (s : String) : String := String.ofList (s.toList.rdropWhile isSpace)

/-- `%s`: the lines of the first paragraph, put on one line. -/
def subject (message : String) : String :=
  joinWith ' ' ((((split '\n' message).map trimEnd).dropWhile (fun l => decide (l = ""))).takeWhile
    (fun l => decide (l ≠ "")))

/-- The message that `commit-tree` stores: the text, ended by a line break. -/
def completeLine (message : String) : String :=
  if message = "" ∨ message.toList.getLast? = some '\n' then message
  else message ++ String.singleton '\n'

def logLine (git : Git) (c : Commit) : String :=
  joinWith '|' [git.commitName c, git.treeName c.tree, git.dateText c.authorDate,
    subject c.message] ++ String.singleton '\n'

def logText (git : Git) (n : ℕ) (tip : Commit) : String :=
  ((tip.history.take n).map (logLine git)).foldr (fun line rest => line ++ rest) ""

def pathText (p : Path) : String := joinWith '/' p

section Effects

variable (git : Git) (limits : Limits)

def oversize (e : Path × Entry) : Bool :=
  decide (e.2.mode ≠ .symlink) && decide (limits.maxFileBytes < e.2.data.length)

def oversizeAt (w : FileTree) (paths : List Path) : List Path :=
  paths.filter (fun p => decide (∃ e ∈ w.files, e.1 = p ∧ oversize limits e = true))

def resolveTree (db : Database) : TreeName → Option FileTree
  | .written t => if t ∈ db.trees then some t else none
  | .printed name => theOnly db.trees (fun t => decide (git.treeName t = name))

def commitDate (now : Date) : Option String → Option Date
  | none => some now
  | some text => git.readDate text

def commitTree (db : Database) (now : Date) (message : String) (parent : Option Commit)
    (tree : TreeName) (date : Option String) : Option Commit :=
  match resolveTree git db tree, commitDate git now date with
  | some t, some d =>
      if ∀ c ∈ parent, c ∈ db.commits then some (.mk t parent.toList d d (completeLine message))
      else none
  | _, _ => none

variable {db : Database} {tree : TreeName}

theorem commitTree_eq_some {now : Date} {message : String}
    {parent : Option Commit} {date : Option String} {c : Commit}
    (h : commitTree git db now message parent tree date = some c) :
    c.parents = parent.toList ∧ resolveTree git db tree = some c.tree ∧
      ∀ d ∈ parent, d ∈ db.commits := by
  unfold commitTree at h
  split at h
  · rename_i t d htree hdate
    split at h
    · rename_i hparent
      cases h
      exact ⟨rfl, htree, hparent⟩
    · cases h
  · cases h

theorem written_eq_some {t u : FileTree}
    (h : resolveTree git db (.written t) = some u) : t = u := by
  simp only [resolveTree] at h
  split at h
  · cases h
    rfl
  · cases h

theorem resolveTree_mem {t : FileTree} (h : resolveTree git db tree = some t) : t ∈ db.trees := by
  cases tree with
  | written u =>
    simp only [resolveTree] at h
    split at h
    · rename_i hu
      cases h
      exact hu
    · cases h
  | printed name => exact (theOnly_eq_some db.trees _ h).1

def matched (t : FileTree) : Option String → FileTree
  | none => t
  | some pattern => t.filter (fun e => git.covers pattern e.1)

/-- One command on a project at a time, and its reply. -/
def effect (p : Project) : (c : Command) → Date → Store → Store × Reply c
  | .countFiles, _, s => (s, (s.workdir p).files.card + s.excluded p)
  | .revParse, _, s => (s, (s.ref p).filter (fun c => decide (c ∈ s.db.commits)))
  | .readTree none, _, s => (s.setIndex p .empty, some ())
  | .readTree (some old), _, s =>
      if old ∈ s.db.commits ∧ old.tree.subtrees ⊆ s.db.trees then
        (s.setIndex p old.tree, some ())
      else (s, none)
  | .addAll, _, s =>
      let index := git.staged (s.index p) (s.workdir p)
      ({ s.setIndex p index with db := s.db.addBlobs index.blobs }, ())
  | .lsFiles, _, s => (s, git.listFiles (s.index p))
  | .statOversize paths, _, s => (s, oversizeAt limits (s.workdir p) paths)
  | .rmCached paths, _, s =>
      match git.unstaged (s.index p) (s.workdir p) paths with
      | some index => (s.setIndex p index, some ())
      | none => (s, none)
  | .diffIndex old, _, s =>
      if old ∈ s.db.commits ∧ old.tree.subtrees ⊆ s.db.trees then
        (s, some (decide (s.index p = old.tree)))
      else (s, none)
  | .writeTree, _, s =>
      if (s.index p).blobs ⊆ s.db.blobs then
        ({ s with db := s.db.addTree (s.index p) }, some (s.index p))
      else (s, none)
  | .commitTree message parent tree date, now, s =>
      match commitTree git s.db now message parent tree date with
      | some c => ({ s with db := s.db.addCommit c }, some c)
      | none => (s, none)
  | .updateRef new old, _, s =>
      if s.ref p ≠ old then (s, .conflict)
      else if new ∉ s.db.commits then (s, .refused)
      else (s.setRef p new, .updated)
  | .touchMeta, _, s => (s, ())
  | .checkout commit target, _, s =>
      let t := matched git commit.tree target
      if commit ∈ s.db.commits ∧ t.files.Nonempty ∧ t.blobs ⊆ s.db.blobs then
        ((s.setIndex p (t.overlay (s.index p))).setWorkdir p (git.written t (s.workdir p)),
          some ())
      else (s, none)
  | .revListCount, _, s => (s, (s.ref p).map (fun c => c.history.length))
  | .log n, _, s => (s, (s.ref p).map (logText git n))
  | .reflogExpire, _, s => (s, ())
  | .gc, _, s => ({ s with db := s.db.collect (s.refs.rows.map Prod.snd) }, ())

end Effects

def sortedPaths (t : FileTree) : List Path :=
  Quot.liftOn t.files.val (fun l => (l.map Prod.fst).insertionSort (fun p q => p ≤ q)) (by
    intro l m h
    have hperm := (List.perm_insertionSort (fun p q => p ≤ q) (l.map Prod.fst)).trans
      ((h.map Prod.fst).trans (List.perm_insertionSort (fun p q => p ≤ q) (m.map Prod.fst)).symm)
    exact hperm.eq_of_pairwise' (List.pairwise_insertionSort _ _) (List.pairwise_insertionSort _ _))

def without (t : FileTree) (paths : List Path) : FileTree :=
  t.filter (fun e => decide (e.1 ∉ paths))

def aFile (name : String) (length : ℕ) : FileTree := .only [name] ⟨.file, List.replicate length 97⟩

/-- A number that depends on the paths and the contents of a tree, in place of its hash. -/
def checksum (t : FileTree) : ℕ :=
  (t.files.val.map (fun e =>
    ((pathText e.1).toList.map Char.toNat).sum + 257 * (e.2.data.length + 1))).sum

def hexText (n : ℕ) : String := String.ofList (toHex 8 n)

def plainGit : Git where
  listFiles := sortedPaths
  covers pattern p := decide (pattern = pathText p)
  staged _ w := w
  unstaged index _ paths :=
    if ∀ p ∈ paths, ∃ e ∈ index.files, e.1 = p then some (without index paths) else none
  unstaged_subset index _ paths i h := by
    split at h
    · cases h
      exact Finset.filter_subset _ _
    · cases h
  written t w := t.overlay w
  commitName c := hexText (c.history.length + 1000 * checksum c.tree)
  treeName t := hexText (checksum t)
  dateText d := hexText d.seconds.toNat ++ hexText d.zone.toNat
  readDate text := do
    let seconds ← ofHex (text.toList.take 8)
    let zone ← ofHex (text.toList.drop 8)
    some ⟨seconds, zone⟩

end IronGolem.StoreCommands
