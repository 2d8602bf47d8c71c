import Workflow.Disk.Access
import Workflow.Package.Generate

/-!
# Installing a package

Puts the files of a package on a disk so that nobody finds half of them. The files are written into a hidden directory
beside the place of the package. Only when all are there does that directory take the place of the package, in one step;
what stood there before is kept aside until then, and put back if the step fails.

The work is a machine that asks for one operation on the disk at a time and goes on from its outcome. It can thus be run
on a model of a disk as well as on a real one, and be looked at between any two operations.
-/

namespace Workflow

/-- Why a package was not installed. -/
inductive InstallError
  | unsafePath (path : String)
  | mixedRoots
  | io (path : Path) (error : FileError)
  deriving DecidableEq

/-- The wording of an error. -/
def InstallError.message : InstallError → String
  | unsafePath path => "artifact path '" ++ path ++ "' must be relative and stay inside the output directory"
  | mixedRoots => "artifacts do not share a single top-level directory"
  | io path error => "could not write '" ++ path.text ++ "': " ++ error.message

/-- The directory that the files of a package share. `known` is that of the files before. -/
def packageRoot (known : Option String) : List Artifact → Except InstallError String
  | [] =>
    match known with
    | some root => .ok root
    | none => .error .mixedRoots
  | a :: rest =>
    match (Path.ofText a.path).names? with
    | some (first :: _ :: _) =>
      match known with
      | none => packageRoot (some first) rest
      | some root => if root = first then packageRoot known rest else .error .mixedRoots
    | _ => .error (.unsafePath a.path)

/-- What is to be installed: the files of a package with the directory that they share, and the directory that it is to
stand in. -/
structure Job where
  dir : Path
  root : String
  artifacts : List Artifact

namespace Job

/-- A hidden entry beside the package. -/
def hidden (j : Job) (suffix : String) : Path := j.dir.join ["." ++ j.root ++ "." ++ suffix]

/-- The directory that the files are written into at first. -/
def staging (j : Job) : Path := j.hidden "staging"

/-- Where the former package is kept for the time being. -/
def backup (j : Job) : Path := j.hidden "previous"

/-- The place of the package. -/
def destination (j : Job) : Path := j.dir.join [j.root]

/-- The package in the staging directory. -/
def staged (j : Job) : Path := j.staging.join [j.root]

/-- Where a file is written at first. -/
def stagedFile (j : Job) (a : Artifact) : Path := j.staging.join (Path.ofText a.path)

/-- Where the files stand in the end. -/
def written (j : Job) : List Path := j.artifacts.map fun a => j.dir.join (Path.ofText a.path)

end Job

/-- The making of a directory together with those above it. `current` is made next; `retried` tells that it was tried
before, and that those above it exist by now; `outer` are the directories below it that wait for it. -/
structure Making where
  current : Path
  retried : Bool
  outer : List Path

/-- How the making of directories goes on. -/
inductive MakingResult
  | more (m : Making)
  | made
  | failed (e : FileError)

namespace Making

/-- The making of a directory, unless the path is empty and names the present one. -/
def start (p : Path) : MakingResult :=
  if p.isNone then .made else .more ⟨p, false, []⟩

/-- Goes on with the directories below. -/
def goOn : List Path → MakingResult
  | [] => .made
  | p :: outer => .more ⟨p, true, outer⟩

/-- Goes on after an attempt. A directory that fails for want of the one above it is tried once more after that. -/
def after (m : Making) : Except FileError Unit → MakingResult
  | .ok () => goOn m.outer
  | .error e =>
    if e = .noEntry ∧ m.retried = false then
      match m.current.parent? with
      | some above => if above.isNone then .more { m with retried := true } else .more ⟨above, false, m.current :: m.outer⟩
      | none => .failed e
    else .failed e

end Making

/-- An operation that the machine asks for. -/
inductive Action
  | ensureDir (p : Path)
  | removeOne (p : Path)
  | write (p : Path) (contents : String)
  | look (p : Path)
  | rename (source target : Path)

/-- An operation on a disk, with its outcome. A failed operation has no effect. -/
def Disk.perform (d : Disk) (a : Action) : Disk × Except FileError Unit :=
  let result :=
    match a with
    | .ensureDir p => d.ensureDir p
    | .removeOne p => d.removeOne p
    | .write p contents => d.write p contents.toUTF8
    | .look p => d.look p
    | .rename source target => d.rename source target
  match result with
  | .ok d => (d, .ok ())
  | .error e => (d, .error e)

/-- How far the work has come. -/
inductive Phase
  | makingTarget (m : Making)
  | clearingStaging
  | makingParent (m : Making) (next : Artifact) (rest : List Artifact)
  | writing (next : Artifact) (rest : List Artifact)
  | clearingBackup
  | looking
  | settingAside
  | swapping (previous : Bool)
  | restoring (error : InstallError)
  | clearingPrevious
  | cleaning (error : Option InstallError)
  | finished (result : Except InstallError (List Path))

namespace Phase

/-- The work on the next file: its directory comes first. -/
def stage (j : Job) : List Artifact → Phase
  | [] => clearingBackup
  | a :: rest =>
    match ((j.stagedFile a).parent?.map Making.start).getD .made with
    | .more m => makingParent m a rest
    | _ => writing a rest

/-- The first phase of a job. -/
def first (j : Job) : Phase :=
  match Making.start j.dir with
  | .more m => makingTarget m
  | _ => clearingStaging

/-- The operation that a phase asks for. A finished phase asks for none. -/
def action? (j : Job) : Phase → Option Action
  | makingTarget m => some (.ensureDir m.current)
  | clearingStaging => some (.removeOne j.staging)
  | makingParent m _ _ => some (.ensureDir m.current)
  | writing a _ => some (.write (j.stagedFile a) a.contents)
  | clearingBackup => some (.removeOne j.backup)
  | looking => some (.look j.destination)
  | settingAside => some (.rename j.destination j.backup)
  | swapping _ => some (.rename j.staged j.destination)
  | restoring _ => some (.rename j.backup j.destination)
  | clearingPrevious => some (.removeOne j.backup)
  | cleaning _ => some (.removeOne j.staging)
  | finished _ => none

/-- The end of the clean-up: an earlier error comes before one of the clean-up itself. -/
def finish (j : Job) (earlier late : Option InstallError) : Phase :=
  match earlier.or late with
  | some e => finished (.error e)
  | none => finished (.ok j.written)

/-- The phase after an operation. Clearing goes on until there is nothing left to remove. -/
def after (j : Job) (outcome : Except FileError Unit) : Phase → Phase
  | makingTarget m =>
    match m.after outcome with
    | .more m => makingTarget m
    | .made => clearingStaging
    | .failed e => finished (.error (.io j.dir e))
  | clearingStaging =>
    match outcome with
    | .ok () => clearingStaging
    | .error .noEntry => stage j j.artifacts
    | .error e => finished (.error (.io j.staging e))
  | makingParent m a rest =>
    match m.after outcome with
    | .more m => makingParent m a rest
    | .made => writing a rest
    | .failed e => cleaning (some (.io ((j.stagedFile a).parent?.getD []) e))
  | writing a rest =>
    match outcome with
    | .ok () => stage j rest
    | .error e => cleaning (some (.io (j.stagedFile a) e))
  | clearingBackup =>
    match outcome with
    | .ok () => clearingBackup
    | .error .noEntry => looking
    | .error e => cleaning (some (.io j.backup e))
  | looking =>
    match outcome with
    | .ok () => settingAside
    | .error _ => swapping false
  | settingAside =>
    match outcome with
    | .ok () => swapping true
    | .error e => cleaning (some (.io j.destination e))
  | swapping previous =>
    match outcome, previous with
    | .ok (), true => clearingPrevious
    | .ok (), false => cleaning none
    | .error e, true => restoring (.io j.destination e)
    | .error e, false => cleaning (some (.io j.destination e))
  | restoring error => cleaning (some error)
  | clearingPrevious =>
    match outcome with
    | .ok () => clearingPrevious
    | .error _ => cleaning none
  | cleaning error =>
    match outcome with
    | .ok () => cleaning error
    | .error .noEntry => finish j error none
    | .error e => finish j error (some (.io j.staging e))
  | finished result => finished result

end Phase

namespace Install

/-- One operation of a job. With `fault` the operation fails in that way, without effect. -/
def step (j : Job) (fault : Option FileError) (d : Disk) (phase : Phase) : Disk × Phase :=
  match phase.action? j with
  | none => (d, phase)
  | some a =>
    match fault with
    | some e => (d, phase.after j (.error e))
    | none =>
      let (d, outcome) := d.perform a
      (d, phase.after j outcome)

/-- So many operations of a job, none of which fails but for what stands on the disk. -/
def run (j : Job) : Nat → Disk → Phase → Disk × Phase
  | 0, d, phase => (d, phase)
  | steps + 1, d, phase =>
    match phase with
    | .finished result => (d, .finished result)
    | phase =>
      let (d, phase) := step j none d phase
      run j steps d phase

/-- How many operations it takes at most to make a directory with those above it. -/
def makingSteps (p : Path) : Nat := 2 * p.length + 4

/-- How many operations it takes at most to write the files of a job. -/
def writingSteps (j : Job) : Nat :=
  j.artifacts.foldr (fun a n => makingSteps (j.stagedFile a) + 1 + n) 0

/-- How many operations a job takes at most on a disk: each directory and file is made once, and what was there or was
made is removed at most once by each of the four clearings. -/
def bound (j : Job) (d : Disk) : Nat :=
  8 * (makingSteps j.dir + writingSteps j + d.count + 8)

end Install

/-- Installs the files of a package in a directory. -/
def install (d : Disk) (dir : Path) (artifacts : List Artifact) : Disk × Except InstallError (List Path) :=
  match packageRoot none artifacts with
  | .error e => (d, .error e)
  | .ok root =>
    let j : Job := ⟨dir, root, artifacts⟩
    match Install.run j (Install.bound j d) d (.first j) with
    | (d, .finished result) => (d, result)
    | (d, _) => (d, .error (.io j.destination .inputOutput))

end Workflow
