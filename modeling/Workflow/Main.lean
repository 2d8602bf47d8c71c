import Workflow.Command

/-!
# The program

Runs the command that the arguments tell on the disk of the machine. What to do and what to say is decided by the
definitions of commands and of installations; here the operations that they ask for are carried out.
-/

namespace Workflow

/-- The number and the wording of a failure that the machine reports. A number may come with its sign turned. -/
def systemCode : IO.Error → Nat × String
  | .alreadyExists _ code wording | .otherError code wording | .resourceBusy code wording
  | .resourceVanished code wording | .unsupportedOperation code wording | .hardwareFault code wording
  | .unsatisfiedConstraints code wording | .illegalOperation code wording | .protocolError code wording
  | .timeExpired code wording | .interrupted _ code wording | .noFileOrDirectory _ code wording
  | .invalidArgument _ code wording | .permissionDenied _ code wording | .resourceExhausted _ code wording
  | .inappropriateType _ code wording | .noSuchThing _ code wording =>
    (if code.toNat < 0x80000000 then code.toNat else 0x100000000 - code.toNat, wording)
  | .unexpectedEof => (5, "unexpected end of file")
  | .userError wording => (5, wording)

/-- The failure that the machine reports. -/
def FileError.ofSystem (e : IO.Error) : FileError :=
  let (code, wording) := systemCode e
  match code with
  | 2 => .noEntry
  | 5 => .inputOutput
  | 13 => .other "Permission denied" 13
  | 17 => .alreadyThere
  | 20 => .notDirectory
  | 21 => .isDirectory
  | 22 => .invalid
  | 36 => .nameTooLong
  | 39 => .notEmpty
  | 40 => .tooManyLinks
  | code => .other wording code

/-- Tries an operation of the machine. -/
def attempt {α : Type} (operation : IO α) : IO (Except FileError α) := do
  try
    return .ok (← operation)
  catch e =>
    return .error (.ofSystem e)

/-- Makes a directory unless there is one already. A directory is told by the one that it holds under the name of a
point. -/
def ensureDirectory (path : String) : IO (Except FileError Unit) := do
  match ← attempt (IO.FS.createDir path) with
  | .ok () => return .ok ()
  | .error .noEntry => return .error .noEntry
  | .error e =>
    match ← attempt (IO.FS.createDir (path ++ "/.")) with
    | .error .alreadyThere => return .ok ()
    | _ => return .error e

/-- Removes an entry. A directory goes with all that it holds. -/
def removeEntry (path : String) : IO (Except FileError Unit) := do
  match ← attempt (IO.FS.removeFile path) with
  | .error .isDirectory => attempt (IO.FS.removeDirAll path)
  | result => return result

/-- Carries out an operation on the disk of the machine. To look at an entry is to move it to where it stands. -/
def Action.carryOut : Action → IO (Except FileError Unit)
  | .ensureDir p => ensureDirectory p.text
  | .removeOne p => removeEntry p.text
  | .write p contents => attempt (IO.FS.writeFile p.text contents)
  | .look p => attempt (IO.FS.rename p.text p.text)
  | .rename source target => attempt (IO.FS.rename source.text target.text)

/-- Carries out a job from a phase to its end. -/
partial def Job.carryOut (j : Job) (phase : Phase) : IO (Except InstallError (List Path)) := do
  match phase, phase.action? j with
  | .finished result, _ => return result
  | phase, some action => j.carryOut (phase.after j (← action.carryOut))
  | _, none => return .error (.io j.destination .inputOutput)

/-- Installs the files of a package in a directory of the machine. -/
def installOnMachine (dir : Path) (artifacts : List Artifact) : IO (Except InstallError (List Path)) := do
  match packageRoot none artifacts with
  | .error e => return .error e
  | .ok root =>
    let j : Job := ⟨dir, root, artifacts⟩
    j.carryOut (.first j)

/-- Reads a file of the machine as text. -/
def readOnMachine (path : String) : IO (Except FileError String) := do
  match ← attempt (IO.FS.readBinFile path) with
  | .error e => return .error e
  | .ok contents =>
    match String.fromUTF8? contents with
    | some text => return .ok text
    | none => return .error .notText

/-- Runs a command on the disk of the machine. -/
def Command.carryOut (coloured : Bool) : Command → IO Outcome
  | .help => return { output := usage, status := .success }
  | .validate paths strict format => do
    let checks ← paths.mapM fun path => return .ofReading strict path (← readOnMachine path)
    return FileCheck.outcome coloured format checks
  | .convert path output strict options => do
    match Conversion.ofReading strict options (← readOnMachine path) with
    | .error fault => return Conversion.refusal coloured path fault
    | .ok compilation =>
      let result ← installOnMachine (Path.ofText output) compilation.artifacts
      return Conversion.outcome coloured compilation output result

/-- Whether the environment asks for colour: by force, unless it forbids it, or else when a reader is at the terminal. -/
def wantsColour : IO Bool := do
  let isOn := fun (value : Option String) => value.map (· != "0")
  if isOn (← IO.getEnv "CLICOLOR_FORCE") == some true then return true
  else if (← IO.getEnv "NO_COLOR").isSome then return false
  else if isOn (← IO.getEnv "CLICOLOR") == some false then return false
  else (← IO.getStdout).isTty

end Workflow

open Workflow in
/-- Runs the program. -/
def main (arguments : List String) : IO UInt32 := do
  let coloured ← wantsColour
  let outcome ←
    match Command.ofArguments arguments with
    | .error e => pure (Command.misuse coloured e)
    | .ok command => command.carryOut coloured
  IO.print outcome.output
  IO.eprint outcome.report
  return outcome.status.code.toUInt32
