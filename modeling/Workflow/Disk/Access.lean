import Workflow.Disk
import Workflow.Disk.Path

/-!
# Access to a disk

What can be done to a disk by path, one indivisible operation each, and how each can fail. On the way to its end a path
may lead through links and to the directory above; only its last name may be missing.
-/

namespace Workflow

/-- Why an operation on a disk failed. -/
inductive FileError
  | noEntry
  | inputOutput
  | alreadyThere
  | notDirectory
  | isDirectory
  | invalid
  | nameTooLong
  | notEmpty
  | tooManyLinks
  | zeroByte
  | notText
  | other (wording : String) (code : Nat)
  deriving DecidableEq

/-- The wording of a failure. -/
def FileError.message : FileError → String
  | noEntry => "No such file or directory (os error 2)"
  | inputOutput => "Input/output error (os error 5)"
  | alreadyThere => "File exists (os error 17)"
  | notDirectory => "Not a directory (os error 20)"
  | isDirectory => "Is a directory (os error 21)"
  | invalid => "Invalid argument (os error 22)"
  | nameTooLong => "File name too long (os error 36)"
  | notEmpty => "Directory not empty (os error 39)"
  | tooManyLinks => "Too many levels of symbolic links (os error 40)"
  | zeroByte => "file name contained an unexpected NUL byte"
  | notText => "stream did not contain valid UTF-8"
  | other wording code => wording ++ " (os error " ++ toString code ++ ")"

/-- Where a walk along the names of a path ends: at a place, or at a link that leads on elsewhere. -/
inductive Stop
  | place (spot : Spot)
  | detour (dir : Spot) (target : String) (rest : List String)

namespace Disk

/-- The longest name, in octets. -/
def longestName : Nat := 255

/-- The longest path, in octets. -/
def longestPath : Nat := 4095

/-- How many links a path may lead through. -/
def mostLinks : Nat := 40

/-- Walks from a directory along names until the end or the next link. A link at the very end is followed if `follow` is
set. -/
def walk (d : Disk) (follow : Bool) : Spot → List String → Except FileError Stop
  | spot, [] => .ok (.place spot)
  | spot, name :: rest =>
    if Path.isIdle name then walk d follow spot rest
    else if name = ".." then walk d follow spot.dropLast rest
    else if longestName < name.utf8ByteSize then .error .nameTooLong
    else
      let place := spot ++ [name]
      match d.find? place with
      | some (.dir _) => walk d follow place rest
      | some (.link target) =>
        if rest.isEmpty && !follow then .ok (.place place) else .ok (.detour spot target rest)
      | some (.file _) => if rest.isEmpty then .ok (.place place) else .error .notDirectory
      | none => if rest.isEmpty then .ok (.place place) else .error .noEntry

/-- Walks from a directory along names through at most so many links. -/
def follow (d : Disk) (followLast : Bool) : Nat → Spot → List String → Except FileError Spot
  | links, spot, names =>
    match walk d followLast spot names with
    | .error e => .error e
    | .ok (.place place) => .ok place
    | .ok (.detour dir target rest) =>
      match links with
      | 0 => .error .tooManyLinks
      | links + 1 =>
        let path := Path.ofText target
        follow d followLast links (if path.isAbsolute then [] else dir) (path ++ rest)

/-- A path that can name nothing, whatever there is on the disk, is refused. -/
def checkText (p : Path) : Except FileError Unit :=
  if p.text.toList.contains '\x00' then .error .zeroByte
  else if p.isNone then .error .noEntry
  else if longestPath < p.text.utf8ByteSize then .error .nameTooLong
  else .ok ()

/-- The place that a path leads to. All but its last name has to be there. -/
def resolve (d : Disk) (followLast : Bool) (p : Path) : Except FileError Spot := do
  checkText p
  follow d followLast mostLinks [] p

/-- The path without the slashes at its end. A path of slashes alone is the top and stays. -/
def bare (p : Path) : Path :=
  match p with
  | [] => []
  | first :: rest => if p.all (· == "") then p else first :: (rest.reverse.dropWhile (· == "")).reverse

/-- Whether a path ends with a slash. -/
def endsWithSlash (p : Path) : Bool := decide (1 < p.length) && p.getLast? == some ""

/-- The place and the entry that a path leads to. A link at its end is followed if `followLast` is set. -/
def entryAt (d : Disk) (followLast : Bool) (p : Path) : Except FileError (Spot × Entry) := do
  let spot ← resolve d followLast p
  match d.find? spot with
  | some e => return (spot, e)
  | none => .error .noEntry

/-- Whether a path leads to a directory. -/
def hasDir (d : Disk) (p : Path) : Bool :=
  match entryAt d true p with
  | .ok (_, e) => e.isDir
  | .error _ => false

/-- Makes a directory. -/
def makeDir (d : Disk) (p : Path) : Except FileError Disk := do
  checkText p
  let spot ← follow d false mostLinks [] (bare p)
  match d.find? spot with
  | some _ => .error .alreadyThere
  | none => return d.replace spot (some .empty)

/-- Makes a directory unless there is one already. -/
def ensureDir (d : Disk) (p : Path) : Except FileError Disk :=
  match makeDir d p with
  | .ok d => .ok d
  | .error .noEntry => .error .noEntry
  | .error e => if hasDir d p then .ok d else .error e

/-- Looks whether there is an entry. -/
def look (d : Disk) (p : Path) : Except FileError Disk := do
  let _ ← entryAt d false p
  return d

/-- Writes a file, in place of the one that is there. -/
def write (d : Disk) (p : Path) (contents : ByteArray) : Except FileError Disk :=
  if endsWithSlash p then do
    checkText p
    let _ ← follow d false mostLinks [] (bare p)
    .error .isDirectory
  else do
    let spot ← resolve d true p
    match d.find? spot with
    | some (.dir _) => .error .isDirectory
    | _ => return d.replace spot (some (.file contents))

/-- Removes an entry, or, if it is a directory with entries, the first entry below it that has nothing below itself. -/
def removeOne (d : Disk) (p : Path) : Except FileError Disk := do
  let (spot, e) ← entryAt d false p
  return d.replace spot e.shed

/-- Whether an entry may take the place of another: a directory only that of an empty directory, anything else only that
of something else than a directory. -/
def takesPlace (moved : Entry) (present : Option Entry) : Except FileError Unit :=
  match moved, present with
  | _, none => .ok ()
  | .dir _, some (.dir []) => .ok ()
  | .dir _, some (.dir _) => .error .notEmpty
  | .dir _, some _ => .error .notDirectory
  | _, some (.dir _) => .error .isDirectory
  | _, some _ => .ok ()

/-- Moves an entry to another place, in one step. -/
def rename (d : Disk) (source target : Path) : Except FileError Disk := do
  let (start, e) ← entryAt d false source
  let goal ← resolve d false target
  if start = goal then return d
  else if start.isPrefixOf goal then .error .invalid
  else if goal.isPrefixOf start then .error .notEmpty
  else do
    takesPlace e (d.find? goal)
    return (d.replace start none).replace goal (some e)

/-- Reads a file as text. -/
def readText (d : Disk) (p : Path) : Except FileError String := do
  let (_, e) ← entryAt d true p
  match e with
  | .file contents =>
    match String.fromUTF8? contents with
    | some s => return s
    | none => .error .notText
  | _ => .error .isDirectory

end Disk

end Workflow
