import Workflow.Text.Keyed

/-!
# Disks

A disk as a tree of files, links and directories. An entry is found by the names that lead to it from the top; a link is
an entry of its own and is not followed here.
-/

namespace Workflow

/-- What can stand under a name of a directory. -/
inductive Entry
  | file (contents : ByteArray)
  | link (target : String)
  | dir (children : List (String × Entry))
  deriving Inhabited

/-- A disk is its top directory. -/
abbrev Disk := Entry

/-- A place on a disk: the names that lead to it from the top. -/
abbrev Spot := List String

/-- The entries without the one under a key. -/
def Keyed.erase {α : Type} (map : Keyed α) (key : String) : Keyed α :=
  map.filter (·.1 != key)

namespace Entry

/-- A directory without entries. -/
def empty : Entry := .dir []

/-- Whether an entry is a directory. -/
def isDir : Entry → Bool
  | .dir _ => true
  | _ => false

/-- The entry at a place below an entry. -/
def find? : Entry → Spot → Option Entry
  | e, [] => some e
  | .dir children, name :: rest => (Keyed.get? children name).bind (·.find? rest)
  | _, _ :: _ => none

/-- The entry with another one at a place below it, or with none there. The directory that the place is in has to
exist. -/
def replace : Entry → Spot → Option Entry → Entry
  | e, [], new => new.getD e
  | .dir children, [name], none => .dir (Keyed.erase children name)
  | .dir children, [name], some new => .dir (Keyed.put name new children)
  | .dir children, name :: rest, new =>
    match Keyed.get? children name with
    | some child => .dir (Keyed.put name (child.replace rest new) children)
    | none => .dir children
  | e, _ :: _, _ => e

mutual

/-- How many entries there are from an entry on, itself among them. -/
def count : Entry → Nat
  | .file _ => 1
  | .link _ => 1
  | .dir children => 1 + countAll children

/-- How many entries there are below the entries of a directory, they themselves among them. -/
def countAll : List (String × Entry) → Nat
  | [] => 0
  | (_, e) :: rest => e.count + countAll rest

end

/-- The entry without the first entry below it that has nothing below itself; nothing is left of an entry that has
nothing below it. -/
def shed : Entry → Option Entry
  | .file _ => none
  | .link _ => none
  | .dir [] => none
  | .dir ((name, e) :: rest) =>
    match e.shed with
    | none => some (.dir rest)
    | some e => some (.dir ((name, e) :: rest))

mutual

/-- All entries below an entry with the texts of their paths. `before` is the text of the path to the entry, with a
slash at its end. -/
def listingFrom (before : String) : Entry → List (String × Entry)
  | .dir children => listingOf before children
  | _ => []

/-- The entries of a directory and all entries below them. -/
def listingOf (before : String) : List (String × Entry) → List (String × Entry)
  | [] => []
  | (name, e) :: rest => (before ++ name, e) :: (listingFrom (before ++ name ++ "/") e ++ listingOf before rest)

end

/-- All entries of a disk by the texts of their paths, in the order of these texts. -/
def listing (d : Disk) : Keyed Entry := Keyed.ofList (listingFrom "" d)

end Entry

end Workflow
