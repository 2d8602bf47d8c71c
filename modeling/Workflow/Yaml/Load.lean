import Workflow.Text.Blank
import Workflow.Yaml.Event
import Workflow.Yaml.Scalar

/-!
# Loading a document

From document text to the tree it stands for. The text holds one document; its events are gathered first, with a number
for each anchor, and then read into a tree from the front. What is wrong with a value is therefore noticed before
whatever is wrong with the text behind it.
-/

namespace Workflow

namespace Yaml

/-- A part of a document, aliases naming the number of their anchor. -/
inductive Part
  | empty
  | reference (number : Nat)
  | scalar (tag : Option Octets) (text : String) (style : ScalarStyle)
  | sequenceStart (tag : Option Octets)
  | sequenceEnd
  | mappingStart (tag : Option Octets)
  | mappingEnd

/-- The parts of a document with their positions, the positions among them of the values with anchors, and the error
that cut the document off. `followed` tells that the text goes on behind the document. -/
structure Parts where
  parts : List (Part × Mark)
  count : Nat
  targets : List (Nat × Nat)
  error : Option LoadError
  followed : Bool

/-- The parts gathered so far, the last one first, with the names of anchors. An anchor gets the number of the names
known before it; of two values with one number the later counts. -/
structure Gathering where
  parts : List (Part × Mark) := []
  count : Nat := 0
  names : List (String × Nat) := []
  targets : List (Nat × Nat) := []

namespace Gathering

/-- One more part. -/
def add (g : Gathering) (part : Part) (mark : Mark) : Gathering :=
  { g with parts := (part, mark) :: g.parts, count := g.count + 1 }

/-- One more value with its properties. -/
def addValue (g : Gathering) (properties : Properties) (part : Part) (mark : Mark) : Gathering :=
  match properties.anchor with
  | none => g.add part mark
  | some name =>
    let number := g.names.length
    let named :=
      { g with
        names := (name, number) :: g.names.filter (·.1 != name)
        targets := (number, g.count) :: g.targets }
    named.add part mark

/-- The document gathered. -/
def finish (g : Gathering) (error : Option LoadError) (followed : Bool) : Parts where
  parts := g.parts.reverse
  count := g.count
  targets := g.targets
  error := error
  followed := followed

end Gathering

/-- Whether events other than the end of the text follow. -/
def goesOn (events : List (Event × Mark)) (ending : Option Problem) : Bool :=
  match events, ending with
  | [(.streamEnd, _)], none => false
  | _, _ => true

/-- The parts of the first document. -/
def gather (ending : Option Problem) : List (Event × Mark) → Gathering → Parts
  | [], g => g.finish (ending.map .malformed) false
  | (event, mark) :: rest, g =>
    match event with
    | .documentStart => gather ending rest g
    | .documentEnd => g.finish none (goesOn rest ending)
    | .streamEnd => (if g.count = 0 then g.add .empty mark else g).finish none false
    | .reference name =>
      match g.names.find? (·.1 == name) with
      | some (_, number) => gather ending rest (g.add (.reference number) mark)
      | none => g.finish (some (.unknownAnchor mark)) false
    | .scalar properties text style =>
      gather ending rest (g.addValue properties (.scalar properties.tag text style) mark)
    | .sequenceStart properties => gather ending rest (g.addValue properties (.sequenceStart properties.tag) mark)
    | .sequenceEnd => gather ending rest (g.add .sequenceEnd mark)
    | .mappingStart properties => gather ending rest (g.addValue properties (.mappingStart properties.tag) mark)
    | .mappingEnd => gather ending rest (g.add .mappingEnd mark)

/-- The way from the root of a document to a value: through items, through entries by the text of their key or without
one, and on from an alias to the value that it stands for. -/
inductive ValuePath
  | root
  | item (parent : ValuePath) (position : Nat)
  | key (parent : ValuePath) (name : String)
  | unnamed (parent : ValuePath)
  | reference (parent : ValuePath)

/-- A path as errors write it. The point that stands for the root is left out only before an entry of the root itself,
not behind an alias. -/
def ValuePath.text : ValuePath → String
  | root => "."
  | item parent position => parent.text ++ "[" ++ toString position ++ "]"
  | key root name => name
  | key parent name => parent.text ++ "." ++ name
  | unnamed root => "?"
  | unnamed parent => parent.text ++ ".?"
  | reference parent => parent.text

/-- A name without the mark before it, unless it is the mark alone. -/
def withoutMark (name : String) : String :=
  match name.toList with
  | '!' :: c :: rest => String.ofList (c :: rest)
  | _ => name

/-- The name of a local tag, the mark before it left out unless it is the whole tag. A second mark does not count. -/
def localTag? : Option Octets → Option String
  | some [0x21] => some "!"
  | some (0x21 :: name) => (textOfOctets? name).map withoutMark
  | _ => none

/-- The common tag with a name. -/
def commonTag (name : String) : Octets := octetsOf ("tag:yaml.org,2002:" ++ name).toList

/-- The refusal of a text that does not spell what its tag says. -/
def misspelt (s expected : String) : String :=
  "invalid value: string " ++ quoted s ++ ", expected " ++ expected

/-- What a scalar means under a tag of its own. Only a plain scalar, or one under a common tag, is more than its text. -/
def taggedScalar (tag : Octets) (s : String) (style : ScalarStyle) : Except String Tree :=
  if tag = commonTag "bool" then
    match truthValue? s with
    | some b => .ok (.bool b)
    | none => .error (misspelt s "a boolean")
  else if tag = commonTag "int" then
    match integer? s with
    | some (.ok t) => .ok t
    | some (.error wide) => .error wide.message
    | none => .error (misspelt s "an integer")
  else if tag = commonTag "float" then
    match double? s with
    | some x => .ok (.num (.real x))
    | none => .error (misspelt s "a float")
  else if tag = commonTag "null" then
    if spellsNull s then .ok .null else .error (misspelt s "null")
  else if tag.head? = some 0x21 && style = .plain then (plainValue s).mapError (·.message)
  else .ok (.str s)

/-- What a scalar means without a tag. -/
def untaggedScalar (s : String) (style : ScalarStyle) : Except String Tree :=
  if style = .plain then (plainValue s).mapError (·.message) else .ok (.str s)

/-- What a scalar means. A local tag is kept, and the scalar means what it would without it. -/
def scalarValue (tag : Option Octets) (s : String) (style : ScalarStyle) : Except String Tree :=
  match tag, localTag? tag with
  | none, _ => untaggedScalar s style
  | some _, some name => do return .tagged name (← untaggedScalar s style)
  | some tag, none => taggedScalar tag s style

/-- Where reading stands: the parts ahead, and how many aliases were followed. -/
structure Position where
  ahead : List (Part × Mark)
  jumps : Nat

/-- Reading of a value, given its path: the value, and where reading goes on. -/
abbrev Reader := ValuePath → Position → Except LoadError (Tree × Position)

namespace Parts

/-- The error of a document that ends too early. -/
def cutOff (d : Parts) : LoadError := d.error.getD .endOfStream

/-- The items of a sequence, read from the first on. Each step goes over at least one part. -/
def readItems (d : Parts) (read : Reader) (path : ValuePath) :
    Nat → Nat → Position → Except LoadError (List Tree × Position)
  | 0, _, _ => .error d.cutOff
  | steps + 1, count, p =>
    match p.ahead with
    | [] => .error d.cutOff
    | (.sequenceEnd, _) :: rest => .ok ([], { p with ahead := rest })
    | _ => do
      let (item, p) ← read (.item path count) p
      let (items, p) ← readItems d read path steps (count + 1) p
      return (item :: items, p)

/-- The end of the refusal of a key that a mapping has already. -/
def keyDescription : Tree → String
  | .null => "with null key"
  | .bool b => "with key \x60" ++ (if b then "true" else "false") ++ "\x60"
  | .num n => "with key " ++ n.text .yaml
  | .str s => "with key " ++ quoted s
  | .seq _ | .map _ | .tagged .. => "in YAML map"

/-- The path of the value under a key. -/
def valuePath (path : ValuePath) : List (Part × Mark) → ValuePath
  | (.scalar _ text _, _) :: _ => .key path text
  | _ => .unnamed path

/-- The entries of a mapping, read from the first on; `known` holds those read before. Each step goes over at least two
parts. -/
def readEntries (d : Parts) (read : Reader) (path : ValuePath) (mark : Mark) :
    Nat → List (Tree × Tree) → Position → Except LoadError (List (Tree × Tree) × Position)
  | 0, _, _ => .error d.cutOff
  | steps + 1, known, p =>
    match p.ahead with
    | [] => .error d.cutOff
    | (.mappingEnd, _) :: rest => .ok (known.reverse, { p with ahead := rest })
    | ahead => do
      let (key, p) ← read path p
      match known.find? fun e => e.1.sameValue key with
      | some (first, _) => .error (.value path.text ("duplicate entry " ++ keyDescription first) mark)
      | none => do
        let (value, p) ← read (valuePath path ahead) p
        readEntries d read path mark steps ((key, value) :: known) p

/-- A value that is no alias. Its items or entries are read by `inner`, if values may be nested that deep. -/
def readPlain (d : Parts) (inner : Option Reader) (path : ValuePath) (p : Position) :
    Except LoadError (Tree × Position) :=
  match p.ahead with
  | [] => .error d.cutOff
  | (part, mark) :: rest =>
    let p := { p with ahead := rest }
    let tagged (tag : Option Octets) (t : Tree) : Tree :=
      match localTag? tag with
      | some name => .tagged name t
      | none => t
    match part with
    | .scalar tag text style =>
      match scalarValue tag text style with
      | .ok t => .ok (t, p)
      | .error message => .error (.value path.text message mark)
    | .sequenceStart tag =>
      match inner with
      | none => .error (.tooDeep mark)
      | some read => do
        let (items, p) ← d.readItems read path (d.count + 1) 0 p
        return (tagged tag (.seq items), p)
    | .mappingStart tag =>
      match inner with
      | none => .error (.tooDeep mark)
      | some read => do
        let (entries, p) ← d.readEntries read path mark (d.count + 1) [] p
        return (tagged tag (.map entries), p)
    | .empty | .sequenceEnd | .mappingEnd | .reference _ => .ok (.null, p)

/-- How many aliases may be followed for each part of a document. -/
def jumpsPerPart : Nat := 100

/-- A value. An alias stands for the value with its anchor, read anew. -/
def readAny (d : Parts) (inner : Option Reader) (path : ValuePath) (p : Position) :
    Except LoadError (Tree × Position) :=
  match p.ahead with
  | (.reference number, _) :: rest =>
    let jumps := p.jumps + 1
    if d.count * jumpsPerPart < jumps then .error .tooManyRepetitions
    else
      let target := ((d.targets.find? (·.1 == number)).map (·.2)).getD 0
      do
        let (t, after) ← d.readPlain inner (.reference path) { ahead := d.parts.drop target, jumps := jumps }
        return (t, { after with ahead := rest })
  | _ => d.readPlain inner path p

/-- How deep sequences and mappings may be nested. -/
def depthLimit : Nat := 128

/-- A value in which collections may be nested to a given depth. -/
def read (d : Parts) : Nat → Reader
  | 0 => d.readAny none
  | depth + 1 => d.readAny (some (read d depth))

/-- The tree of a document. -/
def tree (d : Parts) : Except LoadError Tree := do
  let (t, _) ← d.read depthLimit .root ⟨d.parts, 0⟩
  match d.error with
  | some e => .error e
  | none => if d.followed then .error .severalDocuments else return t

end Parts

end Yaml

/-- The tree that a text stands for. A blank text stands for null. -/
def load (text : String) : Except Yaml.LoadError Tree :=
  if isBlankText text then .ok .null
  else
    let (events, ending) := Yaml.events text
    (Yaml.gather ending events {}).tree

end Workflow
