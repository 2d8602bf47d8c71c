import Workflow.Yaml.TokenReader

/-!
# Events

The structure of a text as a sequence of events: scalars and aliases, and the beginning and end of every collection and
document. A machine with a stack of states turns tokens into events, one event a step. Where the structure leaves out a
value, an empty scalar stands for it.
-/

namespace Workflow

namespace Yaml

/-- What may stand before a value: an anchor, and a tag with its shorthand replaced. -/
structure Properties where
  anchor : Option String := none
  tag : Option Octets := none
  deriving DecidableEq

/-- A part of the structure of a text. -/
inductive Event
  | streamEnd
  | documentStart
  | documentEnd
  | reference (name : String)
  | scalar (properties : Properties) (text : String) (style : ScalarStyle)
  | sequenceStart (properties : Properties)
  | sequenceEnd
  | mappingStart (properties : Properties)
  | mappingEnd
  deriving DecidableEq

/-- What the machine expects next. -/
inductive Expecting
  | firstDocument
  | document
  | documentContent
  | documentEnd
  | blockNode
  | sequenceItem (first : Bool)
  | indentlessItem
  | mappingKey (first : Bool)
  | mappingValue
  | flowItem (first : Bool)
  | flowPairKey
  | flowPairValue
  | flowPairEnd
  | flowKey (first : Bool)
  | flowValue (absent : Bool)
  | nothing
  deriving DecidableEq

/-- The machine: the tokens ahead, what it expects now and later, where the open collections began, and the shorthands
for tags of the current document. `ending` is the problem that stands behind the last token. -/
structure EventReader where
  tokens : List Token
  ending : Option Problem
  now : Expecting
  later : List Expecting
  opened : List Mark
  shorthands : List (String × Octets)

namespace EventReader

/-- An event with its position, and the machine after it. -/
abbrev Step := Except Problem (Event × Mark × EventReader)

/-- The next token. -/
def peek (r : EventReader) : Except Problem Token :=
  match r.tokens, r.ending with
  | t :: _, _ => .ok t
  | [], some p => .error p
  | [], none => .ok ⟨.streamEnd, .start, .start⟩

/-- Past the next token. -/
def skip (r : EventReader) : EventReader := { r with tokens := r.tokens.drop 1 }

/-- The machine with something else to expect now. -/
def expect (r : EventReader) (now : Expecting) : EventReader := { r with now := now }

/-- The machine with something to expect once a value is complete. -/
def await (r : EventReader) (after : Expecting) : EventReader := { r with later := after :: r.later }

/-- The machine once a value is complete. -/
def complete (r : EventReader) : EventReader :=
  match r.later with
  | now :: later => { r with now := now, later := later }
  | [] => { r with now := .nothing }

/-- The machine with a collection opened. -/
def enter (r : EventReader) (mark : Mark) : EventReader := { r with opened := mark :: r.opened }

/-- The machine with a collection closed. -/
def leave (r : EventReader) : EventReader := { r with opened := r.opened.drop 1 }

/-- An event. -/
def emit (r : EventReader) (event : Event) (mark : Mark) : Step := .ok (event, mark, r)

/-- The empty scalar that stands for a value left out. -/
def emitEmpty (r : EventReader) (mark : Mark) : Step := r.emit (.scalar {} "" .plain) mark

/-- A fault in the current collection. -/
def failInside (r : EventReader) (fault : Fault) (activity : Activity) (t : Token) : Step :=
  .error { fault := fault, mark := t.start, activity := some (activity, r.opened.head?.getD .start) }

/-- The shorthands that every document has. -/
def commonShorthands : List (String × Octets) :=
  [("!", octetsOf ['!']), ("!!", octetsOf "tag:yaml.org,2002:".toList)]

/-- The directives before a document. -/
def readDirectives : List Token → (versionSeen : Bool) → (own : List (String × Octets)) →
    Except Problem (List Token × List (String × Octets))
  | [], _, own => .ok ([], own)
  | t :: rest, versionSeen, own =>
    match t.kind with
    | .version major minor =>
      if versionSeen then .error { fault := .duplicateVersion, mark := t.start }
      else if major != 1 || (minor != 1 && minor != 2) then
        .error { fault := .incompatibleVersion, mark := t.start }
      else readDirectives rest true own
    | .tagShorthand handle expansion =>
      if own.any (·.1 == handle) then .error { fault := .duplicateTagDirective, mark := t.start }
      else readDirectives rest versionSeen (own ++ [(handle, expansion)])
    | _ => .ok (t :: rest, own)

/-- The machine past the directives before a document, with the shorthands they declare. -/
def pastDirectives (r : EventReader) : Except Problem EventReader := do
  let (tokens, own) ← readDirectives r.tokens false []
  return { r with tokens := tokens, shorthands := own ++ commonShorthands }

/-- Past the lines that end documents. -/
def skipDocumentEnds : List Token → List Token
  | [] => []
  | t :: rest => if t.kind = .documentEnd then skipDocumentEnds rest else t :: rest

/-- Whether a document may begin with a token without a line that says so. -/
def beginsBare : TokenKind → Bool
  | .version .. | .tagShorthand .. | .documentStart | .streamEnd => false
  | _ => true

/-- The beginning of a document, or the end of the text. Only the first document may begin without a line of its own. -/
def documentStart (r : EventReader) (first : Bool) : Step := do
  let r := if first then r else { r with tokens := skipDocumentEnds r.tokens }
  let t ← r.peek
  if first && beginsBare t.kind then
    ({ r with shorthands := commonShorthands }.await .documentEnd |>.expect .blockNode).emit .documentStart t.start
  else if t.kind = .streamEnd then (r.skip.expect .nothing).emit .streamEnd t.start
  else do
    let r ← r.pastDirectives
    let line ← r.peek
    if line.kind = .documentStart then
      (r.skip.await .documentEnd |>.expect .documentContent).emit .documentStart t.start
    else .error { fault := .missingDocumentStart, mark := line.start }

/-- The end of a document. -/
def documentEnd (r : EventReader) : Step := do
  let t ← r.peek
  let r := if t.kind = .documentEnd then r.skip else r
  ({ r with shorthands := [] }.expect .document).emit .documentEnd t.start

/-- The tag that a handle and a suffix spell. -/
def resolveTag (r : EventReader) (start tagMark : Mark) (handle : String) (suffix : Octets) :
    Except Problem Octets :=
  if handle == "" then .ok suffix
  else
    match r.shorthands.find? (·.1 == handle) with
    | some (_, expansion) => .ok (expansion ++ suffix)
    | none => .error { fault := .undefinedHandle, mark := tagMark, activity := some (.node, start) }

/-- The anchor that is next, if one is. -/
def readAnchor (r : EventReader) : Except Problem (Option String × EventReader) := do
  let t ← r.peek
  match t.kind with
  | .anchor name => return (some name, r.skip)
  | _ => return (none, r)

/-- The tag that is next, if one is, not yet resolved. -/
def readTag (r : EventReader) : Except Problem (Option (String × Octets × Mark) × EventReader) := do
  let t ← r.peek
  match t.kind with
  | .tag handle suffix => return (some (handle, suffix, t.start), r.skip)
  | _ => return (none, r)

/-- The properties before a value, in either order. The tag is resolved only when it is known what follows, so that a
fault in the text after it comes first. -/
def readProperties (r : EventReader) (start : Mark) : Except Problem (Properties × EventReader) := do
  let (early, r) ← r.readAnchor
  let (tag, r) ← r.readTag
  let (late, r) ← if early.isNone && tag.isSome then r.readAnchor else pure (none, r)
  let _ ← r.peek
  let resolved ←
    match tag with
    | none => pure none
    | some (handle, suffix, mark) => do
      let octets ← r.resolveTag start mark handle suffix
      pure (some octets)
  return ({ anchor := early.or late, tag := resolved }, r)

/-- A value. `inBlock` allows blocks, and `indentless` a sequence at the indentation of the mapping around it. -/
def readNode (r : EventReader) (inBlock indentless : Bool) : Step := do
  let t ← r.peek
  match t.kind with
  | .reference name => (r.skip.complete).emit (.reference name) t.start
  | _ => do
    let start := t.start
    let (properties, r) ← r.readProperties start
    let t ← r.peek
    match t.kind, inBlock with
    | .scalar text style, _ => (r.skip.complete).emit (.scalar properties text style) start
    | .flowSequenceStart, _ => (r.expect (.flowItem true)).emit (.sequenceStart properties) start
    | .flowMappingStart, _ => (r.expect (.flowKey true)).emit (.mappingStart properties) start
    | .blockSequenceStart, true => (r.expect (.sequenceItem true)).emit (.sequenceStart properties) start
    | .blockMappingStart, true => (r.expect (.mappingKey true)).emit (.mappingStart properties) start
    | kind, _ =>
      if indentless && decide (kind = .blockEntry) then
        (r.expect .indentlessItem).emit (.sequenceStart properties) start
      else if properties.anchor.isSome || properties.tag.isSome then
        r.complete.emit (.scalar properties "" .plain) start
      else
        .error
          { fault := .missingContent
            mark := t.start
            activity := some (if inBlock then .blockNode else .flowNode, start) }

/-- The content of a document that began with a line of its own. -/
def documentContent (r : EventReader) : Step := do
  let t ← r.peek
  match t.kind with
  | .version .. | .tagShorthand .. | .documentStart | .documentEnd | .streamEnd => r.complete.emitEmpty t.start
  | _ => r.readNode true false

/-- A value in a block after a mark of the structure, or the empty scalar before one of the given tokens. `next` is what
to expect afterwards. -/
def valueAfter (r : EventReader) (mark : Mark) (next : Expecting) (indentless : Bool) (enders : List TokenKind) :
    Step := do
  let t ← r.peek
  if t.kind ∈ enders then (r.expect next).emitEmpty mark else (r.await next).readNode true indentless

/-- An item of a block sequence, or its end. -/
def sequenceItem (r : EventReader) (first : Bool) : Step := do
  let opening ← r.peek
  let r := if first then r.skip.enter opening.start else r
  let t ← r.peek
  match t.kind with
  | .blockEntry => r.skip.valueAfter t.stop (.sequenceItem false) false [.blockEntry, .blockEnd]
  | .blockEnd => r.skip.leave.complete.emit .sequenceEnd t.start
  | _ => r.failInside .missingDash .blockSequence t

/-- An item of a sequence at the indentation of the mapping around it, or the end of the sequence. -/
def indentlessItem (r : EventReader) : Step := do
  let t ← r.peek
  match t.kind with
  | .blockEntry => r.skip.valueAfter t.stop .indentlessItem false [.blockEntry, .key, .value, .blockEnd]
  | _ => r.complete.emit .sequenceEnd t.start

/-- A key of a block mapping, or its end. -/
def mappingKey (r : EventReader) (first : Bool) : Step := do
  let opening ← r.peek
  let r := if first then r.skip.enter opening.start else r
  let t ← r.peek
  match t.kind with
  | .key => r.skip.valueAfter t.stop .mappingValue true [.key, .value, .blockEnd]
  | .blockEnd => r.skip.leave.complete.emit .mappingEnd t.start
  | _ => r.failInside .missingKey .blockMapping t

/-- A value of a block mapping. -/
def mappingValue (r : EventReader) : Step := do
  let t ← r.peek
  match t.kind with
  | .value => r.skip.valueAfter t.stop (.mappingKey false) true [.key, .value, .blockEnd]
  | _ => (r.expect (.mappingKey false)).emitEmpty t.start

/-- The end of a flow collection. -/
def flowEnd (r : EventReader) (event : Event) (t : Token) : Step := r.skip.leave.complete.emit event t.start

/-- An item of a flow sequence, or its end. An item that begins as a key is a mapping of one entry. -/
def flowItem (r : EventReader) (first : Bool) : Step := do
  let opening ← r.peek
  let r := if first then r.skip.enter opening.start else r
  let t ← r.peek
  if t.kind = .flowSequenceEnd then r.flowEnd .sequenceEnd t
  else if !first && decide (t.kind ≠ .flowEntry) then r.failInside .missingCommaOrBracket .flowSequence t
  else do
    let r := if first then r else r.skip
    let t ← r.peek
    match t.kind with
    | .key => (r.skip.expect .flowPairKey).emit (.mappingStart {}) t.start
    | .flowSequenceEnd => r.flowEnd .sequenceEnd t
    | _ => (r.await (.flowItem false)).readNode false false

/-- The key of a mapping of one entry. -/
def flowPairKey (r : EventReader) : Step := do
  let t ← r.peek
  if t.kind ∈ [.value, .flowEntry, .flowSequenceEnd] then (r.skip.expect .flowPairValue).emitEmpty t.stop
  else (r.await .flowPairValue).readNode false false

/-- A value in a flow collection, or the empty scalar where there is none. `next` is what to expect afterwards. -/
def flowValueAfter (r : EventReader) (next : Expecting) (enders : List TokenKind) : Step := do
  let t ← r.peek
  if t.kind = .value then do
    let r := r.skip
    let t ← r.peek
    if t.kind ∈ enders then (r.expect next).emitEmpty t.start else (r.await next).readNode false false
  else (r.expect next).emitEmpty t.start

/-- A key of a flow mapping, or its end. -/
def flowKey (r : EventReader) (first : Bool) : Step := do
  let opening ← r.peek
  let r := if first then r.skip.enter opening.start else r
  let t ← r.peek
  if t.kind = .flowMappingEnd then r.flowEnd .mappingEnd t
  else if !first && decide (t.kind ≠ .flowEntry) then r.failInside .missingCommaOrBrace .flowMapping t
  else do
    let r := if first then r else r.skip
    let t ← r.peek
    match t.kind with
    | .key => do
      let r := r.skip
      let t ← r.peek
      if t.kind ∈ [.value, .flowEntry, .flowMappingEnd] then (r.expect (.flowValue false)).emitEmpty t.start
      else (r.await (.flowValue false)).readNode false false
    | .flowMappingEnd => r.flowEnd .mappingEnd t
    | _ => (r.await (.flowValue true)).readNode false false

/-- A value of a flow mapping, which is empty after a key that no mark announced. -/
def flowValue (r : EventReader) (absent : Bool) : Step :=
  if absent then do
    let t ← r.peek
    (r.expect (.flowKey false)).emitEmpty t.start
  else r.flowValueAfter (.flowKey false) [.flowEntry, .flowMappingEnd]

/-- One step of the machine. -/
def step (r : EventReader) : Step :=
  match r.now with
  | .firstDocument => r.documentStart true
  | .document => r.documentStart false
  | .documentContent => r.documentContent
  | .documentEnd => r.documentEnd
  | .blockNode => r.readNode true false
  | .sequenceItem first => r.sequenceItem first
  | .indentlessItem => r.indentlessItem
  | .mappingKey first => r.mappingKey first
  | .mappingValue => r.mappingValue
  | .flowItem first => r.flowItem first
  | .flowPairKey => r.flowPairKey
  | .flowPairValue => r.flowValueAfter .flowPairEnd [.flowEntry, .flowSequenceEnd]
  | .flowPairEnd => do
    let t ← r.peek
    (r.expect (.flowItem false)).emit .mappingEnd t.start
  | .flowKey first => r.flowKey first
  | .flowValue absent => r.flowValue absent
  | .nothing => r.emit .streamEnd .start

/-- The machine at the beginning of a text, past the token that stands for it. -/
def ofTokens (tokens : List Token) (ending : Option Problem) : EventReader where
  tokens := tokens.drop 1
  ending := ending
  now := .firstDocument
  later := []
  opened := []
  shorthands := []

/-- The events from the machine's place on, and the problem that ends them. -/
def run : Nat → EventReader → List (Event × Mark) → List (Event × Mark) × Option Problem
  | 0, _, given => (given.reverse, none)
  | steps + 1, r, given =>
    match r.step with
    | .error p => (given.reverse, some p)
    | .ok (event, mark, r) =>
      if event = .streamEnd then (((event, mark) :: given).reverse, none)
      else run steps r ((event, mark) :: given)

end EventReader

/-- The events of a text, and the problem that ends them. No token gives rise to more than four events. -/
def events (text : String) : List (Event × Mark) × Option Problem :=
  let (tokens, ending) := tokens text
  (EventReader.ofTokens tokens ending).run (8 * tokens.length + 32) []

end Yaml

end Workflow
