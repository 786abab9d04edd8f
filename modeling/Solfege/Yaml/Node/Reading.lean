import Solfege.Yaml.Layout
import Solfege.Yaml.Node.Basic

/-!
Contract: the nodes of a file by its tokens.

Owns:
- block and flow collections, nested in any way, and the nodes that are left out in them;
- the tags that stand for others by the handles of a document;
- the numbers of anchors;
- the one document that a file may hold.

Does not own: how tokens are found, or what the nodes mean.

The readers of nested nodes are bounded in their steps. Each level of nesting and each
element of a collection takes a token at least, and at most three steps.
-/

namespace Solfege.Yaml

/-! ### Handles -/

/-- The handles of tags in a document, with the bytes that they stand for. -/
abbrev Handles := List (String × TagBytes)

namespace Handles

/-- The bytes of a text in which every character takes one. -/
def bytes (text : String) : TagBytes := text.toList.map Token.byteOf

/-- The bytes that the tags of the standard types begin with. -/
def standardStart : TagBytes := bytes "tag:yaml.org,2002:"

/-- The handles of every document: one mark for tags of its own, and two for standard
types. -/
def standard : Handles := [("!", bytes "!"), ("!!", standardStart)]

/-- The tag with a handle and the bytes behind it. A tag without a handle is complete. -/
def resolve? (handles : Handles) (handle : String) (later : TagBytes) : Option TagBytes :=
  if handle = "" then
    some later
  else
    (handles.lookup handle).map fun start => start ++ later

end Handles

/-! ### States -/

/-- What is left of the tokens of a file, and the numbers of its anchors so far. -/
structure NodeReading where
  tokens : List Token
  anchors : List (String × Nat)

namespace NodeReading

/-- What is left behind the next token. -/
def drop (reading : NodeReading) : NodeReading :=
  { reading with tokens := reading.tokens.drop 1 }

def isAt (reading : NodeReading) (tokens : List Token) : Bool :=
  reading.tokens.head?.any tokens.contains

/-- Gives an anchor its number, which is the count of the different names that were given
one before. A name that is given a number again keeps only the new one. -/
def addAnchor (reading : NodeReading) (name : String) : Nat × NodeReading :=
  let number := reading.anchors.length
  let others := reading.anchors.filter fun anchor => anchor.1 ≠ name
  (number, { reading with anchors := (name, number) :: others })

/-! ### Properties -/

/-- Reads an anchor, which may be missing. -/
def takeAnchor (reading : NodeReading) : Option String × NodeReading :=
  match reading.tokens with
  | .anchor name :: rest => (some name, { reading with tokens := rest })
  | _ => (none, reading)

/-- Reads a tag, which may be missing. -/
def takeTag? (handles : Handles) (reading : NodeReading) :
    Option (Option TagBytes × NodeReading) :=
  match reading.tokens with
  | .tag handle later :: rest =>
      (handles.resolve? handle later).map fun tag => (some tag, { reading with tokens := rest })
  | _ => some (none, reading)

/-- Reads the anchor and the tag of a node in any order. The anchor is given its number. -/
def takeProperties? (handles : Handles) (reading : NodeReading) :
    Option (Option Nat × Option TagBytes × NodeReading) := do
  let (early, behind) := reading.takeAnchor
  let (tag, behind) ← behind.takeTag? handles
  let (late, behind) :=
    if early.isNone && tag.isSome then behind.takeAnchor else (none, behind)
  match early.or late with
  | none => some (none, tag, behind)
  | some name =>
      let (number, final) := behind.addAnchor name
      some (some number, tag, final)

end NodeReading

/-! ### Nodes -/

/-- The tokens behind a sign that leave out the key or the value it announces. -/
def blockOmissions : List Token := [.key, .value, .blockEnd]

/-- A tag of a scalar. A mark on its own only says that the scalar is not to be resolved. -/
def scalarTag (tag : Option TagBytes) : Option TagBytes :=
  tag.filter fun bytes => bytes ≠ [Token.byteOf '!']

namespace Node

mutual

/-- Reads a node. In a block it may be a block collection; where `allowsItems` is set also
a sequence whose items are not indented. -/
def read (handles : Handles) (inBlock allowsItems : Bool) :
    Nat → NodeReading → Option (Node × NodeReading)
  | 0, _ => none
  | bound + 1, reading =>
      match reading.tokens with
      | .reference name :: rest =>
          (reading.anchors.lookup name).map fun number =>
            (reference number, { reading with tokens := rest })
      | _ => do
          let (anchor, tag, reading) ← reading.takeProperties? handles
          match reading.tokens with
          | .scalar text form :: _ =>
              some (scalar anchor ⟨text, form, scalarTag tag⟩, reading.drop)
          | .flowSequence :: _ => readFlowItems handles anchor true bound [] reading.drop
          | .flowMapping :: _ => readFlowEntries handles anchor true bound [] reading.drop
          | token :: _ =>
              if token = .item && allowsItems then
                readItems handles anchor true bound [] reading
              else if token = .blockSequence && inBlock then
                readItems handles anchor false bound [] reading.drop
              else if token = .blockMapping && inBlock then
                readEntries handles anchor bound [] reading.drop
              else if anchor.isSome || tag.isSome then
                some (scalar anchor ⟨"", .plain, scalarTag tag⟩, reading)
              else
                none
          | [] =>
              if anchor.isSome || tag.isSome then
                some (scalar anchor ⟨"", .plain, scalarTag tag⟩, reading)
              else
                none

/-- Reads the items of a block sequence behind those already read. Where they are not
indented, the sequence ends with the last of them. -/
def readItems (handles : Handles) (anchor : Option Nat) (isFlush : Bool) :
    Nat → List Node → NodeReading → Option (Node × NodeReading)
  | 0, _, _ => none
  | bound + 1, found, reading =>
      if reading.isAt [.item] then
        let behind := reading.drop
        let omissions := if isFlush then .item :: blockOmissions else [.item, .blockEnd]
        if behind.isAt omissions then
          readItems handles anchor isFlush bound (empty :: found) behind
        else do
          let (item, next) ← read handles true false bound behind
          readItems handles anchor isFlush bound (item :: found) next
      else if isFlush then
        some (sequence anchor found.reverse, reading)
      else if reading.isAt [.blockEnd] then
        some (sequence anchor found.reverse, reading.drop)
      else
        none

/-- Reads the entries of a block mapping behind those already read. -/
def readEntries (handles : Handles) (anchor : Option Nat) :
    Nat → List (Node × Node) → NodeReading → Option (Node × NodeReading)
  | 0, _, _ => none
  | bound + 1, found, reading =>
      if reading.isAt [.key] then do
        let (key, next) ← readBlockPart handles bound reading.drop
        let (value, final) ←
          if next.isAt [.value] then readBlockPart handles bound next.drop else some (empty, next)
        readEntries handles anchor bound ((key, value) :: found) final
      else if reading.isAt [.blockEnd] then
        some (mapping anchor found.reverse, reading.drop)
      else
        none

/-- Reads a key or a value of a block mapping behind its sign, which may be left out. -/
def readBlockPart (handles : Handles) : Nat → NodeReading → Option (Node × NodeReading)
  | 0, _ => none
  | bound + 1, reading =>
      if reading.isAt blockOmissions then
        some (empty, reading)
      else
        read handles true true bound reading

/-- Reads the items of a flow sequence behind those already read, and the comma between
them. An item with a key is a mapping of one entry. -/
def readFlowItems (handles : Handles) (anchor : Option Nat) (isFirst : Bool) :
    Nat → List Node → NodeReading → Option (Node × NodeReading)
  | 0, _, _ => none
  | bound + 1, found, reading =>
      if reading.isAt [.flowSequenceEnd] then
        some (sequence anchor found.reverse, reading.drop)
      else if isFirst || reading.isAt [.comma] then
        let start := if isFirst then reading else reading.drop
        if start.isAt [.flowSequenceEnd] then
          some (sequence anchor found.reverse, start.drop)
        else do
          let (item, next) ←
            if start.isAt [.key] then
              readPair handles bound start.drop
            else
              read handles false false bound start
          readFlowItems handles anchor false bound (item :: found) next
      else
        none

/-- Reads an item with a key, behind the sign of the key. A sign that stands where the key
is left out belongs to the key. -/
def readPair (handles : Handles) : Nat → NodeReading → Option (Node × NodeReading)
  | 0, _ => none
  | bound + 1, reading => do
      let (key, next) ←
        if reading.isAt [.value, .comma, .flowSequenceEnd] then
          some (empty, reading.drop)
        else
          read handles false false bound reading
      let (value, final) ← readFlowValue handles .flowSequenceEnd bound next
      some (mapping none [(key, value)], final)

/-- Reads a value of a flow collection with its colon, both of which may be left out. -/
def readFlowValue (handles : Handles) (closing : Token) :
    Nat → NodeReading → Option (Node × NodeReading)
  | 0, _ => none
  | bound + 1, reading =>
      if reading.isAt [.value] then
        if reading.drop.isAt [.comma, closing] then
          some (empty, reading.drop)
        else
          read handles false false bound reading.drop
      else
        some (empty, reading)

/-- Reads the entries of a flow mapping behind those already read, and the comma between
them. An entry without the sign of a key has no value. -/
def readFlowEntries (handles : Handles) (anchor : Option Nat) (isFirst : Bool) :
    Nat → List (Node × Node) → NodeReading → Option (Node × NodeReading)
  | 0, _, _ => none
  | bound + 1, found, reading =>
      if reading.isAt [.flowMappingEnd] then
        some (mapping anchor found.reverse, reading.drop)
      else if isFirst || reading.isAt [.comma] then
        let start := if isFirst then reading else reading.drop
        if start.isAt [.flowMappingEnd] then
          some (mapping anchor found.reverse, start.drop)
        else if start.isAt [.key] then do
          let (key, next) ←
            if start.drop.isAt [.value, .comma, .flowMappingEnd] then
              some (empty, start.drop)
            else
              read handles false false bound start.drop
          let (value, final) ← readFlowValue handles .flowMappingEnd bound next
          readFlowEntries handles anchor false bound ((key, value) :: found) final
        else do
          let (key, next) ← read handles false false bound start
          readFlowEntries handles anchor false bound ((key, empty) :: found) next
      else
        none

end

/-! ### Documents -/

/-- The directives in front of a document. -/
structure Directives where
  hasVersion : Bool
  handles : Handles

/-- Reads directives in front of a document. A version must be 1.1 or 1.2, and neither a
version nor a handle may be given twice. -/
def directives? (found : Directives) : List Token → Option (Directives × List Token)
  | .versionDirective major minor :: rest =>
      if found.hasVersion || major ≠ 1 || !(minor = 1 || minor = 2) then
        none
      else
        directives? { found with hasVersion := true } rest
  | .tagDirective handle start :: rest =>
      if (found.handles.lookup handle).isSome then
        none
      else
        directives? { found with handles := (handle, start) :: found.handles } rest
  | tokens => some (found, tokens)

/-- Whether a token begins a document by its marker, or by a directive in front of it. -/
def beginsDocument : Token → Bool
  | .versionDirective _ _ => true
  | .tagDirective _ _ => true
  | .documentStart => true
  | _ => false

/-- A root, if nothing but ends of documents is left behind it. -/
def onlyDocument? (node : Node) (tokens : List Token) : Option Node :=
  if tokens.all fun token => token = .documentEnd then some node else none

/-- Reads the root of a document, which must be the last one. -/
def root? (handles : Handles) (tokens : List Token) : Option Node := do
  let (node, reading) ←
    read (handles ++ Handles.standard) true false (3 * tokens.length + 1) ⟨tokens, []⟩
  onlyDocument? node reading.tokens

/-- Reads the root of a document behind its marker, which may be left out. -/
def markedRoot? (handles : Handles) (tokens : List Token) : Option Node :=
  if tokens.head?.all fun token => beginsDocument token || token = .documentEnd then
    onlyDocument? empty tokens
  else
    root? handles tokens

/-- The root of the one document of a file. A file without a document holds the node that
stands where nothing is written, like a document without a root. -/
def ofTokens? (tokens : List Token) : Option Node :=
  match tokens with
  | [] => some empty
  | first :: _ =>
      if beginsDocument first then
        match directives? ⟨false, []⟩ tokens with
        | some (found, .documentStart :: content) => markedRoot? found.handles content
        | _ => none
      else
        root? [] tokens

def ofString? (file : String) : Option Node :=
  (Token.ofString? file).bind ofTokens?

end Node

end Solfege.Yaml
