import Solfege.Yaml.Token.Block
import Solfege.Yaml.Token.Plain
import Solfege.Yaml.Token.Quoted
import Solfege.Yaml.Token.Tag

/-!
Contract: the tokens of a file, with those that only its layout shows.

Owns:
- the blocks that indentation opens and closes;
- the keys of mappings, which are known as such only by the colon behind them;
- the places where an item, a key or a value may stand;
- what is skipped between two tokens.

Does not own: scalars, tags and directives themselves, or the nodes of a file.

A key that no question mark announces may begin at any scalar, collection, anchor, tag or
reference. The tokens have an empty slot in front of each such place, which takes the
token of the key, and that of a mapping if it opens one, as soon as the colon is found.
The colon has to be on the line of the place, and not far behind it.
-/

namespace Solfege.Yaml

/-- A place where a key may have begun. -/
structure KeyStart where
  /-- The slot of the key among the tokens. -/
  slot : Nat
  line : Nat
  column : Nat
  offset : Nat
  /-- Whether the place is one where only a key can stand. -/
  isRequired : Bool
deriving DecidableEq, Repr

/-- A file on the way to its tokens. -/
structure Layout where
  cursor : Cursor
  /-- The tokens so far, in slots. -/
  slots : Array (List Token)
  /-- The column of the innermost block, which is -1 outside of all blocks. -/
  indent : Int
  /-- The columns of the blocks around it. -/
  outerIndents : List Int
  /-- Where a key may have begun in the innermost flow collection, or outside of all. -/
  keyStart : Option KeyStart
  /-- The same for each flow collection around it, and for what is outside of all. -/
  outerKeyStarts : List (Option KeyStart)
  /-- Whether a key may begin at the next token. -/
  allowsKey : Bool

namespace Layout

def ofString (file : String) : Layout where
  cursor := Cursor.ofString file
  slots := #[]
  indent := -1
  outerIndents := []
  keyStart := none
  outerKeyStarts := []
  allowsKey := true

/-- Whether the next token stands in a flow collection, where indentation does not count. -/
def isInFlow (layout : Layout) : Bool := !layout.outerKeyStarts.isEmpty

def add (layout : Layout) (token : Token) : Layout :=
  { layout with slots := layout.slots.push [token] }

/-- The layout behind a token, if one was read. -/
def addRead (layout : Layout) (read : Option (Token × Cursor)) : Option Layout :=
  read.map fun (token, behind) => { layout.add token with cursor := behind }

/-- The layout behind a token of one sign. -/
def addSign (layout : Layout) (token : Token) : Layout :=
  { layout.add token with cursor := layout.cursor.skip 1 }

/-! ### Blocks -/

/-- Opens a block in a column, if it is to the right of the innermost one, with the tokens
of its beginning. -/
def openBlock (layout : Layout) (column : Nat) : Layout × Bool :=
  if !layout.isInFlow && layout.indent < column then
    ({ layout with indent := column, outerIndents := layout.indent :: layout.outerIndents }, true)
  else
    (layout, false)

/-- Opens a block at the next token, which is its first one. -/
def openBlockHere (layout : Layout) (token : Token) : Layout :=
  let (opened, isNew) := layout.openBlock layout.cursor.column
  if isNew then opened.add token else opened

/-- Closes blocks to the right of a column, given the columns of those around them. -/
def closeTo (column : Int) (indent : Int) (slots : Array (List Token)) :
    List Int → Int × List Int × Array (List Token)
  | [] => (indent, [], slots)
  | outer :: rest =>
      if column < indent then
        closeTo column outer (slots.push [.blockEnd]) rest
      else
        (indent, outer :: rest, slots)

def closeBlocks (layout : Layout) (column : Int) : Layout :=
  if layout.isInFlow then
    layout
  else
    let (indent, outer, slots) := closeTo column layout.indent layout.slots layout.outerIndents
    { layout with indent := indent, outerIndents := outer, slots := slots }

/-! ### Keys -/

/-- The most bytes between the beginning of a key and its colon. -/
def longestKeySpan : Nat := 1024

/-- Whether a colon would come too late for a key. -/
def isStale (cursor : Cursor) (start : KeyStart) : Bool :=
  start.line < cursor.line || start.offset + longestKeySpan < cursor.offset

/-- Forgets where a key may have begun, unless only a key can stand there. -/
def dropKeyStart? (layout : Layout) : Option Layout :=
  if layout.keyStart.any KeyStart.isRequired then
    none
  else
    some { layout with keyStart := none }

/-- Forgets where keys may have begun for which a colon would come too late. -/
def dropStale? (layout : Layout) : Option Layout :=
  let isLost := fun (start : KeyStart) => isStale layout.cursor start && start.isRequired
  if layout.keyStart.any isLost || layout.outerKeyStarts.any fun start => start.any isLost then
    none
  else
    let keep := fun (start : Option KeyStart) => start.filter fun start => !isStale layout.cursor start
    some { layout with
      keyStart := keep layout.keyStart
      outerKeyStarts := layout.outerKeyStarts.map keep }

/-- Marks the next token as a place where a key may begin, with a slot in front of it. -/
def markKeyStart? (layout : Layout) : Option Layout :=
  if layout.allowsKey then do
    let layout ← layout.dropKeyStart?
    let cursor := layout.cursor
    let start : KeyStart :=
      { slot := layout.slots.size
        line := cursor.line
        column := cursor.column
        offset := cursor.offset
        isRequired := !layout.isInFlow && layout.indent = cursor.column }
    some { layout with slots := layout.slots.push [], keyStart := some start }
  else
    some layout

/-- Fills the slot of a key, in front of which a mapping may have to be opened. -/
def fillKey (layout : Layout) (start : KeyStart) : Layout :=
  let (opened, isNew) := layout.openBlock start.column
  { opened with
    slots := opened.slots.setIfInBounds start.slot (if isNew then [.blockMapping, .key] else [.key])
    keyStart := none
    allowsKey := false }

/-! ### Signs -/

def addMarker? (layout : Layout) (token : Token) : Option Layout := do
  let layout ← (layout.closeBlocks (-1)).dropKeyStart?
  some { layout.add token with cursor := layout.cursor.skip 3, allowsKey := false }

def addDirective? (layout : Layout) : Option Layout := do
  let layout ← (layout.closeBlocks (-1)).dropKeyStart?
  { layout with allowsKey := false }.addRead (Token.directive layout.cursor)

def openFlow? (layout : Layout) (token : Token) : Option Layout := do
  let layout ← layout.markKeyStart?
  some { layout.addSign token with
    keyStart := none
    outerKeyStarts := layout.keyStart :: layout.outerKeyStarts
    allowsKey := true }

def closeFlow? (layout : Layout) (token : Token) : Option Layout := do
  let layout ← layout.dropKeyStart?
  let closed :=
    match layout.outerKeyStarts with
    | [] => layout
    | start :: outer => { layout with keyStart := start, outerKeyStarts := outer }
  some { closed.addSign token with allowsKey := false }

def addComma? (layout : Layout) : Option Layout := do
  let layout ← layout.dropKeyStart?
  some { layout.addSign .comma with allowsKey := true }

/-- Adds a sign that opens a block where it stands, if it may stand there. -/
def addBlockSign? (layout : Layout) (block sign : Token) (allowsKey : Bool) : Option Layout :=
  if layout.isInFlow || layout.allowsKey then do
    let layout ← (layout.openBlockHere block).dropKeyStart?
    some { layout.addSign sign with allowsKey := allowsKey }
  else
    none

def addItem? (layout : Layout) : Option Layout :=
  layout.addBlockSign? .blockSequence .item true

def addKey? (layout : Layout) : Option Layout :=
  layout.addBlockSign? .blockMapping .key (!layout.isInFlow)

/-- Adds the colon of a value, behind a key that began on the same line or behind one
that a question mark announced. -/
def addValue? (layout : Layout) : Option Layout :=
  match layout.keyStart with
  | some start => some ((layout.fillKey start).addSign .value)
  | none => layout.addBlockSign? .blockMapping .value (!layout.isInFlow)

/-- Adds a token behind which no key begins, although one may begin with it. -/
def addContent? (layout : Layout) (read : Cursor → Option (Token × Cursor)) : Option Layout := do
  let layout ← layout.markKeyStart?
  { layout with allowsKey := false }.addRead (read layout.cursor)

/-- Adds a plain scalar, behind which a key may begin if a line has ended. -/
def addPlain? (layout : Layout) : Option Layout := do
  let layout ← layout.markKeyStart?
  let (token, isBroken, behind) ←
    Token.plain layout.isInFlow (layout.indent + 1).toNat layout.cursor
  some { layout.add token with cursor := behind, allowsKey := isBroken }

/-- Adds a block scalar, which is never a key. -/
def addBlockScalar? (layout : Layout) (isFolded : Bool) : Option Layout := do
  let layout ← layout.dropKeyStart?
  { layout with allowsKey := true }.addRead
    (Token.blockScalar isFolded layout.indent layout.cursor)

/-! ### Files -/

/-- Skips blanks, comments and the ends of lines in front of the next token. A tab is
skipped only where no key can begin. A mark of the byte order may begin a line. -/
def toToken (layout : Layout) : Nat → Layout
  | 0 => layout
  | bound + 1 =>
      let cursor := layout.cursor
      let line :=
        if cursor.column = 0 && cursor.rest.head? = some '\ufeff' then cursor.skip 1 else cursor
      let skipsTabs := layout.isInFlow || !layout.allowsKey
      let behind := (line.skipWhile fun character =>
        character = ' ' || (skipsTabs && character = '\t')).skipComment
      if behind.rest.head?.any isBreak then
        toToken { layout with
          cursor := behind.takeBreak.2
          allowsKey := layout.allowsKey || !layout.isInFlow } bound
      else
        { layout with cursor := behind }

/-- Adds the token that comes next. -/
def addNext? (layout : Layout) : Option Layout :=
  let cursor := layout.cursor
  let signStands := layout.isInFlow || separatorNext (cursor.rest.drop 1)
  if cursor.isMarkerOf '-' then
    layout.addMarker? .documentStart
  else if cursor.isMarkerOf '.' then
    layout.addMarker? .documentEnd
  else
    match cursor.rest with
    | [] => none
    | first :: rest =>
        if first = '%' && cursor.column = 0 then
          layout.addDirective?
        else if first = '[' then
          layout.openFlow? .flowSequence
        else if first = '\x7b' then
          layout.openFlow? .flowMapping
        else if first = ']' then
          layout.closeFlow? .flowSequenceEnd
        else if first = '\x7d' then
          layout.closeFlow? .flowMappingEnd
        else if first = ',' then
          layout.addComma?
        else if first = '-' && separatorNext rest then
          layout.addItem?
        else if first = '?' && signStands then
          layout.addKey?
        else if first = ':' && signStands then
          layout.addValue?
        else if first = '*' then
          layout.addContent? fun cursor =>
            (Token.anchorName cursor).map fun (name, behind) => (.reference name, behind)
        else if first = '&' then
          layout.addContent? fun cursor =>
            (Token.anchorName cursor).map fun (name, behind) => (.anchor name, behind)
        else if first = '!' then
          layout.addContent? (Token.tagToken layout.isInFlow)
        else if first = '|' && !layout.isInFlow then
          layout.addBlockScalar? false
        else if first = '>' && !layout.isInFlow then
          layout.addBlockScalar? true
        else if first = '\'' || first = '"' then
          layout.addContent? (Token.quoted first)
        else if Token.beginsPlain layout.isInFlow cursor.rest then
          layout.addPlain?
        else
          none

/-- The tokens at the end of a file, where every block is closed. -/
def finish? (layout : Layout) : Option (List Token) :=
  (layout.closeBlocks (-1)).dropKeyStart?.map fun closed => closed.slots.toList.flatten

/-- The tokens of the rest of a file. Each takes a character at least. -/
def tokensFrom : Nat → Layout → Option (List Token)
  | 0, _ => none
  | bound + 1, layout => do
      let next ← (layout.toToken (layout.cursor.rest.length + 1)).dropStale?
      let ready := next.closeBlocks next.cursor.column
      if ready.cursor.isEnd then
        ready.finish?
      else
        tokensFrom bound (← ready.addNext?)

end Layout

def Token.ofString? (file : String) : Option (List Token) :=
  if file.toList.all isAllowed then
    Layout.tokensFrom (file.length + 1) (Layout.ofString file)
  else
    none

end Solfege.Yaml
