import Solfege.Syllable

/-!
Contract: the kinds of token, and which words and characters have one of their own.

Owns:
- the kinds and their names in answers;
- the reserved words and the delimiters;
- which kinds end a statement.

Does not own: how a source text is cut into tokens.
-/

namespace Solfege.Token

/-- What a token is. Every syllable is a kind of its own. -/
inductive Kind where
  | leftBrace
  | rightBrace
  | leftParen
  | rightParen
  | leftBracket
  | rightBracket
  | colon
  | comma
  | pipe
  | slash
  | bang
  | equals
  | caret
  | dot
  | dash
  | plus
  | greater
  | less
  | asterisk
  | semicolon
  | word
  | number
  | string
  | space
  | newline
  | note (name : Syllable)
  | title
  | copyRight
  | track
  | volume
  | endOfFile
deriving DecidableEq, Repr, Inhabited

namespace Kind

/-- Every kind, in the order in which the language lists them. -/
def all : List Kind :=
  [leftBrace, rightBrace, leftParen, rightParen, leftBracket, rightBracket, colon, comma,
    pipe, slash, bang, equals, caret, dot, dash, plus, greater, less, asterisk, semicolon,
    word, number, string, space, newline] ++
  Syllable.all.map note ++
  [title, copyRight, track, volume, endOfFile]

def name : Kind → String
  | leftBrace => "LBrace"
  | rightBrace => "RBrace"
  | leftParen => "LParen"
  | rightParen => "RParen"
  | leftBracket => "LBracket"
  | rightBracket => "RBracket"
  | colon => "Colon"
  | comma => "Comma"
  | pipe => "Pipe"
  | slash => "Slash"
  | bang => "Bang"
  | equals => "Eq"
  | caret => "Caret"
  | dot => "Dot"
  | dash => "Dash"
  | plus => "Plus"
  | greater => "Greater"
  | less => "Less"
  | asterisk => "Asterisk"
  | semicolon => "Semicolon"
  | word => "Alphanum"
  | number => "Number"
  | string => "Str"
  | space => "Space"
  | newline => "Newline"
  | note .ut => "Do"
  | note .re => "Re"
  | note .mi => "Mi"
  | note .fa => "Fa"
  | note .sol => "Sol"
  | note .la => "La"
  | note .si => "Si"
  | note .rest => "Rest"
  | title => "Title"
  | copyRight => "CopyRight"
  | track => "Track"
  | volume => "Volume"
  | endOfFile => "Eof"

def ofName? (text : String) : Option Kind :=
  all.find? fun kind => kind.name = text

/-- The kind of a reserved word; no other word has one. -/
def keyword? (text : String) : Option Kind :=
  match text with
  | "title" => some title
  | "copy_right" => some copyRight
  | "track" => some track
  | "v" | "V" | "vol" | "volume" => some volume
  | _ => (Syllable.ofWritten? text).map note

/-- The kind of a delimiter; no other character has one. -/
def delimiter? : Char → Option Kind
  | '\x7b' => some leftBrace
  | '\x7d' => some rightBrace
  | '(' => some leftParen
  | ')' => some rightParen
  | '[' => some leftBracket
  | ']' => some rightBracket
  | ':' => some colon
  | ',' => some comma
  | '|' => some pipe
  | '/' => some slash
  | '!' => some bang
  | '=' => some equals
  | '^' => some caret
  | '.' => some dot
  | '-' => some dash
  | '+' => some plus
  | '>' => some greater
  | '<' => some less
  | '*' => some asterisk
  | ';' => some semicolon
  | _ => none

def syllable? : Kind → Option Syllable
  | note name => some name
  | _ => none

def isNote (kind : Kind) : Bool :=
  kind.syllable?.isSome

/-- A newline, a semicolon and the end of the file close a statement. -/
def endsStatement : Kind → Bool
  | newline | semicolon | endOfFile => true
  | _ => false

end Kind

end Solfege.Token
