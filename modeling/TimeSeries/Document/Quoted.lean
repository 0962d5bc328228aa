import TimeSeries.Text.Number

/-!
# Quoted texts

The four ways to quote a text in a document:

    "basic"         escapes, on one line
    'literal'       no escapes, on one line
    three basic     escapes, on several lines
    three literal   no escapes, on several lines

Reading takes the characters after the opening quote and gives the text with what
follows the closing quote.  Writing takes the first of the forms `basic`, `literal`,
`basicLines` and `literalLines` in which the text can stand as it is.
-/

namespace TimeSeries.Document

/-! ### Reading -/

/-- The character `c` may stand in a text as it is; a text of several lines also has its line
ends. -/
def isPlain (c : Char) : Bool :=
  c = '\t' || (' ' ≤ c && c ≠ '\x7f')

/-- The character that a letter after a backslash stands for. -/
def escaped? (c : Char) : Option Char :=
  match c with
  | 'b' => some '\x08'
  | 't' => some '\t'
  | 'n' => some '\n'
  | 'f' => some '\x0c'
  | 'r' => some '\r'
  | '"' => some '"'
  | '\\' => some '\\'
  | _ => none

/-- Puts the character `c` before a text that was read. -/
def prepend? (c : Option Char) (r : Option (List Char × List Char)) :
    Option (List Char × List Char) := do
  let c ← c
  let (text, rest) ← r
  return (c :: text, rest)

/-- Reads a basic text of one line. -/
def readBasic : List Char → Option (List Char × List Char)
  | '"' :: rest => some ([], rest)
  | '\\' :: 'u' :: a :: b :: c :: d :: rest => prepend? (Text.coded? [a, b, c, d]) (readBasic rest)
  | '\\' :: 'U' :: a :: b :: c :: d :: e :: f :: g :: h :: rest =>
    prepend? (Text.coded? [a, b, c, d, e, f, g, h]) (readBasic rest)
  | '\\' :: c :: rest => prepend? (escaped? c) (readBasic rest)
  | c :: rest => if isPlain c then prepend? (some c) (readBasic rest) else none
  | [] => none

/-- Reads a literal text of one line. -/
def readLiteral : List Char → Option (List Char × List Char)
  | '\'' :: rest => some ([], rest)
  | c :: rest => if isPlain c then prepend? (some c) (readLiteral rest) else none
  | [] => none

/-- What a text of several lines is read as: what is written, or blanks and line ends
to pass over, of which a line end has to come first. -/
inductive LineMode where
  | written
  | lineEndDue
  | passingOver

/-- Reads a basic text of several lines.  Of five closing quotes the first two belong
to the text, of four the first. -/
def readBasicLines (mode : LineMode) : List Char → Option (List Char × List Char)
  | [] => none
  | '\n' :: rest =>
    match mode with
    | .written => prepend? (some '\n') (readBasicLines .written rest)
    | _ => readBasicLines .passingOver rest
  | '\r' :: '\n' :: rest =>
    match mode with
    | .written => prepend? (some '\n') (readBasicLines .written rest)
    | _ => readBasicLines .passingOver rest
  | c :: rest =>
    match mode, c, rest with
    | .lineEndDue, c, rest =>
      if c = ' ' || c = '\t' then readBasicLines .lineEndDue rest else none
    | .passingOver, ' ', rest | .passingOver, '\t', rest => readBasicLines .passingOver rest
    | _, '"', '"' :: '"' :: '"' :: '"' :: rest => some (['"', '"'], rest)
    | _, '"', '"' :: '"' :: '"' :: rest => some (['"'], rest)
    | _, '"', '"' :: '"' :: rest => some ([], rest)
    | _, '\\', 'u' :: a :: b :: c :: d :: rest =>
      prepend? (Text.coded? [a, b, c, d]) (readBasicLines .written rest)
    | _, '\\', 'U' :: a :: b :: c :: d :: e :: f :: g :: h :: rest =>
      prepend? (Text.coded? [a, b, c, d, e, f, g, h]) (readBasicLines .written rest)
    | _, '\\', c :: rest =>
      if c = ' ' || c = '\t' then readBasicLines .lineEndDue rest
      else if c = '\n' then readBasicLines .passingOver rest
      else if c = '\r' then
        match rest with
        | '\n' :: rest => readBasicLines .passingOver rest
        | _ => none
      else prepend? (escaped? c) (readBasicLines .written rest)
    | _, c, rest =>
      if isPlain c then prepend? (some c) (readBasicLines .written rest) else none

/-- Reads a literal text of several lines. -/
def readLiteralLines : List Char → Option (List Char × List Char)
  | '\'' :: '\'' :: '\'' :: '\'' :: '\'' :: rest => some (['\'', '\''], rest)
  | '\'' :: '\'' :: '\'' :: '\'' :: rest => some (['\''], rest)
  | '\'' :: '\'' :: '\'' :: rest => some ([], rest)
  | '\r' :: '\n' :: rest => prepend? (some '\n') (readLiteralLines rest)
  | c :: rest =>
    if c = '\n' || isPlain c then prepend? (some c) (readLiteralLines rest) else none
  | [] => none

/-- The characters after a line end, if they begin with one. -/
def dropLineEnd : List Char → List Char
  | '\n' :: rest => rest
  | '\r' :: '\n' :: rest => rest
  | cs => cs

/-- Reads a quoted text of any kind, if there is one. -/
def readQuoted : List Char → Option (List Char × List Char)
  | '"' :: '"' :: '"' :: rest => readBasicLines .written (dropLineEnd rest)
  | '\'' :: '\'' :: '\'' :: rest => readLiteralLines (dropLineEnd rest)
  | '"' :: rest => readBasic rest
  | '\'' :: rest => readLiteral rest
  | _ => none

/-! ### Writing -/

/-- What decides which forms a text can be written in. -/
structure Shape where
  /-- There are control characters besides tabs and line ends. -/
  coded : Bool
  /-- There are backslashes. -/
  escaped : Bool
  /-- There are line ends. -/
  lines : Bool
  /-- The greatest number of single quotes in a row. -/
  single : Nat
  /-- The greatest number of double quotes in a row. -/
  double : Nat

/-- The greatest number of times that a character stands in a row, when it has just
stood there `seen` times. -/
def longestRun (c : Char) (seen : Nat) : List Char → Nat
  | [] => seen
  | d :: cs =>
    if d = c then longestRun c (seen + 1) cs else max seen (longestRun c 0 cs)

/-- The shape of the text `cs`. -/
def Shape.of (cs : List Char) : Shape where
  coded := cs.any fun c => c ≠ '\n' && !isPlain c
  escaped := cs.contains '\\'
  lines := cs.contains '\n'
  single := longestRun '\'' 0 cs
  double := longestRun '"' 0 cs

/-- The four forms of quoted texts. -/
inductive Form where
  | basic
  | literal
  | basicLines
  | literalLines
deriving DecidableEq

/-- Does the form show a text of the shape `s` without changing more than its tabs? -/
def Form.suits (form : Form) (s : Shape) : Bool :=
  match form with
  | basic => !s.coded && !s.escaped && !s.lines && s.double = 0
  | literal => !s.coded && !s.lines && s.single = 0
  | basicLines => !s.coded && !s.escaped && s.double ≤ 2
  | literalLines => !s.coded && s.single ≤ 2

/-- The first form that suits a text of the shape `s`, or else a basic one. -/
def Form.of (s : Shape) : Form :=
  match [basic, literal, basicLines, literalLines].find? (·.suits s) with
  | some form => form
  | none => if s.lines then basicLines else basic

/-- How `c`, which is neither a quote nor a line end, is written in a basic text. -/
def escape (c : Char) : List Char :=
  match c with
  | '\x08' => ['\\', 'b']
  | '\t' => ['\\', 't']
  | '\x0c' => ['\\', 'f']
  | '\r' => ['\\', 'r']
  | '\\' => ['\\', '\\']
  | c =>
    if isPlain c then [c]
    else
      let digits := (Nat.toDigits 16 c.toNat).map Char.toUpper
      '\\' :: 'u' :: List.replicate (4 - digits.length) '0' ++ digits

/-- The inside of a basic text of one line. -/
def escapeLine : List Char → List Char
  | [] => []
  | '"' :: cs => '\\' :: '"' :: escapeLine cs
  | '\n' :: cs => '\\' :: 'n' :: escapeLine cs
  | c :: cs => escape c ++ escapeLine cs

/-- The inside of a basic text of several lines, where two quotes in a row may stand as
they are and `seen` of them have just done so. -/
def escapeLines (seen : Nat) : List Char → List Char
  | [] => []
  | '"' :: cs =>
    if seen < 2 then '"' :: escapeLines (seen + 1) cs else '\\' :: '"' :: escapeLines 0 cs
  | '\n' :: cs => '\n' :: escapeLines 0 cs
  | c :: cs => escape c ++ escapeLines 0 cs

/-- Writes `text`.  A text that has line ends begins on a line of its own. -/
def quote (text : String) : String :=
  let cs := text.toList
  let shape := Shape.of cs
  let start := if shape.lines then "\n" else ""
  match Form.of shape with
  | .basic => "\"" ++ String.ofList (escapeLine cs) ++ "\""
  | .literal => "'" ++ text ++ "'"
  | .basicLines => "\"\"\"" ++ start ++ String.ofList (escapeLines 0 cs) ++ "\"\"\""
  | .literalLines => "'''" ++ start ++ text ++ "'''"

end TimeSeries.Document
