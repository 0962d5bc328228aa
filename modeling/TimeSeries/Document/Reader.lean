import TimeSeries.Document.Quoted
import TimeSeries.Document.Tree
import TimeSeries.Document.Word

/-!
# Reading documents

A document in the TOML notation is a sequence of lines.  A line may hold an entry
`key = value`, or a header `[table]` to which the entries after it belong, or
nothing; a comment from `#` on is passed over.  Values are quoted texts, words,
lists in brackets, and tables in braces.  Keys have no more than `keyLimit` parts, and
lists and tables in a value are nested no deeper than `depthLimit`.

A document that breaks the notation anywhere has no meaning at all.
-/

namespace TimeSeries.Document

/-! ### Blanks and keys -/

/-- Drops spaces and tabs. -/
def skipBlank (cs : List Char) : List Char := cs.dropWhile fun c => c = ' ' || c = '\t'

/-- Drops a comment, if there is one. -/
def skipComment? : List Char → Option (List Char)
  | '#' :: cs =>
    let rest := cs.dropWhile isPlain
    match rest with
    | [] | '\n' :: _ | '\r' :: '\n' :: _ => some rest
    | _ => none
  | cs => some cs

/-- Goes to the start of the next line, past nothing but blanks and a comment. -/
def endLine? (cs : List Char) : Option (List Char) := do
  match ← skipComment? (skipBlank cs) with
  | [] => return []
  | '\n' :: rest => return rest
  | '\r' :: '\n' :: rest => return rest
  | _ => none

/-- Drops blanks, line ends and comments. -/
def skipLines? (fuel : Nat) (cs : List Char) : Option (List Char) :=
  match fuel with
  | 0 => none
  | fuel + 1 =>
    match skipBlank cs with
    | '\n' :: rest => skipLines? fuel rest
    | '\r' :: '\n' :: rest => skipLines? fuel rest
    | '#' :: rest => do skipLines? fuel (← skipComment? ('#' :: rest))
    | rest => some rest

/-- May this character stand in a key without quotes? -/
def isKeyChar (c : Char) : Bool := c.isAlphanum || c = '_' || c = '-'

/-- Reads one part of a key. -/
def readKeyPart (cs : List Char) : Option (String × List Char) :=
  match cs with
  | '"' :: rest => (readBasic rest).map fun (text, rest) => (String.ofList text, rest)
  | '\'' :: rest => (readLiteral rest).map fun (text, rest) => (String.ofList text, rest)
  | cs =>
    match cs.takeWhile isKeyChar with
    | [] => none
    | key => some (String.ofList key, cs.dropWhile isKeyChar)

/-- The greatest number of parts of a key. -/
def keyLimit : Nat := 79

/-- Reads a key of at most `limit` parts: the ones before the last dot, and the last
one. -/
def readKeyParts (limit : Nat) (cs : List Char) :
    Option ((List String × String) × List Char) :=
  match limit with
  | 0 => none
  | limit + 1 => do
    let (part, rest) ← readKeyPart (skipBlank cs)
    match skipBlank rest with
    | '.' :: rest =>
      let ((parts, last), rest) ← readKeyParts limit rest
      return ((part :: parts, last), rest)
    | rest => return (([], part), rest)

/-- Reads a key. -/
def readKey (cs : List Char) : Option ((List String × String) × List Char) :=
  readKeyParts keyLimit cs

/-! ### Values -/

/-- How deep the lists and tables in a value may be nested. -/
def depthLimit : Nat := 79

mutual

/-- Reads a value in which lists and tables are nested up to `depth`. -/
def readValue (fuel depth : Nat) (cs : List Char) : Option (Datum × List Char) :=
  match fuel with
  | 0 => none
  | fuel + 1 =>
    match cs, depth with
    | '[' :: _, 0 | '\x7b' :: _, 0 => none
    | '[' :: rest, depth + 1 => do
      let (items, rest) ← readItems fuel depth rest
      return (.list items, rest)
    | '\x7b' :: rest, depth + 1 =>
      match skipBlank rest with
      | '\x7d' :: rest => some (.table [], rest)
      | rest => do
        let (entries, rest) ← readFields fuel depth [] rest
        return (.table (entriesToData entries), rest)
    | '"' :: _, _ | '\'' :: _, _ => do
      let (text, rest) ← readQuoted cs
      return (.text (String.ofList text), rest)
    | cs, _ => do
      let (word, rest) := takeWord cs
      return (← ofWord? word, rest)

/-- Reads the items of a list, up to its closing bracket. -/
def readItems (fuel depth : Nat) (cs : List Char) : Option (List Datum × List Char) :=
  match fuel with
  | 0 => none
  | fuel + 1 => do
    match ← skipLines? (fuel + 1) cs with
    | ']' :: rest => return ([], rest)
    | rest =>
      let (item, rest) ← readValue fuel depth rest
      match ← skipLines? (fuel + 1) rest with
      | ']' :: rest => return ([item], rest)
      | ',' :: rest =>
        let (items, rest) ← readItems fuel depth rest
        return (item :: items, rest)
      | _ => none

/-- Reads the entries of a table in braces, up to the closing brace. -/
def readFields (fuel depth : Nat) (entries : Entries) (cs : List Char) :
    Option (Entries × List Char) :=
  match fuel with
  | 0 => none
  | fuel + 1 => do
    let (entries, rest) ← readEntry fuel depth entries [] cs
    match skipBlank rest with
    | '\x7d' :: rest => return (entries, rest)
    | ',' :: rest => readFields fuel depth entries rest
    | _ => none

/-- Reads an entry of the table at `path`. -/
def readEntry (fuel depth : Nat) (entries : Entries) (path : List String) (cs : List Char) :
    Option (Entries × List Char) :=
  match fuel with
  | 0 => none
  | fuel + 1 => do
    let ((dots, key), rest) ← readKey cs
    match rest with
    | '=' :: rest =>
      let (value, rest) ← readValue fuel depth (skipBlank rest)
      return (← Entries.add? entries path dots key value, rest)
    | _ => none

end

/-! ### Lines -/

/-- Reads the lines of a document, adding entries to the table at `path`. -/
def readLines (fuel : Nat) (entries : Entries) (path : List String) (cs : List Char) :
    Option Entries :=
  match fuel with
  | 0 => none
  | fuel + 1 => do
    match skipBlank cs with
    | [] => return entries
    | '[' :: '[' :: rest =>
      let ((dots, key), rest) ← readKey rest
      let ']' :: ']' :: rest := rest | none
      readLines fuel (← Entries.openNext? entries dots key) (dots ++ [key]) (← endLine? rest)
    | '[' :: rest =>
      let ((dots, key), rest) ← readKey rest
      let ']' :: rest := rest | none
      readLines fuel (← Entries.open? entries dots key) (dots ++ [key]) (← endLine? rest)
    | '\n' :: rest => readLines fuel entries path rest
    | '\r' :: '\n' :: rest => readLines fuel entries path rest
    | '#' :: rest => readLines fuel entries path (← endLine? ('#' :: rest))
    | rest =>
      let (entries, rest) ← readEntry fuel depthLimit entries path rest
      readLines fuel entries path (← endLine? rest)

/-- The meaning of a document.  A byte order mark before it is passed over. -/
def parse? (text : String) : Option Datum :=
  let cs :=
    match text.toList with
    | '\ufeff' :: cs => cs
    | cs => cs
  (readLines (4 * cs.length + 4) [] [] cs).map fun entries => .table (entriesToData entries)

end TimeSeries.Document
