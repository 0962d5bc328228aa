import TimeSeries.Pattern.Brackets
import TimeSeries.Text.Alphanumeric

/-!
# Patterns

A pattern is a regular expression.  Only its form matters here: which texts are
patterns, not what they match.

A repetition has to come after something to repeat; groups and brackets have to be
closed, and no two groups have the same name; what the flags do not allow cannot stand
in a pattern, and braces cannot at all.  No pattern is deeper than `depthLimit`.
-/

namespace TimeSeries.Pattern

/-! ### Choices -/

/-- What was read of a group: the depth of the deepest choice before the last bar, the
parts after it, and the depth of the last part, if it can be repeated. -/
structure Choices where
  earlier? : Option Nat
  parts : Row
  operand? : Option Nat

namespace Choices

/-- Nothing yet. -/
def empty : Choices := ⟨none, .empty, none⟩

/-- The depth of what was read in `s`. -/
def depth (s : Choices) : Nat :=
  match s.earlier? with
  | none => s.parts.depth
  | some earlier => max earlier s.parts.depth + 1

/-- Adds a part of the given `depth`. -/
def push (s : Choices) (depth : Nat) : Choices :=
  { s with parts := s.parts.push depth, operand? := some depth }

/-- Adds flags, which are a part that cannot be repeated. -/
def pushFlags (s : Choices) : Choices :=
  { s with parts := s.parts.push 0, operand? := none }

/-- Repeats the last part. -/
def repeat? (s : Choices) : Option Choices :=
  s.operand?.map fun depth =>
    { s with
      parts := { s.parts with deepest := max s.parts.deepest (depth + 1) }
      operand? := some (depth + 1) }

/-- Adds a bar. -/
def next (s : Choices) : Choices :=
  ⟨some (max (s.earlier?.getD 0) s.parts.depth), .empty, none⟩

end Choices

/-! ### Groups -/

/-- Is this the name of a group? -/
def isGroupName : List Char → Bool
  | [] => false
  | c :: cs =>
    (c = '_' || Text.isAlphabetic c) &&
      cs.all fun c => ['_', '.', '[', ']'].contains c || Text.isAlphanumeric c

/-- What comes after an opening bracket: flags for the rest of the group around it, or a
group with the flags it begins with. -/
inductive Opening where
  | flags (f : Flags)
  | group (f : Flags)

/-- Reads the name of a group, which must not be one of `names`. -/
def readGroupName (names : List (List Char)) (cs : List Char) :
    Option (List (List Char) × List Char) :=
  let name := cs.takeWhile (· ≠ '>')
  match cs.dropWhile (· ≠ '>') with
  | [] => none
  | _ :: rest =>
    if isGroupName name && !names.contains name then some (name :: names, rest) else none

/-- Reads what comes after an opening bracket, where `names` are those of the groups so far. -/
def readOpening (f : Flags) (names : List (List Char)) (cs : List Char) :
    Option (Opening × List (List Char) × List Char) :=
  match f.skip cs with
  | '?' :: 'P' :: '<' :: rest | '?' :: '<' :: rest => do
    let (names, rest) ← readGroupName names rest
    return (.group f, names, rest)
  | '?' :: rest => do
    let (f, isGroup, rest) ← f.read [] rest
    return (if isGroup then .group f else .flags f, names, rest)
  | rest => some (.group f, names, rest)

/-! ### Expressions -/

/-- Reads an expression behind what was read in `s`, up to the end or the bracket that closes the
group it is in.  Gives its depth and the `names` of groups that were read up to there. -/
def readExpression (fuel : Nat) (f : Flags) (names : List (List Char)) (s : Choices)
    (cs : List Char) : Option (Nat × List (List Char) × List Char) :=
  match fuel with
  | 0 => none
  | fuel + 1 =>
    let repeated (rest : List Char) : Option (Nat × List (List Char) × List Char) := do
      readExpression fuel f names (← s.repeat?) rest
    match f.skip cs with
    | [] => some (s.depth, names, [])
    | ')' :: rest => some (s.depth, names, ')' :: rest)
    | '|' :: rest => readExpression fuel f names s.next rest
    | '(' :: rest => do
      match ← readOpening f names rest with
      | (.flags f, names, rest) => readExpression fuel f names s.pushFlags rest
      | (.group inner, names, rest) =>
        let (depth, names, ')' :: rest) ← readExpression fuel inner names .empty rest | none
        readExpression fuel f names (s.push (depth + 1)) rest
    | '[' :: rest => do
      let (depth, rest) ← readBrackets fuel f .start .empty (← readNegation f rest)
      readExpression fuel f names (s.push depth) rest
    | '*' :: '?' :: rest | '+' :: '?' :: rest | '?' :: '?' :: rest => repeated rest
    | '*' :: rest | '+' :: rest | '?' :: rest => repeated rest
    | '\x7b' :: _ => none
    | '.' :: rest => if f.unicode then readExpression fuel f names (s.push 0) rest else none
    | '^' :: rest | '$' :: rest => readExpression fuel f names (s.push 0) rest
    | rest => do
      let (atom, rest) ← Atom.read f rest
      if atom.isAllowed f then readExpression fuel f names (s.push 0) rest else none

/-- The greatest depth of a pattern. -/
def depthLimit : Nat := 250

/-- Is `text` a pattern? -/
def isPattern (text : String) : Bool :=
  match readExpression (text.length + 2) .standard [] .empty text.toList with
  | some (depth, _, []) => depth ≤ depthLimit
  | _ => false

end TimeSeries.Pattern
