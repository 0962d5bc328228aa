import TimeSeries.Pattern.Atom
import TimeSeries.Pattern.Row

/-!
# Brackets

Brackets hold the characters that may stand at a place: single ones, ranges, classes
and other brackets.  Between items there may be the operators `&&`, `--` and `~~`.  A
dash, or a closing bracket, that comes first stands for itself.
-/

namespace TimeSeries.Pattern

/-- The names of the classes of ASCII characters. -/
def classNames : List String :=
  ["alnum", "alpha", "ascii", "blank", "cntrl", "digit", "graph", "lower", "print", "punct",
    "space", "upper", "word", "xdigit"]

/-- Reads the name of a class, up to the bracket that closes it. -/
def readClassName (cs : List Char) : Option (List Char) :=
  match cs.dropWhile (· ≠ ':') with
  | ':' :: ']' :: rest =>
    if classNames.contains (String.ofList (cs.takeWhile (· ≠ ':'))) then some rest else none
  | _ => none

/-- Reads a class with a name after its opening bracket, and tells whether all but its
characters are meant. -/
def readClass : List Char → Option (Bool × List Char)
  | ':' :: '^' :: cs => (readClassName cs).map (true, ·)
  | ':' :: cs => (readClassName cs).map (false, ·)
  | _ => none

/-- Can a class with a name stand in brackets under the flags `f`? -/
def isClassAllowed (f : Flags) (negated : Bool) : Bool :=
  if f.unicode then !f.caseless else !negated

/-- Reads a character, a class or a range from `cs`.  Ranges go upwards. -/
def readItem (f : Flags) (cs : List Char) : Option (List Char) := do
  let (first, rest) ← Atom.read f cs
  if !first.isAllowedInBrackets f then none
  else
    match f.skip rest with
    | '-' :: after =>
      if f.peek after = some ']' || f.peek after = some '-' then return '-' :: after
      else
        let (last, rest) ← Atom.read f (f.skip after)
        match first, last with
        | .literal low _, .literal high _ =>
          if last.isAllowedInBrackets f && low ≤ high then return rest else none
        | _, _ => none
    | rest => return rest

/-- What was read in brackets: the depth of what is before the last operator, and the
items after it. -/
structure Operands where
  left? : Option Nat
  items : Row

namespace Operands

/-- Nothing yet. -/
def empty : Operands := ⟨none, .empty⟩

/-- The depth of what was read in `o`. -/
def depth (o : Operands) : Nat :=
  match o.left? with
  | none => o.items.depth
  | some left => max left o.items.depth + 1

/-- Adds an item of the given `depth`. -/
def push (o : Operands) (depth : Nat) : Operands := { o with items := o.items.push depth }

/-- Adds an operator. -/
def operate (o : Operands) : Operands := ⟨some o.depth, .empty⟩

end Operands

/-- Where in brackets something stands: at the first item, after dashes that came first,
or anywhere else. -/
inductive Place where
  | start
  | dashes
  | inside

/-- Reads the sign that turns brackets into all but their characters, if there is one. -/
def readNegation (f : Flags) (cs : List Char) : Option (List Char) :=
  match f.skip cs with
  | '^' :: rest => if f.unicode then some rest else none
  | rest => some rest

/-- Reads what is in brackets, behind what was read in `o`, and the bracket that closes them.  Gives
the depth of the brackets. -/
def readBrackets (fuel : Nat) (f : Flags) (place : Place) (o : Operands) (cs : List Char) :
    Option (Nat × List Char) :=
  match fuel with
  | 0 => none
  | fuel + 1 =>
    let single (c : Char) (place : Place) (rest : List Char) : Option (Nat × List Char) :=
      if (Atom.literal c false).isAllowedInBrackets f then
        readBrackets fuel f place (o.push 0) rest
      else none
    match place, f.skip cs with
    | _, [] => none
    | .start, '-' :: rest | .dashes, '-' :: rest => single '-' .dashes rest
    | .start, ']' :: rest => single ']' .inside rest
    | _, ']' :: rest => some (o.depth + 1, rest)
    | _, '&' :: '&' :: rest | _, '-' :: '-' :: rest | _, '~' :: '~' :: rest =>
      readBrackets fuel f .inside o.operate rest
    | _, '[' :: inner =>
      match readClass inner with
      | some (negated, rest) =>
        if isClassAllowed f negated then readBrackets fuel f .inside (o.push 0) rest else none
      | none => do
        let (depth, rest) ← readBrackets fuel f .start .empty (← readNegation f inner)
        readBrackets fuel f .inside (o.push depth) rest
    | _, rest => do readBrackets fuel f .inside (o.push 0) (← readItem f rest)

end TimeSeries.Pattern
