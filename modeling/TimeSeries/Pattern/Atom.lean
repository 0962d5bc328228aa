import TimeSeries.Pattern.Flags
import TimeSeries.Text.Number

/-!
# Atoms of patterns

The smallest parts of a pattern: characters, which may be written with a backslash, the
classes `\d`, `\s` and `\w`, and places in a text.

A pattern matches whole characters, so that a byte beyond ASCII, and a class that has
such bytes, are no atoms.  Nothing is known about the characters beyond ASCII but their
order: with the flag `u` there are no classes, no boundaries of words, and no cases.
-/

namespace TimeSeries.Pattern

/-- A smallest part of a pattern. -/
inductive Atom where
  /-- A character that stands for itself; tells whether it is written as a byte. -/
  | literal (c : Char) (isByte : Bool)
  /-- A class of characters, or all that are not in it. -/
  | category (negated : Bool)
  /-- The start or the end of a line or a text. -/
  | edge
  /-- A place that depends on where words begin and end. -/
  | boundary
deriving DecidableEq

namespace Atom

/-- Can an atom stand in a pattern under the flags `f`? -/
def isAllowed (f : Flags) : Atom → Bool
  | literal c isByte => if f.unicode then !f.caseless else !isByte || c.toNat < 128
  | category negated => !f.unicode && !negated
  | edge => true
  | boundary => !f.unicode

/-- Can an atom stand in brackets under the flags `f`? -/
def isAllowedInBrackets (f : Flags) : Atom → Bool
  | literal c _ => if f.unicode then !f.caseless else c.toNat < 128
  | category negated => !f.unicode && !negated
  | edge => false
  | boundary => false

/-- The atom that a backslash makes of `c`. -/
def ofEscape? (c : Char) : Option Atom :=
  match c with
  | 'd' | 's' | 'w' => some (category false)
  | 'D' | 'S' | 'W' => some (category true)
  | 'A' | 'z' => some edge
  | 'b' | 'B' | '<' | '>' => some boundary
  | 'a' => some (literal '\x07' false)
  | 'f' => some (literal '\x0c' false)
  | 't' => some (literal '\t' false)
  | 'n' => some (literal '\n' false)
  | 'r' => some (literal '\r' false)
  | 'v' => some (literal '\x0b' false)
  | c => if c.toNat < 128 && !c.isAlphanum then some (literal c false) else none

/-- Splits off `count` characters, which may have blanks before them. -/
def take? (f : Flags) : (count : Nat) → List Char → Option (List Char × List Char)
  | 0, cs => some ([], cs)
  | count + 1, cs =>
    match f.skip cs with
    | [] => none
    | c :: cs => (take? f count cs).map fun (front, rest) => (c :: front, rest)

/-- Reads the code of a character from `cs`, which has `count` digits. -/
def readCode (f : Flags) (count : Nat) (isByte : Bool) (cs : List Char) :
    Option (Atom × List Char) := do
  let (digits, rest) ← take? f count cs
  return (literal (← Text.coded? digits) isByte, rest)

/-- Reads an atom.  Characters that mean something else have been read before. -/
def read (f : Flags) : List Char → Option (Atom × List Char)
  | [] => none
  | ['\\'] => none
  | '\\' :: 'x' :: cs => readCode f 2 true cs
  | '\\' :: 'u' :: cs => readCode f 4 false cs
  | '\\' :: 'U' :: cs => readCode f 8 false cs
  | '\\' :: c :: cs => (ofEscape? c).map (·, cs)
  | c :: cs => some (literal c false, cs)

end Atom

end TimeSeries.Pattern
