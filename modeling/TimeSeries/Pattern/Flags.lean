import TimeSeries.Text.Blank

/-!
# Flags of patterns

Flags change how the rest of a pattern is read, up to the end of the group that they
stand in.  Some of them only change what a pattern matches; they can be written, but
make no difference here.
-/

namespace TimeSeries.Pattern

/-- The flags that decide what can stand in a pattern. -/
structure Flags where
  /-- Letters match in any case, `i`. -/
  caseless : Bool
  /-- The pattern is about characters and not about bytes, `u`. -/
  unicode : Bool
  /-- Blanks and comments are passed over, `x`. -/
  spaced : Bool
deriving DecidableEq

/-- The letters of the flags, and the minus sign that switches off those after it. -/
def flagLetters : List Char := ['-', 'i', 'm', 's', 'U', 'u', 'R', 'x']

/-- Drops blanks and comments, of which the one that was begun if `inComment` holds goes to the end
of its line. -/
def dropBlank (inComment : Bool) : List Char → List Char
  | [] => []
  | c :: cs =>
    if inComment then dropBlank (c ≠ '\n') cs
    else if Text.isBlank c then dropBlank false cs
    else if c = '#' then dropBlank true cs
    else c :: cs

namespace Flags

/-- The flags at the start of a pattern. -/
def standard : Flags := ⟨false, true, false⟩

/-- The flags `f` after `letter`, which switches its flag on or off. -/
def set (f : Flags) (letter : Char) (value : Bool) : Flags :=
  match letter with
  | 'i' => { f with caseless := value }
  | 'u' => { f with unicode := value }
  | 'x' => { f with spaced := value }
  | _ => f

/-- Goes to the next character of `cs` that counts. -/
def skip (f : Flags) (cs : List Char) : List Char :=
  if f.spaced then dropBlank false cs else cs

/-- The character of `cs` that is taken to be the next one after a dash.  It is looked for past
blanks and one number sign, and is the very next one if there is none. -/
def peek (f : Flags) (cs : List Char) : Option Char :=
  if f.spaced then
    let dropBlanks (cs : List Char) : List Char := cs.dropWhile Text.isBlank
    let ahead :=
      match dropBlanks cs with
      | '#' :: rest => dropBlanks rest
      | rest => rest
    ahead.head?.or cs.head?
  else cs.head?

/-- Reads flags, of which `letters` were read, up to the colon before a group or the bracket that
closes them.  Tells whether there is a group.  No letter is written twice, and the minus sign has to
be before one. -/
def read (f : Flags) (letters : List Char) : List Char → Option (Flags × Bool × List Char)
  | [] => none
  | c :: cs =>
    if c = ':' then if letters.head? = some '-' then none else some (f, true, cs)
    else if c = ')' then
      if letters.isEmpty || letters.head? = some '-' then none else some (f, false, cs)
    else if flagLetters.contains c && !letters.contains c then
      read (f.set c (!letters.contains '-')) (c :: letters) cs
    else none

end Flags

end TimeSeries.Pattern
