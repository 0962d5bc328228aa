import TimeSeries.LogFilter.FieldMatch
import TimeSeries.LogFilter.Level
import TimeSeries.Text.Blank
import TimeSeries.Text.Slice

/-!
# Directives

A directive says from which level on events are logged.  It is written as

    target[span{field}]=level

where all parts may be missing.  Without a level everything is logged; without a target
it is about all targets.  A single word is a level if there is one of this name, and a
target otherwise.

The blanks around a directive belong to it, but do not count when its parts are told
apart: where a part begins and ends is found in the text without these blanks, and the
part is cut from the text with them.
-/

namespace TimeSeries

/-- A level for the events of a target, or of all targets, that happen in a span with a
name and a field, if these are asked for. -/
structure Directive where
  target? : Option String
  span? : Option String
  field? : Option FieldMatch
  level : LogLevel
deriving DecidableEq

namespace Directive

/-- Does only the place of an event in the program decide whether `d` is about it? -/
def isStatic (d : Directive) : Bool := d.span?.isNone && d.field?.all (·.value?.isNone)

/-- Does the span that an event happens in decide, too, whether `d` is about it? -/
def isDynamic (d : Directive) : Bool := d.span?.isSome || d.field?.isSome

/-! ### Text -/

/-- The text of the span and the field of `d`. -/
def scopeText (d : Directive) : String :=
  if d.isDynamic then
    let field := (d.field?.map fun field => "\x7b" ++ field.text ++ "\x7d").getD ""
    "[" ++ d.span?.getD "" ++ field ++ "]"
  else ""

/-- The text of the directive `d`. -/
def text (d : Directive) : String :=
  if d.target?.isSome || d.isDynamic then
    d.target?.getD "" ++ d.scopeText ++ "=" ++ d.level.name
  else d.level.name

/-! ### Reading -/

/-- May a target begin with `c`? -/
def startsTarget (c : Char) : Bool := Text.isAlphanumeric c || c = '_' || c = ':' || c = '-'

/-- Reads the level that is written in `text` from the place `start` on. -/
def levelFrom? (text : List Char) (start : Nat) : Option LogLevel := do
  match ← Text.suffix? start text with
  | [] => return .trace
  | cs => LogLevel.ofText? (String.ofList cs)

/-- Reads what follows the closing bracket before the place `start` of `text`. -/
def levelAfter? (text : List Char) (start : Nat) (rest : List Char) : Option LogLevel :=
  match rest with
  | [] => some .trace
  | '=' :: _ => levelFrom? text (start + 1)
  | _ => none

/-- Reads what follows the opening bracket before the place `start` of `text`. -/
def ofScope? (text : List Char) (target? : Option String) (start : Nat) (rest : List Char) :
    Option Directive := do
  let isEnd (c : Char) : Bool := c = ']' || c = '\x7b'
  let stop := start + Text.width (rest.takeWhile (!isEnd ·))
  let span := String.ofList (← Text.slice? start stop text)
  match rest.dropWhile (!isEnd ·) with
  | ']' :: rest =>
    return ⟨target?, some span, none, ← levelAfter? text (stop + 1) rest⟩
  | _ :: rest =>
    let close := stop + 1 + Text.width (rest.takeWhile (· ≠ '\x7d'))
    let '\x7d' :: ']' :: rest := rest.dropWhile (· ≠ '\x7d') | none
    let field := String.ofList (← Text.slice? (stop + 1) close text)
    if field.isEmpty then none
    else
      let span? := if span.isEmpty then none else some span
      return ⟨target?, span?, some (← FieldMatch.ofText? field),
        ← levelAfter? text (close + 2) rest⟩
  | [] => none

/-- Reads the directive `text`. -/
def ofText? (text : String) : Option Directive := do
  let cs := text.toList
  match Text.trim cs with
  | [] => none
  | '[' :: rest => ofScope? cs none 1 rest
  | c :: rest =>
    if !startsTarget c then none
    else
      let isEnd (c : Char) : Bool := c = '=' || c = '['
      let stop := Text.width ((c :: rest).takeWhile (!isEnd ·))
      match (c :: rest).dropWhile (!isEnd ·) with
      | '=' :: _ =>
        let target := String.ofList (← Text.slice? 0 stop cs)
        return ⟨some target, none, none, ← levelFrom? cs (stop + 1)⟩
      | _ :: rest =>
        let target := String.ofList (← Text.slice? 0 stop cs)
        ofScope? cs (some target) (stop + 1) rest
      | [] =>
        match LogLevel.ofText? text with
        | some level => return ⟨none, none, none, level⟩
        | none => return ⟨some text, none, none, .trace⟩

/-! ### Order -/

/-- The more specific directives are the greater ones.  A target of more bytes is more
specific than one of fewer, and any target than none; then a span counts, and then a
field.  Directives that are equally specific go by the alphabet. -/
instance : Ord Directive where
  compare a b :=
    (compare (a.target?.map String.utf8ByteSize) (b.target?.map String.utf8ByteSize)).then <|
      (compare a.span?.isSome b.span?.isSome).then <|
        (compare a.field?.isSome b.field?.isSome).then <|
          (compare a.target? b.target?).then <|
            (compare a.span? b.span?).then (compare a.field? b.field?)

/-- Puts `d` among `others`, the greatest first, in place of one that is about the same events. -/
def insert (d : Directive) (others : List Directive) : List Directive :=
  let kept := others.filter fun other => compare other d ≠ .eq
  let precedes (other : Directive) : Bool := compare other d = .gt
  kept.takeWhile precedes ++ d :: kept.dropWhile precedes

end Directive

end TimeSeries
