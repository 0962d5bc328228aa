/-!
# Encodings

A chunk keeps its samples as they are, or packed into bits.
-/

namespace TimeSeries

/-- The ways in which a chunk keeps its samples. -/
inductive Encoding where
  | plain
  | packed
deriving DecidableEq

namespace Encoding

/-- Chunks are packed unless stated otherwise. -/
instance : Inhabited Encoding := ⟨packed⟩

/-- The number that marks an encoding in a snapshot, where `ofTag?` finds it. -/
def tag : Encoding → UInt64
  | plain => 0
  | packed => 1

/-- The encoding that the number `tag` marks, if it is one of `Encoding.tag`. -/
def ofTag? (tag : UInt64) : Option Encoding :=
  if tag = 0 then some plain else if tag = 1 then some packed else none

/-- The name of an encoding. -/
def name : Encoding → String
  | plain => "regular"
  | packed => "compressed"

/-- The encoding of `name`, which has to be in lower case.  The plain one has two names. -/
def ofName? (name : String) : Option Encoding :=
  if name == "regular" || name == "uncompressed" then some plain
  else if name == "compressed" then some packed
  else none

/-- The encoding whose name is `text`, in upper or lower case. -/
def ofText (text : String) : Except String Encoding :=
  match ofName? text.toLower with
  | some encoding => .ok encoding
  | none => .error ("unknown chunk encoding '" ++ text.toLower ++ "'")

/-- A number `t` marks the encoding `e` exactly when it is the tag of `e`. -/
theorem ofTag?_eq_some_iff
    (t : UInt64) (e : Encoding) :
  ofTag? t = some e ↔ t = e.tag
  := by
  unfold ofTag?
  by_cases h₀ : t = 0
  · subst h₀
    cases e <;> simp [tag]
  · by_cases h₁ : t = 1
    · subst h₁
      cases e <;> simp [tag]
    · cases e <;> simp [tag, h₀, h₁]

end Encoding

end TimeSeries
