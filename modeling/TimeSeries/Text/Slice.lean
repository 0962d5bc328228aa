import TimeSeries.Instances

/-!
# Slices

Parts of a text whose ends are given as numbers of bytes in UTF-8.  A place within a
character is no place to cut.

`cut?_width` says that cutting after the bytes of some characters gives these
characters.
-/

namespace TimeSeries.Text

/-- The number of bytes of the characters `cs`. -/
def width (cs : List Char) : Nat := (cs.map Char.utf8Size).sum

/-- The characters of the first `n` bytes and the ones after them. -/
def cut? (n : Nat) : List Char → Option (List Char × List Char)
  | [] => if n = 0 then some ([], []) else none
  | c :: cs =>
    if n = 0 then some ([], c :: cs)
    else if n < c.utf8Size then none
    else (cut? (n - c.utf8Size) cs).map fun (front, rest) => (c :: front, rest)

/-- The characters from the byte `start` up to the byte `stop`. -/
def slice? (start stop : Nat) (cs : List Char) : Option (List Char) := do
  let (_, rest) ← cut? start cs
  let (slice, _) ← cut? (stop - start) rest
  return slice

/-- The characters from the byte `start` on. -/
def suffix? (start : Nat) (cs : List Char) : Option (List Char) := do
  let (_, rest) ← cut? start cs
  return rest

/-- If as many bytes are cut off `front ++ rest` as `front` has, this gives `front`. -/
theorem cut?_width
    (front rest : List Char) :
  cut? (width front) (front ++ rest) = some (front, rest)
  := by
  induction front with
  | nil => cases rest <;> simp [width, cut?]
  | cons c front ih =>
    have hc := c.utf8Size_pos
    have hn : width (c :: front) = c.utf8Size + width front := by simp [width]
    rw [List.cons_append, cut?, hn, if_neg (by omega), if_neg (by omega),
      Nat.add_sub_cancel_left, ih]
    rfl

end TimeSeries.Text
