import Mathlib.Tactic.Common
import TimeSeries.Proofs.Packing.Codec

/-!
# Streams of samples

`Replays s index bits samples last` says that `bits` decode as `samples`, from the state
`s` at place `index` on, and end in the state `last`.  `Replay.bits` and `Replay.after`
are the bits that an encoder writes for samples, and the state it ends in.  There are
other bits for the same samples, but what an encoder wrote always replays.
-/

namespace TimeSeries

/-- Bits that decode as samples, from one state to another. -/
inductive Replays : Replay → Nat → List Bool → List Sample → Replay → Prop where
  | nil (s : Replay) (index : Nat) : Replays s index [] [] s
  | cons {s next last : Replay} {index : Nat} {bits rest : List Bool} {x : Sample}
      {samples : List Sample} (first : Reads (decode s index) bits (x, next))
      (later : Replays next (index + 1) rest samples last) :
      Replays s index (bits ++ rest) (x :: samples) last

namespace Replay

/-- The bits of samples that are written one after the other, from the state `s` and the first one
at `index`. -/
def bits (s : Replay) (index : Nat) : List Sample → List Bool
  | [] => []
  | x :: samples => fieldBits (s.plan index x).1 ++ (s.plan index x).2.bits (index + 1) samples

/-- The state after samples that are written one after the other, from the state `s`. -/
def after (s : Replay) (index : Nat) : List Sample → Replay
  | [] => s
  | x :: samples => (s.plan index x).2.after (index + 1) samples

theorem bits_append
    (s : Replay) (index : Nat) (first second : List Sample) :
  s.bits index (first ++ second)
    = s.bits index first ++ (s.after index first).bits (index + first.length) second
  := by
  induction first generalizing s index with
  | nil => rfl
  | cons x first ih =>
    rw [List.cons_append, bits, ih, bits, after, List.append_assoc, List.length_cons]
    congr 3
    omega

theorem after_append
    (s : Replay) (index : Nat) (first second : List Sample) :
  s.after index (first ++ second) = (s.after index first).after (index + first.length) second
  := by
  induction first generalizing s index with
  | nil => rfl
  | cons x first ih =>
    rw [List.cons_append, after, ih, after, List.length_cons]
    congr 1
    omega

end Replay

/-- The bits of `samples` replay as `samples`, and lead to the state after them. -/
theorem replays_bits
    (s : Replay) {index : Nat} (hindex : 1 ≤ index) (samples : List Sample) :
  Replays s index (s.bits index samples) samples (s.after index samples)
  := by
  induction samples generalizing s index with
  | nil => apply Replays.nil
  | cons x samples ih =>
    apply Replays.cons (reads_decode s hindex x)
    apply ih _ (by omega)

namespace Replays

variable {s middle last : Replay} {index : Nat} {bits : List Bool} {samples : List Sample}

theorem append
    {bits' : List Bool} {samples' : List Sample} (first : Replays s index bits samples middle)
    (second : Replays middle (index + samples.length) bits' samples' last) :
  Replays s index (bits ++ bits') (samples ++ samples') last
  := by
  induction first with
  | nil => apply second
  | cons hread _ ih =>
    rw [List.append_assoc]
    apply Replays.cons hread
    apply ih
    rwa [List.length_cons, Nat.add_comm _ 1, ← Nat.add_assoc] at second

/-- If `bits` replay as `samples`, then with the fields of `x` behind them they replay as
`samples ++ [x]`. -/
theorem snoc
    (first : Replays s index bits samples middle) (hindex : 1 ≤ index) (x : Sample) :
  Replays s index (bits ++ fieldBits (middle.plan (index + samples.length) x).1) (samples ++ [x])
    (middle.plan (index + samples.length) x).2
  := by
  apply first.append
  have hsingle := replays_bits middle (show 1 ≤ index + samples.length by omega) [x]
  rwa [Replay.bits, Replay.bits, Replay.after, Replay.after, List.append_nil] at hsingle

/-- The state `last` remembers the last sample, or what `s` remembers if there is none. -/
theorem last_timestamp
    (h : Replays s index bits samples last) :
  last.timestamp = (samples.getLast?.map Sample.timestamp).getD s.timestamp
  := by
  induction h with
  | nil => rfl
  | cons hread _ ih =>
    have hfollows := hread.gives (gives_decode _ _)
    rw [ih, List.getLast?_cons, hfollows.timestamp]
    cases List.getLast? _ with
    | none => rfl
    | some x => rfl

/-- The window of `last` is that of `s` unless a new one was opened. -/
theorem last_window
    (h : Replays s index bits samples last) :
  last.window = s.window ∨ last.window.Open
  := by
  induction h with
  | nil =>
    left
    rfl
  | cons hread _ ih =>
    have hfollows := hread.gives (gives_decode _ _)
    rcases ih with ih | ih
    · rw [ih]
      apply hfollows.window
    · right
      apply ih

/-- If `bits` replay as `samples`, each sample takes at least two of them. -/
theorem two_mul_length_le
    (h : Replays s index bits samples last) :
  2 * samples.length ≤ bits.length
  := by
  induction h with
  | nil => apply Nat.le_refl
  | @cons _ _ _ index bits _ _ _ hread _ ih =>
    have hleast : 2 ≤ leastSampleBits index := by
      rw [leastSampleBits]
      split <;> decide
    have hmoves := (hread.length_mem (moves_decode _ _)).1
    rw [List.length_append, List.length_cons]
    omega

end Replays

end TimeSeries
