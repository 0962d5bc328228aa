import TimeSeries.Proofs.Packing.RoundTrip
import TimeSeries.Proofs.Packing.Writing

/-!
# Samples coded in place

A decoder keeps its state where it is and changes it field by field: the window once a new one
has been read, the rest at the end.  An encoder plans all fields of a sample, looks at the room
there is, writes the fields one by one and then changes its state.  Both are guarded here, and
do what decoding and encoding do that only give the state afterwards.

From this follows what is known of any bits, whatever state they are decoded in: a sample comes
out of a bounded number of bits, or a fault that leaves the state as it was, and the reader stays
within its limit.  And it follows that a sample has a cost of its own, which decides alone
whether a buffer takes it whole or not at all.
-/

namespace TimeSeries

/-! ### States in two parts -/

section Parts

variable {ε σ τ α β : Type}

/-- Works with `m` on the first part of a state. -/
def onFirst (m : EStateM ε σ α) : EStateM ε (σ × τ) α := fun (s, t) =>
  match m s with
  | .ok a s => .ok a (s, t)
  | .error e s => .error e (s, t)

/-- The second part of a state. -/
def second : EStateM ε (σ × τ) τ := fun (s, t) => .ok t (s, t)

/-- Changes the second part of a state by `f`. -/
def modifySecond (f : τ → τ) : EStateM ε (σ × τ) PUnit := fun (s, t) => .ok ⟨⟩ (s, f t)

/-- Starting with `t` as the second part, `g` does what `m` does to the first part.  A result of
`m` comes with the second part that there is then; a fault leaves it at `t`. -/
def Stores (t : τ) (g : EStateM ε (σ × τ) α) (m : EStateM ε σ (α × τ)) : Prop :=
  ∀ s, g (s, t) =
    match m s with
    | .ok (a, t') s' => .ok a (s', t')
    | .error e s' => .error e (s', t)

namespace Stores

variable {t : τ} {g : EStateM ε (σ × τ) α} {m : EStateM ε σ (α × τ)}

theorem pure
    (t : τ) (a : α) :
  Stores t (Pure.pure a : EStateM ε (σ × τ) α) (Pure.pure (a, t))
  := by
  intro s
  rfl

theorem ite
    {c : Prop} [Decidable c] {g' : EStateM ε (σ × τ) α} {m' : EStateM ε σ (α × τ)}
    (h : Stores t g m) (h' : Stores t g' m') :
  Stores t (if c then g else g') (if c then m else m')
  := by
  split
  · apply h
  · apply h'

/-- If `next` stores what `next'` gives, so does it behind a check, which looks at neither part. -/
theorem check
    {c : Prop} [Decidable c] {e : ε} {next : PUnit → EStateM ε (σ × τ) α}
    {next' : PUnit → EStateM ε σ (α × τ)} (h : Stores t (next ⟨⟩) (next' ⟨⟩)) :
  Stores t (if c then MonadExcept.throw e >>= next else next ⟨⟩)
    (if c then MonadExcept.throw e >>= next' else next' ⟨⟩)
  := by
  apply ite
  · intro s
    rfl
  · apply h

/-- If `next` stores what `next'` gives, so does it behind `m`, which works on the first part. -/
theorem bind
    {m : EStateM ε σ β} {next : β → EStateM ε (σ × τ) α} {next' : β → EStateM ε σ (α × τ)}
    (h : ∀ b, Stores t (next b) (next' b)) :
  Stores t (onFirst m >>= next) (m >>= next')
  := by
  intro s
  simp only [Bind.bind, EStateM.bind, onFirst]
  cases m s with
  | error e s' => rfl
  | ok b s' => apply h b s'

theorem last
    (m : EStateM ε σ α) :
  Stores t (onFirst m) (m >>= fun a => Pure.pure (a, t))
  := by
  intro s
  simp only [Bind.bind, EStateM.bind, onFirst]
  cases m s <;> rfl

theorem second
    {next : τ → EStateM ε (σ × τ) α} (h : Stores t (next t) m) :
  Stores t (TimeSeries.second >>= next) m
  := h

/-- If the second part is changed by `f` once `g` has succeeded, nothing fails any more. -/
theorem modify
    (h : Stores t g m) (f : α → τ → τ) (result : α → β) :
  Stores t (do
      let a ← g
      modifySecond (f a)
      return result a)
    ((fun p => (result p.1, f p.1 p.2)) <$> m)
  := by
  intro s
  simp only [Bind.bind, EStateM.bind, Functor.map, EStateM.map, h s]
  cases m s <;> rfl

end Stores

end Parts

/-! ### Decoding in place -/

namespace Guarded

/-- Reads a difference of values, and stores the window that it is in if that is a new one. -/
def readDifferenceInPlace (index : Nat) : Guarded PackingError (BitReader × Replay) UInt64 := do
  if !(← onFirst readBit) then return 0
  if !(← onFirst readBit) then
    let s ← second
    return ← onFirst (readSame s.window index)
  let (difference, window) ← onFirst (readNew index)
  modifySecond fun s => { s with window }
  return difference

/-- Reads the sample at place `index` of a stream, and stores the state after it. -/
def decodeInPlace (index : Nat) : Guarded PackingError (BitReader × Replay) Sample := do
  if index = 0 then throw (.inr (.invalid .firstSample))
  let s ← second
  let delta ← if index = 1 then onFirst (readSigned 64) else
    onFirst ((s.delta + ·) <$> readDelta)
  let difference ← readDifferenceInPlace index
  let sample : Sample := ⟨s.timestamp + delta, ⟨s.value.bits ^^^ difference⟩⟩
  modifySecond fun s => { s with timestamp := sample.timestamp, delta, value := sample.value }
  return sample

theorem stores_readDifference
    (s : Replay) (index : Nat) :
  Stores s (readDifferenceInPlace index)
    ((fun p => (p.1, { s with window := p.2 })) <$> readDifference s.window index)
  := by
  rw [readDifference, map_bind]
  apply Stores.bind
  intro changed
  rw [apply_ite (Functor.map _)]
  apply Stores.ite
  · apply Stores.pure
  · rw [map_bind]
    apply Stores.bind
    intro opens
    rw [apply_ite (Functor.map _)]
    apply Stores.ite
    · apply Stores.second
      rw [map_bind]
      apply Stores.last
    · rw [map_eq_pure_bind]
      apply Stores.bind
      rintro ⟨difference, window⟩ r
      rfl

theorem stores_decode
    (s : Replay) (index : Nat) :
  Stores s (decodeInPlace index) (decode s index)
  := by
  have hvalue (delta : Int64) : Stores s (do
      let difference ← readDifferenceInPlace index
      let sample : Sample := ⟨s.timestamp + delta, ⟨s.value.bits ^^^ difference⟩⟩
      modifySecond fun s => { s with timestamp := sample.timestamp, delta, value := sample.value }
      return sample) (readValue s delta index) := by
    have hmodify := (stores_readDifference s index).modify
      (fun difference s' => { s' with
        timestamp := s.timestamp + delta, delta, value := ⟨s.value.bits ^^^ difference⟩ })
      (fun difference => (⟨s.timestamp + delta, ⟨s.value.bits ^^^ difference⟩⟩ : Sample))
    rw [← comp_map] at hmodify
    rwa [readValue, ← map_eq_pure_bind]
  rw [decodeInPlace, decode]
  apply Stores.check
  apply Stores.second
  apply Stores.ite
  · apply Stores.bind hvalue
  · apply Stores.bind hvalue

end Guarded

/-! ### Readers within their limits -/

section Keeping

variable {ε σ α β : Type}

/-- However `m` ends, what `I` says of the state before holds afterwards. -/
def Keeps (I : σ → Prop) (m : EStateM ε σ α) : Prop :=
  ∀ s, I s →
    match m s with
    | .ok _ s' => I s'
    | .error _ s' => I s'

namespace Keeps

variable {I : σ → Prop} {m n : EStateM ε σ α}

theorem pure
    (a : α) :
  Keeps I (Pure.pure a : EStateM ε σ α)
  := by
  intro s hs
  apply hs

theorem throw
    (e : ε) :
  Keeps I (MonadExcept.throw e : EStateM ε σ α)
  := by
  intro s hs
  apply hs

theorem bind
    {f : α → EStateM ε σ β} (hm : Keeps I m) (hf : ∀ a, Keeps I (f a)) :
  Keeps I (m >>= f)
  := by
  intro s hs
  have hm := hm s hs
  simp only [Bind.bind, EStateM.bind]
  cases h : m s with
  | error e s' => rwa [h] at hm
  | ok a s' =>
    rw [h] at hm
    apply hf a s' hm

theorem map
    (f : α → β) (hm : Keeps I m) :
  Keeps I (f <$> m)
  := by
  rw [map_eq_pure_bind]
  apply hm.bind
  intro a
  apply pure

theorem ite
    {c : Prop} [Decidable c] (hm : Keeps I m) (hn : Keeps I n) :
  Keeps I (if c then m else n)
  := by
  split
  · apply hm
  · apply hn

theorem check
    {c : Prop} [Decidable c] {e : ε} {next : PUnit → EStateM ε σ α} (h : Keeps I (next ⟨⟩)) :
  Keeps I (if c then MonadExcept.throw e >>= next else next ⟨⟩)
  := by
  apply ite
  · apply (throw e).bind
    rintro ⟨⟩
    apply h
  · apply h

end Keeps

end Keeping

/-- The reader has moved on from `r`, and not past the limit. -/
def BitReader.Within (r r' : BitReader) : Prop :=
  ∃ width, r' = r.advance width ∧ r.position + width ≤ r.limit

section Within

variable (r : BitReader)

theorem keeps_readBit :
  Keeps r.Within BitReader.readBit
  := by
  rintro _ ⟨width, rfl, hlimit⟩
  rw [BitReader.readBit]
  by_cases hend : (r.advance width).atEnd = true
  · rw [if_pos hend]
    use width
  · rw [if_neg hend]
    rw [BitReader.atEnd, decide_eq_true_eq, Nat.not_le] at hend
    use width + 1, r.advance_advance width 1
    apply hend

theorem keeps_readBits
    (count : Nat) :
  Keeps r.Within (BitReader.readBits count)
  := by
  rintro _ ⟨width, rfl, hlimit⟩
  rw [BitReader.readBits]
  by_cases hwide : 64 < count
  · rw [if_pos hwide]
    use width
  · rw [if_neg hwide]
    by_cases hleft : (r.advance width).left < count
    · rw [if_pos hleft]
      use width
    · rw [if_neg hleft]
      use width + count, r.advance_advance width count
      simp only [BitReader.left, BitReader.advance] at hleft
      omega

theorem keeps_readDelta :
  Keeps r.Within readDelta
  := by
  have hsigned (width : Nat) : Keeps r.Within (readSigned width) := (keeps_readBits r width).map _
  rw [readDelta]
  -- One bit at each level tells whether the class is found.
  iterate 5
    apply (keeps_readBit r).bind
    intro bit
    apply Keeps.ite
    · first | apply hsigned | apply Keeps.pure
  apply hsigned

theorem keeps_readSame
    (w : Window) (index : Nat) :
  Keeps r.Within (w.readSame index)
  := by
  rw [Window.readSame]
  apply Keeps.check
  apply (keeps_readBits r _).bind
  intro raw
  apply Keeps.pure

theorem keeps_readNew
    (index : Nat) :
  Keeps r.Within (Window.readNew index)
  := by
  apply (keeps_readBits r 5).bind
  intro leading
  apply (keeps_readBits r 6).bind
  intro width
  apply Keeps.check
  apply (keeps_readBits r _).bind
  intro raw
  apply Keeps.pure

theorem keeps_readDifference
    (w : Window) (index : Nat) :
  Keeps r.Within (w.readDifference index)
  := by
  apply (keeps_readBit r).bind
  intro changed
  apply Keeps.ite
  · apply Keeps.pure
  · apply (keeps_readBit r).bind
    intro opens
    apply Keeps.ite
    · apply (keeps_readSame r w index).bind
      intro difference
      apply Keeps.pure
    · apply keeps_readNew

/-- However `decode s index` ends, the reader has not passed its limit. -/
theorem keeps_decode
    (s : Replay) (index : Nat) :
  Keeps r.Within (decode s index)
  := by
  have hvalue (delta : Int64) : Keeps r.Within (s.readValue delta index) := by
    apply (keeps_readDifference r _ _).bind
    intro x
    apply Keeps.pure
  rw [decode]
  apply Keeps.check
  apply Keeps.ite
  · apply ((keeps_readBits r 64).map _).bind hvalue
  · apply ((keeps_readDelta r).map _).bind hvalue

end Within

/-! ### Safety of decoding -/

/-- What may come of decoding the sample at place `index` in the state `s`, from the reader `r`
on. -/
inductive BitReader.Decodes (r : BitReader) (s : Replay) (index : Nat) :
    EStateM.Result (Abort ⊕ PackingError) (BitReader × Replay) Sample → Prop where
  /-- A sample is taken from bits that are left, and the state remembers it. -/
  | sample {x : Sample} {width : Nat} {next : Replay} (hleast : leastSampleBits index ≤ width)
      (hmost : width ≤ mostSampleBits index) (hlimit : r.position + width ≤ r.limit)
      (hfollows : s.Follows x next) : Decodes r s index (.ok x (r.advance width, next))
  /-- There is a fault in the bits, and the state is what it was. -/
  | fault {e : PackingError} {width : Nat} (hlimit : r.position + width ≤ r.limit) :
      Decodes r s index (.error (.inr e) (r.advance width, s))

/-- In a proper reader decoding in place ends as `decode s index` does, and does not abort. -/
theorem Guarded.decodeInPlace_eq
    {r : BitReader} (hr : r.Proper) (s : Replay) (index : Nat) :
  Guarded.decodeInPlace index (r, s)
    = match TimeSeries.decode s index r with
      | .ok (x, next) r' => .ok x (r', next)
      | .error e r' => .error (.inr e) (r', s)
  := by
  rw [Guarded.stores_decode s index r, (Guarded.agrees_decode s index).eq_unguarded hr, unguarded]
  cases TimeSeries.decode s index r <;> rfl

/-- Whatever the `bytes`, the `position` of the reader and the state `s` are, decoding in place ends
in a sample or in a fault of the bits, within the limit of the reader, and so does decoding. -/
theorem Guarded.decodes_decodeInPlace
    {bytes : Array UInt8} (hbytes : 8 * bytes.size + 64 < wordLimit) (limit : Nat)
    {position : Nat} (hposition : position ≤ (BitReader.upTo bytes limit).limit) (s : Replay)
    (index : Nat) :
  let r := (BitReader.upTo bytes limit).advance position
  r.Decodes s index (Guarded.decodeInPlace index (r, s))
    ∧ Guarded.decodeInPlace index (r, s)
      = match TimeSeries.decode s index r with
        | .ok (x, next) r' => .ok x (r', next)
        | .error e r' => .error (.inr e) (r', s)
  := by
  intro r
  have hlimit : r.position ≤ r.limit := by
    show 0 + position ≤ _
    rwa [Nat.zero_add]
  have hproper : r.Proper := by
    use hlimit
    apply Nat.lt_of_le_of_lt (Nat.add_le_add_right r.limit_le 64) hbytes
  have heq := decodeInPlace_eq hproper s index
  have hwithin := keeps_decode r s index r ⟨0, rfl, hlimit⟩
  have hmoves := moves_decode s index r
  have hgives := gives_decode s index r
  refine ⟨?_, heq⟩
  rw [heq]
  cases hdecode : TimeSeries.decode s index r with
  | ok p r' =>
    obtain ⟨x, next⟩ := p
    rw [hdecode] at hwithin
    obtain ⟨width, rfl, hwidth⟩ := hwithin
    obtain ⟨width', hleast, hmost, hsame⟩ := hmoves _ _ hdecode
    have hsame : width = width' := by
      have := congrArg BitReader.position hsame
      simpa only [BitReader.advance, Nat.add_left_cancel_iff] using this
    subst hsame
    apply BitReader.Decodes.sample hleast hmost hwidth (hgives _ _ hdecode)
  | error e r' =>
    rw [hdecode] at hwithin
    obtain ⟨width, rfl, hwidth⟩ := hwithin
    apply BitReader.Decodes.fault hwidth

/-- A case of `decodes_decodeInPlace`: a window that leaves out more bits than there are cannot be
used again. -/
theorem Guarded.decodes_decodeInPlace_wide :
  let r := (BitReader.upTo #[0b11101010] 7).advance 3
  let s : Replay := ⟨7, 1, ⟨5⟩, ⟨255, 255⟩⟩
  r.Decodes s 2 (Guarded.decodeInPlace 2 (r, s))
    ∧ Guarded.decodeInPlace 2 (r, s)
      = .error (.inr (.corrupted (.emptyWindow 2))) (r.advance 3, s)
  := by
  intro r s
  -- The bits say that the difference is as before, that the value is another, and that its
  -- window is the last one.
  have hbits : bitAt r.bytes 3 = false ∧ bitAt r.bytes 4 = true ∧ bitAt r.bytes 5 = false := by
    decide
  have hfirst : BitReader.readBit r = .ok (bitAt r.bytes 3) (r.advance 1) := rfl
  have hsecond : BitReader.readBit (r.advance 1) = .ok (bitAt r.bytes 4) (r.advance 2) := rfl
  have hthird : BitReader.readBit (r.advance 2) = .ok (bitAt r.bytes 5) (r.advance 3) := rfl
  have hdelta : TimeSeries.readDelta r = .ok 0 (r.advance 1) := by
    simp only [TimeSeries.readDelta, Bind.bind, EStateM.bind, hfirst, hbits]
    rfl
  have hsame : s.window.readSame 2 (r.advance 3)
      = .error (.corrupted (.emptyWindow 2)) (r.advance 3) := by
    rw [Window.readSame, if_pos (by decide)]
    rfl
  have hdifference : s.window.readDifference 2 (r.advance 1)
      = .error (.corrupted (.emptyWindow 2)) (r.advance 3) := by
    simp [Window.readDifference, Bind.bind, EStateM.bind, hsecond, hthird, hbits, hsame]
  have hdecode : TimeSeries.decode s 2 r = .error (.corrupted (.emptyWindow 2)) (r.advance 3) := by
    simp [TimeSeries.decode, Bind.bind, EStateM.bind, Functor.map, EStateM.map, hdelta,
      hdifference]
  have hbytes : 8 * (#[0b11101010] : Array UInt8).size + 64 < wordLimit := by decide
  have hposition : 3 ≤ (BitReader.upTo #[0b11101010] 7).limit := by decide
  obtain ⟨hdecodes, heq⟩ := decodes_decodeInPlace hbytes 7 hposition s 2
  use hdecodes
  rw [heq, hdecode]

/-! ### Encoding in place -/

/-- The most fields that a sample is planned as. -/
def maxFields : Nat := 6

/-- The `fields` of a sample that are planned so far, and how many bits they take. -/
structure Plan where
  fields : List Field
  total : Nat

/-- The plan of `fields`. -/
def Plan.of (fields : List Field) : Plan := ⟨fields, (fields.map Field.width).sum⟩

namespace Guarded

section Planning

variable {σ : Type}

/-- Adds the field `f` to `plan`. -/
def push (plan : Plan) (f : Field) : Guarded PackingError σ Plan := do
  require (plan.fields.length < maxFields) (.outOfBounds plan.fields.length maxFields)
  require (plan.total + f.width < wordLimit) (.overflow (plan.total + f.width))
  return ⟨plan.fields ++ [f], plan.total + f.width⟩

/-- Adds some more fields to `plan`. -/
def pushAll (plan : Plan) : List Field → Guarded PackingError σ Plan
  | [] => return plan
  | f :: fields => do
    let plan ← push plan f
    pushAll plan fields

/-- Adds the fields of `difference` to `plan`, and gives the window afterwards. -/
def pushDifference (plan : Plan) (w : Window) (difference : UInt64) :
    Guarded PackingError σ (Plan × Window) := do
  if difference = 0 then return (← pushAll plan [⟨0b0, 1⟩], w)
  let leading := min (leadingZeros difference) maxLeading
  let trailing := trailingZeros difference
  if w.leading.toNat ≤ leading ∧ w.trailing.toNat ≤ trailing then
    require (w.trailing.toNat < 64) (.shift w.trailing.toNat)
    return (← pushAll plan [⟨0b10, 2⟩, ⟨difference >>> w.trailing.toUInt64, w.width⟩], w)
  require (leading ≤ 64) (.underflow 64 leading)
  require (trailing ≤ 64 - leading) (.underflow (64 - leading) trailing)
  let meaningful := 64 - leading - trailing
  require (1 ≤ meaningful) (.underflow meaningful 1)
  require (trailing < 64) (.shift trailing)
  let next : Window := ⟨UInt8.ofNat leading, UInt8.ofNat trailing⟩
  return (← pushAll plan [⟨0b11, 2⟩, ⟨UInt64.ofNat leading, 5⟩,
    ⟨UInt64.ofNat (meaningful - 1), 6⟩, ⟨difference >>> next.trailing.toUInt64, meaningful⟩], next)

/-- Plans the sample at place `index` of a stream, and gives the window afterwards. -/
def plan (s : Replay) (index : Nat) (x : Sample) : Guarded PackingError σ (Plan × Window) := do
  let plan ← pushAll (.of []) (s.timestampFields index x.timestamp)
  pushDifference plan s.window (s.value.bits ^^^ x.value.bits)

end Planning

/-- Writes fields one after the other. -/
def writeAll : List Field → Guarded PackingError BitBuffer PUnit
  | [] => return ⟨⟩
  | f :: fields => do
    write f.value f.width
    writeAll fields

/-- Gives the number of bits that can still be written. -/
def room : Guarded PackingError BitBuffer Nat := do
  let b ← get
  require (b.length ≤ 8 * b.bytes.size) (.underflow (8 * b.bytes.size) b.length)
  return 8 * b.bytes.size - b.length

/-- Encodes the sample at place `index` of a stream, and stores the state after it. -/
def encodeInPlace (index : Nat) (x : Sample) :
    Guarded PackingError (BitBuffer × Replay) PUnit := do
  if index = 0 then throw (.inr (.invalid .firstSample))
  let s ← second
  let (plan, window) ← plan s index x
  let available ← onFirst room
  if available < plan.total then throw (.inr (.bufferFull plan.total available))
  onFirst (writeAll plan.fields)
  modifySecond fun s =>
    { timestamp := x.timestamp, delta := x.timestamp - s.timestamp, value := x.value, window }

/-! ### Plans -/

section Plans

variable {σ : Type} {fields : List Field}

theorem sum_width_le
    (h : ∀ f ∈ fields, f.width ≤ 64) :
  (fields.map Field.width).sum ≤ 64 * fields.length
  := by
  induction fields with
  | nil => apply Nat.le_refl
  | cons f fields ih =>
    obtain ⟨hf, hfields⟩ := List.forall_mem_cons.mp h
    have ih := ih hfields
    rw [List.map_cons, List.sum_cons, List.length_cons]
    omega

/-- If there are fewer than `maxFields`, the plan of `fields` takes one more `f`. -/
theorem push_of
    (hfew : fields.length < maxFields) (hwidth : ∀ f ∈ fields, f.width ≤ 64) {f : Field}
    (hf : f.width ≤ 64) :
  (push (.of fields) f : Guarded PackingError σ Plan) = pure (.of (fields ++ [f]))
  := by
  have hroom : (Plan.of fields).fields.length < maxFields := hfew
  have htotal : (Plan.of fields).total + f.width < wordLimit := by
    have := sum_width_le hwidth
    simp only [Plan.of, maxFields, wordLimit] at *
    omega
  have hplan : Plan.of (fields ++ [f]) = ⟨fields ++ [f], (Plan.of fields).total + f.width⟩ := by
    simp [Plan.of]
  rw [push, require_of hroom, require_of htotal, hplan]
  rfl

/-- If they are no more than `maxFields`, the plan of `fields` takes `more`. -/
theorem pushAll_of
    {more : List Field} (hfew : (fields ++ more).length ≤ maxFields)
    (hwidth : ∀ f ∈ fields ++ more, f.width ≤ 64) :
  (pushAll (.of fields) more : Guarded PackingError σ Plan) = pure (.of (fields ++ more))
  := by
  induction more generalizing fields with
  | nil => rw [List.append_nil, pushAll]
  | cons f more ih =>
    have hmove : fields ++ f :: more = fields ++ [f] ++ more := by simp
    rw [hmove] at hfew hwidth ⊢
    rw [pushAll, push_of, pure_bind]
    · apply ih hfew hwidth
    · simp only [List.length_append, List.length_singleton] at hfew
      omega
    · intro g hg
      apply hwidth g (by simp [hg])
    · apply hwidth f (by simp)

/-- If there are at most two `fields`, the fields of `difference` are planned behind them without
abort. -/
theorem pushDifference_of
    (hfew : fields.length ≤ 2) (hwidth : ∀ f ∈ fields, f.width ≤ 64) (w : Window)
    (difference : UInt64) :
  (pushDifference (.of fields) w difference : Guarded PackingError σ (Plan × Window))
    = pure (.of (fields ++ (w.fields difference).1), (w.fields difference).2)
  := by
  have hpush : (pushAll (.of fields) (w.fields difference).1 : Guarded PackingError σ Plan)
      = pure (.of (fields ++ (w.fields difference).1)) := by
    have hlength := w.length_fields_le difference
    apply pushAll_of
    · rw [List.length_append, maxFields]
      omega
    · intro f hf
      rcases List.mem_append.mp hf with hf | hf
      · apply hwidth f hf
      · apply w.width_le_of_mem_fields difference hf
  rw [pushDifference]
  by_cases hzero : difference = 0
  · have hfields : w.fields difference = ([⟨0b0, 1⟩], w) := if_pos hzero
    rw [hfields] at hpush ⊢
    rw [if_pos hzero, hpush]
    rfl
  · have hsum := leadingZeros_add_trailingZeros_lt hzero
    rw [if_neg hzero]
    by_cases hfits : w.leading.toNat ≤ min (leadingZeros difference) maxLeading
        ∧ w.trailing.toNat ≤ trailingZeros difference
    · have hfields : w.fields difference
          = ([⟨0b10, 2⟩, ⟨difference >>> w.trailing.toUInt64, w.width⟩], w) := by
        rw [Window.fields, if_neg hzero]
        apply if_pos hfits
      rw [hfields] at hpush ⊢
      rw [if_pos hfits, require_of (by omega), pure_bind, hpush]
      rfl
    · have hnext : Window.width ⟨UInt8.ofNat (min (leadingZeros difference) maxLeading),
          UInt8.ofNat (trailingZeros difference)⟩
          = 64 - min (leadingZeros difference) maxLeading - trailingZeros difference := by
        rw [Window.width, UInt8.toNat_ofNat', UInt8.toNat_ofNat']
        omega
      rw [Window.fields, if_neg hzero] at hpush ⊢
      simp only [if_neg hfits, hnext] at hpush ⊢
      rw [require_of (by omega), pure_bind, require_of (by omega), pure_bind,
        require_of (by omega), pure_bind, require_of (by omega), pure_bind, hpush]
      rfl

/-- The sample `x` is planned without abort, as its fields. -/
theorem plan_eq
    (s : Replay) (index : Nat) (x : Sample) :
  (plan s index x : Guarded PackingError σ (Plan × Window))
    = pure (.of (s.plan index x).1, (s.plan index x).2.window)
  := by
  have hfew := s.length_timestampFields_le index x.timestamp
  have hwidth {f : Field} (hf : f ∈ s.timestampFields index x.timestamp) : f.width ≤ 64 := by
    apply s.width_le_of_mem_plan index x
    apply List.mem_append_left _ hf
  rw [plan, pushAll_of, List.nil_append, pure_bind, pushDifference_of]
  · rfl
  · apply hfew
  · intro f hf
    apply hwidth hf
  · rw [List.nil_append, maxFields]
    omega
  · intro f hf
    apply hwidth hf

end Plans

theorem room_eq
    (b : BitBuffer) :
  room b = .ok b.free b
  := by
  show (require (b.length ≤ 8 * b.bytes.size) _ >>= _ : Guarded PackingError BitBuffer Nat) b = _
  rw [require_of b.length_le]
  rfl

/-- If there is room for them in `b`, the `fields` are written one after the other. -/
theorem writeAll_eq
    {b : BitBuffer} {fields : List Field} (hwidth : ∀ f ∈ fields, f.width ≤ 64)
    (hroom : (fieldBits fields).length ≤ b.free) :
  writeAll fields b = .ok ⟨⟩ (b.append (fieldBits fields) hroom)
  := by
  induction fields generalizing b with
  | nil => rfl
  | cons f fields ih =>
    obtain ⟨hfirst, hlater⟩ := List.forall_mem_cons.mp hwidth
    have hlength : (fieldBits (f :: fields)).length = f.bits.length + (fieldBits fields).length :=
      List.length_append
    have hfree := b.free_append f.bits (by omega)
    have hrest : (fieldBits fields).length ≤ (b.append f.bits (by omega)).free := by omega
    have hwrite := write_eq b f.value f.width
    rw [BitBuffer.write_eq_append hfirst (by omega)] at hwrite
    simp only [writeAll, Bind.bind, EStateM.bind, hwrite]
    rw [ih hlater hrest, b.append_append]
    rfl

/-- Encoding `x` in place ends as `encode b s index x` does, and does not abort.  Where it fails,
neither `b` nor `s` has changed. -/
theorem encodeInPlace_eq
    (b : BitBuffer) (s : Replay) (index : Nat) (x : Sample) :
  encodeInPlace index x (b, s)
    = match encode b s index x with
      | .ok next => .ok ⟨⟩ next
      | .error e => .error (.inr e) (b, s)
  := by
  rw [encodeInPlace, encode]
  by_cases hindex : index = 0
  · rw [if_pos hindex, if_pos hindex]
    rfl
  · have htotal : (Plan.of (s.plan index x).1).total = (fieldBits (s.plan index x).1).length :=
      (length_fieldBits _).symm
    rw [if_neg hindex, if_neg hindex]
    simp only [second, Bind.bind, EStateM.bind, plan_eq, Pure.pure, EStateM.pure, onFirst, room_eq,
      htotal]
    by_cases hroom : (fieldBits (s.plan index x).1).length ≤ b.free
    · have hwrite := writeAll_eq (fun _ => s.width_le_of_mem_plan index x) hroom
      rw [dif_pos hroom, if_neg (Nat.not_lt_of_le hroom)]
      simp only [Plan.of, EStateM.bind, onFirst, hwrite]
      rfl
    · rw [dif_neg hroom, if_pos (Nat.lt_of_not_le hroom)]
      rfl

end Guarded

/-! ### Costs of samples -/

/-- If `index` is not zero, the cost of `x` is within the distance that decoding it moves. -/
theorem Replay.cost_mem
    (s : Replay) {index : Nat} (hindex : 1 ≤ index) (x : Sample) :
  leastSampleBits index ≤ s.cost index x ∧ s.cost index x ≤ mostSampleBits index
  := (reads_decode s hindex x).length_mem (moves_decode s index)

/-- If `index` is not zero, the state after `x` remembers it. -/
theorem Replay.follows_plan
    (s : Replay) {index : Nat} (hindex : 1 ≤ index) (x : Sample) :
  s.Follows x (s.plan index x).2
  := (reads_decode s hindex x).gives (gives_decode s index)

/-- What the cost of the sample at place `index` means to the buffers that it is encoded in. -/
structure Replay.Costs (s : Replay) (index : Nat) (x : Sample) : Prop where
  /-- So few fields are planned. -/
  length_le : (s.plan index x).1.length ≤ maxFields
  /-- The state afterwards has the timestamp and the value of the sample. -/
  follows : s.Follows x (s.plan index x).2
  delta_eq : (s.plan index x).2.delta = x.timestamp - s.timestamp
  /-- With so much room, the sample is written whole, and it takes just as much. -/
  whole : ∀ b : BitBuffer, s.cost index x ≤ b.free →
    ∃ b', Guarded.encodeInPlace index x (b, s) = .ok ⟨⟩ (b', (s.plan index x).2)
      ∧ b'.length = b.length + s.cost index x ∧ b'.capacity = b.capacity
      ∧ b'.toList = b.toList ++ fieldBits (s.plan index x).1
  /-- With less room, nothing is written, and the state stays. -/
  refused : ∀ b : BitBuffer, b.free < s.cost index x →
    Guarded.encodeInPlace index x (b, s)
      = .error (.inr (.bufferFull (s.cost index x) b.free)) (b, s)
  /-- Encoding that gives the buffer and the state afterwards comes to the same. -/
  eq_encode : ∀ b : BitBuffer,
    Guarded.encodeInPlace index x (b, s)
      = match encode b s index x with
        | .ok next => .ok ⟨⟩ next
        | .error e => .error (.inr e) (b, s)

/-- If `index` is not zero, the sample `x` has a cost in every state `s`, within fixed bounds.  The
cost decides alone, without regard to what is in a buffer, whether the buffer takes `x`. -/
theorem Replay.cost_mem_and_costs
    (s : Replay) {index : Nat} (hindex : 1 ≤ index) (x : Sample) :
  (index = 1 → 65 ≤ s.cost index x ∧ s.cost index x ≤ 141)
    ∧ (index ≠ 1 → 2 ≤ s.cost index x ∧ s.cost index x ≤ maxSampleBits)
    ∧ s.Costs index x
  := by
  have hmem := s.cost_mem hindex x
  rw [leastSampleBits, mostSampleBits] at hmem
  constructor
  · intro hsecond
    rwa [if_pos hsecond, if_pos hsecond] at hmem
  · constructor
    · intro hlater
      rwa [if_neg hlater, if_neg hlater] at hmem
    · constructor
      · have htime := s.length_timestampFields_le index x.timestamp
        have hvalue := s.window.length_fields_le (s.value.bits ^^^ x.value.bits)
        rw [plan, List.length_append, maxFields]
        omega
      · apply s.follows_plan hindex
      · rfl
      · intro b hroom
        use b.append (fieldBits (s.plan index x).1) hroom
        rw [Guarded.encodeInPlace_eq, encode_eq hindex hroom]
        use rfl, b.length_append _ hroom, b.capacity_append _ hroom
        apply b.toList_append
      · intro b hfull
        rw [cost] at hfull
        rw [Guarded.encodeInPlace_eq, encode, if_neg (by omega)]
        dsimp only
        rw [dif_neg (Nat.not_le_of_lt hfull)]
        rfl
      · intro b
        apply Guarded.encodeInPlace_eq

/-- A case of `cost_mem_and_costs`: no sample costs more than one that is far from the last one in
time, and differs from it in the first and the last bit of the value. -/
theorem Replay.cost_mem_and_costs_most :
  let s : Replay := ⟨0, 0, ⟨0⟩, ⟨255, 255⟩⟩
  let x : Sample := ⟨4611686018427387904, ⟨9223372036854775809⟩⟩
  s.cost 2 x = maxSampleBits ∧ s.Costs 2 x
    ∧ Guarded.encodeInPlace 2 x (BitBuffer.zeros 18, s)
      = .error (.inr (.bufferFull 146 144)) (BitBuffer.zeros 18, s)
  := by
  intro s x
  have hcost : s.cost 2 x = maxSampleBits := by decide +kernel
  obtain ⟨_, _, hcosts⟩ := s.cost_mem_and_costs (show 1 ≤ 2 by decide) x
  use hcost, hcosts
  have hrefused := hcosts.refused (BitBuffer.zeros 18) (by rw [hcost]; decide)
  rwa [hcost] at hrefused

end TimeSeries
