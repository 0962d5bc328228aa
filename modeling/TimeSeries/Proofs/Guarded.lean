import TimeSeries.Proofs.Gives

/-!
# Guarded computations

A machine stops where the arithmetic of a program makes no sense to it: at a shift by the
width of a word, at a difference below zero, at a place behind the end.  A guarded
computation says so before each such operation, by ending in an `Abort`.

`Agrees I g m P` says that from every state with `I` the guarded computation `g` does what the
computation `m` does, and so does not abort; that the state has `I` afterwards; and that a
result has `P`.  Guards are met by what is known of the state and of the results so far.
-/

namespace TimeSeries

/-- The reasons for which a machine stops. -/
inductive Abort where
  /-- A word is shifted by its width or more. -/
  | shift (amount : Nat)
  /-- A number is taken away from a smaller one. -/
  | underflow (minuend subtrahend : Nat)
  /-- A number does not fit in its type. -/
  | overflow (n : Nat)
  /-- There is nothing at a place. -/
  | outOfBounds (place size : Nat)
  /-- A loop goes on for longer than it was given. -/
  | endless
deriving DecidableEq

/-- A computation that may abort, beside failing with an `ε` or giving a result. -/
abbrev Guarded (ε σ : Type) := EStateM (Abort ⊕ ε) σ

variable {ε σ α β : Type}

/-- The computation stops here unless `p` holds. -/
def require (p : Prop) [Decidable p] (abort : Abort) : Guarded ε σ PUnit :=
  if p then pure ⟨⟩ else throw (.inl abort)

theorem require_of
    {p : Prop} [Decidable p] (h : p) (abort : Abort) :
  (require p abort : Guarded ε σ PUnit) = pure ⟨⟩
  := if_pos h

/-- The computation `m` as one that could abort, but does not. -/
def unguarded (m : EStateM ε σ α) : Guarded ε σ α := fun s =>
  match m s with
  | .ok a s => .ok a s
  | .error e s => .error (.inr e) s

/-- From every state of which `I` holds, the guarded computation `g` does what `m` does and does not
abort.  The results have the property `P`, and `I` holds again. -/
def Agrees (I : σ → Prop) (g : Guarded ε σ α) (m : EStateM ε σ α) (P : α → Prop) : Prop :=
  ∀ s, I s →
    match m s with
    | .ok a s' => g s = .ok a s' ∧ P a ∧ I s'
    | .error e s' => g s = .error (.inr e) s' ∧ I s'

namespace Agrees

variable {I : σ → Prop} {g : Guarded ε σ α} {m : EStateM ε σ α} {P : α → Prop} {Q : β → Prop}

theorem eq_unguarded
    (h : Agrees I g m P) {s : σ} (hs : I s) :
  g s = unguarded m s
  := by
  have hs := h s hs
  rw [unguarded]
  split at hs
  · rw [hs.1]
  · rw [hs.1]

theorem of_eq_ok
    (h : Agrees I g m P) {s s' : σ} {a : α} (hs : I s) (hm : m s = .ok a s') :
  g s = .ok a s' ∧ P a ∧ I s'
  := by
  have hs := h s hs
  rwa [hm] at hs

theorem of_eq_error
    (h : Agrees I g m P) {s s' : σ} {e : ε} (hs : I s) (hm : m s = .error e s') :
  g s = .error (.inr e) s'
  := by
  have hs := h s hs
  rw [hm] at hs
  apply hs.1

theorem mono
    {P' : α → Prop} (h : Agrees I g m P) (hP : ∀ a, P a → P' a) :
  Agrees I g m P'
  := by
  intro s hs
  have hs := h s hs
  split at hs
  · apply hs.imp_right (And.imp_left (hP _))
  · apply hs

theorem pure
    {a : α} (h : P a) :
  Agrees I (Pure.pure a : Guarded ε σ α) (Pure.pure a) P
  := by
  intro s hs
  exact ⟨rfl, h, hs⟩

theorem throw
    (e : ε) :
  Agrees I (MonadExcept.throw (Sum.inr e) : Guarded ε σ α) (MonadExcept.throw e) P
  := by
  intro s hs
  exact ⟨rfl, hs⟩

theorem bind
    {g' : α → Guarded ε σ β} {f : α → EStateM ε σ β} (h : Agrees I g m P)
    (hf : ∀ a, P a → Agrees I (g' a) (f a) Q) :
  Agrees I (g >>= g') (m >>= f) Q
  := by
  intro s hs
  have hs := h s hs
  simp only [Bind.bind, EStateM.bind]
  cases hm : m s with
  | ok a s' =>
    rw [hm] at hs
    obtain ⟨hg, ha, hs'⟩ := hs
    rw [hg]
    apply hf a ha s' hs'
  | error e s' =>
    rw [hm] at hs
    rw [hs.1]
    use rfl, hs.2

theorem map
    {f : α → β} (h : Agrees I g m P) (hf : ∀ a, P a → Q (f a)) :
  Agrees I (f <$> g) (f <$> m) Q
  := by
  rw [map_eq_pure_bind, map_eq_pure_bind]
  apply h.bind
  intro a ha
  apply pure (hf a ha)

/-- If `g` agrees with `m`, and what `g'` does to a result agrees with `f`, then both together agree
with `m` followed by `f`. -/
theorem bind_map
    {g' : α → Guarded ε σ β} {f : α → β} (h : Agrees I g m P)
    (hf : ∀ a, P a → Agrees I (g' a) (Pure.pure (f a)) Q) :
  Agrees I (g >>= g') (f <$> m) Q
  := by
  rw [map_eq_pure_bind]
  apply h.bind hf

theorem ite
    {c : Prop} [Decidable c] {g' : Guarded ε σ α} {m' : EStateM ε σ α}
    (h : c → Agrees I g m P) (h' : ¬c → Agrees I g' m' P) :
  Agrees I (if c then g else g') (if c then m else m') P
  := by
  split
  · rename_i hc
    apply h hc
  · rename_i hc
    apply h' hc

/-- If `p` holds, a guard that requires it does nothing. -/
theorem require
    {p : Prop} [Decidable p] {abort : Abort} {next : PUnit → Guarded ε σ α} (hp : p)
    (h : Agrees I (next ⟨⟩) m P) :
  Agrees I (TimeSeries.require p abort >>= next) m P
  := by
  rw [require_of hp]
  apply h

/-- A check that fails when `c` holds may be made on both sides, and what follows has to agree only
if `c` does not hold. -/
theorem check
    {c : Prop} [Decidable c] {e : ε} {g : PUnit → Guarded ε σ α} {m : PUnit → EStateM ε σ α}
    (h : ¬c → Agrees I (g ⟨⟩) (m ⟨⟩) P) :
  Agrees I (if c then MonadExcept.throw (Sum.inr e) >>= g else g ⟨⟩)
    (if c then MonadExcept.throw e >>= m else m ⟨⟩) P
  := by
  apply ite
  · intro _ s hs
    exact ⟨rfl, hs⟩
  · apply h

end Agrees

end TimeSeries
