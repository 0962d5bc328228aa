import Mathlib.Tactic.Common

/-!
# What computations give

Readings of bits and loadings of snapshots are computations that move something and end
in a result or a fault.  `Gives m P` says that every result of `m` has the property `P`,
wherever the computation starts and wherever it ends.
-/

namespace TimeSeries

variable {ε σ α β : Type}

/-- If a computation that goes on from `m` with `f` gives the result `b`, then `m` gives a result,
from which `f` gives `b`. -/
theorem exists_of_bind_eq_ok
    {m : EStateM ε σ α} {f : α → EStateM ε σ β} {r r' : σ} {b : β}
    (h : (m >>= f) r = .ok b r') :
  ∃ a middle, m r = .ok a middle ∧ f a middle = .ok b r'
  := by
  simp only [Bind.bind, EStateM.bind] at h
  cases hm : m r with
  | error e middle =>
    rw [hm] at h
    cases h
  | ok a middle =>
    rw [hm] at h
    use a, middle, rfl, h

theorem exists_of_map_eq_ok
    {m : EStateM ε σ α} {f : α → β} {r r' : σ} {b : β} (h : (f <$> m) r = .ok b r') :
  ∃ a, m r = .ok a r' ∧ f a = b
  := by
  simp only [Functor.map, EStateM.map] at h
  cases hm : m r with
  | error e middle =>
    rw [hm] at h
    cases h
  | ok a middle =>
    rw [hm] at h
    cases h
    use a

/-- Every result that `m` gives has the property `P`. -/
def Gives (m : EStateM ε σ α) (P : α → Prop) : Prop :=
  ∀ (r r' : σ) (a : α), m r = .ok a r' → P a

theorem Gives.pure
    {P : α → Prop} {a : α} (h : P a) :
  Gives (Pure.pure a : EStateM ε σ α) P
  := by
  intro r r' b hb
  cases hb
  apply h

theorem Gives.throw
    {P : α → Prop} (e : ε) :
  Gives (MonadExcept.throw e : EStateM ε σ α) P
  := by
  intro r r' b hb
  cases hb

theorem Gives.bind
    {m : EStateM ε σ α} {f : α → EStateM ε σ β} {P : α → Prop} {Q : β → Prop} (hm : Gives m P)
    (hf : ∀ a, P a → Gives (f a) Q) :
  Gives (m >>= f) Q
  := by
  intro r r' b h
  obtain ⟨a, middle, hr, hb⟩ := exists_of_bind_eq_ok h
  apply hf a (hm _ _ _ hr) _ _ _ hb

theorem Gives.map
    {m : EStateM ε σ α} {P : α → Prop} {Q : β → Prop} (hm : Gives m P) (f : α → β)
    (hf : ∀ a, P a → Q (f a)) :
  Gives (f <$> m) Q
  := by
  intro r r' b h
  obtain ⟨a, hr, rfl⟩ := exists_of_map_eq_ok h
  apply hf a (hm _ _ _ hr)

theorem Gives.any
    (m : EStateM ε σ α) :
  Gives m fun _ => True
  := by
  intro r r' a _
  trivial

theorem Gives.ite
    {c : Prop} [Decidable c] {m n : EStateM ε σ α} {P : α → Prop} (hm : c → Gives m P)
    (hn : ¬c → Gives n P) :
  Gives (if c then m else n) P
  := by
  split
  · rename_i h
    apply hm h
  · rename_i h
    apply hn h

/-- A check that ends the computation when `c` holds, and goes on with `next` when it does not,
gives what `next` gives. -/
theorem Gives.unless
    {c : Prop} [Decidable c] {e : ε} {next : PUnit → EStateM ε σ α} {P : α → Prop}
    (hnext : ¬c → Gives (next ⟨⟩) P) :
  Gives (if c then MonadExcept.throw e >>= next else next ⟨⟩) P
  := by
  apply Gives.ite
  · intro _ r r' a h
    cases h
  · apply hnext

end TimeSeries
