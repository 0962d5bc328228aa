import Mathlib.Tactic.Common
import TimeSeries.Chunk

/-!
# How steps end

`s.Ends good bad` says that the step `s` ends well or badly: where it succeeds, `good`
holds of the result and of what there is afterwards, and where it fails, `bad` holds of
the fault and of what there is afterwards.  What was counted on the way does not matter.
Each way to put steps together has a rule, so that what is known of the parts is known of
the whole.
-/

namespace TimeSeries

namespace Step

variable {σ τ α β : Type} {good : α → σ → Prop} {bad : ChunkError → σ → Prop}

/-- If the step `s` succeeds, its result and what there is afterwards are `good`; if it fails, its
fault and what there is afterwards are `bad`. -/
def Ends (s : Step σ α) (good : α → σ → Prop) (bad : ChunkError → σ → Prop) : Prop :=
  match s.outcome with
  | .ok a => good a s.after
  | .error e => bad e s.after

theorem Ends.mono
    {s : Step σ α} {good' : α → σ → Prop} {bad' : ChunkError → σ → Prop} (h : s.Ends good bad)
    (hgood : ∀ a d, good a d → good' a d) (hbad : ∀ e d, bad e d → bad' e d) :
  s.Ends good' bad'
  := by
  rw [Ends] at *
  split at h
  · apply hgood _ _ h
  · apply hbad _ _ h

theorem Ends.mono_good
    {s : Step σ α} {good' : α → σ → Prop} (h : s.Ends good bad)
    (hgood : ∀ a d, good a d → good' a d) :
  s.Ends good' bad
  := h.mono hgood fun _ _ hd => hd

theorem Ends.mono_bad
    {s : Step σ α} {bad' : ChunkError → σ → Prop} (h : s.Ends good bad)
    (hbad : ∀ e d, bad e d → bad' e d) :
  s.Ends good bad'
  := h.mono (fun _ _ hd => hd) hbad

theorem Ends.of_ok
    {s : Step σ α} {a : α} (h : s.Ends good bad) (ha : s.outcome = .ok a) :
  good a s.after
  := by
  rwa [Ends, ha] at h

theorem Ends.of_error
    {s : Step σ α} {e : ChunkError} (h : s.Ends good bad) (he : s.outcome = .error e) :
  bad e s.after
  := by
  rwa [Ends, he] at h

/-- If `P` holds of what there is after a success and after a failure of `s`, it holds of what there
is after `s`. -/
theorem Ends.after
    {s : Step σ α} {P : σ → Prop} (h : s.Ends (fun _ d => P d) fun _ d => P d) :
  P s.after
  := by
  rw [Ends] at h
  split at h
  · apply h
  · apply h

theorem ends_done
    {after : σ} {a : α} (h : good a after) :
  (done after a).Ends good bad
  := h

theorem ends_fail
    {after : σ} {e : ChunkError} (h : bad e after) :
  (fail after e : Step σ α).Ends good bad
  := h

theorem Ends.preceded
    {s : Step σ α} (events : List Event) (h : s.Ends good bad) :
  (s.preceded events).Ends good bad
  := h

theorem Ends.followed
    {s : Step σ α} (event : Event) (h : s.Ends good bad) :
  (s.followed event).Ends good bad
  := h

theorem Ends.counted
    {s : Step σ α} (encoding : Encoding) (operation : Operation) (h : s.Ends good bad) :
  (s.counted encoding operation).Ends good bad
  := h

theorem Ends.map
    {s : Step σ α} {f : σ → τ} {g : α → β} {good : β → τ → Prop} {bad : ChunkError → τ → Prop}
    (h : s.Ends (fun a d => good (g a) (f d)) fun e d => bad e (f d)) :
  (s.map f g).Ends good bad
  := by
  rw [Ends] at *
  cases ho : s.outcome with
  | ok a =>
    rw [ho] at h
    simp only [Step.map, ho]
    apply h
  | error e =>
    rw [ho] at h
    simp only [Step.map, ho]
    apply h

/-- If `s` ends as `mid` has it, and `next` ends well from there, then both together end well, or
fail as one of them does. -/
theorem Ends.andThen
    {s : Step σ α} {next : σ → α → Step σ β} {mid : α → σ → Prop} {good : β → σ → Prop}
    (h : s.Ends mid bad) (hnext : ∀ a d, mid a d → (next d a).Ends good bad) :
  (s.andThen next).Ends good bad
  := by
  rw [Ends] at h
  cases ho : s.outcome with
  | ok a =>
    rw [ho] at h
    rw [Step.andThen, ho]
    apply (hnext a _ h).preceded
  | error e =>
    rw [ho] at h
    rw [Step.andThen, ho]
    apply h

/-- If a step `s` on a copy fails, what was `untouched` is what there is afterwards. -/
theorem Ends.onCopy
    {untouched : τ} {s : Step σ α} {next : σ → α → Step τ β} {mid : α → σ → Prop}
    {good : β → τ → Prop} {bad : ChunkError → τ → Prop}
    (h : s.Ends mid fun e _ => bad e untouched)
    (hnext : ∀ a d, mid a d → (next d a).Ends good bad) :
  (s.onCopy untouched next).Ends good bad
  := by
  rw [Ends] at h
  cases ho : s.outcome with
  | ok a =>
    rw [ho] at h
    rw [Step.onCopy, ho]
    apply (hnext a _ h).preceded
  | error e =>
    rw [ho] at h
    rw [Step.onCopy, ho]
    apply h

end Step

end TimeSeries
