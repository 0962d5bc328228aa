import TimeSeries.Tally

/-!
# Steps

An operation may succeed or fail, and it is counted what happened on the way, also
when it fails in the end.  An `Attempt` is such an outcome with the events that led
to it.  A `Step` is an attempt to change something, together with what that
something is afterwards.
-/

namespace TimeSeries

/-- An attempt: its `outcome`, and the `events` on the way to it, in their order. -/
structure Attempt (α : Type) where
  outcome : Except ChunkError α
  events : List Event

/-- A step: an attempt to change something, and in `after` what that something is afterwards. -/
structure Step (σ α : Type) extends Attempt α where
  after : σ

namespace Step

variable {σ τ α β : Type}

/-- The step that leaves `after` and succeeds with `result`, without events. -/
def done (after : σ) (result : α) : Step σ α := ⟨⟨.ok result, []⟩, after⟩

/-- The step that leaves `after` and fails with `e`, without events. -/
def fail (after : σ) (e : ChunkError) : Step σ α := ⟨⟨.error e, []⟩, after⟩

/-- Puts `events` before those of the step `s`. -/
def preceded (events : List Event) (s : Step σ α) : Step σ α :=
  { s with events := events ++ s.events }

/-- Puts `event` behind those of the step `s`. -/
def followed (s : Step σ α) (event : Event) : Step σ α :=
  { s with events := s.events ++ [event] }

/-- Goes on with `next` after a step `s` that succeeded, and stops after one that failed. -/
def andThen (s : Step σ α) (next : σ → α → Step σ β) : Step σ β :=
  match s.outcome with
  | .ok a => (next s.after a).preceded s.events
  | .error e => ⟨⟨.error e, s.events⟩, s.after⟩

/-- Goes on after a step that changed a copy; if it failed, the copy is dropped and
`untouched` is what there is. -/
def onCopy (untouched : τ) (s : Step σ α) (next : σ → α → Step τ β) : Step τ β :=
  match s.outcome with
  | .ok a => (next s.after a).preceded s.events
  | .error e => ⟨⟨.error e, s.events⟩, untouched⟩

/-- What there is after `s`, seen through `f`, and the result of `s`, seen through `g`. -/
def map (f : σ → τ) (g : α → β) (s : Step σ α) : Step τ β where
  outcome := g <$> s.outcome
  events := s.events
  after := f s.after

end Step

end TimeSeries
