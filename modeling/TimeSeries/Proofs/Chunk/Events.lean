import Mathlib.Tactic.Common
import TimeSeries.Chunk

/-!
# What events come to

`Noted events listed` says what events come to: each series is counted as often as it is
listed, whatever they say of the bytes by which buffers grow.  `s.Notes P` says that `P`
holds of the outcome of the step `s` and of the series that its events come to, and
`s.Silent` that nothing is noted.  Each way to put steps together has a rule, as for the
ways that steps end.
-/

namespace TimeSeries

/-! ### Events -/

/-- What `events` add to the total of `series`. -/
def gain (events : List Event) (series : Series) : Nat :=
  (events.map fun e => if e.series = series then e.amount else 0).sum

theorem gain_append
    (events more : List Event) (series : Series) :
  gain (events ++ more) series = gain events series + gain more series
  := by
  rw [gain, List.map_append, List.sum_append, gain, gain]

/-- The total of `series` in `t` goes up by what `events` add to it. -/
theorem Tally.total_recordAll
    (t : Tally) (events : List Event) (series : Series) :
  (t.recordAll events).total series = t.total series + gain events series
  := by
  induction events generalizing t with
  | nil => rfl
  | cons e events ih =>
    have hlater := ih (t.record e)
    rw [total_record, Nat.add_assoc] at hlater
    rw [gain, List.map_cons, List.sum_cons]
    apply hlater

/-- Every series but that of growth is counted by `events` as often as it is `listed`. -/
def Noted (events : List Event) (listed : List Series) : Prop :=
  ∀ series, series ≠ .growth → gain events series = listed.count series

theorem noted_nil :
  Noted [] []
  := by
  intro series _
  rfl

theorem Noted.append
    {events more : List Event} {listed further : List Series} (h : Noted events listed)
    (hmore : Noted more further) :
  Noted (events ++ more) (listed ++ further)
  := by
  intro series hseries
  rw [gain_append, List.count_append, h series hseries, hmore series hseries]

theorem noted_once
    (series : Series) :
  Noted [.once series] [series]
  := by
  intro other _
  rw [gain, List.map_singleton, List.sum_singleton, List.count_singleton, Event.once]
  by_cases h : series = other
  · rw [if_pos h, if_pos (beq_iff_eq.mpr h)]
  · rw [if_neg h, if_neg (mt beq_iff_eq.mp h)]

theorem noted_growth
    (bytes : Nat) :
  Noted [⟨.growth, bytes⟩] []
  := by
  intro series hseries
  rw [gain, List.map_singleton, List.sum_singleton, if_neg hseries.symm, List.count_nil]

/-! ### Steps -/

namespace Step

variable {σ τ α β : Type} {P : Except ChunkError α → List Series → Prop}
  {Q : Except ChunkError β → List Series → Prop}

/-- The series that the events of `s` count, and its outcome, are as `P` has them. -/
def Notes (s : Step σ α) (P : Except ChunkError α → List Series → Prop) : Prop :=
  ∃ listed, Noted s.events listed ∧ P s.outcome listed

theorem Notes.mono
    {s : Step σ α} {P' : Except ChunkError α → List Series → Prop} (h : s.Notes P)
    (hP : ∀ outcome listed, P outcome listed → P' outcome listed) :
  s.Notes P'
  := by
  obtain ⟨listed, hnoted, h⟩ := h
  use listed, hnoted
  apply hP _ _ h

theorem notes_done
    {after : σ} {a : α} (h : P (.ok a) []) :
  (done after a).Notes P
  := ⟨[], noted_nil, h⟩

theorem notes_fail
    {after : σ} {e : ChunkError} (h : P (.error e) []) :
  (fail after e).Notes P
  := ⟨[], noted_nil, h⟩

theorem Notes.preceded
    {s : Step σ α} {events : List Event} {first : List Series} (hevents : Noted events first)
    (h : s.Notes fun outcome listed => P outcome (first ++ listed)) :
  (s.preceded events).Notes P
  := by
  obtain ⟨listed, hnoted, h⟩ := h
  use first ++ listed, hevents.append hnoted
  apply h

theorem Notes.followed
    {s : Step σ α} {series : Series}
    (h : s.Notes fun outcome listed => P outcome (listed ++ [series])) :
  (s.followed (.once series)).Notes P
  := by
  obtain ⟨listed, hnoted, h⟩ := h
  use listed ++ [series], hnoted.append (noted_once series)
  apply h

/-- If the step `s` is counted, its status is counted behind what is noted on the way. -/
theorem Notes.counted
    {s : Step σ α} {encoding : Encoding} {operation : Operation}
    (h : s.Notes fun outcome listed =>
      P outcome (listed ++ [.operation encoding operation (.ofOutcome outcome)])) :
  (s.counted encoding operation).Notes P
  := by
  obtain ⟨listed, hnoted, h⟩ := h
  use listed ++ [.operation encoding operation (.ofOutcome s.outcome)]
  use hnoted.append (noted_once _)
  apply h

theorem Notes.map
    {s : Step σ α} {f : σ → τ} {g : α → β} (h : s.Notes fun outcome => Q (g <$> outcome)) :
  (s.map f g).Notes Q
  := h

/-- If `s` is a step on a copy, what it notes and what `next` notes stand one behind the other. -/
theorem Notes.onCopy
    {untouched : τ} {s : Step σ α} {next : σ → α → Step τ β} (h : s.Notes P)
    (hnext : ∀ a listed, s.outcome = .ok a → P (.ok a) listed →
      (next s.after a).Notes fun outcome more => Q outcome (listed ++ more))
    (herror : ∀ e listed, s.outcome = .error e → P (.error e) listed → Q (.error e) listed) :
  (s.onCopy untouched next).Notes Q
  := by
  obtain ⟨listed, hnoted, h⟩ := h
  cases houtcome : s.outcome with
  | ok a =>
    rw [houtcome] at h
    rw [Step.onCopy, houtcome]
    apply (hnext a _ houtcome h).preceded hnoted
  | error e =>
    rw [houtcome] at h
    rw [Step.onCopy, houtcome]
    use listed, hnoted
    apply herror _ _ houtcome h

end Step

theorem Status.ofOutcome_map
    {α β : Type} (f : α → β) (outcome : Except ChunkError α) :
  ofOutcome (f <$> outcome) = ofOutcome outcome
  := by
  cases outcome with
  | ok a => rfl
  | error e => cases e <;> rfl

theorem Step.map_map
    {σ τ υ α β γ : Type} (s : Step σ α) (f : σ → τ) (g : α → β) (f' : τ → υ) (g' : β → γ) :
  (s.map f g).map f' g' = s.map (f' ∘ f) (g' ∘ g)
  := by
  rw [Step.map, Step.map, Step.map, comp_map]
  rfl

/-- If a change `s` is counted and seen through `f` and `g`, its status is noted once, behind what
is noted on the way. -/
theorem Step.Notes.told
    {σ τ α β : Type} {s : Step σ α} {encoding : Encoding} {operation : Operation} {f : σ → τ}
    {g : α → β} {P : Except ChunkError β → List Series → Prop}
    (h : s.Notes fun outcome listed => P (g <$> outcome) listed) :
  ((s.counted encoding operation).map f g).Notes fun outcome listed =>
    ∃ told, P outcome told ∧ listed = told ++ [.operation encoding operation (.ofOutcome outcome)]
  := by
  apply Step.Notes.map
  apply Step.Notes.counted
  apply h.mono
  intro outcome listed h
  use listed, h
  rw [Status.ofOutcome_map]

/-- The fault is a sample at the same time which is not to be touched. -/
def ChunkError.isConflict : ChunkError → Bool
  | duplicate _ _ _ => true
  | _ => false

namespace Step

variable {σ τ α β : Type} {Q : Except ChunkError β → List Series → Prop}

/-- The step `s` counts nothing but growth, and does not fail for a sample at the same time. -/
def Silent (s : Step σ α) : Prop :=
  s.Notes fun outcome listed => listed = [] ∧ ∀ e, outcome = .error e → e.isConflict = false

theorem silent_done
    (after : σ) (a : α) :
  (done after a).Silent
  := by
  apply notes_done
  use rfl
  rintro e ⟨⟩

theorem silent_fail
    (after : σ) {e : ChunkError} (h : e.isConflict = false) :
  (fail after e : Step σ α).Silent
  := by
  apply notes_fail
  use rfl
  rintro _ ⟨⟩
  apply h

/-- If a step `s` on a copy is silent, what is noted is what `next` notes. -/
theorem Silent.onCopy
    {untouched : τ} {s : Step σ α} {next : σ → α → Step τ β} (h : s.Silent)
    (hnext : ∀ a, s.outcome = .ok a → (next s.after a).Notes Q)
    (herror : ∀ e, s.outcome = .error e → e.isConflict = false → Q (.error e) []) :
  (s.onCopy untouched next).Notes Q
  := by
  apply Notes.onCopy h
  · rintro a _ ha ⟨rfl, _⟩
    apply hnext a ha
  · rintro e _ he ⟨rfl, hconflict⟩
    apply herror e he (hconflict e rfl)

theorem Silent.andThen
    {s : Step σ α} {next : σ → α → Step σ β} (h : s.Silent)
    (hnext : ∀ a, s.outcome = .ok a → (next s.after a).Silent) :
  (s.andThen next).Silent
  := by
  show (s.onCopy s.after next).Silent
  apply h.onCopy hnext
  intro e _ he
  use rfl
  rintro _ ⟨⟩
  apply he

end Step

end TimeSeries
