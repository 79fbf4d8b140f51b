import Mathlib

/-!
# Runs of labelled transition systems

A run is a list of labels together with the state it ends in.  A property that
every step keeps holds at the end of every run, and a function from concrete to
abstract states that maps steps to steps maps runs to runs.
-/

namespace Charis.Lib

variable {State Abstract Label : Type*}

/-- The runs of a transition relation from a start state, with their labels in
the order in which they happened. -/
inductive Run (step : State → Label → State → Prop) (start : State) :
    List Label → State → Prop
  | start : Run step start [] start
  | next {labels : List Label} {middle finish : State} {label : Label} :
      Run step start labels middle → step middle label finish →
      Run step start (labels ++ [label]) finish

/-- The steps of a transition relation that meet a condition on the state before
and the label. -/
def Restrict (step : State → Label → State → Prop) (guard : State → Label → Prop) :
    State → Label → State → Prop :=
  fun state label state' => guard state label ∧ step state label state'

/-- A condition on states and labels holds at every step of a transition
function. -/
def Along (next : State → Label → State) (condition : State → Label → Prop) :
    State → List Label → Prop
  | _, [] => True
  | state, label :: labels =>
      condition state label ∧ Along next condition (next state label) labels

instance Along.decidable {next : State → Label → State} {condition : State → Label → Prop}
    [∀ state label, Decidable (condition state label)] :
    (state : State) → (labels : List Label) → Decidable (Along next condition state labels)
  | _, [] => .isTrue trivial
  | state, label :: labels =>
      haveI : Decidable (Along next condition (next state label) labels) :=
        Along.decidable (next state label) labels
      inferInstanceAs (Decidable (condition state label ∧ _))

/-- A condition that always holds. -/
theorem Along.of_forall {next : State → Label → State} {condition : State → Label → Prop}
    (always : ∀ state label, condition state label) (state : State) (labels : List Label) :
    Along next condition state labels := by
  induction labels generalizing state with
  | nil => trivial
  | cons label labels ih => exact ⟨always state label, ih _⟩

theorem Along.and {next : State → Label → State} {condition condition' : State → Label → Prop}
    {state : State} {labels : List Label} (first : Along next condition state labels)
    (second : Along next condition' state labels) :
    Along next (fun state label => condition state label ∧ condition' state label) state
      labels := by
  induction labels generalizing state with
  | nil => trivial
  | cons label labels ih => exact ⟨⟨first.1, second.1⟩, ih first.2 second.2⟩

/-- Conditions that agree under an invariant hold along the same runs. -/
theorem Along.congr {next : State → Label → State} {guard condition condition' :
    State → Label → Prop} {inv : State → Prop}
    (keeps : ∀ state label, inv state → guard state label → condition state label →
      inv (next state label))
    (same : ∀ state label, inv state → guard state label →
      (condition state label ↔ condition' state label))
    {state : State} {labels : List Label} (initially : inv state)
    (guarded : Along next guard state labels) :
    Along next condition state labels ↔ Along next condition' state labels := by
  induction labels generalizing state with
  | nil => exact Iff.rfl
  | cons label labels ih =>
  constructor
  · intro along
    have kept := keeps state label initially guarded.1 along.1
    exact ⟨(same state label initially guarded.1).mp along.1, (ih kept guarded.2).mp along.2⟩
  · intro along
    have first := (same state label initially guarded.1).mpr along.1
    have kept := keeps state label initially guarded.1 first
    exact ⟨first, (ih kept guarded.2).mpr along.2⟩

/-- What the steps under a condition keep holds at the end. -/
theorem Along.invariant {next : State → Label → State} {condition : State → Label → Prop}
    {inv : State → Prop}
    (keeps : ∀ state label, inv state → condition state label → inv (next state label))
    {state : State} {labels : List Label} (initially : inv state)
    (along : Along next condition state labels) : inv (labels.foldl next state) := by
  induction labels generalizing state with
  | nil => exact initially
  | cons label labels ih => exact ih (keeps state label initially along.1) along.2

theorem Along.of_earlier {next : State → Label → State} {condition : State → Label → Prop}
    {state : State} {labels earlier : List Label} (early : earlier <+: labels)
    (along : Along next condition state labels) : Along next condition state earlier := by
  obtain ⟨later, rfl⟩ := early
  induction earlier generalizing state with
  | nil => trivial
  | cons label earlier ih => exact ⟨along.1, ih along.2⟩

namespace Run

variable {step : State → Label → State → Prop} {start finish : State}
  {labels : List Label}

/-- What every step with an admissible label keeps holds at the end of every run
with admissible labels. -/
theorem invariant {inv : State → Prop} {admissible : Label → Prop}
    (keeps : ∀ state label state', inv state → admissible label →
      step state label state' → inv state')
    (run : Run step start labels finish) (initially : inv start)
    (all : ∀ label ∈ labels, admissible label) : inv finish := by
  induction run with
  | start => exact initially
  | next run last ih =>
      have earlier := ih fun label member => all label (List.mem_append_left _ member)
      exact keeps _ _ _ earlier (all _ (by simp)) last

/-- A simulation under an invariant turns runs into runs of the abstract
system. -/
theorem simulate {inv : State → Prop} {admissible : Label → Prop}
    {abstractStep : Abstract → Label → Abstract → Prop} {abstraction : State → Abstract}
    (keeps : ∀ state label state', inv state → admissible label →
      step state label state' →
      inv state' ∧ abstractStep (abstraction state) label (abstraction state'))
    (run : Run step start labels finish) (initially : inv start)
    (all : ∀ label ∈ labels, admissible label) :
    Run abstractStep (abstraction start) labels (abstraction finish) := by
  induction run with
  | start => exact Run.start
  | next run last ih =>
      have before := fun label member => all label (List.mem_append_left _ member)
      have middle := run.invariant
        (fun state label state' good ok taken => (keeps state label state' good ok taken).1)
        initially before
      exact (ih before).next (keeps _ _ _ middle (all _ (by simp)) last).2

/-- A run of a transition relation is a run of a weaker one. -/
theorem mono {step' : State → Label → State → Prop}
    (weaker : ∀ state label state', step state label state' → step' state label state')
    (run : Run step start labels finish) : Run step' start labels finish := by
  induction run with
  | start => exact Run.start
  | next run last ih => exact ih.next (weaker _ _ _ last)

/-- A step before a run. -/
theorem cons {first : State} {label : Label} (step₁ : step first label start)
    (run : Run step start labels finish) : Run step first (label :: labels) finish := by
  induction run with
  | start => exact Run.start.next step₁
  | next run last ih => exact ih.next last

/-- The run of a transition function whose steps meet a condition. -/
theorem of_along {next : State → Label → State} {condition : State → Label → Prop}
    (along : Along next condition start labels) :
    Run (Restrict (fun state label state' => state' = next state label) condition) start labels
      (labels.foldl next start) := by
  induction labels generalizing start with
  | nil => exact Run.start
  | cons label labels ih => exact (ih along.2).cons ⟨along.1, rfl⟩

/-- The run of a partial transition function that is defined at every step. -/
theorem of_partial {next : State → Label → Option State} {condition : State → Label → Prop}
    (along : Along (fun state label => (next state label).getD state)
      (fun state label => condition state label ∧ (next state label).isSome) start labels) :
    Run (fun state label state' => condition state label ∧ next state label = some state') start
      labels (labels.foldl (fun state label => (next state label).getD state) start) := by
  apply (of_along along).mono
  rintro state label state' ⟨⟨allowed, defined⟩, rfl⟩
  obtain ⟨state', taken⟩ := Option.isSome_iff_exists.mp defined
  exact ⟨allowed, by rw [taken, Option.getD_some]⟩

end Run

end Charis.Lib
