import Mathlib.Logic.Relation

/-! # Machines that take labelled steps

A machine is a partial function from a state and an event to the next state.
Which events may happen in which states is a predicate of its own, so that one
machine has runs under several disciplines. -/
namespace FastDht.Lib
open Relation

variable {α ε : Type*} {step : α → ε → Option α} {ok : α → ε → Prop}

/-- The machine gets from one state to another by events that are `ok` where
they happen. -/
def Runs (step : α → ε → Option α) (ok : α → ε → Prop) : α → α → Prop :=
  ReflTransGen fun s s' => ∃ e, ok s e ∧ step s e = some s'

theorem Runs.invariant {I : α → Prop} {s s' : α} (hrun : Runs step ok s s') (h : I s)
    (hstep : ∀ s e s', I s → ok s e → step s e = some s' → I s') : I s' := by
  induction hrun with
  | refl => exact h
  | tail _ hlast ih =>
    obtain ⟨e, hok, hs⟩ := hlast
    exact hstep _ e _ ih hok hs

theorem Runs.mono {ok' : α → ε → Prop} {s s' : α} (hrun : Runs step ok s s')
    (h : ∀ s e, ok s e → ok' s e) : Runs step ok' s s' :=
  hrun.lift id fun _ _ ⟨e, hok, hs⟩ => ⟨e, h _ e hok, hs⟩

/-- The state after a schedule, if all its events can happen and are `ok`. -/
def exec (step : α → ε → Option α) (ok : α → ε → Prop) [∀ s e, Decidable (ok s e)] :
    List ε → α → Option α
  | [], s => some s
  | e :: es, s => if ok s e then (step s e).bind (exec step ok es) else none

theorem Runs.of_exec [∀ s e, Decidable (ok s e)] {es : List ε} {s s' : α}
    (h : exec step ok es s = some s') : Runs step ok s s' := by
  induction es generalizing s with
  | nil =>
    cases h
    exact .refl
  | cons e es ih =>
    unfold exec at h
    split at h
    · rename_i hok
      obtain ⟨s₁, hs, hrest⟩ := Option.bind_eq_some_iff.mp h
      exact .head ⟨e, hok, hs⟩ (ih hrest)
    · cases h

end FastDht.Lib
