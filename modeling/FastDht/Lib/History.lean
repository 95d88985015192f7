import Mathlib.Data.List.Basic

/-! # Histories

A history lists requests with their answers. It is sequential if handling the
requests one after the other gives those answers. In a history of things that
happen again and again, one is followed by another if the last time of the one
comes before the last time of the other. -/
namespace FastDht.Lib

variable {α ω ρ : Type*}

/-- Handling the requests in order leads from `v` to `v'` with these answers. -/
def Sequential (run : α → ω → ρ × α) : α → List (ω × ρ) → α → Prop
  | v, [], v' => v = v'
  | v, e :: rest, v' => (run v e.1).1 = e.2 ∧ Sequential run (run v e.1).2 rest v'

instance decidableSequential [DecidableEq α] [DecidableEq ρ] (run : α → ω → ρ × α) :
    ∀ (v : α) (h : List (ω × ρ)) (v' : α), Decidable (Sequential run v h v')
  | v, [], v' => inferInstanceAs (Decidable (v = v'))
  | v, e :: rest, v' =>
    have := decidableSequential run (run v e.1).2 rest v'
    inferInstanceAs (Decidable (_ ∧ _))

theorem Sequential.concat {run : α → ω → ρ × α} {v v' : α} {h : List (ω × ρ)}
    (hs : Sequential run v h v') (op : ω) :
    Sequential run v (h ++ [(op, (run v' op).1)]) (run v' op).2 := by
  induction h generalizing v with
  | nil =>
    cases hs
    exact ⟨rfl, rfl⟩
  | cons e rest ih => exact ⟨hs.1, ih hs.2⟩

/-! ## The last time -/

/-- Every `a` is followed by a later `b`. -/
def FollowedBy (h : List α) (a b : α) : Prop := ∀ before after, h = before ++ a :: after → b ∈ after

theorem FollowedBy.concat {h : List α} {a b c : α} (hf : FollowedBy h a b) (hc : c ≠ a) :
    FollowedBy (h ++ [c]) a b := by
  intro before after hsplit
  rcases List.eq_nil_or_concat' after with rfl | ⟨after, d, rfl⟩
  · exact absurd (List.append_inj_right' hsplit rfl) (by simpa using hc)
  · rw [← List.cons_append, ← List.append_assoc] at hsplit
    exact List.mem_append_left _ (hf before after (List.append_inj_left' hsplit rfl))

theorem FollowedBy.last {h : List α} {a b : α} (hne : a ≠ b) : FollowedBy (h ++ [b]) a b := by
  intro before after hsplit
  rcases List.eq_nil_or_concat' after with rfl | ⟨after, d, rfl⟩
  · exact absurd (List.append_inj_right' hsplit rfl) (by simpa using hne.symm)
  · rw [← List.cons_append, ← List.append_assoc] at hsplit
    have hd : b = d := by simpa using List.append_inj_right' hsplit rfl
    rw [hd]
    exact List.mem_append_right _ (List.mem_cons_self ..)

end FastDht.Lib
