import Mathlib.Logic.Function.Basic
import Mathlib.Data.List.Basic

/-! # Logs of overwrites

A log of writes to a map, each of which sets one key to a value or removes it.
Replaying a log applies the writes in order. -/
namespace FastDht.Lib

variable {κ ν : Type*} [DecidableEq κ]
variable {log : List (κ × Option ν)} {k : κ}

def replay (log : List (κ × Option ν)) (m : κ → Option ν) : κ → Option ν :=
  log.foldl (fun m e => Function.update m e.1 e.2) m

@[simp] theorem replay_nil (m : κ → Option ν) : replay [] m = m := rfl

@[simp] theorem replay_cons (e : κ × Option ν) (log : List (κ × Option ν)) (m : κ → Option ν) :
    replay (e :: log) m = replay log (Function.update m e.1 e.2) := rfl

@[simp] theorem replay_append (a b : List (κ × Option ν)) (m : κ → Option ν) :
    replay (a ++ b) m = replay b (replay a m) := List.foldl_append

/-- A key that a replay changes has an entry with its new value. -/
theorem mem_of_replay_ne {m : κ → Option ν}
    (h : replay log m k ≠ m k) : (k, replay log m k) ∈ log := by
  induction log generalizing m with
  | nil => exact absurd rfl h
  | cons e log ih =>
    rw [replay_cons] at h ⊢
    by_cases hrest : replay log (Function.update m e.1 e.2) k = Function.update m e.1 e.2 k
    · rw [hrest, Function.update_apply] at h
      split at h
      · rename_i hk
        rw [hrest, hk, Function.update_self]
        exact List.mem_cons_self
      · exact absurd rfl h
    · exact List.mem_cons_of_mem _ (ih hrest)

theorem replay_of_not_mem (m : κ → Option ν) (h : ∀ e ∈ log, e.1 ≠ k) : replay log m k = m k := by
  by_contra hne
  exact h _ (mem_of_replay_ne hne) rfl

theorem replay_congr (log : List (κ × Option ν)) {m m' : κ → Option ν} (h : m k = m' k) :
    replay log m k = replay log m' k := by
  induction log generalizing m m' with
  | nil => exact h
  | cons e log ih =>
    refine ih ?_
    simp only [Function.update_apply, h]

theorem replay_of_mem (h : ∃ e ∈ log, e.1 = k)
    (m m' : κ → Option ν) : replay log m k = replay log m' k := by
  induction log generalizing m m' with
  | nil =>
    obtain ⟨e, he, -⟩ := h
    cases he
  | cons e log ih =>
    rw [replay_cons, replay_cons]
    by_cases hlog : ∃ e ∈ log, e.1 = k
    · exact ih hlog _ _
    · obtain ⟨e', he', rfl⟩ := h
      rcases List.mem_cons.mp he' with rfl | he'
      · refine replay_congr log ?_
        rw [Function.update_self, Function.update_self]
      · exact absurd ⟨e', he', rfl⟩ hlog

theorem replay_of_forall {v : Option ν}
    (h : ∃ e ∈ log, e.1 = k) (hv : ∀ e ∈ log, e.1 = k → e.2 = v) (m : κ → Option ν) :
    replay log m k = v := by
  rw [replay_of_mem h m fun _ => v]
  by_contra hne
  exact hne (hv _ (mem_of_replay_ne hne) rfl)

/-- A log can be replayed from a place on, over a map in which every key is as it was
at that place or at a later one. -/
theorem replay_resume {m₀ m : κ → Option ν} {n : Nat}
    (h : ∀ k, ∃ p, n ≤ p ∧ m k = replay (log.take p) m₀ k) :
    replay (log.drop n) m = replay log m₀ := by
  funext k
  have hsplit : replay log m₀ = replay (log.drop n) (replay (log.take n) m₀) := by
    rw [← replay_append, List.take_append_drop]
  rw [hsplit]
  by_cases hmem : ∃ e ∈ log.drop n, e.1 = k
  · exact replay_of_mem hmem _ _
  · refine replay_congr _ ?_
    -- the key is not written after the place, so its later states are all the same
    obtain ⟨p, hp, hk⟩ := h k
    have htake : log.take p = log.take n ++ (log.drop n).take (p - n) := by
      rw [← List.take_add, Nat.add_sub_cancel' hp]
    rw [hk, htake, replay_append]
    refine replay_of_not_mem _ fun e he hek => hmem ⟨e, List.mem_of_mem_take he, hek⟩

theorem replay_swap {a b : List (κ × Option ν)} (h : ∀ e ∈ a, ∀ e' ∈ b, e.1 ≠ e'.1)
    (m : κ → Option ν) : replay a (replay b m) = replay b (replay a m) := by
  funext k
  by_cases hk : ∀ e ∈ a, e.1 ≠ k
  · rw [replay_of_not_mem _ hk]
    exact replay_congr b (replay_of_not_mem m hk).symm
  · push Not at hk
    obtain ⟨e, he, rfl⟩ := hk
    have hb : ∀ e' ∈ b, e'.1 ≠ e.1 := fun e' he' => (h e he e' he').symm
    rw [replay_of_not_mem (replay a m) hb]
    exact replay_congr a (replay_of_not_mem m hb)

/-- The map after `f` has been applied at the keys of a list, one after the
other. -/
def touch (f : Option ν → Option ν) (keys : List κ) (m : κ → Option ν) : κ → Option ν :=
  keys.foldl (fun m k => Function.update m k (f (m k))) m

@[simp] theorem touch_nil (f : Option ν → Option ν) (m : κ → Option ν) : touch f [] m = m := rfl

@[simp] theorem touch_cons (f : Option ν → Option ν) (k : κ) (keys : List κ) (m : κ → Option ν) :
    touch f (k :: keys) m = touch f keys (Function.update m k (f (m k))) := rfl

theorem touch_apply {f : Option ν → Option ν} (hf : ∀ v, f (f v) = f v) (keys : List κ)
    (m : κ → Option ν) (k : κ) : touch f keys m k = if k ∈ keys then f (m k) else m k := by
  induction keys generalizing m with
  | nil => simp
  | cons j keys ih =>
    rw [touch_cons, ih, Function.update_apply]
    by_cases hk : k = j
    · subst hk
      simp [hf]
    · simp [hk]

theorem touch_eq_self_iff {f : Option ν → Option ν} (hf : ∀ v, f (f v) = f v) (keys : List κ)
    (m : κ → Option ν) : touch f keys m = m ↔ ∀ k ∈ keys, f (m k) = m k := by
  constructor
  · intro h k hk
    have hap := congrFun h k
    rwa [touch_apply hf, if_pos hk] at hap
  · intro h
    funext k
    rw [touch_apply hf]
    split
    · exact h k ‹_›
    · rfl

end FastDht.Lib
