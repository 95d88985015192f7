import FastDht.Lib.KeyedLog

/-! # Two maps that exchange their writes

Both maps are written to, and each sends its writes to the other in order. The
writes that are on their way in the two directions are of different keys. -/
namespace FastDht.Lib

variable {κ ν : Type*} [DecidableEq κ]

/-- The writes `p` of `m` are on their way to `m'`, and the writes `p'` of `m'` to
`m`. -/
structure Exchange (m m' : κ → Option ν) (p p' : List (κ × Option ν)) : Prop where
  apart : ∀ e ∈ p, ∀ e' ∈ p', e.1 ≠ e'.1
  ahead : ∀ k, (∀ e ∈ p', e.1 ≠ k) → m k = replay p m' k
  behind : ∀ k, (∀ e ∈ p, e.1 ≠ k) → m' k = replay p' m k

namespace Exchange

variable {m m' : κ → Option ν} {p p' : List (κ × Option ν)}

theorem refl (m : κ → Option ν) : Exchange m m [] [] := ⟨by simp, fun _ _ => rfl, fun _ _ => rfl⟩

theorem symm (h : Exchange m m' p p') : Exchange m' m p' p :=
  ⟨fun e he e' he' => (h.apart e' he' e he).symm, h.behind, h.ahead⟩

theorem write (h : Exchange m m' p p') {l : List (κ × Option ν)}
    (hl : ∀ e ∈ l, ∀ e' ∈ p', e.1 ≠ e'.1) : Exchange (replay l m) m' (p ++ l) p' where
  apart := fun e he e' he' => (List.mem_append.mp he).elim (h.apart e · e' he') (hl e · e' he')
  ahead := by
    intro k hk
    rw [replay_append]
    exact replay_congr l (h.ahead k hk)
  behind := by
    intro k hk
    have hm : replay l m k = m k := replay_of_not_mem m fun e he => hk e (List.mem_append_right _ he)
    rw [h.behind k fun e he => hk e (List.mem_append_left _ he)]
    exact replay_congr p' hm.symm

theorem deliver {e : κ × Option ν} (h : Exchange m m' (e :: p) p') :
    Exchange m (Function.update m' e.1 e.2) p p' where
  apart := fun d hd => h.apart d (List.mem_cons_of_mem _ hd)
  ahead := h.ahead
  behind := by
    intro k hk
    by_cases he : e.1 = k
    · -- nothing comes back under the key, and its last write is this one
      subst he
      have hback : ∀ e' ∈ p', e'.1 ≠ e.1 := fun e' he' =>
        (h.apart e List.mem_cons_self e' he').symm
      rw [replay_of_not_mem m hback, h.ahead _ hback, replay_cons, replay_of_not_mem _ hk]
    · rw [Function.update_of_ne (Ne.symm he)]
      refine h.behind k fun d hd => ?_
      rcases List.mem_cons.mp hd with rfl | hd
      · exact he
      · exact hk d hd

theorem eq_of_done (h : Exchange m m' [] []) : m = m' := funext fun k => h.ahead k (by simp)

end Exchange

end FastDht.Lib
