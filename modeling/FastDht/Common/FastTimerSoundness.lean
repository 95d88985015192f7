import FastDht.Common.FastTimer
import Mathlib.Data.Finset.Card
import Mathlib.Data.Int.Order.Lemmas

/-! # One call of `fast_timer_timeouts_get`

The loops take the slots of the seconds that have passed. An entry is found in time when
its slot is visited before it is asked for; the loops keep that of all entries that stay,
and leave none behind that has expired. -/
namespace FastDht.FastTimer
open Lib

variable {ε : Type} [DecidableEq ε]

/-! ## Slots -/

theorem fastTimerAdd_eq (t : FastTimer ε) (e : ε) : t.fastTimerAdd e =
    { t with links := t.links.push (t.slotPointer (max (t.expires e) t.currentTime)) e } := by
  unfold fastTimerAdd
  split_ifs with h
  · rw [max_eq_left h.le]
  · rw [max_eq_right (not_lt.mp h)]

theorem fastTimerAdd_setExpires (t : FastTimer ε) (e : ε) (x : Int) :
    (t.setExpires e x).fastTimerAdd e = { t.setExpires e x with
      links := t.links.push (t.slotPointer (max x t.currentTime)) e } := by
  have hx : (t.setExpires e x).expires e = x := Function.update_self _ _ _
  rw [fastTimerAdd_eq, hx]
  rfl

theorem fastTimerRemove_eq (t : FastTimer ε) {e : ε} {p : Link TimerHead ε}
    (h : t.links.prev e = some p) :
    (t.fastTimerRemove e).2 = { t with links := t.links.unlink e } := by
  unfold fastTimerRemove
  rw [h]

/-- An entry of slot `s` that is asked for at `now`: the slot is visited in time, and
where the entry has not expired then it is in the slot of its expiry or will be moved. -/
structure Placed (t : FastTimer ε) (now s : Int) (e : ε) : Prop where
  due : ∃ time, t.currentTime ≤ time ∧ time ≤ max (t.expires e) (now - 1) ∧ t.slotIndex time = s
  settled : now ≤ t.expires e → t.rehash e = true ∨ t.slotIndex (t.expires e) = s

def HasSlot (t : FastTimer ε) (i : Int) : Prop := 0 ≤ i ∧ i < t.slotCount

omit [DecidableEq ε] in
theorem hasSlot_slotIndex {t : FastTimer ε} (h : 0 < t.slotCount) {x : Int}
    (hx : t.baseTime ≤ x) : t.HasSlot (t.slotIndex x) :=
  ⟨Int.tmod_nonneg _ (by omega), Int.tmod_lt_of_pos _ h⟩

/-- The slots are lists of the entries of `wheel`. -/
structure Slotted (t : FastTimer ε) (wheel : Finset ε) (l : Int → List ε) : Prop where
  slots : 0 < t.slotCount
  times : t.baseTime ≤ t.currentTime
  lists : t.links.Lists .slot l
  range : ∀ s, ∀ e ∈ l s, t.HasSlot s
  mem : ∀ e, e ∈ wheel ↔ ∃ s, e ∈ l s

namespace Timeouts

/-- Between two slots of a call for `now`: `r` has been found, the slots hold `l`. If all
entries were in a good place at the start, those of the slots still are; but an entry of
`todo` may be in a slot that is not visited again. -/
structure Sweep (s : Timeouts ε) (good : Prop) (now : Int) (wheel : Finset ε)
    (l : Int → List ε) (r todo : List ε) : Prop where
  slots : 0 < s.timer.slotCount
  times : s.timer.baseTime ≤ s.timer.currentTime
  before : s.timer.currentTime ≤ now
  lists : s.timer.links.Lists .slot l
  range : ∀ j, ∀ e ∈ l j, s.timer.HasSlot j
  result : s.timer.links.Open .result r
  tail : s.tail = Links.lastOf (.anchor .result) r
  apart : ∀ j, ∀ e ∈ r, e ∉ l j
  mem : ∀ e, e ∈ wheel ↔ e ∈ r ∨ ∃ j, e ∈ l j
  expired : ∀ e ∈ r, s.timer.expires e < now
  settled : good → ∀ j, ∀ e ∈ l j, now ≤ s.timer.expires e →
    s.timer.rehash e = true ∨ s.timer.slotIndex (s.timer.expires e) = j
  due : good → ∀ j, ∀ e ∈ l j, e ∉ todo → ∃ time, s.timer.currentTime ≤ time ∧
    time ≤ max (s.timer.expires e) (now - 1) ∧ s.timer.slotIndex time = j

/-- Within slot `i`: the entries `a` stay, those of `run` have expired and are still in
the slot, and `rest` is to come. -/
structure InSlot (s : Timeouts ε) (good : Prop) (now : Int) (wheel : Finset ε)
    (l : Int → List ε) (r : List ε) (i : Int) (a run rest : List ε) : Prop where
  sweep : s.Sweep good now wheel l r (run ++ rest)
  split : l i = a ++ (run ++ rest)
  entry : s.entry = rest.head?
  first : s.first = run.head?
  last : ∀ e, run.getLast? = some e → s.last = some e
  late : ∀ e ∈ run, s.timer.expires e < now
  count : s.count = (r ++ run).length

/-- The clock and the expiries, which a call for the timeouts leaves alone within a slot. -/
def SameTimes (s s' : Timeouts ε) : Prop :=
  s'.timer.currentTime = s.timer.currentTime ∧ s'.timer.expires = s.timer.expires

theorem slot_injective : Function.Injective TimerHead.slot := fun _ _ h => TimerHead.slot.inj h

/-! ## More fuel -/

theorem slotLoop_mono {now : Int} {fuel fuel' : Nat} (hle : fuel ≤ fuel') {s s' : Timeouts ε}
    (h : s.slotLoop now fuel = some s') : s.slotLoop now fuel' = some s' := by
  induction fuel generalizing s fuel' with
  | zero => cases h
  | succ fuel ih =>
    obtain ⟨fuel', rfl⟩ := Nat.exists_eq_add_of_le' (Nat.one_le_of_lt hle)
    unfold slotLoop at h ⊢
    cases hentry : s.entry with
    | none =>
      rw [hentry] at h
      exact h
    | some e =>
      rw [hentry] at h
      obtain ⟨s₁, hvisit, hrest⟩ := Option.bind_eq_some_iff.mp h
      exact Option.bind_eq_some_iff.mpr ⟨s₁, hvisit, ih (Nat.le_of_succ_le_succ hle) hrest⟩

theorem timeLoop_mono {now : Int} {fuel fuel' turns turns' : Nat} (hle : fuel ≤ fuel')
    (hturns : turns ≤ turns') {s s' : Timeouts ε} (h : s.timeLoop fuel now turns = some s') :
    s.timeLoop fuel' now turns' = some s' := by
  induction turns generalizing s turns' with
  | zero => cases h
  | succ turns ih =>
    obtain ⟨turns', rfl⟩ := Nat.exists_eq_add_of_le' (Nat.one_le_of_lt hturns)
    unfold timeLoop at h ⊢
    split_ifs at h ⊢ with hnow
    · obtain ⟨s₂, hslot, hrest⟩ := Option.bind_eq_some_iff.mp h
      obtain ⟨s₁, hloop, hflush⟩ := Option.bind_eq_some_iff.mp hslot
      rw [slotLoop_mono hle hloop, Option.bind_some, hflush]
      exact ih (Nat.le_of_succ_le_succ hturns) hrest
    · exact h

/-! ## Loops -/

section Slot

variable {good : Prop} {s : Timeouts ε} {now i : Int} {wheel : Finset ε} {l : Int → List ε}
  {r a run rest : List ε} {e : ε}

/-- **The expired entries are moved to the result.** -/
theorem InSlot.flush (h : s.InSlot good now wheel l r i a run rest) :
    ∃ s', s.flush rest.head? = some s' ∧
      s'.InSlot good now wheel (Function.update l i (a ++ rest)) (r ++ run) i a [] rest ∧
      s'.timer.rehash = s.timer.rehash ∧ s.SameTimes s' := by
  unfold Timeouts.flush
  rw [h.first]
  cases run with
  | nil =>
    have hl : Function.update l i (a ++ rest) = l := by
      have hsplit := h.split
      rw [List.nil_append] at hsplit
      rw [← hsplit, Function.update_eq_self]
    refine ⟨s, rfl, ?_, rfl, rfl, rfl⟩
    rw [hl, List.append_nil]
    exact h
  | cons first run =>
    have hprev := h.sweep.lists.prev_eq h.split
    obtain ⟨last, hlast⟩ : ∃ last, (first :: run).getLast? = some last :=
      ⟨_, List.getLast?_eq_getLast_of_ne_nil (List.cons_ne_nil _ _)⟩
    have hresult : ∀ j, TimerHead.result ≠ .slot j := nofun
    have hlists := h.sweep.lists.splice slot_injective h.split hresult h.sweep.apart
    have hopen := h.sweep.lists.splice_open h.split h.sweep.result hresult h.sweep.apart
    have hmem : ∀ y, y ∈ l i ↔ y ∈ a ∨ y ∈ first :: run ∨ y ∈ rest := by
      intro y
      rw [h.split, List.mem_append, List.mem_append]
    have hkept : ∀ j y, y ∈ Function.update l i (a ++ rest) j → y ∈ l j := by
      intro j y hy
      rcases Links.Lists.mem_update.mp hy with ⟨rfl, hin⟩ | ⟨-, hin⟩
      · exact (hmem y).mpr ((List.mem_append.mp hin).imp_right .inr)
      · exact hin
    have hnodup := h.sweep.lists.nodup i
    rw [h.split] at hnodup
    have hmoved : ∀ j, ∀ y ∈ first :: run, y ∉ Function.update l i (a ++ rest) j := by
      intro j y hy hyj
      have hji := h.sweep.lists.disjoint (hkept j y hyj) ((hmem y).mpr (.inr (.inl hy)))
      rw [hji, Function.update_self, List.mem_append] at hyj
      rw [List.nodup_append, List.nodup_append] at hnodup
      obtain ⟨-, ⟨-, -, hrest⟩, ha⟩ := hnodup
      exact hyj.elim (fun hya => ha y hya y (List.mem_append_left _ hy) rfl)
        (fun hyr => hrest y hy y hyr rfl)
    simp only [List.head?_cons, hprev, h.last last hlast]
    refine ⟨_, rfl, ?_, rfl, rfl, rfl⟩
    refine ⟨⟨h.sweep.slots, h.sweep.times, h.sweep.before, ?_,
      fun j y hy => h.sweep.range j y (hkept j y hy), ?_, ?_, ?_, ?_, ?_, ?_, ?_⟩,
      ?_, h.entry, rfl, nofun, nofun, ?_⟩
    · rw [h.sweep.tail]
      exact hlists
    · rw [h.sweep.tail]
      exact hopen
    · exact (Links.lastOf_append.trans (Links.lastOf_of_getLast? hlast)).symm
    · intro j y hy
      rcases List.mem_append.mp hy with hy | hy
      · exact fun hyj => h.sweep.apart j y hy (hkept j y hyj)
      · exact hmoved j y hy
    · intro y
      rw [h.sweep.mem, List.mem_append, or_assoc]
      refine or_congr_right ⟨?_, ?_⟩
      · rintro ⟨j, hj⟩
        by_cases hji : j = i
        · rw [hji, hmem] at hj
          rcases hj with hj | hj | hj
          · exact .inr ⟨i, Links.Lists.mem_update.mpr (.inl ⟨rfl, List.mem_append_left _ hj⟩)⟩
          · exact .inl hj
          · exact .inr ⟨i, Links.Lists.mem_update.mpr (.inl ⟨rfl, List.mem_append_right _ hj⟩)⟩
        · exact .inr ⟨j, Links.Lists.mem_update.mpr (.inr ⟨hji, hj⟩)⟩
      · rintro (hy | ⟨j, hj⟩)
        · exact ⟨i, (hmem y).mpr (.inr (.inl hy))⟩
        · exact ⟨j, hkept j y hj⟩
    · intro y hy
      exact (List.mem_append.mp hy).elim (h.sweep.expired y) (h.late y)
    · exact fun hgood j y hy => h.sweep.settled hgood j y (hkept j y hy)
    · intro hgood j y hy hrest
      refine h.sweep.due hgood j y (hkept j y hy) fun htodo => ?_
      exact (List.mem_append.mp htodo).elim (fun hrun => hmoved j y hrun hy) hrest
    · rw [Function.update_self, List.nil_append]
    · rw [List.append_nil]
      exact h.count

omit [DecidableEq ε] in
theorem InSlot.next_eq (h : s.InSlot good now wheel l r i a run (e :: rest)) :
    s.timer.links.next (.entry e) = rest.head? := by
  have hsplit := h.split
  rw [← List.append_assoc] at hsplit
  exact h.sweep.lists.next_eq hsplit

theorem InSlot.expired (h : s.InSlot good now wheel l r i a run (e :: rest))
    (he : s.timer.expires e < now) :
    ∃ s', s.visit now e = some s' ∧ s'.InSlot good now wheel l r i a (run ++ [e]) rest ∧
      s.SameTimes s' := by
  unfold visit
  rw [if_neg (not_le.mpr he)]
  have htodo : run ++ [e] ++ rest = run ++ e :: rest := List.append_assoc _ _ _
  have hsweep := h.sweep
  refine ⟨_, rfl, ⟨?_, ?_, h.next_eq, ?_, ?_, ?_, ?_⟩, rfl, rfl⟩
  · rw [htodo]
    exact ⟨hsweep.slots, hsweep.times, hsweep.before, hsweep.lists, hsweep.range,
    hsweep.result, hsweep.tail,
      hsweep.apart, hsweep.mem, hsweep.expired, hsweep.settled, hsweep.due⟩
  · rw [htodo]
    exact h.split
  · rw [List.head?_append, ← h.first]
    rfl
  · intro y hy
    rw [List.getLast?_concat] at hy
    exact hy
  · intro y hy
    rcases List.mem_append.mp hy with hy | hy
    · exact h.late y hy
    · rw [List.mem_singleton.mp hy]
      exact he
  · rw [← List.append_assoc, List.length_append, Nat.cast_add, ← h.count]
    rfl

theorem InSlot.stays (h : s.InSlot good now wheel l r i a [] (e :: rest))
    (he : now ≤ s.timer.expires e) (hrehash : s.timer.rehash e = false) :
    (s.advance e).InSlot good now wheel l r i (a ++ [e]) [] rest := by
  have hsweep := h.sweep
  have hmem : e ∈ l i := by
    rw [h.split]
    exact List.mem_append_right _ List.mem_cons_self
  have hslot : good → s.timer.slotIndex (s.timer.expires e) = i := fun hgood =>
    (hsweep.settled hgood i e hmem he).resolve_left (by rw [hrehash]; exact Bool.false_ne_true)
  refine ⟨⟨hsweep.slots, hsweep.times, hsweep.before, hsweep.lists, hsweep.range,
    hsweep.result, hsweep.tail,
    hsweep.apart, hsweep.mem, hsweep.expired, hsweep.settled, ?_⟩, ?_, h.next_eq, h.first, nofun,
    nofun, h.count⟩
  · intro hgood j y hy hrest
    by_cases hye : y = e
    · subst hye
      have hj := hsweep.lists.disjoint hy hmem
      exact ⟨s.timer.expires y, hsweep.before.trans he, le_max_left _ _,
        (hslot hgood).trans hj.symm⟩
    · exact hsweep.due hgood j y hy fun htodo => (List.mem_cons.mp htodo).elim hye hrest
  · rw [h.split]
    exact (List.append_assoc a [e] rest).symm

theorem InSlot.moves (h : s.InSlot good now wheel l r i a [] (e :: rest))
    (he : now ≤ s.timer.expires e) {s' : Timeouts ε} (hs' : s' = { s.advance e with
      timer := (((s.advance e).timer.setRehash e false).fastTimerRemove e).2.fastTimerAdd e }) :
    (∃ l' a', s'.InSlot good now wheel l' r i a' [] rest) ∧ s.SameTimes s' := by
  have hsweep := h.sweep
  have hsplit : l i = a ++ e :: rest := h.split
  have hlate : max (s.timer.expires e) s.timer.currentTime = s.timer.expires e :=
    max_eq_left (hsweep.before.trans he)
  obtain ⟨j, hj⟩ : ∃ j, j = s.timer.slotIndex (s.timer.expires e) := ⟨_, rfl⟩
  have hremove : (((s.advance e).timer.setRehash e false).fastTimerRemove e).2 =
      { s.timer.setRehash e false with links := s.timer.links.unlink e } :=
    fastTimerRemove_eq _ (hsweep.lists.prev_eq hsplit)
  rw [hremove, fastTimerAdd_eq] at hs'
  obtain ⟨links, hlinks⟩ : ∃ m, m = (s.timer.links.unlink e).push (.anchor (.slot j)) e := ⟨_, rfl⟩
  have hs' : s' = { s.advance e with timer := { s.timer.setRehash e false with links } } := by
    rw [hs', hlinks, hj]
    conv_rhs => rw [← hlate]
    rfl
  obtain ⟨l₁, hl₁⟩ : ∃ l₁, l₁ = Function.update l i (a ++ rest) := ⟨_, rfl⟩
  have hmem₁ : ∀ k y, y ∈ l₁ k ↔ y ≠ e ∧ y ∈ l k := by
    intro k y
    rw [hl₁]
    exact hsweep.lists.mem_unlinked hsplit
  have hlists₁ : (s.timer.links.unlink e).Lists .slot l₁ := by
    rw [hl₁]
    exact hsweep.lists.unlink slot_injective hsplit
  have hlists := hlists₁.push slot_injective j fun k hk => ((hmem₁ k e).mp hk).1 rfl
  have hmem : ∀ k y, y ∈ Function.update l₁ j (e :: l₁ j) k ↔
      (k = j ∧ y = e) ∨ (y ≠ e ∧ y ∈ l k) := by
    intro k y
    rw [Links.Lists.mem_pushed, hmem₁]
  have her : e ∉ r := fun her => hsweep.apart i e her (by rw [hsplit]; simp)
  have hopen := hlists₁.push_open (i := j)
    (hsweep.lists.unlink_open hsplit hsweep.result nofun (hsweep.apart i)) nofun
    (fun y hy hyj => hsweep.apart j y hy ((hmem₁ j y).mp hyj).2) her
  rw [← hlinks] at hlists hopen
  subst hs'
  refine ⟨⟨Function.update l₁ j (e :: l₁ j), if j = i then e :: a else a,
    ⟨hsweep.slots, hsweep.times, hsweep.before, hlists, ?_, hopen, hsweep.tail, ?_, ?_,
      hsweep.expired, ?_, ?_⟩, ?_, h.next_eq, h.first, nofun, nofun, h.count⟩, rfl, rfl⟩
  · intro k y hy
    rcases (hmem k y).mp hy with ⟨hk, -⟩ | ⟨-, hy⟩
    · rw [hk, hj]
      exact hasSlot_slotIndex hsweep.slots (hsweep.times.trans (hsweep.before.trans he))
    · exact hsweep.range k y hy
  · intro k y hy hyk
    rcases (hmem k y).mp hyk with ⟨-, rfl⟩ | ⟨-, hyk⟩
    · exact her hy
    · exact hsweep.apart k y hy hyk
  · intro y
    rw [hsweep.mem]
    refine or_congr_right ⟨?_, ?_⟩
    · rintro ⟨k, hk⟩
      by_cases hye : y = e
      · exact ⟨j, (hmem j y).mpr (.inl ⟨rfl, hye⟩)⟩
      · exact ⟨k, (hmem k y).mpr (.inr ⟨hye, hk⟩)⟩
    · rintro ⟨k, hk⟩
      rcases (hmem k y).mp hk with ⟨-, rfl⟩ | ⟨-, hk⟩
      · exact ⟨i, by rw [hsplit]; simp⟩
      · exact ⟨k, hk⟩
  · intro hgood k y hy hlate
    rcases (hmem k y).mp hy with ⟨hk, rfl⟩ | ⟨hne, hy⟩
    · exact .inr (hj.symm.trans hk.symm)
    · refine (hsweep.settled hgood k y hy hlate).imp_left fun hrehash => ?_
      exact (Function.update_of_ne hne _ _).trans hrehash
  · intro hgood k y hy hrest
    rcases (hmem k y).mp hy with ⟨hk, rfl⟩ | ⟨hne, hy⟩
    · exact ⟨s.timer.expires y, hsweep.before.trans he, le_max_left _ _, hj.symm.trans hk.symm⟩
    · exact hsweep.due hgood k y hy fun htodo => (List.mem_cons.mp htodo).elim hne hrest
  · by_cases hji : j = i
    · rw [hji, if_pos rfl, Function.update_self, hl₁, Function.update_self]
      rfl
    · rw [if_neg hji, Function.update_of_ne (Ne.symm hji), hl₁, Function.update_self]
      rfl

omit [DecidableEq ε] in
theorem SameTimes.trans {s₁ s₂ s₃ : Timeouts ε} (h : s₁.SameTimes s₂) (h' : s₂.SameTimes s₃) :
    s₁.SameTimes s₃ :=
  ⟨h'.1.trans h.1, h'.2.trans h.2⟩

/-- **One turn of the inner loop.** -/
theorem InSlot.visit (h : s.InSlot good now wheel l r i a run (e :: rest)) :
    ∃ s' l' r' a' run', s.visit now e = some s' ∧
      s'.InSlot good now wheel l' r' i a' run' rest ∧ s.SameTimes s' := by
  by_cases he : now ≤ s.timer.expires e
  · obtain ⟨s₁, hflush, h₁, hrehash, htimes⟩ := h.flush
    have he₁ : now ≤ s₁.timer.expires e := by
      rw [htimes.2]
      exact he
    unfold Timeouts.visit
    rw [if_pos he, show some e = (e :: rest).head? from rfl, hflush, Option.map_some]
    by_cases hmove : s₁.timer.rehash e = true
    · obtain ⟨⟨l', a', hmoved⟩, htimes'⟩ := h₁.moves he₁ rfl
      exact ⟨_, l', _, a', [], congrArg some (if_pos hmove), hmoved, htimes.trans htimes'⟩
    · exact ⟨_, _, _, _, [], congrArg some (if_neg hmove),
        h₁.stays he₁ (Bool.not_eq_true _ ▸ hmove), htimes⟩
  · obtain ⟨s', hvisit, h', htimes⟩ := h.expired (not_le.mp he)
    exact ⟨s', l, r, a, run ++ [e], hvisit, h', htimes⟩

/-- **The inner loop comes to the end of the slot.** -/
theorem InSlot.slotLoop (h : s.InSlot good now wheel l r i a run rest) {fuel : Nat}
    (hfuel : rest.length < fuel) :
    ∃ s' l' r' a' run', s.slotLoop now fuel = some s' ∧
      s'.InSlot good now wheel l' r' i a' run' [] ∧ s.SameTimes s' := by
  induction rest generalizing s l r a run fuel with
  | nil =>
    obtain ⟨fuel, rfl⟩ := Nat.exists_eq_add_of_lt hfuel
    refine ⟨s, l, r, a, run, ?_, h, rfl, rfl⟩
    unfold Timeouts.slotLoop
    rw [h.entry]
    rfl
  | cons e rest ih =>
    obtain ⟨fuel, rfl⟩ := Nat.exists_eq_succ_of_ne_zero (Nat.ne_zero_of_lt hfuel)
    obtain ⟨s₁, l₁, r₁, a₁, run₁, hvisit, h₁, htimes⟩ := h.visit
    obtain ⟨s', l', r', a', run', hloop, h', htimes'⟩ := ih h₁ (Nat.lt_of_succ_lt_succ hfuel)
    refine ⟨s', l', r', a', run', ?_, h', htimes.trans htimes'⟩
    unfold Timeouts.slotLoop
    rw [h.entry]
    show (s.visit now e).bind _ = _
    rw [hvisit]
    exact hloop

/-- Between two slots no run is pending. -/
structure Rests (s : Timeouts ε) (good : Prop) (now : Int) (wheel : Finset ε)
    (l : Int → List ε) (r : List ε) : Prop where
  sweep : s.Sweep good now wheel l r []
  first : s.first = none
  count : s.count = r.length

omit [DecidableEq ε] in
/-- The slot of the current second is opened; the others are visited later. -/
theorem Rests.openSlot (h : s.Rests good now wheel l r) (hnow : s.timer.currentTime < now) :
    s.openSlot.InSlot good now wheel l r (s.timer.slotIndex s.timer.currentTime) [] []
      (l (s.timer.slotIndex s.timer.currentTime)) := by
  have hsweep := h.sweep
  refine ⟨⟨hsweep.slots, hsweep.times.trans (Int.le_add_one le_rfl), hnow, hsweep.lists,
    hsweep.range, hsweep.result, hsweep.tail, hsweep.apart, hsweep.mem, hsweep.expired,
    hsweep.settled, ?_⟩,
    rfl, (hsweep.lists.spells _).next_eq, h.first, nofun, nofun, ?_⟩
  · intro hgood j e he hrest
    obtain ⟨time, htime, hmax, hslot⟩ := hsweep.due hgood j e he List.not_mem_nil
    refine ⟨time, ?_, hmax, hslot⟩
    rcases htime.lt_or_eq with hlt | heq
    · exact hlt
    · exact absurd (by rwa [heq, hslot]) hrest
  · rw [List.append_nil]
    exact h.count

theorem InSlot.length_le (h : s.InSlot good now wheel l r i a run rest) : rest.length ≤ wheel.card := by
  have hnodup := h.sweep.lists.nodup i
  rw [h.split, List.nodup_append, List.nodup_append] at hnodup
  rw [← List.toFinset_card_of_nodup hnodup.2.1.2.1]
  refine Finset.card_le_card fun e he => (h.sweep.mem e).mpr (.inr ⟨i, ?_⟩)
  rw [h.split]
  exact List.mem_append_right _ (List.mem_append_right _ (List.mem_toFinset.mp he))

/-- **One slot.** -/
theorem Rests.slot (h : s.Rests good now wheel l r) (hnow : s.timer.currentTime < now) {fuel : Nat}
    (hfuel : wheel.card < fuel) :
    ∃ s' l' r', (s.openSlot.slotLoop now fuel).bind (·.flush none) = some s' ∧
      s'.Rests good now wheel l' r' ∧ s'.timer.currentTime = s.timer.currentTime + 1 ∧
      s'.timer.expires = s.timer.expires := by
  have hopen := h.openSlot hnow
  obtain ⟨s₁, l₁, r₁, a₁, run₁, hloop, h₁, htimes⟩ :=
    hopen.slotLoop (hopen.length_le.trans_lt hfuel)
  obtain ⟨s', hflush, h', -, htimes'⟩ := h₁.flush
  refine ⟨s', _, _, ?_, ⟨h'.sweep, h'.first, ?_⟩, htimes'.1.trans htimes.1,
    htimes'.2.trans htimes.2⟩
  · rw [hloop]
    exact hflush
  · rw [h'.count, List.append_nil]

/-- **The outer loop visits all slots up to `now`.** -/
theorem Rests.timeLoop (h : s.Rests good now wheel l r) {fuel turns : Nat} (hfuel : wheel.card < fuel)
    (hturns : (now - s.timer.currentTime).toNat < turns) :
    ∃ s' l' r', s.timeLoop fuel now turns = some s' ∧ s'.Rests good now wheel l' r' ∧
      s'.timer.currentTime = now ∧ s'.timer.expires = s.timer.expires := by
  induction turns generalizing s l r with
  | zero => exact absurd hturns (Nat.not_lt_zero _)
  | succ turns ih =>
    unfold Timeouts.timeLoop
    split_ifs with hnow
    · obtain ⟨s₁, l₁, r₁, hslot, h₁, htime, hexpires⟩ := h.slot hnow hfuel
      obtain ⟨s', l', r', hloop, h', htime', hexpires'⟩ := ih h₁ (by omega)
      refine ⟨s', l', r', ?_, h', htime', hexpires'.trans hexpires⟩
      rw [hslot]
      exact hloop
    · exact ⟨s, l, r, rfl, h, le_antisymm h.sweep.before (not_lt.mp hnow), rfl⟩

end Slot

end Timeouts

theorem fastTimerTimeoutsGet_mono {t : FastTimer ε} {now : Int} {fuel fuel' : Nat}
    (hle : fuel ≤ fuel') {r : Int × FastTimer ε} (h : t.fastTimerTimeoutsGet now fuel = some r) :
    t.fastTimerTimeoutsGet now fuel' = some r := by
  unfold fastTimerTimeoutsGet at h ⊢
  dsimp only at h ⊢
  split_ifs at h ⊢ with hnow
  · exact h
  · obtain ⟨s, hloop, hr⟩ := Option.map_eq_some_iff.mp h
    exact Option.map_eq_some_iff.mpr ⟨s, Timeouts.timeLoop_mono hle hle hloop, hr⟩

/-- After a call for `now`: the list of the entries that are returned, all of them expired,
and the slots with the others. -/
structure Returned (t : FastTimer ε) (now : Int) (wheel : Finset ε) (l : Int → List ε)
    (out : List ε) : Prop where
  slots : 0 < t.slotCount
  times : t.baseTime ≤ t.currentTime
  lists : t.links.Lists .slot l
  range : ∀ s, ∀ e ∈ l s, t.HasSlot s
  spells : t.links.Spells (.anchor .result) out none
  back : t.links.Back (.anchor .result) out
  nodup : out.Nodup
  apart : ∀ j, ∀ e ∈ out, e ∉ l j
  mem : ∀ e, e ∈ wheel ↔ e ∈ out ∨ ∃ j, e ∈ l j
  expired : ∀ e ∈ out, t.expires e < now

/-- **A call for the timeouts divides the wheel.** Where all entries were in a good place,
so are those that stay. -/
theorem Slotted.timeouts {t : FastTimer ε} {wheel : Finset ε} {l : Int → List ε} {now : Int}
    {fuel : Nat} (h : t.Slotted wheel l) (hnow : t.currentTime < now) (hcard : wheel.card < fuel)
    (htime : (now - t.currentTime).toNat < fuel) :
    ∃ t' out l', t.fastTimerTimeoutsGet now fuel = some (out.length, t') ∧
      t'.Returned now wheel l' out ∧ t'.currentTime = now ∧ t'.expires = t.expires ∧
      ((∀ s, ∀ e ∈ l s, t.Placed (t.currentTime + 1) s e) →
        ∀ s, ∀ e ∈ l' s, t'.Placed now s e) := by
  have hresult : ∀ j, TimerHead.result ≠ .slot j := nofun
  have hempty : (t.links.setNext (.anchor .result) none).Open .result [] :=
    ⟨⟨none, Links.setNext_self _ _ _, fun _ => rfl⟩, trivial, List.nodup_nil⟩
  have hrests : (⟨{ t with links := t.links.setNext (.anchor .result) none }, none, none, none,
      .anchor .result, 0⟩ : Timeouts ε).Rests
        (∀ s, ∀ e ∈ l s, t.Placed (t.currentTime + 1) s e) now wheel l [] := by
    refine ⟨⟨h.slots, h.times, hnow.le, ?_, h.range, hempty, rfl, fun _ => nofun, ?_, nofun, ?_,
      ?_⟩, rfl, rfl⟩
    · refine h.lists.frame (fun i => ?_) (fun i e _ => ?_) fun _ _ _ => rfl
      · exact Links.setNext_of_ne _ fun heq => hresult i (Link.anchor.inj heq).symm
      · exact Links.setNext_of_ne _ nofun
    · intro e
      rw [h.mem]
      exact ⟨.inr, fun hor => hor.resolve_left List.not_mem_nil⟩
    · exact fun hplaced j e he hlate => (hplaced j e he).settled (hnow.trans_le hlate)
    · intro hplaced j e he _
      obtain ⟨time, hcur, hmax, hslot⟩ := (hplaced j e he).due
      refine ⟨time, hcur, hmax.trans (max_le_max le_rfl ?_), hslot⟩
      omega
  obtain ⟨s, l', r, hloop, hs, htime', hexpires⟩ := hrests.timeLoop hcard htime
  have hsweep := hs.sweep
  have hplaced : (∀ s, ∀ e ∈ l s, t.Placed (t.currentTime + 1) s e) →
      ∀ j, ∀ e ∈ l' j, s.timer.Placed now j e := fun hgood j e he =>
    ⟨hsweep.due hgood j e he List.not_mem_nil, hsweep.settled hgood j e he⟩
  obtain ⟨hlists, hspells⟩ := hsweep.lists.close hsweep.result hresult hsweep.apart
  rw [← hsweep.tail] at hlists hspells
  unfold fastTimerTimeoutsGet
  rw [if_neg (not_le.mpr hnow)]
  dsimp only
  rw [hloop, Option.map_some]
  by_cases hcount : s.count > 0
  · refine ⟨{ s.timer with links := s.timer.links.setNext s.tail none }, r, l',
      by rw [if_pos hcount, hs.count], ?_, htime', hexpires, ?_⟩
    · have hback : (s.timer.links.setNext s.tail none).Back (.anchor .result) r :=
        hsweep.result.back.of_prev fun _ _ => rfl
      exact ⟨hsweep.slots, hsweep.times, hlists, hsweep.range, hspells, hback, hsweep.result.nodup,
        hsweep.apart, hsweep.mem, hsweep.expired⟩
    · exact fun hgood j e he => ⟨(hplaced hgood j e he).due, (hplaced hgood j e he).settled⟩
  · have hr : r = [] := by
      rw [hs.count] at hcount
      exact List.eq_nil_of_length_eq_zero (by omega)
    obtain ⟨z, hz, hnone⟩ := hsweep.result.spells
    rw [hnone hr] at hz
    refine ⟨_, r, l', by rw [if_neg hcount, hs.count], ?_, htime', hexpires, hplaced⟩
    exact ⟨hsweep.slots, hsweep.times, hsweep.lists, hsweep.range, hz, hsweep.result.back,
      hsweep.result.nodup, hsweep.apart, hsweep.mem, hsweep.expired⟩

/-- Also a call for a time that is not later divides the wheel: nothing is returned. -/
theorem Slotted.returned {t t' : FastTimer ε} {wheel : Finset ε} {l : Int → List ε} {now : Int}
    {fuel : Nat} {count : Int} (h : t.Slotted wheel l)
    (hget : t.fastTimerTimeoutsGet now fuel = some (count, t')) :
    ∃ l' out, t'.Returned now wheel l' out := by
  by_cases hnow : t.currentTime < now
  · obtain ⟨enough, hfuel, hcard, htime⟩ : ∃ enough, fuel ≤ enough ∧ wheel.card < enough ∧
        (now - t.currentTime).toNat < enough :=
      ⟨fuel + wheel.card + (now - t.currentTime).toNat + 1, by omega⟩
    obtain ⟨t₁, out, l', hget₁, hreturned, -⟩ := h.timeouts hnow hcard htime
    rw [fastTimerTimeoutsGet_mono hfuel hget] at hget₁
    rw [(Prod.mk.inj (Option.some.inj hget₁)).2]
    exact ⟨l', out, hreturned⟩
  · unfold fastTimerTimeoutsGet at hget
    rw [if_pos (not_lt.mp hnow)] at hget
    rw [← (Prod.mk.inj (Option.some.inj hget)).2]
    refine ⟨l, [], h.slots, h.times, ?_, h.range, Links.setNext_self _ _ _, trivial,
      List.nodup_nil, fun _ => nofun, ?_, nofun⟩
    · refine h.lists.frame (fun i => ?_) (fun i e _ => ?_) fun _ _ _ => rfl
      · exact Links.setNext_of_ne _ nofun
      · exact Links.setNext_of_ne _ nofun
    · intro e
      rw [h.mem]
      exact ⟨.inr, fun hor => hor.resolve_left List.not_mem_nil⟩

end FastDht.FastTimer
