import FastDht.Common.FastTimerSoundness
import FastDht.Lib.Machine

/-! # The time wheel over whole runs

Every call keeps the entries of the wheel where the next call for the timeouts finds
them, with one exception: a later expiry of the slot that the entry would have had is
taken to need no move, also where the entry is still in the slot of an earlier one. -/
namespace FastDht.FastTimer
open Lib

variable {ε : Type} [DecidableEq ε]

/-- The slots hold the entries of `wheel`, each in a place where it is found in time. -/
structure Holds (t : FastTimer ε) (wheel : Finset ε) (l : Int → List ε) : Prop extends
    t.Slotted wheel l where
  placed : ∀ s, ∀ e ∈ l s, t.Placed (t.currentTime + 1) s e

/-! ## The calls -/

section Calls

variable {t : FastTimer ε} {wheel : Finset ε} {l : Int → List ε} {e : ε} {x now : Int}

/-- **The expired entries are returned, the others stay.** -/
theorem Holds.timeouts (h : t.Holds wheel l) (hnow : t.currentTime < now) {fuel : Nat}
    (hcard : wheel.card < fuel) (htime : (now - t.currentTime).toNat < fuel) :
    ∃ t' out l', t.fastTimerTimeoutsGet now fuel = some (out.length, t') ∧
      t'.links.Spells (.anchor .result) out none ∧ out.Nodup ∧
      (∀ e, e ∈ out ↔ e ∈ wheel ∧ t.expires e < now) ∧
      t'.Holds (wheel.filter fun e => now ≤ t.expires e) l' := by
  obtain ⟨t', out, l', hget, hreturned, hcur, hexpires, hplaced⟩ :=
    h.toSlotted.timeouts hnow hcard htime
  replace hplaced := hplaced h.placed
  -- a slot that is visited at `now` or later has no entry that expires before
  have hlate : ∀ j, ∀ e ∈ l' j, now ≤ t.expires e := by
    intro j e he
    obtain ⟨time, hle, hmax, -⟩ := (hplaced j e he).due
    rw [hexpires] at hmax
    rw [hcur] at hle
    exact hle.trans ((le_max_iff.mp hmax).resolve_right (by omega))
  have hout : ∀ e, e ∈ out ↔ e ∈ wheel ∧ t.expires e < now := by
    intro e
    rw [hreturned.mem]
    constructor
    · intro he
      refine ⟨.inl he, ?_⟩
      have hexpired := hreturned.expired e he
      rwa [hexpires] at hexpired
    · rintro ⟨he | ⟨j, he⟩, hexpired⟩
      · exact he
      · exact absurd hexpired (not_lt.mpr (hlate j e he))
  refine ⟨t', out, l', hget, hreturned.spells, hreturned.nodup, hout,
    ⟨hreturned.slots, hreturned.times, hreturned.lists, hreturned.range, ?_⟩, ?_⟩
  · intro e
    rw [Finset.mem_filter, hreturned.mem]
    constructor
    · rintro ⟨he | he, hexpired⟩
      · exact absurd ((hout e).mp he).2 (not_lt.mpr hexpired)
      · exact he
    · exact fun ⟨j, he⟩ => ⟨.inr ⟨j, he⟩, hlate j e he⟩
  · intro j e he
    obtain ⟨time, hle, hmax, hslot⟩ := (hplaced j e he).due
    refine ⟨⟨time, hle, hmax.trans (max_le_max le_rfl ?_), hslot⟩, fun hle => ?_⟩
    · omega
    · refine (hplaced j e he).settled ?_
      rw [hexpires]
      exact hlate j e he

theorem Holds.add (h : t.Holds wheel l) (he : e ∉ wheel) (x : Int) :
    ∃ l', ((t.setExpires e x).fastTimerAdd e).Holds (insert e wheel) l' := by
  obtain ⟨j, hj⟩ : ∃ j, j = t.slotIndex (max x t.currentTime) := ⟨_, rfl⟩
  have hnot : ∀ j, e ∉ l j := fun j hej => he ((h.mem e).mpr ⟨j, hej⟩)
  have hx : (t.setExpires e x).expires e = x := Function.update_self _ _ _
  have hadd : (t.setExpires e x).fastTimerAdd e =
      { t.setExpires e x with links := t.links.push (.anchor (.slot j)) e } := by
    rw [fastTimerAdd_setExpires, hj]
    rfl
  rw [hadd]
  refine ⟨_, ⟨h.slots, h.times, h.lists.push Timeouts.slot_injective j hnot, ?_, ?_⟩, ?_⟩
  · intro k y hy
    rcases Links.Lists.mem_pushed.mp hy with ⟨hk, -⟩ | hy
    · rw [hk, hj]
      exact hasSlot_slotIndex h.slots (h.times.trans (le_max_right _ _))
    · exact h.range k y hy
  · intro y
    simp only [Finset.mem_insert, h.mem, Links.Lists.mem_pushed]
    constructor
    · rintro (rfl | ⟨k, hk⟩)
      · exact ⟨j, .inl ⟨rfl, rfl⟩⟩
      · exact ⟨k, .inr hk⟩
    · rintro ⟨k, ⟨-, rfl⟩ | hk⟩
      · exact .inl rfl
      · exact .inr ⟨k, hk⟩
  · intro k y hy
    rcases Links.Lists.mem_pushed.mp hy with ⟨rfl, rfl⟩ | hy
    · refine ⟨⟨max x t.currentTime, le_max_right _ _, ?_, hj.symm⟩, fun hlate => .inr ?_⟩
      · show _ ≤ max ((t.setExpires y x).expires y) (t.currentTime + 1 - 1)
        rw [hx, add_sub_cancel_right]
      · change t.currentTime + 1 ≤ (t.setExpires y x).expires y at hlate
        show t.slotIndex ((t.setExpires y x).expires y) = k
        rw [hx] at hlate ⊢
        rw [hj, max_eq_left (by omega)]
    · have hne : y ≠ e := fun heq => hnot k (heq ▸ hy)
      have hsame : (t.setExpires e x).expires y = t.expires y := Function.update_of_ne hne _ _
      have hplaced := h.placed k y hy
      refine ⟨?_, ?_⟩
      · rw [hsame]
        exact hplaced.due
      · rw [hsame]
        exact hplaced.settled

/-- The pointers of an entry lead to no slot and to no entry of the wheel, or it has none. -/
def loose (t : FastTimer ε) (wheel : Finset ε) (e : ε) : Bool :=
  (t.links.prev e).all fun p =>
    (match p with
      | .anchor .result => true
      | .anchor (.slot _) => false
      | .entry y => y ∉ wheel) &&
    (t.links.next (.entry e)).all (· ∉ wheel)

/-- An entry is taken out; one that was returned before has to be loose. -/
theorem Holds.remove (h : t.Holds wheel l) (he : e ∈ wheel ∨ t.loose wheel e = true) :
    ∃ l', (t.fastTimerRemove e).2.Holds (wheel.erase e) l' := by
  by_cases hin : e ∈ wheel
  · obtain ⟨i, hi⟩ := (h.mem e).mp hin
    obtain ⟨a, b, hsplit⟩ := List.append_of_mem hi
    rw [fastTimerRemove_eq _ (h.lists.prev_eq hsplit)]
    refine ⟨_, ⟨h.slots, h.times, h.lists.unlink Timeouts.slot_injective hsplit,
      fun j y hy => h.range j y ((h.lists.mem_unlinked hsplit).mp hy).2, ?_⟩, ?_⟩
    · intro y
      simp only [Finset.mem_erase, h.mem, h.lists.mem_unlinked hsplit, exists_and_left]
    · intro j y hy
      have hplaced := h.placed j y ((h.lists.mem_unlinked hsplit).mp hy).2
      exact ⟨hplaced.due, hplaced.settled⟩
  · have hloose := he.resolve_left hin
    rw [Finset.erase_eq_of_notMem hin]
    cases hprev : t.links.prev e with
    | none =>
      refine ⟨l, ?_⟩
      unfold fastTimerRemove
      rw [hprev]
      exact h
    | some p =>
      unfold loose at hloose
      rw [hprev, Option.all_some, Bool.and_eq_true] at hloose
      obtain ⟨hp, hnext⟩ := hloose
      have hslot : ∀ i, Link.anchor (.slot i) ≠ p := by
        rintro i rfl
        exact Bool.false_ne_true hp
      have hentry : ∀ i, ∀ y ∈ l i, Link.entry y ≠ p := by
        rintro i y hy rfl
        exact of_decide_eq_true hp ((h.mem y).mpr ⟨i, hy⟩)
      have hafter : ∀ i, ∀ y ∈ l i, t.links.next (.entry e) ≠ some y := by
        intro i y hy hey
        rw [hey, Option.all_some] at hnext
        exact of_decide_eq_true hnext ((h.mem y).mpr ⟨i, hy⟩)
      have hne : ∀ i, ∀ y ∈ l i, y ≠ e := fun i y hy heq => hin ((h.mem e).mpr ⟨i, heq ▸ hy⟩)
      rw [fastTimerRemove_eq _ hprev]
      refine ⟨l, ⟨h.slots, h.times,
        h.lists.frame (fun i => ?_) (fun i y hy => ?_) (fun i y hy => ?_), h.range,
        h.mem⟩, fun j y hy => ⟨(h.placed j y hy).due, (h.placed j y hy).settled⟩⟩
      · rw [Links.unlink_next hprev, if_neg nofun, if_neg (hslot i)]
      · rw [Links.unlink_next hprev, if_neg fun heq => hne i y hy (Link.entry.inj heq),
          if_neg (hentry i y hy)]
      · rw [Links.unlink_prev hprev, if_neg (hne i y hy), if_neg (hafter i y hy)]

def Sits (t : FastTimer ε) (i : Int) (e : ε) : Prop :=
  ∃ l, t.links.Spells (.anchor (.slot i)) l none ∧ e ∈ l

omit [DecidableEq ε] in
theorem Holds.sits_iff (h : t.Holds wheel l) {i : Int} : t.Sits i e ↔ e ∈ l i := by
  constructor
  · rintro ⟨l', hl', he⟩
    rwa [← hl'.unique (h.lists.spells i)]
  · exact fun he => ⟨l i, h.lists.spells i, he⟩

omit [DecidableEq ε] in
theorem Holds.found_iff (h : t.Holds wheel l) :
    (∃ i, t.HasSlot i ∧ t.Sits i e) ↔ e ∈ wheel := by
  rw [h.mem]
  constructor
  · rintro ⟨i, -, hi⟩
    exact ⟨i, h.sits_iff.mp hi⟩
  · rintro ⟨i, hi⟩
    exact ⟨i, h.range i e hi, h.sits_iff.mpr hi⟩

theorem Holds.later (h : t.Holds wheel l) (hx : t.expires e < x)
    (hsits : e ∈ wheel → t.currentTime < x → t.slotIndex x = t.slotIndex (t.expires e) →
      t.Sits (t.slotIndex x) e) : (t.fastTimerModify e x).Holds wheel l := by
  unfold fastTimerModify
  rw [if_neg hx.ne', if_neg hx.not_gt]
  refine ⟨⟨h.slots, h.times, h.lists, h.range, h.mem⟩, fun i y hy => ?_⟩
  have hplaced := h.placed i y hy
  by_cases hye : y = e
  · subst hye
    obtain ⟨time, hcur, hmax, hslot⟩ := hplaced.due
    refine ⟨⟨time, hcur, ?_, hslot⟩, ?_⟩
    · refine hmax.trans (max_le_max ?_ le_rfl)
      rw [show ((t.setRehash y _).setExpires y x).expires y = x from Function.update_self _ _ _]
      exact hx.le
    · rw [show ((t.setRehash y _).setExpires y x).expires y = x from Function.update_self _ _ _]
      rw [show ((t.setRehash y _).setExpires y x).rehash y = _ from Function.update_self _ _ _]
      intro hlate
      rw [bne_iff_ne]
      by_cases hsame : t.slotIndex x = t.slotIndex (t.expires y)
      · have hmem := hsits ((h.mem y).mpr ⟨i, hy⟩) (by exact hlate) hsame
        exact .inr (h.lists.disjoint (h.sits_iff.mp hmem) hy)
      · exact .inl hsame
  · have hexpires : ((t.setRehash e (t.slotIndex x != t.slotIndex (t.expires e))).setExpires
        e x).expires y = t.expires y := Function.update_of_ne hye _ _
    have hrehash : ((t.setRehash e (t.slotIndex x != t.slotIndex (t.expires e))).setExpires
        e x).rehash y = t.rehash y := Function.update_of_ne hye _ _
    refine ⟨?_, ?_⟩
    · rw [hexpires]
      exact hplaced.due
    · rw [hexpires, hrehash]
      exact hplaced.settled

end Calls

/-! ## Runs -/

/-- A call; `add` is given the expiry that the caller has written into the entry. -/
inductive Call (ε : Type)
  | add (e : ε) (expires : Int)
  | modify (e : ε) (newExpires : Int)
  | remove (e : ε)
  | timeoutsGet (currentTime : Int) (fuel : Nat)

/-- The timer, and the entries that have been added and neither removed nor been due. -/
structure Wheel (ε : Type) where
  timer : FastTimer ε
  wheel : Finset ε

namespace Wheel

def step (w : Wheel ε) : Call ε → Option (Wheel ε)
  | .add e x => some ⟨(w.timer.setExpires e x).fastTimerAdd e, insert e w.wheel⟩
  | .modify e x => some ⟨w.timer.fastTimerModify e x,
      if x < w.timer.expires e then insert e w.wheel else w.wheel⟩
  | .remove e => some ⟨(w.timer.fastTimerRemove e).2, w.wheel.erase e⟩
  | .timeoutsGet now fuel => (w.timer.fastTimerTimeoutsGet now fuel).map fun r =>
      ⟨r.2, w.wheel.filter fun e => now ≤ w.timer.expires e⟩

/-- An entry is added only when it is not in the wheel, and the time increases. -/
def Admits (w : Wheel ε) : Call ε → Prop
  | .add e _ => e ∉ w.wheel
  | .timeoutsGet now _ => w.timer.currentTime < now
  | _ => True

instance (w : Wheel ε) (c : Call ε) : Decidable (w.Admits c) := by
  cases c <;> unfold Admits <;> infer_instance

/-- An entry is taken out only where its pointers are those of the wheel, or lead to
nothing in it; and one that gets a later expiry of the same slot is already in that
slot. -/
def Careful (w : Wheel ε) : Call ε → Prop
  | .remove e => e ∈ w.wheel ∨ w.timer.loose w.wheel e = true
  | .modify e x =>
    (x < w.timer.expires e → e ∈ w.wheel ∨ w.timer.loose w.wheel e = true) ∧
    (e ∈ w.wheel → w.timer.expires e < x → w.timer.currentTime < x →
      w.timer.slotIndex x = w.timer.slotIndex (w.timer.expires e) →
      w.timer.Sits (w.timer.slotIndex x) e)
  | _ => True

omit [DecidableEq ε] in
theorem holds_init {t₀ t : FastTimer ε} {slotCount start : Int}
    (h : t₀.fastTimerInit slotCount start true = (0, t)) : t.Holds ∅ fun _ => [] := by
  unfold fastTimerInit at h
  split_ifs at h with hbad hmemory
  · exact nomatch (Prod.mk.inj h).1
  · rw [not_or, not_le, not_le] at hbad
    rw [← (Prod.mk.inj h).2]
    exact ⟨⟨hbad.1, le_rfl, ⟨fun _ => rfl, fun _ => trivial, fun _ => List.nodup_nil, nofun⟩,
      fun _ => nofun, fun e => ⟨nofun, nofun⟩⟩, fun _ => nofun⟩
  · exact absurd rfl hmemory

theorem insert_erase (e : ε) (wheel : Finset ε) : insert e (wheel.erase e) = insert e wheel := by
  ext y
  by_cases hy : y = e
  · simp [hy]
  · simp [hy]

theorem holds_step {w w' : Wheel ε} {c : Call ε} (h : ∃ l, w.timer.Holds w.wheel l)
    (hadmits : w.Admits c) (hcareful : w.Careful c) (hstep : w.step c = some w') :
    ∃ l, w'.timer.Holds w'.wheel l := by
  obtain ⟨l, hl⟩ := h
  cases c with
  | add e x =>
    obtain rfl := Option.some.inj hstep
    exact hl.add hadmits x
  | remove e =>
    obtain rfl := Option.some.inj hstep
    exact hl.remove hcareful
  | modify e x =>
    obtain rfl := Option.some.inj hstep
    rcases lt_trichotomy x (w.timer.expires e) with hlt | heq | hgt
    · obtain ⟨l₁, hl₁⟩ := hl.remove (hcareful.1 hlt)
      obtain ⟨l₂, hl₂⟩ := hl₁.add (Finset.notMem_erase e w.wheel) x
      refine ⟨l₂, ?_⟩
      unfold fastTimerModify
      rw [if_neg hlt.ne, if_pos hlt, if_pos hlt, ← insert_erase e w.wheel]
      exact hl₂
    · refine ⟨l, ?_⟩
      unfold fastTimerModify
      rw [if_pos heq, if_neg heq.not_lt]
      exact hl
    · refine ⟨l, ?_⟩
      rw [if_neg hgt.not_gt]
      exact hl.later hgt fun he => hcareful.2 he hgt
  | timeoutsGet now fuel =>
    obtain ⟨r, hr, rfl⟩ := Option.map_eq_some_iff.mp hstep
    obtain ⟨enough, henough⟩ : ∃ enough, fuel ≤ enough ∧ w.wheel.card < enough ∧
        (now - w.timer.currentTime).toNat < enough :=
      ⟨fuel + w.wheel.card + (now - w.timer.currentTime).toNat + 1, by omega⟩
    obtain ⟨t', out, l', hget, -, -, -, hl'⟩ := hl.timeouts hadmits henough.2.1 henough.2.2
    rw [fastTimerTimeoutsGet_mono henough.1 hr] at hget
    rw [Option.some.inj hget]
    exact ⟨l', hl'⟩

/-- What is asked of a call for the timeouts: with enough fuel it returns the entries of
the wheel that have expired, each once, and the slots hold the others. -/
def Exact (w : Wheel ε) (now : Int) : Prop :=
  ∃ enough, ∀ fuel ≥ enough, ∃ t' out,
    w.timer.fastTimerTimeoutsGet now fuel = some (out.length, t') ∧
    t'.links.Spells (.anchor .result) out none ∧ out.Nodup ∧
    (∀ e, e ∈ out ↔ e ∈ w.wheel ∧ w.timer.expires e < now) ∧
    ∀ e, (∃ i, t'.HasSlot i ∧ t'.Sits i e) ↔
      e ∈ w.wheel ∧ now ≤ w.timer.expires e

/-- **The time wheel is exact in every run in which each later expiry of an unchanged
slot index finds the entry in that slot, and no entry is taken out by stale pointers.** -/
theorem timeouts_exact {t₀ t : FastTimer ε} {slotCount start : Int}
    (hinit : t₀.fastTimerInit slotCount start true = (0, t)) {w : Wheel ε}
    (hrun : Runs step (fun w c => w.Admits c ∧ w.Careful c) ⟨t, ∅⟩ w) {now : Int}
    (hnow : w.timer.currentTime < now) : w.Exact now := by
  obtain ⟨l, hl⟩ : ∃ l, w.timer.Holds w.wheel l := by
    refine hrun.invariant (I := fun w => ∃ l, w.timer.Holds w.wheel l) ⟨_, holds_init hinit⟩ ?_
    exact fun _ _ _ h hok => holds_step h hok.1 hok.2
  refine ⟨w.wheel.card + (now - w.timer.currentTime).toNat + 1, fun fuel hfuel => ?_⟩
  have hcard : w.wheel.card < fuel := by omega
  have htime : (now - w.timer.currentTime).toNat < fuel := by omega
  obtain ⟨t', out, l', hget, hspells, hnodup, hout, hl'⟩ := hl.timeouts hnow hcard htime
  refine ⟨t', out, hget, hspells, hnodup, hout, fun e => ?_⟩
  rw [hl'.found_iff, Finset.mem_filter]

/-- A wheel of ten slots from second 1 on, over entries in cleared memory. -/
def tenSlots (ε : Type) : Wheel ε :=
  let blank : FastTimer ε := ⟨0, 0, 0, ⟨fun _ => none, fun _ => none⟩, fun _ => 0, fun _ => false⟩
  ⟨(blank.fastTimerInit 10 1 true).2, ∅⟩

theorem tenSlots_init (ε : Type) :
    ∃ t₀ : FastTimer ε, t₀.fastTimerInit 10 1 true = (0, (tenSlots ε).timer) :=
  ⟨_, rfl⟩

theorem timeouts_exact_moved : ∃ w : Wheel Bool,
    Runs step (fun w c => w.Admits c ∧ w.Careful c) (tenSlots Bool) w ∧
      (false ∈ w.wheel ∧ w.timer.expires false = 7) ∧ w.Exact 9 := by
  obtain ⟨t₀, hinit⟩ := tenSlots_init Bool
  have hrun : ∃ w, Runs step (fun w c => w.Admits c ∧ w.Careful c) (tenSlots Bool) w ∧
      (false ∈ w.wheel ∧ w.timer.expires false = 7) ∧ w.timer.currentTime < 9 := by
    refine ⟨_, .head ⟨.add false 5, ⟨?_, trivial⟩, rfl⟩
      (.single ⟨.modify false 7, ⟨trivial, ?_, ?_⟩, rfl⟩), ?_, ?_⟩
    · exact Finset.notMem_empty _
    · exact fun h => absurd h (by decide)
    · exact fun _ _ _ h => absurd h (by decide)
    · decide
    · decide
  obtain ⟨w, hrun, hw, hnow⟩ := hrun
  exact ⟨w, hrun, hw, timeouts_exact hinit hrun hnow⟩

/-- Two later expiries, the second of the slot index that the first had. -/
def laterTwice : List (Call Bool) :=
  [.add false 5, .modify false 7, .modify false 17, .timeoutsGet 16 20]

/-- **The wheel is not exact in all runs.** With ten slots, an entry of slot 4 that is
given the expiry 7 is marked to be moved to slot 6; given the expiry 17, of the same slot
index, it loses the mark. Slot 4 is visited at 15, when it has not expired; the call for
18 visits the slots 5 and 6. -/
theorem timeouts_missed : ∃ w : Wheel Bool, Runs step Admits (tenSlots Bool) w ∧
    w.timer.currentTime < 18 ∧ ¬ w.Exact 18 := by
  obtain ⟨w, hw⟩ : ∃ w, exec step Admits laterTwice (tenSlots Bool) = some w := ⟨_, rfl⟩
  have hstate : (exec step Admits laterTwice (tenSlots Bool)).map
      (fun w => (decide (false ∈ w.wheel), w.timer.expires false, w.timer.currentTime)) =
        some (true, 17, 16) := rfl
  have hget : ∀ k, ((exec step Admits laterTwice (tenSlots Bool)).bind
      fun w => (w.timer.fastTimerTimeoutsGet 18 (k + 20)).map Prod.fst) = some 0 := fun _ => rfl
  rw [hw, Option.map_some] at hstate
  obtain ⟨hmem, hexpires, htime⟩ : decide (false ∈ w.wheel) = true ∧ w.timer.expires false = 17 ∧
      w.timer.currentTime = 16 := by simpa using hstate
  refine ⟨w, .of_exec hw, by rw [htime]; decide, ?_⟩
  rintro ⟨enough, hexact⟩
  obtain ⟨t', out, hresult, -, -, hout, -⟩ := hexact (enough + 20) (Nat.le_add_right _ _)
  have hcount := hget enough
  rw [hw, Option.bind_some, hresult, Option.map_some] at hcount
  have hnil : out = [] :=
    List.eq_nil_of_length_eq_zero (Int.natCast_eq_zero.mp (Option.some.inj hcount))
  have hfound := (hout false).mpr ⟨of_decide_eq_true hmem, by rw [hexpires]; decide⟩
  rw [hnil] at hfound
  exact List.not_mem_nil hfound

end Wheel

end FastDht.FastTimer
