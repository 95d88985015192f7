import FastDht.Common.FastTimerRuns
import Mathlib.Data.List.TakeWhile

/-! # The handling of timeouts: common/ioevent_loop.c and server/fdht_io.c

`deal_timeouts` walks the list that `fast_timer_timeouts_get` has returned and calls the
callback of each entry. An idle connection that is kept alive goes back into the wheel, all
others are closed. The entries of the list still point to each other while this happens. -/
namespace FastDht.FastTimer
open Lib

variable {ε : Type} [DecidableEq ε]

/-- The callback of an entry, with what it reads of the task, `g_current_time` and
`g_fdht_network_timeout`. -/
inductive TimeoutCallback
  | clientSockRead (offset : Int) (keepAlive : Bool) (currentTime networkTimeout : Int)
  | clientSockWrite

/-- The new expiry, if the entry is added again. -/
def TimeoutCallback.readds : TimeoutCallback → Option Int
  | .clientSockRead offset keepAlive currentTime networkTimeout =>
    if offset = 0 ∧ keepAlive then some (currentTime + networkTimeout) else none
  | .clientSockWrite => none

/-- `task_finish_clean_up`, as far as it touches the timer. -/
def taskFinishCleanUp (t : FastTimer ε) (entry : ε) : FastTimer ε :=
  if t.expires entry > 0 then (t.fastTimerRemove entry).2.setExpires entry 0 else t

/-- A callback with the event `IOEVENT_TIMEOUT`. -/
def callback (t : FastTimer ε) (entry : ε) (c : TimeoutCallback) : FastTimer ε :=
  match c.readds with
  | some expires => (t.setExpires entry expires).fastTimerAdd entry
  | none => t.taskFinishCleanUp entry

/-- The loop of `deal_timeouts`, which reads the next entry before it calls back. -/
def dealTimeoutsLoop (callbacks : ε → TimeoutCallback) :
    Nat → FastTimer ε → Option ε → Option (FastTimer ε)
  | 0, _, _ => none
  | fuel + 1, t, entry =>
    match entry with
    | none => some t
    | some current =>
      let next := t.links.next (.entry current)
      dealTimeoutsLoop callbacks fuel (t.callback current (callbacks current)) next

def dealTimeouts (t : FastTimer ε) (callbacks : ε → TimeoutCallback) (fuel : Nat) :
    Option (FastTimer ε) :=
  dealTimeoutsLoop callbacks fuel t (t.links.next (.anchor .result))

/-! ## The lists as they should be -/

/-- The slot of an entry that is added again. -/
def readdSlot (t : FastTimer ε) (expires : Int) : Int := t.slotIndex (max expires t.currentTime)

/-- The entry is unlinked by its callback. -/
def unlinks (t : FastTimer ε) (callbacks : ε → TimeoutCallback) (e : ε) : Bool :=
  (callbacks e).readds.isNone && 0 < t.expires e

/-- The slots with the entries that are added again in front. -/
def readd (t : FastTimer ε) (callbacks : ε → TimeoutCallback) (l : Int → List ε) :
    List ε → Int → List ε
  | [] => l
  | e :: es =>
    match (callbacks e).readds with
    | some x => t.readd callbacks (Function.update l (t.readdSlot x) (e :: l (t.readdSlot x))) es
    | none => t.readd callbacks l es

section Readd

variable {t : FastTimer ε} {callbacks : ε → TimeoutCallback} {l : Int → List ε} {a b : List ε}
  {e : ε}

omit [DecidableEq ε] in
theorem readd_append : t.readd callbacks l (a ++ b) =
    t.readd callbacks (t.readd callbacks l a) b := by
  induction a generalizing l with
  | nil => rfl
  | cons e a ih =>
    rw [List.cons_append, readd, readd]
    cases (callbacks e).readds with
    | none => exact ih
    | some x => exact ih

omit [DecidableEq ε] in
theorem mem_readd {i : Int} : e ∈ t.readd callbacks l a i ↔
    e ∈ l i ∨ (e ∈ a ∧ ∃ x, (callbacks e).readds = some x ∧ t.readdSlot x = i) := by
  induction a generalizing l with
  | nil => exact ⟨.inl, fun h => h.resolve_right fun h => List.not_mem_nil h.1⟩
  | cons f a ih =>
    rw [readd]
    cases hf : (callbacks f).readds with
    | none =>
      simp only [ih, List.mem_cons]
      constructor
      · rintro (h | ⟨ha, hx⟩)
        · exact .inl h
        · exact .inr ⟨.inr ha, hx⟩
      · rintro (h | ⟨rfl | ha, x, hx, hi⟩)
        · exact .inl h
        · exact nomatch hf.symm.trans hx
        · exact .inr ⟨ha, x, hx, hi⟩
    | some y =>
      simp only [ih, Links.Lists.mem_pushed, List.mem_cons]
      constructor
      · rintro ((⟨rfl, rfl⟩ | h) | ⟨ha, hx⟩)
        · exact .inr ⟨.inl rfl, y, hf, rfl⟩
        · exact .inl h
        · exact .inr ⟨.inr ha, hx⟩
      · rintro (h | ⟨rfl | ha, x, hx, hi⟩)
        · exact .inl (.inr h)
        · rw [hf] at hx
          exact .inl (.inl ⟨by rw [← hi, Option.some.inj hx], rfl⟩)
        · exact .inr ⟨ha, x, hx, hi⟩

omit [DecidableEq ε] in
theorem readd_front (i : Int) : ∃ p, t.readd callbacks l b i = p ++ l i ∧ ∀ e ∈ p, e ∈ b := by
  induction b generalizing l with
  | nil => exact ⟨[], rfl, nofun⟩
  | cons f b ih =>
    rw [readd]
    cases hf : (callbacks f).readds with
    | none =>
      obtain ⟨p, hp, hmem⟩ := ih (l := l)
      exact ⟨p, hp, fun e he => List.mem_cons_of_mem _ (hmem e he)⟩
    | some x =>
      obtain ⟨p, hp, hmem⟩ :=
        ih (l := Function.update l (t.readdSlot x) (f :: l (t.readdSlot x)))
      by_cases hi : i = t.readdSlot x
      · rw [hi, Function.update_self] at hp
        refine ⟨p ++ [f], ?_, fun e he => ?_⟩
        · rw [hi, List.append_assoc]
          exact hp
        · rcases List.mem_append.mp he with he | he
          · exact List.mem_cons_of_mem _ (hmem e he)
          · exact List.mem_cons.mpr (.inl (List.mem_singleton.mp he))
      · rw [Function.update_of_ne hi] at hp
        exact ⟨p, hp, fun e he => List.mem_cons_of_mem _ (hmem e he)⟩

end Readd

/-! ## The loop -/

theorem concat_split {α : Type} {a a₁ b₁ : List α} {x c : α} (h : a ++ [x] = a₁ ++ c :: b₁) :
    (b₁ = [] ∧ a₁ = a ∧ c = x) ∨ ∃ b₂, b₁ = b₂ ++ [x] ∧ a = a₁ ++ c :: b₂ := by
  rcases List.eq_nil_or_concat b₁ with rfl | ⟨b₂, y, rfl⟩
  · obtain ⟨ha, hx⟩ := List.append_inj' h rfl
    exact .inl ⟨rfl, ha.symm, (List.cons.inj hx).1.symm⟩
  · rw [List.concat_eq_append, ← List.cons_append, ← List.append_assoc] at h
    obtain ⟨ha, hx⟩ := List.append_inj' h rfl
    exact .inr ⟨b₂, by rw [List.concat_eq_append, hx], ha⟩

/-- The entry, or the list head, that the next entry of the returned list points back to. -/
def backTo (t : FastTimer ε) (callbacks : ε → TimeoutCallback) (done : List ε) :
    Link TimerHead ε :=
  Links.lastOf (.anchor .result) (done.filter fun e => !t.unlinks callbacks e)

/-- The callbacks of `done` have run, those of `rest` have not. In `ideal` only the entries
that are added again have been put into the slots. -/
structure Dealing (t₀ : FastTimer ε) (callbacks : ε → TimeoutCallback) (l : Int → List ε)
    (t : FastTimer ε) (ideal : Links TimerHead ε) (done rest : List ε) : Prop where
  slotCount : t.slotCount = t₀.slotCount
  slotIndex : t.slotIndex = t₀.slotIndex
  currentTime : t.currentTime = t₀.currentTime
  expires : ∀ e ∈ rest, t.expires e = t₀.expires e
  nodup : (done ++ rest).Nodup
  apart : ∀ j, ∀ e ∈ done ++ rest, e ∉ l j
  lists : ideal.Lists .slot (t₀.readd callbacks l done)
  heads : ∀ i, t.links.next (.anchor (.slot i)) = ideal.next (.anchor (.slot i))
  prevs : ∀ i, ∀ e ∈ t₀.readd callbacks l done i, t.links.prev e = ideal.prev e
  pending : ∀ i, ∀ e ∈ l i, t.links.next (.entry e) = ideal.next (.entry e)
  -- where the entry after `c` has been unlinked, `c` points into the returned list
  nexts : ∀ a c b x, done = a ++ c :: b → (callbacks c).readds = some x →
    t.links.next (.entry c) =
      if b.head?.any (t₀.unlinks callbacks) then (b.dropWhile (t₀.unlinks callbacks) ++ rest).head?
      else ideal.next (.entry c)
  spells : ∀ e es, rest = e :: es → t.links.Spells (.entry e) es none
  back : t.links.Back (t₀.backTo callbacks done) rest

section Steps

variable {t₀ t : FastTimer ε} {callbacks : ε → TimeoutCallback} {l : Int → List ε}
  {ideal : Links TimerHead ε} {done rest : List ε} {e : ε} {x : Int}

omit [DecidableEq ε] in
theorem Dealing.not_listed (h : Dealing t₀ callbacks l t ideal done rest) (he : e ∈ rest) (i : Int) :
    e ∉ t₀.readd callbacks l done i := by
  intro hmem
  rcases mem_readd.mp hmem with hl | ⟨hdone, -⟩
  · exact h.apart i e (List.mem_append_right _ he) hl
  · exact (List.nodup_append.mp h.nodup).2.2 e hdone e he rfl

omit [DecidableEq ε] in
theorem readd_concat_none (h : (callbacks e).readds = none) :
    t.readd callbacks l (done ++ [e]) = t.readd callbacks l done := by
  rw [readd_append, readd, h]
  rfl

omit [DecidableEq ε] in
theorem readd_concat_some (h : (callbacks e).readds = some x) :
    t.readd callbacks l (done ++ [e]) = Function.update (t.readd callbacks l done)
      (t.readdSlot x) (e :: t.readd callbacks l done (t.readdSlot x)) := by
  rw [readd_append, readd, h]
  rfl

omit [DecidableEq ε] in
theorem backTo_concat_true (h : t.unlinks callbacks e = true) :
    t.backTo callbacks (done ++ [e]) = t.backTo callbacks done := by
  unfold backTo
  rw [List.filter_append, List.filter_cons_of_neg (by simp [h]), List.filter_nil, List.append_nil]

omit [DecidableEq ε] in
theorem backTo_concat_false (h : t.unlinks callbacks e = false) :
    t.backTo callbacks (done ++ [e]) = .entry e := by
  unfold backTo
  rw [List.filter_append, List.filter_cons_of_pos (by simp [h]), Links.lastOf_append_cons]
  rfl

theorem dropWhile_concat_false {α : Type} {u : α → Bool} {b : List α} {x : α} (h : u x = false) :
    (b ++ [x]).dropWhile u = b.dropWhile u ++ [x] := by
  rw [List.dropWhile_append, List.dropWhile_cons_of_neg (by simp [h])]
  split_ifs with hempty
  · rw [List.isEmpty_iff.mp hempty]
    rfl
  · rfl

theorem any_head?_concat_false {α : Type} {u : α → Bool} {b : List α} {x : α} (h : u x = false) :
    (b ++ [x]).head?.any u = b.head?.any u := by
  cases b with
  | nil => exact h
  | cons y b => rfl

theorem any_head?_of_forall {α : Type} {u : α → Bool} {b : List α} (h : ∀ x ∈ b, u x = true)
    (hb : b ≠ []) : b.head?.any u = true := by
  obtain ⟨x, b, rfl⟩ := List.exists_cons_of_ne_nil hb
  exact h x List.mem_cons_self

theorem concat_of_not_forall {α : Type} {u : α → Bool} {b : List α} {x : α}
    (h : ¬ ∀ y ∈ b, u y = true) :
    (b ++ [x]).head?.any u = b.head?.any u ∧ (b ++ [x]).dropWhile u = b.dropWhile u ++ [x] := by
  constructor
  · cases b with
    | nil => exact absurd nofun h
    | cons y b => rfl
  · rw [List.dropWhile_append, if_neg]
    rw [List.isEmpty_iff, List.dropWhile_eq_nil_iff]
    exact h

omit [DecidableEq ε] in
theorem Dealing.append (h : Dealing t₀ callbacks l t ideal done (e :: rest)) :
    (done ++ [e] ++ rest).Nodup ∧ ∀ j, ∀ f ∈ done ++ [e] ++ rest, f ∉ l j := by
  rw [List.append_assoc]
  exact ⟨h.nodup, h.apart⟩

omit [DecidableEq ε] in
theorem Dealing.not_rest (h : Dealing t₀ callbacks l t ideal done (e :: rest)) : e ∉ rest :=
  (List.nodup_cons.mp (List.nodup_append.mp h.nodup).2.1).1

theorem Dealing.expires_update (h : Dealing t₀ callbacks l t ideal done (e :: rest)) (y : Int) :
    ∀ f ∈ rest, Function.update t.expires e y f = t₀.expires f := by
  intro f hf
  have hne : f ≠ e := fun heq => h.not_rest (heq ▸ hf)
  exact (Function.update_of_ne hne _ _).trans (h.expires f (List.mem_cons_of_mem _ hf))

omit [DecidableEq ε] in
theorem Dealing.not_done (h : Dealing t₀ callbacks l t ideal done (e :: rest)) : e ∉ done :=
  fun he => (List.nodup_append.mp h.nodup).2.2 e he e List.mem_cons_self rfl

omit [DecidableEq ε] in
theorem Dealing.nexts_concat {m : Links TimerHead ε} {ideal' : Links TimerHead ε}
    (h : Dealing t₀ callbacks l t ideal done (e :: rest))
    (he : t₀.unlinks callbacks e = false)
    (hlast : ∀ x, (callbacks e).readds = some x → m.next (.entry e) = ideal'.next (.entry e))
    (hdone : ∀ c ∈ done, m.next (.entry c) = t.links.next (.entry c) ∧
      ideal'.next (.entry c) = ideal.next (.entry c))
    {a b : List ε} {c : ε} (hsplit : done ++ [e] = a ++ c :: b)
    (hc : (callbacks c).readds = some x) :
    m.next (.entry c) = if b.head?.any (t₀.unlinks callbacks)
      then (b.dropWhile (t₀.unlinks callbacks) ++ rest).head? else ideal'.next (.entry c) := by
  rcases concat_split hsplit with ⟨rfl, rfl, rfl⟩ | ⟨b₂, rfl, hdone'⟩
  · exact hlast x hc
  · have hmem : c ∈ done := by
      rw [hdone']
      exact List.mem_append_right _ List.mem_cons_self
    rw [any_head?_concat_false he, dropWhile_concat_false he, List.append_assoc, (hdone c hmem).1,
      (hdone c hmem).2]
    exact h.nexts a c b₂ x hdone' hc

/-- **An entry is added again.** -/
theorem Dealing.readded (h : Dealing t₀ callbacks l t ideal done (e :: rest))
    (he : (callbacks e).readds = some x) :
    Dealing t₀ callbacks l ((t.setExpires e x).fastTimerAdd e)
      (ideal.push (.anchor (.slot (t₀.readdSlot x))) e) (done ++ [e]) rest := by
  obtain ⟨j, hj⟩ : ∃ j, j = t₀.readdSlot x := ⟨_, rfl⟩
  have hadd : (t.setExpires e x).fastTimerAdd e =
      { t.setExpires e x with links := t.links.push (.anchor (.slot j)) e } := by
    have hslot : t.slotPointer (max x t.currentTime) = .anchor (.slot j) := by
      unfold slotPointer
      rw [hj, h.slotIndex, h.currentTime]
      rfl
    rw [fastTimerAdd_setExpires, hslot]
  have hkeep : t₀.unlinks callbacks e = false := by
    unfold unlinks
    rw [he]
    rfl
  have hnot := h.not_listed List.mem_cons_self
  have hfirst : t.links.next (.anchor (.slot j)) = ideal.next (.anchor (.slot j)) := h.heads j
  have hhead := (h.lists.spells j).next_eq
  rw [hadd, ← hj]
  refine ⟨h.slotCount, h.slotIndex, h.currentTime, h.expires_update _, h.append.1, h.append.2,
    ?_, ?_, ?_, ?_, ?_, ?_, ?_⟩
  · rw [readd_concat_some he, ← hj]
    exact h.lists.push Timeouts.slot_injective j hnot
  · intro i
    rw [Links.push_next, Links.push_next, h.heads i, hfirst]
  · intro i f hf
    rw [readd_concat_some he, ← hj] at hf
    rw [Links.push_prev, Links.push_prev, hfirst]
    rcases Links.Lists.mem_pushed.mp hf with ⟨-, rfl⟩ | hf
    · rw [if_pos rfl, if_pos rfl]
    · rw [h.prevs i f hf]
  · intro i f hf
    rw [Links.push_next, Links.push_next, hfirst, h.pending i f hf]
  · intro a c b y hsplit hc
    refine h.nexts_concat hkeep ?_ ?_ hsplit hc
    · intro _ _
      rw [Links.push_next, Links.push_next, if_neg nofun, if_pos rfl, if_neg nofun, if_pos rfl,
        hfirst]
    · intro c hc
      have hne : (Link.entry c : Link TimerHead ε) ≠ .entry e := fun heq =>
        h.not_done (Link.entry.inj heq ▸ hc)
      rw [Links.push_next, Links.push_next, if_neg nofun, if_neg hne, if_neg nofun, if_neg hne]
      exact ⟨rfl, rfl⟩
  · rintro f fs rfl
    have hspells := (h.spells e (f :: fs) rfl).2
    have hsame : ∀ g ∈ f :: fs, (t.links.push (.anchor (.slot j)) e).next (.entry g) =
        t.links.next (.entry g) := by
      intro g hg
      have hne : (Link.entry g : Link TimerHead ε) ≠ .entry e := fun heq =>
        h.not_rest (Link.entry.inj heq ▸ hg)
      rw [Links.push_next, if_neg nofun, if_neg hne]
    exact hspells.of_next (hsame f List.mem_cons_self) fun g hg =>
      hsame g (List.mem_cons_of_mem _ hg)
  · rw [backTo_concat_false hkeep]
    refine h.back.2.of_prev fun f hf => ?_
    have hne : f ≠ e := fun heq => h.not_rest (heq ▸ hf)
    rw [Links.push_prev, if_neg hne, hfirst, hhead, if_neg]
    exact fun heq => h.not_listed (List.mem_cons_of_mem _ hf) j (List.mem_of_mem_head? heq)

omit [DecidableEq ε] in
theorem Dealing.skipped (h : Dealing t₀ callbacks l t ideal done (e :: rest))
    (he : (callbacks e).readds = none) (hkeep : t₀.unlinks callbacks e = false) :
    Dealing t₀ callbacks l t ideal (done ++ [e]) rest := by
  have hsame : t₀.readd callbacks l (done ++ [e]) = t₀.readd callbacks l done :=
    readd_concat_none he
  refine ⟨h.slotCount, h.slotIndex, h.currentTime, fun f hf => h.expires f (List.mem_cons_of_mem _ hf),
    h.append.1, h.append.2, ?_, h.heads, ?_, h.pending, ?_, ?_, ?_⟩
  · rw [hsame]
    exact h.lists
  · rw [hsame]
    exact h.prevs
  · intro a c b y hsplit hc
    exact h.nexts_concat hkeep (fun _ hx => nomatch he.symm.trans hx) (fun _ _ => ⟨rfl, rfl⟩)
      hsplit hc
  · rintro f fs rfl
    exact (h.spells e (f :: fs) rfl).2
  · rw [backTo_concat_false hkeep]
    exact h.back.2

omit [DecidableEq ε] in
theorem backTo_cases (t : FastTimer ε) (callbacks : ε → TimeoutCallback) (done : List ε) :
    t.backTo callbacks done = .anchor .result ∨
      ∃ c ∈ done, t.backTo callbacks done = .entry c := by
  rcases Links.lastOf_cases (.anchor TimerHead.result)
    (done.filter fun e => !t.unlinks callbacks e) with
    h | ⟨c, hc, h⟩
  · exact .inl h
  · exact .inr ⟨c, (List.mem_filter.mp hc).1, h⟩

omit [DecidableEq ε] in
theorem backTo_eq_iff {a b : List ε} {c : ε} (hnodup : (a ++ c :: b).Nodup)
    (hc : t.unlinks callbacks c = false) :
    t.backTo callbacks (a ++ c :: b) = .entry c ↔ ∀ f ∈ b, t.unlinks callbacks f = true := by
  unfold backTo
  rw [List.filter_append, List.filter_cons_of_pos (by simp [hc]), Links.lastOf_append_cons]
  constructor
  · intro hlast f hf
    by_contra hkeep
    have hne : b.filter (fun e => !t.unlinks callbacks e) ≠ [] :=
      List.ne_nil_of_mem (List.mem_filter.mpr ⟨hf, by simpa using hkeep⟩)
    obtain ⟨y, hy⟩ := Option.isSome_iff_exists.mp (List.getLast?_isSome.mpr hne)
    rw [Links.lastOf_of_getLast? hy] at hlast
    have hyb := (List.mem_filter.mp (List.mem_of_getLast? hy)).1
    exact (List.nodup_cons.mp (List.nodup_append.mp hnodup).2.1).1 (Link.entry.inj hlast ▸ hyb)
  · intro hall
    rw [List.filter_eq_nil_iff.mpr fun f hf => by simp [hall f hf]]
    rfl

/-- **An entry is unlinked**: the one that it points back to gets its forward pointer. -/
theorem Dealing.unlinked (h : Dealing t₀ callbacks l t ideal done (e :: rest))
    (he : (callbacks e).readds = none) (hunlink : t₀.unlinks callbacks e = true) :
    Dealing t₀ callbacks l ((t.fastTimerRemove e).2.setExpires e 0) ideal (done ++ [e]) rest := by
  have hsame : t₀.readd callbacks l (done ++ [e]) = t₀.readd callbacks l done :=
    readd_concat_none he
  obtain ⟨p, hp⟩ : ∃ p, p = t₀.backTo callbacks done := ⟨_, rfl⟩
  have hprev : t.links.prev e = some p := hp ▸ h.back.1
  have hnext : t.links.next (.entry e) = rest.head? := (h.spells e rest rfl).next_eq
  have hslot : ∀ i, .anchor (.slot i) ≠ p := by
    intro i heq
    rcases backTo_cases t₀ callbacks done with hb | ⟨c, -, hb⟩
    · exact nomatch heq.trans (hp.trans hb)
    · exact nomatch heq.trans (hp.trans hb)
  have hentry : ∀ f, f ∉ done → .entry f ≠ p := by
    intro f hf heq
    rcases backTo_cases t₀ callbacks done with hb | ⟨c, hc, hb⟩
    · exact nomatch heq.trans (hp.trans hb)
    · exact hf (Link.entry.inj (heq.trans (hp.trans hb)) ▸ hc)
  have hrest : ∀ f ∈ rest, f ∉ done := fun f hf hdone =>
    (List.nodup_append.mp h.nodup).2.2 f hdone f (List.mem_cons_of_mem _ hf) rfl
  rw [fastTimerRemove_eq _ hprev]
  refine ⟨h.slotCount, h.slotIndex, h.currentTime, h.expires_update _, h.append.1, h.append.2,
    ?_, ?_, ?_, ?_, ?_, ?_, ?_⟩
  · rw [hsame]
    exact h.lists
  · intro i
    refine Eq.trans ?_ (h.heads i)
    exact (Links.unlink_next hprev).trans (by rw [if_neg nofun, if_neg (hslot i)])
  · rw [hsame]
    intro i f hf
    refine Eq.trans ?_ (h.prevs i f hf)
    have hne : f ≠ e := fun heq => h.not_listed List.mem_cons_self i (heq ▸ hf)
    refine (Links.unlink_prev hprev).trans ?_
    rw [if_neg hne, hnext, if_neg]
    exact fun heq => h.not_listed (List.mem_cons_of_mem _ (List.mem_of_mem_head? heq)) i hf
  · intro i f hf
    refine Eq.trans ?_ (h.pending i f hf)
    have hnot : f ∉ done ++ e :: rest := fun hmem => h.apart i f hmem hf
    have hne : (Link.entry f : Link TimerHead ε) ≠ .entry e := fun heq =>
      hnot (Link.entry.inj heq ▸ List.mem_append_right _ List.mem_cons_self)
    refine (Links.unlink_next hprev).trans ?_
    rw [if_neg hne, if_neg (hentry f fun hdone => hnot (List.mem_append_left _ hdone))]
  · intro a c b y hsplit hc
    rcases concat_split hsplit with ⟨-, -, rfl⟩ | ⟨b₂, rfl, hdone⟩
    · exact nomatch he.symm.trans hc
    have hkeep : t₀.unlinks callbacks c = false := by
      unfold unlinks
      rw [hc]
      rfl
    have hcdone : c ∈ done := hdone ▸ List.mem_append_right _ List.mem_cons_self
    have hne : (Link.entry c : Link TimerHead ε) ≠ .entry e := fun heq =>
      h.not_done (Link.entry.inj heq ▸ hcdone)
    have hiff := backTo_eq_iff (hdone ▸ (List.nodup_append.mp h.nodup).1) hkeep
    rw [← hdone, ← hp] at hiff
    refine (Links.unlink_next hprev).trans ?_
    rw [if_neg hne, hnext]
    by_cases hall : ∀ f ∈ b₂, t₀.unlinks callbacks f = true
    · have hall' : ∀ f ∈ b₂ ++ [e], t₀.unlinks callbacks f = true := by
        intro f hf
        rcases List.mem_append.mp hf with hf | hf
        · exact hall f hf
        · rw [List.mem_singleton.mp hf]
          exact hunlink
      rw [if_pos (hiff.mpr hall).symm, if_pos (any_head?_of_forall hall' (by simp)),
        List.dropWhile_eq_nil_iff.mpr hall']
      rfl
    · obtain ⟨hhead, hdrop⟩ := concat_of_not_forall (x := e) hall
      rw [if_neg fun heq => hall (hiff.mp heq.symm), hhead, hdrop, List.append_assoc]
      exact h.nexts a c b₂ y hdone hc
  · rintro f fs rfl
    have hspells := (h.spells e (f :: fs) rfl).2
    have hkept : ∀ g ∈ f :: fs, (t.links.unlink e).next (.entry g) = t.links.next (.entry g) := by
      intro g hg
      have hne : (Link.entry g : Link TimerHead ε) ≠ .entry e := fun heq =>
        h.not_rest (Link.entry.inj heq ▸ hg)
      rw [Links.unlink_next hprev, if_neg hne, if_neg (hentry g (hrest g hg))]
    exact hspells.of_next (hkept f List.mem_cons_self) fun g hg =>
      hkept g (List.mem_cons_of_mem _ hg)
  · rw [backTo_concat_true hunlink, ← hp]
    refine h.back.2.of_first ?_ ?_
    · intro f hf
      have hne : f ≠ e := fun heq => h.not_rest (heq ▸ List.mem_of_mem_head? hf)
      exact (Links.unlink_prev hprev).trans (by rw [if_neg hne, if_pos (hnext.trans hf)])
    · intro f hf
      have hne : f ≠ e := fun heq => h.not_rest (heq ▸ List.mem_of_mem_tail hf)
      have hnodup := (List.nodup_cons.mp (List.nodup_append.mp h.nodup).2.1).2
      refine (Links.unlink_prev hprev).trans ?_
      rw [if_neg hne, hnext, if_neg (Links.head?_ne_of_mem_tail hnodup hf)]

/-- **One callback.** -/
theorem Dealing.callback (h : Dealing t₀ callbacks l t ideal done (e :: rest)) :
    ∃ ideal', Dealing t₀ callbacks l (t.callback e (callbacks e)) ideal' (done ++ [e]) rest := by
  unfold FastTimer.callback
  cases he : (callbacks e).readds with
  | some x => exact ⟨_, h.readded he⟩
  | none =>
    refine ⟨ideal, ?_⟩
    unfold taskFinishCleanUp
    have hunlinks : t₀.unlinks callbacks e = decide (0 < t₀.expires e) := by
      unfold unlinks
      rw [he]
      rfl
    rw [h.expires e List.mem_cons_self]
    split_ifs with hexpires
    · exact h.unlinked he (hunlinks.trans (decide_eq_true hexpires))
    · exact h.skipped he (hunlinks.trans (decide_eq_false hexpires))

/-- **The loop calls back every entry of the returned list, in its order.** -/
theorem Dealing.loop {fuel : Nat} (h : Dealing t₀ callbacks l t ideal done rest)
    (hfuel : rest.length < fuel) :
    ∃ t' ideal', dealTimeoutsLoop callbacks fuel t rest.head? = some t' ∧
      Dealing t₀ callbacks l t' ideal' (done ++ rest) [] := by
  induction rest generalizing t ideal done fuel with
  | nil =>
    obtain ⟨fuel, rfl⟩ := Nat.exists_eq_succ_of_ne_zero (Nat.ne_zero_of_lt hfuel)
    exact ⟨t, ideal, rfl, by rwa [List.append_nil]⟩
  | cons e rest ih =>
    obtain ⟨fuel, rfl⟩ := Nat.exists_eq_succ_of_ne_zero (Nat.ne_zero_of_lt hfuel)
    obtain ⟨ideal₁, h₁⟩ := h.callback
    obtain ⟨t', ideal', hloop, h'⟩ := ih h₁ (Nat.lt_of_succ_lt_succ hfuel)
    refine ⟨t', ideal', ?_, by rwa [List.append_assoc] at h'⟩
    rw [← hloop, ← (h.spells e rest rfl).next_eq]
    rfl

omit [DecidableEq ε] in
theorem Dealing.start {now : Int} {wheel : Finset ε} {out : List ε}
    (h : t₀.Returned now wheel l out) : Dealing t₀ callbacks l t₀ t₀.links [] out where
  slotCount := rfl
  slotIndex := rfl
  currentTime := rfl
  expires _ _ := rfl
  nodup := h.nodup
  apart := h.apart
  lists := h.lists
  heads _ := rfl
  prevs _ _ _ := rfl
  pending _ _ _ := rfl
  nexts a c b _ hsplit :=
    absurd hsplit.symm (List.append_ne_nil_of_right_ne_nil a (List.cons_ne_nil c b))
  spells e es hout := by
    have hspells := h.spells
    rw [hout] at hspells
    exact hspells.2
  back := h.back

end Steps

/-! ## What the slots hold afterwards -/

/-- Each slot is a list; together they hold the entries of the wheel that were not
returned and those that were added again, and none that was cleaned up. -/
def Kept (t : FastTimer ε) (callbacks : ε → TimeoutCallback) (wheel : Finset ε)
    (out : List ε) : Prop :=
  ∃ l, t.links.Lists .slot l ∧
    (∀ e ∈ wheel, e ∉ out → ∃ i, t.HasSlot i ∧ e ∈ l i) ∧
    (∀ e ∈ out, (callbacks e).readds ≠ none → ∃ i, t.HasSlot i ∧ e ∈ l i) ∧
    ∀ e ∈ out, (callbacks e).readds = none → ∀ i, e ∉ l i

/-- Where an entry that is unlinked follows one that is added again, all that follow are
unlinked too, and the slot of the one that is added again was empty till then. -/
def Harmless (t : FastTimer ε) (callbacks : ε → TimeoutCallback) (out : List ε) : Prop :=
  ∀ a c d b x, out = a ++ c :: d :: b → (callbacks c).readds = some x →
    t.unlinks callbacks d = true →
    (∀ e ∈ b, t.unlinks callbacks e = true) ∧
    t.links.next (.anchor (.slot (t.readdSlot x))) = none ∧
    ∀ e ∈ a, ∀ y, (callbacks e).readds = some y → t.readdSlot y ≠ t.readdSlot x

section Outcome

variable {t₀ t : FastTimer ε} {callbacks : ε → TimeoutCallback} {l : Int → List ε}
  {ideal : Links TimerHead ε} {out a b : List ε} {c : ε} {x now : Int} {wheel : Finset ε}

omit [DecidableEq ε] in
theorem readd_split (t₀ : FastTimer ε) (l : Int → List ε) (hout : out = a ++ c :: b)
    (hc : (callbacks c).readds = some x) :
    ∃ p, t₀.readd callbacks l out (t₀.readdSlot x) =
      p ++ c :: t₀.readd callbacks l a (t₀.readdSlot x) ∧ ∀ e ∈ p, e ∈ b := by
  rw [hout, ← List.singleton_append, ← List.append_assoc, readd_append]
  obtain ⟨p, hp, hmem⟩ :=
    readd_front (t := t₀) (l := t₀.readd callbacks l (a ++ [c])) (b := b) (t₀.readdSlot x)
  refine ⟨p, ?_, hmem⟩
  rw [hp, readd_concat_some hc, Function.update_self]

omit [DecidableEq ε] in
theorem readd_eq_nil_iff {i : Int} : t₀.readd callbacks l a i = [] ↔
    l i = [] ∧ ∀ e ∈ a, ∀ y, (callbacks e).readds = some y → t₀.readdSlot y ≠ i := by
  simp only [List.eq_nil_iff_forall_not_mem, mem_readd]
  constructor
  · exact fun h => ⟨fun e he => h e (.inl he), fun e he y hy hi => h e (.inr ⟨he, y, hy, hi⟩)⟩
  · rintro ⟨hl, ha⟩ e (he | ⟨he, y, hy, hi⟩)
    · exact hl e he
    · exact ha e he y hy hi

omit [DecidableEq ε] in
/-- The harmless case: every pointer of the slots is as it should be. -/
theorem Dealing.lists_of_harmless (h : Dealing t₀ callbacks l t ideal out [])
    (hl : ∀ i, t₀.links.next (.anchor (.slot i)) = (l i).head?)
    (hharmless : t₀.Harmless callbacks out) : t.links.Lists .slot (t₀.readd callbacks l out) := by
  refine h.lists.frame h.heads (fun i e he => ?_) h.prevs
  rcases mem_readd.mp he with he | ⟨he, x, hx, -⟩
  · exact h.pending i e he
  obtain ⟨a, b, hout⟩ := List.append_of_mem he
  rw [h.nexts a e b x hout hx]
  cases b with
  | nil => rfl
  | cons d b =>
    by_cases hd : t₀.unlinks callbacks d = true
    · obtain ⟨hall, hslot, hbefore⟩ := hharmless a e d b x hout hx hd
      have hdrop : (d :: b).dropWhile (t₀.unlinks callbacks) = [] :=
        List.dropWhile_eq_nil_iff.mpr (List.forall_mem_cons.mpr ⟨hd, hall⟩)
      obtain ⟨p, hp, -⟩ := readd_split t₀ l hout hx
      have hempty : t₀.readd callbacks l a (t₀.readdSlot x) = [] := by
        rw [hl, List.head?_eq_none_iff] at hslot
        exact readd_eq_nil_iff.mpr ⟨hslot, hbefore⟩
      rw [if_pos (show (d :: b).head?.any (t₀.unlinks callbacks) = true from hd), hdrop,
        h.lists.next_eq hp, hempty]
      rfl
    · rw [if_neg (show ¬ (d :: b).head?.any (t₀.unlinks callbacks) = true from hd)]

omit [DecidableEq ε] in
/-- If the lists are kept, all that follows an unlinked entry is unlinked: the first entry
that is not would follow `c` in its slot, while it points back to one added later. -/
theorem Dealing.forall_unlinks (h : Dealing t₀ callbacks l t ideal out []) {l' : Int → List ε}
    (hlists : t.links.Lists .slot l')
    (hcleaned : ∀ e ∈ out, (callbacks e).readds = none → ∀ i, e ∉ l' i) {d : ε} {j : Int}
    (hout : out = a ++ c :: d :: b) {p q : List ε} (hsplit : l' j = p ++ c :: q)
    (hnext : q.head? = (b.dropWhile (t₀.unlinks callbacks)).head?) :
    ∀ e ∈ b, t₀.unlinks callbacks e = true := by
  rw [← List.dropWhile_eq_nil_iff]
  cases hdrop : b.dropWhile (t₀.unlinks callbacks) with
  | nil => rfl
  | cons m b' =>
    rw [hdrop, List.head?_cons] at hnext
    obtain ⟨q', rfl⟩ := List.head?_eq_some_iff.mp hnext
    have hm : m ∈ b := (List.dropWhile_sublist _).subset (hdrop ▸ List.mem_cons_self)
    obtain ⟨b₁, b₂, hb⟩ := List.append_of_mem hm
    have hmout : out = (a ++ c :: d :: b₁) ++ m :: b₂ := by
      rw [hout, hb, List.append_assoc]
      rfl
    have hmj : m ∈ l' j := hsplit ▸ by simp
    have hmmem : m ∈ out := by
      rw [hmout]
      simp
    obtain ⟨y, hy⟩ : ∃ y, (callbacks m).readds = some y := by
      cases hy : (callbacks m).readds with
      | none => exact absurd hmj (hcleaned m hmmem hy j)
      | some y => exact ⟨y, rfl⟩
    obtain ⟨p', hp', hback⟩ := readd_split t₀ l hmout hy
    have hprev := hlists.prev_eq (show l' j = (p ++ [c]) ++ m :: q' by rw [hsplit]; simp)
    have hmi : m ∈ t₀.readd callbacks l out (t₀.readdSlot y) := by
      rw [hp']
      simp
    rw [h.prevs _ m hmi, h.lists.prev_eq hp', Links.lastOf_append_cons] at hprev
    obtain ⟨p'', rfl⟩ := Links.eq_concat_of_lastOf (Option.some.inj hprev)
    have hnodup := h.nodup
    rw [List.append_nil, hmout, List.nodup_append] at hnodup
    exact absurd rfl (hnodup.2.2 c (by simp) c (List.mem_cons_of_mem _ (hback c (by simp))))

omit [DecidableEq ε] in
/-- An entry that is last in its slot was put into an empty one: whatever was there points
back to it. -/
theorem Dealing.readd_nil (h : Dealing t₀ callbacks l t ideal out []) {l' : Int → List ε}
    (hlists : t.links.Lists .slot l')
    (hkept : ∀ e ∈ t₀.readd callbacks l a (t₀.readdSlot x), ∃ k, e ∈ l' k) {j : Int}
    (hout : out = a ++ c :: b) (hx : (callbacks c).readds = some x) {p : List ε}
    (hsplit : l' j = p ++ [c]) : t₀.readd callbacks l a (t₀.readdSlot x) = [] := by
  cases hrest : t₀.readd callbacks l a (t₀.readdSlot x) with
  | nil => rfl
  | cons f rest =>
    obtain ⟨p', hp', -⟩ := readd_split t₀ l hout hx
    rw [hrest] at hp'
    obtain ⟨k, hfk⟩ := hkept f (hrest ▸ List.mem_cons_self)
    obtain ⟨p₂, q₂, hsplit₂⟩ := List.append_of_mem hfk
    have hprev := hlists.prev_eq hsplit₂
    have hfi : f ∈ t₀.readd callbacks l out (t₀.readdSlot x) := by
      rw [hp']
      simp
    have hideal := h.lists.prev_eq (show t₀.readd callbacks l out (t₀.readdSlot x) =
      (p' ++ [c]) ++ f :: rest by rw [hp']; simp)
    rw [h.prevs _ f hfi, hideal, Links.lastOf_append_cons] at hprev
    obtain ⟨p₃, rfl⟩ := Links.eq_concat_of_lastOf (Option.some.inj hprev).symm
    rw [List.append_assoc] at hsplit₂
    exact nomatch (hlists.next_eq hsplit).symm.trans (hlists.next_eq hsplit₂)

omit [DecidableEq ε] in
/-- **The slots are kept only in the harmless case.** -/
theorem Dealing.harmless_of_kept (h : Dealing t₀ callbacks l t ideal out [])
    (hret : t₀.Returned now wheel l out) (hkept : t.Kept callbacks wheel out) :
    t₀.Harmless callbacks out := by
  obtain ⟨l', hlists, hpending, hreadded, hcleaned⟩ := hkept
  intro a c d b x hout hx hd
  have hcout : c ∈ out := hout ▸ List.mem_append_right _ List.mem_cons_self
  obtain ⟨j, -, hcj⟩ := hreadded c hcout (by rw [hx]; exact nofun)
  obtain ⟨p, q, hsplit⟩ := List.append_of_mem hcj
  have hnext := h.nexts a c (d :: b) x hout hx
  rw [if_pos (show (d :: b).head?.any (t₀.unlinks callbacks) = true from hd),
    hlists.next_eq hsplit, List.append_nil, List.dropWhile_cons_of_pos hd] at hnext
  have hall := h.forall_unlinks hlists hcleaned hout hsplit hnext
  refine ⟨hall, ?_⟩
  rw [List.dropWhile_eq_nil_iff.mpr hall, List.head?_nil, List.head?_eq_none_iff] at hnext
  subst hnext
  rw [(hret.lists.spells _).next_eq, List.head?_eq_none_iff, ← readd_eq_nil_iff]
  refine h.readd_nil hlists (fun f hf => ?_) hout hx hsplit
  rcases mem_readd.mp hf with hf | ⟨hf, y, hy, -⟩
  · obtain ⟨k, -, hk⟩ := hpending f ((hret.mem f).mpr (.inr ⟨_, hf⟩)) fun hfout =>
      hret.apart _ f hfout hf
    exact ⟨k, hk⟩
  · obtain ⟨k, -, hk⟩ := hreadded f (hout ▸ List.mem_append_left _ hf) (by rw [hy]; exact nofun)
    exact ⟨k, hk⟩

theorem Returned.kept_iff (h : t₀.Returned now wheel l out) (callbacks : ε → TimeoutCallback) :
    (∃ enough, ∀ fuel ≥ enough, ∃ t, t₀.dealTimeouts callbacks fuel = some t ∧
      t.Kept callbacks wheel out) ↔ t₀.Harmless callbacks out := by
  have hloop : ∀ fuel > out.length, ∃ t ideal, t₀.dealTimeouts callbacks fuel = some t ∧
      Dealing t₀ callbacks l t ideal out [] := by
    intro fuel hfuel
    unfold dealTimeouts
    rw [h.spells.next_eq]
    exact (Dealing.start h).loop hfuel
  constructor
  · rintro ⟨enough, hkept⟩
    obtain ⟨t, ideal, hdeal, hend⟩ := hloop (enough + out.length + 1) (by omega)
    obtain ⟨t', hdeal', hkept⟩ := hkept (enough + out.length + 1) (by omega)
    rw [hdeal] at hdeal'
    exact hend.harmless_of_kept h (Option.some.inj hdeal' ▸ hkept)
  · intro hharmless
    refine ⟨out.length + 1, fun fuel hfuel => ?_⟩
    obtain ⟨t, ideal, hdeal, hend⟩ := hloop fuel hfuel
    have hslot : ∀ i, t₀.HasSlot i → t.HasSlot i := by
      intro i hi
      unfold HasSlot
      rw [hend.slotCount]
      exact hi
    refine ⟨t, hdeal, _, hend.lists_of_harmless (fun i => (h.lists.spells i).next_eq) hharmless,
      ?_, ?_, ?_⟩
    · intro e he hout
      obtain ⟨i, hi⟩ := ((h.mem e).mp he).resolve_left hout
      exact ⟨i, hslot i (h.range i e hi), mem_readd.mpr (.inl hi)⟩
    · intro e he hreadds
      obtain ⟨x, hx⟩ := Option.ne_none_iff_exists'.mp hreadds
      refine ⟨t₀.readdSlot x, hslot _ ?_, mem_readd.mpr (.inr ⟨he, x, hx, rfl⟩)⟩
      exact hasSlot_slotIndex h.slots (h.times.trans (le_max_right _ _))
    · intro e he hnone i hi
      rcases mem_readd.mp hi with hi | ⟨-, x, hx, -⟩
      · exact h.apart i e he hi
      · exact nomatch hnone.symm.trans hx

end Outcome

/-- **The handling of timeouts keeps the slots just where it is harmless**: for every wheel,
every call for the timeouts and all callbacks. -/
theorem deal_timeouts_keeps_iff {t t' : FastTimer ε} {wheel : Finset ε} {l : Int → List ε}
    {now count : Int} {fuel : Nat} (h : t.Slotted wheel l)
    (hget : t.fastTimerTimeoutsGet now fuel = some (count, t')) {out : List ε}
    (hout : t'.links.Spells (.anchor .result) out none) (callbacks : ε → TimeoutCallback) :
    (∃ enough, ∀ fuel ≥ enough, ∃ t'', t'.dealTimeouts callbacks fuel = some t'' ∧
      t''.Kept callbacks wheel out) ↔ t'.Harmless callbacks out := by
  obtain ⟨l', out', hreturned⟩ := h.returned hget
  rw [hout.unique hreturned.spells]
  exact hreturned.kept_iff callbacks

/-- Entry 2 waits for second 39; the entries 0 and 1 are due after second 5. -/
def threeTimers : FastTimer (Fin 3) :=
  let t := ((Wheel.tenSlots (Fin 3)).timer.setExpires 2 39).fastTimerAdd 2
  let t := (t.setExpires 1 5).fastTimerAdd 1
  (t.setExpires 0 5).fastTimerAdd 0

theorem threeTimers_slotted : ∃ l, threeTimers.Slotted {0, 1, 2} l := by
  obtain ⟨t₀, hinit⟩ := Wheel.tenSlots_init (Fin 3)
  obtain ⟨l₁, h₁⟩ := (Wheel.holds_init hinit).add (Finset.notMem_empty 2) 39
  obtain ⟨l₂, h₂⟩ := h₁.add (e := 1) (by decide) 5
  obtain ⟨l₃, h₃⟩ := h₂.add (e := 0) (by decide) 5
  exact ⟨l₃, h₃.toSlotted⟩

theorem threeTimers_get : ∃ t', threeTimers.fastTimerTimeoutsGet 9 20 = some (2, t') ∧
    t'.links.Spells (.anchor .result) [0, 1] none ∧
    t'.links.next (.anchor (.slot (t'.readdSlot 39))) = some 2 ∧ 0 < t'.expires 1 :=
  ⟨_, rfl, ⟨rfl, rfl, rfl⟩, rfl, by decide⟩

theorem deal_timeouts_keeps_closed : ∃ t' : FastTimer (Fin 3),
    threeTimers.fastTimerTimeoutsGet 9 20 = some (2, t') ∧
      ∃ enough, ∀ fuel ≥ enough, ∃ t'', t'.dealTimeouts (fun _ => .clientSockWrite) fuel = some t'' ∧
        t''.Kept (fun _ => .clientSockWrite) {0, 1, 2} [0, 1] := by
  obtain ⟨l, hl⟩ := threeTimers_slotted
  obtain ⟨t', hget, hspells, -⟩ := threeTimers_get
  refine ⟨t', hget, (deal_timeouts_keeps_iff hl hget hspells _).mpr ?_⟩
  intro a c d b x _ hx
  exact nomatch hx

/-- An idle connection that is kept alive, at second 9 with a timeout of 30. -/
def idle : TimeoutCallback := .clientSockRead 0 true 9 30

/-- **A timer is lost.** Entry 0 is added again before entry 2, in the slot where that waits;
entry 1 still points back to entry 0, and when it is removed the next of entry 0 is NULL. -/
theorem deal_timeouts_loses : ∃ t' : FastTimer (Fin 3),
    threeTimers.fastTimerTimeoutsGet 9 20 = some (2, t') ∧
      t'.links.Spells (.anchor .result) [0, 1] none ∧
      ∃ callbacks, ¬ ∃ enough, ∀ fuel ≥ enough, ∃ t'', t'.dealTimeouts callbacks fuel = some t'' ∧
        t''.Kept callbacks {0, 1, 2} [0, 1] := by
  obtain ⟨l, hl⟩ := threeTimers_slotted
  obtain ⟨t', hget, hspells, hslot, hexpires⟩ := threeTimers_get
  refine ⟨t', hget, hspells, fun e => if e = 0 then idle else .clientSockWrite, ?_⟩
  obtain ⟨l', out, hreturned⟩ := hl.returned hget
  rw [hspells.unique hreturned.spells, hreturned.kept_iff, ← hspells.unique hreturned.spells]
  intro hharmless
  have hnone := (hharmless [] 0 1 [] 39 rfl rfl (decide_eq_true hexpires)).2.1
  exact nomatch hslot.symm.trans hnone

end FastDht.FastTimer
