import Mathlib.Data.List.Basic
import Mathlib.Data.List.Nodup
import Mathlib.Logic.Function.Basic

/-! # Intrusive doubly linked lists

Entries carry a pointer to the next entry and one back to the entry or the list head before
them. A list head, an anchor, has a pointer to the first entry only. `Spells` reads a list
along the forward pointers and `Back` along the others; several lists that share no entry
are kept by `Lists`. -/
namespace FastDht.Lib

/-- What a back pointer points to. -/
inductive Link (α ε : Type*)
  | anchor (a : α)
  | entry (e : ε)
  deriving DecidableEq

/-- The pointers of all anchors and entries. -/
structure Links (α ε : Type*) where
  next : Link α ε → Option ε
  prev : ε → Option (Link α ε)

namespace Links

variable {α ε ι : Type*}

section Operations

variable [DecidableEq α] [DecidableEq ε]

def setNext (m : Links α ε) (p : Link α ε) (v : Option ε) : Links α ε :=
  { m with next := Function.update m.next p v }

def setPrev (m : Links α ε) (e : ε) (v : Option (Link α ε)) : Links α ε :=
  { m with prev := Function.update m.prev e v }

def push (m : Links α ε) (p : Link α ε) (e : ε) : Links α ε :=
  let first := m.next p
  let m := m.setNext (.entry e) first
  let m := match first with
    | some f => m.setPrev f (some (.entry e))
    | none => m
  (m.setPrev e (some p)).setNext p (some e)

/-- Takes an entry out of its list; without a back pointer it is in none. -/
def unlink (m : Links α ε) (e : ε) : Links α ε :=
  match m.prev e with
  | none => m
  | some p =>
    match m.next (.entry e) with
    | some f => (((m.setPrev f (some p)).setNext p (some f)).setNext (.entry e) none).setPrev e none
    | none => (m.setNext p none).setPrev e none

/-- Moves a run of entries that starts with `s` from between `p` and `b` behind `tail`. The
last entry of the run keeps its forward pointer. -/
def splice (m : Links α ε) (p : Link α ε) (s : ε) (b : Option ε) (tail : Link α ε) : Links α ε :=
  let m := m.setNext p b
  let m := match b with
    | some f => m.setPrev f (some p)
    | none => m
  (m.setNext tail (some s)).setPrev s (some tail)

end Operations

/-- From `p` on the forward pointers give the entries `l`, and then `z`. -/
def Spells (m : Links α ε) : Link α ε → List ε → Option ε → Prop
  | p, [], z => m.next p = z
  | p, e :: l, z => m.next p = some e ∧ Spells m (.entry e) l z

/-- The entries point back to each other, and the first to `p`. -/
def Back (m : Links α ε) : Link α ε → List ε → Prop
  | _, [] => True
  | p, e :: l => m.prev e = some p ∧ Back m (.entry e) l

def lastOf (p : Link α ε) : List ε → Link α ε
  | [] => p
  | e :: l => lastOf (.entry e) l

/-! ## Pieces of a list -/

section Pieces

variable {m m' : Links α ε} {p q : Link α ε} {l a b : List ε} {e : ε} {z : Option ε}

theorem spells_append_cons :
    m.Spells p (a ++ e :: b) z ↔ m.Spells p a (some e) ∧ m.Spells (.entry e) b z := by
  induction a generalizing p with
  | nil => rfl
  | cons x a ih => rw [List.cons_append, Spells, ih, Spells, and_assoc]

theorem back_append : m.Back p (a ++ b) ↔ m.Back p a ∧ m.Back (lastOf p a) b := by
  induction a generalizing p with
  | nil => exact ⟨fun h => ⟨trivial, h⟩, And.right⟩
  | cons x a ih => rw [List.cons_append, Back, ih, Back, lastOf, and_assoc]

theorem lastOf_append_cons : lastOf p (a ++ e :: b) = lastOf (.entry e) b := by
  induction a generalizing p with
  | nil => rfl
  | cons x a ih => exact ih

theorem lastOf_append : lastOf p (a ++ b) = lastOf (lastOf p a) b := by
  induction a generalizing p with
  | nil => rfl
  | cons x a ih => exact ih

theorem lastOf_of_getLast? (h : l.getLast? = some e) : lastOf p l = .entry e := by
  obtain ⟨l', rfl⟩ := List.getLast?_eq_some_iff.mp h
  exact lastOf_append_cons

theorem lastOf_cases (p : Link α ε) (l : List ε) :
    lastOf p l = p ∨ ∃ e ∈ l, lastOf p l = .entry e := by
  induction l generalizing p with
  | nil => exact .inl rfl
  | cons x l ih =>
    rcases ih (.entry x) with h | ⟨e, he, h⟩
    · exact .inr ⟨x, List.mem_cons_self, h⟩
    · exact .inr ⟨e, List.mem_cons_of_mem _ he, h⟩

theorem Spells.next_eq (h : m.Spells p l none) : m.next p = l.head? := by
  cases l with
  | nil => exact h
  | cons x l => exact h.1

theorem Spells.unique {l' : List ε} (h : m.Spells p l none) (h' : m.Spells p l' none) :
    l = l' := by
  induction l generalizing p l' with
  | nil =>
    cases l' with
    | nil => rfl
    | cons y l' => exact nomatch h'.1.symm.trans h
  | cons x l ih =>
    cases l' with
    | nil => exact nomatch h.1.symm.trans h'
    | cons y l' =>
      obtain rfl := Option.some.inj (h.1.symm.trans h'.1)
      rw [ih h.2 h'.2]

theorem Spells.of_next {p' : Link α ε} (h : m.Spells p l z) (hp : m'.next p' = m.next p)
    (hl : ∀ e ∈ l, m'.next (.entry e) = m.next (.entry e)) : m'.Spells p' l z := by
  induction l generalizing p p' with
  | nil => exact hp.trans h
  | cons x l ih =>
    exact ⟨hp.trans h.1, ih h.2 (hl x List.mem_cons_self)
      fun e he => hl e (List.mem_cons_of_mem _ he)⟩

theorem Back.of_prev (h : m.Back p l) (hl : ∀ e ∈ l, m'.prev e = m.prev e) : m'.Back p l := by
  induction l generalizing p with
  | nil => trivial
  | cons x l ih =>
    exact ⟨(hl x List.mem_cons_self).trans h.1, ih h.2 fun e he => hl e (List.mem_cons_of_mem _ he)⟩

theorem Back.of_first (h : m.Back p l) (hfirst : ∀ x, l.head? = some x → m'.prev x = some q)
    (hl : ∀ e ∈ l.tail, m'.prev e = m.prev e) : m'.Back q l := by
  cases l with
  | nil => trivial
  | cons x l => exact ⟨hfirst x rfl, h.2.of_prev hl⟩

omit α in
theorem head?_ne_of_mem_tail (hl : l.Nodup) (he : e ∈ l.tail) : l.head? ≠ some e := by
  cases l with
  | nil => exact nofun
  | cons x l => exact fun h => (List.nodup_cons.mp hl).1 (Option.some.inj h ▸ he)

theorem eq_concat_of_lastOf {a : α} (h : lastOf (.anchor a) l = .entry e) :
    ∃ l', l = l' ++ [e] := by
  rcases List.eq_nil_or_concat l with rfl | ⟨l', x, rfl⟩
  · exact nomatch h
  · rw [List.concat_eq_append, lastOf_append_cons] at h
    exact ⟨l', by rw [List.concat_eq_append, Link.entry.inj h]⟩

theorem entry_ne_lastOf {a : α} {l : List ε} (he : e ∉ l) :
    Link.entry e ≠ lastOf (.anchor a) l := by
  intro heq
  rcases lastOf_cases (.anchor a : Link α ε) l with hl | ⟨y, hy, hl⟩
  · exact nomatch heq.trans hl
  · exact he (Link.entry.inj (heq.trans hl) ▸ hy)

theorem anchor_ne_lastOf {i k : α} {l : List ε} (hk : k ≠ i) :
    Link.anchor i ≠ lastOf (.anchor k) l := by
  intro heq
  rcases lastOf_cases (.anchor k : Link α ε) l with hl | ⟨y, -, hl⟩
  · exact hk (Link.anchor.inj (heq.trans hl)).symm
  · exact nomatch heq.trans hl

theorem Spells.of_last {z' : Option ε} (h : m.Spells p l z) (hl : l.Nodup)
    (hp : ∀ e ∈ l, p ≠ .entry e) (hlast : m'.next (lastOf p l) = z')
    (hfirst : p ≠ lastOf p l → m'.next p = m.next p)
    (hnext : ∀ e ∈ l, .entry e ≠ lastOf p l → m'.next (.entry e) = m.next (.entry e)) :
    m'.Spells p l z' := by
  induction l generalizing p with
  | nil => exact hlast
  | cons x l ih =>
    obtain ⟨hx, hl⟩ := List.nodup_cons.mp hl
    have hne : p ≠ lastOf (.entry x) l := by
      rcases lastOf_cases (.entry x : Link α ε) l with hl | ⟨e, he, hl⟩
      · rw [hl]
        exact hp x List.mem_cons_self
      · rw [hl]
        exact hp e (List.mem_cons_of_mem _ he)
    refine ⟨(hfirst hne).trans h.1, ih h.2 hl ?_ hlast (hnext x List.mem_cons_self) ?_⟩
    · exact fun e he heq => hx (by rwa [Link.entry.inj heq])
    · exact fun e he => hnext e (List.mem_cons_of_mem _ he)

theorem Spells.left (h : m.Spells p (a ++ b) z) : ∃ z', m.Spells p a z' := by
  cases b with
  | nil => exact ⟨z, by rwa [List.append_nil] at h⟩
  | cons x b => exact ⟨some x, (spells_append_cons.mp h).1⟩

theorem Spells.append (ha : m.Spells p a (b.head?.or z))
    (hb : ∀ x b', b = x :: b' → m.Spells (.entry x) b' z) : m.Spells p (a ++ b) z := by
  cases b with
  | nil =>
    rw [List.append_nil]
    exact ha
  | cons x b => exact spells_append_cons.mpr ⟨ha, hb x b rfl⟩

end Pieces

/-! ## What the operations write -/

section Writes

variable [DecidableEq α] [DecidableEq ε] {m : Links α ε} {p q : Link α ε} {e f : ε}

theorem setNext_self (m : Links α ε) (p : Link α ε) (v : Option ε) :
    (m.setNext p v).next p = v :=
  Function.update_self _ _ _

theorem setNext_of_ne (v : Option ε) (h : q ≠ p) : (m.setNext p v).next q = m.next q :=
  Function.update_of_ne h _ _

theorem push_next : (m.push p e).next q =
    if q = p then some e else if q = .entry e then m.next p else m.next q := by
  by_cases hq : q = p
  · rw [if_pos hq, hq]
    exact Function.update_self _ _ _
  · rw [if_neg hq]
    refine (Function.update_of_ne hq _ _).trans ?_
    have hsame : ∀ m' : Links α ε, m'.next = (m.setNext (.entry e) (m.next p)).next →
        m'.next q = if q = .entry e then m.next p else m.next q := by
      intro m' hm'
      rw [hm']
      exact Function.update_apply _ _ _ _
    refine hsame _ ?_
    cases m.next p <;> rfl

theorem push_prev : (m.push p e).prev f =
    if f = e then some p else if m.next p = some f then some (.entry e) else m.prev f := by
  by_cases hf : f = e
  · rw [if_pos hf, hf]
    exact Function.update_self _ _ _
  · rw [if_neg hf]
    refine (Function.update_of_ne hf _ _).trans ?_
    cases hfirst : m.next p with
    | none => exact (if_neg nofun).symm
    | some x =>
      by_cases hx : x = f
      · rw [hx, if_pos rfl]
        exact Function.update_self _ _ _
      · rw [if_neg fun h => hx (Option.some.inj h)]
        exact Function.update_of_ne (Ne.symm hx) _ _

theorem unlink_next (hprev : m.prev e = some p) : (m.unlink e).next q =
    if q = .entry e then none else if q = p then m.next (.entry e) else m.next q := by
  unfold unlink
  rw [hprev]
  cases hnext : m.next (.entry e) with
  | none =>
    show Function.update m.next p none q = _
    rw [Function.update_apply]
    split_ifs with h₁ h₂ h₂
    · rfl
    · rfl
    · rw [h₂, hnext]
    · rfl
  | some x =>
    show Function.update (Function.update m.next p (some x)) (.entry e) none q = _
    rw [Function.update_apply, Function.update_apply]

theorem unlink_prev (hprev : m.prev e = some p) : (m.unlink e).prev f =
    if f = e then none else if m.next (.entry e) = some f then some p else m.prev f := by
  unfold unlink
  rw [hprev]
  cases hnext : m.next (.entry e) with
  | none =>
    show Function.update m.prev e none f = _
    rw [Function.update_apply, if_neg (show ¬ none = some f from nofun)]
  | some x =>
    show Function.update (Function.update m.prev x (some p)) e none f = _
    rw [Function.update_apply, Function.update_apply]
    simp only [Option.some.injEq, eq_comm]

theorem splice_next {s : ε} {b : Option ε} {tail : Link α ε} : (m.splice p s b tail).next q =
    if q = tail then some s else if q = p then b else m.next q := by
  have hsame : (m.splice p s b tail).next =
      Function.update (Function.update m.next p b) tail (some s) := by
    cases b <;> rfl
  rw [hsame, Function.update_apply, Function.update_apply]

theorem splice_prev {s : ε} {b : Option ε} {tail : Link α ε} : (m.splice p s b tail).prev f =
    if f = s then some tail else if b = some f then some p else m.prev f := by
  cases b with
  | none =>
    show Function.update m.prev s (some tail) f = _
    rw [Function.update_apply, if_neg (show ¬ none = some f from nofun)]
  | some x =>
    show Function.update (Function.update m.prev x (some p)) s (some tail) f = _
    rw [Function.update_apply, Function.update_apply]
    simp only [Option.some.injEq, eq_comm]

end Writes

/-! ## Lists that share no entry -/

/-- The lists at the anchors `f i`. -/
structure Lists (m : Links α ε) (f : ι → α) (l : ι → List ε) : Prop where
  spells : ∀ i, m.Spells (.anchor (f i)) (l i) none
  back : ∀ i, m.Back (.anchor (f i)) (l i)
  nodup : ∀ i, (l i).Nodup
  disjoint : ∀ {i j e}, e ∈ l i → e ∈ l j → i = j

/-- A list at the anchor `k`. The forward pointer of its last entry, if there is one, is
not written yet. -/
structure Open (m : Links α ε) (k : α) (r : List ε) : Prop where
  spells : ∃ z, m.Spells (.anchor k) r z ∧ (r = [] → z = none)
  back : m.Back (.anchor k) r
  nodup : r.Nodup

namespace Lists

variable {m m' : Links α ε} {f : ι → α} {l : ι → List ε} {i : ι} {a b : List ε} {e : ε}

theorem frame (h : m.Lists f l) (hanchor : ∀ i, m'.next (.anchor (f i)) = m.next (.anchor (f i)))
    (hnext : ∀ i, ∀ e ∈ l i, m'.next (.entry e) = m.next (.entry e))
    (hprev : ∀ i, ∀ e ∈ l i, m'.prev e = m.prev e) : m'.Lists f l where
  spells i := (h.spells i).of_next (hanchor i) (hnext i)
  back i := (h.back i).of_prev (hprev i)
  nodup := h.nodup
  disjoint := h.disjoint

theorem prev_eq (h : m.Lists f l) (hi : l i = a ++ e :: b) :
    m.prev e = some (lastOf (.anchor (f i)) a) := by
  have hback := h.back i
  rw [hi, back_append] at hback
  exact hback.2.1

theorem next_eq (h : m.Lists f l) (hi : l i = a ++ e :: b) :
    m.next (.entry e) = b.head? := by
  have hspells := h.spells i
  rw [hi, spells_append_cons] at hspells
  exact hspells.2.next_eq

variable [DecidableEq ι]

theorem mem_update {v : List ε} {j : ι} :
    e ∈ Function.update l i v j ↔ (j = i ∧ e ∈ v) ∨ (j ≠ i ∧ e ∈ l j) := by
  by_cases hj : j = i
  · rw [hj, Function.update_self]
    simp
  · simp [hj]

theorem mem_pushed {x : ε} {j : ι} :
    x ∈ Function.update l i (e :: l i) j ↔ (j = i ∧ x = e) ∨ x ∈ l j := by
  by_cases hj : j = i
  · simp [hj]
  · simp [hj]

theorem mem_unlinked (h : m.Lists f l) (hi : l i = a ++ e :: b) {x : ε} {j : ι} :
    x ∈ Function.update l i (a ++ b) j ↔ x ≠ e ∧ x ∈ l j := by
  have hnodup := h.nodup i
  rw [hi, List.nodup_middle, List.nodup_cons] at hnodup
  have hmem : x ∈ l i ↔ x = e ∨ x ∈ a ++ b := by
    rw [hi, List.mem_append, List.mem_cons, List.mem_append]
    exact or_left_comm
  rw [mem_update]
  by_cases hj : j = i
  · rw [hj, hmem]
    constructor
    · rintro (⟨-, hx⟩ | ⟨hne, -⟩)
      · exact ⟨fun heq => hnodup.1 (heq ▸ hx), .inr hx⟩
      · exact absurd rfl hne
    · exact fun hx => .inl ⟨rfl, hx.2.resolve_left hx.1⟩
  · constructor
    · rintro (⟨hji, -⟩ | ⟨-, hx⟩)
      · exact absurd hji hj
      · exact ⟨fun heq => hj (h.disjoint hx (hmem.mpr (.inl heq))), hx⟩
    · exact fun hx => .inr ⟨hj, hx.2⟩

theorem of_update {l' : List ε} (h : m.Lists f l)
    (hspells : m'.Spells (.anchor (f i)) l' none) (hback : m'.Back (.anchor (f i)) l')
    (hnodup : l'.Nodup) (hnew : ∀ j, j ≠ i → ∀ e ∈ l', e ∉ l j)
    (hanchor : ∀ j, j ≠ i → m'.next (.anchor (f j)) = m.next (.anchor (f j)))
    (hnext : ∀ j, j ≠ i → ∀ e ∈ l j, m'.next (.entry e) = m.next (.entry e))
    (hprev : ∀ j, j ≠ i → ∀ e ∈ l j, m'.prev e = m.prev e) :
    m'.Lists f (Function.update l i l') where
  spells j := by
    by_cases hj : j = i
    · rw [hj, Function.update_self]
      exact hspells
    · rw [Function.update_of_ne hj]
      exact (h.spells j).of_next (hanchor j hj) (hnext j hj)
  back j := by
    by_cases hj : j = i
    · rw [hj, Function.update_self]
      exact hback
    · rw [Function.update_of_ne hj]
      exact (h.back j).of_prev (hprev j hj)
  nodup j := by
    by_cases hj : j = i
    · rw [hj, Function.update_self]
      exact hnodup
    · rw [Function.update_of_ne hj]
      exact h.nodup j
  disjoint {j k e} hj hk := by
    by_cases hji : j = i <;> by_cases hki : k = i
    · exact hji.trans hki.symm
    · rw [hji, Function.update_self] at hj
      rw [Function.update_of_ne hki] at hk
      exact absurd hk (hnew k hki e hj)
    · rw [hki, Function.update_self] at hk
      rw [Function.update_of_ne hji] at hj
      exact absurd hj (hnew j hji e hk)
    · rw [Function.update_of_ne hji] at hj
      rw [Function.update_of_ne hki] at hk
      exact h.disjoint hj hk

/-- A list without the entries of `s`: the entry before them points to the one after. -/
theorem cut {s : List ε} (h : m.Lists f l) (hf : Function.Injective f)
    (hi : l i = a ++ (s ++ b)) (hs : s ≠ [])
    (hp : m'.next (lastOf (.anchor (f i)) a) = b.head?)
    (hanchor : ∀ j, .anchor (f j) ≠ lastOf (.anchor (f i)) a →
      m'.next (.anchor (f j)) = m.next (.anchor (f j)))
    (hentry : ∀ j, ∀ x ∈ l j, x ∉ s → .entry x ≠ lastOf (.anchor (f i)) a →
      m'.next (.entry x) = m.next (.entry x))
    (hfirst : ∀ x, b.head? = some x → m'.prev x = some (lastOf (.anchor (f i)) a))
    (hprev : ∀ j, ∀ x ∈ l j, x ∉ s → b.head? ≠ some x → m'.prev x = m.prev x) :
    m'.Lists f (Function.update l i (a ++ b)) := by
  have hnodup := h.nodup i
  have hmem : ∀ x, x ∈ l i ↔ x ∈ a ∨ x ∈ s ∨ x ∈ b := by
    intro x
    rw [hi, List.mem_append, List.mem_append]
  rw [hi, List.nodup_append, List.nodup_append] at hnodup
  obtain ⟨hna, ⟨-, hnb, hsb⟩, hasb⟩ := hnodup
  have has : ∀ x ∈ a, x ∉ s := fun x hx hxs => hasb x hx x (List.mem_append_left _ hxs) rfl
  have hab : ∀ x ∈ a, x ∉ b := fun x hx hxb => hasb x hx x (List.mem_append_right _ hxb) rfl
  have hbs : ∀ x ∈ b, x ∉ s := fun x hx hxs => hsb x hxs x hx rfl
  have hspells := h.spells i
  have hback := h.back i
  obtain ⟨x, s', rfl⟩ := List.exists_cons_of_ne_nil hs
  rw [hi, List.cons_append, spells_append_cons] at hspells
  rw [hi, back_append, back_append] at hback
  have hnotin : ∀ j, j ≠ i → ∀ y ∈ l j, y ∉ l i := fun j hj y hy hyi => hj (h.disjoint hy hyi)
  have hother : ∀ j, j ≠ i → ∀ y ∈ l j, y ∉ a ∧ y ∉ x :: s' ∧ y ∉ b := by
    intro j hj y hy
    have hy := hnotin j hj y hy
    rw [hmem, not_or, not_or] at hy
    exact hy
  refine h.of_update (Spells.append ?_ ?_) (back_append.mpr ⟨?_, ?_⟩) ?_ ?_ ?_ ?_ ?_
  · rw [Option.or_none]
    exact hspells.1.of_last hna nofun hp (hanchor i) fun y hy =>
      hentry i y ((hmem y).mpr (.inl hy)) (has y hy)
  · rintro y b' rfl
    have hrest := (spells_append_cons.mp hspells.2).2
    have hsame : ∀ v ∈ y :: b', m'.next (.entry v) = m.next (.entry v) := fun v hv =>
      hentry i v ((hmem v).mpr (.inr (.inr hv))) (hbs v hv)
        (entry_ne_lastOf fun hva => hab v hva hv)
    exact hrest.of_next (hsame y List.mem_cons_self) fun v hv =>
      hsame v (List.mem_cons_of_mem _ hv)
  · refine hback.1.of_prev fun y hy => hprev i y ((hmem y).mpr (.inl hy)) (has y hy) ?_
    exact fun hhead => hab y hy (List.mem_of_mem_head? hhead)
  · refine hback.2.2.of_first hfirst fun y hy => ?_
    have hyb := List.mem_of_mem_tail hy
    exact hprev i y ((hmem y).mpr (.inr (.inr hyb))) (hbs y hyb) (head?_ne_of_mem_tail hnb hy)
  · exact List.nodup_append.mpr ⟨hna, hnb, fun y hy v hv heq => hab y hy (heq ▸ hv)⟩
  · intro j hj y hy hyj
    obtain ⟨hya, -, hyb⟩ := hother j hj y hyj
    exact (List.mem_append.mp hy).elim hya hyb
  · exact fun j hj => hanchor j (anchor_ne_lastOf (hf.ne hj.symm))
  · intro j hj y hy
    obtain ⟨hya, hys, -⟩ := hother j hj y hy
    exact hentry j y hy hys (entry_ne_lastOf hya)
  · intro j hj y hy
    obtain ⟨-, hys, hyb⟩ := hother j hj y hy
    exact hprev j y hy hys fun hhead => hyb (List.mem_of_mem_head? hhead)

variable [DecidableEq α] [DecidableEq ε]

/-- **An entry put behind a list head is the first of its list.** -/
theorem push (h : m.Lists f l) (hf : Function.Injective f) (i : ι) (he : ∀ j, e ∉ l j) :
    (m.push (.anchor (f i)) e).Lists f (Function.update l i (e :: l i)) := by
  have hfirst := (h.spells i).next_eq
  have hne : ∀ j, ∀ x ∈ l j, x ≠ e := fun j x hx heq => he j (heq ▸ hx)
  have hentry : ∀ j, ∀ x ∈ l j, (m.push (.anchor (f i)) e).next (.entry x) = m.next (.entry x) := by
    intro j x hx
    rw [push_next, if_neg nofun, if_neg fun heq => hne j x hx (Link.entry.inj heq)]
  refine h.of_update ⟨?_, ?_⟩ ⟨?_, ?_⟩ (List.nodup_cons.mpr ⟨he i, h.nodup i⟩) ?_ ?_
    (fun j _ => hentry j) ?_
  · rw [push_next, if_pos rfl]
  · refine (h.spells i).of_next ?_ (hentry i)
    rw [push_next, if_neg nofun, if_pos rfl]
  · rw [push_prev, if_pos rfl]
  · refine (h.back i).of_first ?_ ?_
    · intro x hx
      rw [push_prev, if_neg (hne i x (List.mem_of_mem_head? hx)), if_pos (hfirst.trans hx)]
    · intro x hx
      have hmem := List.mem_of_mem_tail hx
      rw [push_prev, if_neg (hne i x hmem), if_neg]
      rw [hfirst]
      exact head?_ne_of_mem_tail (h.nodup i) hx
  · intro j hj x hx hmem
    rcases List.mem_cons.mp hx with rfl | hx
    · exact he j hmem
    · exact hj (h.disjoint hmem hx)
  · intro j hj
    rw [push_next, if_neg fun heq => hj (hf (Link.anchor.inj heq)), if_neg nofun]
  · intro j hj x hx
    rw [push_prev, if_neg (hne j x hx), if_neg]
    rw [hfirst]
    exact fun hhead => hj (h.disjoint hx (List.mem_of_mem_head? hhead))

/-- **An entry taken out leaves its list without it.** -/
theorem unlink (h : m.Lists f l) (hf : Function.Injective f) (hi : l i = a ++ e :: b) :
    (m.unlink e).Lists f (Function.update l i (a ++ b)) := by
  have hprev := h.prev_eq hi
  have hnext := h.next_eq hi
  have hnodup := h.nodup i
  rw [hi] at hnodup
  have hea : e ∉ a := fun hmem =>
    (List.nodup_append.mp hnodup).2.2 e hmem e List.mem_cons_self rfl
  have heb : e ∉ b := (List.nodup_cons.mp (List.nodup_append.mp hnodup).2.1).1
  refine h.cut (s := [e]) hf hi (List.cons_ne_nil _ _) ?_ ?_ ?_ ?_ ?_
  · rw [unlink_next hprev, if_neg (entry_ne_lastOf hea).symm, if_pos rfl, hnext]
  · intro j hj
    rw [unlink_next hprev, if_neg nofun, if_neg hj]
  · intro j x _ hx hne
    rw [unlink_next hprev, if_neg fun heq => hx (List.mem_singleton.mpr (Link.entry.inj heq)),
      if_neg hne]
  · intro x hx
    have hne : x ≠ e := fun heq => heb (heq ▸ List.mem_of_mem_head? hx)
    rw [unlink_prev hprev, if_neg hne, if_pos (hnext.trans hx)]
  · intro j x _ hx hne
    rw [unlink_prev hprev, if_neg fun heq => hx (List.mem_singleton.mpr heq),
      if_neg (hnext.symm ▸ hne)]

section Open

variable {r : List ε} {k : α}

omit [DecidableEq ι] in
theorem push_open (h : m.Lists f l) (hopen : m.Open k r) (hk : k ≠ f i)
    (hr : ∀ x ∈ r, x ∉ l i) (he : e ∉ r) : (m.push (.anchor (f i)) e).Open k r := by
  obtain ⟨z, hz, hempty⟩ := hopen.spells
  refine ⟨⟨z, hz.of_next ?_ fun x hx => ?_, hempty⟩, hopen.back.of_prev fun x hx => ?_,
    hopen.nodup⟩
  · rw [push_next, if_neg fun heq => hk (Link.anchor.inj heq), if_neg nofun]
  · have hne : (Link.entry x : Link α ε) ≠ .entry e := fun heq => he (Link.entry.inj heq ▸ hx)
    rw [push_next, if_neg nofun, if_neg hne]
  · have hne : x ≠ e := fun heq => he (heq ▸ hx)
    rw [push_prev, if_neg hne, (h.spells i).next_eq, if_neg]
    exact fun hhead => hr x hx (List.mem_of_mem_head? hhead)

omit [DecidableEq ι] in
theorem unlink_open (h : m.Lists f l) (hi : l i = a ++ e :: b) (hopen : m.Open k r)
    (hk : k ≠ f i) (hr : ∀ x ∈ r, x ∉ l i) : (m.unlink e).Open k r := by
  have hprev := h.prev_eq hi
  have hmem : ∀ x, x ∈ a ∨ x = e ∨ x ∈ b → x ∈ l i := by
    intro x hx
    rw [hi, List.mem_append, List.mem_cons]
    exact hx
  obtain ⟨z, hz, hempty⟩ := hopen.spells
  refine ⟨⟨z, hz.of_next ?_ fun x hx => ?_, hempty⟩, hopen.back.of_prev fun x hx => ?_,
    hopen.nodup⟩
  · rw [unlink_next hprev, if_neg nofun, if_neg (anchor_ne_lastOf hk.symm)]
  · have hne : (Link.entry x : Link α ε) ≠ .entry e := fun heq =>
      hr x hx (hmem x (.inr (.inl (Link.entry.inj heq))))
    rw [unlink_next hprev, if_neg hne,
      if_neg (entry_ne_lastOf fun hxa => hr x hx (hmem x (.inl hxa)))]
  · have hne : x ≠ e := fun heq => hr x hx (hmem x (.inr (.inl heq)))
    rw [unlink_prev hprev, if_neg hne, h.next_eq hi, if_neg]
    exact fun hhead => hr x hx (hmem x (.inr (.inr (List.mem_of_mem_head? hhead))))

omit [DecidableEq ι] in
theorem close (h : m.Lists f l) (hopen : m.Open k r) (hk : ∀ i, k ≠ f i)
    (hr : ∀ i, ∀ x ∈ r, x ∉ l i) :
    (m.setNext (lastOf (.anchor k) r) none).Lists f l ∧
      (m.setNext (lastOf (.anchor k) r) none).Spells (.anchor k) r none := by
  obtain ⟨z, hz, -⟩ := hopen.spells
  refine ⟨h.frame (fun i => ?_) (fun i x hx => ?_) fun _ _ _ => rfl, ?_⟩
  · exact setNext_of_ne _ (anchor_ne_lastOf (hk i))
  · exact setNext_of_ne _ (entry_ne_lastOf fun hxr => hr i x hxr hx)
  · exact hz.of_last hopen.nodup nofun (setNext_self _ _ _) (setNext_of_ne _)
      fun _ _ => setNext_of_ne _

end Open

section Splice

variable {s : ε} {s' r : List ε} {k : α}

/-- **A run of entries moved away leaves its list without them.** -/
theorem splice (h : m.Lists f l) (hf : Function.Injective f) (hi : l i = a ++ (s :: s' ++ b))
    (hk : ∀ j, k ≠ f j) (hr : ∀ j, ∀ x ∈ r, x ∉ l j) :
    (m.splice (lastOf (.anchor (f i)) a) s b.head? (lastOf (.anchor k) r)).Lists f
      (Function.update l i (a ++ b)) := by
  have hmem : ∀ x, x ∈ a ∨ x ∈ b → x ∈ l i := by
    intro x hx
    rw [hi, List.mem_append, List.mem_append]
    exact hx.imp_right .inr
  have htail : ∀ j x, x ∈ l j → Link.entry x ≠ lastOf (.anchor k) r := fun j x hx =>
    entry_ne_lastOf fun hxr => hr j x hxr hx
  have hanchor : ∀ j, Link.anchor (f j) ≠ lastOf (.anchor k) r := fun j =>
    anchor_ne_lastOf (hk j)
  have hnodup := h.nodup i
  rw [hi, List.cons_append] at hnodup
  have hsb : s ∉ b := fun hsb => (List.nodup_cons.mp (List.nodup_append.mp hnodup).2.1).1
    (List.mem_append_right _ hsb)
  refine h.cut hf hi (List.cons_ne_nil _ _) ?_ ?_ ?_ ?_ ?_
  · rw [splice_next, if_neg, if_pos rfl]
    rcases lastOf_cases (.anchor (f i)) a with hl | ⟨y, hy, hl⟩
    · rw [hl]
      exact hanchor i
    · rw [hl]
      exact htail i y (hmem y (.inl hy))
  · intro j hj
    rw [splice_next, if_neg (hanchor j), if_neg hj]
  · intro j x hx _ hne
    rw [splice_next, if_neg (htail j x hx), if_neg hne]
  · intro x hx
    have hne : x ≠ s := fun heq => hsb (heq ▸ List.mem_of_mem_head? hx)
    rw [splice_prev, if_neg hne, if_pos hx]
  · intro j x _ hx hne
    have hxs : x ≠ s := fun heq => hx (heq ▸ List.mem_cons_self)
    rw [splice_prev, if_neg hxs, if_neg hne]

omit [DecidableEq ι] in
/-- **A run of entries moved behind an open list continues it.** -/
theorem splice_open (h : m.Lists f l) (hi : l i = a ++ (s :: s' ++ b)) (hopen : m.Open k r)
    (hk : ∀ j, k ≠ f j) (hr : ∀ j, ∀ x ∈ r, x ∉ l j) :
    (m.splice (lastOf (.anchor (f i)) a) s b.head? (lastOf (.anchor k) r)).Open k
      (r ++ s :: s') := by
  obtain ⟨z, hz, -⟩ := hopen.spells
  have hmem : ∀ x, x ∈ a ∨ x ∈ s :: s' ∨ x ∈ b → x ∈ l i := by
    intro x hx
    rw [hi, List.mem_append, List.mem_append]
    exact hx
  have hnodup := h.nodup i
  rw [hi, List.nodup_append, List.nodup_append] at hnodup
  obtain ⟨-, ⟨hns, -, hsb⟩, hasb⟩ := hnodup
  have hrp : ∀ x ∈ r, Link.entry x ≠ lastOf (.anchor (f i)) a := fun x hx =>
    entry_ne_lastOf fun hxa => hr i x hx (hmem x (.inl hxa))
  have hsp : ∀ x ∈ s :: s', Link.entry x ≠ lastOf (.anchor (f i)) a := fun x hx =>
    entry_ne_lastOf fun hxa => hasb x hxa x (List.mem_append_left _ hx) rfl
  have hsr : ∀ x ∈ s :: s', x ∉ r := fun x hx hxr => hr i x hxr (hmem x (.inr (.inl hx)))
  have hkp : Link.anchor k ≠ lastOf (.anchor (f i)) a := anchor_ne_lastOf (hk i).symm
  have hrun := h.spells i
  have hback := h.back i
  rw [hi, List.cons_append, spells_append_cons] at hrun
  rw [hi, back_append, back_append] at hback
  obtain ⟨z', hz'⟩ := hrun.2.left
  have hnil : r ++ s :: s' ≠ [] := List.append_ne_nil_of_right_ne_nil _ (List.cons_ne_nil _ _)
  refine ⟨⟨z', spells_append_cons.mpr ⟨?_, ?_⟩, fun h => absurd h hnil⟩, back_append.mpr ⟨?_, ?_, ?_⟩, ?_⟩
  · refine hz.of_last hopen.nodup nofun ?_ ?_ ?_
    · rw [splice_next, if_pos rfl]
    · intro hne
      rw [splice_next, if_neg hne, if_neg hkp]
    · intro x hx hne
      rw [splice_next, if_neg hne, if_neg (hrp x hx)]
  · have hsame : ∀ x ∈ s :: s',
        (m.splice (lastOf (.anchor (f i)) a) s b.head? (lastOf (.anchor k) r)).next (.entry x) =
          m.next (.entry x) := by
      intro x hx
      rw [splice_next, if_neg (entry_ne_lastOf (hsr x hx)), if_neg (hsp x hx)]
    exact hz'.of_next (hsame s List.mem_cons_self) fun x hx =>
      hsame x (List.mem_cons_of_mem _ hx)
  · refine hopen.back.of_prev fun x hx => ?_
    have hxs : x ≠ s := fun heq => hsr s List.mem_cons_self (heq ▸ hx)
    rw [splice_prev, if_neg hxs, if_neg]
    exact fun hhead => hr i x hx (hmem x (.inr (.inr (List.mem_of_mem_head? hhead))))
  · rw [splice_prev, if_pos rfl]
  · refine hback.2.1.2.of_prev fun x hx => ?_
    have hxs : x ≠ s := fun heq => (List.nodup_cons.mp hns).1 (heq ▸ hx)
    rw [splice_prev, if_neg hxs, if_neg]
    exact fun hhead => hsb x (List.mem_cons_of_mem _ hx) x (List.mem_of_mem_head? hhead) rfl
  · exact List.nodup_append.mpr ⟨hopen.nodup, hns, fun x hx y hy heq => hsr y hy (heq ▸ hx)⟩

end Splice

end Lists

end Links

end FastDht.Lib
