import Mathlib.Data.List.GetD
import Mathlib.Data.List.TakeDrop

/-! # Byte buffers that are read and overwritten in place

A buffer is a list of bytes; a byte outside it reads as 0, and a write past its
end makes it longer. What a read returns depends on the bytes it covers and on
nothing else, so a write elsewhere does not change it. -/
namespace FastDht.Lib

/-- The `n` bytes at offset `off`. -/
def readAt (m : List UInt8) (off n : Nat) : List UInt8 := (m.drop off).takeD n 0

/-- The buffer with `v` copied to offset `off`. -/
def writeAt (m : List UInt8) (off : Nat) (v : List UInt8) : List UInt8 :=
  m.takeD off 0 ++ v ++ m.drop (off + v.length)

theorem getD_takeD (l : List UInt8) (n i : Nat) :
    (l.takeD n 0).getD i 0 = if i < n then l.getD i 0 else 0 := by
  induction n generalizing l i with
  | zero => simp
  | succ n ih =>
    cases i with
    | zero => cases l <;> simp
    | succ i =>
      cases l with
      | nil => simp
      | cons b l => simpa using ih l i

theorem getD_drop (l : List UInt8) (n i : Nat) : (l.drop n).getD i 0 = l.getD (n + i) 0 := by
  simp [List.getD_eq_getElem?_getD]

@[simp] theorem readAt_length (m : List UInt8) (off n : Nat) : (readAt m off n).length = n := by
  simp [readAt]

theorem getD_readAt (m : List UInt8) (off n i : Nat) :
    (readAt m off n).getD i 0 = if i < n then m.getD (off + i) 0 else 0 := by
  rw [readAt, getD_takeD, getD_drop]

theorem writeAt_zero (m v : List UInt8) : writeAt m 0 v = v ++ m.drop v.length := by
  simp [writeAt]

theorem writeAt_length {m v : List UInt8} {off : Nat} (h : off + v.length ≤ m.length) :
    (writeAt m off v).length = m.length := by
  simp [writeAt]; omega

theorem le_writeAt_length (m v : List UInt8) (off : Nat) : v.length ≤ (writeAt m off v).length := by
  simp only [writeAt, List.length_append]
  omega

theorem getD_writeAt (m v : List UInt8) (off i : Nat) :
    (writeAt m off v).getD i 0 =
      if off ≤ i ∧ i < off + v.length then v.getD (i - off) 0 else m.getD i 0 := by
  unfold writeAt
  rcases Nat.lt_or_ge i off with h1 | h1
  · rw [List.append_assoc, List.getD_append _ _ _ _ (by simpa using h1), getD_takeD, if_pos h1,
      if_neg (by omega)]
  rcases Nat.lt_or_ge i (off + v.length) with h2 | h2
  · rw [List.getD_append _ _ _ _ (by simpa using h2), List.getD_append_right _ _ _ _ (by simpa using h1),
      List.takeD_length, if_pos ⟨h1, h2⟩]
  · rw [List.getD_append_right _ _ _ _ (by simpa using h2), getD_drop, if_neg (by omega)]
    simp only [List.length_append, List.takeD_length]
    congr 1
    omega

/-- A read depends on the bytes it covers only. -/
theorem readAt_congr {m m' : List UInt8} {off n : Nat}
    (h : ∀ i, off ≤ i → i < off + n → m.getD i 0 = m'.getD i 0) :
    readAt m off n = readAt m' off n := by
  refine List.ext_getElem (by simp) fun i hi hi' => ?_
  rw [← List.getD_eq_getElem _ 0, ← List.getD_eq_getElem _ 0, getD_readAt, getD_readAt]
  have hn : i < n := by simpa using hi
  rw [if_pos hn, if_pos hn, h (off + i) (by omega) (by omega)]

theorem readAt_writeAt_self (m v : List UInt8) (off : Nat) :
    readAt (writeAt m off v) off v.length = v := by
  refine List.ext_getElem (by simp) fun i hi hi' => ?_
  rw [← List.getD_eq_getElem _ 0, getD_readAt, if_pos hi', getD_writeAt, if_pos (by omega),
    Nat.add_sub_cancel_left, List.getD_eq_getElem _ _ hi']

theorem readAt_writeAt_disjoint {m v : List UInt8} {off n pos : Nat}
    (h : pos + v.length ≤ off ∨ off + n ≤ pos) :
    readAt (writeAt m pos v) off n = readAt m off n := by
  refine readAt_congr fun i h1 h2 => ?_
  rw [getD_writeAt, if_neg (by omega)]

theorem readAt_append (a b c : List UInt8) : readAt (a ++ (b ++ c)) a.length b.length = b := by
  rw [readAt, List.drop_left, List.takeD_left]

theorem readAt_add (m : List UInt8) (off n k : Nat) :
    readAt m off (n + k) = readAt m off n ++ readAt m (off + n) k := by
  refine List.ext_getElem (by simp) fun i hi hi' => ?_
  have hlt : i < n + k := by simpa using hi
  rw [← List.getD_eq_getElem _ 0, ← List.getD_eq_getElem _ 0, getD_readAt, if_pos hlt]
  rcases Nat.lt_or_ge i n with h | h
  · rw [List.getD_append _ _ _ _ (by simpa using h), getD_readAt, if_pos h]
  · rw [List.getD_append_right _ _ _ _ (by simpa using h), getD_readAt, readAt_length,
      if_pos (by omega)]
    congr 1
    omega

end FastDht.Lib
