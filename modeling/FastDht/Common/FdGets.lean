import FastDht.Common.SharedFunc
import Mathlib.Data.List.TakeWhile

/-! # Reading a file line by line: `fd_gets` of common/shared_func.c

The file is read in pieces; what has been read behind the end of a line is given back with
`lseek`. A call then returns what one that reads byte by byte would: the bytes up to and with
the first newline, cut off at the size of the buffer. -/
namespace FastDht

/-- The loop of `fd_gets`: what it stores, and the position of the file afterwards. -/
def fdGetsLoop (file : Bytes) (remainBytes onceBytes pos : Nat) : Bytes × Nat :=
  if remainBytes = 0 then ([], pos)
  else
    let onceBytes := if remainBytes < onceBytes then remainBytes else onceBytes
    let bytes := (file.drop pos).take onceBytes
    if bytes = [] then ([], pos)
    else
      let line := bytes.takeWhile (· ≠ 10)
      if line.length < bytes.length then
        let rewindBytes := bytes.length - (line.length + 1)
        (line ++ [10], pos + bytes.length - rewindBytes)
      else
        let rest := fdGetsLoop file (remainBytes - bytes.length) onceBytes (pos + bytes.length)
        (bytes ++ rest.1, rest.2)
termination_by remainBytes
decreasing_by
  rename_i hzero hbytes _
  exact Nat.sub_lt (Nat.pos_of_ne_zero hzero) (List.length_pos_iff.mpr hbytes)

def fdGets (file : Bytes) (size onceBytes pos : Nat) : Bytes × Nat :=
  fdGetsLoop file (size - 1) (if onceBytes = 0 then 1 else onceBytes) pos

/-- The results of successive calls up to one that returns 0, which is among the first
`calls` of them. -/
def fdGetsAll (file : Bytes) (size onceBytes : Nat) : Nat → Nat → Option (List Bytes)
  | 0, _ => none
  | calls + 1, pos =>
    let result := fdGets file size onceBytes pos
    if result.1 = [] then some []
    else (fdGetsAll file size onceBytes calls result.2).map (result.1 :: ·)

/-! ## Byte by byte -/

/-- At most `n` bytes, up to the first newline and with it. -/
def linePiece : Nat → Bytes → Bytes
  | 0, _ => []
  | _ + 1, [] => []
  | n + 1, b :: l => if b = 10 then [10] else b :: linePiece n l

theorem linePiece_nil (n : Nat) : linePiece n [] = [] := by
  cases n <;> rfl

theorem linePiece_append {line : Bytes} (hline : 10 ∉ line) (n : Nat) (l : Bytes) :
    linePiece (line.length + n) (line ++ l) = line ++ linePiece n l := by
  induction line with
  | nil => rw [List.length_nil, Nat.zero_add, List.nil_append, List.nil_append]
  | cons b line ih =>
    obtain ⟨hb, hline⟩ := List.ne_and_not_mem_of_not_mem_cons hline
    rw [List.length_cons, Nat.add_right_comm, List.cons_append, linePiece, if_neg hb.symm, ih hline]
    rfl

theorem linePiece_newline {line : Bytes} (hline : 10 ∉ line) {n : Nat} (hn : line.length < n)
    (l : Bytes) : linePiece n (line ++ 10 :: l) = line ++ [10] := by
  obtain ⟨k, rfl⟩ : ∃ k, n = line.length + (k + 1) := ⟨n - line.length - 1, by omega⟩
  rw [linePiece_append hline]
  rfl

/-- Where a piece may end: no newline lies before its last byte, and behind that there is a
newline, the end of the buffer or the end of the file. -/
structure EndsLine (size : Nat) (piece rest : Bytes) : Prop where
  first : 10 ∉ piece.dropLast
  ends : piece.getLast? = some 10 ∨ piece.length = size - 1 ∨ rest = []

theorem linePiece_spec (n : Nat) (l : Bytes) :
    ∃ rest, l = linePiece (n + 1) l ++ rest ∧ EndsLine (n + 2) (linePiece (n + 1) l) rest ∧
      (linePiece (n + 1) l = [] → l = []) := by
  induction l generalizing n with
  | nil => exact ⟨[], rfl, ⟨List.not_mem_nil, .inr (.inr rfl)⟩, fun _ => rfl⟩
  | cons b l ih =>
    unfold linePiece
    by_cases hb : b = 10
    · rw [if_pos hb, hb]
      exact ⟨l, rfl, ⟨List.not_mem_nil, .inl rfl⟩, fun h => nomatch h⟩
    · rw [if_neg hb]
      cases n with
      | zero => exact ⟨l, rfl, ⟨List.not_mem_nil, .inr (.inl rfl)⟩, fun h => nomatch h⟩
      | succ n =>
        obtain ⟨rest, hl, ⟨hfirst, hends⟩, -⟩ := ih n
        cases hpiece : linePiece (n + 1) l with
        | nil =>
          rw [hpiece] at hl hends
          have hrest : rest = [] := by simpa using hends
          exact ⟨rest, by rw [hl]; rfl, ⟨List.not_mem_nil, .inr (.inr hrest)⟩, fun h => nomatch h⟩
        | cons c piece =>
          rw [hpiece] at hl hfirst hends
          refine ⟨rest, by rw [hl]; rfl, ⟨?_, ?_⟩, fun h => nomatch h⟩
          · rw [List.dropLast_cons_of_ne_nil (List.cons_ne_nil _ _), List.mem_cons, not_or]
            exact ⟨fun h => hb h.symm, hfirst⟩
          · exact hends.imp_right (Or.imp_left (congrArg (· + 1)))

/-! ## The calls -/

section Calls

variable {file line rest : Bytes} {size onceBytes pos : Nat}

/-- **The loop stores the piece that starts at its position**, whatever is read at once. -/
theorem fdGetsLoop_eq (remainBytes : Nat) {onceBytes : Nat} (honce : 0 < onceBytes) (pos : Nat) :
    fdGetsLoop file remainBytes onceBytes pos = (linePiece remainBytes (file.drop pos),
      pos + (linePiece remainBytes (file.drop pos)).length) := by
  induction remainBytes using Nat.strong_induction_on generalizing onceBytes pos with
  | _ remainBytes ih =>
    unfold fdGetsLoop
    by_cases hzero : remainBytes = 0
    · rw [if_pos hzero, hzero]
      rfl
    rw [if_neg hzero]
    dsimp only
    have honcePos : 0 < if remainBytes < onceBytes then remainBytes else onceBytes := by
      split_ifs <;> omega
    have honceLe : (if remainBytes < onceBytes then remainBytes else onceBytes) ≤ remainBytes := by
      split_ifs <;> omega
    generalize (if remainBytes < onceBytes then remainBytes else onceBytes) = once
      at honcePos honceLe ⊢
    have hsplit := List.prefix_iff_eq_append.mp (List.take_prefix once (file.drop pos))
    have hlen := (List.length_take_le once (file.drop pos)).trans honceLe
    generalize hbytes : (file.drop pos).take once = bytes at hsplit hlen ⊢
    by_cases hend : bytes = []
    · have hfile : file.drop pos = [] :=
        (List.take_eq_nil_iff.mp (hbytes.trans hend)).resolve_left honcePos.ne'
      rw [if_pos hend, hfile, linePiece_nil]
      rfl
    rw [if_neg hend]
    by_cases hmem : 10 ∈ bytes
    · -- the newline is among the bytes
      obtain ⟨line, more, hmore, hline⟩ := List.eq_append_cons_of_mem hmem
      have hall : ∀ b ∈ line, decide (b ≠ 10) = true := fun b hb =>
        decide_eq_true fun h => hline (h ▸ hb)
      have hwhile : bytes.takeWhile (· ≠ 10) = line := by
        rw [hmore, List.takeWhile_append_of_pos hall, List.takeWhile_cons_of_neg (by simp),
          List.append_nil]
      have hcount : bytes.length = line.length + (more.length + 1) := by
        rw [hmore, List.length_append, List.length_cons]
      have hpiece : linePiece remainBytes (file.drop pos) = line ++ [10] := by
        rw [← hsplit, hmore, List.append_assoc, List.cons_append]
        exact linePiece_newline hline (by omega) _
      rw [hwhile, if_pos (by omega), hpiece, List.length_append, List.length_singleton]
      exact Prod.ext rfl (by dsimp only; omega)
    · have hwhile : bytes.takeWhile (· ≠ 10) = bytes := List.takeWhile_eq_self_iff.mpr
        fun b hb => decide_eq_true fun h => hmem (h ▸ hb)
      have hpos := List.length_pos_iff.mpr hend
      have hpiece : linePiece remainBytes (file.drop pos) =
          bytes ++ linePiece (remainBytes - bytes.length) (file.drop (pos + bytes.length)) := by
        rw [← linePiece_append hmem, ← List.drop_drop, hsplit, Nat.add_sub_cancel' hlen]
      rw [hwhile, if_neg (lt_irrefl _), ih _ (by omega) honcePos, hpiece, List.length_append,
        Nat.add_assoc]

theorem fdGets_eq (file : Bytes) (size onceBytes pos : Nat) :
    fdGets file size onceBytes pos = (linePiece (size - 1) (file.drop pos),
      pos + (linePiece (size - 1) (file.drop pos)).length) :=
  fdGetsLoop_eq _ (by split_ifs <;> omega) pos

theorem fdGets_line (hfile : file.drop pos = line ++ 10 :: rest) (hline : 10 ∉ line)
    (hfits : line.length + 2 ≤ size) :
    fdGets file size onceBytes pos = (line ++ [10], pos + (line.length + 1)) := by
  rw [fdGets_eq, hfile, linePiece_newline hline (by omega), List.length_append,
    List.length_singleton]

theorem fdGets_end (hfile : file.drop pos = []) :
    fdGets file size onceBytes pos = ([], pos) := by
  rw [fdGets_eq, hfile, linePiece_nil]
  rfl

theorem fdGetsAll_spec (file : Bytes) (n onceBytes : Nat) {calls pos : Nat}
    (hcalls : (file.drop pos).length < calls) :
    ∃ results, fdGetsAll file (n + 2) onceBytes calls pos = some results ∧
      results.flatten = file.drop pos ∧ ∀ before piece after,
        results = before ++ piece :: after → EndsLine (n + 2) piece after.flatten := by
  induction calls generalizing pos with
  | zero => exact absurd hcalls (Nat.not_lt_zero _)
  | succ calls ih =>
    obtain ⟨rest, hrest, hends, hnil⟩ := linePiece_spec n (file.drop pos)
    rw [fdGetsAll, fdGets_eq, Nat.add_sub_cancel (m := 1) (n := n + 1)]
    generalize linePiece (n + 1) (file.drop pos) = first at hrest hends hnil ⊢
    by_cases hfirst : first = []
    · refine ⟨[], by rw [if_pos hfirst], (hnil hfirst).symm, fun before piece after h => ?_⟩
      exact absurd h.symm (List.append_ne_nil_of_right_ne_nil _ (List.cons_ne_nil _ _))
    have hdrop : file.drop (pos + first.length) = rest := by
      rw [← List.drop_drop, hrest, List.drop_left]
    have hlength := congrArg List.length hrest
    have hpos := List.length_pos_iff.mpr hfirst
    rw [List.length_append] at hlength
    obtain ⟨results, hall, hflatten, hpieces⟩ := @ih (pos + first.length)
      (by rw [hdrop]; omega)
    rw [hdrop] at hflatten
    refine ⟨first :: results, by rw [if_neg hfirst, hall]; rfl, ?_, ?_⟩
    · rw [List.flatten_cons, hflatten, hrest]
    · intro before piece after h
      cases before with
      | nil =>
        obtain ⟨rfl, rfl⟩ := List.cons.inj h
        rw [hflatten]
        exact hends
      | cons _ before => exact hpieces before piece after (List.cons.inj h).2

/-- **The results of `fd_gets` up to one that is 0 are the file**, cut at its newlines, where
the buffer is full and at the end. -/
theorem fd_gets_partitions (file : Bytes) {size : Nat} (hsize : 2 ≤ size) (onceBytes : Nat) :
    ∃ results, fdGetsAll file size onceBytes (file.length + 1) 0 = some results ∧
      results.flatten = file ∧ ∀ before piece after,
        results = before ++ piece :: after → EndsLine size piece after.flatten := by
  obtain ⟨n, rfl⟩ := Nat.exists_eq_add_of_le' hsize
  exact fdGetsAll_spec file n onceBytes (Nat.lt_succ_self _)

/-- Two lines, the second too long for the buffer and not ended. -/
theorem fd_gets_partitions_two :
    ∃ results, fdGetsAll [97, 10, 98, 99, 100, 101] 4 2 7 0 = some results ∧
      results.flatten = [97, 10, 98, 99, 100, 101] ∧ ∀ before piece after,
        results = before ++ piece :: after → EndsLine 4 piece after.flatten :=
  fd_gets_partitions [97, 10, 98, 99, 100, 101] (by decide) 2

end Calls

end FastDht
