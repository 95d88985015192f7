import FastDht.Common.Base64RoundTrip
import FastDht.Common.FdGets
import FastDht.Tool.FdhtCompress

/-! # The rows of fdht_compress as text

`compress_binlog_file` prints a row for every record, has the program sort order the lines,
and reads them back one by one. The row before the current one is pending: it is written out
when a row with another key comes, and after the last row. -/
namespace FastDht
open Lib

variable {rows : List CompressRawRow}

def EACCES : Int := 13

/-- `gc_base64_context`. -/
def compressContext : Base64Context := base64InitEx 0 43 47 61

/-- `sizeof(buff)` in `compress_binlog_file`. -/
def rowBuffSize : Nat := base64KeySize + 256

/-! ## Rows as text -/

/-- The line of a row: `"%s %d %c "INT64_PRINTF_FORMAT" %d\n"`. -/
def rowText (row : CompressRawRow) : Bytes :=
  row.key ++ 32 :: (formatInt row.expires ++ 32 :: row.opType :: 32 :: (formatInt row.offset ++
    32 :: (formatInt row.recordLength ++ [10])))

/-- The directive `%s`. -/
def scanWord (s : Bytes) : Option (Bytes × Bytes) :=
  let text := s.dropWhile isSpace
  let word := text.takeWhile fun b => !isSpace b
  if word = [] then none else some (word, text.drop word.length)

/-- The directives `%d` and `%lld`, before the number is stored: `strtol` saturates. -/
def scanLong (s : Bytes) : Option (Int × Bytes) :=
  (scanInt s.length s).map fun r => (max (-2 ^ 63) (min r.1 (2 ^ 63 - 1)), r.2)

/-- The `sscanf` of the row loop; `none` if it stores less than 5 items. -/
def scanRow (s : Bytes) : Option CompressRawRow := do
  let (key, s) ← scanWord s
  let (expires, s) ← scanLong s
  let (opType, s) ← scanChar s
  let (offset, s) ← scanLong s
  let (recordLength, _) ← scanLong s
  return ⟨key, toInt32 expires, opType, offset.toNat, (toInt32 recordLength).toNat⟩

/-! ## Sorting the lines -/

/-- The lines of a text, each with its end. -/
def splitLines : Bytes → List Bytes
  | [] => []
  | b :: s =>
    if b = 10 then [10] :: splitLines s
    else match splitLines s with
      | [] => [[b]]
      | line :: lines => (b :: line) :: lines

def firstField (line : Bytes) : Bytes := line.takeWhile fun b => !isSpace b

/-- What `sort --stable --key=1,1` does to the lines in the C locale. -/
abbrev SortsLines : (List Bytes → List Bytes) → Prop :=
  StableSort firstField (List.compareLex compare)

def sortLines (lines : List Bytes) : List Bytes :=
  qsort (fun a b => List.compareLex compare (firstField a) (firstField b)) lines

theorem sortLines_sorts : SortsLines sortLines := qsort_stableSort

/-! ## The row loop -/

/-- The rows after `memset`. -/
def emptyRow : CompressRawRow := ⟨[], 0, 0, 0, 0⟩

/-- The loop of `compress_binlog_file` over the sorted rows, and the row that is written after
it. A line takes at least one byte of the file, so `fuel` is enough if it exceeds its length. -/
def rowsLoop (file : Bytes) (now : Int) (sorted : Bytes) :
    Nat → Nat → CompressRawRow → Bytes → Except Int Bytes
  | 0, _, _, dest => .ok dest
  | fuel + 1, pos, currentRow, dest =>
    let previousRow := currentRow
    let line := fdGets sorted rowBuffSize 32 pos
    if line.1 = [] then
      if previousRow.key = [] then .ok dest
      else (compressWriteToBinlog file now previousRow).map (dest ++ ·)
    else match scanRow line.1 with
      | none => .error EACCES
      | some currentRow =>
        if previousRow.key = [] ∨ strcmp previousRow.key currentRow.key = .eq then
          rowsLoop file now sorted fuel line.2 currentRow dest
        else match compressWriteToBinlog file now previousRow with
          | .error e => .error e
          | .ok record => rowsLoop file now sorted fuel line.2 currentRow (dest ++ record)

/-- `compress_binlog_file` through its two row files: the result, and the binlog file
afterwards. -/
def compressBinlogText (sort : List Bytes → List Bytes) (file : Bytes) (now : Int) :
    Option (Int × Bytes) :=
  (compressReadRows file (file.length + 1) 0).map fun result =>
    match result with
    | .error e => (e, file)
    | .ok [] => (ENOENT, file)
    | .ok rows =>
      let sorted := (sort (splitLines (rows.flatMap rowText))).flatten
      match rowsLoop file now sorted (sorted.length + 1) 0 emptyRow [] with
      | .error e => (e, file)
      | .ok new => (0, new)

/-! ## A row is read back -/

/-- A row that its line gives back. -/
structure CompressRawRow.Printable (row : CompressRawRow) : Prop where
  key_ne : row.key ≠ []
  key_text : ∀ b ∈ row.key, isSpace b = false ∧ b ≠ 0
  key_fits : row.key.length ≤ base64KeySize
  opType_text : isSpace row.opType = false
  expires_int : -2 ^ 31 ≤ row.expires ∧ row.expires < 2 ^ 31
  offset_int : (row.offset : Int) < 2 ^ 63
  recordLength_int : (row.recordLength : Int) < 2 ^ 31

section Rows

variable {row : CompressRawRow}

theorem scanLong_number {n : Int} {rest : Bytes} (hl : -2 ^ 63 ≤ n) (hu : n < 2 ^ 63)
    (hrest : rest.head?.any isDigit = false) :
    scanLong (32 :: (formatInt n ++ rest)) = some (n, rest) := by
  have hwidth : (formatInt n).length ≤ (32 :: (formatInt n ++ rest)).length := by
    rw [List.length_cons, List.length_append]
    omega
  unfold scanLong
  rw [scanInt_blank, scanInt_formatInt hwidth hrest]
  refine congrArg some (Prod.ext ?_ rfl)
  dsimp only
  omega

theorem takeWhile_word {word rest : Bytes} (h : ∀ b ∈ word, isSpace b = false) :
    (word ++ 32 :: rest).takeWhile (fun b => !isSpace b) = word := by
  rw [List.takeWhile_append_of_pos fun b hb => by rw [h b hb]; rfl,
    List.takeWhile_cons_of_neg (by decide), List.append_nil]

theorem scanWord_word {word : Bytes} (hne : word ≠ []) (h : ∀ b ∈ word, isSpace b = false)
    (rest : Bytes) : scanWord (word ++ 32 :: rest) = some (word, 32 :: rest) := by
  have hdrop : (word ++ 32 :: rest).dropWhile isSpace = word ++ 32 :: rest := by
    obtain ⟨b, word, rfl⟩ := List.exists_cons_of_ne_nil hne
    rw [List.cons_append, List.dropWhile_cons_of_neg (by rw [h b List.mem_cons_self]; decide)]
  unfold scanWord
  dsimp only
  rw [hdrop, takeWhile_word h, if_neg hne, List.drop_left]

/-- **A row is read back from its line.** -/
theorem scanRow_rowText (h : row.Printable) : scanRow (rowText row) = some row := by
  have hword := scanWord_word h.key_ne (fun b hb => (h.key_text b hb).1)
    (formatInt row.expires ++ 32 :: row.opType :: 32 ::
      (formatInt row.offset ++ 32 :: (formatInt row.recordLength ++ [10])))
  obtain ⟨hexpires, hexpires'⟩ := h.expires_int
  have hoffset := h.offset_int
  have hlength := h.recordLength_int
  unfold scanRow rowText
  rw [hword]
  simp only [Option.bind_eq_bind, Option.bind_some]
  rw [scanLong_number (by omega) (by omega) rfl]
  simp only [Option.bind_some]
  rw [scanChar_blank h.opType_text]
  simp only [Option.bind_some]
  rw [scanLong_number (by omega) (by omega) rfl]
  simp only [Option.bind_some]
  rw [scanLong_number (by omega) (by omega) rfl]
  simp only [Option.bind_some, Option.pure_def]
  rw [toInt32_of_range hexpires hexpires', toInt32_of_range (by omega) (by omega),
    Int.toNat_natCast, Int.toNat_natCast]

/-! ## The lines of a file of rows -/

theorem isSpace_formatInt (n : Int) : ∀ b ∈ formatInt n, isSpace b = false := by
  intro b hb
  unfold formatInt at hb
  split_ifs at hb
  · rcases List.mem_cons.mp hb with rfl | hb
    · rfl
    · exact isSpace_digit (isDigit_of_mem_decimal hb)
  · exact isSpace_digit (isDigit_of_mem_decimal hb)

def rowLine (row : CompressRawRow) : Bytes :=
  row.key ++ 32 :: (formatInt row.expires ++ 32 :: row.opType :: 32 :: (formatInt row.offset ++
    32 :: formatInt row.recordLength))

theorem rowText_eq (row : CompressRawRow) : rowText row = rowLine row ++ [10] := by
  unfold rowText rowLine
  simp only [List.append_assoc, List.cons_append]

theorem CompressRawRow.Printable.newline_not_mem (h : row.Printable) : 10 ∉ rowLine row := by
  have hspace : ∀ b, isSpace b = false → b ≠ 10 := by
    rintro b hb rfl
    exact absurd hb (by decide)
  have hnum : ∀ n : Int, (10 : UInt8) ∉ formatInt n := fun n hn =>
    hspace 10 (isSpace_formatInt n 10 hn) rfl
  have hkey : (10 : UInt8) ∉ row.key := fun hn => hspace 10 (h.key_text 10 hn).1 rfl
  have hop : (10 : UInt8) ≠ row.opType := fun heq => hspace _ h.opType_text heq.symm
  unfold rowLine
  simp [hkey, hnum, hop]

theorem CompressRawRow.Printable.line_fits (h : row.Printable) :
    (rowLine row).length + 2 ≤ rowBuffSize := by
  have hkey := h.key_fits
  have hexpires := formatInt_length_int64 (n := row.expires) (by have := h.expires_int; omega)
    (by have := h.expires_int; omega)
  have hoffset := formatInt_length_int64 (n := row.offset) (by omega) h.offset_int
  have hlength := formatInt_length_int64 (n := row.recordLength) (by omega)
    (by have := h.recordLength_int; omega)
  unfold rowBuffSize
  unfold rowLine
  simp only [List.length_append, List.length_cons]
  omega

theorem splitLines_line {line : Bytes} (h : 10 ∉ line) (rest : Bytes) :
    splitLines (line ++ 10 :: rest) = (line ++ [10]) :: splitLines rest := by
  induction line with
  | nil => exact if_pos rfl
  | cons b line ih =>
    rw [List.mem_cons, not_or] at h
    rw [List.cons_append, splitLines, if_neg (Ne.symm h.1), ih h.2]
    rfl

theorem splitLines_rows (h : ∀ row ∈ rows, row.Printable) :
    splitLines (rows.flatMap rowText) = rows.map rowText := by
  induction rows with
  | nil => rfl
  | cons row rows ih =>
    obtain ⟨hrow, hrows⟩ := List.forall_mem_cons.mp h
    rw [List.flatMap_cons, List.map_cons, rowText_eq, List.append_assoc, List.cons_append,
      List.nil_append, splitLines_line hrow.newline_not_mem, ih hrows]

theorem firstField_rowText (h : row.Printable) : firstField (rowText row) = row.key :=
  takeWhile_word fun b hb => (h.key_text b hb).1

theorem sort_rows {sort : List Bytes → List Bytes} (hsort : SortsLines sort)
    (h : ∀ row ∈ rows, row.Printable) :
    (sort (splitLines (rows.flatMap rowText))).flatten = (sortRows rows).flatMap rowText := by
  rw [hsort.eq_qsort, splitLines_rows h, List.flatMap_def]
  unfold sortRows qsort
  congr 1
  refine (List.map_insertionSort _ _ rowText rows fun a ha b hb => ?_).symm
  dsimp only
  rw [firstField_rowText (h a ha), firstField_rowText (h b hb)]

/-! ## The loop over the sorted rows -/

variable {file sorted : Bytes} {now : Int}

theorem fdGets_row (hrow : row.Printable) {pos : Nat}
    (hpos : sorted.drop pos = (row :: rows).flatMap rowText) :
    ∃ pos', fdGets sorted rowBuffSize 32 pos = (rowText row, pos') ∧
      sorted.drop pos' = rows.flatMap rowText := by
  rw [List.flatMap_cons, rowText_eq, List.append_assoc, List.cons_append, List.nil_append] at hpos
  refine ⟨pos + ((rowLine row).length + 1), ?_, ?_⟩
  · rw [rowText_eq]
    exact fdGets_line hpos hrow.newline_not_mem hrow.line_fits
  · rw [← List.drop_drop, hpos, List.drop_length_add_append]
    rfl

theorem rowText_ne_nil (row : CompressRawRow) : rowText row ≠ [] := by
  exact List.append_ne_nil_of_right_ne_nil _ (List.cons_ne_nil _ _)

theorem length_le_rows (rows : List CompressRawRow) :
    rows.length ≤ (rows.flatMap rowText).length := by
  induction rows with
  | nil => exact le_rfl
  | cons row rows ih =>
    have hpos := List.length_pos_iff.mpr (rowText_ne_nil row)
    rw [List.flatMap_cons, List.length_append, List.length_cons]
    omega

/-- The pending row and the rows to come: the last row of every run is written. -/
theorem rowsLoop_pending (h : ∀ row ∈ rows, row.Printable)
    {pos fuel : Nat} (hpos : sorted.drop pos = rows.flatMap rowText) (hfuel : rows.length < fuel)
    (hrow : row.Printable) (dest : Bytes) :
    rowsLoop file now sorted fuel pos row dest =
      (compressWriteRows file now (lastOfRuns CompressRawRow.key (row :: rows))).map
        (dest ++ ·) := by
  induction rows generalizing pos fuel row dest with
  | nil =>
    obtain ⟨fuel, rfl⟩ : ∃ n, fuel = n + 1 := ⟨fuel - 1, by omega⟩
    rw [rowsLoop, fdGets_end hpos, if_pos rfl, if_neg hrow.key_ne]
    show _ = ((compressWriteToBinlog file now row).bind fun record =>
      (Except.ok []).map (record ++ ·)).map (dest ++ ·)
    cases compressWriteToBinlog file now row with
    | error e => rfl
    | ok record =>
      show Except.ok (dest ++ record) = Except.ok (dest ++ (record ++ []))
      rw [List.append_nil]
  | cons next rows ih =>
    obtain ⟨hnext, hrows⟩ := List.forall_mem_cons.mp h
    obtain ⟨fuel, rfl⟩ : ∃ n, fuel = n + 1 := ⟨fuel - 1, by omega⟩
    obtain ⟨pos', hline, hdrop⟩ := fdGets_row hnext hpos
    have hcmp : strcmp row.key next.key = .eq ↔ row.key = next.key := by
      rw [strcmp_eq_iff, cstr_eq_self_iff.mpr fun h0 => (hrow.key_text 0 h0).2 rfl,
        cstr_eq_self_iff.mpr fun h0 => (hnext.key_text 0 h0).2 rfl]
    rw [List.length_cons] at hfuel
    rw [rowsLoop, hline]
    rw [if_neg (rowText_ne_nil next), scanRow_rowText hnext]
    dsimp only
    by_cases heq : row.key = next.key
    · rw [if_pos (.inr (hcmp.mpr heq)), ih hrows hdrop (by omega) hnext dest, lastOfRuns,
        if_pos heq]
    · have hnot : ¬ (row.key = [] ∨ strcmp row.key next.key = .eq) := by
        rw [hcmp]
        exact fun h => h.elim hrow.key_ne heq
      rw [if_neg hnot, lastOfRuns, if_neg heq, compressWriteRows]
      cases compressWriteToBinlog file now row with
      | error e => rfl
      | ok record =>
        show rowsLoop file now sorted fuel pos' next (dest ++ record) =
          ((compressWriteRows file now _).map (record ++ ·)).map (dest ++ ·)
        rw [ih hrows hdrop (by omega) hnext (dest ++ record)]
        cases compressWriteRows file now (lastOfRuns CompressRawRow.key (next :: rows)) with
        | error e => rfl
        | ok new =>
          show Except.ok (dest ++ record ++ new) = Except.ok (dest ++ (record ++ new))
          rw [List.append_assoc]

/-- **The row loop writes the last row of every run.** -/
theorem rowsLoop_rows (h : ∀ row ∈ rows, row.Printable) (hsorted : sorted = rows.flatMap rowText) :
    rowsLoop file now sorted (sorted.length + 1) 0 emptyRow [] =
      compressWriteRows file now (lastOfRuns CompressRawRow.key rows) := by
  have hlength := length_le_rows rows
  have hpos : sorted.drop 0 = rows.flatMap rowText := hsorted
  cases rows with
  | nil =>
    rw [rowsLoop, fdGets_end hpos, if_pos rfl, if_pos (show emptyRow.key = [] from rfl)]
    rfl
  | cons row rows =>
    obtain ⟨hrow, hrows⟩ := List.forall_mem_cons.mp h
    obtain ⟨pos', hline, hdrop⟩ := fdGets_row hrow hpos
    rw [← hsorted, List.length_cons] at hlength
    rw [rowsLoop, hline]
    rw [if_neg (rowText_ne_nil row), scanRow_rowText hrow]
    dsimp only
    rw [if_pos (.inl rfl), rowsLoop_pending hrows hdrop (by omega) hrow]
    cases compressWriteRows file now (lastOfRuns CompressRawRow.key (row :: rows)) with
    | error e => rfl
    | ok new => rfl

end Rows

end FastDht
