import FastDht.Lib.Machine
import FastDht.Server.BinlogSoundness

/-! # The binlog files, their writer and a reader: server/sync.c

The writer appends to the last file and, when that has reached its size, goes on
to the next; a reader follows it from file to file. The reader's calls of
fdht_binlog_read hold no lock: its look at the file and its look at
`g_binlog_index` are two steps, with any number of the writer's steps between
them. -/
namespace FastDht
open Lib

def syncBinlogFileMaxSize : Nat := 2 * 1023 * 1024 * 1024

def binlogBuffSize : Nat := 1024 * 1024

/-- Where `fdht_binlog_fsync` is. -/
inductive WriterPhase
  | idle
  /-- `n` bytes have been written and not yet counted. -/
  | written (n : Nat)
  /-- The size is reached and the next file not yet open. -/
  | full
  /-- The next file is open, with the size of the one before. -/
  | rotated
  deriving DecidableEq, Repr

/-- Where `fdht_binlog_read` is. -/
inductive ReaderPhase
  | idle
  | reading
  /-- A `read` has returned 0. -/
  | atEnd
  deriving DecidableEq, Repr

/-- The files and the two threads. `closed` are the files before the one that is
written, so that `g_binlog_index` is their number. -/
structure BinlogFiles where
  closed : List Bytes
  current : Bytes
  /-- `g_binlog_file_size`. -/
  fileSize : Nat
  writer : WriterPhase
  index : Nat
  offset : Nat
  reader : ReaderPhase
  /-- The records that the reader has returned. -/
  returned : List BinLogRecord
  /-- The records that have been appended. -/
  written : List LogWrite
  deriving DecidableEq, Repr

inductive RotationEvent
  /-- `write` of the flushed buffer, which holds these records. -/
  | append (ws : List LogWrite)
  | count
  /-- `open_next_writable_binlog`. -/
  | rotate
  | reset
  /-- The comparison that `fdht_binlog_read` starts with. -/
  | check
  | read
  /-- The comparison of the indexes after a `read` of 0 bytes. -/
  | testIndex
  deriving DecidableEq, Repr

def BinlogFiles.empty : BinlogFiles := ⟨[], [], 0, .idle, 0, 0, .idle, [], []⟩

namespace BinlogFiles

variable (s : BinlogFiles)

def files : List Bytes := s.closed ++ [s.current]

/-- `g_binlog_index`. -/
def binlogIndex : Nat := s.closed.length

def rest : Bytes := (s.files.getD s.index []).drop s.offset

/-- All that has been written, as one sequence of bytes. -/
def log : Bytes := s.files.flatten

def pos : Nat := (s.files.take s.index).flatten.length + s.offset

/-- `fdht_binlog_read` after its first comparison, up to a `read` of 0 bytes. -/
def readRecord : BinlogFiles :=
  if s.rest = [] then { s with reader := .atEnd }
  else match fdhtBinlogRead s.rest with
    | .ok (r, _) => { s with
        returned := s.returned ++ [r]
        offset := s.offset + r.readBytes
        reader := .idle }
    | .error _ => { s with reader := .idle }

def step (s : BinlogFiles) : RotationEvent → Option BinlogFiles
  | .append ws =>
    let buff := ws.flatMap fdhtBinlogWrite
    if s.writer = .idle ∧ buff.length ≤ binlogBuffSize then some { s with
      current := s.current ++ buff
      written := s.written ++ ws
      writer := .written buff.length }
    else none
  | .count =>
    match s.writer with
    | .written n => some { s with
        fileSize := s.fileSize + n
        writer := if syncBinlogFileMaxSize ≤ s.fileSize + n then .full else .idle }
    | _ => none
  | .rotate =>
    if s.writer = .full then some { s with
      closed := s.closed ++ [s.current]
      current := []
      writer := .rotated }
    else none
  | .reset =>
    if s.writer = .rotated then some { s with fileSize := 0, writer := .idle } else none
  | .check =>
    if s.reader = .idle then
      if s.index = s.binlogIndex ∧ s.offset = s.fileSize then some s
      else some { s with reader := .reading }
    else none
  | .read => if s.reader = .reading then some s.readRecord else none
  | .testIndex =>
    if s.reader = .atEnd then
      if s.index < s.binlogIndex then some { s with
        index := s.index + 1
        offset := 0
        reader := .reading }
      else some { s with reader := .idle }
    else none

end BinlogFiles

/-! ## Records read one after another -/

section Checks

variable {α β : Type*} {c : Prop} [Decidable c] {e : β} {v : α}

theorem of_ite_error {x : Except β α} (h : (if c then .error e else x) = .ok v) :
    ¬ c ∧ x = .ok v := by
  by_cases hc : c
  · rw [if_pos hc] at h
    cases h
  · rw [if_neg hc] at h
    exact ⟨hc, h⟩

theorem of_dite_error {x : c → Except β α} (h : (if hc : c then x hc else .error e) = .ok v) :
    ∃ hc : c, x hc = .ok v := by
  by_cases hc : c
  · rw [dif_pos hc] at h
    exact ⟨hc, h⟩
  · rw [dif_neg hc] at h
    cases h

end Checks

theorem fdhtBinlogRead_append {file : Bytes} {r : BinLogRecord} {len : Int}
    (h : fdhtBinlogRead file = .ok (r, len)) (more : Bytes) :
    fdhtBinlogRead (file ++ more) = .ok (r, len) ∧ r.readBytes ≤ file.length := by
  have htake : ∀ m k, ((file.drop m).take k).length = k →
      ((file ++ more).drop m).take k = (file.drop m).take k ∧ (k = 0 ∨ m + k ≤ file.length) := by
    intro m k hk
    rw [List.length_take, List.length_drop] at hk
    rcases Nat.eq_zero_or_pos k with rfl | hpos
    · simp
    · rw [List.drop_append_of_le_length (by omega), List.take_append_of_le_length (by
        rw [List.length_drop]; omega)]
      exact ⟨rfl, .inr (by omega)⟩
  unfold fdhtBinlogRead at h ⊢
  obtain ⟨hfix, h⟩ := of_ite_error h
  have hbuff := (htake 0 binlogFixFieldsLength (not_not.mp hfix)).1
  rw [List.drop_zero, List.drop_zero] at hbuff
  rw [hbuff, if_neg hfix]
  rcases hscan : scanFixFields ((file.take binlogFixFieldsLength).takeWhile (· ≠ 0)) with _ | f <;>
    rw [hscan] at h
  · cases h
  dsimp only at h ⊢
  obtain ⟨htime, h⟩ := of_ite_error h
  rw [if_neg htime]
  rcases hop : OpType.ofByte f.opType with _ | opType <;> rw [hop] at h
  · cases h
  dsimp only at h ⊢
  obtain ⟨hn, h⟩ := of_dite_error h
  obtain ⟨ho, h⟩ := of_dite_error h
  obtain ⟨hk, h⟩ := of_dite_error h
  obtain ⟨hkey, h⟩ := of_ite_error h
  obtain ⟨hvalue, h⟩ := of_ite_error h
  obtain ⟨hkeyLen, h⟩ := of_ite_error h
  obtain ⟨hvalueLen, h⟩ := of_ite_error h
  obtain ⟨hend, h⟩ := of_ite_error h
  obtain ⟨hkeyBytes, -⟩ := htake _ _ (not_not.mp hkeyLen)
  obtain ⟨hvalueBytes, hroom⟩ := htake _ _ (not_not.mp hvalueLen)
  rw [dif_pos hn, dif_pos ho, dif_pos hk, if_neg hkey, if_neg hvalue, hkeyBytes, hvalueBytes,
    if_neg hkeyLen, if_neg hvalueLen, if_neg hend]
  refine ⟨h, ?_⟩
  obtain ⟨rfl, -⟩ := Prod.mk.inj (Except.ok.inj h)
  simp only [BinLogRecord.readBytes, FDHTKeyInfo.packedLength, readKeyInfo, readAt_length]
  rw [List.length_take, not_not.mp hvalueLen]
  omega

/-- Calls of `fdht_binlog_read` on one sequence of bytes, each going on where the
one before has stopped, return these records and get to this place. -/
inductive ReadsBack (log : Bytes) : List BinLogRecord → Nat → Prop
  | start : ReadsBack log [] 0
  | next {rs : List BinLogRecord} {pos : Nat} {r : BinLogRecord} {len : Int}
      (before : ReadsBack log rs pos) (read : fdhtBinlogRead (log.drop pos) = .ok (r, len)) :
      ReadsBack log (rs ++ [r]) (pos + r.readBytes)

section ReadsBack

variable {log : Bytes} {rs : List BinLogRecord} {pos : Nat}

theorem ReadsBack.le_length (h : ReadsBack log rs pos) : pos ≤ log.length := by
  induction h with
  | start => exact Nat.zero_le _
  | next _ hread ih =>
    have hle := (fdhtBinlogRead_append hread []).2
    rw [List.length_drop] at hle
    omega

theorem ReadsBack.append (h : ReadsBack log rs pos) (more : Bytes) :
    ReadsBack (log ++ more) rs pos := by
  induction h with
  | start => exact .start
  | @next _ pos _ _ hbefore hread ih =>
    have hdrop : (log ++ more).drop pos = log.drop pos ++ more :=
      List.drop_append_of_le_length hbefore.le_length
    exact .next ih (hdrop ▸ (fdhtBinlogRead_append hread more).1)

theorem ReadsBack.records {ws : List LogWrite} (hws : ∀ w ∈ ws, w.Loggable)
    (h : ReadsBack (ws.flatMap fdhtBinlogWrite) rs pos) :
    ∃ n ≤ ws.length, rs = (ws.take n).map LogWrite.record ∧
      pos = ((ws.take n).flatMap fdhtBinlogWrite).length := by
  induction h with
  | start => exact ⟨0, Nat.zero_le _, rfl, rfl⟩
  | @next rs pos r len _ hread ih =>
    obtain ⟨n, hn, rfl, rfl⟩ := ih
    obtain ⟨w, rest, hdrop, rfl, htake, hpos⟩ := fdhtBinlogRead_at hws hread
    have hlt := congrArg List.length hdrop
    rw [List.length_drop, List.length_cons] at hlt
    refine ⟨n + 1, by omega, ?_, hpos⟩
    rw [htake, List.map_append]
    rfl

end ReadsBack

/-! ## The reader follows the writer -/

/-- The reader leaves a file at its end: nothing has been appended to it since
the `read` that returned 0. -/
def BinlogFiles.LeavesAtEnd (s : BinlogFiles) (e : RotationEvent) : Prop :=
  e = .testIndex → s.reader = .atEnd → s.index < s.binlogIndex → s.rest = []

instance (s : BinlogFiles) (e : RotationEvent) : Decidable (s.LeavesAtEnd e) :=
  inferInstanceAs (Decidable (_ → _))

/-- The reader's place is one in the log, and the records before it are those
that it has returned. -/
structure BinlogFiles.Followed (s : BinlogFiles) : Prop where
  log : s.log = s.written.flatMap fdhtBinlogWrite
  index : s.index ≤ s.binlogIndex
  offset : s.offset ≤ (s.files.getD s.index []).length
  reads : ReadsBack s.log s.returned s.pos

theorem flatten_split {α : Type*} {fs : List (List α)} {i : Nat} (hi : i < fs.length) :
    fs.flatten = (fs.take i).flatten ++ (fs.getD i [] ++ (fs.drop (i + 1)).flatten) := by
  rw [List.getD_eq_getElem _ _ hi, ← List.flatten_cons, ← List.drop_eq_getElem_cons hi,
    ← List.flatten_append, List.take_append_drop]

theorem flatten_set {α : Type*} {fs : List (List α)} {i : Nat} (hi : i < fs.length)
    (file : List α) :
    (fs.set i file).flatten = (fs.take i).flatten ++ (file ++ (fs.drop (i + 1)).flatten) := by
  rw [List.set_eq_take_append_cons_drop, if_pos hi, List.flatten_append, List.flatten_cons]

theorem flatten_drop {α : Type*} {fs : List (List α)} {i n : Nat} (hi : i < fs.length)
    (hn : n ≤ (fs.getD i []).length) :
    fs.flatten.drop ((fs.take i).flatten.length + n) =
      (fs.getD i []).drop n ++ (fs.drop (i + 1)).flatten := by
  rw [flatten_split hi, ← List.drop_drop, List.drop_left, List.drop_append_of_le_length hn]

/-- When the last of some files grows and others follow, the files stay what they are
up to their ends. -/
theorem getD_grown {α : Type*} {closed : List (List α)} {current : List α} (more : List α)
    (later : List (List α)) {i : Nat} (hi : i < closed.length + 1) :
    (∃ extra, (closed ++ (current ++ more) :: later).getD i [] =
        (closed ++ [current]).getD i [] ++ extra) ∧
      (closed ++ (current ++ more) :: later).take i = (closed ++ [current]).take i := by
  by_cases hclosed : i < closed.length
  · refine ⟨⟨[], ?_⟩, ?_⟩
    · rw [List.getD_append _ _ _ _ hclosed, List.getD_append _ _ _ _ hclosed, List.append_nil]
    · rw [List.take_append_of_le_length hclosed.le, List.take_append_of_le_length hclosed.le]
  · obtain rfl : i = closed.length := by omega
    refine ⟨⟨more, ?_⟩, ?_⟩
    · rw [List.getD_append_right _ _ _ _ le_rfl, List.getD_append_right _ _ _ _ le_rfl,
        Nat.sub_self]
      rfl
    · rw [List.take_left, List.take_left]

namespace BinlogFiles

variable {s s' : BinlogFiles}

theorem Followed.index_lt (h : s.Followed) : s.index < s.files.length := by
  have hle : s.index ≤ s.closed.length := h.index
  simp only [files, List.length_append, List.length_cons, List.length_nil]
  omega

theorem Followed.log_drop_pos (h : s.Followed) :
    s.log.drop s.pos = s.rest ++ (s.files.drop (s.index + 1)).flatten := by
  unfold BinlogFiles.log pos rest
  rw [flatten_split h.index_lt, List.drop_append, List.drop_eq_nil_of_le (by omega),
    List.nil_append, Nat.add_sub_cancel_left, List.drop_append_of_le_length h.offset]

/-- A step of the writer: the reader stays where it is, in a file that may have
got longer. -/
theorem Followed.writer (h : s.Followed) (ws : List LogWrite)
    (hlog : s'.log = s.log ++ ws.flatMap fdhtBinlogWrite)
    (hwritten : s'.written = s.written ++ ws) (hindex : s'.index = s.index)
    (hoffset : s'.offset = s.offset) (hreturned : s'.returned = s.returned)
    (hbinlog : s.binlogIndex ≤ s'.binlogIndex)
    (hfile : (s.files.getD s.index []).length ≤ (s'.files.getD s.index []).length)
    (htake : s'.files.take s.index = s.files.take s.index) : s'.Followed where
  log := by rw [hlog, h.log, hwritten, List.flatMap_append]
  index := by rw [hindex]; exact h.index.trans hbinlog
  offset := by rw [hindex, hoffset]; exact h.offset.trans hfile
  reads := by
    have hpos : s'.pos = s.pos := by
      unfold pos
      rw [hindex, hoffset, htake]
    rw [hreturned, hpos, hlog]
    exact h.reads.append _

theorem Followed.append (h : s.Followed) (ws : List LogWrite) (p : WriterPhase) :
    ({ s with current := s.current ++ ws.flatMap fdhtBinlogWrite
              written := s.written ++ ws
              writer := p } : BinlogFiles).Followed := by
  have hle : s.index ≤ s.closed.length := h.index
  refine h.writer ws ?_ rfl rfl rfl rfl le_rfl ?_ ?_
  · simp [BinlogFiles.log, files]
  · unfold files
    rcases Nat.lt_or_eq_of_le hle with hlt | heq
    · rw [List.getD_append _ _ _ _ hlt, List.getD_append _ _ _ _ hlt]
    · rw [heq]
      simp
  · unfold files
    rw [List.take_append_of_le_length hle, List.take_append_of_le_length hle]

theorem Followed.rotate (h : s.Followed) (p : WriterPhase) :
    ({ s with closed := s.closed ++ [s.current], current := [], writer := p } :
      BinlogFiles).Followed := by
  have hlt := h.index_lt
  refine h.writer [] ?_ ?_ rfl rfl rfl ?_ ?_ ?_
  · simp [BinlogFiles.log, files]
  · simp
  · simp [binlogIndex]
  · have hfiles : ({ s with closed := s.closed ++ [s.current], current := [], writer := p } :
      BinlogFiles).files = s.files ++ [[]] := rfl
    rw [hfiles, List.getD_append _ _ _ _ hlt]
  · exact List.take_append_of_le_length hlt.le

theorem Followed.readRecord (h : s.Followed) : s.readRecord.Followed := by
  unfold BinlogFiles.readRecord
  split
  · exact ⟨h.log, h.index, h.offset, h.reads⟩
  split
  · rename_i r len hread
    have hlog := (fdhtBinlogRead_append hread (s.files.drop (s.index + 1)).flatten).1
    rw [← h.log_drop_pos] at hlog
    have hle := (fdhtBinlogRead_append hread []).2
    unfold rest at hle
    rw [List.length_drop] at hle
    have hoffset := h.offset
    refine ⟨h.log, h.index, ?_, ?_⟩
    · show s.offset + r.readBytes ≤ (s.files.getD s.index []).length
      omega
    · have hreads := h.reads.next hlog
      have hpos : s.pos + r.readBytes =
          (s.files.take s.index).flatten.length + (s.offset + r.readBytes) := Nat.add_assoc _ _ _
      rw [hpos] at hreads
      exact hreads
  · exact ⟨h.log, h.index, h.offset, h.reads⟩

theorem Followed.nextFile (h : s.Followed) (hindex : s.index < s.binlogIndex)
    (hrest : s.rest = []) :
    ({ s with index := s.index + 1, offset := 0, reader := .reading } : BinlogFiles).Followed := by
  have hend : s.offset = (s.files.getD s.index []).length := by
    have hle : (s.files.getD s.index []).length ≤ s.offset := List.drop_eq_nil_iff.mp hrest
    exact le_antisymm h.offset hle
  refine ⟨h.log, hindex, Nat.zero_le _, ?_⟩
  have hpos : s.pos = (s.files.take (s.index + 1)).flatten.length + 0 := by
    unfold pos
    rw [List.take_succ_eq_append_getElem h.index_lt, List.flatten_append, List.length_append, hend,
      List.getD_eq_getElem _ _ h.index_lt]
    simp
  have hreads := h.reads
  rw [hpos] at hreads
  exact hreads

/-- Every step keeps the reader on the log. -/
theorem Followed.step {e : RotationEvent} (h : s.Followed) (hend : s.LeavesAtEnd e)
    (hs : s.step e = some s') : s'.Followed := by
  have hsame : ∀ (n : Nat) (p : WriterPhase) (q : ReaderPhase),
      ({ s with fileSize := n, writer := p, reader := q } : BinlogFiles).Followed :=
    fun _ _ _ => ⟨h.log, h.index, h.offset, h.reads⟩
  cases e with
  | append ws =>
    simp only [BinlogFiles.step] at hs
    split at hs <;> cases hs
    exact h.append ws _
  | count =>
    simp only [BinlogFiles.step] at hs
    split at hs <;> cases hs
    exact hsame _ _ _
  | rotate =>
    simp only [BinlogFiles.step] at hs
    split at hs <;> cases hs
    exact h.rotate _
  | reset =>
    simp only [BinlogFiles.step] at hs
    split at hs <;> cases hs
    exact hsame _ _ _
  | check =>
    simp only [BinlogFiles.step] at hs
    split at hs <;> [split at hs; skip] <;> cases hs
    · exact h
    · exact hsame _ _ _
  | read =>
    simp only [BinlogFiles.step] at hs
    split at hs <;> cases hs
    exact h.readRecord
  | testIndex =>
    simp only [BinlogFiles.step] at hs
    split at hs <;> [split at hs; skip] <;> cases hs
    · rename_i hreader hindex
      exact h.nextFile hindex (hend rfl hreader hindex)
    · exact hsame _ _ _

end BinlogFiles

/-! ## Runs through a file -/

namespace BinlogFiles

variable {s : BinlogFiles} {w : LogWrite}

def flushed (s : BinlogFiles) (ws : List LogWrite) : BinlogFiles :=
  { s with
    current := s.current ++ ws.flatMap fdhtBinlogWrite
    written := s.written ++ ws
    fileSize := s.fileSize + (ws.flatMap fdhtBinlogWrite).length
    writer := .idle }

def rotated (s : BinlogFiles) : BinlogFiles :=
  { s with closed := s.closed ++ [s.current], current := [], fileSize := 0 }

theorem flushed_append (ws ws' : List LogWrite) :
    (s.flushed ws).flushed ws' = s.flushed (ws ++ ws') := by
  simp [flushed, Nat.add_assoc]

def Reaches : BinlogFiles → BinlogFiles → Prop := Runs step LeavesAtEnd

variable {s₁ s₂ : BinlogFiles}

theorem Reaches.of_step (e : RotationEvent) (h : s.step e = some s₁)
    (hend : e = .testIndex → s.rest = []) : Reaches s s₁ :=
  .single ⟨e, fun he _ _ => hend he, h⟩

theorem Reaches.trans (h : Reaches s s₁) (h' : Reaches s₁ s₂) : Reaches s s₂ :=
  Relation.ReflTransGen.trans h h'

theorem Reaches.flush {ws : List LogWrite} (hidle : s.writer = .idle)
    (hbuff : (ws.flatMap fdhtBinlogWrite).length ≤ binlogBuffSize)
    (hroom : s.fileSize + (ws.flatMap fdhtBinlogWrite).length < syncBinlogFileMaxSize) :
    Reaches s (s.flushed ws) := by
  refine .trans (.of_step (.append ws) (if_pos ⟨hidle, hbuff⟩) nofun) (.of_step .count ?_ nofun)
  simp only [step, if_neg (not_le.mpr hroom)]
  rfl

theorem Reaches.openNext (s : BinlogFiles) :
    Reaches { s with writer := .full } { s.rotated with writer := .idle } :=
  .trans (.of_step .rotate rfl nofun) (.of_step .reset rfl nofun)

theorem Reaches.rotate {ws : List LogWrite} (hidle : s.writer = .idle)
    (hbuff : (ws.flatMap fdhtBinlogWrite).length ≤ binlogBuffSize)
    (hfull : syncBinlogFileMaxSize ≤ s.fileSize + (ws.flatMap fdhtBinlogWrite).length) :
    Reaches s (s.flushed ws).rotated := by
  have hcount : Reaches s { s.flushed ws with writer := .full } := by
    refine .trans (.of_step (.append ws) (if_pos ⟨hidle, hbuff⟩) nofun) (.of_step .count ?_ nofun)
    simp only [step, if_pos hfull]
    rfl
  exact hcount.trans (.openNext (s.flushed ws))

theorem length_flatMap_replicate (w : LogWrite) (n : Nat) :
    ((List.replicate n w).flatMap fdhtBinlogWrite).length = n * (fdhtBinlogWrite w).length := by
  simp [List.length_flatMap]

theorem Reaches.fill (hidle : s.writer = .idle) (hsize : s.fileSize = 0)
    (hpos : 0 < (fdhtBinlogWrite w).length)
    (hbuff : (fdhtBinlogWrite w).length ≤ binlogBuffSize) :
    ∃ n, Reaches s (s.flushed (List.replicate (n + 1) w)).rotated := by
  have hone : ([w].flatMap fdhtBinlogWrite).length = (fdhtBinlogWrite w).length := by simp
  have hfill : ∀ n, n * (fdhtBinlogWrite w).length < syncBinlogFileMaxSize →
      Reaches s (s.flushed (List.replicate n w)) := by
    intro n
    induction n with
    | zero =>
      intro _
      have hsame : s.flushed (List.replicate 0 w) = s := by simp [flushed, ← hidle]
      rw [hsame]
      exact .refl
    | succ n ih =>
      intro hn
      rw [Nat.succ_mul] at hn
      rw [List.replicate_succ', ← flushed_append]
      refine (ih (by omega)).trans (.flush rfl (by rwa [hone]) ?_)
      simp only [flushed, hsize, length_flatMap_replicate, hone]
      omega
  have hdiv := Nat.div_add_mod (syncBinlogFileMaxSize - 1) (fdhtBinlogWrite w).length
  have hmod := Nat.mod_lt (syncBinlogFileMaxSize - 1) hpos
  have hmax : 0 < syncBinlogFileMaxSize := by decide
  generalize (syncBinlogFileMaxSize - 1) / (fdhtBinlogWrite w).length = n at hdiv
  rw [Nat.mul_comm] at hdiv
  refine ⟨n, ?_⟩
  rw [List.replicate_succ', ← flushed_append]
  refine (hfill n (by omega)).trans (.rotate rfl (by rwa [hone]) ?_)
  simp only [flushed, hsize, length_flatMap_replicate, hone]
  omega

theorem readRecord_write (hw : w.Loggable) {more : Bytes}
    (hrest : s.rest = fdhtBinlogWrite w ++ more) : s.readRecord = { s with
      returned := s.returned ++ [w.record]
      offset := s.offset + (fdhtBinlogWrite w).length
      reader := .idle } := by
  have hread := fdhtBinlogRead_write hw more
  rw [← hrest] at hread
  have hne : s.rest ≠ [] := by
    intro hnil
    rw [hnil] at hread
    cases hread
  unfold readRecord
  rw [if_neg hne, hread]
  dsimp only
  rw [hw.readBytes]

theorem Reaches.read (hidle : s.reader = .idle) (hindex : s.index < s.binlogIndex) :
    Reaches s ({ s with reader := .reading } : BinlogFiles).readRecord := by
  have hcheck : s.step .check = some { s with reader := .reading } := by
    simp only [step, if_pos hidle]
    exact if_neg fun h => Nat.ne_of_lt hindex h.1
  exact .trans (.of_step .check hcheck nofun) (.of_step .read rfl nofun)

theorem Reaches.readFile (hw : w.Loggable) {n : Nat} (hidle : s.reader = .idle)
    (hindex : s.index < s.binlogIndex)
    (hrest : s.rest = (List.replicate n w).flatMap fdhtBinlogWrite) :
    ∃ offset, Reaches s { s with
        returned := s.returned ++ List.replicate n w.record
        offset := offset } ∧ ({ s with offset := offset } : BinlogFiles).rest = [] := by
  induction n generalizing s with
  | zero => exact ⟨s.offset, by simpa using .refl, hrest⟩
  | succ n ih =>
    have hread := Reaches.read hidle hindex
    rw [readRecord_write (s := { s with reader := .reading }) hw hrest] at hread
    obtain ⟨offset, hreaches, hend⟩ := @ih { s with
      returned := s.returned ++ [w.record]
      offset := s.offset + (fdhtBinlogWrite w).length
      reader := .idle } rfl hindex (by
        show (s.files.getD s.index []).drop (s.offset + _) = _
        rw [← List.drop_drop]
        exact (congrArg _ hrest).trans List.drop_left)
    refine ⟨offset, hread.trans ?_, hend⟩
    rw [List.append_assoc, List.singleton_append, ← List.replicate_succ] at hreaches
    simpa only [hidle] using hreaches

theorem Reaches.moveOn (hidle : s.reader = .idle) (hindex : s.index + 1 = s.binlogIndex)
    (hrest : s.rest = []) (hcurrent : s.current = []) :
    Reaches s { s with index := s.index + 1, offset := 0, reader := .atEnd } := by
  have hlt : s.index < s.binlogIndex := by omega
  have hend : ({ s with reader := .reading } : BinlogFiles).readRecord =
    { s with reader := .atEnd } := if_pos hrest
  have hmove : ({ s with reader := .atEnd } : BinlogFiles).step .testIndex =
    some { s with index := s.index + 1, offset := 0, reader := .reading } := if_pos hlt
  have hnew : ({ s with index := s.index + 1, offset := 0, reader := .reading } :
      BinlogFiles).rest = [] := by
    have hfile : s.files.getD (s.index + 1) [] = s.current := by
      rw [hindex]
      simp [files, binlogIndex]
    exact (congrArg (List.drop 0) hfile).trans hcurrent
  have hempty : ({ s with index := s.index + 1, offset := 0, reader := .reading } :
      BinlogFiles).step .read =
    some { s with index := s.index + 1, offset := 0, reader := .atEnd } :=
    congrArg some (if_pos hnew)
  exact (hend ▸ Reaches.read hidle hlt).trans
    (.trans (.of_step _ hmove fun _ => hrest) (.of_step _ hempty nofun))

end BinlogFiles

/-- **In every run in which the reader leaves each file at its end, it returns
what reading the log as one file returns; if the records that have been written
can be read back, these are the first of them, in order.** -/
theorem rotation_reads_all {s : BinlogFiles}
    (hrun : Runs BinlogFiles.step BinlogFiles.LeavesAtEnd .empty s) :
    ReadsBack s.log s.returned s.pos ∧
      ((∀ w ∈ s.written, w.Loggable) → s.returned <+: s.written.map LogWrite.record) := by
  have hfollowed : s.Followed := hrun.invariant ⟨rfl, le_rfl, le_rfl, .start⟩
    fun _ _ _ h hend hs => h.step hend hs
  refine ⟨hfollowed.reads, fun hws => ?_⟩
  have hreads := hfollowed.reads
  rw [hfollowed.log] at hreads
  obtain ⟨n, -, hrecords, -⟩ := hreads.records hws
  have htake := List.take_prefix n s.written
  rw [hrecords]
  exact htake.map _

def firstWrite : LogWrite where
  timestamp := 1
  opType := .sourceSet
  keyHashCode := 0
  expires := 0
  keyInfo := ⟨[], [], [97], noNamespace_le, noObjectId_le, keyA_le⟩
  pValue := [120]
  valueLen := 1

def lastWrite : LogWrite := { firstWrite with opType := .sourceDel, pValue := [], valueLen := 0 }

theorem firstWrite_loggable : firstWrite.Loggable where
  timestamp := by decide
  keyHashCode := by decide
  expires := by decide
  timestamp_ne := by decide
  key_ne := by decide
  len_nonneg := by decide

theorem lastWrite_loggable : lastWrite.Loggable where
  timestamp := by decide
  keyHashCode := by decide
  expires := by decide
  timestamp_ne := by decide
  key_ne := by decide
  len_nonneg := by decide

theorem firstWrite_fits : 0 < (fdhtBinlogWrite firstWrite).length ∧
    (fdhtBinlogWrite firstWrite).length ≤ binlogBuffSize := by
  decide +kernel

/-- A file is filled, read to its end and left for the next one. -/
theorem firstFile_read : ∃ n, BinlogFiles.Reaches .empty
    { (BinlogFiles.empty.flushed (List.replicate (n + 1) firstWrite)).rotated with
      returned := List.replicate (n + 1) firstWrite.record
      index := 1
      offset := 0
      reader := .atEnd } := by
  obtain ⟨n, hfill⟩ := BinlogFiles.Reaches.fill (s := .empty) rfl rfl firstWrite_fits.1
    firstWrite_fits.2
  obtain ⟨offset, hread, hend⟩ := BinlogFiles.Reaches.readFile
    (s := (BinlogFiles.empty.flushed (List.replicate (n + 1) firstWrite)).rotated)
    firstWrite_loggable rfl Nat.one_pos rfl
  have hmove := BinlogFiles.Reaches.moveOn
    (s := { (BinlogFiles.empty.flushed (List.replicate (n + 1) firstWrite)).rotated with
      returned := List.replicate (n + 1) firstWrite.record
      offset := offset }) rfl rfl hend rfl
  exact ⟨n, hfill.trans (hread.trans hmove)⟩

theorem rotation_reads_all_first : ∃ (s : BinlogFiles) (n : Nat),
    s.index = 1 ∧ s.returned = List.replicate (n + 1) firstWrite.record ∧
    ReadsBack s.log s.returned s.pos ∧ s.returned <+: s.written.map LogWrite.record := by
  obtain ⟨n, hrun⟩ := firstFile_read
  obtain ⟨hreads, hrecords⟩ := rotation_reads_all hrun
  refine ⟨_, n, rfl, rfl, hreads, hrecords fun w hw => ?_⟩
  obtain rfl := (List.mem_replicate.mp hw).2
  exact firstWrite_loggable

/-! ## A file that is skipped -/

namespace BinlogFiles

variable {s : BinlogFiles} {w : LogWrite}

/-- The reader has found its file empty, and the writer fills it and leaves it
before the reader looks at the index: it goes on to the file after. -/
theorem Reaches.skip (hidle : s.writer = .idle) (hsize : s.fileSize = 0)
    (hreader : s.reader = .atEnd) (hindex : s.index = s.binlogIndex)
    (hpos : 0 < (fdhtBinlogWrite w).length)
    (hbuff : (fdhtBinlogWrite w).length ≤ binlogBuffSize) {w' : LogWrite} (hw' : w'.Loggable)
    (hbuff' : (fdhtBinlogWrite w').length ≤ binlogBuffSize) :
    ∃ s' n, Runs step (fun _ _ => True) s s' ∧ s'.returned = s.returned ++ [w'.record] ∧
      s'.written = s.written ++ List.replicate (n + 1) w ++ [w'] := by
  obtain ⟨n, hfill⟩ := Reaches.fill (w := w) hidle hsize hpos hbuff
  generalize hs₁ : (s.flushed (List.replicate (n + 1) w)).rotated = s₁ at hfill
  have hindex₁ : s₁.index + 1 = s₁.binlogIndex := by
    subst hs₁
    simpa [rotated, flushed, binlogIndex] using hindex
  have hwritten₁ : s₁.written = s.written ++ List.replicate (n + 1) w := by
    subst hs₁
    rfl
  have hreturned₁ : s₁.returned = s.returned := by
    subst hs₁
    rfl
  have hfresh₁ : s₁.reader = .atEnd ∧ s₁.writer = .idle ∧ s₁.fileSize = 0 ∧ s₁.current = [] := by
    subst hs₁
    exact ⟨hreader, rfl, rfl, rfl⟩
  obtain ⟨hreader₁, hidle₁, hsize₁, hcurrent₁⟩ := hfresh₁
  have hmove : s₁.step .testIndex =
      some { s₁ with index := s₁.index + 1, offset := 0, reader := .reading } := by
    simp only [step, if_pos hreader₁]
    exact if_pos (by omega)
  have hflush : Reaches { s₁ with index := s₁.index + 1, offset := 0, reader := .reading }
      (({ s₁ with index := s₁.index + 1, offset := 0, reader := .reading } :
        BinlogFiles).flushed [w']) := by
    refine .flush hidle₁ (by simpa using hbuff') ?_
    have hbuffMax : binlogBuffSize < syncBinlogFileMaxSize := by decide
    simp only [hsize₁, List.flatMap_cons, List.flatMap_nil, List.append_nil]
    omega
  generalize hs₂ : (({ s₁ with index := s₁.index + 1, offset := 0, reader := .reading } :
    BinlogFiles).flushed [w']) = s₂ at hflush
  have hrest : s₂.rest = fdhtBinlogWrite w' ++ [] := by
    subst hs₂
    simp [rest, files, flushed, hindex₁, binlogIndex, hcurrent₁]
  have hread : s₂.step .read = some s₂.readRecord := by
    subst hs₂
    rfl
  have hlast := (hflush.trans (.of_step _ hread nofun)).mono fun _ _ _ => trivial
  refine ⟨s₂.readRecord, n, (hfill.mono fun _ _ _ => trivial).trans
    (.head ⟨_, trivial, hmove⟩ hlast), ?_, ?_⟩ <;> rw [readRecord_write hw' hrest] <;> subst hs₂
  · simp only [flushed, hreturned₁]
  · simp only [flushed, hwritten₁]

end BinlogFiles

/-- The reader loses a file of records: they are followed by records that it
returns. -/
theorem rotation_skips_file : ∃ s : BinlogFiles,
    Runs BinlogFiles.step (fun _ _ => True) .empty s ∧ (∀ w ∈ s.written, w.Loggable) ∧
    ¬ s.returned <+: s.written.map LogWrite.record := by
  have hbuff' : (fdhtBinlogWrite lastWrite).length ≤ binlogBuffSize := by decide +kernel
  obtain ⟨n, hfirst⟩ := firstFile_read
  -- the second is filled while the reader is at its start
  obtain ⟨s, m, hskip, hreturned, hwritten⟩ := BinlogFiles.Reaches.skip
    (s := { (BinlogFiles.empty.flushed (List.replicate (n + 1) firstWrite)).rotated with
      returned := List.replicate (n + 1) firstWrite.record
      index := 1
      offset := 0
      reader := .atEnd }) rfl rfl rfl rfl firstWrite_fits.1 firstWrite_fits.2 lastWrite_loggable
    hbuff'
  replace hreturned : s.returned = List.replicate (n + 1) firstWrite.record ++
    [lastWrite.record] := hreturned
  replace hwritten : s.written = List.replicate (n + 1) firstWrite ++
    List.replicate (m + 1) firstWrite ++ [lastWrite] := hwritten
  refine ⟨s, (hfirst.mono fun _ _ _ => trivial).trans hskip, ?_, ?_⟩
  · intro w hw
    simp only [hwritten, List.mem_append, List.mem_replicate, List.mem_singleton] at hw
    rcases hw with (⟨-, rfl⟩ | ⟨-, rfl⟩) | rfl
    · exact firstWrite_loggable
    · exact firstWrite_loggable
    · exact lastWrite_loggable
  · intro hprefix
    rw [hreturned, hwritten, List.append_assoc, List.map_append, List.map_replicate,
      List.prefix_append_right_inj, List.replicate_succ, List.cons_append, List.map_cons,
      List.cons_prefix_cons] at hprefix
    exact absurd hprefix.1 (by decide)

end FastDht
