import FastDht.Lib.History
import FastDht.Server.BinlogRotation
import FastDht.Server.Group

/-! # The sync thread and its mark file

The loop of fdht_sync_thread_entrance in server/sync.c toward one peer, over all
binlog files. The mark file is written from five places: while records are sent,
when the thread moves to the next file, when it has nothing to do, when it has
reported that the old data are sent, and when it leaves its loop. The server may
stop at any time; the thread then starts again from the mark. Records are named
by their row, the number of records before them in the log. -/
namespace FastDht
open Lib

/-! ## The thread -/

/-- What `fdht_write_to_mark_file` saves. -/
structure SyncMark where
  binlogIndex : Nat
  binlogOffset : Nat
  flags : BinLogReader
  scanRowCount : Nat
  syncRowCount : Nat
  deriving DecidableEq, Repr

/-- A reader also knows the counts at the time of its last mark. -/
structure SyncReader extends SyncMark where
  lastScanRows : Nat
  lastSyncRows : Nat
  deriving DecidableEq, Repr

/-- What becomes of a message: the peer confirms it, the call fails, or the server
stops before it returns. -/
inductive SendOutcome
  | acked
  | failed
  | interrupted
  deriving DecidableEq, Repr

/-- A record that `fdht_sync_data` has looked at; `none` if it had not to be sent. -/
structure SyncPass where
  row : Nat
  outcome : Option SendOutcome
  deriving DecidableEq, Repr

structure SyncThread where
  closed : List (List LogWrite)
  current : List LogWrite
  now : Int
  mark : SyncMark
  reader : Option SyncReader
  history : List SyncPass
  deriving DecidableEq, Repr

inductive ThreadEvent
  | write (ws : List LogWrite)
  | rotate
  | tick (now : Int)
  /-- `fdht_reader_init` from the mark file. -/
  | start
  | crash
  /-- The loop ends: a heart beat or a read has failed, or the server shuts down. -/
  | leave
  | nextFile
  /-- Nothing to read; `reported` is how `fdht_report_sync_done` ends. -/
  | idle (reported : Bool)
  | record (outcome : SendOutcome)
  deriving DecidableEq, Repr

def SyncReader.ofMark (m : SyncMark) : SyncReader :=
  { m with lastScanRows := m.scanRowCount, lastSyncRows := m.syncRowCount }

def SyncReader.written (r : SyncReader) : SyncReader := .ofMark r.toSyncMark

def SyncReader.advance (r : SyncReader) (recordLen : Nat) : SyncReader :=
  { r with scanRowCount := r.scanRowCount + 1, binlogOffset := r.binlogOffset + recordLen }

namespace SyncThread

variable (s : SyncThread) (m : SyncMark) (r : SyncReader)

def files : List (List LogWrite) := s.closed ++ [s.current]

def log : List LogWrite := s.files.flatten

def file : List LogWrite := s.files.getD m.binlogIndex []

def rest : Bytes := (binlogBytes (s.file m)).drop m.binlogOffset

def row : Nat := (s.files.take m.binlogIndex).flatten.length +
  ((s.file m).length - (recordsFrom m.binlogOffset (s.file m)).length)

def writeToMarkFile : SyncThread := { s with mark := r.toSyncMark, reader := some r.written }

/-- The end of the loop, with its own mark. -/
def leaveLoop : SyncThread :=
  { s with mark := if r.lastScanRows ≠ r.scanRowCount then r.toSyncMark else s.mark, reader := none }

def note (outcome : Option SendOutcome) : SyncThread :=
  { s with history := s.history ++ [⟨s.row r.toSyncMark, outcome⟩] }

def idle (reported : Bool) : SyncThread :=
  if r.flags.needSyncOld && !r.flags.syncOldDone then
    if reported then s.writeToMarkFile { r with flags := { r.flags with syncOldDone := true } }
    else s.leaveLoop r
  else if r.lastScanRows ≠ r.scanRowCount then s.writeToMarkFile r
  else s

/-- The peer has confirmed a record. The mark that is due after `freq` records is
written before the offset moves on. -/
def acknowledged (freq recordLen : Nat) : SyncThread :=
  let r := { r with syncRowCount := r.syncRowCount + 1 }
  if freq ≤ r.syncRowCount - r.lastSyncRows then
    { s with mark := r.toSyncMark, reader := some (r.written.advance recordLen) }
  else { s with reader := some (r.advance recordLen) }

/-- `fdht_sync_data` for a record that has been read, and the rest of the round. -/
def syncRecord (g : Globals) (freq : Nat) (record : BinLogRecord) (outcome : SendOutcome) :
    SyncThread :=
  match fdhtSyncData (g.at s.now) r.flags record with
  | none => { s.note r none with reader := some (r.advance record.readBytes) }
  | some _ =>
    match outcome with
    | .acked => (s.note r (some .acked)).acknowledged r freq record.readBytes
    | .failed => (s.note r (some .failed)).leaveLoop r
    | .interrupted => { s.note r (some .interrupted) with reader := none }

/-- `fdht_binlog_read` finds nothing more. -/
def readsNothing : Bool :=
  if s.rest r.toSyncMark = [] then r.binlogIndex = s.closed.length
  else match fdhtBinlogRead (s.rest r.toSyncMark) with
    | .error e => e = ENOENT
    | .ok _ => false

def step (g : Globals) (freq : Nat) (s : SyncThread) : ThreadEvent → Option SyncThread
  | .write ws => some { s with current := s.current ++ ws }
  | .rotate => some { s with closed := s.closed ++ [s.current], current := [] }
  | .tick now => if s.now ≤ now then some { s with now := now } else none
  | .start => if s.reader = none then some { s with reader := some (.ofMark s.mark) } else none
  | .crash => some { s with reader := none }
  | .leave => s.reader.map s.leaveLoop
  | .nextFile => s.reader.bind fun r =>
    if s.rest r.toSyncMark = [] ∧ r.binlogIndex < s.closed.length then
      some (s.writeToMarkFile { r with binlogIndex := r.binlogIndex + 1, binlogOffset := 0 })
    else none
  | .idle reported => s.reader.bind fun r =>
    if s.readsNothing r then some (s.idle r reported) else none
  | .record outcome => s.reader.bind fun r =>
    if s.rest r.toSyncMark = [] then none
    else match fdhtBinlogRead (s.rest r.toSyncMark) with
      | .error e => if e = ENOENT then none else some (s.leaveLoop r)
      | .ok (record, _) => some (s.syncRecord r g freq record outcome)

/-- The rows that have been sent, in the order in which they were sent. -/
def sends : List Nat := (s.history.filter fun p => p.outcome.isSome).map (·.row)

/-- The place is a record boundary of its file. -/
def AtRecord : Prop := m.binlogIndex < s.files.length ∧ ∃ n, StartsAt (s.file m) m.binlogOffset n

/-- What a run may do: the writer logs records that can be read, and no record expires
that has been sent and lies behind the mark. -/
def Careful (s : SyncThread) : ThreadEvent → Prop
  | .write ws => ∀ w ∈ ws, w.Loggable
  | .tick now => ∀ row ∈ s.sends, s.row s.mark ≤ row → ∀ w ∈ s.log[row]?,
      w.record.dropped now = false
  | _ => True

/-- Where the thread is, or where it will start. -/
def place : SyncMark := (s.reader.map SyncReader.toSyncMark).getD s.mark

/-- The record has been sent and confirmed, or had not to be sent. -/
def Settled (row : Nat) : Prop :=
  ⟨row, some .acked⟩ ∈ s.history ∨ ⟨row, none⟩ ∈ s.history

end SyncThread

/-! ## Places in the log -/

section Places

variable {s s' : SyncThread} {m : SyncMark}

theorem SyncThread.row_eq {n : Nat} (h : StartsAt (s.file m) m.binlogOffset n) :
    s.row m = (s.files.take m.binlogIndex).flatten.length + n := by
  have hn := h.1
  unfold SyncThread.row
  rw [h.recordsFrom, List.length_drop]
  omega

/-- The log has grown at its end: places stay where they are. -/
structure SyncThread.GrowsTo (s s' : SyncThread) : Prop where
  log : ∃ more, s'.log = s.log ++ more
  at_record : ∀ m, s.AtRecord m → s'.AtRecord m
  row : ∀ m, s.AtRecord m → s'.row m = s.row m

theorem SyncThread.GrowsTo.of_files {closed : List (List LogWrite)} {current : List LogWrite}
    (more : List LogWrite) (later : List (List LogWrite)) (hfiles : s.files = closed ++ [current])
    (hfiles' : s'.files = closed ++ (current ++ more) :: later) : s.GrowsTo s' := by
  have hfile : ∀ m : SyncMark, m.binlogIndex < s.files.length →
      (∃ extra, s'.file m = s.file m ++ extra) ∧
        s'.files.take m.binlogIndex = s.files.take m.binlogIndex := by
    intro m hm
    unfold SyncThread.file
    rw [hfiles, List.length_append, List.length_cons, List.length_nil] at hm
    rw [hfiles, hfiles']
    exact getD_grown more later hm
  refine ⟨⟨more ++ later.flatten, ?_⟩, ?_, ?_⟩
  · unfold SyncThread.log
    rw [hfiles, hfiles']
    simp
  · rintro m ⟨hm, n, hn⟩
    obtain ⟨⟨extra, hextra⟩, -⟩ := hfile m hm
    refine ⟨?_, n, ?_⟩
    · rw [hfiles, List.length_append, List.length_cons, List.length_nil] at hm
      rw [hfiles', List.length_append, List.length_cons]
      omega
    · rw [hextra]
      exact hn.append extra
  · rintro m ⟨hm, n, hn⟩
    obtain ⟨⟨extra, hextra⟩, htake⟩ := hfile m hm
    have hn' : StartsAt (s'.file m) m.binlogOffset n := by
      rw [hextra]
      exact hn.append extra
    rw [SyncThread.row_eq hn, SyncThread.row_eq hn', htake]

theorem SyncThread.row_lt {n : Nat} (hindex : m.binlogIndex < s.files.length)
    (hn : StartsAt (s.file m) m.binlogOffset n) {w : LogWrite} {ws : List LogWrite}
    (hdrop : (s.file m).drop n = w :: ws) : s.log[s.row m]? = some w := by
  have hsplit : s.log = (s.files.take m.binlogIndex).flatten ++
      (s.file m ++ (s.files.drop (m.binlogIndex + 1)).flatten) := by
    unfold SyncThread.log SyncThread.file
    rw [List.getD_eq_getElem _ _ hindex, ← List.flatten_cons, List.cons_getElem_drop_succ,
      ← List.flatten_append, List.take_append_drop]
  have hfile : (s.file m)[n]? = some w := by
    rw [← List.head?_drop, hdrop, List.head?_cons]
  have hlt : n < (s.file m).length := (List.getElem?_eq_some_iff.mp hfile).1
  rw [SyncThread.row_eq hn, hsplit, List.getElem?_append_right (Nat.le_add_right _ _),
    Nat.add_sub_cancel_left, List.getElem?_append_left hlt, hfile]

theorem SyncThread.file_readable (hlog : ∀ w ∈ s.log, w.Loggable)
    (hindex : m.binlogIndex < s.files.length) : ∀ w ∈ s.file m, w.Loggable := by
  intro w hw
  refine hlog w (List.mem_flatten.mpr ⟨s.file m, ?_, hw⟩)
  unfold SyncThread.file
  rw [List.getD_eq_getElem _ _ hindex]
  exact List.getElem_mem hindex

theorem SyncThread.AtRecord.read (h : s.AtRecord m) (hlog : ∀ w ∈ s.log, w.Loggable)
    {record : BinLogRecord} {len : Int} (hread : fdhtBinlogRead (s.rest m) = .ok (record, len)) :
    ∃ w, s.log[s.row m]? = some w ∧ record = w.record ∧
      ∀ m' : SyncMark, m'.binlogIndex = m.binlogIndex →
        m'.binlogOffset = m.binlogOffset + record.readBytes →
        s.AtRecord m' ∧ s.row m' = s.row m + 1 := by
  obtain ⟨hindex, n, hn⟩ := h
  obtain ⟨w, ws, hdrop, hrecord, -, hnext⟩ := hn.read (SyncThread.file_readable hlog hindex) hread
  refine ⟨w, SyncThread.row_lt hindex hn hdrop, hrecord, ?_⟩
  intro m' hindex' hoffset
  have hfile : s.file m' = s.file m := by
    unfold SyncThread.file
    rw [hindex']
  have hn' : StartsAt (s.file m') m'.binlogOffset (n + 1) := by
    rw [hfile, hoffset]
    exact hnext
  refine ⟨⟨hindex' ▸ hindex, n + 1, hn'⟩, ?_⟩
  rw [SyncThread.row_eq hn', SyncThread.row_eq hn, hindex']
  omega

theorem SyncThread.end_of_rest {n : Nat} (hn : StartsAt (s.file m) m.binlogOffset n)
    (hrest : s.rest m = []) : n = (s.file m).length := by
  have hdrop : binlogBytes ((s.file m).drop n) = [] := by
    rw [← hn.drop]
    exact hrest
  exact le_antisymm hn.1 (List.drop_eq_nil_iff.mp (binlogBytes_eq_nil hdrop))

theorem SyncThread.AtRecord.at_end {r : SyncReader} (h : s.AtRecord r.toSyncMark)
    (hlog : ∀ w ∈ s.log, w.Loggable) (hnothing : s.readsNothing r = true) :
    s.row r.toSyncMark = s.log.length := by
  obtain ⟨hindex, n, hn⟩ := h
  unfold SyncThread.readsNothing at hnothing
  split at hnothing
  · rename_i hrest
    have hlast : r.binlogIndex = s.closed.length := of_decide_eq_true hnothing
    rw [SyncThread.row_eq hn, SyncThread.end_of_rest hn hrest]
    unfold SyncThread.log SyncThread.file SyncThread.files
    rw [hlast, List.take_left, List.getD_append_right _ _ _ _ le_rfl, Nat.sub_self,
      List.flatten_append, List.length_append]
    simp
  · rename_i hrest
    -- a record that is there can be read
    split at hnothing
    · rename_i e hread
      have hend := hn.unread (SyncThread.file_readable hlog hindex) hread
      refine absurd ?_ hrest
      unfold SyncThread.rest
      rw [hn.drop, hend, List.drop_length]
      rfl
    · cases hnothing

theorem SyncThread.AtRecord.nextFile (h : s.AtRecord m) (hrest : s.rest m = [])
    (hindex : m.binlogIndex + 1 < s.files.length) (m' : SyncMark)
    (hindex' : m'.binlogIndex = m.binlogIndex + 1) (hoffset : m'.binlogOffset = 0) :
    s.AtRecord m' ∧ s.row m' = s.row m := by
  obtain ⟨hlt, n, hn⟩ := h
  have hend := SyncThread.end_of_rest hn hrest
  have hn' : StartsAt (s.file m') m'.binlogOffset 0 := by
    rw [hoffset]
    exact StartsAt.zero _
  refine ⟨⟨hindex' ▸ hindex, 0, hn'⟩, ?_⟩
  rw [SyncThread.row_eq hn', SyncThread.row_eq hn, hindex', hend, List.take_succ_eq_append_getElem hlt,
    List.flatten_append, List.length_append]
  unfold SyncThread.file
  rw [List.getD_eq_getElem _ _ hlt]
  simp

end Places

/-! ## What every step keeps -/

/-- The invariant of the thread. Every record before the place of the thread is
settled; what has been sent and lies behind the mark would be sent again; and the
last sends of the records before the place are in the order of the log. -/
structure SyncThread.Sound (g : Globals) (start : Nat) (s : SyncThread) : Prop where
  readable : ∀ w ∈ s.log, w.Loggable
  mark_at : s.AtRecord s.mark
  reader_at : ∀ r, s.reader = some r → s.AtRecord r.toSyncMark ∧
    s.row s.mark ≤ s.row r.toSyncMark ∧ r.flags = s.mark.flags
  settled : ∀ row, start ≤ row → row < s.row s.place → s.Settled row
  sent : ∀ row ∈ s.sends, ∃ w, s.log[row]? = some w ∧
    (s.row s.mark ≤ row → (fdhtSyncData (g.at s.now) s.mark.flags w.record).isSome = true)
  ordered : ∀ i j, i < j → j < s.row s.place → i ∈ s.sends → j ∈ s.sends →
    FollowedBy s.sends i j

section Steps

variable {g : Globals} {start : Nat} {s s' : SyncThread} {r : SyncReader}

theorem SyncThread.place_of_reader (hr : s.reader = some r) : s.place = r.toSyncMark := by
  unfold SyncThread.place
  rw [hr]
  rfl

theorem SyncThread.place_of_none (hr : s.reader = none) : s.place = s.mark := by
  unfold SyncThread.place
  rw [hr]
  rfl

theorem SyncThread.Sound.mark_le_place (h : s.Sound g start) : s.row s.mark ≤ s.row s.place := by
  cases hr : s.reader with
  | none => rw [SyncThread.place_of_none hr]
  | some r =>
    rw [SyncThread.place_of_reader hr]
    exact (h.reader_at r hr).2.1

theorem SyncThread.Sound.place_at (h : s.Sound g start) : s.AtRecord s.place := by
  cases hr : s.reader with
  | none =>
    rw [SyncThread.place_of_none hr]
    exact h.mark_at
  | some r =>
    rw [SyncThread.place_of_reader hr]
    exact (h.reader_at r hr).1

theorem SyncThread.Sound.of_positions (hreadable : ∀ w ∈ s.log, w.Loggable)
    (hmark : s.AtRecord s.mark)
    (hreader : ∀ r, s.reader = some r → s.AtRecord r.toSyncMark ∧
      s.row s.mark ≤ s.row r.toSyncMark ∧ r.flags = s.mark.flags)
    (hhistory : s.history = []) : s.Sound g (s.row s.place) := by
  have hsends : s.sends = [] := by
    unfold SyncThread.sends
    rw [hhistory]
    rfl
  refine ⟨hreadable, hmark, hreader, ?_, ?_, ?_⟩
  · intro row hstart hlt
    omega
  · rw [hsends]
    exact nofun
  · rw [hsends]
    exact fun _ _ _ _ hi => absurd hi List.not_mem_nil

theorem SyncThread.Sound.grow (h : s.Sound g start) (hgrow : s.GrowsTo s')
    (hreadable : ∀ w ∈ s'.log, w.Loggable) (hnow : s'.now = s.now) (hmark : s'.mark = s.mark)
    (hreader : s'.reader = s.reader) (hhistory : s'.history = s.history) : s'.Sound g start := by
  obtain ⟨more, hlog⟩ := hgrow.log
  have hsends : s'.sends = s.sends := by
    unfold SyncThread.sends
    rw [hhistory]
  have hplace : s'.place = s.place := by
    unfold SyncThread.place
    rw [hreader, hmark]
  have hrow : s'.row s'.place = s.row s.place := by
    rw [hplace]
    exact hgrow.row _ h.place_at
  have hmarkrow : s'.row s'.mark = s.row s.mark := by
    rw [hmark]
    exact hgrow.row _ h.mark_at
  refine ⟨hreadable, hmark ▸ hgrow.at_record _ h.mark_at, ?_, ?_, ?_, ?_⟩
  · intro r hr
    rw [hreader] at hr
    obtain ⟨hat, hle, hflags⟩ := h.reader_at r hr
    rw [hmarkrow, hgrow.row _ hat, hmark]
    exact ⟨hgrow.at_record _ hat, hle, hflags⟩
  · intro row hstart hlt
    unfold SyncThread.Settled
    rw [hhistory]
    exact h.settled row hstart (hrow ▸ hlt)
  · intro row hmem
    obtain ⟨w, hw, hdue⟩ := h.sent row (hsends ▸ hmem)
    refine ⟨w, ?_, ?_⟩
    · rw [hlog, List.getElem?_append_left (List.getElem?_eq_some_iff.mp hw).1, hw]
    · rw [hmarkrow, hmark, hnow]
      exact hdue
  · intro i j hij hj hi hj'
    rw [hsends] at hi hj' ⊢
    exact h.ordered i j hij (hrow ▸ hj) hi hj'

/-- The thread goes back to an earlier place or to its mark, and the mark may come
up to where the thread was. -/
theorem SyncThread.Sound.move (h : s.Sound g start) (mark : SyncMark) (reader : Option SyncReader)
    (hs : s' = { s with mark := mark, reader := reader }) (hmark : s.AtRecord mark)
    (hfrom : s.row s.mark ≤ s.row mark) (hto : s.row mark ≤ s.row s.place)
    (hreader : ∀ r, reader = some r → s.AtRecord r.toSyncMark ∧ s.row mark ≤ s.row r.toSyncMark ∧
      r.flags = mark.flags ∧ s.row r.toSyncMark ≤ s.row s.place)
    (hflags : mark.flags = s.mark.flags ∨ s.log.length ≤ s.row mark) : s'.Sound g start := by
  subst hs
  have hplace : s.row (SyncThread.place { s with mark := mark, reader := reader }) ≤
      s.row s.place := by
    cases hr : reader with
    | none => exact hto
    | some r => exact (hreader r hr).2.2.2
  refine ⟨h.readable, hmark, ?_, ?_, ?_, ?_⟩
  · intro r hr
    obtain ⟨hat, hle, hf, -⟩ := hreader r hr
    exact ⟨hat, hle, hf⟩
  · intro row hstart hlt
    exact h.settled row hstart (lt_of_lt_of_le hlt hplace)
  · intro row hmem
    obtain ⟨w, hw, hdue⟩ := h.sent row hmem
    refine ⟨w, hw, fun hle => ?_⟩
    have hle : s.row mark ≤ row := hle
    have hlt : row < s.log.length := (List.getElem?_eq_some_iff.mp hw).1
    rcases hflags with hf | hend
    · rw [hf]
      exact hdue (by omega)
    · omega
  · intro i j hij hj hi hj'
    exact h.ordered i j hij (lt_of_lt_of_le hj hplace) hi hj'

theorem fdhtSyncData_at {flags : BinLogReader} {record : BinLogRecord} {now now' : Int}
    (h : record.dropped now = false) (h' : record.dropped now' = false) :
    fdhtSyncData (g.at now) flags record = fdhtSyncData (g.at now') flags record := by
  have hlive : ∀ t, record.dropped t = false →
      ¬(record.expires ≠ fdhtExpiresNever ∧ record.expires < (g.at t).currentTime) := by
    intro t ht
    simpa [BinLogRecord.dropped, Globals.at] using ht
  unfold fdhtSyncData
  rw [if_neg (hlive now h), if_neg (hlive now' h')]
  rfl

theorem SyncThread.Sound.tick (h : s.Sound g start) {now : Int}
    (hkeeps : ∀ row ∈ s.sends, s.row s.mark ≤ row → ∀ w, s.log[row]? = some w →
      w.record.dropped now = false) : SyncThread.Sound g start { s with now := now } := by
  refine ⟨h.readable, h.mark_at, h.reader_at, h.settled, ?_, h.ordered⟩
  intro row hmem
  obtain ⟨w, hw, hdue⟩ := h.sent row hmem
  refine ⟨w, hw, fun hle => ?_⟩
  obtain ⟨message, hsome⟩ := Option.isSome_iff_exists.mp (hdue hle)
  rw [fdhtSyncData_at (hkeeps row hmem hle w hw) (fdhtSyncData_some hsome).2.1]
  exact hdue hle

theorem SyncThread.sends_note (outcome : Option SendOutcome) : (s.note r outcome).sends =
    if outcome.isSome then s.sends ++ [s.row r.toSyncMark] else s.sends := by
  unfold SyncThread.note SyncThread.sends
  rw [List.filter_append, List.map_append]
  split
  · rename_i hsome
    rw [List.filter_cons_of_pos (by exact hsome)]
    rfl
  · rename_i hnone
    rw [List.filter_cons_of_neg (by exact hnone)]
    simp

theorem SyncThread.Sound.note_settled (h : s.Sound g start) (outcome : Option SendOutcome) (row : Nat)
    (hstart : start ≤ row) (hlt : row < s.row s.place) : (s.note r outcome).Settled row :=
  (h.settled row hstart hlt).imp (List.mem_append_left _) (List.mem_append_left _)

/-- A record is sent; the thread is still before it. -/
theorem SyncThread.Sound.note_sent (h : s.Sound g start) (hr : s.reader = some r) {w : LogWrite}
    (hw : s.log[s.row r.toSyncMark]? = some w)
    (hdue : (fdhtSyncData (g.at s.now) r.flags w.record).isSome = true) (outcome : SendOutcome) :
    (s.note r (some outcome)).Sound g start := by
  have hplace := SyncThread.place_of_reader hr
  have hsends : (s.note r (some outcome)).sends = s.sends ++ [s.row r.toSyncMark] :=
    SyncThread.sends_note _
  refine ⟨h.readable, h.mark_at, h.reader_at, h.note_settled _, ?_, ?_⟩
  · intro row hmem
    rw [hsends, List.mem_append, List.mem_singleton] at hmem
    rcases hmem with hmem | rfl
    · exact h.sent row hmem
    · refine ⟨w, hw, fun _ => ?_⟩
      show (fdhtSyncData (g.at s.now) s.mark.flags w.record).isSome = true
      rw [← (h.reader_at r hr).2.2]
      exact hdue
  · intro i j hij hj hi hj'
    have hj : j < s.row s.place := hj
    rw [hplace] at hj
    rw [hsends, List.mem_append, List.mem_singleton] at hi hj'
    rw [hsends]
    refine FollowedBy.concat (h.ordered i j hij (hplace ▸ hj) ?_ ?_) (by omega)
    · exact hi.resolve_right (by omega)
    · exact hj'.resolve_right (by omega)

theorem SyncThread.Sound.note_dropped (h : s.Sound g start) : (s.note r none).Sound g start := by
  have hsends : (s.note r none).sends = s.sends := SyncThread.sends_note _
  refine ⟨h.readable, h.mark_at, h.reader_at, h.note_settled _, ?_, ?_⟩
  · rw [hsends]
    exact h.sent
  · rw [hsends]
    exact h.ordered

/-- The thread goes on behind a record that is settled; if it was sent, nothing was
sent after it. -/
theorem SyncThread.Sound.pass (h : s.Sound g start) (hr : s.reader = some r) {r' : SyncReader}
    (hs : s' = { s with reader := some r' }) (hat : s.AtRecord r'.toSyncMark)
    (hrow : s.row r'.toSyncMark = s.row r.toSyncMark + 1) (hflags : r'.flags = r.flags)
    (hsettled : s.Settled (s.row r.toSyncMark))
    (hlast : s.row r.toSyncMark ∈ s.sends → ∀ i < s.row r.toSyncMark,
      FollowedBy s.sends i (s.row r.toSyncMark)) : s'.Sound g start := by
  subst hs
  have hplace := SyncThread.place_of_reader hr
  obtain ⟨-, hle, hf⟩ := h.reader_at r hr
  refine ⟨h.readable, h.mark_at, ?_, ?_, h.sent, ?_⟩
  · intro r'' hr''
    obtain rfl := Option.some.inj hr''
    refine ⟨hat, ?_, hflags.trans hf⟩
    show s.row s.mark ≤ s.row r'.toSyncMark
    omega
  · intro row hstart hlt
    rcases Nat.lt_succ_iff_lt_or_eq.mp (hrow ▸ hlt) with hbefore | rfl
    · exact h.settled row hstart (hplace ▸ hbefore)
    · exact hsettled
  · intro i j hij hj hi hj'
    rcases Nat.lt_succ_iff_lt_or_eq.mp (hrow ▸ hj) with hbefore | rfl
    · exact h.ordered i j hij (hplace ▸ hbefore) hi hj'
    · exact hlast hj' i hij

theorem SyncThread.Sound.leaveLoop (h : s.Sound g start) (hr : s.reader = some r) :
    (s.leaveLoop r).Sound g start := by
  obtain ⟨hat, hle, hflags⟩ := h.reader_at r hr
  have hplace := SyncThread.place_of_reader hr
  by_cases hrows : r.lastScanRows ≠ r.scanRowCount
  · refine h.move r.toSyncMark none ?_ hat hle (by rw [hplace]) nofun (.inl hflags)
    unfold SyncThread.leaveLoop
    rw [if_pos hrows]
  · refine h.move s.mark none ?_ h.mark_at le_rfl h.mark_le_place nofun (.inl rfl)
    unfold SyncThread.leaveLoop
    rw [if_neg hrows]

theorem SyncThread.Sound.writeToMarkFile (h : s.Sound g start) (hr : s.reader = some r)
    {r' : SyncReader} (hat : s.AtRecord r'.toSyncMark)
    (hrow : s.row r'.toSyncMark = s.row r.toSyncMark)
    (hflags : r'.flags = r.flags ∨ s.log.length ≤ s.row r'.toSyncMark) :
    (s.writeToMarkFile r').Sound g start := by
  obtain ⟨-, hle, hf⟩ := h.reader_at r hr
  have hplace := SyncThread.place_of_reader hr
  refine h.move r'.toSyncMark (some r'.written) rfl hat (hrow ▸ hle)
    (by rw [hplace, hrow]) ?_ (hflags.imp_left fun h => h.trans hf)
  intro r'' hr''
  obtain rfl := Option.some.inj hr''
  exact ⟨hat, le_rfl, rfl, by rw [hplace, ← hrow]; exact le_rfl⟩

theorem SyncThread.Sound.idle (h : s.Sound g start) (hr : s.reader = some r)
    (hnothing : s.readsNothing r = true) (reported : Bool) : (s.idle r reported).Sound g start := by
  obtain ⟨hat, -, -⟩ := h.reader_at r hr
  have hend := hat.at_end h.readable hnothing
  unfold SyncThread.idle
  split_ifs
  · exact h.writeToMarkFile hr hat rfl (.inr hend.ge)
  · exact h.leaveLoop hr
  · exact h.writeToMarkFile hr hat rfl (.inl rfl)
  · exact h

theorem SyncThread.Sound.syncRecord (h : s.Sound g start) (hr : s.reader = some r) {w : LogWrite}
    (hw : s.log[s.row r.toSyncMark]? = some w)
    (hnext : ∀ m : SyncMark, m.binlogIndex = r.binlogIndex →
      m.binlogOffset = r.binlogOffset + w.record.readBytes →
      s.AtRecord m ∧ s.row m = s.row r.toSyncMark + 1) (freq : Nat) (outcome : SendOutcome) :
    (s.syncRecord r g freq w.record outcome).Sound g start := by
  obtain ⟨hat, hle, hflags⟩ := h.reader_at r hr
  unfold SyncThread.syncRecord
  split
  · rename_i hnone
    -- a record that has been sent before would be sent again
    have hunsent : s.row r.toSyncMark ∉ s.sends := by
      intro hmem
      obtain ⟨w', hw', hdue⟩ := h.sent _ hmem
      obtain rfl := Option.some.inj (hw.symm.trans hw')
      have hsome := hdue hle
      rw [← hflags, hnone] at hsome
      cases hsome
    obtain ⟨hat', hrow⟩ := hnext (r.advance w.record.readBytes).toSyncMark rfl rfl
    have hnote : (s.note r none).Sound g start := h.note_dropped
    have hsends : (s.note r none).sends = s.sends := SyncThread.sends_note _
    refine hnote.pass hr rfl hat' hrow rfl ?_ ?_
    · exact .inr (List.mem_append_right _ (List.mem_singleton.mpr rfl))
    · rw [hsends]
      exact fun hmem => absurd hmem hunsent
  · rename_i message hsome
    have hdue : (fdhtSyncData (g.at s.now) r.flags w.record).isSome = true := by rw [hsome]; rfl
    cases outcome with
    | acked =>
      have hnote := h.note_sent hr hw hdue .acked
      have hsends : (s.note r (some .acked)).sends = s.sends ++ [s.row r.toSyncMark] :=
        SyncThread.sends_note _
      have hpass : ∀ r' : SyncReader, r'.binlogIndex = r.binlogIndex →
          r'.binlogOffset = r.binlogOffset + w.record.readBytes → r'.flags = r.flags →
          SyncThread.Sound g start { s.note r (some .acked) with reader := some r' } := by
        intro r' hindex hoffset hf
        obtain ⟨hat', hrow⟩ := hnext r'.toSyncMark hindex hoffset
        refine hnote.pass hr rfl hat' hrow hf ?_ ?_
        · exact .inl (List.mem_append_right _ (List.mem_singleton.mpr rfl))
        · rw [hsends]
          exact fun _ i hi => FollowedBy.last (Nat.ne_of_lt hi)
      unfold SyncThread.acknowledged
      dsimp only
      split
      · -- the mark stays before the record
        let r' : SyncReader := { r with syncRowCount := r.syncRowCount + 1 }
        have hmoved := hpass (r'.written.advance w.record.readBytes) rfl rfl rfl
        obtain ⟨hat', hrow⟩ := hnext (r'.written.advance w.record.readBytes).toSyncMark rfl rfl
        refine hmoved.move r'.toSyncMark (some (r'.written.advance w.record.readBytes)) rfl hat hle
          ?_ ?_ (.inl hflags)
        · exact (Nat.le_succ _).trans hrow.ge
        · intro r'' hr''
          obtain rfl := Option.some.inj hr''
          exact ⟨hat', (Nat.le_succ _).trans hrow.ge, rfl, le_rfl⟩
      · exact hpass _ rfl rfl rfl
    | failed => exact (h.note_sent hr hw hdue .failed).leaveLoop hr
    | interrupted =>
      have hnote := h.note_sent hr hw hdue .interrupted
      exact hnote.move s.mark none rfl hnote.mark_at le_rfl hnote.mark_le_place
        (fun r' hr' => by cases hr') (.inl rfl)

theorem SyncThread.Sound.step (h : s.Sound g start) {freq : Nat} {e : ThreadEvent}
    (hcareful : s.Careful e) (hstep : s.step g freq e = some s') : s'.Sound g start := by
  cases e with
  | write ws =>
    obtain rfl := Option.some.inj hstep
    refine h.grow (SyncThread.GrowsTo.of_files ws [] rfl rfl) ?_ rfl rfl rfl rfl
    have hlog : SyncThread.log { s with current := s.current ++ ws } = s.log ++ ws := by
      simp [SyncThread.log, SyncThread.files]
    intro w hw
    rcases List.mem_append.mp (hlog ▸ hw) with hold | hnew
    · exact h.readable w hold
    · exact hcareful w hnew
  | rotate =>
    obtain rfl := Option.some.inj hstep
    have hlog : SyncThread.log { s with closed := s.closed ++ [s.current], current := [] } =
        s.log := by
      simp [SyncThread.log, SyncThread.files]
    refine h.grow (SyncThread.GrowsTo.of_files [] [[]] rfl ?_) ?_ rfl rfl rfl rfl
    · simp [SyncThread.files]
    · rw [hlog]
      exact h.readable
  | tick now =>
    simp only [SyncThread.step] at hstep
    split at hstep
    · obtain rfl := Option.some.inj hstep
      exact h.tick hcareful
    · cases hstep
  | start =>
    simp only [SyncThread.step] at hstep
    split at hstep
    · obtain rfl := Option.some.inj hstep
      refine h.move s.mark (some (.ofMark s.mark)) rfl h.mark_at le_rfl h.mark_le_place ?_ (.inl rfl)
      intro r hr
      obtain rfl := Option.some.inj hr
      exact ⟨h.mark_at, le_rfl, rfl, h.mark_le_place⟩
    · cases hstep
  | crash =>
    obtain rfl := Option.some.inj hstep
    exact h.move s.mark none rfl h.mark_at le_rfl h.mark_le_place nofun (.inl rfl)
  | leave =>
    obtain ⟨r, hr, rfl⟩ := Option.map_eq_some_iff.mp hstep
    exact h.leaveLoop hr
  | nextFile =>
    obtain ⟨r, hr, hnext⟩ := Option.bind_eq_some_iff.mp hstep
    split at hnext
    · rename_i hfile
      obtain rfl := Option.some.inj hnext
      have hindex : r.binlogIndex + 1 < s.files.length := by
        unfold SyncThread.files
        rw [List.length_append, List.length_singleton]
        omega
      obtain ⟨hat, hrow⟩ := (h.reader_at r hr).1.nextFile hfile.1 hindex
        { r.toSyncMark with binlogIndex := r.binlogIndex + 1, binlogOffset := 0 } rfl rfl
      exact h.writeToMarkFile hr hat hrow (.inl rfl)
    · cases hnext
  | idle reported =>
    obtain ⟨r, hr, hidle⟩ := Option.bind_eq_some_iff.mp hstep
    split at hidle
    · rename_i hnothing
      obtain rfl := Option.some.inj hidle
      exact h.idle hr hnothing reported
    · cases hidle
  | record outcome =>
    obtain ⟨r, hr, hrecord⟩ := Option.bind_eq_some_iff.mp hstep
    split at hrecord
    · cases hrecord
    · split at hrecord
      · split at hrecord
        · cases hrecord
        · obtain rfl := Option.some.inj hrecord
          exact h.leaveLoop hr
      · rename_i record len hread
        obtain rfl := Option.some.inj hrecord
        obtain ⟨w, hw, rfl, hnext⟩ := (h.reader_at r hr).1.read h.readable hread
        exact h.syncRecord hr hw hnext freq outcome

/-! ## Catching up -/

/-- The thread starts, moves to the next file, or handles a record that the peer
confirms. -/
def ThreadEvent.Forward : ThreadEvent → Prop
  | .start => True
  | .nextFile => True
  | .record .acked => True
  | _ => False

theorem ThreadEvent.Forward.careful {e : ThreadEvent} (he : e.Forward) : s.Careful e := by
  cases e <;> trivial

theorem SyncThread.syncRecord_acked (freq : Nat) (record : BinLogRecord) :
    ∃ r' : SyncReader, (s.syncRecord r g freq record .acked).reader = some r' ∧
      (s.syncRecord r g freq record .acked).files = s.files ∧
      r'.binlogIndex = r.binlogIndex ∧ r'.binlogOffset = r.binlogOffset + record.readBytes := by
  unfold SyncThread.syncRecord
  split
  · exact ⟨_, rfl, rfl, rfl, rfl⟩
  · unfold SyncThread.acknowledged
    dsimp only
    split <;> exact ⟨_, rfl, rfl, rfl, rfl⟩

theorem SyncThread.Sound.goes_on (h : s.Sound g start) (hr : s.reader = some r) (freq : Nat)
    (hmore : s.readsNothing r = false) :
    ∃ e s' r', e.Forward ∧ s.step g freq e = some s' ∧ s'.files = s.files ∧ s'.reader = some r' ∧
      (s'.row r'.toSyncMark = s.row r.toSyncMark + 1 ∧ r'.binlogIndex = r.binlogIndex ∧
          s.row r.toSyncMark < s.log.length ∨
        s'.row r'.toSyncMark = s.row r.toSyncMark ∧ r'.binlogIndex = r.binlogIndex + 1 ∧
          r.binlogIndex < s.closed.length) := by
  obtain ⟨⟨hindex, n, hn⟩, -, -⟩ := h.reader_at r hr
  have hlength : s.files.length = s.closed.length + 1 := by
    unfold SyncThread.files
    rw [List.length_append, List.length_singleton]
  by_cases hrest : s.rest r.toSyncMark = []
  · have hlast : r.binlogIndex < s.closed.length := by
      unfold SyncThread.readsNothing at hmore
      rw [if_pos hrest, decide_eq_false_iff_not] at hmore
      omega
    obtain ⟨-, hrow⟩ := (h.reader_at r hr).1.nextFile hrest (by omega)
      { r.toSyncMark with binlogIndex := r.binlogIndex + 1, binlogOffset := 0 } rfl rfl
    let r' : SyncReader := { r with binlogIndex := r.binlogIndex + 1, binlogOffset := 0 }
    refine ⟨.nextFile, s.writeToMarkFile r', r'.written, trivial, ?_, rfl, rfl,
      .inr ⟨hrow, rfl, hlast⟩⟩
    simp only [SyncThread.step, hr, Option.bind_some, if_pos (And.intro hrest hlast)]
    rfl
  · cases hread : fdhtBinlogRead (s.rest r.toSyncMark) with
    | error e =>
      have hend := hn.unread (SyncThread.file_readable h.readable hindex) hread
      refine absurd ?_ hrest
      unfold SyncThread.rest
      rw [hn.drop, hend, List.drop_length]
      rfl
    | ok x =>
      obtain ⟨record, len⟩ := x
      obtain ⟨w, hw, hrecord, hnext⟩ := (h.reader_at r hr).1.read h.readable hread
      obtain ⟨r', hr', hfiles, hindex', hoffset⟩ :=
        SyncThread.syncRecord_acked (g := g) (s := s) (r := r) freq record
      refine ⟨.record .acked, _, r', trivial, ?_, hfiles, hr', .inl ⟨?_, hindex', ?_⟩⟩
      · simp only [SyncThread.step, hr, Option.bind_some, if_neg hrest, hread]
      · unfold SyncThread.row SyncThread.file
        rw [hfiles]
        exact (hnext r'.toSyncMark hindex' hoffset).2
      · exact (List.getElem?_eq_some_iff.mp hw).1

/-- From every state the thread gets to the end of the log if the peer confirms what
it is sent. -/
theorem SyncThread.Sound.catches_up (h : s.Sound g start) (freq : Nat) :
    ∃ s' r', Runs (SyncThread.step g freq) (fun _ e => e.Forward) s s' ∧ s'.Sound g start ∧
      s'.files = s.files ∧ s'.reader = some r' ∧ s'.row r'.toSyncMark = s'.log.length := by
  -- by induction on the rows and files that are left
  have hrunning : ∀ k (s : SyncThread) (r : SyncReader), s.Sound g start → s.reader = some r →
      s.log.length - s.row r.toSyncMark + (s.closed.length - r.binlogIndex) ≤ k →
      ∃ s' r', Runs (SyncThread.step g freq) (fun _ e => e.Forward) s s' ∧ s'.Sound g start ∧
        s'.files = s.files ∧ s'.reader = some r' ∧ s'.row r'.toSyncMark = s'.log.length := by
    intro k
    induction k with
    | zero =>
      intro s r h hr hk
      cases hmore : s.readsNothing r with
      | true =>
        exact ⟨s, r, .refl, h, rfl, hr, (h.reader_at r hr).1.at_end h.readable hmore⟩
      | false =>
        obtain ⟨e, s', r', -, -, -, -, hcase⟩ := h.goes_on hr freq hmore
        omega
    | succ k ih =>
      intro s r h hr hk
      cases hmore : s.readsNothing r with
      | true =>
        exact ⟨s, r, .refl, h, rfl, hr, (h.reader_at r hr).1.at_end h.readable hmore⟩
      | false =>
        obtain ⟨e, s₁, r₁, he, hstep, hfiles, hr₁, hcase⟩ := h.goes_on hr freq hmore
        have hlog : s₁.log = s.log := congrArg List.flatten hfiles
        have hclosed : s₁.closed.length = s.closed.length := by
          have hlength := congrArg List.length hfiles
          unfold SyncThread.files at hlength
          rw [List.length_append, List.length_append] at hlength
          exact Nat.add_right_cancel hlength
        obtain ⟨s', r', hrun, hsound, hfiles', hreader, hrow⟩ :=
          ih s₁ r₁ (h.step he.careful hstep) hr₁ (by rw [hlog, hclosed]; omega)
        exact ⟨s', r', .head ⟨e, he, hstep⟩ hrun, hsound, hfiles'.trans hfiles, hreader, hrow⟩
  cases hr : s.reader with
  | some r => exact hrunning _ s r h hr le_rfl
  | none =>
    have hstep : s.step g freq .start = some { s with reader := some (.ofMark s.mark) } := by
      simp only [SyncThread.step, if_pos hr]
    obtain ⟨s', r', hrun, hsound, hfiles, hreader, hrow⟩ :=
      hrunning _ _ (.ofMark s.mark) (h.step (e := .start) trivial hstep) rfl le_rfl
    exact ⟨s', r', .head ⟨.start, trivial, hstep⟩ hrun, hsound, hfiles, hreader, hrow⟩

end Steps

/-! ## Resuming -/

/-- A thread with its first mark: the position is that of a record, and nothing has
been sent. -/
structure SyncThread.Starts (s : SyncThread) : Prop where
  readable : ∀ w ∈ s.log, w.Loggable
  mark_at : s.AtRecord s.mark
  stopped : s.reader = none
  history : s.history = []

/-- Of two records before the place of the thread that have been sent, the last send
of the earlier comes before the last send of the later. -/
def SyncThread.InOrder (s : SyncThread) : Prop :=
  ∀ i j, i < j → j < s.row s.place → i ∈ s.sends → j ∈ s.sends → FollowedBy s.sends i j

/-- Nothing is lost: the mark is a record boundary, every record before the place of
the thread is settled, the mark does not lie behind that place, the last sends are
in the order of the log, and the thread can always catch up with the log. -/
structure SyncThread.Resumes (g : Globals) (freq start : Nat) (s : SyncThread) : Prop where
  mark_at : s.AtRecord s.mark
  mark_le : s.row s.mark ≤ s.row s.place
  settled : ∀ row, start ≤ row → row < s.row s.place → s.Settled row
  in_order : s.InOrder
  catches_up : ∃ s', Runs (SyncThread.step g freq) (fun _ e => e.Forward) s s' ∧
    s'.files = s.files ∧ (∀ row, start ≤ row → row < s'.log.length → s'.Settled row) ∧
    s'.row s'.place = s'.log.length ∧ s'.InOrder

theorem SyncThread.Starts.sound {g : Globals} {s : SyncThread} (h : s.Starts) :
    s.Sound g (s.row s.mark) := by
  have hplace := SyncThread.place_of_none h.stopped
  have hsound := SyncThread.Sound.of_positions (g := g) h.readable h.mark_at
    (by rw [h.stopped]; exact nofun) h.history
  rwa [hplace] at hsound

/-- **Replication resumes without gaps.** In every run in which the writer logs
records that can be read, and no record expires that has been sent and lies behind
the mark, the thread never loses its place, however its sends end and wherever the
server stops. -/
theorem sync_resumes {g : Globals} {freq : Nat} {s₀ s : SyncThread} (h₀ : s₀.Starts)
    (hrun : Runs (SyncThread.step g freq) SyncThread.Careful s₀ s) :
    s.Resumes g freq (s₀.row s₀.mark) := by
  have h : s.Sound g (s₀.row s₀.mark) := hrun.invariant h₀.sound fun s e s' hs he hstep =>
    hs.step he hstep
  obtain ⟨s', r', hforward, hsound, hfiles, hreader, hrow⟩ := h.catches_up freq
  have hplace := SyncThread.place_of_reader hreader
  rw [← hplace] at hrow
  exact {
    mark_at := h.mark_at
    mark_le := h.mark_le_place
    settled := h.settled
    in_order := h.ordered
    catches_up := ⟨s', hforward, hfiles, fun row hstart hlt => hsound.settled row hstart (hrow ▸ hlt),
      hrow, hsound.ordered⟩ }

instance (s : SyncThread) : (e : ThreadEvent) → Decidable (s.Careful e)
  | .write ws => inferInstanceAs (Decidable (∀ w ∈ ws, w.Loggable))
  | .tick now => inferInstanceAs (Decidable (∀ row ∈ s.sends, s.row s.mark ≤ row →
      ∀ w ∈ s.log[row]?, w.record.dropped now = false))
  | .rotate => isTrue trivial
  | .start => isTrue trivial
  | .crash => isTrue trivial
  | .leave => isTrue trivial
  | .nextFile => isTrue trivial
  | .idle _ => isTrue trivial
  | .record _ => isTrue trivial

/-- A SET and the SET of the same key with an expiry. -/
def expiringWrite : LogWrite := { firstWrite with expires := 1005 }

def startedThread : SyncThread where
  closed := []
  current := [firstWrite, expiringWrite]
  now := 1000
  mark := ⟨0, 0, ⟨false, false, 0⟩, 0, 0⟩
  reader := none
  history := []

theorem startedThread_starts : startedThread.Starts where
  readable := by decide +kernel
  mark_at := ⟨by decide, 0, StartsAt.zero _⟩
  stopped := rfl
  history := rfl

/-- The server stops after the first record has been sent; a send fails; the writer
goes on to a new file. -/
theorem sync_resumes_after_crash : ∃ s : SyncThread, s.sends = [0, 0, 1, 1, 2] ∧
    s.Resumes oneGroup 5000 0 := by
  have hexec : (exec (SyncThread.step oneGroup 5000) SyncThread.Careful
      [.start, .record .acked, .crash, .start, .record .acked, .record .failed, .rotate,
        .write [lastWrite], .start, .record .acked, .nextFile, .record .acked, .idle false]
      startedThread).map SyncThread.sends = some [0, 0, 1, 1, 2] := by decide +kernel
  obtain ⟨s, hs, hsends⟩ := Option.map_eq_some_iff.mp hexec
  exact ⟨s, hsends, sync_resumes startedThread_starts (.of_exec hs)⟩

/-- Both records are sent, and the server stops before the mark has moved. When it
starts again the second has expired: only the first is sent once more, and now
comes last. -/
theorem sync_resends_out_of_order :
    ¬ ∀ (g : Globals) (freq : Nat) (s₀ s : SyncThread), s₀.Starts →
      Runs (SyncThread.step g freq) (fun _ _ => True) s₀ s → s.Resumes g freq (s₀.row s₀.mark) := by
  intro h
  have hexec : (exec (SyncThread.step oneGroup 5000) (fun _ _ => True)
      [.start, .record .acked, .record .acked, .crash, .tick 1006, .start, .record .acked,
        .record .acked] startedThread).map (fun s => (s.sends, s.row s.place)) =
      some ([0, 1, 0], 2) := by decide +kernel
  obtain ⟨s, hs, heq⟩ := Option.map_eq_some_iff.mp hexec
  obtain ⟨hsends, hplace⟩ := Prod.mk.inj heq
  have hresumes := h oneGroup 5000 startedThread s startedThread_starts (.of_exec hs)
  have hfollowed := hresumes.in_order 0 1 (by decide) (by rw [hplace]; decide)
    (by rw [hsends]; decide) (by rw [hsends]; decide)
  rw [hsends] at hfollowed
  exact absurd (hfollowed [0, 1] [] rfl) List.not_mem_nil

end FastDht
