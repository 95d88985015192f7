import Mathlib.Data.List.Forall2
import FastDht.Server.BinlogRotation
import FastDht.Server.Global

/-! # The writer of the binlog: server/sync.c

fdht_binlog_write collects short records in a cache and writes long ones at
once. fdht_binlog_fsync writes the cache to the file, forgets it whatever the
outcome, and goes on to the next file when this one has its size. Every `write`
can fail or take a part of its bytes. -/
namespace FastDht
open Lib

/-! ## The model -/

/-- How the system calls of a flush go. -/
structure FlushIo where
  /-- The bytes that `write` takes, at most. -/
  taken : Nat
  synced : Bool
  /-- What `write_to_binlog_index` returns. -/
  indexResult : Int
  errno : Int
  deriving DecidableEq, Repr

/-- How the system calls of a direct write go. -/
structure DirectIo where
  /-- The bytes that the three `write`s take, at most. -/
  header : Nat
  value : Nat
  newline : Nat
  synced : Bool
  indexResult : Int
  errno : Int
  deriving DecidableEq, Repr

/-- The files and the cache. `closed` are the files before the current one. -/
structure BinlogWriter where
  closed : List Bytes
  current : Bytes
  /-- `g_binlog_file_size`. -/
  fileSize : Int
  cache : Bytes
  /-- The calls of `fdht_binlog_write` with their results. -/
  calls : List (LogWrite × Int)
  /-- Those of them whose records are in the cache. -/
  cached : List (LogWrite × Int)
  deriving DecidableEq, Repr

/-- `errno != 0 ? errno : EIO`, where `EIO` is 5. -/
def ioResult (errno : Int) : Int := if errno ≠ 0 then errno else 5

namespace BinlogWriter

def empty : BinlogWriter := ⟨[], [], 0, [], [], []⟩

variable (s : BinlogWriter)

def files : List Bytes := s.closed ++ [s.current]

/-- What follows a write: the next file if this one has its size. The index file is
written first, and `open_next_writable_binlog` succeeds. -/
def checkFileSize (indexResult : Int) : Int × BinlogWriter :=
  if syncBinlogFileMaxSize ≤ s.fileSize then
    if indexResult = 0 then
      (0, { s with closed := s.closed ++ [s.current], current := [], fileSize := 0 })
    else (indexResult, { s with fileSize := 0 })
  else (0, s)

def fdhtBinlogFsync (io : FlushIo) : Int × BinlogWriter :=
  if s.cache = [] then (0, s)
  else
    let s' := { s with current := s.current ++ s.cache.take io.taken, cache := [], cached := [] }
    if io.taken < s.cache.length then (ioResult io.errno, s')
    else if io.synced = false then (ioResult io.errno, s')
    else { s' with fileSize := s.fileSize + s.cache.length }.checkFileSize io.indexResult

/-- The header of a record and its key, the buffer of `fdht_binlog_direct_write`. -/
def recordHead (w : LogWrite) : Bytes := w.fixFields ++ w.keyInfo.packFullKeyInfo

def fdhtBinlogDirectWrite (io : DirectIo) (w : LogWrite) : Int × BinlogWriter :=
  let s₁ := { s with current := s.current ++ (recordHead w).take io.header }
  if io.header < (recordHead w).length then (ioResult io.errno, s₁)
  else
    let s₂ := { s₁ with current := s₁.current ++ w.value.take io.value }
    if 0 < w.len ∧ io.value < w.value.length then (ioResult io.errno, s₂)
    else
      let s₃ := { s₂ with current := s₂.current ++ [10].take io.newline }
      if io.newline < 1 then (ioResult io.errno, s₃)
      else if io.synced = false then (ioResult io.errno, s₃)
      else { s₃ with fileSize := s.fileSize + toInt32 ((recordHead w).length + w.len + 1)
        }.checkFileSize io.indexResult

/-- `fdht_binlog_write`. The length of the record is an `int`. -/
def binlogWrite (flush : FlushIo) (direct : DirectIo) (w : LogWrite) : Int × BinlogWriter :=
  let recordLen := toInt32 (calcRecordLength w.keyInfo w.len)
  if binlogBuffSize ≤ recordLen then
    let r := s.fdhtBinlogFsync flush
    if r.1 = 0 then r.2.fdhtBinlogDirectWrite direct w else r
  else
    let r := if (binlogBuffSize : Int) - s.cache.length < recordLen then s.fdhtBinlogFsync flush
      else (0, s)
    (r.1, { r.2 with
      cache := r.2.cache ++ fdhtBinlogWrite w
      cached := r.2.cached ++ [(w, r.1)] })

end BinlogWriter

inductive WriterEvent
  | write (w : LogWrite) (flush : FlushIo) (direct : DirectIo)
  /-- `fdht_binlog_sync_func`. -/
  | flush (io : FlushIo)
  deriving DecidableEq, Repr

def BinlogWriter.step (s : BinlogWriter) : WriterEvent → Option BinlogWriter
  | .write w flush direct =>
    let r := s.binlogWrite flush direct w
    some { r.2 with calls := s.calls ++ [(w, r.1)] }
  | .flush io => some (s.fdhtBinlogFsync io).2

/-! ## What a call does -/

/-- The files hold whole records: `fs` those of the closed files, `cur` those of the
current one. -/
structure BinlogWriter.Holds (s : BinlogWriter) (fs : List (List LogWrite)) (cur : List LogWrite) :
    Prop where
  closed : s.closed = fs.map binlogBytes
  current : s.current = binlogBytes cur

section Calls

variable {s : BinlogWriter} {fs : List (List LogWrite)} {cur : List LogWrite}

theorem binlogBytes_append (a b : List LogWrite) :
    binlogBytes (a ++ b) = binlogBytes a ++ binlogBytes b := List.flatMap_append

theorem flatten_binlogBytes (fs : List (List LogWrite)) :
    (fs.map binlogBytes).flatten = binlogBytes fs.flatten := by
  induction fs with
  | nil => rfl
  | cons ws fs ih => rw [List.map_cons, List.flatten_cons, List.flatten_cons, ih, binlogBytes_append]

theorem BinlogWriter.Holds.checkFileSize (h : s.Holds fs cur) (indexResult : Int) :
    ∃ fs' cur', (s.checkFileSize indexResult).2.Holds fs' cur' ∧
      fs'.flatten ++ cur' = fs.flatten ++ cur ∧
      (s.checkFileSize indexResult).2.cache = s.cache ∧
      (s.checkFileSize indexResult).2.cached = s.cached := by
  unfold BinlogWriter.checkFileSize
  split
  · split
    · refine ⟨fs ++ [cur], [], ⟨?_, rfl⟩, by simp, rfl, rfl⟩
      rw [List.map_append, ← h.closed, h.current]
      rfl
    · exact ⟨fs, cur, ⟨h.closed, h.current⟩, rfl, rfl, rfl⟩
  · exact ⟨fs, cur, h, rfl, rfl, rfl⟩

theorem BinlogWriter.Holds.flush (h : s.Holds fs cur)
    (hcache : s.cache = binlogBytes (s.cached.map Prod.fst)) {io : FlushIo} {n : Nat}
    (htaken : s.cache.take io.taken = binlogBytes ((s.cached.take n).map Prod.fst)) :
    ∃ fs' cur', (s.fdhtBinlogFsync io).2.Holds fs' cur' ∧
      fs'.flatten ++ cur' = fs.flatten ++ cur ++ (s.cached.take n).map Prod.fst ∧
      (s.fdhtBinlogFsync io).2.cache = [] ∧ (s.fdhtBinlogFsync io).2.cached = [] := by
  unfold BinlogWriter.fdhtBinlogFsync
  by_cases hnil : s.cache = []
  · have hcached : s.cached = [] := by
      have hmap : s.cached.map Prod.fst = [] := binlogBytes_eq_nil (hcache.symm.trans hnil)
      exact List.map_eq_nil_iff.mp hmap
    rw [if_pos hnil]
    exact ⟨fs, cur, h, by simp [hcached], hnil, hcached⟩
  rw [if_neg hnil]
  have hcurrent : s.current ++ s.cache.take io.taken =
      binlogBytes (cur ++ (s.cached.take n).map Prod.fst) := by
    rw [htaken, h.current, binlogBytes_append]
  have happend := (List.append_assoc fs.flatten cur ((s.cached.take n).map Prod.fst)).symm
  split
  · exact ⟨fs, _, ⟨h.closed, hcurrent⟩, happend, rfl, rfl⟩
  split
  · exact ⟨fs, _, ⟨h.closed, hcurrent⟩, happend, rfl, rfl⟩
  · obtain ⟨fs', cur', hholds, hflatten, hcache', hcached'⟩ :=
      BinlogWriter.Holds.checkFileSize (s := { s with
        current := s.current ++ s.cache.take io.taken
        cache := []
        cached := []
        fileSize := s.fileSize + s.cache.length }) ⟨h.closed, hcurrent⟩ io.indexResult
    exact ⟨fs', cur', hholds, hflatten.trans happend, hcache', hcached'⟩

/-- All the writes of a direct write take their bytes. -/
structure DirectIo.Complete (io : DirectIo) (w : LogWrite) : Prop where
  header : (BinlogWriter.recordHead w).length ≤ io.header
  value : w.value.length ≤ io.value
  newline : 1 ≤ io.newline

instance (io : DirectIo) (w : LogWrite) : Decidable (io.Complete w) :=
  decidable_of_iff ((BinlogWriter.recordHead w).length ≤ io.header ∧ w.value.length ≤ io.value ∧
    1 ≤ io.newline) ⟨fun h => ⟨h.1, h.2.1, h.2.2⟩, fun h => ⟨h.1, h.2, h.3⟩⟩

theorem ioResult_ne (errno : Int) : ioResult errno ≠ 0 := by
  unfold ioResult
  split <;> omega

theorem directWrite_current {io : DirectIo} {w : LogWrite} (hio : io.Complete w) :
    s.current ++ (BinlogWriter.recordHead w).take io.header ++ w.value.take io.value ++
      [10].take io.newline = s.current ++ fdhtBinlogWrite w := by
  rw [List.take_of_length_le hio.header, List.take_of_length_le hio.value,
    List.take_of_length_le (show [(10 : UInt8)].length ≤ io.newline from hio.newline)]
  simp only [BinlogWriter.recordHead, fdhtBinlogWrite, List.append_assoc]

theorem BinlogWriter.Holds.direct (h : s.Holds fs cur) {io : DirectIo} {w : LogWrite}
    (hio : io.Complete w ∨ io.header = 0) :
    ∃ fs' cur', (s.fdhtBinlogDirectWrite io w).2.Holds fs' cur' ∧
      (fs'.flatten ++ cur' = fs.flatten ++ cur ++ [w] ∨
        (s.fdhtBinlogDirectWrite io w).1 ≠ 0 ∧ fs'.flatten ++ cur' = fs.flatten ++ cur) ∧
      (s.fdhtBinlogDirectWrite io w).2.cache = s.cache ∧
      (s.fdhtBinlogDirectWrite io w).2.cached = s.cached := by
  unfold BinlogWriter.fdhtBinlogDirectWrite
  rcases hio with hio | hio
  · have hcurrent : s.current ++ (recordHead w).take io.header ++ w.value.take io.value ++
        [10].take io.newline = binlogBytes (cur ++ [w]) := by
      rw [directWrite_current hio, h.current, binlogBytes_append]
      simp [binlogBytes]
    have happend := (List.append_assoc fs.flatten cur [w]).symm
    have hvalue := hio.value
    rw [if_neg (Nat.not_lt.mpr hio.header), if_neg (by omega), if_neg (Nat.not_lt.mpr hio.newline)]
    split
    · exact ⟨fs, cur ++ [w], ⟨h.closed, hcurrent⟩, .inl happend, rfl, rfl⟩
    · obtain ⟨fs', cur', hholds, hflatten, hcache, hcached⟩ :=
        BinlogWriter.Holds.checkFileSize (s := { s with
          current := s.current ++ (recordHead w).take io.header ++ w.value.take io.value ++
            [10].take io.newline
          fileSize := s.fileSize + toInt32 ((recordHead w).length + w.len + 1) })
          ⟨h.closed, hcurrent⟩ io.indexResult
      exact ⟨fs', cur', hholds, .inl (hflatten.trans happend), hcache, hcached⟩
  · have hhead : 0 < (recordHead w).length := by
      simp [recordHead, FDHTKeyInfo.packFullKeyInfo]
    rw [if_pos (by omega)]
    refine ⟨fs, cur, ⟨h.closed, ?_⟩, .inr ⟨ioResult_ne _, rfl⟩, rfl, rfl⟩
    rw [hio, List.take_zero, List.append_nil]
    exact h.current

end Calls

/-! ## Failing writes -/

def acknowledged (calls : List (LogWrite × Int)) : List LogWrite :=
  (calls.filter fun c => c.2 = 0).map Prod.fst

/-- A flush takes whole records, and all that are acknowledged. -/
def BinlogWriter.TakesWhole (s : BinlogWriter) (io : FlushIo) : Prop :=
  s.cache.length ≤ io.taken ∨ ∃ n ∈ List.range (s.cached.length + 1),
    io.taken = (binlogBytes ((s.cached.take n).map Prod.fst)).length ∧
      ∀ c ∈ s.cached.drop n, c.2 ≠ 0

/-- What a step has to keep to for no record to be lost or torn. The length of the record and
`value.size` of its reader are `int`s. -/
def BinlogWriter.WholeWrites (s : BinlogWriter) : WriterEvent → Prop
  | .write w flush direct =>
    w.Loggable ∧ calcRecordLength w.keyInfo w.len + 1024 < 2 ^ 31 ∧ s.TakesWhole flush ∧
      (direct.Complete w ∨ direct.header = 0)
  | .flush io => s.TakesWhole io

instance (s : BinlogWriter) (io : FlushIo) : Decidable (s.TakesWhole io) :=
  inferInstanceAs (Decidable (_ ∨ ∃ _ ∈ _, _))

instance (s : BinlogWriter) : (e : WriterEvent) → Decidable (s.WholeWrites e)
  | .write _ _ _ => inferInstanceAs (Decidable (_ ∧ _ ∧ _ ∧ _))
  | .flush _ => inferInstanceAs (Decidable (BinlogWriter.TakesWhole _ _))

/-- `fdht_binlog_read` gets through every file to its end, and returns the records
that have been acknowledged among the others, in the order of the calls. -/
def BinlogWriter.Intact (s : BinlogWriter) : Prop :=
  ∃ rss : List (List BinLogRecord), List.Forall₂ (fun f rs => ReadsBack f rs f.length) s.files rss ∧
    ((acknowledged s.calls).map LogWrite.record).Sublist rss.flatten

/-- The files hold whole records, and with the cache all that are acknowledged. -/
structure BinlogWriter.Keeps (s : BinlogWriter) (fs : List (List LogWrite)) (cur : List LogWrite) :
    Prop where
  holds : s.Holds fs cur
  cache : s.cache = binlogBytes (s.cached.map Prod.fst)
  loggable : ∀ w ∈ fs.flatten ++ cur ++ s.cached.map Prod.fst, w.Loggable
  kept : (acknowledged s.calls).Sublist (fs.flatten ++ cur ++ acknowledged s.cached)

section Failing

variable {s s' : BinlogWriter} {fs : List (List LogWrite)} {cur : List LogWrite}

theorem acknowledged_append (a b : List (LogWrite × Int)) :
    acknowledged (a ++ b) = acknowledged a ++ acknowledged b := by
  unfold acknowledged
  rw [List.filter_append, List.map_append]

theorem acknowledged_sublist (l : List (LogWrite × Int)) :
    (acknowledged l).Sublist (l.map Prod.fst) := List.filter_sublist.map _

theorem BinlogWriter.TakesWhole.taken {io : FlushIo} (hio : s.TakesWhole io)
    (hcache : s.cache = binlogBytes (s.cached.map Prod.fst)) :
    ∃ n, s.cache.take io.taken = binlogBytes ((s.cached.take n).map Prod.fst) ∧
      (acknowledged s.cached).Sublist ((s.cached.take n).map Prod.fst) := by
  rcases hio with hall | ⟨n, -, htaken, hrest⟩
  · refine ⟨s.cached.length, ?_, ?_⟩
    · rw [List.take_of_length_le hall, List.take_length, hcache]
    · rw [List.take_length]
      exact acknowledged_sublist _
  · have hsplit : s.cached.map Prod.fst =
        (s.cached.take n).map Prod.fst ++ (s.cached.drop n).map Prod.fst := by
      rw [← List.map_append, List.take_append_drop]
    refine ⟨n, ?_, ?_⟩
    · rw [htaken, hcache, hsplit, binlogBytes_append, List.take_left]
    · have hnone : acknowledged (s.cached.drop n) = [] := by
        unfold acknowledged
        rw [List.filter_eq_nil_iff.mpr (by simpa using hrest)]
        rfl
      have hack : acknowledged s.cached = acknowledged (s.cached.take n) := by
        rw [← List.append_nil (acknowledged (s.cached.take n)), ← hnone, ← acknowledged_append,
          List.take_append_drop]
      rw [hack]
      exact acknowledged_sublist _

theorem fsync_calls (s : BinlogWriter) (io : FlushIo) :
    (s.fdhtBinlogFsync io).2.calls = s.calls := by
  unfold BinlogWriter.fdhtBinlogFsync BinlogWriter.checkFileSize
  dsimp only
  split_ifs <;> rfl

theorem BinlogWriter.Keeps.flush (h : s.Keeps fs cur) {io : FlushIo} (hio : s.TakesWhole io) :
    ∃ fs' cur', (s.fdhtBinlogFsync io).2.Keeps fs' cur' ∧
      (s.fdhtBinlogFsync io).2.cached = [] := by
  obtain ⟨n, htaken, hacked⟩ := hio.taken h.cache
  obtain ⟨fs', cur', hholds, hflatten, hcache, hcached⟩ := h.holds.flush h.cache htaken
  refine ⟨fs', cur', ⟨hholds, by rw [hcache, hcached]; rfl, ?_, ?_⟩, hcached⟩
  · rw [hcached, hflatten, List.map_nil, List.append_nil]
    intro w hw
    refine h.loggable w ?_
    rcases List.mem_append.mp hw with hw | hw
    · exact List.mem_append_left _ hw
    · obtain ⟨c, hc, rfl⟩ := List.mem_map.mp hw
      exact List.mem_append_right _ (List.mem_map_of_mem (List.mem_of_mem_take hc))
  · rw [fsync_calls, hcached, hflatten]
    refine h.kept.trans ?_
    exact (List.Sublist.append (List.Sublist.refl _) hacked).trans
      (List.sublist_append_left _ _)

theorem BinlogWriter.Keeps.cacheRecord (h : s.Keeps fs cur) {w : LogWrite} (hw : w.Loggable)
    (result : Int) :
    ({ s with
      cache := s.cache ++ fdhtBinlogWrite w
      cached := s.cached ++ [(w, result)]
      calls := s.calls ++ [(w, result)] } : BinlogWriter).Keeps fs cur where
  holds := ⟨h.holds.closed, h.holds.current⟩
  cache := by
    rw [List.map_append, binlogBytes_append, ← h.cache]
    simp [binlogBytes]
  loggable := by
    rw [List.map_append, ← List.append_assoc]
    intro v hv
    rcases List.mem_append.mp hv with hv | hv
    · exact h.loggable v hv
    · rw [List.mem_singleton.mp hv]
      exact hw
  kept := by
    rw [acknowledged_append, acknowledged_append, ← List.append_assoc]
    exact h.kept.append (List.Sublist.refl _)

theorem BinlogWriter.Keeps.direct (h : s.Keeps fs cur) (hcached : s.cached = []) {w : LogWrite}
    (hw : w.Loggable) {io : DirectIo} (hio : io.Complete w ∨ io.header = 0) :
    ∃ fs' cur', ({ (s.fdhtBinlogDirectWrite io w).2 with
      calls := s.calls ++ [(w, (s.fdhtBinlogDirectWrite io w).1)] } : BinlogWriter).Keeps fs' cur' := by
  obtain ⟨fs', cur', hholds, happend, hcache', hcached'⟩ := h.holds.direct hio
  have hkept := h.kept
  have hloggable := h.loggable
  rw [hcached] at hkept hloggable
  refine ⟨fs', cur', ⟨hholds.closed, hholds.current⟩, ?_, ?_, ?_⟩
  · rw [hcache', hcached', h.cache]
  · rw [hcached', hcached, List.map_nil, List.append_nil]
    rw [List.map_nil, List.append_nil] at hloggable
    intro v hv
    rcases happend with happend | ⟨-, happend⟩ <;> rw [happend] at hv
    · rcases List.mem_append.mp hv with hv | hv
      · exact hloggable v hv
      · rw [List.mem_singleton.mp hv]
        exact hw
    · exact hloggable v hv
  · rw [hcached', hcached, acknowledged_append]
    rw [show acknowledged [] = [] from rfl, List.append_nil] at hkept ⊢
    rcases happend with happend | ⟨hne, happend⟩ <;> rw [happend]
    · exact hkept.append (acknowledged_sublist _)
    · have hnone : acknowledged [(w, (s.fdhtBinlogDirectWrite io w).1)] = [] := by
        simp [acknowledged, hne]
      rw [hnone, List.append_nil]
      exact hkept

theorem BinlogWriter.Keeps.step (h : s.Keeps fs cur) {e : WriterEvent} (hok : s.WholeWrites e)
    (hstep : s.step e = some s') : ∃ fs' cur', s'.Keeps fs' cur' := by
  cases e with
  | flush io =>
    obtain rfl := Option.some.inj hstep
    obtain ⟨fs', cur', hkeeps, -⟩ := h.flush hok
    exact ⟨fs', cur', hkeeps⟩
  | write w flush direct =>
    obtain ⟨hw, -, hflush, hdirect⟩ := hok
    obtain ⟨fs₁, cur₁, hflushed, hcached⟩ := h.flush hflush
    have hcalls := fsync_calls s flush
    simp only [BinlogWriter.step, BinlogWriter.binlogWrite] at hstep
    obtain rfl := Option.some.inj hstep
    split
    · split
      · -- the record is long: it goes to the file after the cache
        obtain ⟨fs', cur', hkeeps⟩ := hflushed.direct hcached hw hdirect
        rw [hcalls] at hkeeps
        exact ⟨fs', cur', hkeeps⟩
      · rename_i hne
        refine ⟨fs₁, cur₁, ⟨hflushed.holds.closed, hflushed.holds.current⟩, hflushed.cache,
          hflushed.loggable, ?_⟩
        have hnone : acknowledged [(w, (s.fdhtBinlogFsync flush).1)] = [] := by
          simp [acknowledged, hne]
        rw [acknowledged_append, hnone, List.append_nil, ← hcalls]
        exact hflushed.kept
    · split
      · have hkeeps := hflushed.cacheRecord hw (s.fdhtBinlogFsync flush).1
        rw [hcalls] at hkeeps
        exact ⟨fs₁, cur₁, hkeeps⟩
      · exact ⟨fs, cur, h.cacheRecord hw 0⟩

theorem ReadsBack.whole {ws : List LogWrite} (hws : ∀ w ∈ ws, w.Loggable) :
    ReadsBack (binlogBytes ws) (ws.map LogWrite.record) (binlogBytes ws).length := by
  -- after `n` calls the reader is at the end of the first `n` records
  have hreads : ∀ n, n ≤ ws.length →
      ReadsBack (binlogBytes ws) ((ws.take n).map LogWrite.record) (binlogBytes (ws.take n)).length := by
    intro n hn
    induction n with
    | zero => exact .start
    | succ n ih =>
      obtain ⟨w, rest, hdrop⟩ := List.exists_cons_of_length_pos
        (show 0 < (ws.drop n).length by rw [List.length_drop]; omega)
      have hw : w.Loggable := hws w (List.mem_of_mem_drop (hdrop ▸ List.mem_cons_self))
      have htake : ws.take (n + 1) = ws.take n ++ [w] := by
        rw [List.take_add, hdrop]
        rfl
      have hbytes : (binlogBytes ws).drop (binlogBytes (ws.take n)).length =
          fdhtBinlogWrite w ++ binlogBytes rest := by
        rw [← List.take_append_drop n ws, binlogBytes_append, List.take_append_drop, List.drop_left,
          hdrop]
        rfl
      have hnext := ReadsBack.next (ih (by omega)) (by rw [hbytes]; exact fdhtBinlogRead_write hw _)
      rw [htake, List.map_append, binlogBytes_append, List.length_append]
      rw [hw.readBytes] at hnext
      simpa [binlogBytes] using hnext
  have hall := hreads ws.length le_rfl
  rwa [List.take_length] at hall

theorem BinlogWriter.Keeps.intact (h : s.Keeps fs cur) (hcached : s.cached = []) : s.Intact := by
  have hloggable := h.loggable
  have hkept := h.kept
  rw [hcached, List.map_nil, List.append_nil] at hloggable
  rw [hcached, show acknowledged [] = [] from rfl, List.append_nil] at hkept
  refine ⟨(fs ++ [cur]).map (List.map LogWrite.record), ?_, ?_⟩
  · have hfiles : s.files = (fs ++ [cur]).map binlogBytes := by
      rw [BinlogWriter.files, h.holds.closed, h.holds.current, List.map_append]
      rfl
    rw [hfiles, List.forall₂_map_left_iff, List.forall₂_map_right_iff, List.forall₂_same]
    intro ws hws
    refine .whole fun w hw => hloggable w ?_
    rcases List.mem_append.mp hws with hws | hws
    · exact List.mem_append_left _ (List.mem_flatten_of_mem hws hw)
    · rw [List.mem_singleton.mp hws] at hw
      exact List.mem_append_right _ hw
  · simpa using hkept.map LogWrite.record

end Failing

/-- System calls that succeed, for a cache and records of less than 1000 bytes. -/
def goodFlush : FlushIo := ⟨1000, true, 0, 0⟩

def goodDirect : DirectIo := ⟨1000, 1000, 1, true, 0, 0⟩

/-- A `write` that takes nothing. -/
def failedFlush : FlushIo := ⟨0, true, 0, 5⟩

def WriterEvent.InWidth : WriterEvent → Prop
  | .write w _ _ => w.Fits ∧ 0 ≤ w.len
  | .flush _ => True

def WriterEvent.LengthFits : WriterEvent → Prop
  | .write w _ _ => calcRecordLength w.keyInfo w.len < 2 ^ 31
  | .flush _ => True

structure FlushIo.Succeeds (io : FlushIo) (s : BinlogWriter) : Prop where
  taken : s.cache.length ≤ io.taken
  synced : io.synced = true
  indexResult : io.indexResult = 0

structure DirectIo.Succeeds (io : DirectIo) (w : LogWrite) : Prop extends io.Complete w where
  synced : io.synced = true
  indexResult : io.indexResult = 0

def BinlogWriter.NoError (s : BinlogWriter) : WriterEvent → Prop
  | .write w flush direct => flush.Succeeds s ∧ direct.Succeeds w
  | .flush io => io.Succeeds s

instance : (e : WriterEvent) → Decidable e.InWidth
  | .write _ _ _ => inferInstanceAs (Decidable (_ ∧ _))
  | .flush _ => .isTrue trivial

instance : (e : WriterEvent) → Decidable e.LengthFits
  | .write _ _ _ => inferInstanceAs (Decidable (_ < _))
  | .flush _ => .isTrue trivial

instance (io : FlushIo) (s : BinlogWriter) : Decidable (io.Succeeds s) :=
  decidable_of_iff (s.cache.length ≤ io.taken ∧ io.synced = true ∧ io.indexResult = 0)
    ⟨fun h => ⟨h.1, h.2.1, h.2.2⟩, fun h => ⟨h.1, h.2, h.3⟩⟩

instance (io : DirectIo) (w : LogWrite) : Decidable (io.Succeeds w) :=
  decidable_of_iff (io.Complete w ∧ io.synced = true ∧ io.indexResult = 0)
    ⟨fun h => ⟨h.1, h.2.1, h.2.2⟩, fun h => ⟨h.1, h.2, h.3⟩⟩

instance (s : BinlogWriter) : (e : WriterEvent) → Decidable (s.NoError e)
  | .write _ _ _ => inferInstanceAs (Decidable (_ ∧ _))
  | .flush _ => inferInstanceAs (Decidable (FlushIo.Succeeds _ _))

/-- The files and the cache hold the records of the calls, in their order. -/
structure BinlogWriter.OneLog (s : BinlogWriter) (fs : List (List LogWrite)) (cur : List LogWrite) :
    Prop where
  holds : s.Holds fs cur
  cache : s.cache = binlogBytes (s.cached.map Prod.fst)
  records : fs.flatten ++ cur ++ s.cached.map Prod.fst = s.calls.map Prod.fst
  fileSize : s.fileSize = s.current.length
  cache_le : s.cache.length ≤ binlogBuffSize

section OneLog

variable {s s' : BinlogWriter} {fs : List (List LogWrite)} {cur : List LogWrite}

theorem checkFileSize_fileSize (h : s.fileSize = s.current.length) :
    (s.checkFileSize 0).1 = 0 ∧
      (s.checkFileSize 0).2.fileSize = (s.checkFileSize 0).2.current.length := by
  unfold BinlogWriter.checkFileSize
  split
  · exact ⟨rfl, rfl⟩
  · exact ⟨rfl, h⟩

theorem fsync_fileSize {io : FlushIo} (hio : io.Succeeds s) (h : s.fileSize = s.current.length) :
    (s.fdhtBinlogFsync io).1 = 0 ∧
      (s.fdhtBinlogFsync io).2.fileSize = (s.fdhtBinlogFsync io).2.current.length := by
  unfold BinlogWriter.fdhtBinlogFsync
  split
  · exact ⟨rfl, h⟩
  · rw [if_neg (Nat.not_lt.mpr hio.taken), if_neg (by simp [hio.synced]), hio.indexResult]
    refine checkFileSize_fileSize ?_
    rw [List.take_of_length_le hio.taken, List.length_append, h]
    exact (Int.natCast_add _ _).symm

theorem directWrite_fileSize {io : DirectIo} {w : LogWrite} (hio : io.Succeeds w) (hfits : w.Fits)
    (hlen : 0 ≤ w.len) (hlt : calcRecordLength w.keyInfo w.len < 2 ^ 31)
    (h : s.fileSize = s.current.length) :
    (s.fdhtBinlogDirectWrite io w).1 = 0 ∧ (s.fdhtBinlogDirectWrite io w).2.fileSize =
      (s.fdhtBinlogDirectWrite io w).2.current.length := by
  have hlength := (fdhtBinlogWrite_length w).mpr ⟨hfits, hlen⟩
  have hhead : ((BinlogWriter.recordHead w).length : Int) + w.len + 1 =
      (fdhtBinlogWrite w).length := by
    have hvalue : w.value.length = w.len.toNat := value_length w
    simp only [BinlogWriter.recordHead, fdhtBinlogWrite, List.length_append, List.length_cons,
      List.length_nil]
    omega
  have hcurrent := directWrite_current (s := s) hio.toComplete
  unfold BinlogWriter.fdhtBinlogDirectWrite
  have hvalue := hio.value
  rw [if_neg (Nat.not_lt.mpr hio.header), if_neg (by omega), if_neg (Nat.not_lt.mpr hio.newline),
    if_neg (by simp [hio.synced]), hio.indexResult]
  refine checkFileSize_fileSize ?_
  rw [hcurrent, hhead, List.length_append, h, toInt32_of_range (by omega) (by omega)]
  exact (Int.natCast_add _ _).symm

theorem BinlogWriter.OneLog.flush (h : s.OneLog fs cur) {io : FlushIo} (hio : io.Succeeds s) :
    (s.fdhtBinlogFsync io).1 = 0 ∧ (s.fdhtBinlogFsync io).2.cached = [] ∧
      ∃ fs' cur', (s.fdhtBinlogFsync io).2.OneLog fs' cur' := by
  obtain ⟨hresult, hsize⟩ := fsync_fileSize hio h.fileSize
  have htaken : s.cache.take io.taken =
      binlogBytes ((s.cached.take s.cached.length).map Prod.fst) := by
    rw [List.take_of_length_le hio.taken, List.take_length, h.cache]
  obtain ⟨fs', cur', hholds, hflatten, hcache, hcached⟩ := h.holds.flush h.cache htaken
  refine ⟨hresult, hcached, fs', cur', hholds, by rw [hcache, hcached]; rfl, ?_, hsize,
    by rw [hcache]; exact Nat.zero_le _⟩
  rw [hcached, List.map_nil, List.append_nil, hflatten, List.take_length, fsync_calls]
  exact h.records

theorem BinlogWriter.OneLog.cacheRecord (h : s.OneLog fs cur) {w : LogWrite}
    (hroom : s.cache.length + (fdhtBinlogWrite w).length ≤ binlogBuffSize) (result : Int) :
    ({ s with
      cache := s.cache ++ fdhtBinlogWrite w
      cached := s.cached ++ [(w, result)]
      calls := s.calls ++ [(w, result)] } : BinlogWriter).OneLog fs cur where
  holds := ⟨h.holds.closed, h.holds.current⟩
  cache := by
    rw [List.map_append, binlogBytes_append, ← h.cache]
    simp [binlogBytes]
  records := by
    rw [List.map_append, List.map_append, ← List.append_assoc, h.records]
  fileSize := h.fileSize
  cache_le := by rwa [List.length_append]

theorem BinlogWriter.OneLog.direct (h : s.OneLog fs cur) (hcached : s.cached = []) {w : LogWrite}
    (hfits : w.Fits) (hlen : 0 ≤ w.len) (hlt : calcRecordLength w.keyInfo w.len < 2 ^ 31)
    {io : DirectIo} (hio : io.Succeeds w) :
    ∃ fs' cur', ({ (s.fdhtBinlogDirectWrite io w).2 with
      calls := s.calls ++ [(w, (s.fdhtBinlogDirectWrite io w).1)] } : BinlogWriter).OneLog fs' cur' := by
  obtain ⟨hresult, hsize⟩ := directWrite_fileSize hio hfits hlen hlt h.fileSize
  obtain ⟨fs', cur', hholds, happend, hcache', hcached'⟩ := h.holds.direct (.inl hio.toComplete)
  have hrecords := h.records
  rw [hcached, List.map_nil, List.append_nil] at hrecords
  refine ⟨fs', cur', ⟨hholds.closed, hholds.current⟩, ?_, ?_, hsize, ?_⟩
  · rw [hcache', hcached', h.cache]
  · rw [hcached', hcached, List.map_nil, List.append_nil, List.map_append, ← hrecords]
    rcases happend with happend | ⟨hne, -⟩
    · exact happend
    · exact absurd hresult hne
  · rw [hcache']
    exact h.cache_le

theorem BinlogWriter.OneLog.step (h : s.OneLog fs cur) {e : WriterEvent} (hwidth : e.InWidth)
    (hio : s.NoError e) (hfits : e.LengthFits) (hstep : s.step e = some s') :
    ∃ fs' cur', s'.OneLog fs' cur' := by
  cases e with
  | flush io =>
    obtain rfl := Option.some.inj hstep
    exact (h.flush hio).2.2
  | write w flush direct =>
    obtain ⟨hfield, hlen⟩ := hwidth
    have hlt : calcRecordLength w.keyInfo w.len < 2 ^ 31 := hfits
    have hlength := (fdhtBinlogWrite_length w).mpr ⟨hfield, hlen⟩
    obtain ⟨hresult, hcached, fs₁, cur₁, hflushed⟩ := h.flush hio.1
    have hcalls := fsync_calls s flush
    simp only [BinlogWriter.step, BinlogWriter.binlogWrite] at hstep
    obtain rfl := Option.some.inj hstep
    rw [toInt32_of_range (by omega) hlt, if_pos hresult]
    split
    · obtain ⟨fs', cur', hlog⟩ := hflushed.direct hcached hfield hlen hlt hio.2
      rw [hcalls] at hlog
      exact ⟨fs', cur', hlog⟩
    · split
      · -- the cache is full and has been flushed
        have hcache : (s.fdhtBinlogFsync flush).2.cache = [] := by
          rw [hflushed.cache, hcached]
          rfl
        have hlog := hflushed.cacheRecord (w := w) (by
          rw [hcache, List.length_nil]
          omega) (s.fdhtBinlogFsync flush).1
        rw [hcalls] at hlog
        exact ⟨fs₁, cur₁, hlog⟩
      · exact ⟨fs, cur, h.cacheRecord (by omega) 0⟩

end OneLog

/-- **The files followed by the cache are the records in the order of the calls; a
file ends after a whole record; `g_binlog_file_size` is the length of the current
file, and the cache is not overrun**, as long as the lengths of the records are
`int`s. -/
theorem binlog_is_one_log {s : BinlogWriter}
    (hrun : Runs BinlogWriter.step (fun s e => e.InWidth ∧ s.NoError e ∧ e.LengthFits) .empty s) :
    s.files.flatten ++ s.cache = binlogBytes (s.calls.map Prod.fst) ∧
      (∀ i ≤ s.closed.length, ∃ n,
        (s.closed.take i).flatten = binlogBytes ((s.calls.map Prod.fst).take n)) ∧
      s.fileSize = s.current.length ∧ s.cache.length ≤ binlogBuffSize := by
  have hlog : ∃ fs cur, s.OneLog fs cur := by
    refine hrun.invariant (I := fun s => ∃ fs cur, s.OneLog fs cur) ?_ ?_
    · exact ⟨[], [], ⟨rfl, rfl⟩, rfl, rfl, rfl, Nat.zero_le _⟩
    · rintro s e s' ⟨fs, cur, h⟩ hok hstep
      exact h.step hok.1 hok.2.1 hok.2.2 hstep
  obtain ⟨fs, cur, h⟩ := hlog
  refine ⟨?_, ?_, h.fileSize, h.cache_le⟩
  · rw [BinlogWriter.files, List.flatten_append, h.holds.closed, h.holds.current, flatten_binlogBytes,
      h.cache, ← h.records, binlogBytes_append, binlogBytes_append]
    simp
  · intro i hi
    refine ⟨(fs.take i).flatten.length, ?_⟩
    have hsplit : s.calls.map Prod.fst =
        (fs.take i).flatten ++ ((fs.drop i).flatten ++ cur ++ s.cached.map Prod.fst) := by
      have htake : fs.flatten = (fs.take i).flatten ++ (fs.drop i).flatten := by
        rw [← List.flatten_append, List.take_append_drop]
      rw [← h.records, htake]
      simp only [List.append_assoc]
    rw [h.holds.closed, ← List.map_take, flatten_binlogBytes, hsplit, List.take_left]

/-- One record is in the file and one in the cache. -/
theorem binlog_is_one_log_two : ∃ s : BinlogWriter,
    s.files.flatten ++ s.cache = binlogBytes [firstWrite, lastWrite] ∧ s.cache ≠ [] ∧
      s.fileSize = s.current.length := by
  have hexec : (exec BinlogWriter.step (fun s e => e.InWidth ∧ s.NoError e ∧ e.LengthFits)
      [.write firstWrite goodFlush goodDirect, .flush goodFlush,
        .write lastWrite goodFlush goodDirect] .empty).map (fun s => decide
          (s.calls.map Prod.fst = [firstWrite, lastWrite] ∧ s.cache ≠ [])) = some true := by
    decide +kernel
  obtain ⟨s, hrun, heq⟩ := Option.map_eq_some_iff.mp hexec
  obtain ⟨hcalls, hcache⟩ := of_decide_eq_true heq
  obtain ⟨hlog, -, hsize, -⟩ := binlog_is_one_log (Runs.of_exec hrun)
  rw [hcalls] at hlog
  exact ⟨s, hlog, hcache, hsize⟩

def longestWrite : LogWrite := { firstWrite with valueLen := 2 ^ 31 - 1 }

/-- The length of the record does not fit an `int` and turns negative, so the record
is taken for a short one and copied over the end of the cache. -/
theorem longest_record_overruns_cache :
    ∃ s, Runs BinlogWriter.step (fun s e => e.InWidth ∧ s.NoError e) .empty s ∧
      binlogBuffSize < s.cache.length := by
  have hvalue : longestWrite.value.length = 2 ^ 31 - 1 := by
    rw [value_length]
    decide
  have hdirect : ({ goodDirect with value := 2 ^ 31 } : DirectIo).Succeeds longestWrite := by
    refine ⟨⟨by decide, ?_, by decide⟩, rfl, rfl⟩
    rw [hvalue]
    decide
  refine ⟨_, .single ⟨.write longestWrite goodFlush { goodDirect with value := 2 ^ 31 },
    ⟨⟨by decide, by decide⟩, ⟨by decide, rfl, rfl⟩, hdirect⟩, rfl⟩, ?_⟩
  have hlength : longestWrite.value.length ≤ (fdhtBinlogWrite longestWrite).length := by
    simp only [fdhtBinlogWrite, List.length_append]
    omega
  rw [hvalue] at hlength
  exact lt_of_lt_of_le (by decide) hlength

end FastDht
