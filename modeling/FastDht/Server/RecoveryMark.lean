import FastDht.Server.BinlogWriter
import FastDht.Server.RecoverySoundness

/-! # Recovery from a mark, server/db_recovery.c

Pages of the database reach the disk on their own, so after a crash every key is
in a state that it has had at the mark or later. fdht_recover_data reads the
binlog files from the mark on, one after the other, and applies the records
again. -/
namespace FastDht
open Lib

/-! ## Reading from file to file -/

/-- The reader of the recovery. It does not count what it has read: `offset` is
that of the mark, or 0 in a later file, and `pos` the place in the open file. -/
structure RecoveryReader where
  index : Nat
  offset : Nat
  pos : Nat
  deriving DecidableEq, Repr

/-- The loop of `fdht_binlog_read` that goes on to the next file at the end of one;
there is one round for every file that is left. -/
def RecoveryReader.readLoop (files : List Bytes) :
    Nat → RecoveryReader → Except Int (BinLogRecord × RecoveryReader)
  | 0, _ => .error ENOENT
  | n + 1, r =>
    let rest := (files.getD r.index []).drop r.pos
    if rest = [] then
      if r.index + 1 < files.length then readLoop files n ⟨r.index + 1, 0, 0⟩
      else .error ENOENT
    else (fdhtBinlogRead rest).map fun x => (x.1, { r with pos := r.pos + x.1.readBytes })

/-- `fdht_binlog_read` on all files; the last one is the current. -/
def RecoveryReader.read (files : List Bytes) (r : RecoveryReader) :
    Except Int (BinLogRecord × RecoveryReader) :=
  if r.index + 1 = files.length ∧ r.offset = (files.getD r.index []).length then .error ENOENT
  else r.readLoop files files.length

/-- The loop of `fdht_recover_data`. A record takes at least one byte, so there are
fewer rounds than bytes. -/
def recoverFromLoop (g : Globals) (files : List Bytes) : Nat → RecoveryReader → Bdb → Int × Bdb
  | 0, _, db => (0, db)
  | n + 1, r, db =>
    match r.read files with
    | .error result => (result, db)
    | .ok (record, r') =>
      let x := recoverRecord g record db
      if x.1 ≠ 0 ∧ x.1 ≠ ENOENT then x else recoverFromLoop g files n r' x.2

/-- `fdht_recover_data` from a file and an offset. -/
def fdhtRecoverDataFrom (g : Globals) (files : List Bytes) (index offset : Nat) (db : Bdb) :
    Int × Bdb :=
  let r := recoverFromLoop g files (files.flatten.length + 1) ⟨index, offset, offset⟩ db
  (if r.1 ≠ ENOENT then r.1 else 0, r.2)

/-- The reader has the records `ws` before it in its file and the files of `later`
behind that. -/
structure RecoveryReader.Before (files : List Bytes) (r : RecoveryReader) (ws : List LogWrite)
    (later : List (List LogWrite)) : Prop where
  index : r.index < files.length
  rest : (files.getD r.index []).drop r.pos = binlogBytes ws
  files : files.drop (r.index + 1) = later.map binlogBytes
  offset : r.offset ≤ r.pos

/-- A record of the log: its fields are within their widths, it has a key, and it is
of a group of the server. -/
structure LogWrite.Recorded (g : Globals) (w : LogWrite) : Prop where
  fits : w.Fits
  len_nonneg : 0 ≤ w.len
  key_ne : w.keyInfo.szKey ≠ []
  owned : g.ownsGroup (g.groupOf w.keyHashCode) = true

/-- What a call of the reader returns when `left` is what is left of the log. -/
inductive RecoveryReader.Returns (files : List Bytes) (left : List LogWrite) :
    Except Int (BinLogRecord × RecoveryReader) → Prop
  | atEnd (hleft : left = []) : Returns files left (.error ENOENT)
  | untimed (w : LogWrite) (hw : w ∈ left) (htime : toInt32 w.timestamp = 0) :
    Returns files left (.error EINVAL)
  | next (w : LogWrite) (r : RecoveryReader) (ws : List LogWrite) (later : List (List LogWrite))
    (hleft : left = w :: (ws ++ later.flatten)) (htime : toInt32 w.timestamp ≠ 0)
    (hbefore : r.Before files ws later) : Returns files left (.ok (w.record, r))

section Read

variable {g : Globals} {files : List Bytes} {r : RecoveryReader} {ws : List LogWrite}
  {later : List (List LogWrite)}

theorem RecoveryReader.Before.rotate {next : List LogWrite}
    (h : r.Before files ws (next :: later)) :
    RecoveryReader.Before files ⟨r.index + 1, 0, 0⟩ next later ∧ r.index + 1 < files.length := by
  have hfiles := h.files
  have hlt : r.index + 1 < files.length := by
    by_contra hge
    rw [List.drop_eq_nil_of_le (by omega)] at hfiles
    cases hfiles
  rw [List.drop_eq_getElem_cons hlt, List.map_cons] at hfiles
  obtain ⟨hnext, hlater⟩ := List.cons.inj hfiles
  refine ⟨⟨hlt, ?_, hlater, le_rfl⟩, hlt⟩
  rw [List.drop_zero, List.getD_eq_getElem _ _ hlt, hnext]

theorem RecoveryReader.Before.readLoop (h : r.Before files ws later)
    (hall : ∀ w ∈ ws ++ later.flatten, w.Recorded g) {n : Nat} (hn : later.length < n) :
    Returns files (ws ++ later.flatten) (r.readLoop files n) := by
  induction n generalizing r ws later with
  | zero => omega
  | succ n ih =>
    unfold RecoveryReader.readLoop
    rcases ws with _ | ⟨w, ws⟩
    · have hend : (files.getD r.index []).drop r.pos = [] := h.rest
      rw [if_pos hend]
      rcases later with _ | ⟨next, later⟩
      · have hnil := h.files
        rw [List.map_nil, List.drop_eq_nil_iff] at hnil
        rw [if_neg (by omega)]
        exact .atEnd rfl
      · obtain ⟨hnext, hlt⟩ := h.rotate
        rw [if_pos hlt]
        have hread := ih hnext hall (by rw [List.length_cons] at hn; omega)
        exact hread
    · have hbytes : (files.getD r.index []).drop r.pos = fdhtBinlogWrite w ++ binlogBytes ws := h.rest
      have hne : (files.getD r.index []).drop r.pos ≠ [] := by
        rw [hbytes]
        simp [fdhtBinlogWrite]
      rw [if_neg hne, hbytes]
      obtain ⟨hfits, hlen, hkey, -⟩ := hall w (by simp)
      by_cases htime : toInt32 w.timestamp = 0
      · rw [fdhtBinlogRead_write_of_fits hfits hlen, if_pos (.inl htime)]
        exact .untimed w (by simp) htime
      · have hlog : w.Loggable := ⟨hfits, htime, hkey, hlen⟩
        rw [fdhtBinlogRead_write hlog]
        refine .next w _ ws later rfl htime ⟨h.index, ?_, h.files, ?_⟩
        · rw [← List.drop_drop, hbytes, hlog.readBytes, List.drop_left]
        · exact h.offset.trans (Nat.le_add_right _ _)

theorem RecoveryReader.Before.read (h : r.Before files ws later)
    (hall : ∀ w ∈ ws ++ later.flatten, w.Recorded g) :
    Returns files (ws ++ later.flatten) (r.read files) := by
  unfold RecoveryReader.read
  have hindex := h.index
  have hfiles := h.files
  split
  · -- the reader has been started at the end
    have hrest := h.rest
    have hoffset := h.offset
    rw [List.drop_eq_nil_of_le (by omega)] at hrest
    rw [List.drop_eq_nil_of_le (by omega)] at hfiles
    rw [binlogBytes_eq_nil hrest.symm, List.map_eq_nil_iff.mp hfiles.symm]
    exact .atEnd rfl
  · have hlength := congrArg List.length hfiles
    rw [List.length_drop, List.length_map] at hlength
    exact h.readLoop hall (by omega)

end Read

/-! ## Replaying the rest of the log -/

section Replay

variable {g : Globals} {files : List Bytes}

theorem recoverFromLoop_log {n : Nat} {r : RecoveryReader} {ws : List LogWrite}
    {later : List (List LogWrite)} {db : Bdb} (h : r.Before files ws later)
    (hall : ∀ w ∈ ws ++ later.flatten, w.Recorded g)
    (htimes : ∀ w ∈ ws ++ later.flatten, toInt32 w.timestamp ≠ 0) (hq : db.Quiet)
    (hn : (ws ++ later.flatten).length < n) :
    (recoverFromLoop g files n r db).1 = ENOENT ∧
      (recoverFromLoop g files n r db).2.data = replayLog g (ws ++ later.flatten) db.data := by
  induction n generalizing r ws later db with
  | zero => omega
  | succ n ih =>
    have hread := h.read hall
    unfold recoverFromLoop
    generalize r.read files = x at hread ⊢
    cases hread with
    | atEnd hleft =>
      rw [hleft]
      exact ⟨rfl, rfl⟩
    | untimed w hw htime => exact absurd htime (htimes w hw)
    | next w r' ws' later' hleft _ hbefore =>
      rw [hleft] at hall htimes hn ⊢
      obtain ⟨hstop, hq', hdata⟩ := recoverRecord_record (hall w List.mem_cons_self).owned hq
      obtain ⟨hcode', hdata'⟩ := ih hbefore (fun v hv => hall v (List.mem_cons_of_mem _ hv))
        (fun v hv => htimes v (List.mem_cons_of_mem _ hv)) hq'
        (by rw [List.length_cons] at hn; omega)
      dsimp only
      rw [if_neg hstop]
      refine ⟨hcode', hdata'.trans ?_⟩
      rw [hdata]
      rfl

theorem recoverFromLoop_untimed {n : Nat} {r : RecoveryReader} {ws : List LogWrite}
    {later : List (List LogWrite)} {db : Bdb} (h : r.Before files ws later)
    (hall : ∀ w ∈ ws ++ later.flatten, w.Recorded g)
    (huntimed : ∃ w ∈ ws ++ later.flatten, toInt32 w.timestamp = 0) (hq : db.Quiet)
    (hn : (ws ++ later.flatten).length < n) : (recoverFromLoop g files n r db).1 = EINVAL := by
  induction n generalizing r ws later db with
  | zero => omega
  | succ n ih =>
    have hread := h.read hall
    unfold recoverFromLoop
    generalize r.read files = x at hread ⊢
    cases hread with
    | atEnd hleft =>
      obtain ⟨w, hw, -⟩ := huntimed
      rw [hleft] at hw
      cases hw
    | untimed w hw htime => rfl
    | next w r' ws' later' hleft htime hbefore =>
      rw [hleft] at hall huntimed hn
      obtain ⟨hstop, hq', -⟩ := recoverRecord_record (hall w List.mem_cons_self).owned hq
      obtain ⟨v, hv, hzero⟩ := huntimed
      have hlater : v ∈ ws' ++ later'.flatten := by
        rcases List.mem_cons.mp hv with rfl | hv
        · exact absurd hzero htime
        · exact hv
      dsimp only
      rw [if_neg hstop]
      exact ih hbefore (fun v hv => hall v (List.mem_cons_of_mem _ hv)) ⟨v, hlater, hzero⟩ hq'
        (by rw [List.length_cons] at hn; omega)

end Replay

/-! ## The mark -/

/-- Every key is in the state that it has after the first `n` records or after some
later ones. -/
def PersistedFrom (g : Globals) (log : List LogWrite) (n : Nat)
    (data : Nat × Bytes → Option Bytes) : Prop :=
  ∀ k, ∃ p, n ≤ p ∧ data k = replayLog g (log.take p) (fun _ => none) k

/-- The place of a record in a list of files: its number of records before it. -/
def markedRecords (fs : List (List LogWrite)) (i n : Nat) : Nat := (fs.take i).flatten.length + n

section Mark

variable {g : Globals} {fs : List (List LogWrite)} {i n : Nat}

theorem binlogBytes_length_le (log : List LogWrite) : log.length ≤ (binlogBytes log).length := by
  induction log with
  | nil => exact le_rfl
  | cons w log ih =>
    have hpos : 0 < (fdhtBinlogWrite w).length := by simp [fdhtBinlogWrite]
    rw [show binlogBytes (w :: log) = fdhtBinlogWrite w ++ binlogBytes log from rfl,
      List.length_append, List.length_cons]
    omega

theorem markedRecords_drop (hi : i < fs.length) (hn : n ≤ (fs.getD i []).length) :
    fs.flatten.drop (markedRecords fs i n) =
      (fs.getD i []).drop n ++ (fs.drop (i + 1)).flatten := flatten_drop hi hn

theorem getD_binlogBytes (hi : i < fs.length) :
    (fs.map binlogBytes).getD i [] = binlogBytes (fs.getD i []) := by
  rw [List.getD_eq_getElem _ _ (by rwa [List.length_map]), List.getElem_map,
    List.getD_eq_getElem _ _ hi]

theorem RecoveryReader.Before.mark (hi : i < fs.length) :
    RecoveryReader.Before (fs.map binlogBytes) ⟨i, (binlogBytes ((fs.getD i []).take n)).length,
      (binlogBytes ((fs.getD i []).take n)).length⟩ ((fs.getD i []).drop n) (fs.drop (i + 1)) where
  index := by rwa [List.length_map]
  rest := by
    have hsplit : binlogBytes (fs.getD i []) =
        binlogBytes ((fs.getD i []).take n) ++ binlogBytes ((fs.getD i []).drop n) := by
      rw [← binlogBytes_append, List.take_append_drop]
    rw [getD_binlogBytes hi, hsplit, List.drop_left]
  files := by rw [List.map_drop]
  offset := le_rfl

/-- **The recovery from a record boundary succeeds and leaves every key as the whole
log does, from every store that it may find, exactly if every record after the mark
has a time.** -/
theorem recovery_from_mark_iff (hi : i < fs.length) (hn : n ≤ (fs.getD i []).length)
    (hall : ∀ w ∈ fs.flatten, w.Recorded g) :
    (∀ db : Bdb, db.Quiet → PersistedFrom g fs.flatten (markedRecords fs i n) db.data →
      (fdhtRecoverDataFrom g (fs.map binlogBytes) i
        (binlogBytes ((fs.getD i []).take n)).length db).1 = 0 ∧
      (fdhtRecoverDataFrom g (fs.map binlogBytes) i
        (binlogBytes ((fs.getD i []).take n)).length db).2.data =
          replayLog g fs.flatten fun _ => none) ↔
    ∀ w ∈ fs.flatten.drop (markedRecords fs i n), toInt32 w.timestamp ≠ 0 := by
  have hbefore := RecoveryReader.Before.mark (n := n) hi
  have hdrop := markedRecords_drop hi hn
  have hleft : ∀ w ∈ (fs.getD i []).drop n ++ (fs.drop (i + 1)).flatten, w.Recorded g := by
    intro w hw
    rw [← hdrop] at hw
    exact hall w (List.mem_of_mem_drop hw)
  have hfuel : ((fs.getD i []).drop n ++ (fs.drop (i + 1)).flatten).length <
      (fs.map binlogBytes).flatten.length + 1 := by
    rw [← hdrop, flatten_binlogBytes]
    have hlength := binlogBytes_length_le fs.flatten
    rw [List.length_drop]
    omega
  rw [hdrop]
  constructor
  · intro h w hw htime
    -- a store in which every key is up to date
    have hq : ({ emptyBdb with data := replayLog g fs.flatten fun _ => none } : Bdb).Quiet :=
      fun _ => ⟨rfl, rfl⟩
    have hpersisted : PersistedFrom g fs.flatten (markedRecords fs i n)
        (replayLog g fs.flatten fun _ => none) := by
      intro k
      refine ⟨max (markedRecords fs i n) fs.flatten.length, le_max_left _ _, ?_⟩
      rw [List.take_of_length_le (le_max_right _ _)]
    obtain ⟨h0, -⟩ := h _ hq hpersisted
    have hcode := recoverFromLoop_untimed hbefore hleft ⟨w, hw, htime⟩ hq hfuel
    unfold fdhtRecoverDataFrom at h0
    dsimp only at h0
    rw [hcode] at h0
    exact absurd h0 (by decide)
  · intro htimes db hq hpersisted
    obtain ⟨hcode, hdata⟩ := recoverFromLoop_log hbefore hleft htimes hq hfuel
    unfold fdhtRecoverDataFrom
    dsimp only
    rw [hcode]
    refine ⟨rfl, hdata.trans ?_⟩
    rw [← hdrop, replayLog, replayLog, List.map_drop]
    refine replay_resume fun k => ?_
    obtain ⟨p, hp, hk⟩ := hpersisted k
    exact ⟨p, hp, by rw [hk, replayLog, List.map_take]⟩

end Mark

theorem firstWrite_recorded : firstWrite.Recorded oneGroup :=
  ⟨by decide, by decide, by decide, by decide⟩

theorem lastWrite_recorded : lastWrite.Recorded oneGroup :=
  ⟨by decide, by decide, by decide, by decide⟩

/-- A key is set in one file and deleted in the next; the store has none of it. -/
theorem recovery_from_mark_rotated :
    (fdhtRecoverDataFrom oneGroup ([[firstWrite], [lastWrite]].map binlogBytes) 0 0 emptyBdb).1 = 0 ∧
      (fdhtRecoverDataFrom oneGroup ([[firstWrite], [lastWrite]].map binlogBytes) 0 0
        emptyBdb).2.data = replayLog oneGroup [firstWrite, lastWrite] fun _ => none := by
  have hall : ∀ w ∈ [[firstWrite], [lastWrite]].flatten, w.Recorded oneGroup := by
    intro w hw
    simp only [List.flatten_cons, List.flatten_nil, List.cons_append, List.nil_append,
      List.append_nil, List.mem_cons, List.not_mem_nil, or_false] at hw
    rcases hw with rfl | rfl
    · exact firstWrite_recorded
    · exact lastWrite_recorded
  have hrecovered := (recovery_from_mark_iff (i := 0) (n := 0) (by decide) (by decide) hall).mpr
    (by decide) emptyBdb emptyBdb_quiet fun k => ⟨0, le_rfl, rfl⟩
  have hoffset : (binlogBytes (([[firstWrite], [lastWrite]].getD 0 []).take 0)).length = 0 := rfl
  have hlog : [[firstWrite], [lastWrite]].flatten = [firstWrite, lastWrite] := rfl
  rw [hoffset, hlog] at hrecovered
  exact hrecovered

/-- The record of a SYNC_SET whose timestamp is 0. -/
def untimedWrite : LogWrite := { firstWrite with timestamp := 0, opType := .replicaSet }

/-- The reader refuses a record whose time is 0, and the recovery fails. -/
theorem recovery_stops_at_untimed_record :
    (∀ w ∈ [[untimedWrite]].flatten, w.Recorded oneGroup) ∧
      PersistedFrom oneGroup [untimedWrite] 0 emptyBdb.data ∧
      (fdhtRecoverDataFrom oneGroup ([[untimedWrite]].map binlogBytes) 0 0 emptyBdb).1 = EINVAL := by
  refine ⟨?_, fun k => ⟨0, le_rfl, rfl⟩, by decide +kernel⟩
  intro w hw
  obtain rfl : w = untimedWrite := by simpa using hw
  exact ⟨by decide, by decide, by decide, by decide⟩

end FastDht
