import FastDht.Server.SyncReq

/-! # The text of STAT

`deal_cmd_stat` prints line after line into the buffer of the task, without asking
how much room there is. Every number it prints comes from a variable of fixed width,
so the text has a greatest length. -/
namespace FastDht
open Lib

/-- What one conversion of a format prints, and the text before it; the conversion
prints at most `cap` bytes. -/
structure StatPiece where
  label : String
  value : Bytes
  cap : Nat
  value_le : value.length ≤ cap

/-- `%d` of an `int`. -/
def StatPiece.int (label : String) (n : BitVec 32) : StatPiece where
  label := label
  value := formatInt n.toInt
  cap := 11
  value_le := by
    have hlt := BitVec.toInt_lt (x := n)
    have hle := BitVec.le_toInt n
    exact (formatInt_length_le (by decide)).mpr ⟨by omega, by omega⟩

/-- `INT64_PRINTF_FORMAT`, which prints the unsigned counters as signed numbers. -/
def StatPiece.int64 (label : String) (n : BitVec 64) : StatPiece where
  label := label
  value := formatInt n.toInt
  cap := 20
  value_le := by
    have hlt := BitVec.toInt_lt (x := n)
    have hle := BitVec.le_toInt n
    exact (formatInt_length_le (by decide)).mpr ⟨by omega, by omega⟩

/-- `%02d`. -/
def StatPiece.int02 (label : String) (n : BitVec 32) : StatPiece where
  label := label
  value := if (formatInt n.toInt).length < 2 then 48 :: formatInt n.toInt else formatInt n.toInt
  cap := 11
  value_le := by
    have hle := (StatPiece.int label n).value_le
    dsimp only [StatPiece.int] at hle
    split
    · rw [List.length_cons]
      omega
    · exact hle

/-- The text of a `double`. -/
structure PrintedDouble (cap : Nat) where
  text : Bytes
  text_le : text.length ≤ cap

def StatPiece.double (label : String) {cap : Nat} (x : PrintedDouble cap) : StatPiece :=
  ⟨label, x.text, cap, x.text_le⟩

def StatPiece.text (p : StatPiece) : Bytes := asciiBytes p.label ++ p.value

/-- What is printed of the memory pool. A percentage is at most 100 times the largest
64-bit number, and an average length is at most the largest `int`; `%.2f` and `%.4f`
print them with a sign, at most 21 or 10 digits, and the decimals. -/
structure PoolStat where
  itemCount : BitVec 32
  capacity : BitVec 32
  bytesUsed : BitVec 64
  usedPercent : PrintedDouble 25
  maxBytes : BitVec 64
  bytesFree : BitVec 64
  freePercent : PrintedDouble 25
  bucketUsed : BitVec 32
  bucketMaxLength : BitVec 32
  bucketAvgLength : PrintedDouble 16

/-- What `deal_cmd_stat` prints. -/
structure ServerStat where
  localIp : Bytes
  localIp_le : localIp.length < ipAddressSize
  serverPort : BitVec 32
  major : BitVec 32
  minor : BitVec 32
  uptime : BitVec 32
  currTime : BitVec 32
  maxConnections : BitVec 32
  currConnections : BitVec 32
  totalSetCount : BitVec 64
  successSetCount : BitVec 64
  totalIncCount : BitVec 64
  successIncCount : BitVec 64
  totalDeleteCount : BitVec 64
  successDeleteCount : BitVec 64
  totalGetCount : BitVec 64
  successGetCount : BitVec 64
  pool : Option PoolStat

def PoolStat.pieces (p : PoolStat) : List StatPiece := [
  .int "\ntotal_items=" p.itemCount,
  .int "\nbucket count=" p.capacity,
  .int64 "\nused_bytes=" p.bytesUsed,
  .double " (" p.usedPercent,
  .int64 "%)\nmax bytes=" p.maxBytes,
  .int64 " (100.00%)\nfree bytes=" p.bytesFree,
  .double " (" p.freePercent,
  .int "%)\nbucket_used=" p.bucketUsed,
  .int "\nbucket_max_length=" p.bucketMaxLength,
  .double "\nbucket_avg_length=" p.bucketAvgLength]

def ServerStat.pieces (st : ServerStat) : List StatPiece := [
  ⟨"server=", st.localIp, 15, Nat.le_of_lt_succ st.localIp_le⟩,
  .int ":" st.serverPort,
  .int "\nversion=" st.major,
  .int02 "." st.minor,
  .int "\nuptime=" st.uptime,
  .int "\ncurr_time=" st.currTime,
  .int "\nmax_connections=" st.maxConnections,
  .int "\ncurr_connections=" st.currConnections,
  .int64 "\ntotal_set_count=" st.totalSetCount,
  .int64 "\nsuccess_set_count=" st.successSetCount,
  .int64 "\ntotal_inc_count=" st.totalIncCount,
  .int64 "\nsuccess_inc_count=" st.successIncCount,
  .int64 "\ntotal_delete_count=" st.totalDeleteCount,
  .int64 "\nsuccess_delete_count=" st.successDeleteCount,
  .int64 "\ntotal_get_count=" st.totalGetCount,
  .int64 "\nsuccess_get_count=" st.successGetCount] ++ (st.pool.map PoolStat.pieces).getD []

def ServerStat.text (st : ServerStat) : Bytes := st.pieces.flatMap StatPiece.text ++ [10]

theorem statPieces_length_le (ps : List StatPiece) : (ps.flatMap StatPiece.text).length ≤
    (ps.map fun p => p.label.toList.length + p.cap).sum := by
  induction ps with
  | nil => exact Nat.le_refl 0
  | cons p ps ih =>
    have hle := p.value_le
    rw [List.flatMap_cons, List.length_append, List.map_cons, List.sum_cons, StatPiece.text,
      asciiBytes, List.length_append, List.length_map]
    omega

theorem ServerStat.text_length_lt (st : ServerStat) : sizeofHeader + st.text.length + 1 ≤ 1024 := by
  have hcaps : (st.pieces.map fun p => p.label.toList.length + p.cap).sum ≤ 800 := by
    unfold ServerStat.pieces
    cases st.pool with
    | none =>
      simp only [Option.map_none, Option.getD_none, List.append_nil, List.map_cons, List.map_nil,
        StatPiece.int, StatPiece.int02, StatPiece.int64]
      decide +kernel
    | some p =>
      simp only [Option.map_some, Option.getD_some, PoolStat.pieces, List.cons_append,
        List.nil_append, List.map_cons, List.map_nil, StatPiece.int, StatPiece.int02,
        StatPiece.int64, StatPiece.double]
      decide +kernel
  have hle := statPieces_length_le st.pieces
  rw [ServerStat.text, List.length_append, List.length_singleton]
  unfold sizeofHeader
  omega

end FastDht
