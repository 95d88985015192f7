import FastDht.Server.Store
import FastDht.Server.Binlog

/-! # The state of a server

The configuration and clock a request is handled under, and what a request can
change: the store, the binlog and the state of the join of a new server. -/
namespace FastDht

/-- The globals the handlers read. -/
structure Globals where
  groupCount : Nat
  /-- `g_db_list[i] != NULL`, for the `g_db_count` groups. -/
  dbList : List Bool
  writeToBinlogFlag : Bool
  storeSubKeys : Bool
  currentTime : Int
  deriving DecidableEq, Repr

/-- The same configuration at another time. -/
def Globals.at (g : Globals) (now : Int) : Globals := { g with currentTime := now }

/-- A member of this server's group as `deal_cmd_sync_req` knows it. -/
structure FDHTGroupServer where
  ipAddr : Bytes
  port : Int
  syncOldDone : Bool
  syncReqCount : Nat
  updateCount : Int
  deriving DecidableEq, Repr

/-- What `deal_cmd_sync_req` and `deal_cmd_sync_done` read and write. -/
structure SyncState where
  groupServers : List FDHTGroupServer
  localIpAddrs : List Bytes
  syncOldDone : Bool
  syncSrcIpAddr : Bytes
  syncSrcPort : Int
  syncUntilTimestamp : Int
  syncDoneTimestamp : Int
  firstSyncReqTime : Int
  deriving DecidableEq, Repr, Inhabited

structure Server (σ : Type) where
  store : σ
  /-- The calls of `fdht_binlog_write`, in order. -/
  binlog : List LogWrite
  sync : SyncState

/-- A call of `fdht_binlog_write` under `g_write_to_binlog_flag`. -/
def Server.binlogWrite {σ : Type} (s : Server σ) (g : Globals) (w : LogWrite) : Server σ :=
  if g.writeToBinlogFlag then { s with binlog := s.binlog ++ [w] } else s

/-- The server after a store call with this result: a call that succeeded is
logged. -/
def Server.logged {σ : Type} (s : Server σ) (g : Globals) (r : Int × σ) (w : LogWrite) : Server σ :=
  if r.1 ≠ 0 then { s with store := r.2 } else { s with store := r.2 }.binlogWrite g w

@[simp] theorem Server.logged_store {σ : Type} (s : Server σ) (g : Globals) (r : Int × σ)
    (w : LogWrite) : (s.logged g r w).store = r.2 := by
  unfold Server.logged Server.binlogWrite
  split_ifs <;> rfl

theorem logged_binlog {σ : Type} (s : Server σ) (g : Globals) (r : Int × σ) (w : LogWrite) :
    (s.logged g r w).binlog =
      if r.1 = 0 ∧ g.writeToBinlogFlag = true then s.binlog ++ [w] else s.binlog := by
  unfold Server.logged Server.binlogWrite
  by_cases h0 : r.1 = 0
  · by_cases hf : g.writeToBinlogFlag = true <;> simp [h0, hf]
  · simp [h0]

/-- The bytes of the binlog files, one after the other. -/
def binlogBytes (log : List LogWrite) : Bytes := log.flatMap fdhtBinlogWrite

theorem binlogBytes_eq_nil {ws : List LogWrite} (h : binlogBytes ws = []) : ws = [] := by
  rcases ws with _ | ⟨w, ws⟩
  · rfl
  · simp [binlogBytes, fdhtBinlogWrite] at h

end FastDht
