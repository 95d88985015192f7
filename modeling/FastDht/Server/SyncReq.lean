import FastDht.Server.Task
import FastDht.Lib.CString

/-! # How a new server picks the source of its old data

The handlers of SYNC_REQ and SYNC_NOTIFY in server/work_thread.c. They read and
write `SyncState` only; what write_to_sync_ini_file returns comes from
outside. -/
namespace FastDht
open Lib

def ipAddressSize : Nat := 16

def syncReqWaitSeconds : Int := 60

def buff2long (buff : Bytes) : Int := toInt64 ((buff.take 8).foldl (fun n b => 256 * n + b.toNat) 0)

def groupCmpByIpAndPort (a b : FDHTGroupServer) : Ordering :=
  match strcmp a.ipAddr b.ipAddr with
  | .eq => compare a.port b.port
  | res => res

def SyncState.isLocalHostIp (s : SyncState) (ip : Bytes) : Bool :=
  s.localIpAddrs.any fun p => strcmp ip p = .eq

def packSyncReqBody (t : FastTaskInfo) (s : SyncState) : FastTaskInfo :=
  let t := { t with length := sizeofHeader + 1 + ipAddressSize + 8 }
  let t := t.write sizeofHeader [if s.syncOldDone then 1 else 0]
  let t := t.write (sizeofHeader + 1) (readAt s.syncSrcIpAddr 0 ipAddressSize)
  let t := t.write (sizeofHeader + 1 + ipAddressSize) (int2buff s.syncSrcPort)
  t.write (sizeofHeader + 1 + ipAddressSize + 4) (int2buff s.syncUntilTimestamp)

/-- The server `deal_cmd_sync_req` settles on, among the members from the first
one that is not local; an error if it cannot tell yet. -/
def chooseServer (now : Int) (s : SyncState) : List FDHTGroupServer → Except Int FDHTGroupServer
  | [] => .error ENOENT
  | first :: rest =>
    if 0 < first.syncReqCount ∧ first.syncOldDone = true then .ok first
    else
      let foreign := (first :: rest).filter fun p => !s.isLocalHostIp p.ipAddr
      if foreign.any fun p => p.syncReqCount = 0 || p.syncOldDone then
        if now - s.firstSyncReqTime < syncReqWaitSeconds then .error EAGAIN
        else match rest.find? fun p =>
            0 < p.syncReqCount && p.syncOldDone && !s.isLocalHostIp p.ipAddr with
          | none => .error ENOENT
          | some p => .ok p
      else
        -- all of them are new: the one with the most updates, the first of equals
        .ok ((rest.filter fun p => !s.isLocalHostIp p.ipAddr).foldl
          (fun m p => if m.updateCount < p.updateCount then p else m) first)

def dealCmdSyncReq (g : Globals) (iniResult : Int) (t : FastTaskInfo) (s : SyncState) :
    Int × FastTaskInfo × SyncState :=
  if t.inBodyLen ≠ 13 then (EINVAL, t.headerOnly, s)
  else if s.syncOldDone then (0, packSyncReqBody t s, s)
  else
    let port := t.bodyInt 0
    let srcSyncOldDone : Bool := t.data.getD (sizeofHeader + 4) 0 ≠ 0
    let updateCount := buff2long (t.bodyBytes 5 8)
    match bsearch (groupCmpByIpAndPort ⟨t.clientIp, port, false, 0, 0⟩) s.groupServers with
    | none => (ENOENT, t.headerOnly, s)
    | some found =>
      let s := { s with
        firstSyncReqTime := if s.firstSyncReqTime = 0 then g.currentTime else s.firstSyncReqTime
        groupServers := s.groupServers.modify found fun p => { p with
          syncOldDone := srcSyncOldDone
          syncReqCount := p.syncReqCount + 1
          updateCount := updateCount } }
      match chooseServer g.currentTime s
          (s.groupServers.dropWhile fun p => s.isLocalHostIp p.ipAddr) with
      | .error result => (result, t.headerOnly, s)
      | .ok server =>
        if strcmp t.clientIp server.ipAddr = .eq ∧ port = server.port then
          let s := if 0 < server.updateCount then
              { s with
                syncSrcIpAddr := cstr server.ipAddr
                syncSrcPort := server.port
                syncUntilTimestamp := g.currentTime }
            else { s with syncOldDone := true }
          if iniResult ≠ 0 then (iniResult, t.headerOnly, s) else (0, packSyncReqBody t s, s)
        else (EAGAIN, t.headerOnly, s)

def dealCmdSyncDone (g : Globals) (iniResult : Int) (t : FastTaskInfo) (s : SyncState) :
    Int × FastTaskInfo × SyncState :=
  if t.inBodyLen ≠ 4 then (EINVAL, t.headerOnly, s)
  else if ¬ (strcmp t.clientIp s.syncSrcIpAddr = .eq ∧ t.bodyInt 0 = s.syncSrcPort) then
    (EINVAL, t.headerOnly, s)
  else if s.syncOldDone then (0, t.headerOnly, s)
  else (iniResult, t.headerOnly,
    { s with syncOldDone := true, syncDoneTimestamp := g.currentTime })

end FastDht
