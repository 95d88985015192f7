import FastDht.Server.KeyOp
import FastDht.Server.SyncReq

/-! # The request handlers of server/work_thread.c

One function per handler, from the task, the globals and the server to the
status, the task with its response and the server. The batch handlers check and
apply their entries one by one; BATCH_SET reads its entries from the buffer it
writes the response into. What the allocator and the ini file writer answer
comes from outside. -/
namespace FastDht
open Lib

variable {σ : Type}

/-- What handling one request gets from outside: the memory the n-th allocation
of the request returns (`none` if it fails), the status of
write_to_sync_ini_file, and the status and text of STAT. -/
structure TaskEnv where
  alloc : Nat → Option Bytes
  iniResult : Int
  stat : Int × Bytes

/-- The status a handler returns, the task and the server after it. -/
structure Reply (σ : Type) where
  status : Int
  task : FastTaskInfo
  server : Server σ

/-- The answer to a malformed request. -/
def reject (t : FastTaskInfo) (s : Server σ) : Reply σ := ⟨EINVAL, t.headerOnly, s⟩

/-- An expiry in the past; 0 is never. -/
def expired (expires now : Int) : Bool := expires ≠ fdhtExpiresNever && expires < now

/-! ## Single keys -/

/-- The response of `deal_cmd_get`: the expiry in the header, the value length
where the expiry was. -/
def getReply (valueLen : Int) (t : FastTaskInfo) (s : Server σ) : Reply σ :=
  let t := t.write expiresOffset (t.bodyBytes 0 4)
  let t := t.write sizeofHeader (int2buff (valueLen - 4))
  ⟨0, { t with length := sizeofHeader + 4 + (valueLen - 4) }, s⟩

/-- The end of `deal_cmd_get`, with the value in the buffer. -/
def getValue (S : StoreFuncs σ) (g : Globals) (r : KeyRequest) (valueLen : Int)
    (t : FastTaskInfo) (s : Server σ) : Reply σ :=
  if expired (t.bodyInt 0) g.currentTime then ⟨ENOENT, t.headerOnly, s⟩
  else if toInt32 r.header.newExpires ≠ fdhtExpiresNone then
    let t := t.write sizeofHeader (int2buff (toInt32 r.header.newExpires))
    getReply valueLen t { s with store := (S.partialSet s.store r.header.groupId
      r.keyInfo.packFullKey (t.bodyBytes 0 4) 0).2 }
  else getReply valueLen t s

def dealCmdGet (S : StoreFuncs σ) (g : Globals) (env : TaskEnv) (t : FastTaskInfo) (s : Server σ) :
    Reply σ :=
  match parseExact g 12 true t with
  | none => reject t s
  | some r =>
    let fullKey := r.keyInfo.packFullKey
    let (v, store) := S.get s.store r.header.groupId fullKey (t.size - sizeofHeader)
    let s := { s with store := store }
    if v.result = 0 then getValue S g r v.size (t.write sizeofHeader v.value) s
    else if v.result = ENOSPC then
      match env.alloc 0 with
      | none => ⟨ENOMEM, t.headerOnly, s⟩
      | some fresh =>
        let t := { t with data := readAt t.data 0 sizeofHeader ++ readAt fresh 0 v.size.toNat }
        let (v, store) := S.get s.store r.header.groupId fullKey v.size
        let s := { s with store := store }
        if v.result ≠ 0 then ⟨v.result, t.headerOnly, s⟩
        else getValue S g r v.size (t.write sizeofHeader v.value) s
    else ⟨v.result, t.headerOnly, s⟩

/-- `deal_cmd_set` for a client (`sourceSet`) or for another server
(`replicaSet`). -/
def dealCmdSet (S : StoreFuncs σ) (g : Globals) (opType : OpType) (t : FastTaskInfo)
    (s : Server σ) : Reply σ :=
  match parseSet g (opType = .sourceSet) t with
  | none => reject t s
  | some (r, valueLen) =>
    -- the expiry takes the place of the value length, in front of the value
    let t := (t.write (sizeofHeader + r.off) (int2buff r.header.newExpires)).headerOnly
    let set := S.set s.store r.header.groupId r.keyInfo.packFullKey
      (t.bodyBytes r.off (4 + valueLen))
    let s := s.logged g set {
      timestamp := if opType = .sourceSet then g.currentTime else r.header.timestamp
      opType := opType
      keyHashCode := r.header.keyHashCode
      expires := r.header.newExpires
      keyInfo := r.keyInfo
      pValue := t.bodyBytes (r.off + 4) valueLen
      valueLen := valueLen }
    if set.1 ≠ 0 then ⟨set.1, t, s⟩
    else
      let s := if g.storeSubKeys ∧ opType = .sourceSet then
          (keyAdd S g r.header.groupId r.keyInfo r.header.keyHashCode s).2
        else s
      ⟨0, t.write expiresOffset (t.bodyBytes r.off 4), s⟩

/-- `deal_cmd_del` for a client or for another server. -/
def dealCmdDel (S : StoreFuncs σ) (g : Globals) (opType : OpType) (t : FastTaskInfo)
    (s : Server σ) : Reply σ :=
  match parseExact g 12 (opType = .sourceDel) t with
  | none => reject t s
  | some r =>
    let del := S.delete s.store r.header.groupId r.keyInfo.packFullKey
    let s := s.logged g del {
      timestamp := if opType = .sourceDel then g.currentTime else r.header.timestamp
      opType := opType
      keyHashCode := r.header.keyHashCode
      expires := fdhtExpiresNever
      keyInfo := r.keyInfo
      pValue := []
      valueLen := 0 }
    if del.1 ≠ 0 then ⟨del.1, t.headerOnly, s⟩
    else
      let s := if g.storeSubKeys ∧ opType = .sourceDel then
          (keyDel S g r.header.groupId r.keyInfo r.header.keyHashCode s).2
        else s
      ⟨0, t.headerOnly, s⟩

/-- `sizeof(value) - 1` of the buffer in `deal_cmd_inc`. -/
def incValueLen : Nat := 31

def dealCmdInc (S : StoreFuncs σ) (g : Globals) (t : FastTaskInfo) (s : Server σ) : Reply σ :=
  match parseExact g 16 true t with
  | none => reject t s
  | some r =>
    let inc := t.bodyInt r.off
    let (result, value, store) := S.incEx s.store r.header.groupId r.keyInfo.packFullKey inc
      incValueLen (toInt32 r.header.newExpires) g.currentTime
    let valueLen : Int := value.length - 4
    let s := s.logged g (result, store) {
      timestamp := g.currentTime
      opType := .sourceSet
      keyHashCode := r.header.keyHashCode
      expires := buff2int value
      keyInfo := r.keyInfo
      pValue := value.drop 4
      valueLen := valueLen }
    if result ≠ 0 then ⟨result, t.headerOnly, s⟩
    else
      let t := { t with length := sizeofHeader + 4 + valueLen }
      let t := t.write sizeofHeader (int2buff valueLen)
      let t := t.write expiresOffset (value.take 4)
      let t := t.write (sizeofHeader + 4) (value.drop 4)
      let s := if g.storeSubKeys then
          (keyAdd S g r.header.groupId r.keyInfo r.header.keyHashCode s).2
        else s
      ⟨0, t, s⟩

def dealCmdGetSubKeys (S : StoreFuncs σ) (g : Globals) (t : FastTaskInfo) (s : Server σ) :
    Reply σ :=
  match checkGroupId g t with
  | none => reject t s
  | some header =>
    match parseCommonBodyBeforeKey 7 t with
    | none => reject t s
    | some k =>
      if t.hasBodyLen 8 k = false then reject t s
      else
        let savedKeepAlive := t.data.getD keepAliveOffset 0
        let (r, s) := keyGet S g header.groupId k (t.size - sizeofHeader + 4) s
        -- the expiry of the list lies over the end of the header
        let t := (t.write (sizeofHeader - 4) r.value).write keepAliveOffset [savedKeepAlive]
        if r.result = 0 then ⟨0, { t with length := sizeofHeader + (r.size - 4) }, s⟩
        else ⟨r.result, t.headerOnly, s⟩

/-! ## Batches -/

/-- The variables of a batch loop: the read and write offsets into their
buffers, the count and the last status, and the keys of the entries that
succeeded. -/
structure BatchState (σ : Type) where
  task : FastTaskInfo
  src : Nat
  dest : Nat
  successCount : Nat
  result : Int
  minExpires : Int
  subKeys : List FDHTKeyInfo
  server : Server σ

/-- How a batch loop ends early: the handler returns, or it has run into
undefined behaviour. -/
inductive Stop (σ : Type)
  | ret (status : Int) (b : BatchState σ)
  | crash

/-- The loop over `n` entries from entry `i` on. -/
def batchLoop (entry : Nat → BatchState σ → Except (Stop σ) (BatchState σ)) :
    Nat → Nat → BatchState σ → Except (Stop σ) (BatchState σ)
  | 0, _, b => .ok b
  | n + 1, i, b =>
    match entry i b with
    | .error e => .error e
    | .ok b' => batchLoop entry n (i + 1) b'

/-- One byte of the response, as `*pDest = result` stores it. -/
def statusByte (result : Int) : Bytes := [byteAt result 0]

/-- The part of a BATCH_SET entry before its value, at offset `src` of the
buffer: the key, the value length and the offset of the latter. `none` if the
entry is malformed or names the reserved key. The checks compare as `long`, so
a negative value length passes the last one. -/
def batchSetHead (r : BatchRequest) (inBodyLen : Int) (t : FastTaskInfo) (src : Nat) :
    Option (FDHTKeyInfo × Int × Nat) :=
  let srcStart : Int := sizeofHeader + r.commonFiledsLen
  let keyLen := t.intAt src
  if hk : keyLen ≤ 0 ∨ fdhtMaxSubKeyLen < keyLen then none
  else if inBodyLen < r.commonFiledsLen + (src - srcStart) + 8 + keyLen then none
  else
    let keyInfo := r.keyInfo.withKey (readAt t.data (src + 4) keyLen.toNat) (by simp; omega)
    if checkSubKeyName keyInfo = false then none
    else
      let src := src + 4 + keyLen.toNat
      let valueLen := t.intAt src
      if inBodyLen < r.commonFiledsLen + (src - srcStart) + 4 + valueLen then none
      else some (keyInfo, valueLen, src)

/-- One entry of BATCH_SET. A value length below -4 makes the length handed to
the store negative. -/
def batchSetEntry (S : StoreFuncs σ) (g : Globals) (r : BatchRequest) (inBodyLen : Int)
    (b : BatchState σ) : Except (Stop σ) (BatchState σ) :=
  match batchSetHead r inBodyLen b.task b.src with
  | none => .error (.ret EINVAL b)
  | some (keyInfo, valueLen, src) =>
    -- the key and the expiry are written before a negative size goes to the store
    if valueLen + 4 < 0 then .error .crash
    else
      let newExpires := toInt32 r.header.newExpires
      let keyLen := keyInfo.szKey.length
      let t := b.task.write b.dest (int2buff keyLen)
      let t := t.write (b.dest + 4) keyInfo.szKey
      let dest := b.dest + 4 + keyLen
      let t := t.write src (int2buff newExpires)
      let set := S.set b.server.store r.header.groupId keyInfo.packFullKey
        (readAt t.data src (valueLen + 4).toNat)
      let t := t.write dest (statusByte set.1)
      let b := { b with
        task := t
        src := src + (valueLen + 4).toNat
        dest := dest + 1
        result := set.1
        server := b.server.logged g set {
          timestamp := g.currentTime
          opType := .sourceSet
          keyHashCode := r.header.keyHashCode
          expires := newExpires
          keyInfo := keyInfo
          pValue := readAt t.data (src + 4) valueLen.toNat
          valueLen := valueLen } }
      if set.1 ≠ 0 then .ok b
      else .ok { b with
        successCount := b.successCount + 1
        subKeys := if g.storeSubKeys then b.subKeys ++ [keyInfo] else b.subKeys }

def compareSubKey (a b : FDHTKeyInfo) : Ordering := strcmp a.szKey b.szKey

/-- The end of a batch handler: trailing bytes are rejected; otherwise the
answer depends on whether an entry succeeded. `finish` is what the handler does
then. -/
def batchReply (consumed : Bool) (finish : BatchState σ → Reply σ) :
    BatchState σ → Reply σ := fun b =>
  if consumed = false then reject b.task b.server
  else if 0 < b.successCount then
    let r := finish b
    { r with task := { (r.task.write (sizeofHeader + 4) (int2buff b.successCount)) with
      length := b.dest } }
  else ⟨b.result, b.task.headerOnly, b.server⟩

/-- The variables of `deal_cmd_batch_set` before its loop. -/
def batchSetStart (r : BatchRequest) (t : FastTaskInfo) (s : Server σ) : BatchState σ where
  task := t.write sizeofHeader (int2buff r.keyCount)
  src := sizeofHeader + r.commonFiledsLen
  dest := sizeofHeader + 8
  successCount := 0
  result := 0
  minExpires := 0
  subKeys := []
  server := s

/-- The end of `deal_cmd_batch_set` when an entry has succeeded. -/
def batchSetFinish (S : StoreFuncs σ) (g : Globals) (r : BatchRequest) (b : BatchState σ) :
    Reply σ where
  status := 0
  task := b.task.write expiresOffset (int2buff (toInt32 r.header.newExpires))
  server := if g.storeSubKeys then
      (keyBatchAdd S g r.header.groupId r.keyInfo r.header.keyHashCode
        (qsort compareSubKey b.subKeys) b.server).2
    else b.server

/-- `deal_cmd_batch_set`; `none` is undefined behaviour. -/
def dealCmdBatchSet (S : StoreFuncs σ) (g : Globals) (t : FastTaskInfo) (s : Server σ) :
    Option (Reply σ) :=
  match parseBatchRequest g 20 t with
  | none => some (reject t s)
  | some r =>
    match batchLoop (fun _ => batchSetEntry S g r t.inBodyLen) r.keyCount 0
        (batchSetStart r t s) with
    | .error (.ret status b) => some ⟨status, b.task.headerOnly, b.server⟩
    | .error .crash => none
    | .ok b =>
      let consumed : Bool :=
        t.inBodyLen = r.commonFiledsLen + ((b.src : Int) - (sizeofHeader + r.commonFiledsLen))
      some (batchReply consumed (batchSetFinish S g r) b)

/-- The request of BATCH_GET and BATCH_DEL, which must fit their copy of it. -/
def parseBatchKeys (g : Globals) (t : FastTaskInfo) : Option BatchRequest :=
  (parseBatchRequest g 16 t).filter fun r =>
    t.inBodyLen ≤ (r.commonFiledsLen + (4 + fdhtMaxSubKeyLen) * r.keyCount : Nat)

/-- `in_buff`: the copy of the entries. -/
def BatchRequest.inBuff (r : BatchRequest) (t : FastTaskInfo) : Bytes :=
  readAt t.data (sizeofHeader + r.commonFiledsLen) (t.inBodyLen - r.commonFiledsLen).toNat

/-- The key of an entry of BATCH_GET or BATCH_DEL, read from the copy of the
request, and the offset after it. `none` if the entry is malformed or names the
reserved key. -/
def batchKey (r : BatchRequest) (inBodyLen : Int) (inBuff : Bytes) (src : Nat) :
    Option (FDHTKeyInfo × Nat) :=
  let keyLen := buff2int (readAt inBuff src 4)
  if hk : keyLen ≤ 0 ∨ fdhtMaxSubKeyLen < keyLen then none
  else if inBodyLen < r.commonFiledsLen + src + 4 + keyLen then none
  else
    let keyInfo := r.keyInfo.withKey (readAt inBuff (src + 4) keyLen.toNat) (by simp; omega)
    if checkSubKeyName keyInfo = false then none
    else some (keyInfo, src + 4 + keyLen.toNat)

/-- `CHECK_BUFF_SIZE`: the buffer grown to hold `valueLen` bytes after
`oldLen`, with 8 KB to spare. -/
def checkBuffSize (fresh : Option Bytes) (oldLen : Nat) (valueLen : Int) (t : FastTaskInfo) :
    Option FastTaskInfo :=
  fresh.map fun bytes => { t with data := readAt (t.data ++ bytes) 0 (oldLen + valueLen + 8192).toNat }

/-- An entry of BATCH_GET without a value; the status byte lies before
`b.dest`. -/
def BatchState.getFailed (b : BatchState σ) (result : Int) : BatchState σ :=
  { b with result := result, task := b.task.write (b.dest - 1) (statusByte result) }

/-- An entry of BATCH_GET whose value lies at `b.dest`. -/
def BatchState.getDone (b : BatchState σ) (valueLen : Int) : BatchState σ :=
  { b with
    result := 0
    successCount := b.successCount + 1
    task := (b.task.write (b.dest - 1) [0]).write b.dest (int2buff (valueLen - 4))
    dest := (b.dest + valueLen).toNat }

/-- The smallest expiry so far; 0 is never. -/
def minExpiry (minExpires oldExpires : Int) : Int :=
  if minExpires = fdhtExpiresNever then
    if oldExpires ≠ fdhtExpiresNever then oldExpires else minExpires
  else if oldExpires ≠ fdhtExpiresNever ∧ oldExpires < minExpires then oldExpires
  else minExpires

/-- The part of a BATCH_GET entry after the value has been found at
`b.dest`. -/
def batchGetValue (S : StoreFuncs σ) (g : Globals) (r : BatchRequest) (keyInfo : FDHTKeyInfo)
    (valueLen : Int) (b : BatchState σ) : BatchState σ :=
  if expired (b.task.intAt b.dest) g.currentTime then b.getFailed ENOENT
  else if toInt32 r.header.newExpires ≠ fdhtExpiresNone then
    let set := S.partialSet b.server.store r.header.groupId keyInfo.packFullKey
      (int2buff (toInt32 r.header.newExpires)) 0
    let b := { b with server := { b.server with store := set.2 } }
    if set.1 ≠ 0 then b.getFailed set.1 else b.getDone valueLen
  else { b with minExpires := minExpiry b.minExpires (b.task.intAt b.dest) }.getDone valueLen

def batchGetEntry (S : StoreFuncs σ) (g : Globals) (env : TaskEnv) (r : BatchRequest)
    (inBodyLen : Int) (inBuff : Bytes) (i : Nat) (b : BatchState σ) :
    Except (Stop σ) (BatchState σ) :=
  match batchKey r inBodyLen inBuff b.src with
  | none => .error (.ret EINVAL b)
  | some (keyInfo, src) =>
    let keyLen := keyInfo.szKey.length
    let room := if b.task.size ≤ b.dest + (9 + keyLen) then
        checkBuffSize (env.alloc (2 * i)) b.dest (9 + keyLen) b.task
      else some b.task
    match room with
    | none => .error (.ret ENOMEM b)
    | some t =>
      let t := t.write b.dest (int2buff keyLen)
      let t := t.write (b.dest + 4) keyInfo.szKey
      let dest := b.dest + 4 + keyLen + 1
      let (v, store) := S.get b.server.store r.header.groupId keyInfo.packFullKey (t.size - dest)
      let b := { b with
        task := t
        src := src
        dest := dest
        server := { b.server with store := store } }
      if v.result = 0 then
        .ok (batchGetValue S g r keyInfo v.size { b with task := t.write dest v.value })
      else if v.result = ENOSPC then
        match checkBuffSize (env.alloc (2 * i + 1)) dest v.size t with
        | none => .error (.ret ENOMEM b)
        | some t =>
          let (v, store) := S.get b.server.store r.header.groupId keyInfo.packFullKey v.size
          let b := { b with task := t, server := { b.server with store := store } }
          if v.result ≠ 0 then .ok (b.getFailed v.result)
          else .ok (batchGetValue S g r keyInfo v.size { b with task := t.write dest v.value })
      else .ok (b.getFailed v.result)

def batchDelEntry (S : StoreFuncs σ) (g : Globals) (r : BatchRequest) (inBodyLen : Int)
    (inBuff : Bytes) (b : BatchState σ) : Except (Stop σ) (BatchState σ) :=
  match batchKey r inBodyLen inBuff b.src with
  | none => .error (.ret EINVAL b)
  | some (keyInfo, src) =>
    let keyLen := keyInfo.szKey.length
    let t := b.task.write b.dest (int2buff keyLen)
    let t := t.write (b.dest + 4) keyInfo.szKey
    let dest := b.dest + 4 + keyLen
    let del := S.delete b.server.store r.header.groupId keyInfo.packFullKey
    let b := { b with
      task := t.write dest (statusByte del.1)
      src := src
      dest := dest + 1
      result := del.1
      server := b.server.logged g del {
        timestamp := g.currentTime
        opType := .sourceDel
        keyHashCode := r.header.keyHashCode
        expires := fdhtExpiresNever
        keyInfo := keyInfo
        pValue := []
        valueLen := 0 } }
    if del.1 ≠ 0 then .ok b
    else .ok { b with
      successCount := b.successCount + 1
      subKeys := if g.storeSubKeys then b.subKeys ++ [keyInfo] else b.subKeys }

/-- The variables of `deal_cmd_batch_get` and `deal_cmd_batch_del` before their
loops. -/
def batchKeysStart (r : BatchRequest) (t : FastTaskInfo) (s : Server σ) : BatchState σ where
  task := t.write sizeofHeader (int2buff r.keyCount)
  src := 0
  dest := sizeofHeader + 8
  successCount := 0
  result := 0
  minExpires := if toInt32 r.header.newExpires ≠ fdhtExpiresNone then toInt32 r.header.newExpires
    else fdhtExpiresNever
  subKeys := []
  server := s

/-- The frame of BATCH_GET and BATCH_DEL: the loop and the answer. Their loops
do not crash. -/
def dealCmdBatchKeys (g : Globals) (t : FastTaskInfo) (s : Server σ)
    (entry : BatchRequest → Bytes → Nat → BatchState σ → Except (Stop σ) (BatchState σ))
    (finish : BatchRequest → BatchState σ → Reply σ) : Reply σ :=
  match parseBatchKeys g t with
  | none => reject t s
  | some r =>
    match batchLoop (entry r (r.inBuff t)) r.keyCount 0 (batchKeysStart r t s) with
    | .error (.ret status b) => ⟨status, b.task.headerOnly, b.server⟩
    | .error .crash => reject t s
    | .ok b => batchReply (t.inBodyLen = r.commonFiledsLen + b.src) (finish r) b

def dealCmdBatchGet (S : StoreFuncs σ) (g : Globals) (env : TaskEnv) (t : FastTaskInfo)
    (s : Server σ) : Reply σ :=
  dealCmdBatchKeys g t s (fun r inBuff => batchGetEntry S g env r t.inBodyLen inBuff)
    fun _ b => ⟨0, b.task.write expiresOffset (int2buff b.minExpires), b.server⟩

/-- The end of `deal_cmd_batch_del` when an entry has succeeded. -/
def batchDelFinish (S : StoreFuncs σ) (g : Globals) (r : BatchRequest) (b : BatchState σ) :
    Reply σ where
  status := 0
  task := b.task
  server := if g.storeSubKeys then
      (keyBatchDel S g r.header.groupId r.keyInfo r.header.keyHashCode
        (qsort compareSubKey b.subKeys) b.server).2
    else b.server

def dealCmdBatchDel (S : StoreFuncs σ) (g : Globals) (t : FastTaskInfo) (s : Server σ) : Reply σ :=
  dealCmdBatchKeys g t s (fun r inBuff _ => batchDelEntry S g r t.inBodyLen inBuff)
    (batchDelFinish S g)

/-! ## The dispatcher -/

def dealCmdStat (env : TaskEnv) (t : FastTaskInfo) (s : Server σ) : Reply σ :=
  if t.inBodyLen ≠ 0 then reject t s
  else if env.stat.1 ≠ 0 then ⟨env.stat.1, t.headerOnly, s⟩
  else ⟨0, { (t.write sizeofHeader env.stat.2) with
    length := sizeofHeader + (env.stat.2.length : Int) }, s⟩

/-- The handler of a command other than QUIT. -/
def dealCmd (S : StoreFuncs σ) (g : Globals) (env : TaskEnv) (t : FastTaskInfo) (s : Server σ) :
    Option ProtoCmd → Option (Reply σ)
  | some .get => some (dealCmdGet S g env t s)
  | some .set => some (dealCmdSet S g .sourceSet t s)
  | some .syncSet => some (dealCmdSet S g .replicaSet t s)
  | some .inc => some (dealCmdInc S g t s)
  | some .del => some (dealCmdDel S g .sourceDel t s)
  | some .syncDel => some (dealCmdDel S g .replicaDel t s)
  | some .heartBeat => some ⟨0, t.headerOnly, s⟩
  | some .batchGet => some (dealCmdBatchGet S g env t s)
  | some .batchSet => dealCmdBatchSet S g t s
  | some .batchDel => some (dealCmdBatchDel S g t s)
  | some .syncReq =>
    let r := dealCmdSyncReq g env.iniResult t s.sync
    some ⟨r.1, r.2.1, { s with sync := r.2.2 }⟩
  | some .syncNotify =>
    let r := dealCmdSyncDone g env.iniResult t s.sync
    some ⟨r.1, r.2.1, { s with sync := r.2.2 }⟩
  | some .stat => some (dealCmdStat env t s)
  | some .getSubKeys => some (dealCmdGetSubKeys S g t s)
  | _ => some (reject t s)

def packResponse (g : Globals) (status : Int) (t : FastTaskInfo) : FastTaskInfo :=
  let t := t.write statusOffset (statusByte status)
  let t := t.write timestampOffset (int2buff g.currentTime)
  let t := t.write cmdOffset [ProtoCmd.resp.toByte]
  t.write pkgLenOffset (int2buff (t.length - sizeofHeader))

/-- `work_deal_task`: the response that is sent, `none` after QUIT, which
closes the connection; the outer `none` is undefined behaviour. -/
def workDealTask (S : StoreFuncs σ) (g : Globals) (env : TaskEnv) (t : FastTaskInfo)
    (s : Server σ) : Option (Option (Int × FastTaskInfo) × Server σ) :=
  match t.cmd with
  | some .quit => some (none, s)
  | cmd => (dealCmd S g env t s cmd).map fun r =>
      (some (r.status, packResponse g r.status r.task), r.server)

end FastDht
