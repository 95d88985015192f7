import FastDht.Client.FdhtClient
import FastDht.Server.StoredValues

/-! # What the server reads from a request of the client

A call of the client library is packed into a message, and a handler parses it
back. What a handler extracts is again a call, with the hash code of the header:
the two sides agree if it is the call that was made. -/
namespace FastDht
open Lib

variable {σ : Type}

/-- A call of the client library with the arguments that travel. -/
inductive ClientCall
  | get (k : FDHTKeyInfo) (expires : Int)
  | set (k : FDHTKeyInfo) (value : Bytes) (expires : Int)
  | delete (k : FDHTKeyInfo)
  | inc (k : FDHTKeyInfo) (increase expires : Int)
  | batchSet (o : FDHTObjectInfo) (keyList : List (FDHTSubKey × Bytes)) (expires : Int)
  | batchGet (o : FDHTObjectInfo) (keyList : List FDHTSubKey) (expires : Int)
  | batchDelete (o : FDHTObjectInfo) (keyList : List FDHTSubKey)
  | getSubKeys (o : FDHTObjectInfo)
  deriving DecidableEq, Repr

namespace ClientCall

def send (keepAlive : UInt8) (timestamp : Int) : ClientCall → Except ClientError Bytes
  | get k expires => fdhtGetEx1 keepAlive timestamp expires k
  | set k value expires => fdhtSetEx keepAlive timestamp expires k value
  | delete k => fdhtDeleteEx keepAlive timestamp k
  | inc k increase expires => fdhtIncEx keepAlive timestamp expires k increase
  | batchSet o keyList expires => fdhtBatchSetEx keepAlive timestamp expires o keyList
  | batchGet o keyList expires => fdhtBatchGetEx1 keepAlive timestamp expires o keyList
  | batchDelete o keyList => fdhtBatchDeleteEx keepAlive timestamp o keyList
  | getSubKeys o => fdhtGetSubKeysEx keepAlive o

def keyHashCode : ClientCall → Except ClientError Int
  | get k _ | set k _ _ | delete k | inc k _ _ => calcKeyHashCode k
  | batchSet o _ _ | batchGet o _ _ | batchDelete o _ | getSubKeys o => calcObjectHashCode o

def keys : ClientCall → List Bytes
  | get k _ | set k _ _ | delete k | inc k _ _ => [k.szKey]
  | batchSet _ keyList _ => keyList.map fun e => e.1.szKey
  | batchGet _ keyList _ | batchDelete _ keyList => keyList.map FDHTSubKey.szKey
  | getSubKeys _ => []

/-- The number of keys a batch may have, and the range of an increment. -/
def InRange : ClientCall → Prop
  | inc _ increase _ => -2 ^ 31 ≤ increase ∧ increase < 2 ^ 31
  | batchSet _ keyList _ => keyList ≠ [] ∧ keyList.length ≤ fdhtMaxKeyCountPerReq
  | batchGet _ keyList _ | batchDelete _ keyList =>
    keyList ≠ [] ∧ keyList.length ≤ fdhtMaxKeyCountPerReq
  | _ => True

/-- A call whose keys are neither empty nor the reserved one. -/
structure WellFormed (c : ClientCall) : Prop where
  keys : ∀ key ∈ c.keys, key ≠ [] ∧ key ≠ fdhtListKeyName
  inRange : c.InRange

def expires : ClientCall → Int
  | get _ expires | set _ _ expires | inc _ _ expires | batchSet _ _ expires
  | batchGet _ _ expires => expires
  | delete _ | batchDelete _ _ | getSubKeys _ => fdhtExpiresNever

/-- The call with the expiry that the header has room for. -/
def onWire : ClientCall → ClientCall
  | get k expires => get k (toInt32 expires)
  | set k value expires => set k value (toInt32 expires)
  | inc k increase expires => inc k increase (toInt32 expires)
  | batchSet o keyList expires => batchSet o keyList (toInt32 expires)
  | batchGet o keyList expires => batchGet o keyList (toInt32 expires)
  | delete k => delete k
  | batchDelete o keyList => batchDelete o keyList
  | getSubKeys o => getSubKeys o

/-- The message of fdht_inc_ex fits its buffer. -/
def FitsBuffer : ClientCall → Prop
  | inc k _ _ => k.bytes ≤ 319
  | _ => True

end ClientCall

/-! ## What a handler extracts -/

/-- The entries that the loop of `deal_cmd_batch_set` reads, from the buffer as the
entries before have left it. -/
def batchSetReads (S : StoreFuncs σ) (g : Globals) (r : BatchRequest) (inBodyLen : Int) :
    Nat → BatchState σ → Option (List (FDHTKeyInfo × Bytes) × Nat)
  | 0, b => some ([], b.src)
  | n + 1, b =>
    match batchSetHead r inBodyLen b.task b.src, batchSetEntry S g r inBodyLen b with
    | some (keyInfo, valueLen, src), .ok b' =>
      (batchSetReads S g r inBodyLen n b').map fun rest =>
        ((keyInfo, readAt b.task.data (src + 4) valueLen.toNat) :: rest.1, rest.2)
    | _, _ => none

/-- The keys that the loops of `deal_cmd_batch_get` and `deal_cmd_batch_del` read. -/
def batchKeysRead (r : BatchRequest) (inBodyLen : Int) (inBuff : Bytes) :
    Nat → Nat → Option (List FDHTKeyInfo × Nat)
  | 0, src => some ([], src)
  | n + 1, src =>
    (batchKey r inBodyLen inBuff src).bind fun entry =>
      (batchKeysRead r inBodyLen inBuff n entry.2).map fun rest => (entry.1 :: rest.1, rest.2)

/-- What `deal_cmd_batch_get` and `deal_cmd_batch_del` extract: the keys must be the
whole body. -/
def extractKeys (g : Globals) (t : FastTaskInfo) :
    Option (BatchRequest × List FDHTSubKey) :=
  (parseBatchKeys g t).bind fun r =>
    (batchKeysRead r t.inBodyLen (r.inBuff t) r.keyCount 0).bind fun read =>
      if t.inBodyLen = r.commonFiledsLen + read.2 then
        some (r, read.1.map FDHTKeyInfo.subKey)
      else none

/-- What `deal_cmd_batch_set` extracts. -/
def extractValues (S : StoreFuncs σ) (g : Globals) (t : FastTaskInfo) (s : Server σ) :
    Option (BatchRequest × List (FDHTSubKey × Bytes)) :=
  (parseBatchRequest g 20 t).bind fun r =>
    (batchSetReads S g r t.inBodyLen r.keyCount (batchSetStart r t s)).bind fun read =>
      if t.inBodyLen = r.commonFiledsLen + ((read.2 : Int) - (sizeofHeader + r.commonFiledsLen)) then
        some (r, read.1.map fun e => (e.1.subKey, e.2))
      else none

/-- The hash code and the call that the handler of a message extracts; `none` if it
rejects the message. -/
def extract (S : StoreFuncs σ) (g : Globals) (t : FastTaskInfo) (s : Server σ) :
    Option (Int × ClientCall) :=
  let expires := t.intAt expiresOffset
  match t.cmd with
  | some .get => (parseExact g 12 true t).map fun r =>
      (r.header.keyHashCode, .get r.keyInfo expires)
  | some .set => (parseSet g true t).map fun r =>
      (r.1.header.keyHashCode, .set r.1.keyInfo (t.bodyBytes (r.1.off + 4) r.2) expires)
  | some .del => (parseExact g 12 true t).map fun r => (r.header.keyHashCode, .delete r.keyInfo)
  | some .inc => (parseExact g 16 true t).map fun r =>
      (r.header.keyHashCode, .inc r.keyInfo (t.bodyInt r.off) expires)
  | some .batchSet => (extractValues S g t s).map fun r =>
      (r.1.header.keyHashCode, .batchSet r.1.keyInfo.objectInfo r.2 expires)
  | some .batchGet => (extractKeys g t).map fun r =>
      (r.1.header.keyHashCode, .batchGet r.1.keyInfo.objectInfo r.2 expires)
  | some .batchDel => (extractKeys g t).map fun r =>
      (r.1.header.keyHashCode, .batchDelete r.1.keyInfo.objectInfo r.2)
  | some .getSubKeys => (checkGroupId g t).bind fun header =>
      (parseCommonBodyBeforeKey 7 t).bind fun k =>
        if t.hasBodyLen 8 k then some (header.keyHashCode, .getSubKeys k.objectInfo) else none
  | _ => none

/-! ## Entries -/

section Entries

variable {S : StoreFuncs σ} {g : Globals} {r : BatchRequest} {inBodyLen : Int}

theorem batchSetReads_entries (hmax : inBodyLen < 2 ^ 31)
    (es : List (FDHTKeyInfo × Bytes)) : ∀ b : BatchState σ, (∀ e ∈ es, r.Names e.1) →
      b.SetReady r inBodyLen es → batchSetReads S g r inBodyLen es.length b =
        some (es, b.src + (es.flatMap keyValueEntry).length) := by
  induction es with
  | nil => exact fun b _ _ => rfl
  | cons e es ih =>
    intro b hnames hready
    obtain ⟨k, value⟩ := e
    have hname : r.Names k := hnames _ List.mem_cons_self
    obtain ⟨b', -, hentry, hready', -, -⟩ := hready.step (S := S) (g := g) hmax hname
    have hlen := hready.len
    have hlen' := hready'.len
    have hholds := hready.holds
    rw [List.flatMap_cons] at hholds hlen ⊢
    rw [List.length_append] at hlen ⊢
    obtain ⟨hheld, -⟩ := hholds.split
    have hhead := batchSetHead_entry inBodyLen hname hheld hready.src (by omega) hmax
    obtain ⟨-, hvalue⟩ := hheld.split
    obtain ⟨-, hvalue⟩ := hvalue.split
    have hvalue : readAt b.task.data (b.src + (keyEntry k).length + 4) value.length = value :=
      hvalue.bytes
    rw [List.length_cons, batchSetReads, hhead, hentry]
    dsimp only
    rw [ih b' (fun e he => hnames e (List.mem_cons_of_mem _ he)) hready', Option.map_some,
      Int.toNat_natCast, hvalue, show b'.src + (es.flatMap keyValueEntry).length =
        b.src + ((keyValueEntry (k, value)).length + (es.flatMap keyValueEntry).length) by omega]

theorem batchKeysRead_entries (inBuff : Bytes) (ks : List FDHTKeyInfo) :
    ∀ before : Bytes, (∀ k ∈ ks, r.Names k) → inBuff = before ++ ks.flatMap keyEntry →
      (r.commonFiledsLen + inBuff.length : Int) ≤ inBodyLen →
      batchKeysRead r inBodyLen inBuff ks.length before.length = some (ks, inBuff.length) := by
  induction ks with
  | nil =>
    intro before _ hbuff _
    rw [hbuff, List.flatMap_nil, List.append_nil]
    rfl
  | cons k ks ih =>
    intro before hnames hbuff hlen
    rw [List.flatMap_cons] at hbuff
    have hlengths : inBuff.length =
        before.length + ((keyEntry k).length + (ks.flatMap keyEntry).length) := by
      rw [hbuff, List.length_append, List.length_append]
    have hentry : batchKey r inBodyLen inBuff before.length =
        some (k, before.length + (keyEntry k).length) :=
      batchKey_entry (hnames _ List.mem_cons_self) hbuff rfl (by omega)
    have hrest := ih (before ++ keyEntry k) (fun k' hk' => hnames k' (List.mem_cons_of_mem _ hk'))
      (by rw [hbuff, List.append_assoc]) hlen
    rw [List.length_append] at hrest
    rw [List.length_cons, batchKeysRead, hentry, Option.bind_some, hrest]
    rfl

end Entries

/-! ## Messages -/

namespace ClientCall

def cmd : ClientCall → ProtoCmd
  | get _ _ => .get
  | set _ _ _ => .set
  | delete _ => .del
  | inc _ _ _ => .inc
  | batchSet _ _ _ => .batchSet
  | batchGet _ _ _ => .batchGet
  | batchDelete _ _ => .batchDel
  | getSubKeys _ => .getSubKeys

def body : ClientCall → Bytes
  | get k _ | delete k => k.packBodyUntilKey
  | set k value _ => k.packBodyUntilKey ++ (int2buff value.length ++ value)
  | inc k increase _ => k.packBodyUntilKey ++ int2buff increase
  | batchSet o keyList _ => packBodyValues o keyList
  | batchGet o keyList _ | batchDelete o keyList => packBodyKeys o keyList
  | getSubKeys o => o.packBodyObject

/-- The time in the header; fdht_get_sub_keys_ex leaves it out. -/
def headerTime (timestamp : Int) : ClientCall → Int
  | getSubKeys _ => 0
  | _ => timestamp

def message (keepAlive : UInt8) (timestamp hash : Int) (c : ClientCall) : Bytes :=
  packHeader c.body.length hash (c.headerTime timestamp) c.expires c.cmd keepAlive ++ c.body

/-- The client packs the message into its buffer. -/
def Sends (keepAlive : UInt8) (timestamp hash : Int) (c : ClientCall) : Prop :=
  c.send keepAlive timestamp = .ok (c.message keepAlive timestamp hash)

end ClientCall

section Messages

variable (keepAlive : UInt8) (timestamp : Int) {hash : Int} {c : ClientCall}

theorem inBuffer_ok {size : Nat} {m : Bytes} (h : m.length ≤ size) : inBuffer size m = .ok m :=
  if_pos h

theorem badKeyCount_eq_false {α : Type} {keyList : List α} (hne : keyList ≠ [])
    (hmax : keyList.length ≤ fdhtMaxKeyCountPerReq) : badKeyCount keyList.length = false := by
  have hpos := List.length_pos_iff.mpr hne
  unfold badKeyCount
  rw [Bool.or_eq_false_iff, decide_eq_false_iff_not, decide_eq_false_iff_not]
  omega

theorem ClientCall.toInt32_keyHashCode (hhash : c.keyHashCode = .ok hash) : toInt32 hash = hash := by
  have hkey : ∀ k, calcKeyHashCode k = .ok hash → toInt32 hash = hash := by
    intro k h
    unfold calcKeyHashCode at h
    split at h
    · exact Except.ok.inj h ▸ toInt32_keyHashCodeOf _
    · split at h
      · exact Except.ok.inj h ▸ toInt32_keyHashCodeOf _
      · cases h
  have hobject : ∀ o, calcObjectHashCode o = .ok hash → toInt32 hash = hash := by
    intro o h
    unfold calcObjectHashCode at h
    split at h
    · cases h
    · exact Except.ok.inj h ▸ toInt32_keyHashCodeOf _
  cases c with
  | get k _ => exact hkey k hhash
  | set k _ _ => exact hkey k hhash
  | delete k => exact hkey k hhash
  | inc k _ _ => exact hkey k hhash
  | batchSet o _ _ => exact hobject o hhash
  | batchGet o _ _ => exact hobject o hhash
  | batchDelete o _ => exact hobject o hhash
  | getSubKeys o => exact hobject o hhash

theorem keyValueEntries_length (o : FDHTObjectInfo) (keyList : List (FDHTSubKey × Bytes)) :
    (keyList.flatMap fun e => keyValueEntry (o.keyInfo e.1, e.2)).length =
      8 * keyList.length + (keyList.map fun e => e.1.szKey.length).sum +
        (keyList.map fun e => e.2.length).sum := by
  induction keyList with
  | nil => rfl
  | cons e keyList ih =>
    have hentry : (keyValueEntry (o.keyInfo e.1, e.2)).length =
        8 + e.1.szKey.length + e.2.length := by
      have hkey : (keyEntry (o.keyInfo e.1)).length = 4 + e.1.szKey.length := keyEntry_length _
      rw [keyValueEntry_length, hkey]
      omega
    rw [List.flatMap_cons, List.length_append, hentry, ih, List.length_cons, List.map_cons,
      List.sum_cons, List.map_cons, List.sum_cons]
    omega

theorem packBodyKeys_length_le (o : FDHTObjectInfo) {keyList : List FDHTSubKey}
    (hcount : keyList.length ≤ fdhtMaxKeyCountPerReq) :
    (packBodyKeys o keyList).length ≤ 17100 := by
  have hcount : keyList.length ≤ 128 := hcount
  have hentries : _ ≤ 132 * keyList.length := keyEntries_length_le o keyList
  have hbytes := o.bytes_le
  rw [packBodyKeys_length]
  omega

theorem fdhtMaxFullKeyLen_eq : fdhtMaxFullKeyLen = 322 := rfl

namespace ClientCall

section Key

variable {k : FDHTKeyInfo} (hhash : calcKeyHashCode k = .ok hash) (expires : Int)
include hhash

theorem get_sends : (get k expires).Sends keepAlive timestamp hash := by
  have hbytes := k.bytes_le
  have hmax := fdhtMaxFullKeyLen_eq
  simp only [Sends, send, fdhtGetEx1, hhash, message, body, packBodyUntilKey_length, Nat.cast_add,
    Nat.cast_ofNat]
  refine inBuffer_ok ?_
  rw [List.length_append, packHeader_length, packBodyUntilKey_length]
  omega

theorem set_sends (value : Bytes) : (set k value expires).Sends keepAlive timestamp hash := by
  have hlen : ((k.packBodyUntilKey ++ (int2buff value.length ++ value)).length : Int) =
      16 + k.bytes + value.length := by
    rw [List.length_append, List.length_append, int2buff_length, packBodyUntilKey_length]
    omega
  simp only [Sends, send, fdhtSetEx, hhash, message, body, hlen]
  rfl

theorem delete_sends : (delete k).Sends keepAlive timestamp hash := by
  have hbytes := k.bytes_le
  have hmax := fdhtMaxFullKeyLen_eq
  simp only [Sends, send, fdhtDeleteEx, hhash, message, body, packBodyUntilKey_length,
    Nat.cast_add, Nat.cast_ofNat]
  refine inBuffer_ok ?_
  rw [fdhtClientDelete, List.length_append, packHeader_length, packBodyUntilKey_length]
  omega

theorem inc_sends {increase : Int} (hfits : k.bytes ≤ 319) :
    (inc k increase expires).Sends keepAlive timestamp hash := by
  have hmax := fdhtMaxFullKeyLen_eq
  have hlen : ((k.packBodyUntilKey ++ int2buff increase).length : Int) = 16 + k.bytes := by
    rw [List.length_append, int2buff_length, packBodyUntilKey_length]
    omega
  simp only [Sends, send, fdhtIncEx, hhash, message, body, hlen]
  refine inBuffer_ok ?_
  rw [List.length_append, packHeader_length, List.length_append, packBodyUntilKey_length,
    int2buff_length, hmax]
  unfold sizeofHeader
  omega

end Key

section Object

variable {o : FDHTObjectInfo} (hhash : calcObjectHashCode o = .ok hash) (expires : Int)
include hhash

theorem batchSet_sends {keyList : List (FDHTSubKey × Bytes)} (hne : keyList ≠ [])
    (hcount : keyList.length ≤ fdhtMaxKeyCountPerReq) :
    (batchSet o keyList expires).Sends keepAlive timestamp hash := by
  have hlen : (packBodyValues o keyList).length = 12 + o.bytes + 8 * keyList.length +
      (keyList.map fun e => e.1.szKey.length).sum + (keyList.map fun e => e.2.length).sum := by
    rw [packBodyValues_length, keyValueEntries_length]
    omega
  simp only [Sends, send, fdhtBatchSetEx, badKeyCount_eq_false hne hcount, hhash, message, body,
    hlen]
  rfl

theorem batchGet_sends {keyList : List FDHTSubKey} (hne : keyList ≠ [])
    (hcount : keyList.length ≤ fdhtMaxKeyCountPerReq) :
    (batchGet o keyList expires).Sends keepAlive timestamp hash := by
  have hlen := packBodyKeys_length_le o hcount
  simp only [Sends, send, fdhtBatchGetEx1, badKeyCount_eq_false hne hcount, hhash, message, body]
  refine inBuffer_ok ?_
  rw [List.length_append, packHeader_length]
  omega

theorem batchDelete_sends {keyList : List FDHTSubKey} (hne : keyList ≠ [])
    (hcount : keyList.length ≤ fdhtMaxKeyCountPerReq) :
    (batchDelete o keyList).Sends keepAlive timestamp hash := by
  have hlen := packBodyKeys_length_le o hcount
  have hmax := fdhtMaxFullKeyLen_eq
  simp only [Sends, send, fdhtBatchDeleteEx, badKeyCount_eq_false hne hcount, hhash, message, body]
  refine inBuffer_ok ?_
  rw [List.length_append, packHeader_length]
  unfold fdhtMaxSubKeyLen fdhtMaxKeyCountPerReq
  omega

theorem getSubKeys_sends : (getSubKeys o).Sends keepAlive timestamp hash := by
  have hbytes := o.bytes_le
  have hmax := fdhtMaxFullKeyLen_eq
  simp only [Sends, send, fdhtGetSubKeysEx, hhash, message, body]
  refine inBuffer_ok ?_
  rw [List.length_append, packHeader_length, packBodyObject_length]
  omega

end Object

end ClientCall

theorem ClientCall.send_of_fits (hw : c.WellFormed) (hhash : c.keyHashCode = .ok hash)
    (hfits : c.FitsBuffer) : c.Sends keepAlive timestamp hash := by
  have hrange := hw.inRange
  cases c with
  | get k expires => exact get_sends _ _ hhash expires
  | set k value expires => exact set_sends _ _ hhash expires value
  | delete k => exact delete_sends _ _ hhash
  | inc k increase expires => exact inc_sends _ _ hhash expires hfits
  | batchSet o keyList expires => exact batchSet_sends _ _ hhash expires hrange.1 hrange.2
  | batchGet o keyList expires => exact batchGet_sends _ _ hhash expires hrange.1 hrange.2
  | batchDelete o keyList => exact batchDelete_sends _ _ hhash hrange.1 hrange.2
  | getSubKeys o => exact getSubKeys_sends _ _ hhash

theorem ClientCall.send_of_not_fits (hhash : c.keyHashCode = .ok hash) (hfits : ¬ c.FitsBuffer) :
    c.send keepAlive timestamp = .error .overrun := by
  cases c with
  | inc k increase expires =>
    have hhash : calcKeyHashCode k = .ok hash := hhash
    have hfits : ¬ k.bytes ≤ 319 := hfits
    simp only [send, fdhtIncEx, hhash]
    refine if_neg ?_
    rw [List.length_append, packHeader_length, List.length_append, packBodyUntilKey_length,
      int2buff_length]
    unfold sizeofHeader fdhtMaxFullKeyLen fdhtMaxNamespaceLen fdhtMaxObjectIdLen fdhtMaxSubKeyLen
    omega
  | _ => exact absurd trivial hfits

end Messages

/-! ## The handlers -/

section Handlers

variable {S : StoreFuncs σ} {g : Globals} {t : FastTaskInfo} {pkgLen hash ts e : Int}
  {cmd : ProtoCmd} {keepAlive : UInt8} {o : FDHTObjectInfo}

theorem noKey_names {key : FDHTSubKey} (header : ReqHeader) (n : Nat) (hkey : key.szKey ≠ [])
    (hlist : key.szKey ≠ fdhtListKeyName) :
    BatchRequest.Names ⟨header, o.noKey, n⟩ (o.keyInfo key) :=
  ⟨rfl, rfl, hkey, decide_eq_true hlist⟩

theorem noKey_commonFiledsLen (o : FDHTObjectInfo) (header : ReqHeader) (n : Nat) :
    BatchRequest.commonFiledsLen ⟨header, o.noKey, n⟩ = 12 + o.bytes := Nat.add_assoc ..

section Keys

variable {keyList : List FDHTSubKey}
  (h : t.HoldsAt 0 (packHeader pkgLen hash ts e cmd keepAlive ++ packBodyKeys o keyList))
  (howns : g.ownsGroup (g.groupOf hash) = true)
  (hbody : t.inBodyLen = (packBodyKeys o keyList).length) (hne : keyList ≠ [])
  (hcount : keyList.length ≤ fdhtMaxKeyCountPerReq)
include h howns hbody hne hcount

theorem parseBatchKeys_message
    (hsome : 4 < (keyList.flatMap fun key => keyEntry (o.keyInfo key)).length) :
    parseBatchKeys g t = some ⟨packedHeader g hash ts e, o.noKey, keyList.length⟩ ∧
      BatchRequest.inBuff ⟨packedHeader g hash ts e, o.noKey, keyList.length⟩ t =
        keyList.flatMap fun key => keyEntry (o.keyInfo key) := by
  obtain ⟨r, hr⟩ : ∃ r : BatchRequest,
    r = ⟨packedHeader g hash ts e, o.noKey, keyList.length⟩ := ⟨_, rfl⟩
  obtain ⟨entries, hentries⟩ : ∃ entries,
    entries = keyList.flatMap fun key => keyEntry (o.keyInfo key) := ⟨_, rfl⟩
  have hcommon : r.commonFiledsLen = 12 + o.bytes := hr ▸ noKey_commonFiledsLen _ _ _
  have hmost : entries.length ≤ (4 + fdhtMaxSubKeyLen) * keyList.length :=
    hentries ▸ keyEntries_length_le o keyList
  rw [packBodyKeys_length, ← hentries] at hbody
  rw [packBodyKeys, ← hentries] at h
  rw [← hentries] at hsome ⊢
  obtain ⟨hparse, hrest⟩ := parseBatchRequest_message h howns 16 (by push_cast at hbody; omega)
    (List.length_pos_iff.mpr hne) hcount
  rw [← hr] at hparse ⊢
  constructor
  · unfold parseBatchKeys
    rw [hparse, Option.filter_some, if_pos]
    rw [decide_eq_true_eq, hbody, hcommon]
    have hcountEq : r.keyCount = keyList.length := by rw [hr]
    rw [hcountEq]
    exact Int.ofNat_le.mpr (Nat.add_le_add_left hmost _)
  · unfold BatchRequest.inBuff
    rw [hbody, hcommon, show ((12 + o.bytes + entries.length : Nat) -
      (12 + o.bytes : Nat) : Int).toNat = entries.length by omega]
    exact hrest.bytes

omit h howns hbody hcount in
theorem keyEntries_length_gt (hkeys : ∀ key ∈ keyList, key.szKey ≠ []) :
    4 < (keyList.flatMap fun key => keyEntry (o.keyInfo key)).length := by
  obtain ⟨key, rest, rfl⟩ := List.exists_cons_of_ne_nil hne
  have hkey := List.length_pos_iff.mpr (hkeys key List.mem_cons_self)
  have hentry : (keyEntry (o.keyInfo key)).length = 4 + key.szKey.length := keyEntry_length _
  rw [List.flatMap_cons, List.length_append, hentry]
  omega

theorem extractKeys_message
    (hkeys : ∀ key ∈ keyList, key.szKey ≠ [] ∧ key.szKey ≠ fdhtListKeyName) :
    extractKeys g t = some (⟨packedHeader g hash ts e, o.noKey, keyList.length⟩, keyList) := by
  obtain ⟨hparse, hinBuff⟩ := parseBatchKeys_message h howns hbody hne hcount
    (keyEntries_length_gt hne fun key hkey => (hkeys key hkey).1)
  obtain ⟨ks, hks⟩ : ∃ ks, ks = keyList.map o.keyInfo := ⟨_, rfl⟩
  obtain ⟨r, hr⟩ : ∃ r : BatchRequest,
    r = ⟨packedHeader g hash ts e, o.noKey, keyList.length⟩ := ⟨_, rfl⟩
  have hentries : keyList.flatMap (fun key => keyEntry (o.keyInfo key)) = ks.flatMap keyEntry := by
    rw [hks, List.flatMap_map]
  have hcommon : r.commonFiledsLen = 12 + o.bytes := hr ▸ noKey_commonFiledsLen _ _ _
  have hnames : ∀ k ∈ ks, r.Names k := by
    intro k hk
    rw [hks] at hk
    obtain ⟨key, hkey, rfl⟩ := List.mem_map.mp hk
    rw [hr]
    exact noKey_names _ _ (hkeys key hkey).1 (hkeys key hkey).2
  rw [packBodyKeys_length, hentries] at hbody
  rw [hentries] at hinBuff
  rw [← hr] at hparse hinBuff ⊢
  have hread : batchKeysRead r t.inBodyLen (ks.flatMap keyEntry) ks.length 0 =
      some (ks, (ks.flatMap keyEntry).length) :=
    batchKeysRead_entries _ ks [] hnames rfl (by rw [hbody, hcommon]; push_cast; omega)
  have hn : r.keyCount = ks.length := by rw [hr, hks, List.length_map]
  have hsame : ks.map FDHTKeyInfo.subKey = keyList := by
    rw [hks, List.map_map]
    exact List.map_id keyList
  unfold extractKeys
  rw [hparse, Option.bind_some, hinBuff, hn, hread, Option.bind_some,
    if_pos (by rw [hbody, hcommon]; push_cast; omega), hsame]

end Keys

/-- The entries of BATCH_SET, with the object they belong to. -/
def entriesOf (o : FDHTObjectInfo) (keyList : List (FDHTSubKey × Bytes)) :
    List (FDHTKeyInfo × Bytes) := keyList.map fun e => (o.keyInfo e.1, e.2)

section Values

variable {keyList : List (FDHTSubKey × Bytes)}
  (h : t.HoldsAt 0 (packHeader pkgLen hash ts e cmd keepAlive ++ packBodyValues o keyList))
  (howns : g.ownsGroup (g.groupOf hash) = true)
  (hbody : t.inBodyLen = (packBodyValues o keyList).length)
  (hne : keyList ≠ []) (hcount : keyList.length ≤ fdhtMaxKeyCountPerReq) (s : Server σ)
include h howns hbody hne hcount

theorem batchSetStart_ready (hkeys : ∀ e ∈ keyList, e.1.szKey ≠ []) :
    ∃ r : BatchRequest, r = ⟨packedHeader g hash ts e, o.noKey, keyList.length⟩ ∧
      parseBatchRequest g 20 t = some r ∧
      (batchSetStart r t s).SetReady r t.inBodyLen (entriesOf o keyList) := by
  refine ⟨_, rfl, ?_⟩
  obtain ⟨r, hr⟩ : ∃ r : BatchRequest,
    r = ⟨packedHeader g hash ts e, o.noKey, keyList.length⟩ := ⟨_, rfl⟩
  have hentries : keyList.flatMap (fun e => keyValueEntry (o.keyInfo e.1, e.2)) =
      (entriesOf o keyList).flatMap keyValueEntry := by
    rw [entriesOf, List.flatMap_map]
  have hcommon : r.commonFiledsLen = 12 + o.bytes := hr ▸ noKey_commonFiledsLen _ _ _
  have hsome : 8 < ((entriesOf o keyList).flatMap keyValueEntry).length := by
    obtain ⟨e, rest, rfl⟩ := List.exists_cons_of_ne_nil hne
    have hkey := List.length_pos_iff.mpr (hkeys e List.mem_cons_self)
    rw [← hentries, keyValueEntries_length, List.length_cons, List.map_cons, List.sum_cons]
    omega
  rw [packBodyValues_length, hentries] at hbody
  rw [packBodyValues, hentries] at h
  obtain ⟨hparse, hrest⟩ := parseBatchRequest_message h howns 20 (by push_cast at hbody; omega)
    (List.length_pos_iff.mpr hne) hcount
  rw [← hr] at hparse ⊢
  refine ⟨hparse, ?_, Nat.le_refl _, ?_, ?_⟩
  · refine FastTaskInfo.HoldsAt.write ?_ (.inl ?_)
    · show t.HoldsAt (sizeofHeader + r.commonFiledsLen) _
      rw [hcommon]
      exact hrest
    · show sizeofHeader + (int2buff _).length ≤ sizeofHeader + r.commonFiledsLen
      rw [int2buff_length, hcommon]
      omega
  · show ((sizeofHeader + r.commonFiledsLen : Nat) - sizeofHeader + _ : Int) = _
    omega
  · show sizeofHeader + 8 + 4 ≤ sizeofHeader + r.commonFiledsLen
    omega

theorem extractValues_message (hmax : t.inBodyLen < 2 ^ 31)
    (hkeys : ∀ e ∈ keyList, e.1.szKey ≠ [] ∧ e.1.szKey ≠ fdhtListKeyName) :
    extractValues S g t s =
      some (⟨packedHeader g hash ts e, o.noKey, keyList.length⟩, keyList) := by
  obtain ⟨r, hr, hparse, hready⟩ := batchSetStart_ready h howns hbody hne hcount s
    fun e he => (hkeys e he).1
  have hnames : ∀ e ∈ entriesOf o keyList, r.Names e.1 := by
    intro k hk
    obtain ⟨e, he, rfl⟩ := List.mem_map.mp hk
    rw [hr]
    exact noKey_names _ _ (hkeys e he).1 (hkeys e he).2
  have hn : r.keyCount = (entriesOf o keyList).length := by rw [hr, entriesOf, List.length_map]
  have hread := batchSetReads_entries (S := S) (g := g) hmax _ _ hnames hready
  have hsame : ((entriesOf o keyList).map fun e => (e.1.subKey, e.2)) = keyList := by
    rw [entriesOf, List.map_map]
    exact List.map_id keyList
  have hlen := hready.len
  unfold extractValues
  rw [hparse, Option.bind_some, hn, hread, Option.bind_some, if_pos (by push_cast; omega), hsame,
    hr]

end Values

end Handlers

section RoundTrip

variable {S : StoreFuncs σ} {g : Globals} {c : ClientCall} {hash : Int} (keepAlive : UInt8)
  (timestamp : Int)

/-- A task that holds the message of a well formed call, on a server of its group. -/
structure FastTaskInfo.Carries (t : FastTaskInfo) (g : Globals) (hash : Int) (c : ClientCall) :
    Prop where
  wellFormed : c.WellFormed
  holds : t.HoldsAt 0 (c.message keepAlive timestamp hash)
  inBodyLen : t.inBodyLen = c.body.length
  body_lt : c.body.length < 2 ^ 31
  owns : g.ownsGroup (g.groupOf hash) = true
  hash_int : toInt32 hash = hash

namespace FastTaskInfo.Carries

variable {t : FastTaskInfo} {keepAlive timestamp} {k : FDHTKeyInfo} {o : FDHTObjectInfo}
  {expires : Int} (s : Server σ)

theorem cmd (h : t.Carries keepAlive timestamp g hash c) : t.cmd = some c.cmd :=
  cmd_message h.holds (by cases c <;> nofun)

theorem expires_eq (h : t.Carries keepAlive timestamp g hash c) :
    t.intAt expiresOffset = toInt32 c.expires := expires_message h.holds

/-- The requests that are a key and a field of fixed length. -/
theorem parseExact {rest : Bytes} (h : t.Carries keepAlive timestamp g hash c)
    (hbody : c.body = k.packBodyUntilKey ++ rest) (hkey : k.szKey ∈ c.keys) (bodyLen : Int)
    (hlen : bodyLen = 12 + rest.length) : parseExact g bodyLen true t =
      some ⟨packedHeader g hash (c.headerTime timestamp) c.expires, k, 12 + k.bytes⟩ := by
  obtain ⟨hne, hlist⟩ := h.wellFormed.keys _ hkey
  have hholds := h.holds
  have hlength := h.inBodyLen
  rw [ClientCall.message, hbody] at hholds
  rw [hbody, List.length_append, packBodyUntilKey_length] at hlength
  exact parseExact_message true hholds h.owns (by omega) hne fun _ => decide_eq_true hlist

theorem extract_get (h : t.Carries keepAlive timestamp g hash (.get k expires)) :
    extract S g t s = some (hash, (ClientCall.get k expires).onWire) := by
  have hparse := h.parseExact (List.append_nil _).symm List.mem_cons_self 12 rfl
  unfold extract
  rw [h.cmd, h.expires_eq]
  simp only [ClientCall.cmd, hparse, Option.map_some, packedHeader, h.hash_int]
  rfl

theorem extract_set {value : Bytes}
    (h : t.Carries keepAlive timestamp g hash (.set k value expires)) :
    extract S g t s = some (hash, (ClientCall.set k value expires).onWire) := by
  obtain ⟨hkey, hlist⟩ := h.wellFormed.keys k.szKey List.mem_cons_self
  have hlengths : (ClientCall.set k value expires).body.length =
      16 + k.bytes + value.length := by
    rw [ClientCall.body, List.length_append, List.length_append, int2buff_length,
      packBodyUntilKey_length]
    omega
  have hbody := h.inBodyLen
  have hmax := h.body_lt
  rw [hlengths] at hbody hmax
  obtain ⟨hparse, hvalue⟩ := parseSet_message true h.holds h.owns (by exact_mod_cast hbody)
    (by omega) hkey fun _ => decide_eq_true hlist
  have hvalue : t.bodyBytes (12 + k.bytes + 4) value.length = value := hvalue.bytes
  unfold extract
  rw [h.cmd, h.expires_eq]
  simp only [ClientCall.cmd, hparse, Option.map_some, packedHeader, h.hash_int, hvalue]
  rfl

theorem extract_delete (h : t.Carries keepAlive timestamp g hash (.delete k)) :
    extract S g t s = some (hash, .delete k) := by
  have hparse := h.parseExact (List.append_nil _).symm List.mem_cons_self 12 rfl
  unfold extract
  rw [h.cmd]
  simp only [ClientCall.cmd, hparse, Option.map_some, packedHeader, h.hash_int]

theorem extract_inc {increase : Int}
    (h : t.Carries keepAlive timestamp g hash (.inc k increase expires)) :
    extract S g t s = some (hash, (ClientCall.inc k increase expires).onWire) := by
  have hparse := h.parseExact rfl List.mem_cons_self 16 rfl
  obtain ⟨-, hrest⟩ := h.holds.split.2.split
  rw [packHeader_length, packBodyUntilKey_length, Nat.zero_add] at hrest
  have hincrease : t.bodyInt (12 + k.bytes) = increase :=
    hrest.int.trans (toInt32_of_range h.wellFormed.inRange.1 h.wellFormed.inRange.2)
  unfold extract
  rw [h.cmd, h.expires_eq]
  simp only [ClientCall.cmd, hparse, Option.map_some, packedHeader, h.hash_int, hincrease]
  rfl

theorem extract_batchSet {keyList : List (FDHTSubKey × Bytes)}
    (h : t.Carries keepAlive timestamp g hash (.batchSet o keyList expires)) :
    extract S g t s = some (hash, (ClientCall.batchSet o keyList expires).onWire) := by
  have hread := extractValues_message (S := S) h.holds h.owns h.inBodyLen h.wellFormed.inRange.1
    h.wellFormed.inRange.2 s (by rw [h.inBodyLen]; exact_mod_cast h.body_lt)
    (fun e he => h.wellFormed.keys _ (List.mem_map_of_mem he))
  unfold extract
  rw [h.cmd, h.expires_eq]
  simp only [ClientCall.cmd, hread, Option.map_some, packedHeader, h.hash_int]
  rfl

theorem extractKeys {keyList : List FDHTSubKey} (h : t.Carries keepAlive timestamp g hash c)
    (hbody : c.body = packBodyKeys o keyList) (hkeys : c.keys = keyList.map FDHTSubKey.szKey)
    (hne : keyList ≠ []) (hcount : keyList.length ≤ fdhtMaxKeyCountPerReq) :
    extractKeys g t = some (⟨packedHeader g hash (c.headerTime timestamp) c.expires, o.noKey,
      keyList.length⟩, keyList) := by
  have hholds := h.holds
  rw [ClientCall.message, hbody] at hholds
  exact extractKeys_message hholds h.owns (hbody ▸ h.inBodyLen) hne hcount
    fun key hkey => h.wellFormed.keys _ (hkeys ▸ List.mem_map_of_mem hkey)

theorem extract_batchGet {keyList : List FDHTSubKey}
    (h : t.Carries keepAlive timestamp g hash (.batchGet o keyList expires)) :
    extract S g t s = some (hash, (ClientCall.batchGet o keyList expires).onWire) := by
  have hread := h.extractKeys rfl rfl h.wellFormed.inRange.1 h.wellFormed.inRange.2
  unfold extract
  rw [h.cmd, h.expires_eq]
  simp only [ClientCall.cmd, hread, Option.map_some, packedHeader, h.hash_int]
  rfl

theorem extract_batchDelete {keyList : List FDHTSubKey}
    (h : t.Carries keepAlive timestamp g hash (.batchDelete o keyList)) :
    extract S g t s = some (hash, .batchDelete o keyList) := by
  have hread := h.extractKeys rfl rfl h.wellFormed.inRange.1 h.wellFormed.inRange.2
  unfold extract
  rw [h.cmd]
  simp only [ClientCall.cmd, hread, Option.map_some, packedHeader, h.hash_int]
  rfl

theorem extract_getSubKeys (h : t.Carries keepAlive timestamp g hash (.getSubKeys o)) :
    extract S g t s = some (hash, .getSubKeys o) := by
  have hcheck := checkGroupId_message h.holds h.owns
  have hbody := h.inBodyLen
  rw [ClientCall.body, packBodyObject_length] at hbody
  obtain ⟨hparse, -⟩ := parseCommonBodyBeforeKey_packed 7 h.holds.split.2
    (by rw [hbody]; push_cast; omega)
  have hexact : t.hasBodyLen 8 o.noKey = true := by
    unfold FastTaskInfo.hasBodyLen
    rw [hbody, decide_eq_true_eq, FDHTObjectInfo.bytes]
    show ((8 + (o.szNameSpace.length + o.szObjectId.length) : Nat) : Int) =
      8 + o.szNameSpace.length + o.szObjectId.length + (([] : Bytes).length : Int)
    simp only [List.length_nil]
    omega
  unfold extract
  rw [h.cmd]
  simp only [ClientCall.cmd, hcheck, hparse, Option.bind_some, hexact, if_true, packedHeader,
    h.hash_int]
  rfl

end FastTaskInfo.Carries

theorem extract_message (s : Server σ) (hw : c.WellFormed) (hhash : c.keyHashCode = .ok hash)
    (howns : g.ownsGroup (g.groupOf hash) = true)
    (hlen : (c.message keepAlive timestamp hash).length < 2 ^ 31) (behind clientIp : Bytes) :
    extract S g (receivedTask (c.message keepAlive timestamp hash) behind clientIp) s =
      some (hash, c.onWire) := by
  have h : (receivedTask (c.message keepAlive timestamp hash) behind clientIp).Carries keepAlive
      timestamp g hash c := by
    refine ⟨hw, receivedTask_holdsAt _ behind clientIp, receivedTask_inBodyLen rfl hlen _ _, ?_,
      howns, c.toInt32_keyHashCode hhash⟩
    rw [ClientCall.message, List.length_append] at hlen
    omega
  cases c with
  | get k expires => exact h.extract_get s
  | set k value expires => exact h.extract_set s
  | delete k => exact h.extract_delete s
  | inc k increase expires => exact h.extract_inc s
  | batchSet o keyList expires => exact h.extract_batchSet s
  | batchGet o keyList expires => exact h.extract_batchGet s
  | batchDelete o keyList => exact h.extract_batchDelete s
  | getSubKeys o => exact h.extract_getSubKeys s

theorem ClientCall.onWire_eq_iff (c : ClientCall) :
    c.onWire = c ↔ -2 ^ 31 ≤ c.expires ∧ c.expires < 2 ^ 31 := by
  have hint : ∀ e : Int, toInt32 e = e ↔ -2 ^ 31 ≤ e ∧ e < 2 ^ 31 := by
    intro e
    constructor
    · intro h
      exact h ▸ ⟨(toInt32_spec e).1, toInt32_lt e⟩
    · exact fun h => toInt32_of_range h.1 h.2
  have hnever : -2 ^ 31 ≤ fdhtExpiresNever ∧ fdhtExpiresNever < 2 ^ 31 := ⟨by decide, by decide⟩
  cases c with
  | get k e => simp only [onWire, get.injEq, true_and, expires, hint]
  | set k value e => simp only [onWire, set.injEq, true_and, expires, hint]
  | inc k increase e => simp only [onWire, inc.injEq, true_and, expires, hint]
  | batchSet o keyList e => simp only [onWire, batchSet.injEq, true_and, expires, hint]
  | batchGet o keyList e => simp only [onWire, batchGet.injEq, true_and, expires, hint]
  | delete k => exact ⟨fun _ => hnever, fun _ => rfl⟩
  | batchDelete o keyList => exact ⟨fun _ => hnever, fun _ => rfl⟩
  | getSubKeys o => exact ⟨fun _ => hnever, fun _ => rfl⟩

theorem pkgLen_message (hlen : (c.message keepAlive timestamp hash).length < 2 ^ 31) :
    buff2int (readAt (c.message keepAlive timestamp hash) pkgLenOffset 4) =
      (c.message keepAlive timestamp hash).length - sizeofHeader := by
  rw [ClientCall.message, List.length_append, packHeader_length] at hlen ⊢
  rw [packHeader, List.append_assoc]
  have hread : ∀ rest : Bytes, readAt (int2buff c.body.length ++ rest) pkgLenOffset 4 =
      int2buff c.body.length := fun rest => by
    have h := readAt_append [] (int2buff c.body.length) rest
    rwa [int2buff_length] at h
  rw [hread, ← List.append_nil (int2buff _), buff2int_int2buff, toInt32_of_range (by omega) (by omega)]
  omega

/-- **A request is accepted and read back exactly if its message fits the client's
buffer and its expiry fits the header.** -/
theorem request_round_trip_iff (s : Server σ) (hw : c.WellFormed)
    (hhash : c.keyHashCode = .ok hash) (howns : g.ownsGroup (g.groupOf hash) = true)
    (gMaxPkgSize : Nat) (hint : gMaxPkgSize < 2 ^ 31)
    (hlen : ∀ message, c.send keepAlive timestamp = .ok message → message.length ≤ gMaxPkgSize)
    (behind clientIp : Bytes) :
    (∃ message, c.send keepAlive timestamp = .ok message ∧
      buff2int (readAt message pkgLenOffset 4) = message.length - sizeofHeader ∧
      extract S g (receivedTask message behind clientIp) s = some (hash, c)) ↔
    c.FitsBuffer ∧ -2 ^ 31 ≤ c.expires ∧ c.expires < 2 ^ 31 := by
  by_cases hfits : c.FitsBuffer
  · have hsend : c.send keepAlive timestamp = _ := c.send_of_fits _ _ hw hhash hfits
    have hsize := (hlen _ hsend).trans_lt hint
    have hextract := extract_message (S := S) keepAlive timestamp s hw hhash howns hsize behind
      clientIp
    rw [← c.onWire_eq_iff]
    constructor
    · rintro ⟨message, hmessage, -, hread⟩
      rw [hsend] at hmessage
      obtain rfl := Except.ok.inj hmessage
      rw [hextract] at hread
      exact ⟨hfits, congrArg Prod.snd (Option.some.inj hread)⟩
    · rintro ⟨-, hwire⟩
      refine ⟨_, hsend, pkgLen_message keepAlive timestamp hsize, ?_⟩
      rw [hextract, hwire]
  · refine ⟨?_, fun h => absurd h.1 hfits⟩
    rintro ⟨message, hmessage, -⟩
    rw [c.send_of_not_fits keepAlive timestamp hhash hfits] at hmessage
    cases hmessage

end RoundTrip

/-- An increment of a key with the longest namespace and object id. -/
def longInc (keyLen : Nat) (h : keyLen ≤ fdhtMaxSubKeyLen) : ClientCall :=
  .inc ⟨List.replicate 64 97, List.replicate 128 98, List.replicate keyLen 99,
    List.length_replicate.le, List.length_replicate.le, List.length_replicate.trans_le h⟩ 1 60

section LongInc

variable (keyLen : Nat) (h : keyLen ≤ fdhtMaxSubKeyLen)

theorem longInc_wellFormed (hlong : 2 ≤ keyLen) : (longInc keyLen h).WellFormed := by
  refine ⟨?_, by decide, by decide⟩
  intro key hkey
  obtain rfl := List.mem_singleton.mp hkey
  have hne : ∀ name : Bytes, name.length < 2 → List.replicate keyLen (99 : UInt8) ≠ name := by
    rintro name hname rfl
    rw [List.length_replicate] at hname
    omega
  exact ⟨hne _ Nat.zero_lt_two, hne _ Nat.one_lt_two⟩

theorem longInc_keyHashCode : ∃ hash, (longInc keyLen h).keyHashCode = .ok hash ∧
    oneGroup.ownsGroup (oneGroup.groupOf hash) = true := by
  refine ⟨keyHashCodeOf (List.replicate 64 97 ++ fdhtFullKeySeperator :: List.replicate 128 98),
    ?_, ?_⟩
  · rfl
  · rw [Globals.groupOf, show oneGroup.groupCount = 1 from rfl, Nat.mod_one]
    rfl

theorem longInc_fits_iff : (longInc keyLen h).FitsBuffer ↔ keyLen ≤ 127 := by
  simp only [longInc, ClientCall.FitsBuffer, FDHTKeyInfo.bytes, List.length_replicate]
  omega

end LongInc

theorem request_round_trip_long_inc :
    ∃ hash message, (longInc 127 (by decide)).keyHashCode = .ok hash ∧
      (longInc 127 (by decide)).send 1 1000 = .ok message ∧
      extract bdbFuncs oneGroup (receivedTask message [] []) emptyServer =
        some (hash, longInc 127 (by decide)) := by
  have hw := longInc_wellFormed 127 (by decide) (by decide)
  obtain ⟨hash, hhash, howns⟩ := longInc_keyHashCode 127 (by decide)
  have hfits := (longInc_fits_iff 127 (by decide)).mpr (Nat.le_refl _)
  have hsend : (longInc 127 (by decide)).send 1 1000 = _ :=
    (longInc 127 (by decide)).send_of_fits 1 1000 hw hhash hfits
  obtain ⟨message, hmessage, -, hread⟩ :=
    (request_round_trip_iff (S := bdbFuncs) 1 1000 emptyServer hw hhash howns 65536
      (by decide) (fun m hm => by
        rw [hsend] at hm
        obtain rfl := Except.ok.inj hm
        simp [longInc, ClientCall.message, ClientCall.body, packHeader_length,
          packBodyUntilKey_length, FDHTKeyInfo.bytes, int2buff_length, sizeofHeader])
      [] []).mpr ⟨hfits, by decide, by decide⟩
  exact ⟨hash, message, hhash, hmessage, hread⟩

/-- fdht_inc_ex cannot send the longest key that its checks accept. -/
theorem request_round_trip_overrun :
    (longInc 128 (by decide)).WellFormed ∧
    (∃ hash, (longInc 128 (by decide)).keyHashCode = .ok hash ∧
      oneGroup.ownsGroup (oneGroup.groupOf hash) = true) ∧
    (longInc 128 (by decide)).send 1 1000 = .error .overrun := by
  obtain ⟨hash, hhash, howns⟩ := longInc_keyHashCode 128 (by decide)
  refine ⟨longInc_wellFormed 128 _ (by decide), ⟨hash, hhash, howns⟩, ?_⟩
  refine (longInc 128 _).send_of_not_fits 1 1000 hhash ?_
  rw [longInc_fits_iff]
  decide

end FastDht
