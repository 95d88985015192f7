import FastDht.Client.RequestRoundTrip
import FastDht.Server.BufferOwnership
import FastDht.Server.KeepAlive
import FastDht.Server.Stat

/-! # Room for the response

A handler builds its response in the buffer of the request. GET and BATCH_GET ask for
more room when they need it, and the other handlers trust that the response is not
longer than the request or than the smallest buffer. For the loops of BATCH_GET and
BATCH_SET the end of every write of an entry is compared with the size; elsewhere a
write past the end makes the buffer of the model longer, so that the size tells. BATCH_DEL
answers a key of `n` bytes with `n + 5` where the request has `n + 4`, and what is saved
on the names need not make up for it. -/

namespace FastDht
open Lib

variable {σ : Type}
variable {r : BatchRequest} {m : Int}

/-- `g_min_buff_size`, as it is set from the `min_buff_size` of the configuration
file. -/
def gMinBuffSize (minBuffSize : Option Int) : Int :=
  match minBuffSize with
  | none => 64 * 1024
  | some bytes => if toInt32 bytes < 1024 then 1024 else toInt32 bytes

theorem le_gMinBuffSize (minBuffSize : Option Int) : 1024 ≤ gMinBuffSize minBuffSize := by
  unfold gMinBuffSize
  split
  · decide
  · split <;> omega

/-! ## What fits -/

section Fits

variable (S : StoreFuncs σ) (g : Globals) (env : TaskEnv)

/-- What an entry of BATCH_GET writes ends in the buffer as it is at that time: its key
and the byte for the status, and the value with the expiry or the length in front. -/
def BatchGetEntryFits (r : BatchRequest) (inBodyLen : Int) (inBuff : Bytes) (i : Nat)
    (b : BatchState σ) : Prop :=
  ∀ keyInfo src t, batchKey r inBodyLen inBuff b.src = some (keyInfo, src) →
    (if b.task.size ≤ b.dest + (9 + keyInfo.szKey.length) then
        checkBuffSize (env.alloc (2 * i)) b.dest (9 + keyInfo.szKey.length) b.task
      else some b.task) = some t →
    let dest := b.dest + 4 + keyInfo.szKey.length + 1
    let get := S.get b.server.store r.header.groupId keyInfo.packFullKey (t.size - dest)
    (dest : Int) ≤ t.size ∧
    (get.1.result = 0 → ((dest + max get.1.value.length 4 : Nat) : Int) ≤ t.size) ∧
    (get.1.result = ENOSPC → ∀ t',
      checkBuffSize (env.alloc (2 * i + 1)) dest get.1.size (t.writeKey b.dest keyInfo) = some t' →
      let get' := S.get get.2 r.header.groupId keyInfo.packFullKey get.1.size
      get'.1.result = 0 → ((dest + max get'.1.value.length 4 : Nat) : Int) ≤ t'.size)

/-- What an entry of BATCH_SET writes ends in a buffer of `size` bytes: the key into the
response, the expiry in front of the value, and the status. The first two are written
before the value goes to the store, where a length below -4 has no defined behaviour. -/
def BatchSetEntryFits (r : BatchRequest) (inBodyLen size : Int) (b : BatchState σ) : Prop :=
  ∀ keyInfo valueLen src, batchSetHead r inBodyLen b.task b.src = some (keyInfo, valueLen, src) →
    (b.dest + 4 + keyInfo.szKey.length : Int) ≤ size ∧ (src + 4 : Int) ≤ size ∧
    (-4 ≤ valueLen → (b.dest + 4 + keyInfo.szKey.length + 1 : Int) ≤ size)

/-- Every write that is made while the request is handled stays in the buffer. GET and
BATCH_GET may replace the buffer; `sprintf` in STAT writes one more byte than its
text. The batches of which an entry is looked at write the header and eight bytes behind it
besides. -/
def ResponseFits (t : FastTaskInfo) (s : Server σ) : Prop :=
  (sizeofHeader : Int) ≤ t.size ∧
  match t.cmd with
  | some .get => (dealCmdGet S g env t s).task.size =
      if getReplaces S g env t s then
        sizeofHeader + ((parseExact g 12 true t).map fun r => (S.get s.store r.header.groupId
          r.keyInfo.packFullKey (t.size - sizeofHeader)).1.size).getD 0
      else t.size
  | some .batchGet => (sizeofHeader + 8 : Int) ≤ t.size ∧
      ∀ r i b, parseBatchKeys g t = some r → i < r.keyCount →
        batchLoop (batchGetEntry S g env r t.inBodyLen (r.inBuff t)) i 0 (batchKeysStart r t s) =
          .ok b →
        BatchGetEntryFits S env r t.inBodyLen (r.inBuff t) i b
  | some .batchSet => (sizeofHeader + 8 : Int) ≤ t.size ∧
      ∀ r i b, parseBatchRequest g 20 t = some r → i < r.keyCount →
        batchLoop (fun _ => batchSetEntry S g r t.inBodyLen) i 0 (batchSetStart r t s) = .ok b →
        BatchSetEntryFits r t.inBodyLen t.size b
  | some .stat => t.inBodyLen = 0 → (sizeofHeader + env.stat.2.length + 1 : Int) ≤ t.size
  | cmd => ∀ reply, dealCmd S g env t s cmd = some reply → reply.task.size = t.size

end Fits

/-! ## What is needed -/

/-- The keys that BATCH_DEL answers, up to one that is malformed. -/
def batchDelKeys (r : BatchRequest) (inBodyLen : Int) (inBuff : Bytes) :
    Nat → Nat → List FDHTKeyInfo
  | 0, _ => []
  | n + 1, src =>
    match batchKey r inBodyLen inBuff src with
    | none => []
    | some (k, src') => k :: batchDelKeys r inBodyLen inBuff n src'

/-- The bytes of a batch response that has only a status for each key. -/
def statusesLength (ks : List FDHTKeyInfo) : Nat := (ks.map fun k => 4 + k.szKey.length + 1).sum

/-- The response of BATCH_DEL, which is as long as its keys make it, has room. -/
def EnoughRoom (g : Globals) (t : FastTaskInfo) : Prop :=
  t.cmd = some .batchDel → ∀ r, parseBatchKeys g t = some r →
    ((sizeofHeader + 8 + statusesLength
      (batchDelKeys r t.inBodyLen (r.inBuff t) r.keyCount 0) : Nat) : Int) ≤ t.size

/-! ## The size of a buffer -/

section Sizes

variable {S : StoreFuncs σ} {g : Globals} {env : TaskEnv} {t : FastTaskInfo} {s : Server σ}

theorem FastTaskInfo.size_write (t : FastTaskInfo) (off : Nat) (v : Bytes) :
    (t.write off v).size = max t.size (off + v.length : Nat) := by
  have hlen : (t.write off v).data.length = _ := length_writeAt t.data v off
  unfold FastTaskInfo.size
  omega

theorem getValue_size {r : KeyRequest} {n : Int} (h : (sizeofHeader + 4 : Int) ≤ t.size) :
    (getValue S g r n t s).task.size = t.size := by
  have hreply : ∀ {t : FastTaskInfo} {s : Server σ}, (sizeofHeader + 4 : Int) ≤ t.size →
      (getReply n t s).task.size = t.size := by
    intro t s h
    show ((t.write expiresOffset _).write sizeofHeader _).size = t.size
    have hread : (t.bodyBytes 0 4).length = 4 := readAt_length _ _ _
    have hlt : expiresOffset < sizeofHeader := by decide
    rw [FastTaskInfo.size_write, FastTaskInfo.size_write, int2buff_length, hread]
    omega
  unfold getValue
  split
  · rfl
  split
  · have hsize : (t.write sizeofHeader (int2buff (toInt32 r.header.newExpires))).size = t.size := by
      rw [FastTaskInfo.size_write, int2buff_length]
      omega
    rw [hreply (by omega), hsize]
  · exact hreply h

/-- A get that fails writes nothing; if it asks for more room, it says how much is
needed. -/
structure StoreFuncs.MindsRoom (S : StoreFuncs σ) : Prop where
  needs_more : ∀ s g k n, (S.get s g k n).1.result = ENOSPC → n < (S.get s g k n).1.size
  no_value : ∀ s g k n, (S.get s g k n).1.result ≠ 0 → (S.get s g k n).1.value = []

theorem mindsRoom_found (value : Bytes) (n : Int) :
    let v : GetResult := if n < value.length then ⟨ENOSPC, [], value.length⟩
      else ⟨0, value, value.length⟩
    (v.result = ENOSPC → n < v.size) ∧ (v.result ≠ 0 → v.value = []) := by
  split
  · rename_i hlt
    exact ⟨fun _ => hlt, fun _ => rfl⟩
  · exact ⟨fun h => absurd h (show (0 : Int) ≠ ENOSPC by decide), fun h => absurd rfl h⟩

theorem bdbStore_mindsRoom : bdbFuncs.MindsRoom := by
  have hget : ∀ db g k n, ((dbDoGet db g k n).result = ENOSPC → n < (dbDoGet db g k n).size) ∧
      ((dbDoGet db g k n).result ≠ 0 → (dbDoGet db g k n).value = []) := by
    intro db g k n
    unfold dbDoGet
    split
    · exact ⟨fun h => absurd h (show EFAULT ≠ ENOSPC by decide), fun _ => rfl⟩
    · cases db.data (g, k) with
      | none => exact ⟨fun h => absurd h (show ENOENT ≠ ENOSPC by decide), fun _ => rfl⟩
      | some value => exact mindsRoom_found value n
  exact ⟨fun db g k n => (hget db g k n).1, fun db g k n => (hget db g k n).2⟩

theorem mpoolFuncs_mindsRoom : mpoolFuncs.MindsRoom := by
  have hget : ∀ p g k n, ((mpGet p g k n).1.result = ENOSPC → n < (mpGet p g k n).1.size) ∧
      ((mpGet p g k n).1.result ≠ 0 → (mpGet p g k n).1.value = []) := by
    intro p g k n
    unfold mpGet
    cases hashFindEx p.hashArray k with
    | none => exact ⟨fun h => absurd h (show ENOENT ≠ ENOSPC by decide), fun _ => rfl⟩
    | some d => exact mindsRoom_found d.value n
  exact ⟨fun p g k n => (hget p g k n).1, fun p g k n => (hget p g k n).2⟩

theorem dealCmdGet_size (hS : S.MindsRoom) (hsize : 1024 ≤ t.size) :
    (dealCmdGet S g env t s).task.size = if getReplaces S g env t s then
        sizeofHeader + ((parseExact g 12 true t).map fun r => (S.get s.store r.header.groupId
          r.keyInfo.packFullKey (t.size - sizeofHeader)).1.size).getD 0
      else t.size := by
  have hsizeof : (sizeofHeader : Int) = 19 := rfl
  unfold getReplaces
  cases hr : parseExact g 12 true t with
  | none =>
    simp only [dealCmdGet, hr]
    rfl
  | some r =>
    obtain ⟨⟨v, store⟩, hget⟩ : ∃ p, S.get s.store r.header.groupId r.keyInfo.packFullKey
      (t.size - sizeofHeader) = p := ⟨_, rfl⟩
    obtain ⟨⟨v', store'⟩, hget'⟩ : ∃ p, S.get store r.header.groupId r.keyInfo.packFullKey
      v.size = p := ⟨_, rfl⟩
    have hle := S.get_le s.store r.header.groupId r.keyInfo.packFullKey (t.size - sizeofHeader)
    have hle' := S.get_le store r.header.groupId r.keyInfo.packFullKey v.size
    have hmore := hS.needs_more s.store r.header.groupId r.keyInfo.packFullKey (t.size - sizeofHeader)
    rw [hget] at hle hmore
    rw [hget'] at hle'
    simp only [dealCmdGet, hr, hget, Option.map_some, Option.getD_some]
    by_cases h0 : v.result = 0
    · have hne : ¬ v.result = ENOSPC := by
        rw [h0]
        decide
      have hwritten : (t.write sizeofHeader v.value).size = t.size := by
        have hfits := hle h0
        dsimp only at hfits
        rw [FastTaskInfo.size_write]
        omega
      rw [if_pos h0, decide_eq_false hne, Bool.false_and, if_neg Bool.false_ne_true,
        getValue_size (by omega), hwritten]
    · rw [if_neg h0]
      by_cases hnospc : v.result = ENOSPC
      · rw [if_pos hnospc, decide_eq_true hnospc, Bool.true_and]
        cases halloc : env.alloc 0 with
        | none => rfl
        | some fresh =>
          have hsize' : (readAt t.data 0 sizeofHeader ++ readAt fresh 0 v.size.toNat).length =
              sizeofHeader + v.size.toNat := by
            rw [List.length_append, readAt_length, readAt_length]
          have hneeds := hmore hnospc
          dsimp only at hneeds
          simp only [hget', Option.isSome_some, if_true]
          by_cases h0' : v'.result = 0
          · rw [if_neg (not_not.mpr h0')]
            have hfits := hle' h0'
            dsimp only at hfits
            obtain ⟨t', ht'⟩ : ∃ t', t' = { t with
              data := readAt t.data 0 sizeofHeader ++ readAt fresh 0 v.size.toNat } := ⟨_, rfl⟩
            have hsize₁ : t'.size = sizeofHeader + v.size := by
              rw [ht']
              unfold FastTaskInfo.size
              rw [hsize']
              omega
            have hwritten : (t'.write sizeofHeader v'.value).size = t'.size := by
              rw [FastTaskInfo.size_write]
              omega
            rw [← ht', getValue_size (by omega), hwritten, hsize₁]
          · rw [if_pos h0']
            show ((readAt t.data 0 sizeofHeader ++ readAt fresh 0 v.size.toNat).length : Int) = _
            omega
      · rw [if_neg hnospc, decide_eq_false hnospc, Bool.false_and, if_neg Bool.false_ne_true]
        rfl

theorem checkBuffSize_size {fresh : Option Bytes} {oldLen : Nat} {valueLen : Int}
    {t' : FastTaskInfo} (h : checkBuffSize fresh oldLen valueLen t = some t') :
    t'.size = ((oldLen + valueLen + 8192).toNat : Int) := by
  obtain ⟨bytes, -, rfl⟩ := Option.map_eq_some_iff.mp h
  unfold FastTaskInfo.size
  rw [readAt_length]

theorem batchGetEntry_fits (r : BatchRequest) (inBodyLen : Int) (inBuff : Bytes) (i : Nat)
    (b : BatchState σ) : BatchGetEntryFits S env r inBodyLen inBuff i b := by
  intro k src t hkey hroom
  have hsize : (b.dest + (9 + k.szKey.length) : Int) < t.size := by
    split at hroom
    · rw [checkBuffSize_size hroom]
      omega
    · obtain rfl := Option.some.inj hroom
      omega
  have hle := S.get_le b.server.store r.header.groupId k.packFullKey
    (t.size - (b.dest + 4 + k.szKey.length + 1 : Nat))
  refine ⟨by omega, fun h0 => ?_, fun hnospc t' hgrow => ?_⟩
  · omega
  · dsimp only
    intro h0
    have hle' := S.get_le _ _ _ _ h0
    rw [checkBuffSize_size hgrow]
    omega

/-! ### Responses of statuses -/

theorem batchDelEntry_size {buff : Bytes} {b b' : BatchState σ}
    {k : FDHTKeyInfo} {src : Nat} (hkey : batchKey r m buff b.src = some (k, src))
    (he : batchDelEntry S g r m buff b = .ok b') :
    b'.src = src ∧ b'.dest = b.dest + 4 + k.szKey.length + 1 ∧
      b'.task.size = max b.task.size b'.dest := by
  have hsize : ∀ status : Int, (((b.task.write b.dest (int2buff k.szKey.length)).write (b.dest + 4)
      k.szKey).write (b.dest + 4 + k.szKey.length) (statusByte status)).size =
      max b.task.size (b.dest + 4 + k.szKey.length + 1 : Nat) := by
    intro status
    rw [FastTaskInfo.size_write, FastTaskInfo.size_write, FastTaskInfo.size_write, int2buff_length,
      statusByte, List.length_singleton]
    omega
  unfold batchDelEntry at he
  rw [hkey] at he
  dsimp only at he
  split at he
  · obtain rfl := Except.ok.inj he
    exact ⟨rfl, rfl, hsize _⟩
  · obtain rfl := Except.ok.inj he
    exact ⟨rfl, rfl, hsize _⟩

theorem batchLoop_del_size (r : BatchRequest) (m : Int) (buff : Bytes) (n : Nat) :
    ∀ (i : Nat) (b : BatchState σ), (b.dest : Int) ≤ b.task.size →
      ∃ b' : BatchState σ, (batchLoop (fun _ => batchDelEntry S g r m buff) n i b = .ok b' ∨
          batchLoop (fun _ => batchDelEntry S g r m buff) n i b = .error (.ret EINVAL b')) ∧
        b'.task.size = max b.task.size
          (b.dest + statusesLength (batchDelKeys r m buff n b.src) : Nat) := by
  induction n with
  | zero =>
    intro i b hdest
    refine ⟨b, .inl rfl, ?_⟩
    rw [batchDelKeys, statusesLength, List.map_nil, List.sum_nil]
    omega
  | succ n ih =>
    intro i b hdest
    unfold batchLoop batchDelKeys
    rcases batchDelEntry_cases S g r m buff b with ⟨hkey, he⟩ | ⟨b₁, k, he, hstep⟩
    · refine ⟨b, .inr (by rw [he]), ?_⟩
      rw [hkey, statusesLength, List.map_nil, List.sum_nil]
      omega
    · obtain ⟨-, hdest₁, hsize₁⟩ := batchDelEntry_size hstep.key he
      obtain ⟨b', hloop, hsize⟩ := ih (i + 1) b₁ (by omega)
      rw [he, hstep.key]
      refine ⟨b', hloop, ?_⟩
      rw [hsize, hsize₁, hdest₁]
      unfold statusesLength
      rw [List.map_cons, List.sum_cons]
      omega

theorem batchReply_size {consumed : Bool} {finish : BatchState σ → Reply σ} {b : BatchState σ}
    (hfinish : (finish b).task.size = b.task.size) (hsize : (sizeofHeader + 8 : Int) ≤ b.task.size) :
    (batchReply consumed finish b).task.size = b.task.size := by
  unfold batchReply
  split
  · rfl
  split
  · show ((finish b).task.write (sizeofHeader + 4) _).size = _
    rw [FastTaskInfo.size_write, hfinish, int2buff_length]
    omega
  · rfl

theorem start_size {n : Nat} (hsize : (sizeofHeader + 8 : Int) ≤ t.size) :
    (t.write sizeofHeader (int2buff n)).size = t.size :=
  FastTaskInfo.write_size (by rw [int2buff_length]; omega)

theorem dealCmdBatchDel_size (hr : parseBatchKeys g t = some r)
    (hsize : (sizeofHeader + 8 : Int) ≤ t.size) :
    (dealCmdBatchDel S g t s).task.size = max t.size (sizeofHeader + 8 + statusesLength
      (batchDelKeys r t.inBodyLen (r.inBuff t) r.keyCount 0) : Nat) := by
  have hstart : (batchKeysStart r t s).task.size = t.size := start_size hsize
  obtain ⟨b, hloop, hb⟩ := batchLoop_del_size (S := S) (g := g) r t.inBodyLen (r.inBuff t)
    r.keyCount 0 (batchKeysStart r t s) (by rw [hstart]; exact hsize)
  rw [hstart] at hb
  unfold dealCmdBatchDel dealCmdBatchKeys
  rw [hr]
  dsimp only
  rcases hloop with hloop | hloop
  · rw [hloop]
    rw [batchReply_size rfl (by omega), hb]
    rfl
  · rw [hloop]
    exact hb

theorem batchSetHead_le {t : FastTaskInfo} {src src' : Nat}
    {k : FDHTKeyInfo} {valueLen : Int} (h : batchSetHead r m t src = some (k, valueLen, src')) :
    (src' + 4 : Int) ≤ sizeofHeader + m := by
  unfold batchSetHead at h
  dsimp only at h
  split at h
  · cases h
  split at h
  · cases h
  split at h
  · cases h
  split at h
  · cases h
  · obtain ⟨-, -, rfl⟩ := h
    omega

/-- Without a negative value length the response stays behind the entries. -/
theorem batchLoop_set_fits {size : Int} (hm : sizeofHeader + m ≤ size) (n : Nat) :
    ∀ (i : Nat) (b : BatchState σ), b.dest ≤ b.src → negativeEntry r m b.task n b.src = false →
      ∀ j b', j < n → batchLoop (fun _ => batchSetEntry S g r m) j i b = .ok b' →
        BatchSetEntryFits r m size b' := by
  induction n with
  | zero => exact fun _ _ _ _ j _ hj => absurd hj (Nat.not_lt_zero j)
  | succ n ih =>
    intro i b hdest hneg j b' hj hloop
    cases j with
    | zero =>
      obtain rfl := Except.ok.inj hloop
      intro k valueLen src hhead
      obtain ⟨-, hsrc, -⟩ := batchSetHead_some hhead
      have hle := batchSetHead_le hhead
      refine ⟨by omega, by omega, fun _ => by omega⟩
    | succ j =>
      rw [batchLoop] at hloop
      cases he : batchSetEntry S g r m b with
      | error stop =>
        rw [he] at hloop
        cases hloop
      | ok b₁ =>
        rw [he] at hloop
        obtain ⟨k, valueLen, src, hstep⟩ := batchSetEntry_ok he
        unfold negativeEntry at hneg
        rw [hstep.head] at hneg
        simp only [Bool.or_eq_false_iff, decide_eq_false_iff_not] at hneg
        have hvalue : 0 ≤ valueLen := by omega
        refine ih (i + 1) b₁ (hstep.dest_le hvalue hdest) ?_ j b' (by omega) hloop
        rw [hstep.src_eq, negativeEntry_congr n _ fun i hi =>
          hstep.frame hvalue hdest (by rw [hstep.src_eq]; exact hi)]
        exact hneg.2

theorem batchSet_fits (hset : t.cmd = some .batchSet) (hnonneg : 0 ≤ t.length)
    (hlen : t.length ≤ t.size) (hneg : t.hasNegativeEntry g = false) {i : Nat} {b : BatchState σ}
    (hr : parseBatchRequest g 20 t = some r) (hi : i < r.keyCount)
    (hloop : batchLoop (fun _ => batchSetEntry S g r t.inBodyLen) i 0 (batchSetStart r t s) =
      .ok b) : BatchSetEntryFits r t.inBodyLen t.size b := by
  have hentries : negativeEntry r t.inBodyLen (batchSetStart r t s).task r.keyCount
      (batchSetStart r t s).src = false := by
    rw [negativeEntry_start]
    simpa [FastTaskInfo.hasNegativeEntry, hset, hr] using hneg
  have hbody : sizeofHeader + t.inBodyLen ≤ t.size := by
    obtain ⟨hl, hu, q, hq⟩ := toInt32_spec (t.length - sizeofHeader)
    have hsizeof : (sizeofHeader : Int) = 19 := rfl
    unfold FastTaskInfo.inBodyLen
    omega
  exact batchLoop_set_fits hbody r.keyCount 0 _ (batchSetStart_dest_le r t s) hentries i b hi hloop

/-! ### The other commands -/

theorem dealCmdSet_size (hsize : 1024 ≤ t.size) (op : OpType) :
    (dealCmdSet S g op t s).task.size = t.size := by
  unfold dealCmdSet
  cases hr : parseSet g (op = .sourceSet) t with
  | none => rfl
  | some p =>
    obtain ⟨r, valueLen⟩ := p
    have hoff : (sizeofHeader + r.off + 4 : Int) ≤ t.size := by
      obtain ⟨r', hr', hif⟩ := Option.bind_eq_some_iff.mp hr
      have hoff := (parseKeyRequest_bytes hr').2.1
      have hbytes := r'.keyInfo.bytes_le
      have hsizeof : (sizeofHeader : Int) = 19 := rfl
      dsimp only at hif
      split at hif
      · cases hif
      split at hif
      · obtain ⟨rfl, -⟩ := Prod.mk.inj (Option.some.inj hif)
        omega
      · cases hif
    have hwritten : (t.write (sizeofHeader + r.off) (int2buff r.header.newExpires)).size =
        t.size :=
      FastTaskInfo.write_size (by rw [int2buff_length]; push_cast; omega)
    dsimp only
    split
    · exact hwritten
    · have hlt : expiresOffset < sizeofHeader := by decide
      refine Eq.trans (FastTaskInfo.write_size ?_) hwritten
      show ((expiresOffset : Int) + ((readAt _ _ 4).length : Int)) ≤
        (t.write (sizeofHeader + r.off) (int2buff r.header.newExpires)).size
      rw [hwritten, readAt_length]
      omega

theorem dealCmdDel_size (op : OpType) : (dealCmdDel S g op t s).task.size = t.size := by
  unfold dealCmdDel
  split
  · rfl
  · dsimp only
    split
    · rfl
    · rfl

theorem dealCmdInc_size (hsize : 1024 ≤ t.size) : (dealCmdInc S g t s).task.size = t.size := by
  cases hr : parseExact g 16 true t with
  | none =>
    simp only [dealCmdInc, hr]
    rfl
  | some r =>
    obtain ⟨⟨result, value, store⟩, hinc⟩ : ∃ p, S.incEx s.store r.header.groupId
      r.keyInfo.packFullKey (t.bodyInt r.off) incValueLen (toInt32 r.header.newExpires)
      g.currentTime = p := ⟨_, rfl⟩
    have hvalue := S.incEx_value s.store r.header.groupId r.keyInfo.packFullKey (t.bodyInt r.off)
      incValueLen (toInt32 r.header.newExpires) g.currentTime
    rw [hinc] at hvalue
    simp only [dealCmdInc, hr, hinc]
    by_cases h0 : result = 0
    · obtain ⟨n, hn⟩ := hvalue h0
      dsimp only at hn
      have hlen := (incValue_length (toInt32 r.header.newExpires) n).2
      rw [← hn] at hlen
      rw [if_neg (not_not.mpr h0)]
      have hsizeof : (sizeofHeader : Int) = 19 := rfl
      have hlt : expiresOffset < sizeofHeader := by decide
      have htake : (value.take 4).length ≤ 4 := List.length_take_le 4 value
      rw [FastTaskInfo.size_write, FastTaskInfo.size_write, FastTaskInfo.size_write, int2buff_length,
        List.length_drop]
      show max (max (max t.size _) _) _ = t.size
      omega
    · rw [if_pos h0]
      rfl

theorem dealCmdGetSubKeys_size (hS : S.MindsRoom) (hsize : 1024 ≤ t.size) :
    (dealCmdGetSubKeys S g t s).task.size = t.size := by
  have hsizeof : (sizeofHeader : Int) = 19 := rfl
  have hvalue : ∀ grp k, (((keyGet S g grp k (t.size - sizeofHeader + 4) s).1.value.length : Int)) ≤
      t.size - sizeofHeader + 4 := by
    intro grp k
    have hle := S.get_le s.store grp k.listKey.packFullKey (t.size - sizeofHeader + 4)
    have hnone := hS.no_value s.store grp k.listKey.packFullKey (t.size - sizeofHeader + 4)
    unfold keyGet
    split
    · show ((0 : Nat) : Int) ≤ _
      omega
    split
    · show ((0 : Nat) : Int) ≤ _
      omega
    dsimp only
    split
    · rename_i hne
      rw [hnone hne, List.length_nil]
      omega
    · rename_i h0
      exact hle (not_not.mp h0)
  unfold dealCmdGetSubKeys
  split
  · rfl
  rename_i header _
  split
  · rfl
  rename_i k _
  split
  · rfl
  dsimp only
  have hlt : keepAliveOffset < sizeofHeader := by decide
  have hlist := hvalue header.groupId k
  have hwritten : ((t.write (sizeofHeader - 4)
      (keyGet S g header.groupId k (t.size - sizeofHeader + 4) s).1.value).write keepAliveOffset
      [t.data.getD keepAliveOffset 0]).size = t.size := by
    rw [FastTaskInfo.size_write, FastTaskInfo.size_write, List.length_singleton]
    omega
  split
  · exact hwritten
  · exact hwritten

theorem dealCmdSyncReq_size {iniResult : Int} {y : SyncState} (hsize : 1024 ≤ t.size) :
    (dealCmdSyncReq g iniResult t y).2.1.size = t.size := by
  have hpack : ∀ y, (packSyncReqBody t y).size = t.size := by
    intro y
    have hsizeof : (sizeofHeader : Int) = 19 := rfl
    have hip : ipAddressSize = 16 := rfl
    unfold packSyncReqBody
    rw [FastTaskInfo.size_write, FastTaskInfo.size_write, FastTaskInfo.size_write,
      FastTaskInfo.size_write, int2buff_length, int2buff_length, readAt_length,
      List.length_singleton]
    show max (max (max (max t.size _) _) _) _ = t.size
    omega
  unfold dealCmdSyncReq
  split
  · rfl
  split
  · exact hpack _
  dsimp only
  split
  · rfl
  split
  · rfl
  split
  · split
    · rfl
    · exact hpack _
  · rfl

theorem dealCmdSyncDone_size {iniResult : Int} {y : SyncState} :
    (dealCmdSyncDone g iniResult t y).2.1.size = t.size := by
  unfold dealCmdSyncDone
  split_ifs <;> rfl

end Sizes

/-! ## Every request -/

theorem responseFits_iff {S : StoreFuncs σ} (hS : S.MindsRoom) (g : Globals) {env : TaskEnv}
    (st : ServerStat) {t : FastTaskInfo} (s : Server σ) (hsize : 1024 ≤ t.size)
    (hstat : env.stat.2 = st.text) (hlen : t.length ≤ t.size)
    (hset : t.cmd = some .batchSet → 0 ≤ t.length ∧ t.hasNegativeEntry g = false) :
    ResponseFits S g env t s ↔ EnoughRoom g t := by
  have hsizeof : (sizeofHeader : Int) = 19 := rfl
  have hheader : (sizeofHeader : Int) ≤ t.size := by omega
  unfold ResponseFits EnoughRoom
  rw [and_iff_right hheader]
  -- a command other than BATCH_DEL always fits
  have hother : ∀ {P : Prop} {cmd : Option ProtoCmd}, cmd ≠ some .batchDel → P →
      (P ↔ (cmd = some .batchDel → ∀ r, parseBatchKeys g t = some r →
        ((sizeofHeader + 8 + statusesLength
          (batchDelKeys r t.inBodyLen (r.inBuff t) r.keyCount 0) : Nat) : Int) ≤ t.size)) :=
    fun hdel hP => ⟨fun _ h => absurd h hdel, fun _ => hP⟩
  have hone : ∀ {r reply : Reply σ}, r.task.size = t.size → some r = some reply →
      reply.task.size = t.size := by
    intro r reply hr h
    rw [← Option.some.inj h]
    exact hr
  cases hcmd : t.cmd with
  | none => exact hother nofun fun _ => hone rfl
  | some c =>
    cases c with
    | quit => exact hother nofun fun _ => hone rfl
    | resp => exact hother nofun fun _ => hone rfl
    | heartBeat => exact hother nofun fun _ => hone rfl
    | get => exact hother nofun (dealCmdGet_size hS hsize)
    | set => exact hother nofun fun _ => hone (dealCmdSet_size hsize _)
    | syncSet => exact hother nofun fun _ => hone (dealCmdSet_size hsize _)
    | del => exact hother nofun fun _ => hone (dealCmdDel_size _)
    | syncDel => exact hother nofun fun _ => hone (dealCmdDel_size _)
    | inc => exact hother nofun fun _ => hone (dealCmdInc_size hsize)
    | getSubKeys => exact hother nofun fun _ => hone (dealCmdGetSubKeys_size hS hsize)
    | syncReq => exact hother nofun fun _ => hone (dealCmdSyncReq_size hsize)
    | syncNotify => exact hother nofun fun _ => hone dealCmdSyncDone_size
    | batchGet =>
      exact hother nofun
        ⟨by omega, fun r i b _ _ _ => batchGetEntry_fits r t.inBodyLen (r.inBuff t) i b⟩
    | stat =>
      refine hother nofun fun _ => ?_
      have htext := st.text_length_lt
      rw [hstat]
      omega
    | batchSet =>
      obtain ⟨hnonneg, hneg⟩ := hset hcmd
      exact hother nofun ⟨by omega, fun r i b hr hi hloop =>
        batchSet_fits hcmd hnonneg hlen hneg hr hi hloop⟩
    | batchDel =>
      constructor
      · intro hall _ r hr
        have hdel := hall _ rfl
        rw [dealCmdBatchDel_size hr (by omega)] at hdel
        omega
      · intro hroom reply hreply
        refine hone ?_ hreply
        cases hr : parseBatchKeys g t with
        | none =>
          unfold dealCmdBatchDel dealCmdBatchKeys
          rw [hr]
          rfl
        | some r =>
          have hle := hroom rfl r hr
          rw [dealCmdBatchDel_size hr (by omega)]
          omega

theorem batchDelKeys_of_read {inBodyLen : Int} {inBuff : Bytes} (n : Nat) :
    ∀ (src : Nat) {ks : List FDHTKeyInfo} {src' : Nat},
      batchKeysRead r inBodyLen inBuff n src = some (ks, src') →
      batchDelKeys r inBodyLen inBuff n src = ks := by
  induction n with
  | zero =>
    intro src ks src' h
    exact congrArg Prod.fst (Option.some.inj h)
  | succ n ih =>
    intro src ks src' h
    obtain ⟨⟨k, next⟩, hkey, h⟩ := Option.bind_eq_some_iff.mp h
    obtain ⟨⟨rest, last⟩, hread, hks⟩ := Option.map_eq_some_iff.mp h
    unfold batchDelKeys
    rw [hkey]
    dsimp only
    rw [ih next hread]
    exact congrArg Prod.fst hks

theorem enoughRoom_batchDel_iff {g : Globals} {t : FastTaskInfo} {keyList : List FDHTSubKey}
    (hcmd : t.cmd = some .batchDel) (hkeys : extractKeys g t = some (r, keyList)) :
    EnoughRoom g t ↔
      ((sizeofHeader + 8 + (keyList.map fun key => 4 + key.szKey.length + 1).sum : Nat) : Int) ≤
        t.size := by
  obtain ⟨r', hr, h⟩ := Option.bind_eq_some_iff.mp hkeys
  obtain ⟨⟨ks, src⟩, hread, h⟩ := Option.bind_eq_some_iff.mp h
  split at h
  case isFalse => cases h
  obtain ⟨rfl, hlist⟩ := Prod.mk.inj (Option.some.inj h)
  have hsum : statusesLength ks = (keyList.map fun key => 4 + key.szKey.length + 1).sum := by
    rw [← hlist, List.map_map]
    rfl
  have hdel := batchDelKeys_of_read _ _ hread
  constructor
  · intro hroom
    have hle := hroom hcmd _ hr
    rw [hdel, hsum] at hle
    exact hle
  · intro hle _ r₁ hr₁
    obtain rfl := Option.some.inj (hr.symm.trans hr₁)
    rw [hdel, hsum]
    exact hle

/-- The object without a namespace and an id. -/
def noObject : FDHTObjectInfo := ⟨[], [], noNamespace_le, noObjectId_le⟩

/-- Fifteen times a key of 62 bytes. -/
def fifteenKeys : List FDHTSubKey :=
  List.replicate 15 ⟨List.replicate 62 97, by rw [List.length_replicate]; decide⟩

/-- BATCH_DEL of the keys, 1021 bytes, in a buffer that is so much longer. -/
def fifteenKeysIn (more : Nat) : FastTaskInfo :=
  receivedTask (packHeader 1002 0 0 0 .batchDel 0 ++ packBodyKeys noObject fifteenKeys)
    (List.replicate more 0) []

theorem fifteenKeys_body_length : (packBodyKeys noObject fifteenKeys).length = 1002 := by
  rw [packBodyKeys_length]
  unfold fifteenKeys
  rw [List.flatMap_replicate, List.length_flatten, List.map_replicate, List.sum_replicate,
    keyEntry_length]
  rfl

theorem fifteenKeysIn_length (more : Nat) : (fifteenKeysIn more).length = 1021 := by
  show (((packHeader 1002 0 0 0 .batchDel 0 ++ packBodyKeys noObject fifteenKeys).length : Nat) :
    Int) = 1021
  rw [List.length_append, packHeader_length, fifteenKeys_body_length]
  rfl

theorem fifteenKeysIn_size (more : Nat) : (fifteenKeysIn more).size = 1021 + more := by
  show ((((packHeader 1002 0 0 0 .batchDel 0 ++ packBodyKeys noObject fifteenKeys) ++
    List.replicate more 0).length : Nat) : Int) = 1021 + more
  rw [List.length_append, List.length_append, packHeader_length, fifteenKeys_body_length,
    List.length_replicate]
  rfl

theorem fifteenKeysIn_cmd (more : Nat) : (fifteenKeysIn more).cmd ≠ some .batchSet := nofun

theorem fifteenKeysIn_enoughRoom (more : Nat) :
    EnoughRoom oneGroup (fifteenKeysIn more) ↔ 11 ≤ more := by
  have hbody : (fifteenKeysIn more).inBodyLen = (packBodyKeys noObject fifteenKeys).length :=
    receivedTask_inBodyLen (packHeader_length ..) (by
      rw [List.length_append, packHeader_length, fifteenKeys_body_length]
      decide) _ _
  have hkeys := extractKeys_message (g := oneGroup) (t := fifteenKeysIn more)
    (receivedTask_holdsAt _ _ _) rfl hbody nofun
    (by decide) (fun key hkey => by
      rw [List.eq_of_mem_replicate hkey]
      exact ⟨nofun, by decide⟩)
  rw [enoughRoom_batchDel_iff rfl hkeys, fifteenKeysIn_size]
  unfold fifteenKeys
  rw [List.map_replicate, List.sum_replicate, List.length_replicate,
    show 15 • (4 + 62 + 1) = 1005 from rfl]
  unfold sizeofHeader
  omega

/-- A server with the database, before its first request. -/
def quietStat : ServerStat :=
  ⟨[], by decide, 0, 0, 0, 0, 0, 0, 0, 0, 0, 0, 0, 0, 0, 0, 0, none⟩

end FastDht
