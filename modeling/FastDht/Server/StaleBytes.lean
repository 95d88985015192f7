import FastDht.Server.QuietRequests
import FastDht.Server.ReadAnswers

/-! # Stale bytes in the task buffer

A task buffer goes from one connection to the next without being cleared, so that
behind a message there are bytes of other clients. A handler reads a length only
after it has checked that the body goes that far, and it answers with bytes that it
has written or received. Two buffers that agree on the message are then handled
alike. The one exception is a stored value that is too short to carry an expiry:
BATCH_GET reads the missing bytes from whatever follows in the buffer. -/

namespace FastDht
open Lib Relation

variable {σ : Type}
variable {off : Nat} {valueLen : Int} {V : AnsweringStore σ}

/-- Two tasks that differ only in the bytes of their buffers at places outside `P`. -/
structure FastTaskInfo.Alike (P : Nat → Prop) (t t' : FastTaskInfo) : Prop where
  length : t'.length = t.length
  clientIp : t'.clientIp = t.clientIp
  size : t'.data.length = t.data.length
  byte : ∀ i, P i → t'.data.getD i 0 = t.data.getD i 0

section Alike

variable {P : Nat → Prop} {t t' : FastTaskInfo}

theorem FastTaskInfo.Alike.readAt (h : t.Alike P t') {k : Nat}
    (hin : ∀ i, off ≤ i → i < off + k → P i) : readAt t'.data off k = Lib.readAt t.data off k :=
  readAt_congr fun i hi hi' => h.byte i (hin i hi hi')

theorem FastTaskInfo.Alike.intAt (h : t.Alike P t')
    (hin : ∀ i, off ≤ i → i < off + 4 → P i) : t'.intAt off = t.intAt off :=
  congrArg buff2int (h.readAt hin)

theorem FastTaskInfo.Alike.withLength (h : t.Alike P t') (length : Int) :
    FastTaskInfo.Alike P { t with length := length } { t' with length := length } :=
  ⟨rfl, h.clientIp, h.size, h.byte⟩

theorem FastTaskInfo.Alike.write (h : t.Alike P t') (off : Nat) (v : Bytes) :
    (t.write off v).Alike (fun i => P i ∨ off ≤ i ∧ i < off + v.length) (t'.write off v) := by
  refine ⟨h.length, h.clientIp, ?_, fun i hi => ?_⟩
  · show (writeAt t'.data off v).length = (writeAt t.data off v).length
    rw [length_writeAt, length_writeAt, h.size]
  · show (writeAt t'.data off v).getD i 0 = (writeAt t.data off v).getD i 0
    rw [getD_writeAt, getD_writeAt]
    by_cases hin : off ≤ i ∧ i < off + v.length
    · rw [if_pos hin, if_pos hin]
    · rw [if_neg hin, if_neg hin]
      exact h.byte i (hi.resolve_right hin)

theorem FastTaskInfo.Alike.mono (h : t.Alike P t') {Q : Nat → Prop} (hle : ∀ i, Q i → P i) :
    t.Alike Q t' :=
  ⟨h.length, h.clientIp, h.size, fun i hi => h.byte i (hle i hi)⟩

theorem FastTaskInfo.Alike.writeIn (h : t.Alike P t') (off : Nat) {v v' : Bytes} (hv : v' = v) :
    (t.write off v).Alike P (t'.write off v') := by
  rw [hv]
  exact (h.write off v).mono fun _ hi => .inl hi

theorem FastTaskInfo.Alike.grown (h : t.Alike P t') (fresh : Option Bytes) (oldLen : Nat)
    (valueLen : Int) :
    (checkBuffSize fresh oldLen valueLen t = none ∧ checkBuffSize fresh oldLen valueLen t' = none) ∨
    ∃ t₁ t₁', checkBuffSize fresh oldLen valueLen t = some t₁ ∧
      checkBuffSize fresh oldLen valueLen t' = some t₁' ∧ t₁.Alike P t₁' := by
  cases fresh with
  | none => exact .inl ⟨rfl, rfl⟩
  | some bytes =>
    refine .inr ⟨_, _, rfl, rfl, h.length, h.clientIp, ?_, fun i hi => ?_⟩
    · rw [readAt_length, readAt_length]
    · rw [getD_readAt, getD_readAt, Nat.zero_add]
      refine if_congr Iff.rfl ?_ rfl
      by_cases hold : i < t.data.length
      · rw [List.getD_append _ _ _ _ hold, List.getD_append _ _ _ _ (by rw [h.size]; exact hold)]
        exact h.byte i hi
      · rw [List.getD_append_right t.data _ _ _ (by omega),
          List.getD_append_right t'.data _ _ _ (by rw [h.size]; omega), h.size]

end Alike

/-- The second task has received the same message, into another buffer of the same
size. -/
structure FastTaskInfo.Received (t t' : FastTaskInfo) : Prop where
  header : (sizeofHeader : Int) ≤ t.length
  max : t.length < 2 ^ 31
  alike : t.Alike (· < t.length.toNat) t'

/-! ## Parsing -/

section Parsing

variable {g : Globals} {t t' : FastTaskInfo} {minBodyLen : Int}

theorem FastTaskInfo.Received.inBodyLen (h : t.Received t') :
    t.inBodyLen = t.length - sizeofHeader ∧ t'.inBodyLen = t.inBodyLen := by
  have hheader := h.header
  have hmax := h.max
  unfold FastTaskInfo.inBodyLen
  rw [h.alike.length]
  exact ⟨toInt32_of_range (by omega) (by unfold sizeofHeader; omega), rfl⟩

theorem FastTaskInfo.Received.bodyBytes (h : t.Received t') {k : Nat}
    (hle : ((off + k : Nat) : Int) ≤ t.inBodyLen) : t'.bodyBytes off k = t.bodyBytes off k := by
  have hbody := h.inBodyLen.1
  exact h.alike.readAt fun i _ hi => by omega

theorem FastTaskInfo.Received.bodyInt (h : t.Received t')
    (hle : ((off + 4 : Nat) : Int) ≤ t.inBodyLen) : t'.bodyInt off = t.bodyInt off :=
  congrArg buff2int (h.bodyBytes hle)

theorem FastTaskInfo.Received.headerInt (h : t.Received t')
    (hle : off + 4 ≤ sizeofHeader) : t'.intAt off = t.intAt off := by
  have hheader := h.header
  exact h.alike.intAt fun i _ hi => by omega

theorem FastTaskInfo.Received.checkGroupId (h : t.Received t') :
    checkGroupId g t' = FastDht.checkGroupId g t := by
  have hheader : t'.header g = t.header g := by
    unfold FastTaskInfo.header
    rw [h.headerInt (by decide : keyHashCodeOffset + 4 ≤ sizeofHeader),
      h.headerInt (by decide : timestampOffset + 4 ≤ sizeofHeader),
      h.headerInt (by decide : expiresOffset + 4 ≤ sizeofHeader)]
  unfold FastDht.checkGroupId
  rw [hheader]

/-- What is known of the object once it has been parsed. -/
structure FastTaskInfo.ObjectParsed (t t' : FastTaskInfo) (minBodyLen : Int) (k : FDHTKeyInfo) :
    Prop where
  offset : t.keyOffset = 8 + k.szNameSpace.length + k.szObjectId.length
  offset_eq : t'.keyOffset = t.keyOffset
  more : minBodyLen + k.szNameSpace.length + k.szObjectId.length < t.inBodyLen
  noKey : k.szKey = []

theorem FastTaskInfo.Received.object (h : t.Received t') (hmin : 7 ≤ minBodyLen) :
    parseCommonBodyBeforeKey minBodyLen t' = parseCommonBodyBeforeKey minBodyLen t ∧
      ∀ k, parseCommonBodyBeforeKey minBodyLen t = some k → t.ObjectParsed t' minBodyLen k := by
  unfold parseCommonBodyBeforeKey
  rw [h.inBodyLen.2]
  by_cases h0 : t.inBodyLen ≤ minBodyLen
  · rw [if_pos h0, if_pos h0]
    exact ⟨rfl, nofun⟩
  rw [if_neg h0, if_neg h0]
  have hns : t'.namespaceLen = t.namespaceLen := h.bodyInt (by push_cast; omega)
  by_cases h1 : t.namespaceLen < 0 ∨ fdhtMaxNamespaceLen < t.namespaceLen
  · rw [dif_pos h1, dif_pos (by rw [hns]; exact h1)]
    exact ⟨rfl, nofun⟩
  rw [dif_neg h1, dif_neg (by rw [hns]; exact h1)]
  by_cases h2 : t.inBodyLen ≤ minBodyLen + t.namespaceLen
  · rw [if_pos h2, if_pos (by rw [hns]; exact h2)]
    exact ⟨rfl, nofun⟩
  rw [if_neg h2, if_neg (by rw [hns]; exact h2)]
  have hobj : t'.objIdLen = t.objIdLen := by
    unfold FastTaskInfo.objIdLen
    rw [hns]
    exact h.bodyInt (by push_cast; omega)
  by_cases h3 : t.objIdLen < 0 ∨ fdhtMaxObjectIdLen < t.objIdLen
  · rw [dif_pos h3, dif_pos (by rw [hobj]; exact h3)]
    exact ⟨rfl, nofun⟩
  rw [dif_neg h3, dif_neg (by rw [hobj]; exact h3)]
  by_cases h4 : t.inBodyLen ≤ minBodyLen + t.namespaceLen + t.objIdLen
  · rw [if_pos h4, if_pos (by rw [hns, hobj]; exact h4)]
    exact ⟨rfl, nofun⟩
  rw [if_neg h4, if_neg (by rw [hns, hobj]; exact h4)]
  have hnsLen : (t.bodyBytes 4 t.namespaceLen.toNat).length = t.namespaceLen.toNat :=
    readAt_length _ _ _
  have hobjLen : (t.bodyBytes (4 + t.namespaceLen.toNat + 4) t.objIdLen.toNat).length =
      t.objIdLen.toNat := readAt_length _ _ _
  constructor
  · refine congrArg some ?_
    simp only [FDHTKeyInfo.mk.injEq, and_true]
    rw [hns, hobj]
    exact ⟨h.bodyBytes (by push_cast; omega), h.bodyBytes (by push_cast; omega)⟩
  · intro k hk
    obtain rfl := Option.some.inj hk
    refine ⟨?_, ?_, ?_, rfl⟩
    · dsimp only
      unfold FastTaskInfo.keyOffset
      omega
    · unfold FastTaskInfo.keyOffset
      rw [hns, hobj]
    · dsimp only
      omega

theorem FastTaskInfo.Received.key (h : t.Received t') (hmin : 12 ≤ minBodyLen) {k : FDHTKeyInfo}
    (hk : t.ObjectParsed t' minBodyLen k) :
    t'.keyLen = t.keyLen ∧ parseCommonBodyKey minBodyLen t' k = parseCommonBodyKey minBodyLen t k ∧
      ∀ k', parseCommonBodyKey minBodyLen t k = some k' →
        minBodyLen + k'.bytes ≤ t.inBodyLen ∧ t.keyOffset + 4 + t.keyLen.toNat = 12 + k'.bytes := by
  obtain ⟨hoff, hoff', hmore, hnoKey⟩ := hk
  have hlen : t'.keyLen = t.keyLen := by
    unfold FastTaskInfo.keyLen
    rw [hoff']
    exact h.bodyInt (by rw [hoff]; push_cast; omega)
  refine ⟨hlen, ?_⟩
  unfold parseCommonBodyKey
  rw [h.inBodyLen.2]
  by_cases h1 : t.keyLen < 0 ∨ fdhtMaxSubKeyLen < t.keyLen
  · rw [dif_pos h1, dif_pos (by rw [hlen]; exact h1)]
    exact ⟨rfl, nofun⟩
  rw [dif_neg h1, dif_neg (by rw [hlen]; exact h1)]
  by_cases h2 : t.inBodyLen < minBodyLen + k.szNameSpace.length + k.szObjectId.length + t.keyLen
  · rw [if_pos h2, if_pos (by rw [hlen]; exact h2)]
    exact ⟨rfl, nofun⟩
  rw [if_neg h2, if_neg (by rw [hlen]; exact h2)]
  have hkeyLen : (t.bodyBytes (t.keyOffset + 4) t.keyLen.toNat).length = t.keyLen.toNat :=
    readAt_length _ _ _
  constructor
  · refine congrArg some ?_
    unfold FDHTKeyInfo.withKey
    simp only [FDHTKeyInfo.mk.injEq, true_and]
    rw [hlen, hoff']
    exact h.bodyBytes (by rw [hoff]; push_cast; omega)
  · intro k' hk'
    obtain rfl := Option.some.inj hk'
    unfold FDHTKeyInfo.bytes FDHTKeyInfo.withKey
    dsimp only
    omega

theorem FastTaskInfo.Received.keyRequest (h : t.Received t') (hmin : 12 ≤ minBodyLen) :
    parseKeyRequest g minBodyLen t' = parseKeyRequest g minBodyLen t ∧
      ∀ r, parseKeyRequest g minBodyLen t = some r →
        minBodyLen + r.keyInfo.bytes ≤ t.inBodyLen ∧ r.off = 12 + r.keyInfo.bytes := by
  obtain ⟨hobject, hparsed⟩ := h.object (show 7 ≤ minBodyLen by omega)
  constructor
  · unfold parseKeyRequest
    rw [h.checkGroupId, hobject]
    refine Option.bind_congr fun head _ => Option.bind_congr fun k hk => ?_
    obtain ⟨hlen, hkey, -⟩ := h.key hmin (hparsed k hk)
    rw [hkey, (hparsed k hk).offset_eq, hlen]
  · intro r hr
    simp only [parseKeyRequest, Option.bind_eq_bind, Option.bind_eq_some_iff, Option.pure_def,
      Option.some.injEq] at hr
    obtain ⟨_, -, k, hk, k', hk', rfl⟩ := hr
    exact (h.key hmin (hparsed k hk)).2.2 k' hk'

theorem FastTaskInfo.Received.exact (h : t.Received t') (hmin : 12 ≤ minBodyLen) (source : Bool) :
    parseExact g minBodyLen source t' = parseExact g minBodyLen source t ∧
      ∀ r, parseExact g minBodyLen source t = some r →
        minBodyLen + r.keyInfo.bytes ≤ t.inBodyLen ∧ r.off = 12 + r.keyInfo.bytes := by
  obtain ⟨heq, hparsed⟩ := h.keyRequest (g := g) hmin
  refine ⟨?_, fun r hr => hparsed r (Option.filter_eq_some_iff.mp hr).1⟩
  unfold parseExact FastTaskInfo.hasBodyLen
  rw [heq, h.inBodyLen.2]

theorem FastTaskInfo.Received.set (h : t.Received t') (source : Bool) :
    parseSet g source t' = parseSet g source t ∧
      ∀ r n, parseSet g source t = some (r, n) →
        t.inBodyLen = 16 + n + r.keyInfo.bytes ∧ r.off = 12 + r.keyInfo.bytes := by
  obtain ⟨heq, hparsed⟩ := h.keyRequest (g := g) (show (12 : Int) ≤ 16 by decide)
  constructor
  · unfold parseSet FastTaskInfo.hasBodyLen
    rw [heq, h.inBodyLen.2]
    refine Option.bind_congr fun r hr => ?_
    obtain ⟨hle, hoff⟩ := hparsed r hr
    have hint : t'.bodyInt r.off = t.bodyInt r.off := h.bodyInt (by rw [hoff]; push_cast; omega)
    rw [hint]
  · intro r n hr
    refine ⟨parseSet_bodyLen hr, ?_⟩
    obtain ⟨r', hr', hif⟩ := Option.bind_eq_some_iff.mp hr
    dsimp only at hif
    split at hif
    · cases hif
    split at hif
    · obtain ⟨rfl, -⟩ := Prod.mk.inj (Option.some.inj hif)
      exact (hparsed _ hr').2
    · cases hif

theorem FastTaskInfo.Received.batchKeys (h : t.Received t') :
    parseBatchKeys g t' = parseBatchKeys g t ∧
      ∀ r, parseBatchKeys g t = some r →
        r.inBuff t' = r.inBuff t ∧ sizeofHeader + 8 ≤ t.length.toNat := by
  have hbody := h.inBodyLen.1
  obtain ⟨hobject, hparsed⟩ := h.object (show (7 : Int) ≤ 16 by decide)
  have hrequest : parseBatchRequest g 16 t' = parseBatchRequest g 16 t := by
    unfold parseBatchRequest
    rw [h.checkGroupId, hobject]
    refine Option.bind_congr fun head _ => Option.bind_congr fun k hk => ?_
    obtain ⟨hoff, hoff', hmore, -⟩ := hparsed k hk
    have hcount : t'.bodyInt t'.keyOffset = t.bodyInt t.keyOffset := by
      rw [hoff']
      exact h.bodyInt (by rw [hoff]; push_cast; omega)
    rw [hcount]
  constructor
  · unfold parseBatchKeys
    rw [hrequest, h.inBodyLen.2]
  · intro r hr
    obtain ⟨hr, -⟩ := Option.filter_eq_some_iff.mp hr
    simp only [parseBatchRequest, Option.bind_eq_bind, Option.bind_eq_some_iff] at hr
    obtain ⟨_, -, k, hk, hif⟩ := hr
    obtain ⟨-, -, hmore, -⟩ := hparsed k hk
    split at hif
    · cases hif
    · obtain rfl := Option.some.inj hif
      refine ⟨?_, by omega⟩
      unfold BatchRequest.inBuff BatchRequest.commonFiledsLen
      rw [h.inBodyLen.2]
      exact h.bodyBytes (by push_cast; omega)

end Parsing

/-! ## Answers -/

/-- Two replies with the same effect, whose bytes agree as far as they are sent. -/
structure Reply.Alike (r r' : Reply σ) : Prop where
  status : r'.status = r.status
  server : r'.server = r.server
  task : r.task.Alike (fun i => i < sizeofHeader ∨ i < r.task.length.toNat) r'.task

section Replies

variable {g : Globals} {P : Nat → Prop} {t t' : FastTaskInfo} {s : Server σ}

theorem packResponse_alike {r r' : Reply σ} (h : r.Alike r') :
    (packResponse g r'.status r'.task).sent = (packResponse g r.status r.task).sent := by
  have hstatus : (r.task.write statusOffset (statusByte r.status)).Alike _
      (r'.task.write statusOffset (statusByte r'.status)) := h.task.writeIn _ (by rw [h.status])
  have hlen := ((hstatus.writeIn timestampOffset (v := int2buff g.currentTime) rfl).writeIn
    cmdOffset (v := [ProtoCmd.resp.toByte]) rfl).writeIn pkgLenOffset
    (v := int2buff (r.task.length - sizeofHeader))
    (show int2buff (r'.task.length - sizeofHeader) = _ by rw [h.task.length])
  show readAt _ 0 r'.task.length.toNat = readAt _ 0 r.task.length.toNat
  rw [h.task.length]
  exact hlen.readAt fun i _ hi => .inr (by omega)

theorem FastTaskInfo.Alike.headerOnly (h : t.Alike P t') (hin : ∀ i < sizeofHeader, P i)
    (status : Int) (s : Server σ) :
    Reply.Alike (⟨status, t.headerOnly, s⟩ : Reply σ) ⟨status, t'.headerOnly, s⟩ := by
  refine ⟨rfl, rfl, (h.withLength _).mono fun i hi => hin i ?_⟩
  rcases hi with hi | hi
  · exact hi
  · exact hi

theorem FastTaskInfo.Received.le (h : t.Received t') : sizeofHeader ≤ t.length.toNat := by
  have hheader := h.header
  omega

theorem FastTaskInfo.Received.headerOnly (h : t.Received t') (status : Int) (s : Server σ) :
    Reply.Alike (⟨status, t.headerOnly, s⟩ : Reply σ) ⟨status, t'.headerOnly, s⟩ :=
  h.alike.headerOnly (fun _ hi => lt_of_lt_of_le hi h.le) status s

/-! ### Single keys -/

theorem getReply_alike (h : t.Alike P t') (h4 : ∀ i < sizeofHeader + 4, P i)
    (hlen : ∀ i : Nat, (i : Int) < sizeofHeader + valueLen → P i) :
    (getReply valueLen t s).Alike (getReply valueLen t' s) := by
  have hread : t'.bodyBytes 0 4 = t.bodyBytes 0 4 := h.readAt fun i _ hi => h4 i (by omega)
  have hvalue := (h.writeIn expiresOffset hread).writeIn sizeofHeader (v := int2buff (valueLen - 4)) rfl
  refine ⟨rfl, rfl, (hvalue.withLength _).mono fun i hi => ?_⟩
  have hi' : i < sizeofHeader ∨ i < ((sizeofHeader : Int) + 4 + (valueLen - 4)).toNat := hi
  by_cases hhead : i < sizeofHeader
  · exact h4 i (by omega)
  · exact hlen i (by omega)

theorem getValue_alike (S : StoreFuncs σ) {r : KeyRequest} (h : t.Alike P t')
    (h4 : ∀ i < sizeofHeader + 4, P i)
    (hlen : ∀ i : Nat, (i : Int) < sizeofHeader + valueLen → P i) :
    (getValue S g r valueLen t s).Alike (getValue S g r valueLen t' s) := by
  have hexpires : t'.bodyInt 0 = t.bodyInt 0 := h.intAt fun i _ hi => h4 i (by omega)
  unfold getValue
  rw [hexpires]
  split
  · exact h.headerOnly (fun i hi => h4 i (by omega)) _ _
  split
  · have hnew := h.writeIn sizeofHeader (v := int2buff (toInt32 r.header.newExpires)) rfl
    exact getReply_alike hnew h4 hlen
  · exact getReply_alike h h4 hlen

theorem GetResult.Answers.found {P : Bytes → Prop} {v : GetResult} (h : v.Answers P)
    (h0 : v.result = 0) : ∃ value, P value ∧ v = ⟨0, value, value.length⟩ := by
  rcases h with ⟨hne, -⟩ | ⟨value, h4, hfound | hnospc⟩
  · exact absurd h0 hne
  · exact ⟨value, h4, hfound⟩
  · rw [hnospc] at h0
    exact absurd h0 (show ¬ ENOSPC = 0 by decide)

theorem dealCmdGet_alike (env : TaskEnv) (hs : V.Holds CarriesExpiry s.store) (h : t.Received t') :
    (dealCmdGet V.toStoreFuncs g env t s).Alike (dealCmdGet V.toStoreFuncs g env t' s) := by
  have hparse := (h.exact (g := g) (show (12 : Int) ≤ 12 by decide) true).1
  have hsize : t'.size = t.size := congrArg Int.ofNat h.alike.size
  cases hr : parseExact g 12 true t with
  | none =>
    simp only [dealCmdGet, hparse, hr]
    exact h.headerOnly _ _
  | some r =>
    have hle := h.le
    obtain ⟨⟨v, store⟩, hget⟩ : ∃ p, V.get s.store r.header.groupId r.keyInfo.packFullKey
      (t.size - sizeofHeader) = p := ⟨_, rfl⟩
    obtain ⟨⟨v', store'⟩, hget'⟩ : ∃ p, V.get store r.header.groupId r.keyInfo.packFullKey
      v.size = p := ⟨_, rfl⟩
    have hanswers := V.get_answers r.header.groupId r.keyInfo.packFullKey (t.size - sizeofHeader) hs
    have hs₁ := V.holds_get r.header.groupId r.keyInfo.packFullKey (t.size - sizeofHeader) hs
    rw [hget] at hanswers hs₁
    have hanswers' := V.get_answers r.header.groupId r.keyInfo.packFullKey v.size hs₁
    rw [hget'] at hanswers'
    have hfound : ∀ {P : Nat → Prop} {t t' : FastTaskInfo} {v : GetResult} (store : σ),
        t.Alike P t' → (∀ i < sizeofHeader, P i) → v.Answers CarriesExpiry → v.result = 0 →
        (getValue V.toStoreFuncs g r v.size (t.write sizeofHeader v.value)
          { s with store := store }).Alike
        (getValue V.toStoreFuncs g r v.size (t'.write sizeofHeader v.value)
          { s with store := store }) := by
      intro P t t' v store ht hin hanswers h0
      obtain ⟨value, h4, rfl⟩ := hanswers.found h0
      have hlen : 4 ≤ value.length := h4
      have hall : ∀ i < sizeofHeader + value.length,
          P i ∨ sizeofHeader ≤ i ∧ i < sizeofHeader + value.length := fun i hi => by
        by_cases hhead : i < sizeofHeader
        · exact .inl (hin i hhead)
        · exact .inr ⟨not_lt.mp hhead, hi⟩
      exact getValue_alike _ (ht.write sizeofHeader value) (fun i hi => hall i (by omega))
        (fun i hi => hall i (by dsimp only at hi; omega))
    simp only [dealCmdGet, hparse, hr, hsize, hget]
    by_cases h0 : v.result = 0
    · rw [if_pos h0, if_pos h0]
      exact hfound store h.alike (fun i hi => lt_of_lt_of_le hi hle) hanswers h0
    rw [if_neg h0, if_neg h0]
    by_cases hnospc : v.result = ENOSPC
    · rw [if_pos hnospc, if_pos hnospc]
      cases env.alloc 0 with
      | none => exact h.headerOnly _ _
      | some fresh =>
        -- the new buffer starts with the header
        have hcopied : FastTaskInfo.Alike (fun _ => True)
            { t with data := readAt t.data 0 sizeofHeader ++ readAt fresh 0 v.size.toNat }
            { t' with data := readAt t'.data 0 sizeofHeader ++ readAt fresh 0 v.size.toNat } := by
          rw [h.alike.readAt fun i _ hi => by omega]
          exact ⟨h.alike.length, h.alike.clientIp, rfl, fun _ _ => rfl⟩
        simp only [hget']
        by_cases h0' : v'.result = 0
        · rw [if_neg (not_not.mpr h0'), if_neg (not_not.mpr h0')]
          exact hfound store' hcopied (fun _ _ => trivial) hanswers' h0'
        · rw [if_pos h0', if_pos h0']
          exact hcopied.headerOnly (fun _ _ => trivial) _ _
    · rw [if_neg hnospc, if_neg hnospc]
      exact h.headerOnly _ _

theorem dealCmdSet_alike (S : StoreFuncs σ) (opType : OpType) (h : t.Received t') :
    (dealCmdSet S g opType t s).Alike (dealCmdSet S g opType t' s) := by
  obtain ⟨hparse, hparsed⟩ := h.set (g := g) (opType = .sourceSet)
  have hbody := h.inBodyLen.1
  unfold dealCmdSet
  rw [hparse]
  cases hr : parseSet g (opType = .sourceSet) t with
  | none => exact h.headerOnly _ _
  | some p =>
    obtain ⟨r, valueLen⟩ := p
    obtain ⟨hlen, hoff⟩ := hparsed r valueLen hr
    obtain ⟨t₁, ht₁⟩ : ∃ t₁, t₁ = (t.write (sizeofHeader + r.off)
      (int2buff r.header.newExpires)).headerOnly := ⟨_, rfl⟩
    obtain ⟨t₁', ht₁'⟩ : ∃ t₁', t₁' = (t'.write (sizeofHeader + r.off)
      (int2buff r.header.newExpires)).headerOnly := ⟨_, rfl⟩
    have halike : t₁.Alike (· < t.length.toNat) t₁' := by
      rw [ht₁, ht₁']
      exact (h.alike.writeIn _ rfl).withLength _
    have hlength : t₁.length = sizeofHeader := by
      rw [ht₁]
      rfl
    have hvalue : t₁'.bodyBytes r.off (4 + valueLen) = t₁.bodyBytes r.off (4 + valueLen) :=
      halike.readAt fun i _ hi => by omega
    have hpvalue : t₁'.bodyBytes (r.off + 4) valueLen = t₁.bodyBytes (r.off + 4) valueLen :=
      halike.readAt fun i _ hi => by omega
    have hexpires : t₁'.bodyBytes r.off 4 = t₁.bodyBytes r.off 4 :=
      halike.readAt fun i _ hi => by omega
    have hsent : ∀ i, i < sizeofHeader ∨ i < t₁.length.toNat → i < t.length.toNat := by
      intro i hi
      omega
    dsimp only
    rw [← ht₁, ← ht₁', hvalue, hpvalue, hexpires]
    split
    · exact ⟨rfl, rfl, halike.mono hsent⟩
    · exact ⟨rfl, rfl, (halike.writeIn _ rfl).mono hsent⟩

theorem dealCmdDel_alike (S : StoreFuncs σ) (opType : OpType) (h : t.Received t') :
    (dealCmdDel S g opType t s).Alike (dealCmdDel S g opType t' s) := by
  have hparse := (h.exact (g := g) (show (12 : Int) ≤ 12 by decide) (opType = .sourceDel)).1
  unfold dealCmdDel
  rw [hparse]
  cases parseExact g 12 (opType = .sourceDel) t with
  | none => exact h.headerOnly _ _
  | some r =>
    dsimp only
    split
    · exact h.headerOnly _ _
    · exact h.headerOnly _ _

theorem dealCmdInc_alike (S : StoreFuncs σ) (h : t.Received t') :
    (dealCmdInc S g t s).Alike (dealCmdInc S g t' s) := by
  obtain ⟨hparse, hparsed⟩ := h.exact (g := g) (show (12 : Int) ≤ 16 by decide) true
  cases hr : parseExact g 16 true t with
  | none =>
    simp only [dealCmdInc, hparse, hr]
    exact h.headerOnly _ _
  | some r =>
    obtain ⟨hle, hoff⟩ := hparsed r hr
    have hinc : t'.bodyInt r.off = t.bodyInt r.off := h.bodyInt (by rw [hoff]; push_cast; omega)
    have hheader := h.le
    obtain ⟨⟨result, value, store⟩, hincEx⟩ : ∃ p, S.incEx s.store r.header.groupId
      r.keyInfo.packFullKey (t.bodyInt r.off) incValueLen (toInt32 r.header.newExpires)
      g.currentTime = p := ⟨_, rfl⟩
    simp only [dealCmdInc, hparse, hr, hinc, hincEx]
    split
    · exact h.headerOnly _ _
    · have hlen := (h.alike.withLength (sizeofHeader + 4 + ((value.length : Int) - 4))).write
        sizeofHeader (int2buff ((value.length : Int) - 4))
      have hvalue := (hlen.writeIn expiresOffset (v := value.take 4) rfl).write
        (sizeofHeader + 4) (value.drop 4)
      refine ⟨rfl, rfl, hvalue.mono fun i hi => ?_⟩
      have hi' : i < sizeofHeader ∨
          i < ((sizeofHeader : Int) + 4 + ((value.length : Int) - 4)).toNat := hi
      rw [List.length_drop, int2buff_length]
      omega

theorem keyGet_size (hs : V.Holds CarriesExpiry s.store) (grp : Nat)
    (k : FDHTKeyInfo) (keysLen : Int)
    (h0 : (keyGet V.toStoreFuncs g grp k keysLen s).1.result = 0) :
    (keyGet V.toStoreFuncs g grp k keysLen s).1.size =
      (keyGet V.toStoreFuncs g grp k keysLen s).1.value.length := by
  have hanswers := V.get_answers grp k.listKey.packFullKey keysLen hs
  obtain ⟨⟨v, store⟩, hget⟩ : ∃ p, V.get s.store grp k.listKey.packFullKey keysLen = p := ⟨_, rfl⟩
  rw [hget] at hanswers
  simp only [keyGet, hget] at h0 ⊢
  split at h0
  · exact absurd h0 (show ¬ EOPNOTSUPP = 0 by decide)
  rename_i hstore
  rw [if_neg hstore]
  split at h0
  · exact absurd h0 (show ¬ EINVAL = 0 by decide)
  rename_i hobject
  rw [if_neg hobject]
  split at h0
  · rename_i hne
    exact absurd h0 hne
  · rename_i hzero
    obtain ⟨value, -, rfl⟩ := hanswers.found (not_not.mp hzero)
    rw [if_neg hzero]

theorem dealCmdGetSubKeys_alike (hs : V.Holds CarriesExpiry s.store) (h : t.Received t') :
    (dealCmdGetSubKeys V.toStoreFuncs g t s).Alike (dealCmdGetSubKeys V.toStoreFuncs g t' s) := by
  have hsize : t'.size = t.size := congrArg Int.ofNat h.alike.size
  have hle := h.le
  have hsizeof : sizeofHeader = 19 := rfl
  have hsaved : t'.data.getD keepAliveOffset 0 = t.data.getD keepAliveOffset 0 :=
    h.alike.byte _ (by unfold keepAliveOffset; omega)
  unfold dealCmdGetSubKeys
  rw [h.checkGroupId, (h.object (show (7 : Int) ≤ 7 by decide)).1]
  cases FastDht.checkGroupId g t with
  | none => exact h.headerOnly _ _
  | some header =>
  cases parseCommonBodyBeforeKey 7 t with
  | none => exact h.headerOnly _ _
  | some k =>
    have hbody : t'.hasBodyLen 8 k = t.hasBodyLen 8 k := by
      unfold FastTaskInfo.hasBodyLen
      rw [h.inBodyLen.2]
    obtain ⟨⟨v, s'⟩, hget⟩ : ∃ p, keyGet V.toStoreFuncs g header.groupId k
      (t.size - sizeofHeader + 4) s = p := ⟨_, rfl⟩
    have hvalue : v.result = 0 → v.size = v.value.length := by
      have hlist := keyGet_size (g := g) hs header.groupId k (t.size - sizeofHeader + 4)
      rw [hget] at hlist
      exact hlist
    simp only [hbody, hsize, hsaved, hget]
    split
    · exact h.headerOnly _ _
    · have hkept := (h.alike.write (sizeofHeader - 4) v.value).writeIn keepAliveOffset
        (v := [t.data.getD keepAliveOffset 0]) rfl
      split
      · refine ⟨rfl, rfl, (hkept.withLength _).mono fun i hi => ?_⟩
        have hi' : i < sizeofHeader ∨ i < ((sizeofHeader : Int) + (v.size - 4)).toNat := hi
        omega
      · exact hkept.headerOnly (fun i hi => .inl (by omega)) _ _

end Replies

/-! ## Batches -/

/-- The loop variables are the same, and the buffers agree on the message and on the
response so far. -/
structure BatchState.Alike (n : Nat) (b b' : BatchState σ) : Prop where
  rest : b' = { b with task := b'.task }
  task : b.task.Alike (fun i => i < n ∨ i < b.dest) b'.task

/-- Two ends of a loop that are alike. When the handler returns early it sends the
header only. -/
inductive LoopAlike (n : Nat) :
    Except (Stop σ) (BatchState σ) → Except (Stop σ) (BatchState σ) → Prop
  | ok {b b' : BatchState σ} : b.Alike n b' → LoopAlike n (.ok b) (.ok b')
  | ret {b b' : BatchState σ} (status : Int) : b'.server = b.server →
    b.task.Alike (· < n) b'.task → LoopAlike n (.error (.ret status b)) (.error (.ret status b'))
  | crash : LoopAlike n (.error .crash) (.error .crash)

section Batches

variable {g : Globals} {env : TaskEnv} {n : Nat} {t t' : FastTaskInfo} {s : Server σ}
  {b b' : BatchState σ}

theorem batchLoop_alike {P : BatchState σ → Prop}
    {entry : Nat → BatchState σ → Except (Stop σ) (BatchState σ)}
    (hentry : ∀ i b b', P b → b.Alike n b' → LoopAlike n (entry i b) (entry i b') ∧
      ∀ b₁, entry i b = .ok b₁ → P b₁) (m : Nat) :
    ∀ i b b', P b → b.Alike n b' →
      LoopAlike n (batchLoop entry m i b) (batchLoop entry m i b') := by
  induction m with
  | zero => exact fun i b b' _ h => .ok h
  | succ m ih =>
    intro i b b' hinv h
    obtain ⟨halike, hkeeps⟩ := hentry i b b' hinv h
    unfold batchLoop
    generalize entry i b = e at halike hkeeps
    generalize entry i b' = e' at halike
    cases halike with
    | ok h' => exact ih _ _ _ (hkeeps _ rfl) h'
    | ret status hserver h' => exact .ret status hserver h'
    | crash => exact .crash

theorem batchReply_alike (consumed : Bool) {finish : BatchState σ → Reply σ}
    (hn : sizeofHeader ≤ n)
    (hfinish : ∀ b b', b.Alike n b' → (finish b').status = (finish b).status ∧
      (finish b').server = (finish b).server ∧
      (finish b).task.Alike (fun i => i < n ∨ i < b.dest) (finish b').task)
    (h : b.Alike n b') : (batchReply consumed finish b).Alike (batchReply consumed finish b') := by
  obtain ⟨hstatus, hserver, htask⟩ := hfinish b b' h
  obtain ⟨t', rfl⟩ : ∃ t', b' = { b with task := t' } := ⟨_, h.rest⟩
  unfold batchReply
  split
  · exact h.task.headerOnly (fun i hi => .inl (by omega)) _ _
  split
  · refine ⟨hstatus, hserver, ((htask.writeIn _ rfl).withLength _).mono fun i hi => ?_⟩
    have hi' : i < sizeofHeader ∨ i < (b.dest : Int).toNat := hi
    omega
  · exact h.task.headerOnly (fun i hi => .inl (by omega)) _ _

theorem dealCmdBatchKeys_alike (h : t.Received t') {P : BatchState σ → Prop}
    {entry : BatchRequest → Bytes → Nat → BatchState σ → Except (Stop σ) (BatchState σ)}
    {finish : BatchRequest → BatchState σ → Reply σ} (hstart : ∀ r, P (batchKeysStart r t s))
    (hentry : ∀ r i b b', P b → b.Alike t.length.toNat b' →
      LoopAlike t.length.toNat (entry r (r.inBuff t) i b) (entry r (r.inBuff t) i b') ∧
        ∀ b₁, entry r (r.inBuff t) i b = .ok b₁ → P b₁)
    (hfinish : ∀ r b b', b.Alike t.length.toNat b' → (finish r b').status = (finish r b).status ∧
      (finish r b').server = (finish r b).server ∧
      (finish r b).task.Alike (fun i => i < t.length.toNat ∨ i < b.dest) (finish r b').task) :
    (dealCmdBatchKeys g t s entry finish).Alike (dealCmdBatchKeys g t' s entry finish) := by
  obtain ⟨hparse, hparsed⟩ := h.batchKeys (g := g)
  unfold dealCmdBatchKeys
  rw [hparse]
  cases hr : parseBatchKeys g t with
  | none => exact h.headerOnly _ _
  | some r =>
    obtain ⟨hbuff, hroom⟩ := hparsed r hr
    have hfirst : (batchKeysStart r t s).Alike t.length.toNat (batchKeysStart r t' s) := by
      refine ⟨rfl, (h.alike.writeIn _ rfl).mono fun i hi => ?_⟩
      have hi' : i < t.length.toNat ∨ i < sizeofHeader + 8 := hi
      omega
    have hloop := batchLoop_alike (hentry r) r.keyCount 0 _ _ (hstart r) hfirst
    dsimp only
    rw [hbuff, h.inBodyLen.2]
    generalize batchLoop (entry r (r.inBuff t)) r.keyCount 0 (batchKeysStart r t s) = e at hloop
    generalize batchLoop (entry r (r.inBuff t)) r.keyCount 0 (batchKeysStart r t' s) = e' at hloop
    cases hloop with
    | @ok b b' hb =>
      have hsrc : b'.src = b.src := by rw [hb.rest]
      dsimp only
      rw [hsrc]
      exact batchReply_alike _ h.le (hfinish r) hb
    | @ret b b' status hserver hb =>
      dsimp only
      rw [hserver]
      exact hb.headerOnly (fun i hi => lt_of_lt_of_le hi h.le) _ _
    | crash => exact h.headerOnly _ _

theorem batchDelEntry_alike (S : StoreFuncs σ) (r : BatchRequest) (inBodyLen : Int) (inBuff : Bytes)
    (h : b.Alike n b') :
    LoopAlike n (batchDelEntry S g r inBodyLen inBuff b)
      (batchDelEntry S g r inBodyLen inBuff b') := by
  obtain ⟨t', rfl⟩ : ∃ t', b' = { b with task := t' } := ⟨_, h.rest⟩
  unfold batchDelEntry
  cases batchKey r inBodyLen inBuff b.src with
  | none => exact .ret _ rfl (h.task.mono fun i hi => .inl hi)
  | some e =>
    obtain ⟨k, src⟩ := e
    have hstatus := ((h.task.write b.dest (int2buff k.szKey.length)).write (b.dest + 4)
      k.szKey).write (b.dest + 4 + k.szKey.length)
      (statusByte (S.delete b.server.store r.header.groupId k.packFullKey).1)
    have hdone := hstatus.mono (Q := fun i => i < n ∨ i < b.dest + 4 + k.szKey.length + 1)
      fun i hi => by
        rw [int2buff_length, statusByte, List.length_singleton]
        omega
    dsimp only
    split
    · exact .ok ⟨rfl, hdone⟩
    · exact .ok ⟨rfl, hdone⟩

/-- An entry of BATCH_GET with its key: the status byte, before `dest`, is still to be
written. -/
structure BatchState.KeyAlike (n : Nat) (b b' : BatchState σ) : Prop where
  rest : b' = { b with task := b'.task }
  task : b.task.Alike (fun i => i < n ∨ i + 1 < b.dest) b'.task

theorem BatchState.KeyAlike.getFailed (h : b.KeyAlike n b') (status : Int) :
    (b.getFailed status).Alike n (b'.getFailed status) := by
  obtain ⟨t', rfl⟩ : ∃ t', b' = { b with task := t' } := ⟨_, h.rest⟩
  refine ⟨rfl, (h.task.write (b.dest - 1) (statusByte status)).mono fun i hi => ?_⟩
  have hi' : i < n ∨ i < b.dest := hi
  rw [statusByte, List.length_singleton]
  omega

/-- A value behind the key, with at least four bytes. -/
structure BatchState.ValueAlike (n : Nat) (valueLen : Int) (b b' : BatchState σ) : Prop where
  key : b.KeyAlike n b'
  four : 4 ≤ valueLen
  value : b.task.Alike (fun i => b.dest ≤ i ∧ (i : Int) < b.dest + valueLen) b'.task

theorem BatchState.ValueAlike.getDone (h : b.ValueAlike n valueLen b') :
    (b.getDone valueLen).Alike n (b'.getDone valueLen) := by
  obtain ⟨t', rfl⟩ : ∃ t', b' = { b with task := t' } := ⟨_, h.key.rest⟩
  have hboth : b.task.Alike (fun i => (i < n ∨ i + 1 < b.dest) ∨
      b.dest ≤ i ∧ (i : Int) < b.dest + valueLen) t' :=
    ⟨h.key.task.length, h.key.task.clientIp, h.key.task.size, fun i hi =>
      hi.elim (h.key.task.byte i) (h.value.byte i)⟩
  refine ⟨rfl, ((hboth.write (b.dest - 1) [0]).writeIn _ rfl).mono fun i hi => ?_⟩
  have hi' : i < n ∨ i < (b.dest + valueLen).toNat := hi
  rw [List.length_singleton]
  omega

theorem batchGetValue_alike (S : StoreFuncs σ) (r : BatchRequest) (k : FDHTKeyInfo)
    (h : b.ValueAlike n valueLen b') :
    (batchGetValue S g r k valueLen b).Alike n (batchGetValue S g r k valueLen b') := by
  obtain ⟨t', rfl⟩ : ∃ t', b' = { b with task := t' } := ⟨_, h.key.rest⟩
  have hfour := h.four
  have hexpires : t'.intAt b.dest = b.task.intAt b.dest := h.value.intAt fun i hi hi' => by omega
  unfold batchGetValue
  dsimp only
  rw [hexpires]
  split
  · exact h.key.getFailed ENOENT
  split
  · split
    · refine BatchState.KeyAlike.getFailed ?_ _
      exact ⟨rfl, h.key.task⟩
    · exact BatchState.ValueAlike.getDone ⟨⟨rfl, h.key.task⟩, hfour, h.value⟩
  · exact BatchState.ValueAlike.getDone ⟨⟨rfl, h.key.task⟩, hfour, h.value⟩

theorem BatchState.KeyAlike.answered (h : b.KeyAlike n b')
    (r : BatchRequest) (k : FDHTKeyInfo) {get : GetResult × σ}
    (hanswers : get.1.Answers CarriesExpiry) (hs : V.Holds CarriesExpiry get.2) :
    (b.answered V.toStoreFuncs g r k get).Alike n (b'.answered V.toStoreFuncs g r k get) ∧
      V.Holds CarriesExpiry (b.answered V.toStoreFuncs g r k get).server.store := by
  obtain ⟨t', rfl⟩ : ∃ t', b' = { b with task := t' } := ⟨_, h.rest⟩
  unfold BatchState.answered
  by_cases h0 : get.1.result = 0
  · rw [if_neg (not_not.mpr h0), if_neg (not_not.mpr h0)]
    obtain ⟨value, h4, hvalue⟩ := hanswers.found h0
    have hlen : 4 ≤ value.length := h4
    have hwritten := h.task.write b.dest value
    rw [hvalue]
    refine ⟨batchGetValue_alike _ _ _ ⟨⟨rfl, hwritten.mono fun i hi => .inl hi⟩, ?_, ?_⟩, ?_⟩
    · dsimp only
      omega
    · exact hwritten.mono fun i hi => .inr ⟨hi.1, by have := hi.2; dsimp only at this; omega⟩
    · unfold batchGetValue
      dsimp only
      split
      · exact hs
      split
      · split
        · exact V.holds_partialSet _ _ 0 hs fun w hw => hw
        · exact V.holds_partialSet _ _ 0 hs fun w hw => hw
      · exact hs
  · rw [if_pos h0, if_pos h0]
    refine ⟨BatchState.KeyAlike.getFailed ?_ _, hs⟩
    exact ⟨rfl, h.task⟩

theorem BatchState.Alike.keyRoom (h : b.Alike n b') (fresh : Option Bytes) (k : FDHTKeyInfo) :
    let room := fun t : FastTaskInfo => if t.size ≤ b.dest + (9 + k.szKey.length) then
      checkBuffSize fresh b.dest (9 + k.szKey.length) t else some t
    (room b.task = none ∧ room b'.task = none) ∨
    ∃ t t', room b.task = some t ∧ room b'.task = some t' ∧
      (t.writeKey b.dest k).Alike (fun i => i < n ∨ i < b.dest + 4 + k.szKey.length)
        (t'.writeKey b.dest k) := by
  have hkey : ∀ {t t' : FastTaskInfo}, t.Alike (fun i => i < n ∨ i < b.dest) t' →
      (t.writeKey b.dest k).Alike (fun i => i < n ∨ i < b.dest + 4 + k.szKey.length)
        (t'.writeKey b.dest k) := fun ht =>
    ((ht.write b.dest (int2buff k.szKey.length)).write (b.dest + 4) k.szKey).mono fun i hi => by
      rw [int2buff_length]
      omega
  have hsize : b'.task.size = b.task.size := congrArg Int.ofNat h.task.size
  dsimp only
  rw [hsize]
  split
  · rcases h.task.grown fresh b.dest (9 + k.szKey.length) with hnone | ⟨t, t', ht, ht', halike⟩
    · exact .inl hnone
    · exact .inr ⟨t, t', ht, ht', hkey halike⟩
  · exact .inr ⟨_, _, rfl, rfl, hkey h.task⟩

theorem batchGetEntry_alike (r : BatchRequest) (inBodyLen : Int)
    (inBuff : Bytes) (i : Nat) (hs : V.Holds CarriesExpiry b.server.store) (h : b.Alike n b') :
    LoopAlike n (batchGetEntry V.toStoreFuncs g env r inBodyLen inBuff i b)
      (batchGetEntry V.toStoreFuncs g env r inBodyLen inBuff i b') ∧
    ∀ b₁, batchGetEntry V.toStoreFuncs g env r inBodyLen inBuff i b = .ok b₁ →
      V.Holds CarriesExpiry b₁.server.store := by
  obtain ⟨t', rfl⟩ : ∃ t', b' = { b with task := t' } := ⟨_, h.rest⟩
  cases hkey : batchKey r inBodyLen inBuff b.src with
  | none =>
    unfold batchGetEntry
    rw [hkey]
    exact ⟨.ret _ rfl (h.task.mono fun _ hi => .inl hi), fun _ h => by cases h⟩
  | some e =>
    obtain ⟨k, src⟩ := e
    rcases h.keyRoom (env.alloc (2 * i)) k with ⟨hnone, hnone'⟩ | ⟨t₁, t₁', hroom, hroom', halike⟩
    · unfold batchGetEntry
      dsimp only at hnone hnone' ⊢
      rw [hkey]
      dsimp only
      rw [hnone, hnone']
      exact ⟨.ret _ rfl (h.task.mono fun _ hi => .inl hi), fun _ h => by cases h⟩
    obtain ⟨b₁, hb₁⟩ : ∃ b₁ : BatchState σ, b₁ = { b with
      task := t₁.writeKey b.dest k
      src := src
      dest := b.dest + 4 + k.szKey.length + 1 } := ⟨_, rfl⟩
    obtain ⟨t₂, ht₂⟩ : ∃ t₂, t₂ = t₁'.writeKey b.dest k := ⟨_, rfl⟩
    have hkeyed : b₁.KeyAlike n { b₁ with task := t₂ } := by
      refine ⟨rfl, ?_⟩
      rw [hb₁, ht₂]
      exact halike.mono fun i hi => by dsimp only at hi; omega
    obtain ⟨get, hget⟩ : ∃ get, get = V.get b.server.store r.header.groupId k.packFullKey
      (b₁.task.size - b₁.dest) := ⟨_, rfl⟩
    have hsize : t₂.size = b₁.task.size := congrArg Int.ofNat hkeyed.task.size
    have hanswers := V.get_answers r.header.groupId k.packFullKey (b₁.task.size - b₁.dest) hs
    have hs₁ := V.holds_get r.header.groupId k.packFullKey (b₁.task.size - b₁.dest) hs
    rw [← hget] at hanswers hs₁
    have hentry : batchGetEntry V.toStoreFuncs g env r inBodyLen inBuff i b =
        if get.1.result = ENOSPC then
          (checkBuffSize (env.alloc (2 * i + 1)) b₁.dest get.1.size b₁.task).elim
            (.error (.ret ENOMEM { b₁ with server := { b₁.server with store := get.2 } }))
            fun t' => .ok ({ b₁ with task := t' }.answered V.toStoreFuncs g r k
              (V.get get.2 r.header.groupId k.packFullKey get.1.size))
        else .ok (b₁.answered V.toStoreFuncs g r k get) := by
      rw [hget, hb₁]
      exact batchGetEntry_answered V.toStoreFuncs hkey hroom
    have hentry' : batchGetEntry V.toStoreFuncs g env r inBodyLen inBuff i { b with task := t' } =
        if get.1.result = ENOSPC then
          (checkBuffSize (env.alloc (2 * i + 1)) b₁.dest get.1.size t₂).elim
            (.error (.ret ENOMEM { b₁ with
              task := t₂
              server := { b₁.server with store := get.2 } }))
            fun t' => .ok ({ b₁ with task := t' }.answered V.toStoreFuncs g r k
              (V.get get.2 r.header.groupId k.packFullKey get.1.size))
        else .ok ({ b₁ with task := t₂ }.answered V.toStoreFuncs g r k get) := by
      rw [hget, ← hsize, hb₁, ht₂]
      exact batchGetEntry_answered V.toStoreFuncs (b := { b with task := t' }) hkey hroom'
    rw [hentry, hentry']
    by_cases hnospc : get.1.result = ENOSPC
    · rw [if_pos hnospc, if_pos hnospc]
      rcases hkeyed.task.grown (env.alloc (2 * i + 1)) b₁.dest get.1.size with
        ⟨hnone, hnone'⟩ | ⟨t₃, t₃', hgrow, hgrow', hgrown⟩
      · rw [hnone, hnone']
        exact ⟨.ret _ rfl (hkeyed.task.mono fun _ hi => .inl hi), fun _ h => by cases h⟩
      · rw [hgrow, hgrow']
        have hkeyed' : BatchState.KeyAlike n { b₁ with task := t₃ } { b₁ with task := t₃' } :=
          ⟨rfl, hgrown⟩
        obtain ⟨hdone, hholds⟩ := hkeyed'.answered (V := V) (g := g) r k
          (V.get_answers r.header.groupId k.packFullKey get.1.size hs₁)
          (V.holds_get r.header.groupId k.packFullKey get.1.size hs₁)
        exact ⟨.ok hdone, fun b₂ h => Except.ok.inj h ▸ hholds⟩
    · rw [if_neg hnospc, if_neg hnospc]
      obtain ⟨hdone, hholds⟩ := hkeyed.answered (V := V) (g := g) r k hanswers hs₁
      exact ⟨.ok hdone, fun b₂ h => Except.ok.inj h ▸ hholds⟩

theorem dealCmdBatchGet_alike (env : TaskEnv)
    (hs : V.Holds CarriesExpiry s.store) (h : t.Received t') :
    (dealCmdBatchGet V.toStoreFuncs g env t s).Alike
      (dealCmdBatchGet V.toStoreFuncs g env t' s) := by
  unfold dealCmdBatchGet
  rw [h.inBodyLen.2]
  refine dealCmdBatchKeys_alike (P := fun b => V.Holds CarriesExpiry b.server.store) h
    (fun _ => hs) (fun r i b b' hinv hb => batchGetEntry_alike r _ _ i hinv hb)
    fun r b b' hb => ?_
  obtain ⟨t', rfl⟩ : ∃ t', b' = { b with task := t' } := ⟨_, hb.rest⟩
  exact ⟨rfl, rfl, hb.task.writeIn _ rfl⟩

theorem dealCmdBatchDel_alike (S : StoreFuncs σ) (h : t.Received t') :
    (dealCmdBatchDel S g t s).Alike (dealCmdBatchDel S g t' s) := by
  unfold dealCmdBatchDel
  rw [h.inBodyLen.2]
  refine dealCmdBatchKeys_alike (P := fun _ => True) h (fun _ => trivial)
    (fun r i b b' _ hb => ⟨batchDelEntry_alike S r _ _ hb, fun _ _ => trivial⟩)
    fun r b b' hb => ?_
  obtain ⟨t', rfl⟩ : ∃ t', b' = { b with task := t' } := ⟨_, hb.rest⟩
  exact ⟨rfl, rfl, hb.task⟩

end Batches

/-! ## Requests -/

/-- The commands of clients that are answered from the message and the store. -/
def keyCommands : List ProtoCmd := [.get, .set, .del, .inc, .batchGet, .batchDel, .getSubKeys]

/-- What is seen of a request: its status, the bytes that are sent, and the server
afterwards. -/
def handled (S : StoreFuncs σ) (g : Globals) (env : TaskEnv) (t : FastTaskInfo) (s : Server σ) :
    Option (Option (Int × Bytes) × Server σ) :=
  (workDealTask S g env t s).map fun r => (r.1.map fun a => (a.1, a.2.sent), r.2)

/-- The bytes behind the message have no influence on a request to the server. -/
def StaleBytesIgnored (S : StoreFuncs σ) (s : Server σ) : Prop :=
  ∀ g env t t', (∃ cmd ∈ keyCommands, t.cmd = some cmd) → t.Received t' →
    handled S g env t' s = handled S g env t s

theorem handled_alike {S : StoreFuncs σ} {g : Globals} {env : TaskEnv} {t t' : FastTaskInfo}
    {s : Server σ} {cmd : ProtoCmd} {r r' : Reply σ} (hcmd : t.cmd = some cmd)
    (hcmd' : t'.cmd = some cmd) (hquit : cmd ≠ .quit) (hr : dealCmd S g env t s (some cmd) = some r)
    (hr' : dealCmd S g env t' s (some cmd) = some r') (h : r.Alike r') :
    handled S g env t' s = handled S g env t s := by
  have hwork : ∀ {t : FastTaskInfo} {r : Reply σ}, t.cmd = some cmd →
      dealCmd S g env t s (some cmd) = some r → handled S g env t s =
        some (some (r.status, (packResponse g r.status r.task).sent), r.server) := by
    intro t r hcmd hr
    unfold handled workDealTask
    rw [hcmd]
    cases cmd with
    | quit => exact absurd rfl hquit
    | _ =>
      dsimp only
      rw [hr]
      rfl
  rw [hwork hcmd hr, hwork hcmd' hr', packResponse_alike h, h.status, h.server]

theorem FastTaskInfo.Received.cmd {t t' : FastTaskInfo} (h : t.Received t') : t'.cmd = t.cmd := by
  have hle := h.le
  have hbyte : t'.data.getD cmdOffset 0 = t.data.getD cmdOffset 0 :=
    h.alike.byte _ (lt_of_lt_of_le (show cmdOffset < sizeofHeader by decide) hle)
  unfold FastTaskInfo.cmd
  rw [hbyte]

/-- A store whose values carry their expiry. -/
theorem staleBytesIgnored_of_carriesExpiry {s : Server σ}
    (hs : V.Holds CarriesExpiry s.store) : StaleBytesIgnored V.toStoreFuncs s := by
  rintro g env t t' ⟨cmd, hmem, hcmd⟩ h
  have hcmd' := h.cmd.trans hcmd
  simp only [keyCommands, List.mem_cons, List.not_mem_nil, or_false] at hmem
  rcases hmem with rfl | rfl | rfl | rfl | rfl | rfl | rfl
  · exact handled_alike hcmd hcmd' nofun rfl rfl (dealCmdGet_alike env hs h)
  · exact handled_alike hcmd hcmd' nofun rfl rfl (dealCmdSet_alike _ _ h)
  · exact handled_alike hcmd hcmd' nofun rfl rfl (dealCmdDel_alike _ _ h)
  · exact handled_alike hcmd hcmd' nofun rfl rfl (dealCmdInc_alike _ h)
  · exact handled_alike hcmd hcmd' nofun rfl rfl (dealCmdBatchGet_alike env hs h)
  · exact handled_alike hcmd hcmd' nofun rfl rfl (dealCmdBatchDel_alike _ h)
  · exact handled_alike hcmd hcmd' nofun rfl rfl (dealCmdGetSubKeys_alike hs h)

/-- **Stale bytes have no influence**, in every state that is reached from one whose
values carry their expiry, as long as no BATCH_SET entry with a negative value length
is served: two buffers that agree on the message lead to the same response, store,
lists and binlog. -/
theorem stale_bytes_ignored (s s' : Server Bdb) (p p' : Server Mpool) :
    ((∀ k v, s.store.data k = some v → 4 ≤ v.length) →
      ReflTransGen (Serves bdbFuncs fun g t => t.hasNegativeEntry g = false) s s' →
      StaleBytesIgnored bdbFuncs s') ∧
    ((∀ d ∈ p.store.hashArray.nodes, 4 ≤ d.value.length) →
      ReflTransGen (MpoolStep fun g t => t.hasNegativeEntry g = false) p p' →
      StaleBytesIgnored mpoolFuncs p') := by
  constructor
  · intro hs hrun
    exact staleBytesIgnored_of_carriesExpiry (V := bdbAnswers)
      (serves_holds (V := bdbValues) hs hrun)
  · intro hp hrun
    exact staleBytesIgnored_of_carriesExpiry (V := mpoolAnswers) (mpoolSteps_hold hp hrun)

/-- A message in a buffer with twenty more bytes, left by an earlier one. -/
def FastTaskInfo.behind (t : FastTaskInfo) (stale : UInt8) : FastTaskInfo :=
  { t with data := t.data ++ List.replicate 20 stale }

/-- BATCH_GET of the key `a`. -/
def batchGetRequest : FastTaskInfo :=
  request .batchGet 0 (-1) (int2buff 0 ++ int2buff 0 ++ int2buff 1 ++ int2buff 1 ++ [97])

theorem FastTaskInfo.behind_received {t : FastTaskInfo} (stale stale' : UInt8)
    (hfull : t.length = t.data.length) (hheader : (sizeofHeader : Int) ≤ t.length)
    (hmax : t.length < 2 ^ 31) : (t.behind stale).Received (t.behind stale') := by
  refine ⟨hheader, hmax, rfl, rfl, ?_, fun i hi => ?_⟩
  · show (t.data ++ _).length = (t.data ++ _).length
    rw [List.length_append, List.length_append, List.length_replicate, List.length_replicate]
  · have hin : i < t.data.length := by
      have hi' : i < t.length.toNat := hi
      omega
    show (t.data ++ _).getD i 0 = (t.data ++ _).getD i 0
    rw [List.getD_append _ _ _ _ hin, List.getD_append _ _ _ _ hin]

/-- After a SET, a BATCH_GET in two buffers. -/
theorem stale_bytes_ignored_set :
    setRequest.hasNegativeEntry oneGroup = false ∧
      ∃ s, served oneGroup setRequest emptyServer = some s ∧
        s.store.data (0, [1, 1, 97]) = some [0, 0, 0, 0, 120] ∧
        handled bdbFuncs oneGroup quietEnv (batchGetRequest.behind 1) s =
          handled bdbFuncs oneGroup quietEnv (batchGetRequest.behind 0) s := by
  have hok : setRequest.hasNegativeEntry oneGroup = false := by decide +kernel
  obtain ⟨s, hs, hv⟩ := served_setRequest
  have hignored := (stale_bytes_ignored emptyServer s ⟨emptyMpool, [], default⟩
    ⟨emptyMpool, [], default⟩).1 (fun _ _ h => by cases h) (.single (served_run _ hok hs))
  exact ⟨hok, s, hs, hv, hignored _ _ _ _ ⟨.batchGet, by decide, by decide +kernel⟩
    (FastTaskInfo.behind_received 0 1 (by decide +kernel) (by decide +kernel) (by decide +kernel))⟩

/-- The empty value under `a` takes the last byte of its expiry from behind the message,
and the response tells it. -/
theorem stale_byte_sent :
    ¬ ((∀ s s' : Server Bdb, (∀ k v, s.store.data k = some v → 4 ≤ v.length) →
        ReflTransGen (Serves bdbFuncs fun _ _ => True) s s' →
        StaleBytesIgnored bdbFuncs s') ∧
      ∀ p p' : Server Mpool, (∀ d ∈ p.store.hashArray.nodes, 4 ≤ d.value.length) →
        ReflTransGen (MpoolStep fun _ _ => True) p p' → StaleBytesIgnored mpoolFuncs p') := by
  rintro ⟨hall, -⟩
  have hsent : (served oneGroup negativeBatch emptyServer).map (fun s => [0, 1].map fun stale =>
      (handled bdbFuncs oneGroup quietEnv (batchGetRequest.behind stale) s).map
        fun r => r.1.map fun a => readAt a.2 expiresOffset 4) =
      some [some (some [0, 1, 97, 0]), some (some [0, 1, 97, 1])] := by decide +kernel
  obtain ⟨s, hs, hv⟩ := Option.map_eq_some_iff.mp hsent
  have hsame := hall emptyServer s (fun _ _ h => by cases h) (.single (served_run _ trivial hs))
    oneGroup quietEnv (batchGetRequest.behind 0) (batchGetRequest.behind 1)
    ⟨.batchGet, by decide, by decide +kernel⟩
    (FastTaskInfo.behind_received 0 1 (by decide +kernel) (by decide +kernel) (by decide +kernel))
  simp only [List.map_cons, List.map_nil, hsame, List.cons.injEq] at hv
  exact absurd (hv.1.symm.trans hv.2.1) (by decide)

end FastDht
