import FastDht.Server.ListEffects
import FastDht.Server.LoggedRecords
import FastDht.Server.Sync
import FastDht.Server.Workers

/-! # Clients' requests in a quiet store

In a store in which nothing fails a SET, INC or DEL of a client does the
overwrites of the records that it logs, and nothing else. The records are of the
key of the request or of the list of its object. -/
namespace FastDht
open Lib

variable {σ κ : Type} [DecidableEq κ]

def MapStore.overwrite (M : MapStore σ κ) (g : Globals) (w : LogWrite) : κ × Option Bytes :=
  (M.slot (g.groupOf w.keyHashCode) w.keyInfo.packFullKey, (w.entry g).2)

/-- From one state to another the server has appended the records `log`, which
describe all it has done to its store. -/
structure MapStore.Follows (M : MapStore σ κ) (g : Globals) (s s' : Server σ)
    (log : List LogWrite) : Prop where
  quiet : M.Quiet s'.store
  binlog : s'.binlog = s.binlog ++ log
  replay : M.lookup s'.store = replay (log.map (M.overwrite g)) (M.lookup s.store)

/-- A message of a length that an `int` and the store have room for. -/
structure FastTaskInfo.Fits (M : MapStore σ κ) (t : FastTaskInfo) : Prop where
  length_nonneg : 0 ≤ t.length
  length_lt : t.length < 2 ^ 31
  room : M.room t.length.toNat

instance (M : MapStore σ κ) [DecidablePred M.room] (t : FastTaskInfo) : Decidable (t.Fits M) :=
  decidable_of_iff (0 ≤ t.length ∧ t.length < 2 ^ 31 ∧ M.room t.length.toNat)
    ⟨fun h => ⟨h.1, h.2.1, h.2.2⟩, fun h => ⟨h.1, h.2, h.3⟩⟩

/-- The key of a SET, INC or DEL that passes its checks. -/
def FastTaskInfo.keyRequest (g : Globals) (t : FastTaskInfo) : Option KeyRequest :=
  match t.cmd with
  | some .set => (parseSet g true t).map Prod.fst
  | some .inc => parseExact g 16 true t
  | some .del => parseExact g 12 true t
  | _ => none

/-- What is known of a record that a request of a client has logged. -/
structure LogWrite.FromClient (M : MapStore σ κ) (g : Globals) (t : FastTaskInfo) (w : LogWrite) :
    Prop where
  of : w.Of g t (t.header g)
  valueLen_nonneg : 0 ≤ w.valueLen
  source : w.opType = .sourceSet ∨ w.opType = .sourceDel
  room : M.room (4 + w.value.length)
  fits : sizeofHeader + 16 + w.keyInfo.bytes + w.value.length < 2 ^ 31

section Requests

variable {M : MapStore σ κ} {g : Globals} {t : FastTaskInfo} {s : Server σ}

theorem MapStore.Follows.nil (hq : M.Quiet s.store) : M.Follows g s s [] :=
  ⟨hq, (List.append_nil _).symm, rfl⟩

theorem MapStore.Follows.trans {s₁ s' : Server σ} {log log' : List LogWrite}
    (h : M.Follows g s s₁ log) (h' : M.Follows g s₁ s' log') : M.Follows g s s' (log ++ log') where
  quiet := h'.quiet
  binlog := by rw [h'.binlog, h.binlog, List.append_assoc]
  replay := by rw [h'.replay, h.replay, List.map_append, replay_append]

/-! ## Records -/

theorem LogWrite.FromClient.of_short {w : LogWrite} (hof : w.Of g t (t.header g))
    (h0 : 0 ≤ w.valueLen) (hsource : w.opType = .sourceSet ∨ w.opType = .sourceDel)
    (hshort : w.valueLen ≤ fdhtKeyListMaxSize) : w.FromClient M g t := by
  have hlen : w.value.length ≤ fdhtKeyListMaxSize := by
    rw [(LogWrite.value_eq hof.pValue_length h0 hof.valueLen_lt).2, hof.pValue_length]
    omega
  have hn := w.keyInfo.namespaceLen_le
  have ho := w.keyInfo.objIdLen_le
  have hk := w.keyInfo.keyLen_le
  refine ⟨hof, h0, hsource, M.room_le (by omega) M.room_list, ?_⟩
  simp only [fdhtMaxNamespaceLen, fdhtMaxObjectIdLen, fdhtMaxSubKeyLen, fdhtKeyListMaxSize]
    at hn ho hk hlen
  simp only [sizeofHeader, FDHTKeyInfo.bytes]
  omega

theorem hasBodyLen_eq {n : Int} {k : FDHTKeyInfo} (h : t.hasBodyLen n k = true) :
    t.inBodyLen = n + k.bytes := by
  rw [of_decide_eq_true h]
  unfold FDHTKeyInfo.bytes
  omega

theorem parseSet_bodyLen {source : Bool} {r : KeyRequest} {n : Nat}
    (hp : parseSet g source t = some (r, n)) : t.inBodyLen = 16 + n + r.keyInfo.bytes := by
  obtain ⟨r', -, hp⟩ := Option.bind_eq_some_iff.mp hp
  dsimp only at hp
  split at hp
  · cases hp
  split at hp
  · rename_i h0 hlen
    cases hp
    rw [hasBodyLen_eq (Bool.and_eq_true_iff.mp hlen).1]
    omega
  · cases hp

theorem FastTaskInfo.Fits.set_length (hfits : t.Fits M) {source : Bool} {r : KeyRequest} {n : Nat}
    (hp : parseSet g source t = some (r, n)) :
    t.length = sizeofHeader + 16 + r.keyInfo.bytes + n := by
  have hbody := parseSet_bodyLen hp
  have hlt := hfits.length_lt
  have h0 := hfits.length_nonneg
  have hheader : sizeofHeader = 19 := rfl
  unfold FastTaskInfo.inBodyLen at hbody
  rw [toInt32_of_range (by omega) (by omega)] at hbody
  omega

theorem setWrite_fromClient (hfits : t.Fits M) (hcmd : t.cmd = some .set) {r : KeyRequest} {n : Nat}
    (hp : parseSet g true t = some (r, n)) :
    (setWrite g .sourceSet r t n).FromClient M g t := by
  obtain ⟨hr, hvalueLen⟩ := parseSet_of hp
  have hof := setWrite_of (.inl ⟨rfl, hcmd⟩) hr hvalueLen
  have h0 : 0 ≤ (setWrite g .sourceSet r t n).valueLen := Int.natCast_nonneg n
  have hvalue : (setWrite g .sourceSet r t n).value.length = n := by
    rw [(LogWrite.value_eq hof.pValue_length h0 hof.valueLen_lt).2, hof.pValue_length]
    exact Int.toNat_natCast n
  have hlength := hfits.set_length hp
  have hlt := hfits.length_lt
  have hkey : (setWrite g .sourceSet r t n).keyInfo = r.keyInfo := rfl
  refine ⟨hr.header ▸ hof, h0, .inl rfl, ?_, ?_⟩
  · exact M.room_le (by omega) hfits.room
  · rw [hvalue, hkey]
    omega

theorem incWrite_fromClient (hcmd : t.cmd = some .inc) {r : KeyRequest} (hr : r.Of g t) (m : Int) :
    (incWrite g r.keyInfo r.header.keyHashCode
      (incValue (toInt32 r.header.newExpires) m)).FromClient M g t := by
  have hlen := incValue_length (toInt32 r.header.newExpires) m
  have hmax : fdhtKeyListMaxSize = 65536 := rfl
  have hexp : buff2int (incValue (toInt32 r.header.newExpires) m) =
      toInt32 r.header.newExpires := (buff2int_int2buff _ _).trans (toInt32_toInt32 _)
  refine .of_short ?_ (by simp only [incWrite]; omega) (.inl rfl) (by simp only [incWrite]; omega)
  exact {
    isWrite := by simp [FastTaskInfo.isWrite, FastTaskInfo.setsExpiry, hcmd]
    owns := hr.header ▸ hr.owns
    keyHashCode := by rw [hr.header]; rfl
    timestamp := by simp [FastTaskInfo.recordTime, hcmd, incWrite]
    expires := .inr ⟨by simp [FastTaskInfo.setsExpiry, hcmd], by
      simp only [incWrite, hexp, toInt32_toInt32, hr.header]⟩
    key_nonempty := hr.key_nonempty
    pValue_length := by simp only [incWrite, List.length_drop]; omega
    valueLen_lt := by simp only [incWrite]; omega }

theorem delWrite_fromClient (hcmd : t.cmd = some .del) {r : KeyRequest} (hr : r.Of g t) :
    (delWrite g .sourceDel r).FromClient M g t :=
  .of_short (hr.header ▸ delWrite_of (.inl ⟨rfl, hcmd⟩) hr) le_rfl (.inr rfl) (by simp [delWrite])

theorem ListEffect.records_fromClient {h : ReqHeader} (hh : t.header g = h)
    (hsrc : SourceRequest g t h) {k : FDHTKeyInfo} {value : Option Bytes} {e : ListEffect}
    (hsize : ∀ keys, e = .write keys → (joinKeys keys).length ≤ fdhtKeyListMaxSize) {w : LogWrite}
    (hw : w ∈ e.records g h k value) : w.FromClient M g t ∧ w.keyInfo = k.listKey := by
  subst hh
  have hmax : fdhtKeyListMaxSize = 65536 := rfl
  cases e with
  | keep => cases hw
  | write keys =>
    rw [List.mem_singleton.mp hw]
    have hlen := newKeyList_length keys
    have hkeys := hsize keys rfl
    refine ⟨.of_short (listWrite_of hsrc _ k ?_) (Int.natCast_nonneg _) (.inl rfl) ?_, rfl⟩
    · rw [List.length_drop]
      omega
    · simp only [listWrite, List.length_drop]
      omega
  | remove =>
    rcases value with _ | v
    · cases hw
    · rw [List.mem_singleton.mp hw]
      exact ⟨.of_short (listWrite_of hsrc _ k (by simp)) (by simp [listWrite]) (.inr rfl)
        (by simp [listWrite]), rfl⟩

/-! ## The store call -/

theorem overwrite_eq {w : LogWrite} {h : ReqHeader} (hw : w.Of g t h) (h0 : 0 ≤ w.valueLen)
    (hid : h.groupId = g.groupOf h.keyHashCode) :
    M.overwrite g w = (M.slot h.groupId w.keyInfo.packFullKey,
      if w.opType.isSet then some (int2buff w.expires ++ w.pValue) else none) := by
  unfold MapStore.overwrite LogWrite.entry
  rw [(LogWrite.value_eq hw.pValue_length h0 hw.valueLen_lt).2, hw.keyHashCode, hid]

/-- The store call of a request does the overwrite of its record; it fails only if
there is nothing to delete. -/
theorem storeCall_quiet (hq : M.Quiet s.store) (hfits : t.Fits M) {status : Int} {store : σ}
    {job : Job} (hcall : storeCall M.toStoreFuncs g t s = some (status, store, job)) :
    M.Quiet store ∧ M.lookup store = Function.update (M.lookup s.store)
        (M.overwrite g job.record).1 (M.overwrite g job.record).2 ∧
      (status = 0 ∨ status = ENOENT ∧ M.lookup store = M.lookup s.store) ∧
      job.record.FromClient M g t ∧ t.keyRequest g = some job.request ∧
      job.record.keyInfo = job.request.keyInfo := by
  unfold storeCall at hcall
  split at hcall
  · rename_i hcmd
    obtain ⟨⟨r, n⟩, hp, heq⟩ := Option.map_eq_some_iff.mp hcall
    cases heq
    have hw := setWrite_fromClient hfits hcmd hp
    have hr := (parseSet_of hp).1
    have hover : M.overwrite g (setWrite g .sourceSet r t n) = (M.slot r.header.groupId
        r.keyInfo.packFullKey, some ((setBuffer r t).bodyBytes r.off (4 + n))) := by
      rw [overwrite_eq hw.of hw.valueLen_nonneg rfl, hr.header, setBuffer_value g .sourceSet]
      rfl
    have hroom : M.room ((setBuffer r t).bodyBytes r.off (4 + n)).length := by
      have hlength := hfits.set_length hp
      refine M.room_le ?_ hfits.room
      simp only [FastTaskInfo.bodyBytes, readAt_length]
      omega
    obtain ⟨hq', hstatus, hlookup⟩ := M.set_quiet r.header.groupId r.keyInfo.packFullKey
      ((setBuffer r t).bodyBytes r.off (4 + n)) (packFullKey_length_le _) hroom hq
    have hkey : t.keyRequest g = some r := by
      rw [FastTaskInfo.keyRequest, hcmd]
      exact congrArg (Option.map Prod.fst) hp
    refine ⟨hq', ?_, .inl hstatus, hw, hkey, rfl⟩
    rw [hover]
    exact hlookup
  · rename_i hcmd
    obtain ⟨r, hp, heq⟩ := Option.map_eq_some_iff.mp hcall
    cases heq
    have hr := parseExact_of hp
    obtain ⟨hq', m, hstatus, hvalue, hlookup⟩ := M.incEx_quiet r.header.groupId
      r.keyInfo.packFullKey (t.bodyInt r.off) incValueLen (toInt32 r.header.newExpires)
      g.currentTime (packFullKey_length_le _) hq
    have hover := (incWrite_entry g g r.keyInfo r.header.keyHashCode
      (toInt32 r.header.newExpires) m).2
    have hid : g.groupOf r.header.keyHashCode = r.header.groupId := by rw [← hr.header]; rfl
    have hkey : t.keyRequest g = some r := by
      rw [FastTaskInfo.keyRequest, hcmd]
      exact hp
    unfold incCall
    rw [hvalue]
    refine ⟨hq', ?_, .inl hstatus, incWrite_fromClient hcmd hr m, hkey, rfl⟩
    unfold MapStore.overwrite
    rw [hover, hlookup, show (incWrite g r.keyInfo r.header.keyHashCode
      (incValue (toInt32 r.header.newExpires) m)).keyHashCode = r.header.keyHashCode from rfl, hid]
    rfl
  · rename_i hcmd
    obtain ⟨r, hp, heq⟩ := Option.map_eq_some_iff.mp hcall
    cases heq
    have hr := parseExact_of hp
    have hw := delWrite_fromClient (M := M) hcmd hr
    obtain ⟨hq', hstatus, hlookup⟩ := M.delete_quiet r.header.groupId r.keyInfo.packFullKey hq
    have hover : M.overwrite g (delWrite g .sourceDel r) =
        (M.slot r.header.groupId r.keyInfo.packFullKey, none) := by
      rw [overwrite_eq hw.of hw.valueLen_nonneg rfl, hr.header]
      rfl
    have hkey : t.keyRequest g = some r := by
      rw [FastTaskInfo.keyRequest, hcmd]
      exact hp
    refine ⟨hq', by dsimp only; rw [hover]; exact hlookup, ?_, hw, hkey, rfl⟩
    rcases hv : M.lookup s.store (M.slot r.header.groupId r.keyInfo.packFullKey) with _ | v
    · rw [hv] at hstatus
      refine .inr ⟨hstatus, hlookup.trans ?_⟩
      rw [← hv, Function.update_eq_self]
    · rw [hv] at hstatus
      exact .inl hstatus
  · cases hcall

/-! ## The whole request -/

theorem dealCmd_no_storeCall {c : ProtoCmd} (hc : c ∈ [ProtoCmd.set, .inc, .del])
    (hcmd : t.cmd = some c) {S : StoreFuncs σ} {env : TaskEnv} {reply : Reply σ}
    (hnone : storeCall S g t s = none)
    (hdeal : dealCmd S g env t s t.cmd = some reply) : reply.server = s := by
  unfold storeCall at hnone
  rw [hcmd] at hnone hdeal
  simp only [List.mem_cons, List.not_mem_nil, or_false] at hc
  rcases hc with rfl | rfl | rfl
  · have hp : parseSet g (OpType.sourceSet = .sourceSet) t = none := Option.map_eq_none_iff.mp hnone
    obtain rfl := Option.some.inj hdeal
    rw [dealCmdSet_reject hp]
    rfl
  · obtain rfl := Option.some.inj hdeal
    rw [dealCmdInc_reject (Option.map_eq_none_iff.mp hnone)]
    rfl
  · have hp : parseExact g 12 (OpType.sourceDel = .sourceDel) t = none :=
      Option.map_eq_none_iff.mp hnone
    obtain rfl := Option.some.inj hdeal
    rw [dealCmdDel_reject hp]
    rfl

theorem Job.updateList_quiet (hq : M.Quiet s.store) (job : Job) :
    ∃ e : ListEffect, (∀ keys, e = .write keys → (joinKeys keys).length ≤ fdhtKeyListMaxSize) ∧
      (g.storeSubKeys = false → e = .keep) ∧
      M.ListUpdated g job.request.header job.request.keyInfo e s
        (job.updateList M.toStoreFuncs g s) := by
  have hkept : M.ListUpdated g job.request.header job.request.keyInfo .keep s s := .kept hq
  have hkeep : ∀ keys, ListEffect.keep = .write keys →
      (joinKeys keys).length ≤ fdhtKeyListMaxSize := fun _ h => by cases h
  unfold Job.updateList keyAdd keyDel
  dsimp only
  split
  · rename_i hsub
    have hoff : ∀ e : ListEffect, g.storeSubKeys = false → e = .keep :=
      fun e h => absurd (hsub.symm.trans h) (by decide)
    split
    · split
      · exact ⟨_, fun _ => ListEffect.ofDel_size, hoff _, keyDoDel_quiet hq⟩
      · exact ⟨.keep, hkeep, hoff _, hkept⟩
    · split
      · exact ⟨_, fun _ => ListEffect.ofAdd_size, hoff _, keyDoAdd_quiet hq⟩
      · exact ⟨.keep, hkeep, hoff _, hkept⟩
  · exact ⟨.keep, hkeep, fun _ => rfl, hkept⟩

theorem MapStore.ListUpdated.follows {h : ReqHeader} {k : FDHTKeyInfo} {e : ListEffect}
    {s' : Server σ} (hu : M.ListUpdated g h k e s s') (hflag : g.writeToBinlogFlag = true)
    (hid : h.groupId = g.groupOf h.keyHashCode)
    (hsize : ∀ keys, e = .write keys → (joinKeys keys).length ≤ fdhtKeyListMaxSize) :
    M.Follows g s s' (e.records g h k (M.lookup s.store (M.listPlace h k))) := by
  refine ⟨hu.quiet, by rw [hu.binlog, if_pos hflag], ?_⟩
  rw [hu.lookup]
  have hplace : ∀ op value, (M.overwrite g (listWrite g h op k value)).1 = M.listPlace h k := by
    intro op value
    unfold MapStore.overwrite MapStore.listPlace
    rw [hid]
    rfl
  cases e with
  | keep => exact Function.update_eq_self _ _
  | write keys =>
    have hlen := newKeyList_length keys
    have hkeys := hsize keys rfl
    have hmax : fdhtKeyListMaxSize = 65536 := rfl
    have hvalue : (listWrite g h .sourceSet k ((newKeyList keys).drop 4)).value =
        (newKeyList keys).drop 4 := by
      refine (LogWrite.value_eq (w := listWrite g h .sourceSet k ((newKeyList keys).drop 4))
        (by simp [listWrite]) (by simp [listWrite]) ?_).2
      simp only [listWrite, List.length_drop]
      omega
    have hover : (M.overwrite g (listWrite g h .sourceSet k ((newKeyList keys).drop 4))).2 =
        some (newKeyList keys) := by
      unfold MapStore.overwrite LogWrite.entry
      rw [hvalue]
      rfl
    simp only [ListEffect.records, List.map_cons, List.map_nil, replay_cons, replay_nil, hplace,
      hover]
    rfl
  | remove =>
    rcases hv : M.lookup s.store (M.listPlace h k) with _ | v
    · -- there is nothing to remove and nothing is logged
      simp only [ListEffect.records, ListEffect.apply, Option.isSome_none, Bool.false_eq_true,
        if_false, List.map_nil, replay_nil]
      rw [← hv, Function.update_eq_self]
    · simp only [ListEffect.records, Option.isSome_some, if_true, List.map_cons, List.map_nil,
        replay_cons, replay_nil, hplace]
      rfl

/-- **A SET, INC or DEL of a client logs what it does.** -/
theorem dealCmd_follows {c : ProtoCmd} (hc : c ∈ [ProtoCmd.set, .inc, .del])
    (hcmd : t.cmd = some c) (hflag : g.writeToBinlogFlag = true) (hq : M.Quiet s.store)
    (hfits : t.Fits M) {env : TaskEnv} {reply : Reply σ}
    (hdeal : dealCmd M.toStoreFuncs g env t s t.cmd = some reply) :
    ∃ log, M.Follows g s reply.server log ∧ ∀ w ∈ log, w.FromClient M g t ∧
      ∃ r, t.keyRequest g = some r ∧ r.Of g t ∧ (w.keyInfo = r.keyInfo ∨
        g.storeSubKeys = true ∧ w.keyInfo = r.keyInfo.listKey) := by
  rcases hcall : storeCall M.toStoreFuncs g t s with _ | ⟨status, store, job⟩
  · rw [dealCmd_no_storeCall hc hcmd hcall hdeal]
    exact ⟨[], .nil hq, by simp⟩
  obtain ⟨hq', hlookup, hstatus, hw, hkey, hinfo⟩ := storeCall_quiet hq hfits hcall
  have hjob := (storeCall_cases hcall).1
  obtain ⟨reply', hdeal', -, hserver⟩ := dealCmd_storeCall hcall env
  obtain rfl : reply' = reply := Option.some.inj (hdeal'.symm.trans hdeal)
  rw [hserver]
  by_cases h0 : status = 0
  · rw [if_pos h0]
    have hlogged : ({ s with store := store }.binlogWrite g job.record).store = store := by
      rw [Server.binlogWrite, if_pos hflag]
    have hone : M.Follows g s ({ s with store := store }.binlogWrite g job.record) [job.record] := by
      refine ⟨by rw [hlogged]; exact hq', ?_, ?_⟩
      · rw [Server.binlogWrite, if_pos hflag]
      · rw [hlogged, hlookup]
        rfl
    have hheader := hjob.request.header
    have hmem : c ∈ [ProtoCmd.set, .inc, .del, .batchSet, .batchDel] := by
      revert hc
      cases c <;> decide
    have hsrc : SourceRequest g t job.request.header := .of_cmd hcmd hmem hjob.request.owns
    obtain ⟨e, hsize, hoff, hupdate⟩ := Job.updateList_quiet (g := g) hone.quiet job
    refine ⟨_, hone.trans (hupdate.follows hflag (by rw [← hheader]; rfl) hsize), ?_⟩
    intro w hmem
    rcases List.mem_append.mp hmem with hmem | hmem
    · rw [List.mem_singleton.mp hmem]
      exact ⟨hw, job.request, hkey, hjob.request, .inl hinfo⟩
    · obtain ⟨hw', hlist⟩ := ListEffect.records_fromClient (M := M) hheader hsrc hsize hmem
      refine ⟨hw', job.request, hkey, hjob.request, .inr ⟨?_, hlist⟩⟩
      by_contra hsub
      rw [hoff (Bool.eq_false_iff.mpr hsub)] at hmem
      cases hmem
  · rw [if_neg h0]
    have hsame : M.lookup store = M.lookup s.store := by
      rcases hstatus with h | h
      · exact absurd h h0
      · exact h.2
    exact ⟨[], ⟨hq', (List.append_nil _).symm, hsame⟩, by simp⟩

end Requests

end FastDht
