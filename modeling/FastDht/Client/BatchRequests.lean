import FastDht.Client.RequestRoundTrip
import FastDht.Server.ReadAnswers

/-! # What the batch handlers make of a client's message

A handler works through the entries of a message up to the first key that a batch may not
name. deal_cmd_batch_set writes its response over the request it reads; the entries it has
still to read stay as they were sent. -/
namespace FastDht
open Lib

variable {σ : Type}

/-- A key that a batch may name, as `CHECK_SUB_KEY_NAME` and the length check see it. -/
def FDHTKeyInfo.nameable (k : FDHTKeyInfo) : Bool := k.szKey ≠ [] && checkSubKeyName k

section Names

variable {o : FDHTObjectInfo} {key : FDHTSubKey} {header : ReqHeader} {n : Nat}

theorem keyInfo_names (h : (o.keyInfo key).nameable = true) :
    BatchRequest.Names ⟨header, o.noKey, n⟩ (o.keyInfo key) := by
  obtain ⟨hne, hcheck⟩ := Bool.and_eq_true_iff.mp h
  exact ⟨rfl, rfl, of_decide_eq_true hne, hcheck⟩

theorem keyInfo_refused (h : (o.keyInfo key).nameable = false) :
    BatchRequest.Refuses ⟨header, o.noKey, n⟩ (o.keyInfo key) := by
  refine ⟨rfl, rfl, ?_⟩
  rcases Bool.and_eq_false_iff.mp h with hne | hcheck
  · exact .inl (not_not.mp (of_decide_eq_false hne))
  · exact .inr hcheck

end Names

/-- All of a list satisfies a test, or there is a first element that does not. -/
theorem takeWhile_split {α : Type} (p : α → Bool) (l : List α) :
    l.takeWhile p = l ∨ ∃ a rest, l = l.takeWhile p ++ a :: rest ∧ p a = false := by
  induction l with
  | nil => exact .inl rfl
  | cons a l ih =>
    cases ha : p a with
    | false =>
      refine .inr ⟨a, l, ?_, ha⟩
      rw [List.takeWhile_cons_of_neg (by rw [ha]; nofun), List.nil_append]
    | true =>
      rw [List.takeWhile_cons_of_pos ha]
      rcases ih with hall | ⟨b, rest, hsplit, hb⟩
      · exact .inl (congrArg (a :: ·) hall)
      · exact .inr ⟨b, rest, congrArg (a :: ·) hsplit, hb⟩

/-- The entries before the first that stops the handler. -/
def handledEntries (o : FDHTObjectInfo) (keyList : List (FDHTSubKey × Bytes)) :
    List (FDHTKeyInfo × Bytes) := (entriesOf o keyList).takeWhile fun e => e.1.nameable

section Each

variable {α β : Type} {handle : α → Server σ → Outcome → Server σ → Prop} {as : List α}
  {os : List Outcome} {s s' : Server σ}

theorem Each.map_eq {f : Outcome → β} {key : α → β} (h : Each handle as s os s')
    (hkey : ∀ a s o s', handle a s o s' → f o = key a) : os.map f = as.map key := by
  induction h with
  | nil => rfl
  | cons hfirst _ ih => rw [List.map_cons, List.map_cons, ih, hkey _ _ _ _ hfirst]

end Each

/-- The response of BATCH_SET and BATCH_DEL: the header that is given, the number of
keys, how many succeeded, and the keys with their statuses; or the last status. -/
def batchAnswer (t : FastTaskInfo) (header : Bytes) (keyCount : Nat) (entry : Outcome → Bytes)
    (os : List Outcome) : Int × Bytes :=
  if 0 < os.countP Outcome.ok then
    (0, header ++ (int2buff keyCount ++ (int2buff (os.countP Outcome.ok) ++ os.flatMap entry)))
  else ((os.getLast?.map Outcome.status).getD 0, t.requestHeader)

section BatchSet

variable {S : StoreFuncs σ} {g : Globals} {t : FastTaskInfo} {s : Server σ} {o : FDHTObjectInfo}
  {keyList : List (FDHTSubKey × Bytes)} {pkgLen hash ts expires : Int} {cmd : ProtoCmd}
  {keepAlive : UInt8}

theorem entriesOf_split (o : FDHTObjectInfo) (keyList : List (FDHTSubKey × Bytes)) :
    handledEntries o keyList = entriesOf o keyList ∨
      ∃ key value rest, entriesOf o keyList =
        handledEntries o keyList ++ (o.keyInfo key, value) :: rest ∧
          (o.keyInfo key).nameable = false := by
  rcases takeWhile_split (fun e : FDHTKeyInfo × Bytes => e.1.nameable) (entriesOf o keyList) with
    hall | ⟨e, rest, hsplit, hbad⟩
  · exact .inl hall
  · have hmem : e ∈ entriesOf o keyList := by
      rw [hsplit]
      exact List.mem_append_right _ List.mem_cons_self
    obtain ⟨⟨key, value⟩, -, rfl⟩ := List.mem_map.mp hmem
    exact .inr ⟨key, value, rest, hsplit, hbad⟩

theorem handledEntries_nameable {e : FDHTKeyInfo × Bytes} (he : e ∈ handledEntries o keyList) :
    e.1.nameable = true :=
  List.mem_takeWhile_imp (p := fun e : FDHTKeyInfo × Bytes => e.1.nameable) he

def setHeader (t : FastTaskInfo) (newExpires : Int) : Bytes :=
  writeAt t.requestHeader expiresOffset (int2buff (toInt32 newExpires))

/-- The loop over the entries that are handled, from any number of them on. -/
theorem batchSet_loop {r : BatchRequest}
    (hr : r = ⟨packedHeader g hash ts expires, o.noKey, keyList.length⟩) (hmax : t.inBodyLen < 2 ^ 31)
    (hready : (batchSetStart r t s).SetReady r t.inBodyLen (entriesOf o keyList))
    {es rest : List (FDHTKeyInfo × Bytes)} (hsplit : entriesOf o keyList = es ++ rest)
    (hes : ∀ e ∈ es, e.1.nameable = true) (n : Nat) :
    ∃ b' os, batchLoop (fun _ => batchSetEntry S g r t.inBodyLen) (es.length + n) 0
          (batchSetStart r t s) =
        batchLoop (fun _ => batchSetEntry S g r t.inBodyLen) n (0 + es.length) b' ∧
      b'.SetReady r t.inBodyLen rest ∧
      Each (fun e s o s' => setKey S g r.header e s = (o, s')) es s os b'.server ∧
      (batchSetStart r t s).Wrote b' os statusEntry g.storeSubKeys := by
  rw [hsplit] at hready
  refine batchLoop_set hmax es rest n (fun e he => ?_) hready
  have hmem : e ∈ entriesOf o keyList := by
    rw [hsplit]
    exact List.mem_append_left _ he
  have hname := hes e he
  obtain ⟨⟨key, value⟩, -, rfl⟩ := List.mem_map.mp hmem
  rw [hr]
  exact keyInfo_names hname

/-- The last step of a BATCH_SET that is answered with its keys: those that were stored
are put into the list of the object. -/
def listStored (S : StoreFuncs σ) (g : Globals) (r : BatchRequest) (os : List Outcome)
    (s : Server σ) : Server σ :=
  if g.storeSubKeys then
    (keyBatchAdd S g r.header.groupId r.keyInfo r.header.keyHashCode
      (qsort compareSubKey ((os.filter Outcome.ok).map Outcome.keyInfo)) s).2
  else s

theorem batchReply_listed {r : BatchRequest} {b : BatchState σ} {os : List Outcome} {n : Nat}
    (hopen : (batchSetStart r t s).Opened t n)
    (hwrote : (batchSetStart r t s).Wrote b os statusEntry g.storeSubKeys) :
    (batchReply true (batchSetFinish S g r) b).server =
      if 0 < os.countP Outcome.ok then listStored S g r os b.server else b.server := by
  have hcount : b.successCount = os.countP Outcome.ok := by
    rw [hwrote.successCount, hopen.counts.1, Nat.zero_add]
  unfold batchReply
  rw [if_neg (by decide), hcount, apply_ite Reply.server]
  dsimp only [batchSetFinish, listStored]
  rw [hwrote.subKeys]
  by_cases hstore : g.storeSubKeys = true
  · rw [if_pos hstore, if_pos hstore, if_pos hstore]
    rfl
  · rw [if_neg hstore, if_neg hstore]

/-- **BATCH_SET sets the values of its message up to the first bad key, and answers.** -/
theorem dealCmdBatchSet_message
    (h : t.HoldsAt 0 (packHeader pkgLen hash ts expires cmd keepAlive ++ packBodyValues o keyList))
    (howns : g.ownsGroup (g.groupOf hash) = true)
    (hbody : t.inBodyLen = (packBodyValues o keyList).length) (hmax : t.inBodyLen < 2 ^ 31)
    (hne : keyList ≠ []) (hcount : keyList.length ≤ fdhtMaxKeyCountPerReq)
    (hkeys : ∀ e ∈ keyList, e.1.szKey ≠ [])
    {r : BatchRequest} (hr : r = ⟨packedHeader g hash ts expires, o.noKey, keyList.length⟩) :
    ∃ os s₁ reply, dealCmdBatchSet S g t s = some reply ∧
      Each (fun e s o s' => setKey S g r.header e s = (o, s')) (handledEntries o keyList) s os s₁ ∧
      reply.server = (if handledEntries o keyList = entriesOf o keyList ∧
          0 < os.countP Outcome.ok then listStored S g r os s₁ else s₁) ∧
      reply.Shows (if handledEntries o keyList = entriesOf o keyList then
          batchAnswer t (setHeader t r.header.newExpires) keyList.length statusEntry os
        else (EINVAL, t.requestHeader)) := by
  obtain ⟨r', hr', hparse, hready⟩ := batchSetStart_ready h howns hbody hne hcount s hkeys
  obtain rfl : r = r' := hr.trans hr'.symm
  have hopen : (batchSetStart r t s).Opened t keyList.length := by
    have hbound := (FastTaskInfo.holdsAt_iff.mp h).2
    rw [List.length_append, packHeader_length, packBodyValues_length] at hbound
    rw [show keyList.length = r.keyCount by rw [hr]]
    exact BatchState.opened (by omega) rfl rfl ⟨rfl, rfl⟩
  have hn : r.keyCount = (entriesOf o keyList).length := by rw [hr, entriesOf, List.length_map]
  rcases entriesOf_split o keyList with hall | ⟨key, value, rest, hsplit, hbad⟩
  · obtain ⟨b', os, hloop, hready', heach, hwrote⟩ := batchSet_loop (S := S) hr hmax hready
      (List.append_nil _).symm (fun e he => handledEntries_nameable (hall.symm ▸ he)) 0
    have hlen := hready'.len
    have hhead : b'.task.HoldsAt 0 t.requestHeader :=
      hwrote.kept _ _ (by rw [t.requestHeader_length, hopen.dest]; omega) hopen.header
    obtain ⟨hsize, hkept, hbehind⟩ := hhead.writeExpires (toInt32 r.header.newExpires)
    have hconsumed : t.inBodyLen =
        r.commonFiledsLen + ((b'.src : Int) - (sizeofHeader + r.commonFiledsLen)) := by
      rw [List.flatMap_nil, List.length_nil] at hlen
      omega
    refine ⟨os, b'.server, batchReply true (batchSetFinish S g r) b', ?_,
      by rw [hall]; exact heach, ?_, ?_⟩
    · unfold dealCmdBatchSet
      rw [hparse]
      dsimp only
      rw [hn, ← Nat.add_zero (entriesOf o keyList).length, hloop]
      dsimp only [batchLoop]
      rw [decide_eq_true hconsumed]
    · rw [batchReply_listed hopen hwrote]
      exact if_congr (and_iff_right hall).symm rfl rfl
    · rw [if_pos hall]
      exact batchReply_answers hopen hwrote rfl hsize hkept hbehind
  · obtain ⟨b', os, hloop, hready', heach, hwrote⟩ := batchSet_loop (S := S) hr hmax hready
      hsplit (fun e he => handledEntries_nameable he) (rest.length + 1)
    have hhead : b'.task.HoldsAt 0 t.requestHeader :=
      hwrote.kept _ _ (by rw [t.requestHeader_length, hopen.dest]; omega) hopen.header
    have hstops : batchSetEntry S g r t.inBodyLen b' = .error (.ret EINVAL b') := by
      have hheld := hready'.holds
      unfold batchSetEntry
      rw [batchSetHead_refused t.inBodyLen (by rw [hr]; exact keyInfo_refused hbad) hheld.split.1]
    have hnot : handledEntries o keyList ≠ entriesOf o keyList := by
      intro hall
      rw [hall] at hsplit
      exact absurd (List.self_eq_append_right.mp hsplit) (List.cons_ne_nil _ _)
    refine ⟨os, b'.server, ⟨EINVAL, b'.task.headerOnly, b'.server⟩, ?_, heach, ?_, ?_⟩
    · unfold dealCmdBatchSet
      rw [hparse]
      dsimp only
      rw [hn, hsplit, List.length_append, List.length_cons, hloop, batchLoop, hstops]
    · exact (if_neg fun h => hnot h.1).symm
    · rw [if_neg hnot]
      exact Reply.shows_headerOnly hhead.requestHeader

theorem Each.setKey_keyInfo {header : ReqHeader} {es : List (FDHTKeyInfo × Bytes)}
    {os : List Outcome} {s s' : Server σ}
    (h : Each (fun e s o s' => setKey S g header e s = (o, s')) es s os s') :
    os.map Outcome.keyInfo = es.map Prod.fst := by
  refine h.map_eq fun e s o s' hset => ?_
  exact congrArg (fun r => r.1.keyInfo) hset.symm

/-- After any number of entries that it handles, their values have been handed to the
store as they were sent, and what the handler has still to read is what was sent. -/
theorem batchSet_unread {r : BatchRequest}
    (hr : r = ⟨packedHeader g hash ts expires, o.noKey, keyList.length⟩)
    (hmax : t.inBodyLen < 2 ^ 31)
    (hready : (batchSetStart r t s).SetReady r t.inBodyLen (entriesOf o keyList))
    {i : Nat} (hi : i ≤ (handledEntries o keyList).length) :
    ∃ b os, batchLoop (fun _ => batchSetEntry S g r t.inBodyLen) i 0 (batchSetStart r t s) = .ok b ∧
      Each (fun e s o s' => setKey S g r.header e s = (o, s'))
        ((handledEntries o keyList).take i) s os b.server ∧
      b.task.HoldsAt b.src (((entriesOf o keyList).drop i).flatMap keyValueEntry) := by
  have hle : (handledEntries o keyList).length ≤ (entriesOf o keyList).length :=
    (List.takeWhile_sublist _).length_le
  have htake : (entriesOf o keyList).take i = (handledEntries o keyList).take i := by
    obtain ⟨rest, hrest⟩ : handledEntries o keyList <+: entriesOf o keyList :=
      List.takeWhile_prefix _
    rw [← hrest, List.take_append_of_le_length hi]
  obtain ⟨b, os, hloop, hready', heach, -⟩ := batchSet_loop (S := S) hr hmax hready
    (List.take_append_drop i _).symm
    (fun e he => handledEntries_nameable (List.mem_of_mem_take (htake ▸ he))) 0
  rw [List.length_take, Nat.min_eq_left (hi.trans hle)] at hloop
  exact ⟨b, os, hloop, htake ▸ heach, hready'.holds⟩

end BatchSet

/-- **BATCH_SET never overwrites what it has still to read: each value up to the first key
that a batch may not name is handed to the store as it was sent, and if all are and one is
stored the response lists the keys in order.** -/
theorem batch_set_in_place (S : StoreFuncs σ) (g : Globals) (s : Server σ) (o : FDHTObjectInfo)
    {keyList : List (FDHTSubKey × Bytes)} (keepAlive : UInt8) (timestamp expires : Int) {hash : Int}
    (hne : keyList ≠ []) (hcount : keyList.length ≤ fdhtMaxKeyCountPerReq)
    (hkeys : ∀ e ∈ keyList, e.1.szKey ≠ []) (howns : g.ownsGroup (g.groupOf hash) = true)
    (hlen : ((ClientCall.batchSet o keyList expires).message keepAlive timestamp hash).length <
      2 ^ 31) (behind clientIp : Bytes) {t : FastTaskInfo}
    (ht : t = receivedTask ((ClientCall.batchSet o keyList expires).message keepAlive timestamp
      hash) behind clientIp) {r : BatchRequest}
    (hr : r = ⟨packedHeader g hash timestamp expires, o.noKey, keyList.length⟩) :
    (∀ i ≤ (handledEntries o keyList).length, ∃ b os,
      batchLoop (fun _ => batchSetEntry S g r t.inBodyLen) i 0 (batchSetStart r t s) = .ok b ∧
        Each (fun e s o s' => setKey S g r.header e s = (o, s'))
          ((handledEntries o keyList).take i) s os b.server ∧
        b.task.HoldsAt b.src (((entriesOf o keyList).drop i).flatMap keyValueEntry)) ∧
    ∃ os s₁ reply, dealCmdBatchSet S g t s = some reply ∧
      Each (fun e s o s' => setKey S g r.header e s = (o, s')) (handledEntries o keyList) s os s₁ ∧
      reply.server = (if handledEntries o keyList = entriesOf o keyList ∧
          0 < os.countP Outcome.ok then listStored S g r os s₁ else s₁) ∧
      os.map Outcome.keyInfo = (handledEntries o keyList).map Prod.fst ∧
      reply.Shows (if handledEntries o keyList = entriesOf o keyList then
          batchAnswer t (setHeader t r.header.newExpires) keyList.length statusEntry os
        else (EINVAL, t.requestHeader)) := by
  have hbody : t.inBodyLen = (packBodyValues o keyList).length := by
    rw [ht]
    exact receivedTask_inBodyLen rfl hlen behind clientIp
  have hholds : t.HoldsAt 0 (packHeader (packBodyValues o keyList).length hash timestamp expires
      .batchSet keepAlive ++ packBodyValues o keyList) := by
    rw [ht]
    exact receivedTask_holdsAt _ behind clientIp
  have hmax : t.inBodyLen < 2 ^ 31 := by
    rw [hbody]
    rw [ClientCall.message, List.length_append] at hlen
    have : (packBodyValues o keyList).length < 2 ^ 31 := by
      change _ + (packBodyValues o keyList).length < _ at hlen
      omega
    exact_mod_cast this
  constructor
  · intro i hi
    obtain ⟨r', hr', -, hready⟩ := batchSetStart_ready hholds howns hbody hne hcount s hkeys
    obtain rfl : r = r' := hr.trans hr'.symm
    exact batchSet_unread hr hmax hready hi
  · obtain ⟨os, s₁, reply, hdeal, heach, hserver, hshows⟩ :=
      dealCmdBatchSet_message (S := S) (s := s) hholds howns hbody hmax hne hcount hkeys hr
    exact ⟨os, s₁, reply, hdeal, heach, hserver, heach.setKey_keyInfo, hshows⟩

/-- Keys without an object. -/
def plainObject : FDHTObjectInfo := ⟨[], [], noNamespace_le, noObjectId_le⟩

/-- BATCH_SET of `a` to nothing, `bb` to `xyz` and `a` to `w`; without a namespace, an object
id and a first value the response is as close behind the request as it can be. -/
def setPlain : List (FDHTSubKey × Bytes) :=
  [(⟨[97], keyA_le⟩, []), (⟨[98, 98], keyBB_le⟩, [120, 121, 122]), (⟨[97], keyA_le⟩, [119])]

theorem batch_set_in_place_plain :
    ∃ reply, dealCmdBatchSet bdbFuncs oneGroup (receivedTask ((ClientCall.batchSet
        plainObject setPlain 0).message 0 1000 0) [] []) emptyServer = some reply ∧
      reply.server.store.data (0, [1, 1, 98, 98]) = some (int2buff 0 ++ [120, 121, 122]) ∧
      reply.server.store.data (0, [1, 1, 97]) = some (int2buff 0 ++ [119]) := by
  have howns : oneGroup.ownsGroup (oneGroup.groupOf 0) = true := by decide
  obtain ⟨-, os, s₁, reply, hdeal, heach, hserver, -⟩ := batch_set_in_place bdbFuncs
    oneGroup emptyServer plainObject 0 1000 0 (show setPlain ≠ [] by decide) (by decide) (by decide)
    howns (by decide) [] [] rfl rfl
  refine ⟨reply, hdeal, ?_⟩
  have hs₁ : reply.server = s₁ := by
    rw [hserver]
    exact ite_self _
  rw [show handledEntries plainObject setPlain = entriesOf plainObject setPlain by decide] at heach
  rcases heach with _ | ⟨hfirst, _ | ⟨hsecond, _ | ⟨hthird, _ | _⟩⟩⟩
  cases hfirst
  cases hsecond
  cases hthird
  rw [hs₁]
  constructor <;> decide +kernel

/-- A response with all the keys, in order. -/
def Reply.Lists (r : Reply σ) (ks : List FDHTKeyInfo) : Prop :=
  ∃ (os : List Outcome) (header : Bytes) (count : Nat),
    os.map Outcome.keyInfo = ks ∧ header.length = sizeofHeader ∧
    r.Shows (0, header ++ (int2buff ks.length ++ (int2buff count ++ os.flatMap statusEntry)))

/-- The reserved key is refused. -/
theorem batch_set_not_listed :
    ¬ ∀ (o : FDHTObjectInfo) (keyList : List (FDHTSubKey × Bytes)) (hash : Int) (s : Server Bdb),
      keyList ≠ [] → keyList.length ≤ fdhtMaxKeyCountPerReq → (∀ e ∈ keyList, e.1.szKey ≠ []) →
      oneGroup.ownsGroup (oneGroup.groupOf hash) = true →
      ((ClientCall.batchSet o keyList 0).message 0 1000 hash).length < 2 ^ 31 →
        ∃ reply, dealCmdBatchSet bdbFuncs oneGroup
            (receivedTask ((ClientCall.batchSet o keyList 0).message 0 1000 hash) [] []) s =
              some reply ∧
          reply.Lists ((entriesOf o keyList).map Prod.fst) := by
  intro hall
  obtain ⟨reply, hdeal, os, header, count, -, -, hshows⟩ := hall plainObject
    [(⟨fdhtListKeyName, by decide⟩, [])] 0 emptyServer (by decide) (by decide) (by decide)
    (by decide) (by decide)
  have hstatus : (dealCmdBatchSet bdbFuncs oneGroup (receivedTask
      ((ClientCall.batchSet plainObject [(⟨fdhtListKeyName, by decide⟩, [])] 0).message 0 1000 0)
      [] []) emptyServer).map Reply.status = some EINVAL := by decide +kernel
  rw [hdeal, Option.map_some, hshows.status] at hstatus
  have hzero : (0 : Int) = EINVAL := Option.some.inj hstatus
  exact absurd hzero (by decide)

end FastDht
