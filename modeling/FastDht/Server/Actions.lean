import FastDht.Server.KeyOpSoundness
import FastDht.Server.WorkThread
import Mathlib.Logic.Relation

/-! # What a request does to the server

Whatever a request contains, it acts on the store and on the binlog through a
few kinds of step only, and logs what it has stored. Every handler is a
sequence of such actions, and `Action.Of` says what an action of a request can
be: where its group, hash code, times and expiry come from. What holds along
all runs of the server follows from this and from what one action does. -/
namespace FastDht
open Lib Relation

variable {σ : Type}

/-- A store call and the record that is logged if it succeeds. GET and
BATCH_GET change an expiry without a record. -/
inductive Action
  | get (groupId : Nat) (fullKey : Bytes) (size : Int)
  | set (groupId : Nat) (value : Bytes) (w : LogWrite)
  | partialSet (groupId : Nat) (fullKey : Bytes) (expires : Int)
  | delete (groupId : Nat) (w : LogWrite)
  | inc (groupId : Nat) (keyInfo : FDHTKeyInfo) (keyHashCode n expires : Int)
  | sync (state : SyncState)

/-- The record of an increment that has stored `value`. -/
def incWrite (g : Globals) (keyInfo : FDHTKeyInfo) (keyHashCode : Int) (value : Bytes) :
    LogWrite where
  timestamp := g.currentTime
  opType := .sourceSet
  keyHashCode := keyHashCode
  expires := buff2int value
  keyInfo := keyInfo
  pValue := value.drop 4
  valueLen := value.length - 4

def Action.run (S : StoreFuncs σ) (g : Globals) (s : Server σ) : Action → Server σ
  | .get groupId fullKey size => { s with store := (S.get s.store groupId fullKey size).2 }
  | .set groupId value w => s.logged g (S.set s.store groupId w.keyInfo.packFullKey value) w
  | .partialSet groupId fullKey expires =>
    { s with store := (S.partialSet s.store groupId fullKey (int2buff expires) 0).2 }
  | .delete groupId w => s.logged g (S.delete s.store groupId w.keyInfo.packFullKey) w
  | .inc groupId keyInfo keyHashCode n expires =>
    let r := S.incEx s.store groupId keyInfo.packFullKey n incValueLen expires g.currentTime
    s.logged g (r.1, r.2.2) (incWrite g keyInfo keyHashCode r.2.1)
  | .sync state => { s with sync := state }

/-- The store call of an action that is logged: its status, the store after it
and its record. -/
def Action.storeCall (S : StoreFuncs σ) (g : Globals) (s : Server σ) :
    Action → Option (Int × σ × LogWrite)
  | .set groupId value w =>
    let r := S.set s.store groupId w.keyInfo.packFullKey value
    some (r.1, r.2, w)
  | .delete groupId w =>
    let r := S.delete s.store groupId w.keyInfo.packFullKey
    some (r.1, r.2, w)
  | .inc groupId keyInfo keyHashCode n expires =>
    let r := S.incEx s.store groupId keyInfo.packFullKey n incValueLen expires g.currentTime
    some (r.1, r.2.2, incWrite g keyInfo keyHashCode r.2.1)
  | _ => none

theorem Action.run_storeCall {S : StoreFuncs σ} {g : Globals} {s : Server σ} {a : Action}
    {status : Int} {store : σ} {w : LogWrite} (h : a.storeCall S g s = some (status, store, w)) :
    a.run S g s = s.logged g (status, store) w := by
  cases a with
  | get grp key n => cases h
  | set grp value w => cases h; rfl
  | partialSet grp key e => cases h
  | delete grp w => cases h; rfl
  | inc grp k hash n e => cases h; rfl
  | sync state => cases h

/-! ## The actions of a request -/

/-- BATCH_SET reaches an entry with a negative value length, among the `n`
entries from offset `src` on. -/
def negativeEntry (r : BatchRequest) (inBodyLen : Int) (t : FastTaskInfo) : Nat → Nat → Bool
  | 0, _ => false
  | n + 1, src =>
    match batchSetHead r inBodyLen t src with
    | none => false
    | some (_, valueLen, src) =>
      valueLen < 0 || negativeEntry r inBodyLen t n (src + (valueLen + 4).toNat)

/-- The request is a BATCH_SET that reaches an entry with a negative value
length. -/
def FastTaskInfo.hasNegativeEntry (g : Globals) (t : FastTaskInfo) : Bool :=
  t.cmd = some .batchSet && (parseBatchRequest g 20 t).any fun r =>
    negativeEntry r t.inBodyLen t r.keyCount (sizeofHeader + r.commonFiledsLen)

theorem hasNegativeEntry_of_ne {t : FastTaskInfo} (h : t.cmd ≠ some .batchSet) (g : Globals) :
    t.hasNegativeEntry g = false := by
  rw [FastTaskInfo.hasNegativeEntry, decide_eq_false h, Bool.false_and]

def OpType.isSet (op : OpType) : Bool := op = .sourceSet || op = .replicaSet

/-- The time of the records of a request: another server's requests bring
theirs. -/
def FastTaskInfo.recordTime (g : Globals) (t : FastTaskInfo) : Int :=
  if t.cmd = some .syncSet ∨ t.cmd = some .syncDel then (t.header g).timestamp else g.currentTime

/-- The requests that store the expiry of their header. -/
def FastTaskInfo.setsExpiry (t : FastTaskInfo) : Bool :=
  [ProtoCmd.set, .syncSet, .inc, .batchSet].any fun c => t.cmd = some c

/-- The requests that log what they store. -/
def FastTaskInfo.isWrite (t : FastTaskInfo) : Bool :=
  t.setsExpiry || [ProtoCmd.del, .syncDel, .batchDel].any fun c => t.cmd = some c

/-- GET and BATCH_GET with an expiry write it over those of the keys they find. -/
def FastTaskInfo.refreshes (t : FastTaskInfo) (h : ReqHeader) : Bool :=
  (t.cmd = some .get || t.cmd = some .batchGet) && toInt32 h.newExpires ≠ fdhtExpiresNone

/-- Where the fields of a record come from; `h` is the header of the request
`t`. -/
structure LogWrite.Of (g : Globals) (t : FastTaskInfo) (h : ReqHeader) (w : LogWrite) : Prop where
  isWrite : t.isWrite = true
  owns : g.ownsGroup h.groupId = true
  keyHashCode : w.keyHashCode = h.keyHashCode
  timestamp : w.timestamp = t.recordTime g
  expires : w.expires = fdhtExpiresNever ∨
    t.setsExpiry = true ∧ toInt32 w.expires = toInt32 h.newExpires
  key_nonempty : t.keyLen ≠ 0 → w.keyInfo.szKey ≠ []
  pValue_length : w.pValue.length = w.valueLen.toNat
  valueLen_lt : w.valueLen < 2 ^ 31

def Action.Of (g : Globals) (t : FastTaskInfo) (h : ReqHeader) : Action → Prop
  | .get _ _ _ => True
  | .set groupId value w =>
    groupId = h.groupId ∧ w.opType.isSet = true ∧ w.Of g t h ∧
      (t.hasNegativeEntry g = false → 0 ≤ w.valueLen ∧ value = int2buff w.expires ++ w.pValue)
  | .partialSet _ _ _ => t.refreshes h = true
  | .delete groupId w =>
    groupId = h.groupId ∧ w.opType.isSet = false ∧ w.Of g t h ∧ w.valueLen = 0
  | .inc groupId keyInfo keyHashCode _ expires =>
    g.ownsGroup h.groupId = true ∧ groupId = h.groupId ∧ keyHashCode = h.keyHashCode ∧
      expires = toInt32 h.newExpires ∧ t.cmd = some .inc ∧ (t.keyLen ≠ 0 → keyInfo.szKey ≠ [])
  | .sync _ => True

def Act (S : StoreFuncs σ) (g : Globals) (P : Action → Prop) (s s' : Server σ) : Prop :=
  ∃ a, P a ∧ s' = a.run S g s

/-- The server gets from one state to another by actions that satisfy `P`. -/
abbrev Acts (S : StoreFuncs σ) (g : Globals) (P : Action → Prop) :
    Server σ → Server σ → Prop := ReflTransGen (Act S g P)

theorem Acts.run {S : StoreFuncs σ} {g : Globals} {P : Action → Prop} {s s' : Server σ} (a : Action)
    (h : P a) (hs : s' = a.run S g s) : Acts S g P s s' := .single ⟨a, h, hs⟩

theorem Acts.mono {S : StoreFuncs σ} {g : Globals} {P Q : Action → Prop} {s s' : Server σ}
    (h : Acts S g P s s') (hPQ : ∀ a, P a → Q a) : Acts S g Q s s' := by
  refine ReflTransGen.mono ?_ _ _ h
  rintro s₁ s₂ ⟨a, ha, hs⟩
  exact ⟨a, hPQ a ha, hs⟩

/-- A request of a client for a group of this server: the only ones for which
sub-key lists are kept. -/
structure SourceRequest (g : Globals) (t : FastTaskInfo) (h : ReqHeader) : Prop where
  isWrite : t.isWrite = true
  owns : g.ownsGroup h.groupId = true
  time : t.recordTime g = g.currentTime

theorem SourceRequest.of_cmd {g : Globals} {t : FastTaskInfo} {h : ReqHeader} {c : ProtoCmd}
    (hcmd : t.cmd = some c) (hc : c ∈ [ProtoCmd.set, .inc, .del, .batchSet, .batchDel])
    (hown : g.ownsGroup h.groupId = true) : SourceRequest g t h where
  isWrite := by
    simp only [FastTaskInfo.isWrite, FastTaskInfo.setsExpiry, hcmd]
    revert hc
    cases c <;> decide
  owns := hown
  time := by
    simp only [FastTaskInfo.recordTime, hcmd]
    revert hc
    cases c <;> simp

/-! ## Sub-key lists -/

section KeyLists

variable {S : StoreFuncs σ} {g : Globals} {t : FastTaskInfo} {h : ReqHeader}

/-- A record under the reserved key, made at the current time. -/
def listWrite (g : Globals) (h : ReqHeader) (opType : OpType) (k : FDHTKeyInfo) (value : Bytes) :
    LogWrite where
  timestamp := g.currentTime
  opType := opType
  keyHashCode := h.keyHashCode
  expires := fdhtExpiresNever
  keyInfo := k.listKey
  pValue := value
  valueLen := value.length

theorem listWrite_of (hsrc : SourceRequest g t h) (op : OpType) (k : FDHTKeyInfo) {value : Bytes}
    (hlt : value.length < 2 ^ 31) : (listWrite g h op k value).Of g t h where
  isWrite := hsrc.isWrite
  owns := hsrc.owns
  keyHashCode := rfl
  timestamp := hsrc.time.symm
  expires := .inl rfl
  key_nonempty := fun _ => List.cons_ne_nil _ _
  pValue_length := rfl
  valueLen_lt := by simp only [listWrite]; omega

/-- What an update of the sub-key list of the object of `k` can do. -/
def Action.OnList (g : Globals) (h : ReqHeader) (k : FDHTKeyInfo) : Action → Prop
  | .get groupId fullKey _ => groupId = h.groupId ∧ fullKey = k.listKey.packFullKey
  | .set groupId value w => groupId = h.groupId ∧ ∃ keys, (joinKeys keys).length < 2 ^ 31 ∧
      value = newKeyList keys ∧ w = listWrite g h .sourceSet k ((newKeyList keys).drop 4)
  | .delete groupId w => groupId = h.groupId ∧ w = listWrite g h .sourceDel k []
  | _ => False

theorem Action.OnList.of (hsrc : SourceRequest g t h) {k : FDHTKeyInfo} {a : Action}
    (ha : a.OnList g h k) : a.Of g t h := by
  cases a with
  | get grp key n => trivial
  | set grp value w =>
    obtain ⟨rfl, keys, hsize, rfl, rfl⟩ := ha
    have hlen := newKeyList_length keys
    refine ⟨rfl, rfl, listWrite_of hsrc _ k ?_, fun _ => ⟨Int.natCast_nonneg _, rfl⟩⟩
    rw [List.length_drop]
    omega
  | partialSet grp key e => exact ha.elim
  | delete grp w =>
    obtain ⟨rfl, rfl⟩ := ha
    exact ⟨rfl, rfl, listWrite_of hsrc _ k (by simp), rfl⟩
  | inc grp k' hash n e => exact ha.elim
  | sync state => exact ha.elim

theorem keyDoGet_onList (k : FDHTKeyInfo) (s : Server σ) :
    Acts S g (Action.OnList g h k) s (keyDoGet S h.groupId k.listKey.packFullKey s).2 := by
  refine .run (.get h.groupId k.listKey.packFullKey (4 + fdhtKeyListMaxSize - 1)) ⟨rfl, rfl⟩ ?_
  rcases keyDoGet_cases S h.groupId k.listKey.packFullKey s with ⟨_, _, h⟩ | h | ⟨_, _, h⟩ <;>
    rw [h] <;> rfl

theorem keyListSet_onList (k : FDHTKeyInfo) {keys : List Bytes}
    (hsize : (joinKeys keys).length < 2 ^ 31) (s : Server σ) :
    Acts S g (Action.OnList g h k) s
      (keyListSet S g h.groupId k.listKey h.keyHashCode keys s).2 := by
  have hlen := newKeyList_length keys
  have hvalue : (listWrite g h .sourceSet k ((newKeyList keys).drop 4)).valueLen =
      (newKeyList keys).length - 4 := by
    simp only [listWrite, List.length_drop]
    omega
  refine .run (.set h.groupId (newKeyList keys) (listWrite g h .sourceSet k
    ((newKeyList keys).drop 4))) ⟨rfl, keys, hsize, rfl, rfl⟩ ?_
  unfold keyListSet
  rw [← hvalue]
  rfl

theorem keyDoSet_onList (k : FDHTKeyInfo) {keys : List Bytes}
    (hsize : (joinKeys keys).length < 2 ^ 31) (s : Server σ) :
    Acts S g (Action.OnList g h k) s
      (keyDoSet S g h.groupId k.listKey h.keyHashCode keys s).2 := by
  unfold keyDoSet
  split
  · exact keyListSet_onList k hsize s
  · exact .run (.delete h.groupId (listWrite g h .sourceDel k [])) ⟨rfl, rfl⟩ rfl

theorem keyDoAdd_onList (k : FDHTKeyInfo) (s : Server σ) :
    Acts S g (Action.OnList g h k) s (keyDoAdd S g h.groupId k h.keyHashCode s).2 := by
  have hget := keyDoGet_onList (S := S) (g := g) (h := h) k s
  have hsize := keyDoGet_size S h.groupId k.listKey.packFullKey s
  unfold keyDoAdd
  dsimp only
  split
  · exact hget
  split
  · exact hget
  split
  · exact hget
  refine hget.trans (keyListSet_onList k ?_ _)
  have hk := k.keyLen_le
  have hmax : fdhtKeyListMaxSize = 65536 := rfl
  have hmax' : fdhtMaxSubKeyLen = 128 := rfl
  rw [joinKeys_insert]
  omega

theorem keyDoDel_onList (k : FDHTKeyInfo) (s : Server σ) :
    Acts S g (Action.OnList g h k) s (keyDoDel S g h.groupId k h.keyHashCode s).2 := by
  have hget := keyDoGet_onList (S := S) (g := g) (h := h) k s
  have hsize := keyDoGet_size S h.groupId k.listKey.packFullKey s
  unfold keyDoDel
  dsimp only
  split
  · exact hget
  split
  · exact hget
  · refine hget.trans (keyDoSet_onList k ?_ _)
    have hmax : fdhtKeyListMaxSize = 65536 := rfl
    exact (joinKeys_sublist (List.eraseIdx_sublist _ _)).trans_lt (by omega)

/-- A batch updates the list of its object, or, with one key only, that of the
key's object. -/
def Action.OnListOf (g : Globals) (h : ReqHeader) (k : FDHTKeyInfo) (subKeys : List FDHTKeyInfo)
    (a : Action) : Prop := ∃ k', (k' = k ∨ k' ∈ subKeys) ∧ a.OnList g h k'

theorem keyBatchDoAdd_onList (k : FDHTKeyInfo) (subKeys : List FDHTKeyInfo) (s : Server σ) :
    Acts S g (Action.OnListOf g h k subKeys) s
      (keyBatchDoAdd S g h.groupId k h.keyHashCode subKeys s).2 := by
  have hself : ∀ a : Action, a.OnList g h k → a.OnListOf g h k subKeys :=
    fun a ha => ⟨k, .inl rfl, ha⟩
  have hget := (keyDoGet_onList (S := S) (g := g) (h := h) k s).mono hself
  have hsize := keyDoGet_size S h.groupId k.listKey.packFullKey s
  unfold keyBatchDoAdd
  split
  · exact .refl
  · exact (keyDoAdd_onList _ s).mono fun a ha => ⟨_, .inr List.mem_cons_self, ha⟩
  dsimp only
  split
  · exact hget
  rename_i hok
  split
  · exact hget
  split
  · exact hget
  refine hget.trans ((keyListSet_onList k ?_ _).mono hself)
  have hlen := keyDoGet_valueLen_nonneg (not_not.mp hok)
  have hmax : fdhtKeyListMaxSize = 65536 := rfl
  exact (batchMerge_length _ _ _).trans_lt (by omega)

theorem keyBatchDoDel_onList (k : FDHTKeyInfo) (subKeys : List FDHTKeyInfo) (s : Server σ) :
    Acts S g (Action.OnListOf g h k subKeys) s
      (keyBatchDoDel S g h.groupId k h.keyHashCode subKeys s).2 := by
  have hself : ∀ a : Action, a.OnList g h k → a.OnListOf g h k subKeys :=
    fun a ha => ⟨k, .inl rfl, ha⟩
  have hget := (keyDoGet_onList (S := S) (g := g) (h := h) k s).mono hself
  have hsize := keyDoGet_size S h.groupId k.listKey.packFullKey s
  unfold keyBatchDoDel
  split
  · exact .refl
  · exact (keyDoDel_onList _ s).mono fun a ha => ⟨_, .inr List.mem_cons_self, ha⟩
  dsimp only
  split
  · exact hget
  refine hget.trans ((keyDoSet_onList k ?_ _).mono hself)
  have hmax : fdhtKeyListMaxSize = 65536 := rfl
  exact (joinKeys_sublist (batchRemove_sublist _ _ _)).trans_lt (by omega)

theorem keyAdd_onList (k : FDHTKeyInfo) (s : Server σ) :
    Acts S g (Action.OnList g h k) s (keyAdd S g h.groupId k h.keyHashCode s).2 := by
  unfold keyAdd
  split
  · exact keyDoAdd_onList k s
  · exact .refl

theorem keyDel_onList (k : FDHTKeyInfo) (s : Server σ) :
    Acts S g (Action.OnList g h k) s (keyDel S g h.groupId k h.keyHashCode s).2 := by
  unfold keyDel
  split
  · exact keyDoDel_onList k s
  · exact .refl

theorem keyBatchAdd_onList (k : FDHTKeyInfo) (subKeys : List FDHTKeyInfo) (s : Server σ) :
    Acts S g (Action.OnListOf g h k subKeys) s
      (keyBatchAdd S g h.groupId k h.keyHashCode subKeys s).2 := by
  unfold keyBatchAdd
  split
  · exact keyBatchDoAdd_onList k subKeys s
  · exact .refl

theorem keyBatchDel_onList (k : FDHTKeyInfo) (subKeys : List FDHTKeyInfo) (s : Server σ) :
    Acts S g (Action.OnListOf g h k subKeys) s
      (keyBatchDel S g h.groupId k h.keyHashCode subKeys s).2 := by
  unfold keyBatchDel
  split
  · exact keyBatchDoDel_onList k subKeys s
  · exact .refl

theorem keyAdd_acts (hsrc : SourceRequest g t h) (k : FDHTKeyInfo) (s : Server σ) :
    Acts S g (Action.Of g t h) s (keyAdd S g h.groupId k h.keyHashCode s).2 :=
  (keyAdd_onList k s).mono fun _ ha => ha.of hsrc

theorem keyDel_acts (hsrc : SourceRequest g t h) (k : FDHTKeyInfo) (s : Server σ) :
    Acts S g (Action.Of g t h) s (keyDel S g h.groupId k h.keyHashCode s).2 :=
  (keyDel_onList k s).mono fun _ ha => ha.of hsrc

theorem keyBatchAdd_acts (hsrc : SourceRequest g t h) (k : FDHTKeyInfo)
    (subKeys : List FDHTKeyInfo) (s : Server σ) :
    Acts S g (Action.Of g t h) s (keyBatchAdd S g h.groupId k h.keyHashCode subKeys s).2 :=
  (keyBatchAdd_onList k subKeys s).mono fun _ ⟨_, _, ha⟩ => ha.of hsrc

theorem keyBatchDel_acts (hsrc : SourceRequest g t h) (k : FDHTKeyInfo)
    (subKeys : List FDHTKeyInfo) (s : Server σ) :
    Acts S g (Action.Of g t h) s (keyBatchDel S g h.groupId k h.keyHashCode subKeys s).2 :=
  (keyBatchDel_onList k subKeys s).mono fun _ ⟨_, _, ha⟩ => ha.of hsrc

theorem keyGet_acts (grp : Nat) (k : FDHTKeyInfo) (n : Int) (s : Server σ) :
    Acts S g (Action.Of g t h) s (keyGet S g grp k n s).2 := by
  unfold keyGet
  split
  · exact .refl
  split
  · exact .refl
  dsimp only
  refine .run (.get grp k.listKey.packFullKey n) trivial ?_
  split <;> rfl

end KeyLists

end FastDht
