import FastDht.Server.DbOp
import FastDht.Server.MpoolSoundness
import FastDht.Server.WorkThreadSoundness

/-! # Every stored value starts with an expiry

The readers of a value take its first four bytes for its expiry and do not look
at its length. Both stores hold nothing but what the handlers have put into
them, so the question is what the handlers put: at least four bytes, unless a
BATCH_SET reaches an entry with a negative value length. -/
namespace FastDht
open Lib Relation

variable {σ : Type}
variable {value : Bytes}

/-! ## The two stores -/

def Bdb.Holds (P : Bytes → Prop) (db : Bdb) : Prop := ∀ k v, db.data k = some v → P v

theorem Bdb.Holds.put {P : Bytes → Prop} {db : Bdb} (h : db.Holds P) {g : Nat} {key : Bytes}
    (hv : P value) : (db.put g key value).Holds P := by
  intro k v hk
  rw [Bdb.put_data, Function.update_apply] at hk
  split at hk
  · cases hk
    exact hv
  · exact h k v hk

def bdbValues : ValueStore Bdb where
  toStoreFuncs := bdbFuncs
  Holds := Bdb.Holds
  holds_get := fun _ _ _ h => h
  holds_set := by
    intro P db g k v h hv
    change (dbSet db g k v).2.Holds P
    unfold dbSet
    split
    · exact h
    · exact Bdb.Holds.put h hv
  holds_partialSet := by
    intro P db g k v off h hv
    change (dbPartialSet db g k v off).2.Holds P
    unfold dbPartialSet
    split
    · exact h
    · exact Bdb.Holds.put h (hv _ (le_writeAt_length _ _ _))
  holds_delete := by
    intro P db g k h
    change (dbDelete db g k).2.Holds P
    unfold dbDelete
    split
    · exact h
    split
    · exact h
    · intro k' v hk
      dsimp only at hk
      rw [Function.update_apply] at hk
      split at hk
      · cases hk
      · exact h k' v hk
  holds_incEx := by
    intro P db g k inc n e now h hv
    change (dbIncEx db g k inc n e now).2.2.Holds P
    rcases dbIncEx_cases db g k inc n e now with ⟨code, -, heq⟩ | ⟨m, heq⟩
    · rw [heq]
      exact h
    · rw [heq]
      exact Bdb.Holds.put h (hv m)

def HashArray.Holds (P : Bytes → Prop) (h : HashArray) : Prop := ∀ d ∈ h.nodes, P d.value

section Table

variable {P : Bytes → Prop} {h : HashArray}

theorem HashArray.Holds.addToBucket (hp : h.Holds P) {d : HashData} (hd : P d.value) :
    (h.addToBucket d).Holds P := by
  intro e he
  rcases mem_flatten_set he with he | he
  · exact hp e he
  rcases List.mem_cons.mp he with rfl | he
  · exact hd
  · exact hp e (mem_flatten_iff.mpr ⟨_, he⟩)

theorem HashArray.Holds.deleteFromBucket (hp : h.Holds P) (d : HashData) :
    (h.deleteFromBucket d).Holds P := by
  intro e he
  rcases mem_flatten_set he with he | he
  · exact hp e he
  · exact hp e (mem_flatten_iff.mpr ⟨_, List.mem_of_mem_eraseP he⟩)

theorem mem_chainSetValue {key : Bytes} {c : List HashData} {e : HashData}
    (he : e ∈ chainSetValue key value c) : e ∈ c ∨ e.value = value := by
  induction c with
  | nil => cases he
  | cons d c ih =>
    unfold chainSetValue at he
    split at he
    · rcases List.mem_cons.mp he with rfl | he
      · exact .inr rfl
      · exact .inl (List.mem_cons_of_mem _ he)
    · rcases List.mem_cons.mp he with rfl | he
      · exact .inl List.mem_cons_self
      · exact (ih he).imp_left (List.mem_cons_of_mem _)

theorem HashArray.Holds.setValue (hp : h.Holds P) (key : Bytes) (hv : P value) :
    (h.setValue key value).Holds P := by
  intro e he
  rcases mem_flatten_set he with he | he
  · exact hp e he
  rcases mem_chainSetValue he with he | he
  · exact hp e (mem_flatten_iff.mpr ⟨_, he⟩)
  · exact he ▸ hv

theorem HashArray.Holds.foldl_addToBucket {l : List HashData} (hl : ∀ d ∈ l, P d.value) :
    ∀ h : HashArray, h.Holds P → (l.foldl HashArray.addToBucket h).Holds P := by
  induction l with
  | nil => exact fun h hp => hp
  | cons d l ih =>
    intro h hp
    exact ih (fun e he => hl e (List.mem_cons_of_mem _ he)) _
      (hp.addToBucket (hl d List.mem_cons_self))

theorem HashArray.Holds.rehash (hp : h.Holds P) (mem : Malloc) : (rehash mem h).2.Holds P := by
  have h1 : ∀ a b, (rehash1 mem h a b).2.Holds P := by
    intro a b
    unfold rehash1 hashAllocBuckets
    dsimp only
    split_ifs
    · exact hp
    · exact hp
    · refine HashArray.Holds.foldl_addToBucket hp _ ?_
      intro d hd
      simp [HashArray.nodes] at hd
  unfold FastDht.rehash
  split
  · rename_i heq
    have := h1 h.cap (h.capacity + 1)
    rwa [heq] at this
  · rename_i heq
    have := h1 h.cap (h.capacity + 1)
    rw [heq] at this
    exact this

theorem HashArray.Holds.insertNode (hp : h.Holds P) (mem : Malloc) (key : Bytes)
    (hv : P value) : (insertNode mem h key value).2.Holds P := by
  have hadd : ∀ n : Int, ({ h with bytesUsed := n }.addToBucket
      ⟨key, value, memAlign value.length⟩).Holds P := fun n =>
    HashArray.Holds.addToBucket (h := { h with bytesUsed := n }) hp hv
  unfold FastDht.insertNode
  dsimp only
  split_ifs
  · exact hp
  · exact hp
  · exact hp
  · exact (hadd _).rehash mem
  · exact hadd _

theorem HashArray.Holds.hashInsertEx (hp : h.Holds P) (mem : Malloc) (key : Bytes)
    (hv : P value) : (hashInsertEx mem h key value).2.Holds P := by
  unfold FastDht.hashInsertEx
  split
  · rename_i d _
    split
    · exact hp.setValue key hv
    · exact (hp.deleteFromBucket d).insertNode mem key hv
  · exact hp.insertNode mem key hv

theorem HashArray.Holds.hashIncEx (hp : h.Holds P) (mem : Malloc) (key : Bytes) (inc : Int)
    (n : Nat) {convert : ConvertValueFunc} (hv : ∀ old, P (convert old inc n)) :
    (hashIncEx mem h key inc n convert).2.2.Holds P := by
  unfold FastDht.hashIncEx
  dsimp only
  split
  · exact hp.setValue key (hv _)
  · have := hp.hashInsertEx mem key (hv ((hashFindEx h key).map HashData.value))
    split <;> exact this

theorem HashArray.Holds.hashPartialSet (hp : h.Holds P) (mem : Malloc) (key : Bytes)
    (offset : Int) (hv : ∀ w : Bytes, value.length ≤ w.length → P w) :
    (hashPartialSet mem h key value offset).2.Holds P := by
  unfold FastDht.hashPartialSet
  split
  · split_ifs
    · exact hp
    · exact hp.setValue key (hv _ (le_writeAt_length _ _ _))
    · exact hp
    · exact hp.hashInsertEx mem key (hv _ (by simp))
  · split
    · exact hp
    · exact hp.hashInsertEx mem key (hv _ (le_refl _))

theorem HashArray.Holds.hashDelete (hp : h.Holds P) (key : Bytes) :
    (hashDelete h key).2.Holds P := by
  unfold FastDht.hashDelete
  split
  · exact hp.deleteFromBucket _
  · exact hp

theorem HashArray.Holds.clearExpired (hp : h.Holds P) (currentTime : Int) (tail : Bytes → Bytes) :
    (h.clearExpired currentTime tail).Holds P := by
  intro d hd
  rw [clearExpired_nodes] at hd
  exact hp d (List.mem_of_mem_filter hd)

end Table

def Mpool.Holds (P : Bytes → Prop) (p : Mpool) : Prop := p.hashArray.Holds P

theorem Mpool.Holds.mpClearExpiredKeys {P : Bytes → Prop} {p : Mpool} (h : p.Holds P)
    (c : ClearCall) (tail : Bytes → Bytes) : (mpClearExpiredKeys c tail p).2.Holds P := by
  unfold FastDht.mpClearExpiredKeys
  split
  · exact h
  split
  · exact h
  split
  · exact h
  · exact HashArray.Holds.clearExpired h _ tail

theorem Mpool.Holds.mpDoSet {P : Bytes → Prop} (c : MpCall) (key : Bytes)
    (hv : P value) (n : Nat) : ∀ (i : Nat) (result : Int) (p : Mpool), p.Holds P →
      (mpDoSet c key value n i result p).2.Holds P := by
  induction n with
  | zero => exact fun _ _ _ h => h
  | succ n ih =>
    intro i result p h
    have hins : Mpool.Holds P
        { p with hashArray := (hashInsertEx (c.mem i) p.hashArray key value).2 } :=
      HashArray.Holds.hashInsertEx h (c.mem i) key hv
    unfold FastDht.mpDoSet
    dsimp only
    split_ifs
    · exact ih _ _ _ (hins.mpClearExpiredKeys _ _)
    · exact hins.mpClearExpiredKeys _ _
    · exact hins
    · exact hins

def mpoolValues : ValueStore Mpool where
  toStoreFuncs := mpoolFuncs
  Holds := Mpool.Holds
  holds_get := fun _ _ _ h => h
  holds_set := fun _ k _ h hv => Mpool.Holds.mpDoSet _ k hv 2 0 0 _ h
  holds_partialSet := fun _ k _ off h hv =>
    HashArray.Holds.hashPartialSet h _ k off hv
  holds_delete := fun _ k h => HashArray.Holds.hashDelete h k
  holds_incEx := fun _ k inc n _ _ h hv =>
    HashArray.Holds.hashIncEx h _ k inc n fun _ => hv _

/-! ## Runs of requests -/

/-- The first four bytes of a value are its expiry. -/
def CarriesExpiry (value : Bytes) : Prop := 4 ≤ value.length

theorem intAt_write (t : FastTaskInfo) (off : Nat) {v : Bytes} (hv : CarriesExpiry v) :
    (t.write off v).intAt off = buff2int v := by
  unfold CarriesExpiry at hv
  refine buff2int_congr fun i hi => ?_
  rw [getD_readAt, if_pos hi, FastTaskInfo.write, getD_writeAt, if_pos (by omega),
    Nat.add_sub_cancel_left]

theorem Act.holds {V : ValueStore σ} {g : Globals} {t : FastTaskInfo} {h : ReqHeader}
    (hneg : t.hasNegativeEntry g = false) {s s' : Server σ} (hs : V.Holds CarriesExpiry s.store)
    (ha : Act V.toStoreFuncs g (Action.Of g t h) s s') : V.Holds CarriesExpiry s'.store := by
  obtain ⟨a, hof, rfl⟩ := ha
  cases a with
  | get grp key n => exact V.holds_get grp key n hs
  | set grp value w =>
    obtain ⟨-, -, -, hvalue⟩ := hof
    rw [Action.run, Server.logged_store]
    refine V.holds_set grp _ hs ?_
    rw [(hvalue hneg).2]
    simp [CarriesExpiry]
  | partialSet grp key e =>
    exact V.holds_partialSet grp key 0 hs fun w hw => hw
  | delete grp w =>
    rw [Action.run, Server.logged_store]
    exact V.holds_delete grp _ hs
  | inc grp k hash n e =>
    rw [Action.run, Server.logged_store]
    exact V.holds_incEx grp _ n _ _ hs fun m => (incValue_length e m).1
  | sync state => exact hs

theorem Serves.holds {V : ValueStore σ} {s s' : Server σ}
    (hserve : Serves V.toStoreFuncs (fun g t => t.hasNegativeEntry g = false) s s')
    (hs : V.Holds CarriesExpiry s.store) : V.Holds CarriesExpiry s'.store := by
  obtain ⟨g, env, t, resp, hneg, hwork⟩ := hserve
  have hacts := workDealTask_acts hwork
  clear hwork
  induction hacts with
  | refl => exact hs
  | tail _ hact ih => exact Act.holds hneg ih hact

/-- A request or a clear pass of a server with the memory pool. -/
def MpoolStep (ok : Globals → FastTaskInfo → Prop) (s s' : Server Mpool) : Prop :=
  Serves mpoolFuncs ok s s' ∨
    ∃ c tail, s' = { s with store := (mpClearExpiredKeys c tail s.store).2 }

theorem serves_holds {V : ValueStore σ} {s s' : Server σ} (hs : V.Holds CarriesExpiry s.store)
    (hrun : ReflTransGen (Serves V.toStoreFuncs fun g t => t.hasNegativeEntry g = false) s s') :
    V.Holds CarriesExpiry s'.store := by
  induction hrun with
  | refl => exact hs
  | tail _ hserve ih => exact hserve.holds ih

theorem mpoolSteps_hold {p p' : Server Mpool} (hp : p.store.Holds CarriesExpiry)
    (hrun : ReflTransGen (MpoolStep fun g t => t.hasNegativeEntry g = false) p p') :
    p'.store.Holds CarriesExpiry := by
  induction hrun with
  | refl => exact hp
  | tail _ hstep ih =>
    rcases hstep with hserve | ⟨c, tail, rfl⟩
    · exact Serves.holds (V := mpoolValues) hserve ih
    · exact Mpool.Holds.mpClearExpiredKeys (P := CarriesExpiry) ih c tail

/-- **Every stored value carries its expiry**, in every state that is reached
from one where that holds by requests of any kind without a negative value
length in a BATCH_SET entry that is reached, and by clear passes. -/
theorem stored_values_carry_expiry (s s' : Server Bdb) (p p' : Server Mpool) :
    ((∀ k v, s.store.data k = some v → 4 ≤ v.length) →
      ReflTransGen (Serves bdbFuncs fun g t => t.hasNegativeEntry g = false) s s' →
      ∀ k v, s'.store.data k = some v → 4 ≤ v.length) ∧
    ((∀ d ∈ p.store.hashArray.nodes, 4 ≤ d.value.length) →
      ReflTransGen (MpoolStep fun g t => t.hasNegativeEntry g = false) p p' →
      ∀ d ∈ p'.store.hashArray.nodes, 4 ≤ d.value.length) := by
  exact ⟨fun hs hrun => serves_holds (V := bdbValues) hs hrun, mpoolSteps_hold⟩

/-! ## A request that stores an empty value -/

/-- An empty database that never fails. -/
def emptyBdb : Bdb := ⟨fun _ => none, fun _ => ⟨false, false, []⟩, 0⟩

def emptyServer : Server Bdb := ⟨emptyBdb, [], default⟩

theorem emptyBdb_quiet : emptyBdb.Quiet := fun _ => ⟨rfl, rfl⟩

/-- The memory pool with an empty table of one bucket. -/
def emptyMpool : Mpool where
  hashArray := smallTable
  needClearExpiredData := false
  clearMinInterval := 0
  lastClearTime := 0
  call := fun _ => ⟨fun _ => allocates, fun _ => ⟨false, none, 0⟩, fun _ => [], []⟩
  calls := 0

/-- One group, which the server owns, with the binlog on and without sub-key
lists. -/
def oneGroup : Globals := ⟨1, [true], true, false, 1000⟩

/-- The allocator fails; nothing else is asked for. -/
def quietEnv : TaskEnv := ⟨fun _ => none, 0, (0, [])⟩

/-- An allocator that works. -/
def roomyEnv : TaskEnv := { quietEnv with alloc := fun _ => some [] }

/-- A request that fills its buffer: command, timestamp, expires and body. -/
def request (cmd : ProtoCmd) (timestamp expires : Int) (body : Bytes) : FastTaskInfo where
  data := int2buff body.length ++ int2buff 0 ++ int2buff timestamp ++ int2buff expires ++
    [cmd.toByte, 0, 0] ++ body
  length := sizeofHeader + body.length
  clientIp := []

/-- A BATCH_SET of two keys. The value length of `a` is -4, so the value length
is also where the next entry starts; it has been overwritten with the expiry 1,
the length of the key `b`. -/
def negativeBatch : FastTaskInfo :=
  request .batchSet 0 1 (int2buff 0 ++ int2buff 0 ++ int2buff 2 ++
    int2buff 1 ++ [97] ++ int2buff (-4) ++ [98] ++ int2buff 0)

/-- SET of the key `a` to `x`. -/
def setRequest : FastTaskInfo :=
  request .set 0 0 (int2buff 0 ++ int2buff 0 ++ int2buff 1 ++ [97] ++ int2buff 1 ++ [120])

/-- GET of the key `a` with the expiry 2000. -/
def refreshRequest : FastTaskInfo :=
  request .get 0 2000 (int2buff 0 ++ int2buff 0 ++ int2buff 1 ++ [97])

/-- A database that holds `x` under the key `a`, without an expiry. -/
def oneKeyServer : Server Bdb :=
  { emptyServer with store := emptyBdb.put 0 [1, 1, 97] [0, 0, 0, 0, 120] }

/-- The server after one request, if its behaviour is defined. -/
def served (g : Globals) (t : FastTaskInfo) (s : Server Bdb) : Option (Server Bdb) :=
  (workDealTask bdbFuncs g quietEnv t s).map Prod.snd

theorem served_run (ok : Globals → FastTaskInfo → Prop) {g : Globals} {t : FastTaskInfo}
    {s s' : Server Bdb} (hok : ok g t) (h : served g t s = some s') :
    Serves bdbFuncs ok s s' := by
  obtain ⟨⟨resp, s''⟩, hwork, rfl⟩ := Option.map_eq_some_iff.mp h
  exact ⟨g, quietEnv, t, resp, hok, hwork⟩

theorem served_setRequest : ∃ s, served oneGroup setRequest emptyServer = some s ∧
    s.store.data (0, [1, 1, 97]) = some [0, 0, 0, 0, 120] :=
  Option.map_eq_some_iff.mp (show (served oneGroup setRequest emptyServer).map
    (fun s => s.store.data (0, [1, 1, 97])) = some (some [0, 0, 0, 0, 120]) by decide +kernel)

theorem stored_values_carry_expiry_set :
    setRequest.hasNegativeEntry oneGroup = false ∧
      ∃ s, served oneGroup setRequest emptyServer = some s ∧
        s.store.data (0, [1, 1, 97]) = some [0, 0, 0, 0, 120] ∧
        (∀ k v, s.store.data k = some v → 4 ≤ v.length) := by
  have hok : setRequest.hasNegativeEntry oneGroup = false := by decide +kernel
  obtain ⟨s, hs, hv⟩ := served_setRequest
  have hcarry := (stored_values_carry_expiry emptyServer s ⟨emptyMpool, [], default⟩
    ⟨emptyMpool, [], default⟩).1 (fun _ _ h => by cases h) (.single (served_run _ hok hs))
  exact ⟨hok, s, hs, hv, hcarry⟩

/-- The batch is answered with status 0 and leaves an empty value under `a`. -/
theorem stored_value_without_expiry :
    ¬ ((∀ s s' : Server Bdb, (∀ k v, s.store.data k = some v → 4 ≤ v.length) →
        ReflTransGen (Serves bdbFuncs fun _ _ => True) s s' →
        ∀ k v, s'.store.data k = some v → 4 ≤ v.length) ∧
      ∀ s s' : Server Mpool, (∀ d ∈ s.store.hashArray.nodes, 4 ≤ d.value.length) →
        ReflTransGen (MpoolStep fun _ _ => True) s s' →
        ∀ d ∈ s'.store.hashArray.nodes, 4 ≤ d.value.length) := by
  rintro ⟨hall, -⟩
  have hvalue : (served oneGroup negativeBatch emptyServer).map
      (fun s => s.store.data (0, [1, 1, 97])) = some (some []) := by decide +kernel
  obtain ⟨s, hs, hv⟩ := Option.map_eq_some_iff.mp hvalue
  have hlen := hall emptyServer s (fun _ _ h => by cases h) (.single (served_run _ trivial hs)) _ _ hv
  exact absurd hlen (by decide)

end FastDht
