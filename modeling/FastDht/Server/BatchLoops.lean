import FastDht.Server.Sync
import FastDht.Server.WorkThread

/-! # The loops of the batch handlers

The loops of deal_cmd_batch_set, deal_cmd_batch_get and deal_cmd_batch_del read
the entries of a request and write the entries of the response. BATCH_SET reads
from the buffer it writes to, and never overtakes itself; the others read from a
copy. On a request whose entries are well formed every loop handles the keys one
after the other. -/
namespace FastDht
open Lib

variable {σ : Type}

/-! ## What a buffer holds after a write -/

section HoldsAt

variable {t : FastTaskInfo} {off pos : Nat} {b v : Bytes}

theorem FastTaskInfo.holdsAt_iff :
    t.HoldsAt off b ↔ readAt t.data off b.length = b ∧ off + b.length ≤ t.data.length := by
  constructor
  · intro h
    refine ⟨h.bytes, ?_⟩
    obtain ⟨before, behind, hdata, rfl⟩ := h
    rw [hdata, List.length_append, List.length_append]
    omega
  · rintro ⟨hbytes, hlen⟩
    refine ⟨t.data.take off, t.data.drop (off + b.length), ?_, by rw [List.length_take]; omega⟩
    have hmiddle : (t.data.drop off).take b.length = b := by
      rw [readAt, List.takeD_eq_take _ (by rw [List.length_drop]; omega)] at hbytes
      exact hbytes
    have hsplit : t.data.drop off = b ++ t.data.drop (off + b.length) := by
      conv_lhs => rw [← List.take_append_drop b.length (t.data.drop off)]
      rw [hmiddle, List.drop_drop]
    rw [← hsplit, List.take_append_drop]

theorem length_writeAt (m v : Bytes) (off : Nat) :
    (writeAt m off v).length = off + v.length + (m.length - (off + v.length)) := by
  simp only [writeAt, List.length_append, List.takeD_length, List.length_drop]

theorem FastTaskInfo.HoldsAt.write (h : t.HoldsAt off b)
    (hpos : pos + v.length ≤ off ∨ off + b.length ≤ pos) : (t.write pos v).HoldsAt off b := by
  obtain ⟨hbytes, hlen⟩ := FastTaskInfo.holdsAt_iff.mp h
  refine FastTaskInfo.holdsAt_iff.mpr ⟨(readAt_writeAt_disjoint hpos).trans hbytes, ?_⟩
  show off + b.length ≤ (writeAt t.data pos v).length
  rw [length_writeAt]
  omega

theorem FastTaskInfo.holdsAt_write (t : FastTaskInfo) (pos : Nat) (v : Bytes) :
    (t.write pos v).HoldsAt pos v := by
  refine FastTaskInfo.holdsAt_iff.mpr ⟨readAt_writeAt_self _ _ _, ?_⟩
  show pos + v.length ≤ (writeAt t.data pos v).length
  rw [length_writeAt]
  omega

theorem FastTaskInfo.HoldsAt.append {a : Bytes} (ha : t.HoldsAt off a)
    (hb : t.HoldsAt (off + a.length) b) : t.HoldsAt off (a ++ b) := by
  obtain ⟨ha, -⟩ := FastTaskInfo.holdsAt_iff.mp ha
  obtain ⟨hb, hlen⟩ := FastTaskInfo.holdsAt_iff.mp hb
  refine FastTaskInfo.holdsAt_iff.mpr ⟨?_, by rw [List.length_append]; omega⟩
  rw [List.length_append, readAt_add, ha, hb]

end HoldsAt

/-! ## Entries -/

/-- A key of a request or a response, after its length. -/
def keyEntry (k : FDHTKeyInfo) : Bytes := int2buff k.szKey.length ++ k.szKey

/-- An entry of BATCH_SET. -/
def keyValueEntry (e : FDHTKeyInfo × Bytes) : Bytes :=
  keyEntry e.1 ++ (int2buff e.2.length ++ e.2)

def FastTaskInfo.writeKey (t : FastTaskInfo) (pos : Nat) (k : FDHTKeyInfo) : FastTaskInfo :=
  (t.write pos (int2buff k.szKey.length)).write (pos + 4) k.szKey

/-- A key that a batch may name: one of the object, not empty and not the reserved
one. -/
structure BatchRequest.Names (r : BatchRequest) (k : FDHTKeyInfo) : Prop where
  szNameSpace : k.szNameSpace = r.keyInfo.szNameSpace
  szObjectId : k.szObjectId = r.keyInfo.szObjectId
  key_ne : k.szKey ≠ []
  not_list : checkSubKeyName k = true

section Heads

variable {r : BatchRequest} {k : FDHTKeyInfo} {t : FastTaskInfo} {src : Nat}

theorem keyEntry_length (k : FDHTKeyInfo) : (keyEntry k).length = 4 + k.szKey.length := by
  rw [keyEntry, List.length_append, int2buff_length]

theorem keyValueEntry_length (k : FDHTKeyInfo) (value : Bytes) :
    (keyValueEntry (k, value)).length = (keyEntry k).length + (4 + value.length) := by
  rw [keyValueEntry, List.length_append, List.length_append, int2buff_length]

theorem FastTaskInfo.HoldsAt.writeKey {off pos : Nat} {bytes : Bytes} (h : t.HoldsAt off bytes)
    (hpos : pos + (keyEntry k).length ≤ off ∨ off + bytes.length ≤ pos) :
    (t.writeKey pos k).HoldsAt off bytes := by
  rw [keyEntry_length] at hpos
  refine (h.write ?_).write ?_
  · rw [int2buff_length]
    omega
  · omega

theorem FastTaskInfo.holdsAt_writeKey (t : FastTaskInfo) (pos : Nat) (k : FDHTKeyInfo) :
    (t.writeKey pos k).HoldsAt pos (keyEntry k) := by
  refine FastTaskInfo.HoldsAt.append ((FastTaskInfo.holdsAt_write _ _ _).write (.inr ?_)) ?_
  · rw [int2buff_length]
  · exact FastTaskInfo.holdsAt_write _ _ _

theorem BatchRequest.Names.withKey (h : r.Names k) (key : Bytes) (hkey : key = k.szKey)
    (hlen : key.length ≤ fdhtMaxSubKeyLen) : r.keyInfo.withKey key hlen = k := by
  subst hkey
  obtain ⟨ns, obj, key, hn, ho, hk⟩ := k
  have hns := h.szNameSpace
  have hobj := h.szObjectId
  simp only [FDHTKeyInfo.withKey, FDHTKeyInfo.mk.injEq, and_true]
  exact ⟨hns.symm, hobj.symm⟩

theorem batchKey_entry {inBodyLen : Int} {inBuff rest before : Bytes} (hnames : r.Names k)
    (hbuff : inBuff = before ++ (keyEntry k ++ rest)) (hsrc : before.length = src)
    (hlen : (r.commonFiledsLen + src + (keyEntry k).length : Int) ≤ inBodyLen) :
    batchKey r inBodyLen inBuff src = some (k, src + (keyEntry k).length) := by
  have hk := k.keyLen_le
  have hpos := List.length_pos_iff.mpr hnames.key_ne
  rw [keyEntry_length] at hlen ⊢
  have hheld : (FastTaskInfo.mk inBuff 0 []).HoldsAt src (keyEntry k) := ⟨before, rest, hbuff, hsrc⟩
  obtain ⟨hkeyLen, hkey⟩ := hheld.split
  have hkeyLen : buff2int (readAt inBuff src 4) = k.szKey.length :=
    hkeyLen.int.trans (toInt32_small hk)
  have hkey : readAt inBuff (src + 4) k.szKey.length = k.szKey := hkey.bytes
  unfold batchKey
  simp only [hkeyLen, Int.toNat_natCast]
  rw [dif_neg (by omega), if_neg (by push_cast at hlen ⊢; omega)]
  rw [hnames.withKey _ hkey, if_neg (by rw [hnames.not_list]; exact nofun)]
  rw [Nat.add_assoc]

theorem batchSetHead_entry (inBodyLen : Int) {value : Bytes} (hnames : r.Names k)
    (hholds : t.HoldsAt src (keyValueEntry (k, value)))
    (hsrc : sizeofHeader + r.commonFiledsLen ≤ src)
    (hlen : (src - sizeofHeader + (keyValueEntry (k, value)).length : Int) ≤ inBodyLen)
    (hmax : inBodyLen < 2 ^ 31) :
    batchSetHead r inBodyLen t src = some (k, (value.length : Int), src + (keyEntry k).length) := by
  have hk := k.keyLen_le
  have hpos := List.length_pos_iff.mpr hnames.key_ne
  obtain ⟨hkeyHeld, hvalueHeld⟩ := hholds.split
  obtain ⟨hkeyLen, hkey⟩ := hkeyHeld.split
  obtain ⟨hvalueLen, -⟩ := hvalueHeld.split
  have hentry := keyValueEntry_length k value
  rw [keyEntry_length] at hentry
  have hkeyLen : t.intAt src = k.szKey.length := hkeyLen.int.trans (toInt32_small hk)
  have hkey : readAt t.data (src + 4) k.szKey.length = k.szKey := hkey.bytes
  dsimp only at hvalueLen
  rw [keyEntry_length] at hvalueLen ⊢
  have hvalueLen : t.intAt (src + 4 + k.szKey.length) = value.length := by
    rw [Nat.add_assoc]
    exact hvalueLen.int.trans (toInt32_of_range (by omega) (by omega))
  unfold batchSetHead
  simp only [hkeyLen, Int.toNat_natCast]
  rw [dif_neg (by omega), if_neg (by omega), hnames.withKey _ hkey,
    if_neg (by rw [hnames.not_list]; exact nofun)]
  rw [hvalueLen, if_neg (by push_cast; omega), Nat.add_assoc]

/-- A key of the object that a batch may not name. -/
structure BatchRequest.Refuses (r : BatchRequest) (k : FDHTKeyInfo) : Prop where
  szNameSpace : k.szNameSpace = r.keyInfo.szNameSpace
  szObjectId : k.szObjectId = r.keyInfo.szObjectId
  bad : k.szKey = [] ∨ checkSubKeyName k = false

theorem BatchRequest.Refuses.check (h : r.Refuses k) {key : Bytes} (hkey : key = k.szKey)
    (hne : k.szKey ≠ []) (hlen : key.length ≤ fdhtMaxSubKeyLen) :
    checkSubKeyName (r.keyInfo.withKey key hlen) = false := by
  subst hkey
  exact h.bad.resolve_left hne

theorem batchSetHead_refused (inBodyLen : Int) {value : Bytes} (hbad : r.Refuses k)
    (hholds : t.HoldsAt src (keyValueEntry (k, value))) :
    batchSetHead r inBodyLen t src = none := by
  have hk := k.keyLen_le
  obtain ⟨hkeyHeld, -⟩ := hholds.split
  obtain ⟨hkeyLen, hkey⟩ := hkeyHeld.split
  have hkeyLen : t.intAt src = k.szKey.length := hkeyLen.int.trans (toInt32_small hk)
  have hkey : readAt t.data (src + 4) k.szKey.length = k.szKey := hkey.bytes
  unfold batchSetHead
  simp only [hkeyLen, Int.toNat_natCast]
  by_cases hne : k.szKey = []
  · rw [dif_pos (.inl (by rw [hne]; rfl))]
  · split
    · rfl
    · split
      · rfl
      · rw [if_pos (hbad.check hkey hne _)]

end Heads

/-! ## Outcomes -/

/-- What has become of a key of a batch: its status, and its value if it has been
read. -/
structure Outcome where
  keyInfo : FDHTKeyInfo
  status : Int
  value : Bytes
  deriving DecidableEq, Repr

def Outcome.ok (o : Outcome) : Bool := o.status = 0

/-- The entries of a batch are handled one after the other, each with an outcome. -/
inductive Each {α : Type} (handle : α → Server σ → Outcome → Server σ → Prop) :
    List α → Server σ → List Outcome → Server σ → Prop
  | nil (s : Server σ) : Each handle [] s [] s
  | cons {a : α} {as : List α} {s s₁ s' : Server σ} {o : Outcome} {os : List Outcome} :
    handle a s o s₁ → Each handle as s₁ os s' → Each handle (a :: as) s (o :: os) s'

/-- What an entry of BATCH_SET does to the server. -/
def setKey (S : StoreFuncs σ) (g : Globals) (h : ReqHeader) (e : FDHTKeyInfo × Bytes)
    (s : Server σ) : Outcome × Server σ :=
  let set := S.set s.store h.groupId e.1.packFullKey (int2buff (toInt32 h.newExpires) ++ e.2)
  (⟨e.1, set.1, []⟩, s.logged g set {
    timestamp := g.currentTime
    opType := .sourceSet
    keyHashCode := h.keyHashCode
    expires := toInt32 h.newExpires
    keyInfo := e.1
    pValue := e.2
    valueLen := e.2.length })

def statusEntry (o : Outcome) : Bytes := keyEntry o.keyInfo ++ statusByte o.status

def valueEntry (o : Outcome) : Bytes :=
  statusEntry o ++ if o.status = 0 then int2buff o.value.length ++ o.value else []

theorem statusEntry_length (o : Outcome) :
    (statusEntry o).length = (keyEntry o.keyInfo).length + 1 := by
  rw [statusEntry, List.length_append]
  rfl

/-- What some entries leave behind: their response follows the one before it, and
they are counted. `keeps` says whether the keys that succeeded are remembered. -/
structure BatchState.Wrote (b b' : BatchState σ) (os : List Outcome) (entry : Outcome → Bytes)
    (keeps : Bool) : Prop where
  dest : b'.dest = b.dest + (os.flatMap entry).length
  holds : b'.task.HoldsAt b.dest (os.flatMap entry)
  kept : ∀ off bytes, off + bytes.length ≤ b.dest → b.task.HoldsAt off bytes →
    b'.task.HoldsAt off bytes
  length : b'.task.length = b.task.length
  clientIp : b'.task.clientIp = b.task.clientIp
  result : b'.result = (os.getLast?.map Outcome.status).getD b.result
  successCount : b'.successCount = b.successCount + os.countP Outcome.ok
  subKeys : b'.subKeys = b.subKeys ++
    if keeps then (os.filter Outcome.ok).map Outcome.keyInfo else []

section Wrote

variable {b b₁ b' : BatchState σ} {entry : Outcome → Bytes} {keeps : Bool}

theorem BatchState.Wrote.refl (h : b.task.HoldsAt b.dest []) : b.Wrote b [] entry keeps :=
  ⟨rfl, h, fun _ _ _ h => h, rfl, rfl, rfl, rfl, by simp⟩

theorem BatchState.Wrote.cons {o : Outcome} {os : List Outcome} (h : b.Wrote b₁ [o] entry keeps)
    (h' : b₁.Wrote b' os entry keeps) : b.Wrote b' (o :: os) entry keeps := by
  have hone : [o].flatMap entry = entry o := List.flatMap_singleton _ _
  have hdest := h.dest
  rw [hone] at hdest
  refine ⟨?_, ?_, ?_, h'.length.trans h.length, h'.clientIp.trans h.clientIp, ?_, ?_, ?_⟩
  · rw [h'.dest, hdest, List.flatMap_cons, List.length_append, Nat.add_assoc]
  · have hheld := h'.kept _ _ h.dest.ge h.holds
    rw [hone] at hheld
    exact hheld.append (hdest ▸ h'.holds)
  · exact fun off bytes hoff hb => h'.kept off bytes (by omega) (h.kept off bytes hoff hb)
  · rw [h'.result, h.result]
    cases os with
    | nil => rfl
    | cons o' os => rw [List.getLast?_cons_cons, List.getLast?_eq_some_getLast (by simp)]; rfl
  · rw [h'.successCount, h.successCount, List.countP_singleton, List.countP_cons]
    omega
  · rw [h'.subKeys, h.subKeys, List.append_assoc]
    cases keeps with
    | false => rfl
    | true =>
      rw [if_pos rfl, if_pos rfl, if_pos rfl, ← List.map_append, ← List.filter_append]
      rfl

end Wrote

theorem batchLoop_entries {α : Type} (entry : Nat → BatchState σ → Except (Stop σ) (BatchState σ))
    (handle : α → Server σ → Outcome → Server σ → Prop) (bytes : Outcome → Bytes) (keeps : Bool)
    (Good : α → Prop) (Inv : List α → BatchState σ → Prop)
    (hdest : ∀ as b, Inv as b → b.task.HoldsAt b.dest [])
    (hentry : ∀ i a as b, Good a → Inv (a :: as) b → ∃ b' o, entry i b = .ok b' ∧ Inv as b' ∧
      handle a b.server o b'.server ∧ b.Wrote b' [o] bytes keeps) (as rest : List α) (n : Nat)
    (hgood : ∀ a ∈ as, Good a) :
    ∀ i b, Inv (as ++ rest) b → ∃ b' os,
      batchLoop entry (as.length + n) i b = batchLoop entry n (i + as.length) b' ∧ Inv rest b' ∧
      Each handle as b.server os b'.server ∧ b.Wrote b' os bytes keeps := by
  induction as with
  | nil =>
    intro i b hinv
    refine ⟨b, [], ?_, hinv, .nil _, .refl (hdest _ _ hinv)⟩
    rw [List.length_nil, Nat.zero_add, Nat.add_zero]
  | cons a as ih =>
    intro i b hinv
    obtain ⟨b₁, o, hfirst, hinv₁, hhandle, hwrote⟩ :=
      hentry i a (as ++ rest) b (hgood a List.mem_cons_self) hinv
    obtain ⟨b', os, hloop, hinv', heach, hrest⟩ :=
      ih (fun a' ha' => hgood a' (List.mem_cons_of_mem _ ha')) (i + 1) b₁ hinv₁
    refine ⟨b', o :: os, ?_, hinv', .cons hhandle heach, hwrote.cons hrest⟩
    rw [List.length_cons, Nat.add_right_comm, batchLoop, hfirst]
    dsimp only
    rw [hloop, Nat.add_assoc, Nat.add_comm 1]

/-! ## BATCH_SET and BATCH_DEL -/

/-- The end of an entry of BATCH_SET and BATCH_DEL: a key that has succeeded is
counted, and remembered for the sub-key list. -/
def BatchState.counted (g : Globals) (k : FDHTKeyInfo) (b : BatchState σ) : BatchState σ :=
  if b.result ≠ 0 then b
  else { b with
    successCount := b.successCount + 1
    subKeys := if g.storeSubKeys then b.subKeys ++ [k] else b.subKeys }

section Counted

variable {g : Globals} {k : FDHTKeyInfo} {b b₁ : BatchState σ}

@[simp] theorem BatchState.counted_task : (b.counted g k).task = b.task := by
  unfold counted
  split <;> rfl

@[simp] theorem BatchState.counted_src : (b.counted g k).src = b.src := by
  unfold counted
  split <;> rfl

@[simp] theorem BatchState.counted_dest : (b.counted g k).dest = b.dest := by
  unfold counted
  split <;> rfl

@[simp] theorem BatchState.counted_server : (b.counted g k).server = b.server := by
  unfold counted
  split <;> rfl

@[simp] theorem BatchState.counted_result : (b.counted g k).result = b.result := by
  unfold counted
  split <;> rfl

theorem BatchState.Wrote.counted {o : Outcome}
    (hheld : b₁.task.HoldsAt b.dest (statusEntry o))
    (hkept : ∀ off bytes, off + bytes.length ≤ b.dest → b.task.HoldsAt off bytes →
      b₁.task.HoldsAt off bytes)
    (htask : b₁.task.length = b.task.length ∧ b₁.task.clientIp = b.task.clientIp)
    (hdest : b₁.dest = b.dest + 4 + o.keyInfo.szKey.length + 1) (hresult : b₁.result = o.status)
    (hcount : b₁.successCount = b.successCount) (hkeys : b₁.subKeys = b.subKeys) :
    b.Wrote (b₁.counted g o.keyInfo) [o] statusEntry g.storeSubKeys := by
  have hone : [o].flatMap statusEntry = statusEntry o := List.flatMap_singleton _ _
  refine ⟨?_, ?_, ?_, ?_, ?_, ?_, ?_, ?_⟩
  · rw [counted_dest, hdest, hone, statusEntry_length, keyEntry_length]
    omega
  · rw [counted_task, hone]
    exact hheld
  · rw [counted_task]
    exact hkept
  · rw [counted_task, htask.1]
  · rw [counted_task, htask.2]
  · rw [counted_result, hresult]
    rfl
  · unfold BatchState.counted
    rw [hresult, List.countP_singleton]
    by_cases h0 : o.status = 0
    · have hok : o.ok = true := decide_eq_true h0
      rw [if_neg (not_not.mpr h0), if_pos hok, ← hcount]
    · have hok : ¬ o.ok = true := mt of_decide_eq_true h0
      rw [if_pos h0, if_neg hok, hcount, Nat.add_zero]
  · unfold BatchState.counted
    rw [hresult, ← hkeys]
    by_cases h0 : o.status = 0
    · have hok : o.ok = true := decide_eq_true h0
      rw [if_neg (not_not.mpr h0), List.filter_cons_of_pos hok]
      cases g.storeSubKeys with
      | true => rfl
      | false => exact (List.append_nil _).symm
    · have hok : ¬ o.ok = true := mt of_decide_eq_true h0
      rw [if_pos h0, List.filter_cons_of_neg hok, List.filter_nil, List.map_nil, ite_self,
        List.append_nil]

end Counted

section BatchSet

variable {S : StoreFuncs σ} {g : Globals} {r : BatchRequest} {inBodyLen : Int}
  {b : BatchState σ} {k : FDHTKeyInfo} {value rest : Bytes}

theorem batchSetEntry_entry (hnames : r.Names k)
    (hholds : b.task.HoldsAt b.src (keyValueEntry (k, value) ++ rest))
    (hsrc : sizeofHeader + r.commonFiledsLen ≤ b.src)
    (hlen : (b.src - sizeofHeader + (keyValueEntry (k, value) ++ rest).length : Int) ≤ inBodyLen)
    (hmax : inBodyLen < 2 ^ 31) (hbehind : b.dest + 4 ≤ b.src) :
    ∃ b', batchSetEntry S g r inBodyLen b = .ok b' ∧
      b'.src = b.src + (keyValueEntry (k, value)).length ∧ b'.task.HoldsAt b'.src rest ∧
      b'.server = (setKey S g r.header (k, value) b.server).2 ∧
      b.Wrote b' [(setKey S g r.header (k, value) b.server).1] statusEntry g.storeSubKeys := by
  have hentry := keyValueEntry_length k value
  have hkeyEntry := keyEntry_length k
  have hwhole := (FastTaskInfo.holdsAt_iff.mp hholds).2
  rw [List.length_append] at hwhole hlen
  obtain ⟨hheld, hrest⟩ := hholds.split
  obtain ⟨-, hvalue⟩ := hheld.split
  obtain ⟨-, hvalue⟩ := hvalue.split
  dsimp only at hvalue
  rw [int2buff_length] at hvalue
  have hhead := batchSetHead_entry inBodyLen hnames hheld hsrc
    (by push_cast at hlen ⊢; omega) hmax
  -- the buffer when the store is called
  obtain ⟨t, ht⟩ : ∃ t, t = (b.task.writeKey b.dest k).write (b.src + (keyEntry k).length)
      (int2buff (toInt32 r.header.newExpires)) := ⟨_, rfl⟩
  have hpast : ∀ off bytes, b.src + (keyEntry k).length + 4 ≤ off → b.task.HoldsAt off bytes →
      t.HoldsAt off bytes := by
    intro off bytes hoff hb
    rw [ht]
    exact (hb.writeKey (.inl (by omega))).write (.inl (by rw [int2buff_length]; exact hoff))
  have hvalue := hpast _ _ (by omega) hvalue
  have hrest := hpast _ _ (by omega) hrest
  have hstored : t.HoldsAt (b.src + (keyEntry k).length)
      (int2buff (toInt32 r.header.newExpires) ++ value) := by
    refine FastTaskInfo.HoldsAt.append ?_ (by rwa [int2buff_length])
    rw [ht]
    exact FastTaskInfo.holdsAt_write _ _ _
  have hread : readAt t.data (b.src + (keyEntry k).length) ((value.length : Int) + 4).toNat =
      int2buff (toInt32 r.header.newExpires) ++ value := by
    have hbytes := hstored.bytes
    rwa [List.length_append, int2buff_length,
      show 4 + value.length = ((value.length : Int) + 4).toNat by omega] at hbytes
  have hoff : b.dest + (keyEntry k).length = b.dest + 4 + k.szKey.length := by omega
  obtain ⟨status, hstatus⟩ :
      ∃ status, status = (setKey S g r.header (k, value) b.server).1.status := ⟨_, rfl⟩
  have hlogged : readAt (t.write (b.dest + 4 + k.szKey.length) (statusByte status)).data
      (b.src + (keyEntry k).length + 4) (value.length : Int).toNat = value := by
    exact (hvalue.write (.inl (by simp only [statusByte, List.length_singleton]; omega))).bytes
  have hset : (S.set b.server.store r.header.groupId k.packFullKey
      (int2buff (toInt32 r.header.newExpires) ++ value)).1 = status := hstatus.symm
  refine ⟨BatchState.counted g k { b with
    task := t.write (b.dest + 4 + k.szKey.length) (statusByte status)
    src := b.src + (keyEntry k).length + ((value.length : Int) + 4).toNat
    dest := b.dest + 4 + k.szKey.length + 1
    result := status
    server := (setKey S g r.header (k, value) b.server).2 }, ?_, ?_, ?_, ?_, ?_⟩
  · unfold batchSetEntry
    rw [hhead]
    dsimp only
    rw [if_neg (by omega), ← FastTaskInfo.writeKey, ← ht, hread, hset, hlogged, ← apply_ite Except.ok]
    rfl
  · rw [BatchState.counted_src]
    dsimp only
    omega
  · rw [hentry] at hrest
    rw [BatchState.counted_src, BatchState.counted_task]
    rw [show b.src + (keyEntry k).length + ((value.length : Int) + 4).toNat =
      b.src + ((keyEntry k).length + (4 + value.length)) by omega]
    exact hrest.write (.inl (by simp only [statusByte, List.length_singleton]; omega))
  · rw [BatchState.counted_server]
  · refine BatchState.Wrote.counted (o := (setKey S g r.header (k, value) b.server).1) ?_ ?_ ?_ rfl
      hstatus rfl rfl
    · refine FastTaskInfo.HoldsAt.append ?_ ?_
      · rw [ht]
        refine ((FastTaskInfo.holdsAt_writeKey _ _ k).write (.inr ?_)).write (.inr ?_) <;> omega
      · show FastTaskInfo.HoldsAt _ (b.dest + (keyEntry k).length) _
        rw [hoff, ← hstatus]
        exact FastTaskInfo.holdsAt_write _ _ _
    · intro off bytes hb hheld
      rw [ht]
      refine ((hheld.writeKey (.inr hb)).write (.inr ?_)).write (.inr ?_) <;> omega
    · rw [ht]
      exact ⟨rfl, rfl⟩

/-- Before an entry of BATCH_SET: the entries that are left are the rest of the
request, and the response is far enough behind. -/
structure BatchState.SetReady (r : BatchRequest) (inBodyLen : Int)
    (es : List (FDHTKeyInfo × Bytes)) (b : BatchState σ) : Prop where
  holds : b.task.HoldsAt b.src (es.flatMap keyValueEntry)
  src : sizeofHeader + r.commonFiledsLen ≤ b.src
  len : (b.src - sizeofHeader + (es.flatMap keyValueEntry).length : Int) = inBodyLen
  behind : b.dest + 4 ≤ b.src

theorem BatchState.SetReady.dest {es : List (FDHTKeyInfo × Bytes)}
    (h : b.SetReady r inBodyLen es) : b.task.HoldsAt b.dest [] := by
  have hbound := (FastTaskInfo.holdsAt_iff.mp h.holds).2
  have hbehind := h.behind
  exact FastTaskInfo.holdsAt_iff.mpr ⟨rfl, by rw [List.length_nil]; omega⟩

theorem BatchState.SetReady.step (hmax : inBodyLen < 2 ^ 31)
    {e : FDHTKeyInfo × Bytes} {es : List (FDHTKeyInfo × Bytes)}
    (hname : r.Names e.1) (h : b.SetReady r inBodyLen (e :: es)) :
    ∃ b' o, batchSetEntry S g r inBodyLen b = .ok b' ∧ b'.SetReady r inBodyLen es ∧
      setKey S g r.header e b.server = (o, b'.server) ∧
      b.Wrote b' [o] statusEntry g.storeSubKeys := by
  obtain ⟨hheld, hsrc, hlen, hbehind⟩ := h
  rw [List.flatMap_cons] at hheld hlen
  obtain ⟨k, value⟩ := e
  have hname : r.Names k := hname
  obtain ⟨b', hok, hsrc', hrest, hserver, hwrote⟩ :=
    batchSetEntry_entry (S := S) (g := g) hname hheld hsrc hlen.le hmax hbehind
  have hdest := hwrote.dest
  have hstatusEntry := statusEntry_length (setKey S g r.header (k, value) b.server).1
  have hkeyInfo : (setKey S g r.header (k, value) b.server).1.keyInfo = k := rfl
  have hentry := keyValueEntry_length k value
  rw [List.flatMap_singleton, hstatusEntry, hkeyInfo] at hdest
  rw [List.length_append] at hlen
  exact ⟨b', _, hok, ⟨hrest, by omega, by omega, by omega⟩, by rw [hserver], hwrote⟩

/-- **The loop of BATCH_SET handles the entries of its request one after the other.** -/
theorem batchLoop_set (hmax : inBodyLen < 2 ^ 31)
    (es rest : List (FDHTKeyInfo × Bytes)) (n : Nat) (hnames : ∀ e ∈ es, r.Names e.1)
    (h : b.SetReady r inBodyLen (es ++ rest)) :
    ∃ b' os, batchLoop (fun _ => batchSetEntry S g r inBodyLen) (es.length + n) 0 b =
        batchLoop (fun _ => batchSetEntry S g r inBodyLen) n (0 + es.length) b' ∧
      b'.SetReady r inBodyLen rest ∧
      Each (fun e s o s' => setKey S g r.header e s = (o, s')) es b.server os b'.server ∧
      b.Wrote b' os statusEntry g.storeSubKeys :=
  batchLoop_entries (fun _ => batchSetEntry S g r inBodyLen) _ _ _ (fun e => r.Names e.1)
    (fun es b => b.SetReady r inBodyLen es) (fun _ _ h => h.dest)
    (fun _ _ _ _ hname h => h.step hmax hname) es rest n hnames 0 b h

end BatchSet

end FastDht
