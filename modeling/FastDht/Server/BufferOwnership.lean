import FastDht.Common.FastTaskQueue
import FastDht.Lib.Machine
import FastDht.Server.RequestGrammar

/-! # Who owns the buffer of a task

Three places give a task another buffer: `client_sock_read` for a long message,
GET and BATCH_GET for long values, and `free_queue_push` for a task that comes back
with more than it started with. All of them hand the old buffer to `realloc` or
`free`, and none of them asks whether it is a slice of the block of the tasks. -/

namespace FastDht
open Lib Relation

variable {σ : Type}

section Replaces

variable (S : StoreFuncs σ) (g : Globals) (env : TaskEnv)

/-- `deal_cmd_get` frees the buffer of the request. -/
def getReplaces (t : FastTaskInfo) (s : Server σ) : Bool :=
  match parseExact g 12 true t with
  | none => false
  | some r =>
    let v := (S.get s.store r.header.groupId r.keyInfo.packFullKey (t.size - sizeofHeader)).1
    v.result = ENOSPC && (env.alloc 0).isSome

/-- An entry of `deal_cmd_batch_get` gets to `CHECK_BUFF_SIZE`. -/
def batchGetEntryReplaces (r : BatchRequest) (inBodyLen : Int) (inBuff : Bytes)
    (b : BatchState σ) : Bool :=
  match batchKey r inBodyLen inBuff b.src with
  | none => false
  | some (keyInfo, _) =>
    let keyLen := keyInfo.szKey.length
    let room := b.task.size - (b.dest + 4 + keyLen + 1)
    b.task.size ≤ b.dest + (9 + keyLen) ||
      (S.get b.server.store r.header.groupId keyInfo.packFullKey room).1.result = ENOSPC

/-- The loop of `deal_cmd_batch_get` with `n` entries left. -/
def batchGetReplaces (r : BatchRequest) (inBodyLen : Int) (inBuff : Bytes) :
    Nat → Nat → BatchState σ → Bool
  | 0, _, _ => false
  | n + 1, i, b =>
    batchGetEntryReplaces S r inBodyLen inBuff b ||
      match batchGetEntry S g env r inBodyLen inBuff i b with
      | .error _ => false
      | .ok b' => batchGetReplaces r inBodyLen inBuff n (i + 1) b'

/-- Handling the request hands the buffer of the task to `realloc` or `free`. -/
def dealReplaces (t : FastTaskInfo) (s : Server σ) : Bool :=
  match t.cmd with
  | some .get => getReplaces S g env t s
  | some .batchGet =>
    match parseBatchKeys g t with
    | none => false
    | some r => batchGetReplaces S g env r t.inBodyLen (r.inBuff t) r.keyCount 0
        (batchKeysStart r t s)
  | _ => false

end Replaces

/-! ## Without a replacement the allocator is not asked -/

section Unreplaced

variable {S : StoreFuncs σ} {g : Globals} {env : TaskEnv} {t : FastTaskInfo} {s : Server σ}

theorem FastTaskInfo.write_size {off : Nat} {v : Bytes} (h : (off + v.length : Int) ≤ t.size) :
    (t.write off v).size = t.size := by
  unfold FastTaskInfo.size at h ⊢
  have hlen : (t.write off v).data.length = t.data.length := writeAt_length (by omega)
  rw [hlen]

theorem dealCmdGet_unreplaced (h : getReplaces S g env t s = false) (other : Nat → Option Bytes)
    (hother : env.alloc 0 = none → other 0 = none) :
    dealCmdGet S g { env with alloc := other } t s = dealCmdGet S g env t s := by
  unfold getReplaces at h
  unfold dealCmdGet
  cases hp : parseExact g 12 true t with
  | none => rfl
  | some r =>
    rw [hp] at h
    dsimp only at h ⊢
    rw [Bool.and_eq_false_iff] at h
    rcases h with hspace | halloc
    · have hne : ¬ (S.get s.store r.header.groupId r.keyInfo.packFullKey
          (t.size - sizeofHeader)).1.result = ENOSPC := of_decide_eq_false hspace
      rw [if_neg hne, if_neg hne]
    · have hnone : env.alloc 0 = none := Option.not_isSome_iff_eq_none.mp (by simp [halloc])
      rw [hnone, hother hnone]

theorem batchGetEntry_unreplaced {r : BatchRequest} {inBodyLen : Int} {inBuff : Bytes} {i : Nat}
    {b : BatchState σ} (h : batchGetEntryReplaces S r inBodyLen inBuff b = false)
    (other : Nat → Option Bytes) :
    batchGetEntry S g { env with alloc := other } r inBodyLen inBuff i b =
      batchGetEntry S g env r inBodyLen inBuff i b := by
  unfold batchGetEntryReplaces at h
  unfold batchGetEntry
  cases hk : batchKey r inBodyLen inBuff b.src with
  | none => rfl
  | some k =>
    rw [hk] at h
    dsimp only at h ⊢
    rw [Bool.or_eq_false_iff] at h
    have hroom : ¬ b.task.size ≤ b.dest + (9 + k.1.szKey.length) := of_decide_eq_false h.1
    have hsize : ((b.task.write b.dest (int2buff k.1.szKey.length)).write (b.dest + 4)
        k.1.szKey).size = b.task.size := by
      rw [FastTaskInfo.write_size, FastTaskInfo.write_size]
      · rw [int2buff_length]
        omega
      · rw [FastTaskInfo.write_size] <;> push_cast [int2buff_length] <;> omega
    have hspace : ¬ (S.get b.server.store r.header.groupId k.1.packFullKey
        (b.task.size - (b.dest + 4 + k.1.szKey.length + 1 : Nat))).1.result = ENOSPC := by
      have hne := of_decide_eq_false h.2
      push_cast at hne ⊢
      exact hne
    rw [if_neg hroom, if_neg hroom]
    dsimp only
    rw [hsize, if_neg hspace, if_neg hspace]

theorem batchGet_unreplaced {r : BatchRequest} {inBodyLen : Int} {inBuff : Bytes}
    (other : Nat → Option Bytes) (n : Nat) : ∀ (i : Nat) (b : BatchState σ),
      batchGetReplaces S g env r inBodyLen inBuff n i b = false →
      batchLoop (batchGetEntry S g { env with alloc := other } r inBodyLen inBuff) n i b =
        batchLoop (batchGetEntry S g env r inBodyLen inBuff) n i b := by
  induction n with
  | zero => intro i b _; rfl
  | succ n ih =>
    intro i b h
    simp only [batchGetReplaces, Bool.or_eq_false_iff] at h
    simp only [batchLoop, batchGetEntry_unreplaced h.1 other]
    cases he : batchGetEntry S g env r inBodyLen inBuff i b with
    | error e => rfl
    | ok b' =>
      rw [he] at h
      exact ih (i + 1) b' h.2

/-- A request that does not replace the buffer is handled as if there were no
memory. -/
theorem workDealTask_unreplaced (h : dealReplaces S g env t s = false) :
    workDealTask S g { env with alloc := fun _ => none } t s = workDealTask S g env t s := by
  unfold dealReplaces at h
  unfold workDealTask
  have hdeal : ∀ c, t.cmd = c → dealCmd S g { env with alloc := fun _ => none } t s c =
      dealCmd S g env t s c := by
    rintro c rfl
    cases hc : t.cmd with
    | none => rfl
    | some c =>
      rw [hc] at h
      cases c with
      | get => exact congrArg some (dealCmdGet_unreplaced h _ fun _ => rfl)
      | batchGet =>
        refine congrArg some ?_
        unfold dealCmdBatchGet dealCmdBatchKeys
        dsimp only at h
        cases hp : parseBatchKeys g t with
        | none => rfl
        | some r =>
          rw [hp] at h
          dsimp only at h ⊢
          rw [batchGet_unreplaced _ _ _ _ h]
      | _ => rfl
  split
  · rfl
  · rw [hdeal _ rfl]

end Unreplaced

/-! ## Runs of the task pool -/

/-- The tasks that are free and those of the connections, and whether `realloc` or
`free` has been applied to a slice of the block. -/
structure TaskPool where
  free : List TaskBuff
  busy : List TaskBuff
  misused : Bool

/-- What happens to a task: it is taken for a connection; the message needs
`offset + recvBytes` bytes; a request is handled, in the buffer of the task and with
the store in any state; it is given back. -/
inductive PoolEvent (σ : Type)
  | pop
  | recv (i offset recvBytes : Nat) (reallocOk : Bool)
  | deal (i : Nat) (g : Globals) (env : TaskEnv) (t : FastTaskInfo) (s : Server σ)
  | push (i : Nat) (mallocOk : Bool)

/-- The buffer `b` is handed to `realloc` or `free`; the task has `size` bytes
afterwards. -/
def TaskBuff.replace (b : TaskBuff) (size : Int) : TaskBuff :=
  ⟨size, if size = b.size then b.origin else .ownMalloc⟩

def TaskPool.touch (p : TaskPool) (b : TaskBuff) : Bool :=
  p.misused || b.origin = .blockSlice

def TaskPool.step (S : StoreFuncs σ) (c : FreeQueueConfig) (p : TaskPool) :
    PoolEvent σ → Option TaskPool
  | .pop =>
    match p.free with
    | [] => none
    | b :: rest => some { p with free := rest, busy := p.busy ++ [b] }
  | .recv i offset recvBytes reallocOk => do
    let b ← p.busy[i]?
    if max (sizeofHeader : Int) c.maxBuffSize < offset + recvBytes then none
    else if b.size < offset + recvBytes then
      let size := if reallocOk then b.size + recvBytes else b.size
      some { p with busy := p.busy.set i (b.replace size), misused := p.touch b }
    else some p
  | .deal i g env t s => do
    let b ← p.busy[i]?
    let r ← workDealTask S g env t s
    if t.size ≠ b.size ∨ c.maxBuffSize < t.length then none
    else if dealReplaces S g env t s then
      let size := r.1.elim b.size fun reply => reply.2.size
      some { p with busy := p.busy.set i (b.replace size), misused := p.touch b }
    else some p
  | .push i mallocOk => do
    let b ← p.busy[i]?
    let r := freeQueuePush c mallocOk b
    some ⟨r.2 :: p.free, p.busy.eraseIdx i, if r.1 then p.touch b else p.misused⟩

/-- In every run no slice of the block is handed to `realloc` or `free`, whatever
the store. -/
def OwnedBuffers (c : FreeQueueConfig) : Prop :=
  ∀ bs, freeQueueInit c = some bs → ∀ (σ : Type) (S : StoreFuncs σ) (p : TaskPool),
    Runs (TaskPool.step S c) (fun _ _ => True) ⟨bs, [], false⟩ p → p.misused = false

/-! ## Buffers of their own -/

/-- No task has a slice of the block. -/
structure TaskPool.Owned (p : TaskPool) : Prop where
  free : ∀ b ∈ p.free, b.origin = .ownMalloc
  busy : ∀ b ∈ p.busy, b.origin = .ownMalloc
  misused : p.misused = false

section Owned

variable {S : StoreFuncs σ} {c : FreeQueueConfig} {p p' : TaskPool} {b : TaskBuff}

theorem TaskBuff.replace_own (hb : b.origin = .ownMalloc) (size : Int) :
    (b.replace size).origin = .ownMalloc := by
  unfold TaskBuff.replace
  split
  · exact hb
  · rfl

theorem TaskPool.Owned.touch (h : p.Owned) (hb : b.origin = .ownMalloc) : p.touch b = false := by
  simp [TaskPool.touch, h.misused, hb]

theorem TaskPool.Owned.replace (h : p.Owned) {i : Nat} (hb : b ∈ p.busy) (size : Int) :
    TaskPool.Owned { p with busy := p.busy.set i (b.replace size), misused := p.touch b } where
  free := h.free
  busy := by
    intro b' hb'
    rcases List.mem_or_eq_of_mem_set hb' with hb' | rfl
    · exact h.busy b' hb'
    · exact TaskBuff.replace_own (h.busy b hb) size
  misused := h.touch (h.busy b hb)

theorem TaskPool.Owned.step (h : p.Owned) {e : PoolEvent σ} (hs : p.step S c e = some p') :
    p'.Owned := by
  cases e with
  | pop =>
    simp only [TaskPool.step] at hs
    split at hs
    · cases hs
    · rename_i b rest hfree
      obtain rfl := Option.some.inj hs
      have hown : ∀ b' ∈ b :: rest, b'.origin = .ownMalloc := by
        rw [← hfree]
        exact h.free
      refine ⟨fun b' hb' => hown b' (List.mem_cons_of_mem _ hb'), ?_, h.misused⟩
      intro b' hb'
      rcases List.mem_append.mp hb' with hb' | hb'
      · exact h.busy b' hb'
      · rw [List.mem_singleton.mp hb']
        exact hown b (List.mem_cons_self ..)
  | recv i offset recvBytes reallocOk =>
    obtain ⟨b, hb, hs⟩ := Option.bind_eq_some_iff.mp hs
    split_ifs at hs
    · obtain rfl := Option.some.inj hs
      exact h.replace (List.mem_of_getElem? hb) _
    · obtain rfl := Option.some.inj hs
      exact h.replace (List.mem_of_getElem? hb) _
    · obtain rfl := Option.some.inj hs
      exact h
  | deal i g env t s =>
    obtain ⟨b, hb, hs⟩ := Option.bind_eq_some_iff.mp hs
    obtain ⟨r, -, hs⟩ := Option.bind_eq_some_iff.mp hs
    split_ifs at hs
    · obtain rfl := Option.some.inj hs
      exact h.replace (List.mem_of_getElem? hb) _
    · obtain rfl := Option.some.inj hs
      exact h
  | push i mallocOk =>
    obtain ⟨b, hb, hs⟩ := Option.bind_eq_some_iff.mp hs
    obtain rfl := Option.some.inj hs
    have hown := h.busy b (List.mem_of_getElem? hb)
    refine ⟨?_, fun b' hb' => h.busy b' (List.mem_of_mem_eraseIdx hb'), ?_⟩
    · intro b' hb'
      rcases List.mem_cons.mp hb' with rfl | hb'
      · unfold freeQueuePush
        split
        · rfl
        · exact hown
      · exact h.free b' hb'
    · split
      · exact h.touch hown
      · exact h.misused

theorem ownedBuffers_of_not_wholeBlock (hwhole : c.mallocWholeBlock = false) : OwnedBuffers c := by
  intro bs hinit σ S p hrun
  have hstart : TaskPool.Owned ⟨bs, [], false⟩ := by
    unfold freeQueueInit at hinit
    split at hinit
    · cases hinit
    · obtain rfl := Option.some.inj hinit
      refine ⟨fun b hb => ?_, by simp, rfl⟩
      rw [List.eq_of_mem_replicate hb, hwhole]
      rfl
  exact (hrun.invariant hstart fun p e p' h _ hs => h.step hs).misused

end Owned

/-! ## Slices of the block -/

/-- GET of the key `a` in a buffer with `n` more bytes. -/
def paddedGet (n : Nat) : FastTaskInfo :=
  receivedTask refreshRequest.data (List.replicate n 0) []

/-- A database that holds a value of `n` bytes under the key `a`. -/
def longValueServer (n : Nat) : Server Bdb :=
  { emptyServer with store := emptyBdb.put 0 [1, 1, 97] (List.replicate n 0) }

theorem paddedGet_size (n : Nat) : (paddedGet n).size = 32 + n := by
  unfold paddedGet receivedTask FastTaskInfo.size
  rw [List.length_append, List.length_replicate]
  rfl

theorem paddedGet_length (n : Nat) : (paddedGet n).length = 32 := rfl

theorem paddedGet_replaces (n : Nat) :
    dealReplaces bdbFuncs oneGroup ⟨fun _ => some [], 0, (0, [])⟩ (paddedGet n)
      (longValueServer (32 + n)) = true := by
  have hdelivers : (paddedGet n).Delivers (refreshRequest.data.drop sizeofHeader) := by
    refine ⟨⟨refreshRequest.data.take sizeofHeader, List.replicate n 0, ?_, by decide⟩,
      paddedGet_length n, by rw [paddedGet_length]; decide⟩
    rfl
  obtain ⟨r, hr, hkey, -⟩ := (parseExact_iff (k := unnamedKey [97] (by decide)) hdelivers
    (oneGroup_owns _) 0 []).mpr ⟨by decide, rfl, by decide, by decide⟩
  have hgroup : r.header.groupId = 0 := by
    rw [← (parseExact_of hr).header]
    exact Nat.mod_one _
  have hget : (dbDoGet (longValueServer (32 + n)).store 0 [1, 1, 97]
      ((paddedGet n).size - sizeofHeader)).result = ENOSPC := by
    have hlt : (paddedGet n).size - sizeofHeader < (List.replicate (32 + n) (0 : UInt8)).length := by
      rw [paddedGet_size, List.length_replicate]
      show (32 + n - 19 : Int) < ((32 + n : Nat) : Int)
      omega
    unfold dbDoGet
    rw [if_neg (by simp [longValueServer, emptyServer, emptyBdb, Bdb.put])]
    have hdata : (longValueServer (32 + n)).store.data (0, [1, 1, 97]) =
        some (List.replicate (32 + n) 0) := by
      simp [longValueServer]
    rw [hdata]
    dsimp only
    rw [if_pos hlt]
  unfold dealReplaces
  unfold getReplaces
  have hr' : parseExact oneGroup 12 true (paddedGet n) = some r := hr
  rw [hr']
  dsimp only
  rw [hgroup, hkey]
  exact Bool.and_eq_true_iff.mpr ⟨decide_eq_true hget, rfl⟩

theorem not_ownedBuffers_of_wholeBlock {c : FreeQueueConfig} (hwhole : c.mallocWholeBlock = true)
    (hpkg : 32 ≤ c.maxBuffSize) {bs : List TaskBuff} (hinit : freeQueueInit c = some bs) :
    ¬ OwnedBuffers c := by
  intro howned
  obtain ⟨hmin, rest, hbs⟩ := freeQueueInit_some hinit
  rw [hwhole, if_pos rfl] at hbs
  obtain ⟨n, hn⟩ := Int.eq_ofNat_of_zero_le (show 0 ≤ c.alignedMinSize - 32 by omega)
  have hsize : (paddedGet n).size = c.alignedMinSize := by
    rw [paddedGet_size]
    omega
  let env : TaskEnv := ⟨fun _ => some [], 0, (0, [])⟩
  let s := longValueServer (32 + n)
  let b : TaskBuff := ⟨c.alignedMinSize, .blockSlice⟩
  obtain ⟨r, hr⟩ : ∃ r, workDealTask bdbFuncs oneGroup env (paddedGet n) s = some r := by
    exact ⟨_, rfl⟩
  have hpop : TaskPool.step bdbFuncs c ⟨bs, [], false⟩ .pop =
      some ⟨rest, [b], false⟩ := by
    rw [hbs]
    rfl
  have hdeal : ∃ p, TaskPool.step bdbFuncs c ⟨rest, [b], false⟩
      (.deal 0 oneGroup env (paddedGet n) s) = some p ∧ p.misused = true := by
    have hguard : ¬ ((paddedGet n).size ≠ b.size ∨ c.maxBuffSize < (paddedGet n).length) := by
      rw [hsize, paddedGet_length]
      rintro (hne | hlt)
      · exact hne rfl
      · omega
    simp only [TaskPool.step, List.getElem?_cons_zero, Option.bind_eq_bind, Option.bind_some, hr,
      if_neg hguard, paddedGet_replaces n, env, s, if_true]
    exact ⟨_, rfl, rfl⟩
  obtain ⟨p, hp, hmisused⟩ := hdeal
  have hrun : Runs (TaskPool.step bdbFuncs c) (fun _ _ => True) ⟨bs, [], false⟩ p :=
    (ReflTransGen.single ⟨_, trivial, hpop⟩).tail ⟨_, trivial, hp⟩
  exact Bool.false_ne_true ((howned bs hinit _ _ p hrun).symm.trans hmisused)

/-- **The buffers are handed to `realloc` and `free` only by their owners exactly
if they are not slices of the block of the tasks**, as long as a message can be
long enough for a GET. -/
theorem ownedBuffers_iff (c : FreeQueueConfig) {bs : List TaskBuff}
    (hinit : freeQueueInit c = some bs) :
    (c.mallocWholeBlock = false → OwnedBuffers c) ∧
      (32 ≤ c.maxBuffSize → (OwnedBuffers c ↔ c.mallocWholeBlock = false)) := by
  refine ⟨ownedBuffers_of_not_wholeBlock, fun hpkg => ⟨fun howned => ?_,
    ownedBuffers_of_not_wholeBlock⟩⟩
  by_contra hwhole
  exact not_ownedBuffers_of_wholeBlock (by simpa using hwhole) hpkg hinit howned

/-- One connection with messages of twice the smallest buffer. -/
def ampleConfig : FreeQueueConfig := ⟨1, 1024, 2048, 0, 2 ^ 28, by decide, by decide, by decide⟩

theorem ownedBuffers_ampleConfig : OwnedBuffers ampleConfig :=
  (ownedBuffers_iff ampleConfig
    (show freeQueueInit ampleConfig = some [⟨1024, .ownMalloc⟩] by decide)).1 (by decide)

/-- The configuration that the server has without a configuration file: 256
connections and 64 KB for both sizes. -/
def defaultConfig : FreeQueueConfig :=
  ⟨256, 65536, 65536, 0, 2 ^ 28, by decide, by decide, by decide⟩

theorem defaultConfig_misuses : ¬ ∀ c : FreeQueueConfig, OwnedBuffers c := by
  intro hall
  have hinit : freeQueueInit defaultConfig = some (List.replicate 256 ⟨65536, .blockSlice⟩) := by
    rfl
  exact not_ownedBuffers_of_wholeBlock (by decide) (by decide) hinit (hall defaultConfig)

end FastDht
