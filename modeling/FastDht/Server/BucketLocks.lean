import FastDht.Common.HashNodes
import FastDht.Lib.History
import FastDht.Lib.Machine
import FastDht.Server.MpoolSoundness

/-! # Concurrent calls on a table with bucket locks

A call finds its bucket and then enters the critical sections of that bucket's
lock. `hash_inc_ex`, `hash_partial_set` and `hash_delete` have one section.
`hash_insert_ex` has two: in the first it looks its key up and overwrites or
unlinks the node, in the second it links the new node. Between them it allocates
the node without the lock, and it does not look again; the bytes of the node it
has unlinked are there for others to use. `hash_set_locks` accepts only a load
factor below 0.10, with which a table never grows, so that a bucket stays where
it is. -/

namespace FastDht
open Lib Relation

/-- The first section of `hash_insert_ex`: the status if it returns there. -/
def insertFirst (h : HashArray) (key value : Bytes) : Option Int × HashArray :=
  match hashFindEx h key with
  | some d =>
    if d.reuses value.length then (some 0, h.setValue key value) else (none, h.deleteFromBucket d)
  | none => (none, h)

/-- How far a call has come; an insertion between its sections has freed some bytes. -/
inductive CallPhase
  | located
  | unlinked (freed : Int)
  | returned (status : Int)
  deriving DecidableEq, Repr

/-- A call, with what `malloc` answers it. -/
structure HashThread where
  op : HashOp
  mem : Malloc
  phase : CallPhase

structure HashThreads where
  table : HashArray
  threads : List HashThread

inductive LockEvent
  /-- A thread calls the operation and finds its bucket. -/
  | call (op : HashOp) (mem : Malloc)
  /-- The thread goes through its next section. -/
  | enter (i : Nat)

/-- The next section of a thread. There is none after the call has returned. -/
def HashThread.enter (h : HashArray) (t : HashThread) : Option (CallPhase × HashArray) :=
  match t.phase, t.op with
  | .located, .insertEx key value =>
    let r := insertFirst h key value
    some (r.1.elim (.unlinked (h.bytesUsed - r.2.bytesUsed)) .returned, r.2)
  | .located, op =>
    let r := op.run t.mem h
    some (.returned r.1, r.2)
  | .unlinked _, .insertEx key value =>
    let r := insertNode t.mem h key value
    some (.returned r.1, r.2)
  | _, _ => none

def HashOp.isClear : HashOp → Bool
  | .clear _ _ => true
  | _ => false

def HashThreads.step (s : HashThreads) : LockEvent → Option HashThreads
  | .call op mem =>
    if op.isClear then none
    else some { s with threads := s.threads ++ [⟨op, mem, .located⟩] }
  | .enter i =>
    match s.threads[i]? with
    | none => none
    | some t => (t.enter s.table).map fun r => ⟨r.2, s.threads.set i { t with phase := r.1 }⟩

/-- The key that a call has unlinked, or not found, and will link. -/
def HashThread.unlinkedKey (t : HashThread) : Option Bytes :=
  match t.phase with
  | .unlinked _ => some t.op.key
  | _ => none

/-- The bytes of the nodes that the calls have unlinked and not yet replaced. -/
def freedBytes (ts : List HashThread) : Int :=
  (ts.map fun t => match t.phase with
    | .unlinked freed => freed
    | _ => 0).sum

/-- The call with its answer, once it has returned. -/
def HashThread.answer (t : HashThread) : Option ((Malloc × HashOp) × Int) :=
  match t.phase with
  | .returned status => some ((t.mem, t.op), status)
  | _ => none

/-- No section comes between the two sections of an insertion of the same key, and a section ends
as it would if the bytes that insertions under way have freed were still in use. -/
def HashThreads.Guarded (s : HashThreads) : LockEvent → Prop
  | .call _ _ => True
  | .enter i => ∀ t ∈ s.threads[i]?,
    (∀ t' ∈ s.threads.eraseIdx i, t'.unlinkedKey ≠ some t.op.key) ∧
      (t.enter { s.table with
        bytesUsed := s.table.bytesUsed + freedBytes (s.threads.eraseIdx i) }).map Prod.fst =
          (t.enter s.table).map Prod.fst

instance (s : HashThreads) (e : LockEvent) : Decidable (s.Guarded e) :=
  match e with
  | .call _ _ => inferInstanceAs (Decidable True)
  | .enter i => inferInstanceAs (Decidable (∀ t ∈ s.threads[i]?, _ ∧ _))

def runCall (h : HashArray) (c : Malloc × HashOp) : Int × HashArray := c.2.run c.1 h

/-! ## What a call does to the node of its key -/

def HashOp.onNode (mem : Malloc) (maxBytes used : Int) (old : Option HashData) :
    HashOp → NodeResult
  | .insertEx key value => insertOnNode mem maxBytes used key value old
  | .incEx key inc valueLen convert => incOnNode mem maxBytes used key inc valueLen convert old
  | .partialSet key value offset => partialOnNode mem maxBytes used key value offset old
  | .delete _ => deleteOnNode used old
  | .clear _ _ => ⟨0, old, used⟩

section Call

variable {h : HashArray} {op : HashOp} (mem : Malloc)

theorem HashOp.run_status (h : HashArray) (hop : op.isClear = false) : (op.run mem h).1 =
    (op.onNode mem h.maxBytes h.bytesUsed (hashFindEx h op.key)).status := by
  cases op with
  | insertEx key value => exact hashInsertEx_status mem h key value
  | incEx key inc valueLen convert => exact hashIncEx_status mem h key inc valueLen convert
  | partialSet key value offset => exact hashPartialSet_status mem h key value offset
  | delete key => exact hashDelete_status h key
  | clear currentTime tail => cases hop

theorem HashOp.run_did (hl : h.Locked) (hop : op.isClear = false) : h.Did op.key (op.run mem h).2
    (op.onNode mem h.maxBytes h.bytesUsed (hashFindEx h op.key)) := by
  cases op with
  | insertEx key value => exact hashInsertEx_did hl mem key value
  | incEx key inc valueLen convert => exact hashIncEx_did hl mem key inc valueLen convert
  | partialSet key value offset => exact hashPartialSet_did hl mem key value offset
  | delete key => exact hashDelete_did hl key
  | clear currentTime tail => cases hop

theorem HashOp.onNode_shifted {maxBytes used f : Int} {old : Option HashData}
    (hs : (op.onNode mem maxBytes (used + f) old).status = (op.onNode mem maxBytes used old).status) :
    (op.onNode mem maxBytes used old).Shifted (op.onNode mem maxBytes (used + f) old) f := by
  cases op with
  | insertEx key value => exact insertOnNode_shifted (NodeResult.toStatus_congr hs)
  | incEx key inc valueLen convert => exact incOnNode_shifted hs
  | partialSet key value offset => exact partialOnNode_shifted hs
  | delete key => exact deleteOnNode_shifted used f old
  | clear currentTime tail => exact ⟨rfl, rfl⟩

end Call

/-! ## Every run has a sequential order -/

/-- The calls that have returned, in the order of `hist`, lead from `h₀` to `q` with the answers
they were given. The nodes of `q` are those of the table, but for the insertions between their
sections, whose keys are as they were before the call. -/
structure Linearized (h₀ h : HashArray) (ts : List HashThread)
    (hist : List ((Malloc × HashOp) × Int)) (q : HashArray) : Prop where
  locked : h.Locked
  ordered : q.Locked
  sequential : Sequential runCall h₀ hist q
  calls : hist.Perm (ts.filterMap HashThread.answer)
  noClear : ∀ t ∈ ts, t.op.isClear = false
  maxBytes : q.maxBytes = h.maxBytes
  bytesUsed : q.bytesUsed = h.bytesUsed + freedBytes ts
  distinct : (ts.filterMap HashThread.unlinkedKey).Nodup
  gone : ∀ t ∈ ts, ∀ freed, t.phase = .unlinked freed → ∃ key value, t.op = .insertEx key value ∧
    hashFindEx h key = none ∧ ∀ maxBytes used,
      insertOnNode t.mem maxBytes used key value (hashFindEx q key) =
        linkNode t.mem maxBytes (used - freed) key value
  same : ∀ k, k ∉ ts.filterMap HashThread.unlinkedKey → hashFindEx h k = hashFindEx q k

namespace Linearized

variable {h₀ h q : HashArray} {ts : List HashThread} {hist : List ((Malloc × HashOp) × Int)}

theorem perm (hl : Linearized h₀ h ts hist q) {ts' : List HashThread} (hp : ts.Perm ts') :
    Linearized h₀ h ts' hist q where
  locked := hl.locked
  ordered := hl.ordered
  sequential := hl.sequential
  calls := hl.calls.trans (hp.filterMap _)
  noClear := fun t ht => hl.noClear t (hp.mem_iff.mpr ht)
  maxBytes := hl.maxBytes
  bytesUsed := by rw [hl.bytesUsed, freedBytes, freedBytes, (hp.map _).sum_eq]
  distinct := (hp.filterMap _).nodup_iff.mp hl.distinct
  gone := fun t ht => hl.gone t (hp.mem_iff.mpr ht)
  same := fun k hk => hl.same k fun hk' => hk ((hp.filterMap _).mem_iff.mp hk')

theorem start (hh : h.Locked) : Linearized h h [] [] h where
  locked := hh
  ordered := hh
  sequential := rfl
  calls := .nil
  noClear := List.forall_mem_nil _
  maxBytes := rfl
  bytesUsed := (Int.add_zero _).symm
  distinct := List.nodup_nil
  gone := List.forall_mem_nil _
  same := fun _ _ => rfl

theorem call (hl : Linearized h₀ h ts hist q) {op : HashOp} (hop : op.isClear = false)
    (mem : Malloc) : Linearized h₀ h (⟨op, mem, .located⟩ :: ts) hist q where
  locked := hl.locked
  ordered := hl.ordered
  sequential := hl.sequential
  calls := hl.calls
  noClear := List.forall_mem_cons.mpr ⟨hop, hl.noClear⟩
  maxBytes := hl.maxBytes
  bytesUsed := hl.bytesUsed.trans (congrArg (h.bytesUsed + ·) (Int.zero_add _).symm)
  distinct := hl.distinct
  gone := List.forall_mem_cons.mpr ⟨fun _ hf => (by cases hf), hl.gone⟩
  same := hl.same

section Sections

variable {t : HashThread} {rest : List HashThread} {h' : HashArray}

/-- A call returns from its last section, which does to the node of its key what the call alone
does in the order. -/
theorem ret (hl : Linearized h₀ h (t :: rest) hist q) (ht : t.answer = none)
    (hkey : t.op.key ∉ rest.filterMap HashThread.unlinkedKey) {r : NodeResult}
    (hdid : h.Did t.op.key h' r)
    (hshift : r.Shifted (t.op.onNode t.mem q.maxBytes q.bytesUsed (hashFindEx q t.op.key))
      (freedBytes rest)) :
    ∃ q', Linearized h₀ h' ({ t with phase := .returned (t.op.run t.mem q).1 } :: rest)
      (hist ++ [((t.mem, t.op), (t.op.run t.mem q).1)]) q' := by
  have hop := hl.noClear t List.mem_cons_self
  have hrun := HashOp.run_did t.mem hl.ordered hop
  have hunlinked : ∀ k, k ∉ rest.filterMap HashThread.unlinkedKey → k ≠ t.op.key →
      k ∉ (t :: rest).filterMap HashThread.unlinkedKey := by
    intro k hk hne hmem
    obtain ⟨t', ht', hk'⟩ := List.mem_filterMap.mp hmem
    rcases List.mem_cons.mp ht' with rfl | ht'
    · unfold HashThread.unlinkedKey at hk'
      split at hk'
      · exact hne (Option.some.inj hk').symm
      · cases hk'
    · exact hk (List.mem_filterMap.mpr ⟨t', ht', hk'⟩)
  have hcalls := hl.calls
  rw [List.filterMap_cons_none ht] at hcalls
  refine ⟨(t.op.run t.mem q).2, hdid.locked, hrun.locked,
    hl.sequential.concat (t.mem, t.op), ?_, ?_, ?_, ?_, ?_, ?_, ?_⟩
  · exact List.perm_append_comm.trans (hcalls.cons _)
  · exact List.forall_mem_cons.mpr ⟨hop, fun t' ht' => hl.noClear t' (List.mem_cons_of_mem _ ht')⟩
  · rw [hrun.maxBytes, hdid.maxBytes, hl.maxBytes]
  · have hzero : freedBytes ({ t with phase := .returned (t.op.run t.mem q).1 } :: rest) =
        freedBytes rest := Int.zero_add _
    rw [hrun.bytesUsed, hshift.bytesUsed, hdid.bytesUsed, hzero]
  · exact hl.distinct.sublist ((List.sublist_cons_self t rest).filterMap _)
  · refine List.forall_mem_cons.mpr ⟨fun _ hf => (by cases hf), fun t' ht' freed hf => ?_⟩
    obtain ⟨key, value, hop', hnone, hlink⟩ := hl.gone t' (List.mem_cons_of_mem _ ht') freed hf
    have hne : key ≠ t.op.key := by
      rintro rfl
      refine hkey (List.mem_filterMap.mpr ⟨t', ht', ?_⟩)
      rw [HashThread.unlinkedKey, hf, hop']
      rfl
    refine ⟨key, value, hop', ?_, fun maxBytes used => ?_⟩
    · rw [hdid.find, if_neg hne, hnone]
    · rw [hrun.find, if_neg hne]
      exact hlink maxBytes used
  · intro k hk
    rw [hdid.find, hrun.find]
    by_cases hkk : k = t.op.key
    · rw [if_pos hkk, if_pos hkk, hshift.node]
    · rw [if_neg hkk, if_neg hkk]
      exact hl.same k (hunlinked k hk hkk)

theorem bytesUsed_located {op : HashOp} {mem : Malloc}
    (hl : Linearized h₀ h (⟨op, mem, .located⟩ :: rest) hist q) :
    q.bytesUsed = h.bytesUsed + freedBytes rest :=
  hl.bytesUsed.trans (congrArg (h.bytesUsed + ·) (Int.zero_add _))

/-- The only section of a call, or the first of an insertion that returns there. -/
theorem enter_only {op : HashOp} {mem : Malloc}
    (hl : Linearized h₀ h (⟨op, mem, .located⟩ :: rest) hist q)
    (hkey : op.key ∉ rest.filterMap HashThread.unlinkedKey)
    (hguard : (op.onNode mem h.maxBytes (h.bytesUsed + freedBytes rest)
      (hashFindEx h op.key)).status =
        (op.onNode mem h.maxBytes h.bytesUsed (hashFindEx h op.key)).status) :
    ∃ hist' q', Linearized h₀ (op.run mem h).2 (⟨op, mem, .returned (op.run mem h).1⟩ :: rest)
      hist' q' := by
  have hop := hl.noClear _ List.mem_cons_self
  have hused := hl.bytesUsed_located
  have hfind := hl.same op.key hkey
  have hstatus : (op.run mem q).1 = (op.run mem h).1 := by
    rw [HashOp.run_status mem q hop, HashOp.run_status mem h hop, hl.maxBytes, hused, ← hfind]
    exact hguard
  have hret := hl.ret rfl hkey (HashOp.run_did mem hl.locked hop) (by
    rw [hl.maxBytes, hused, ← hfind]
    exact HashOp.onNode_shifted mem hguard)
  rw [← hstatus]
  exact ⟨_, hret⟩

theorem unlink {key value : Bytes} {mem : Malloc} {freed : Int}
    (hl : Linearized h₀ h (⟨.insertEx key value, mem, .located⟩ :: rest) hist q)
    (hkey : key ∉ rest.filterMap HashThread.unlinkedKey)
    (hdid : h.Did key h' ⟨0, none, h.bytesUsed - freed⟩)
    (hlink : ∀ maxBytes used, insertOnNode mem maxBytes used key value (hashFindEx h key) =
      linkNode mem maxBytes (used - freed) key value) :
    Linearized h₀ h' (⟨.insertEx key value, mem, .unlinked freed⟩ :: rest) hist q where
  locked := hdid.locked
  ordered := hl.ordered
  sequential := hl.sequential
  calls := hl.calls
  noClear := List.forall_mem_cons.mpr
    ⟨rfl, fun t ht => hl.noClear t (List.mem_cons_of_mem _ ht)⟩
  maxBytes := hl.maxBytes.trans hdid.maxBytes.symm
  bytesUsed := by
    rw [hl.bytesUsed_located, hdid.bytesUsed]
    change _ = h.bytesUsed - freed + (freed + freedBytes rest)
    omega
  distinct := List.nodup_cons.mpr ⟨hkey, hl.distinct⟩
  gone := by
    refine List.forall_mem_cons.mpr ⟨fun f hf => ?_, fun t ht f hf => ?_⟩
    · obtain rfl := CallPhase.unlinked.inj hf
      refine ⟨key, value, rfl, (hdid.find key).trans (if_pos rfl), fun maxBytes used => ?_⟩
      rw [← hl.same key hkey]
      exact hlink maxBytes used
    · obtain ⟨key', value', hop, hnone, hlink'⟩ := hl.gone t (List.mem_cons_of_mem _ ht) f hf
      refine ⟨key', value', hop, ?_, hlink'⟩
      rw [hdid.find, hnone]
      exact ite_self none
  same := by
    intro k hk
    obtain ⟨hne, hk⟩ := not_or.mp fun hor => hk (List.mem_cons.mpr hor)
    exact (hdid.find k).trans ((if_neg hne).trans (hl.same k hk))

theorem enter_first {key value : Bytes} {mem : Malloc}
    (hl : Linearized h₀ h (⟨.insertEx key value, mem, .located⟩ :: rest) hist q)
    (hkey : key ∉ rest.filterMap HashThread.unlinkedKey) :
    ∃ hist' q', Linearized h₀ (insertFirst h key value).2 (⟨.insertEx key value, mem,
      (insertFirst h key value).1.elim
        (.unlinked (h.bytesUsed - (insertFirst h key value).2.bytesUsed)) .returned⟩ :: rest)
      hist' q' := by
  cases hf : hashFindEx h key with
  | some d =>
    by_cases hu : d.reuses value.length = true
    · have hcall : (HashOp.insertEx key value).run mem h = (0, h.setValue key value) := by
        simp only [HashOp.run, hashInsertEx, hf, if_pos hu]
      have hfirst : insertFirst h key value = (some 0, h.setValue key value) := by
        simp only [insertFirst, hf, if_pos hu]
      have honly := hl.enter_only hkey (by
        simp only [HashOp.onNode, HashOp.key, insertOnNode, hf, if_pos hu])
      rw [hcall] at honly
      rw [hfirst]
      exact honly
    · have hfirst : insertFirst h key value = (none, h.deleteFromBucket d) := by
        simp only [insertFirst, hf, if_neg hu]
      have hfreed : h.bytesUsed - (h.deleteFromBucket d).bytesUsed = d.mallocBytes := by
        change h.bytesUsed - (h.bytesUsed - d.mallocBytes) = _
        omega
      rw [hfirst]
      dsimp only [Option.elim]
      rw [hfreed]
      refine ⟨hist, q, hl.unlink hkey (deleteFromBucket_did hl.locked hf 0) fun maxBytes used => ?_⟩
      rw [hf, insertOnNode, if_neg hu]
  | none =>
    have hfirst : insertFirst h key value = (none, h) := by simp only [insertFirst, hf]
    rw [hfirst]
    dsimp only [Option.elim]
    rw [Int.sub_self]
    refine ⟨hist, q, hl.unlink hkey (.same hl.locked hf.symm (Int.sub_zero _)) fun maxBytes used => ?_⟩
    rw [hf, Int.sub_zero]
    rfl

theorem enter_second {key value : Bytes} {mem : Malloc} {freed : Int}
    (hl : Linearized h₀ h (⟨.insertEx key value, mem, .unlinked freed⟩ :: rest) hist q)
    (hguard : (linkNode mem h.maxBytes (h.bytesUsed + freedBytes rest) key value).status =
      (linkNode mem h.maxBytes h.bytesUsed key value).status) :
    ∃ hist' q', Linearized h₀ (insertNode mem h key value).2
      (⟨.insertEx key value, mem, .returned (insertNode mem h key value).1⟩ :: rest) hist' q' := by
  obtain ⟨_, _, hop, hnone, hlink⟩ := hl.gone _ List.mem_cons_self freed rfl
  obtain ⟨rfl, rfl⟩ := HashOp.insertEx.inj hop
  have hused : q.bytesUsed - freed = h.bytesUsed + freedBytes rest := by
    have hb := hl.bytesUsed
    change q.bytesUsed = h.bytesUsed + (freed + freedBytes rest) at hb
    omega
  have hkey : key ∉ rest.filterMap HashThread.unlinkedKey := (List.nodup_cons.mp hl.distinct).1
  -- in the order the key still has its old node, whose bytes are taken off before the test
  have hnode : (HashOp.insertEx key value).onNode mem q.maxBytes q.bytesUsed (hashFindEx q key) =
      linkNode mem h.maxBytes (h.bytesUsed + freedBytes rest) key value := by
    rw [← hl.maxBytes, ← hused]
    exact hlink q.maxBytes q.bytesUsed
  have hstatus : ((HashOp.insertEx key value).run mem q).1 = (insertNode mem h key value).1 := by
    rw [HashOp.run_status mem q rfl, insertNode_status]
    exact (congrArg NodeResult.status hnode).trans hguard
  have hshift : (linkNode mem h.maxBytes h.bytesUsed key value).Shifted
      ((HashOp.insertEx key value).onNode mem q.maxBytes q.bytesUsed (hashFindEx q key))
      (freedBytes rest) := by
    rw [hnode]
    exact linkNode_shifted (NodeResult.toStatus_congr hguard)
  have hdid : h.Did key (insertNode mem h key value).2
      (linkNode mem h.maxBytes h.bytesUsed key value) := insertNode_did hl.locked hnone
  have hret := hl.ret rfl hkey hdid hshift
  rw [← hstatus]
  exact ⟨_, hret⟩

theorem enter (hl : Linearized h₀ h (t :: rest) hist q)
    (hfree : ∀ t' ∈ rest, t'.unlinkedKey ≠ some t.op.key)
    (hguard : (t.enter { h with bytesUsed := h.bytesUsed + freedBytes rest }).map Prod.fst =
      (t.enter h).map Prod.fst) {phase : CallPhase} (henter : t.enter h = some (phase, h')) :
    ∃ hist' q', Linearized h₀ h' ({ t with phase := phase } :: rest) hist' q' := by
  have hkey : t.op.key ∉ rest.filterMap HashThread.unlinkedKey := by
    intro hmem
    obtain ⟨t', ht', hk⟩ := List.mem_filterMap.mp hmem
    exact hfree t' ht' hk
  have hop := hl.noClear _ List.mem_cons_self
  obtain ⟨op, mem, phase₀⟩ := t
  -- a section that returns has the same status with the freed bytes in use
  have hone : ∀ {p p' : Int × HashArray}, some (CallPhase.returned p.1) =
      some (CallPhase.returned p'.1) → p.1 = p'.1 :=
    fun h => CallPhase.returned.inj (Option.some.inj h)
  cases phase₀ with
  | returned status => cases henter
  | located =>
    have hsingle : ∀ (hs : (op.run mem { h with bytesUsed := h.bytesUsed + freedBytes rest }).1 =
        (op.run mem h).1), ∃ hist' q', Linearized h₀ (op.run mem h).2
          (⟨op, mem, .returned (op.run mem h).1⟩ :: rest) hist' q' := by
      intro hs
      rw [HashOp.run_status mem _ hop, HashOp.run_status mem h hop] at hs
      exact hl.enter_only hkey hs
    cases op with
    | insertEx key value =>
      obtain ⟨rfl, rfl⟩ := Prod.mk.inj (Option.some.inj henter)
      exact hl.enter_first hkey
    | incEx key inc valueLen convert =>
      obtain ⟨rfl, rfl⟩ := Prod.mk.inj (Option.some.inj henter)
      exact hsingle (hone hguard)
    | partialSet key value offset =>
      obtain ⟨rfl, rfl⟩ := Prod.mk.inj (Option.some.inj henter)
      exact hsingle (hone hguard)
    | delete key =>
      obtain ⟨rfl, rfl⟩ := Prod.mk.inj (Option.some.inj henter)
      exact hsingle (hone hguard)
    | clear currentTime tail => cases hop
  | unlinked freed =>
    obtain ⟨key, value, rfl, -⟩ := hl.gone _ List.mem_cons_self freed rfl
    obtain ⟨rfl, rfl⟩ := Prod.mk.inj (Option.some.inj henter)
    have hs := hone hguard
    rw [insertNode_status, insertNode_status] at hs
    exact hl.enter_second hs

end Sections

end Linearized

/-- One event of a guarded run. -/
theorem HashThreads.step_linearized {h₀ : HashArray} {s s' : HashThreads} {e : LockEvent}
    (hl : ∃ hist q, Linearized h₀ s.table s.threads hist q) (hok : s.Guarded e)
    (hs : s.step e = some s') : ∃ hist q, Linearized h₀ s'.table s'.threads hist q := by
  obtain ⟨hist, q, hl⟩ := hl
  cases e with
  | call op mem =>
    simp only [HashThreads.step] at hs
    split_ifs at hs with hop
    obtain rfl := Option.some.inj hs
    exact ⟨hist, q, (hl.call (Bool.eq_false_iff.mpr hop) mem).perm
      (List.perm_append_singleton _ _).symm⟩
  | enter i =>
    simp only [HashThreads.step] at hs
    cases hget : s.threads[i]? with
    | none => simp [hget] at hs
    | some t =>
      rw [hget] at hs
      obtain ⟨⟨phase, h'⟩, henter, rfl⟩ := Option.map_eq_some_iff.mp hs
      obtain ⟨hi, rfl⟩ := List.getElem?_eq_some_iff.mp hget
      obtain ⟨hfree, hguard⟩ := hok _ hget
      obtain ⟨hist', q', hl'⟩ := (hl.perm (List.getElem_cons_eraseIdx_perm hi).symm).enter hfree
        hguard henter
      exact ⟨hist', q', hl'.perm (List.set_perm_cons_eraseIdx hi _).symm⟩

/-- A table of one bucket with locks and a cache of 1 MB that holds the key `a`. -/
def lockedTable : HashArray :=
  (hashInsertEx allocates ⟨[[]], fun _ => 0, 0, 0, fun _ _ => false, 1048576, 8⟩ [97] [120]).2

theorem lockedTable_locked : lockedTable.Locked :=
  (hashInsertEx_did ⟨(hashInitEx_inv (show hashInitEx allocates (fun _ => 0) 0 (fun _ _ => false)
    1048576 = .ok ⟨[[]], fun _ => 0, 0, 0, fun _ _ => false, 1048576, 8⟩ from rfl)).1, by decide,
    fun _ _ => rfl⟩ allocates [97] [120]).locked

end FastDht
