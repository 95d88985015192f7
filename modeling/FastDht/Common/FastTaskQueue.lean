import FastDht.Common.SharedFunc

/-! # The queue of free tasks: common/fast_task_queue.c

All tasks are made at start-up. Where the buffers of the largest size that a task
starts with are enough and fit the data limit, they lie in the block of their tasks;
otherwise each has a `malloc` of its own. A task that comes back with a larger
buffer gets a new one. -/

namespace FastDht

/-- `MEM_ALIGN` of an `int`. -/
def memAlignInt (x : Int) : Int := toInt32 ((x + 7) / 8 * 8)

/-- `ALIGNED_TASK_INFO_SIZE` on an LP64 machine. -/
def alignedTaskInfoSize : Int := 128

/-- The arguments of `free_queue_init`, as the start-up checks them, and
`max_data_size`: the limit of the data segment, at most 256 MB. -/
structure FreeQueueConfig where
  maxConnections : Int
  minBuffSize : Int
  maxBuffSize : Int
  argSize : Int
  maxDataSize : Nat
  connections_pos : 0 < maxConnections
  minBuffSize_ge : 1024 ≤ minBuffSize
  minBuffSize_lt : minBuffSize < 2 ^ 31

namespace FreeQueueConfig

/-- `g_free_queue.min_buff_size`. -/
def alignedMinSize (c : FreeQueueConfig) : Int := memAlignInt c.minBuffSize

def blockSize (c : FreeQueueConfig) : Int := toInt32 (alignedTaskInfoSize + memAlignInt c.argSize)

/-- `g_free_queue.malloc_whole_block`. The limit is unsigned, so the product is
taken to `uint64_t`. -/
def mallocWholeBlock (c : FreeQueueConfig) : Bool :=
  memAlignInt c.maxBuffSize ≤ c.alignedMinSize &&
    toInt32 (c.blockSize + c.alignedMinSize) * c.maxConnections % 2 ^ 64 ≤ c.maxDataSize

end FreeQueueConfig

inductive BuffOrigin
  | ownMalloc
  | blockSlice
  deriving DecidableEq, Repr

/-- `pTask->data` with `pTask->size`. -/
structure TaskBuff where
  size : Int
  origin : BuffOrigin
  deriving DecidableEq, Repr

/-- The buffers that `free_queue_init` makes; there is no memory for a negative
size. -/
def freeQueueInit (c : FreeQueueConfig) : Option (List TaskBuff) :=
  if c.alignedMinSize < 0 then none
  else some (List.replicate c.maxConnections.toNat
    ⟨c.alignedMinSize, if c.mallocWholeBlock then .blockSlice else .ownMalloc⟩)

theorem freeQueueInit_some {c : FreeQueueConfig} {bs : List TaskBuff}
    (h : freeQueueInit c = some bs) : 1024 ≤ c.alignedMinSize ∧ ∃ rest,
      bs = ⟨c.alignedMinSize, if c.mallocWholeBlock then .blockSlice else .ownMalloc⟩ :: rest := by
  unfold freeQueueInit at h
  split at h
  · cases h
  · rename_i hneg
    obtain rfl := Option.some.inj h
    refine ⟨?_, ?_⟩
    · have hge := c.minBuffSize_ge
      have hlt := c.minBuffSize_lt
      unfold FreeQueueConfig.alignedMinSize memAlignInt at hneg ⊢
      obtain ⟨hl, hu, q, hq⟩ := toInt32_spec ((c.minBuffSize + 7) / 8 * 8)
      omega
    · obtain ⟨k, hk⟩ : ∃ k, c.maxConnections.toNat = k + 1 :=
        ⟨c.maxConnections.toNat - 1, by have := c.connections_pos; omega⟩
      exact ⟨_, by rw [hk, List.replicate_succ]⟩

/-- `free_queue_push`: whether the old buffer is freed, and the buffer of the task. -/
def freeQueuePush (c : FreeQueueConfig) (mallocOk : Bool) (b : TaskBuff) : Bool × TaskBuff :=
  if c.alignedMinSize < b.size ∧ mallocOk = true then (true, ⟨c.alignedMinSize, .ownMalloc⟩)
  else (false, b)

end FastDht
