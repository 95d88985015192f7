import FastDht.Common.Types
import FastDht.Lib.LinkedLists

/-! # The time wheel: common/fast_timer.c

An entry waits in the slot of its expiry. Each slot is a doubly linked list through the
entries, behind a list head that is part of the slot. A later expiry is only written
into the entry; it is moved, if it has to be, when its slot is next visited. -/
namespace FastDht
open Lib

/-- The list heads: those of the slots, and the one that the caller of
`fast_timer_timeouts_get` has for the result. -/
inductive TimerHead
  | result
  | slot (i : Int)
  deriving DecidableEq

/-- `FastTimer` with the memory of all entries: their pointers and those of the list
heads, `expires` and `rehash`. -/
structure FastTimer (ε : Type) where
  slotCount : Int
  baseTime : Int
  currentTime : Int
  links : Links TimerHead ε
  expires : ε → Int
  rehash : ε → Bool

namespace FastTimer

variable {ε : Type} [DecidableEq ε]

/-- `fast_timer_init`; `memory` says whether there is memory for the slots. -/
def fastTimerInit (t : FastTimer ε) (slotCount currentTime : Int) (memory : Bool) :
    Int × FastTimer ε :=
  if slotCount ≤ 0 ∨ currentTime ≤ 0 then (EINVAL, t)
  else
    let t := { t with slotCount, baseTime := currentTime, currentTime }
    if memory then
      let next : Link TimerHead ε → Option ε
        | .anchor (.slot _) => none
        | q => t.links.next q
      (0, { t with links := { t.links with next } })
    else (ENOMEM, t)

/-- `TIMER_GET_SLOT_INDEX`. -/
def slotIndex (t : FastTimer ε) (expires : Int) : Int :=
  (expires - t.baseTime).tmod t.slotCount

/-- `TIMER_GET_SLOT_POINTER`. -/
def slotPointer (t : FastTimer ε) (expires : Int) : Link TimerHead ε :=
  .anchor (.slot (t.slotIndex expires))

/-- `fast_timer_add`, which always returns 0. -/
def fastTimerAdd (t : FastTimer ε) (entry : ε) : FastTimer ε :=
  let slot := t.slotPointer
    (if t.expires entry > t.currentTime then t.expires entry else t.currentTime)
  { t with links := t.links.push slot entry }

def fastTimerRemove (t : FastTimer ε) (entry : ε) : Int × FastTimer ε :=
  match t.links.prev entry with
  | none => (ENOENT, t)
  | some _ => (0, { t with links := t.links.unlink entry })

def setExpires (t : FastTimer ε) (entry : ε) (expires : Int) : FastTimer ε :=
  { t with expires := Function.update t.expires entry expires }

def setRehash (t : FastTimer ε) (entry : ε) (rehash : Bool) : FastTimer ε :=
  { t with rehash := Function.update t.rehash entry rehash }

/-- `fast_timer_modify`, which always returns 0. -/
def fastTimerModify (t : FastTimer ε) (entry : ε) (newExpires : Int) : FastTimer ε :=
  if newExpires = t.expires entry then t
  else if newExpires < t.expires entry then
    ((t.fastTimerRemove entry).2.setExpires entry newExpires).fastTimerAdd entry
  else
    (t.setRehash entry (t.slotIndex newExpires != t.slotIndex (t.expires entry))).setExpires
      entry newExpires

/-- The variables of `fast_timer_timeouts_get`. -/
structure Timeouts (ε : Type) where
  timer : FastTimer ε
  entry : Option ε
  first : Option ε
  last : Option ε
  tail : Link TimerHead ε
  count : Int

namespace Timeouts

/-- The expired entries from `first` to `last` go to the end of the result; the slot
continues with `entry`. -/
def flush (s : Timeouts ε) (entry : Option ε) : Option (Timeouts ε) :=
  match s.first with
  | none => some s
  | some first =>
    match s.timer.links.prev first, s.last with
    | some p, some last =>
      let links := s.timer.links.splice p first entry s.tail
      some { s with timer := { s.timer with links }, tail := .entry last, first := none }
    -- a NULL pointer would be followed
    | _, _ => none

def advance (s : Timeouts ε) (entry : ε) : Timeouts ε :=
  { s with last := some entry, entry := s.timer.links.next (.entry entry) }

def visit (currentTime : Int) (s : Timeouts ε) (entry : ε) : Option (Timeouts ε) :=
  if s.timer.expires entry ≥ currentTime then
    (s.flush (some entry)).map fun s =>
      let s := s.advance entry
      if s.timer.rehash entry then
        let timer := s.timer.setRehash entry false
        { s with timer := (timer.fastTimerRemove entry).2.fastTimerAdd entry }
      else s
  else
    let first := s.first.or (some entry)
    some ({ s with count := s.count + 1, first }.advance entry)

/-- The inner loop, over the entries of one slot. -/
def slotLoop (currentTime : Int) : Nat → Timeouts ε → Option (Timeouts ε)
  | 0, _ => none
  | fuel + 1, s =>
    match s.entry with
    | none => some s
    | some entry => (s.visit currentTime entry).bind (slotLoop currentTime fuel)

/-- `slot = TIMER_GET_SLOT_POINTER(timer, timer->current_time++)` with the first entry. -/
def openSlot (s : Timeouts ε) : Timeouts ε :=
  let entry := s.timer.links.next (s.timer.slotPointer s.timer.currentTime)
  { s with entry, timer := { s.timer with currentTime := s.timer.currentTime + 1 } }

/-- The outer loop; `fuel` bounds its turns, and those of each inner loop. -/
def timeLoop (fuel : Nat) (currentTime : Int) : Nat → Timeouts ε → Option (Timeouts ε)
  | 0, _ => none
  | turns + 1, s =>
    if s.timer.currentTime < currentTime then
      ((s.openSlot.slotLoop currentTime fuel).bind (·.flush none)).bind
        (timeLoop fuel currentTime turns)
    else some s

end Timeouts

/-- `fast_timer_timeouts_get`: the number of entries in the result, whose first is the
next of `head`. -/
def fastTimerTimeoutsGet (t : FastTimer ε) (currentTime : Int) (fuel : Nat) :
    Option (Int × FastTimer ε) :=
  let t := { t with links := t.links.setNext (.anchor .result) none }
  if t.currentTime ≥ currentTime then some (0, t)
  else
    let s : Timeouts ε := ⟨t, none, none, none, .anchor .result, 0⟩
    (s.timeLoop fuel currentTime fuel).map fun s =>
      if s.count > 0 then
        (s.count, { s.timer with links := s.timer.links.setNext s.tail none })
      else (s.count, s.timer)

end FastTimer

end FastDht
