import FastDht.Client.InStep

/-! # How often an increment is applied

`fdht_inc_ex` tries again when an attempt has ended with `ENOTCONN`. A connection that the
server closes gives this result whether or not the request has been carried out before. -/
namespace FastDht
open Lib

inductive IncAttempt
  /-- `get_connection` reaches no server of the group. -/
  | refused (errno : Int)
  /-- The request could not be handed over completely. -/
  | unsent (errno : Int)
  /-- The request is lost, and the connection ends. -/
  | lost (ending : Int)
  /-- A server carries the request out or refuses it, and the first bytes of its response
  arrive; what follows them is `ending`. -/
  | handled (response : Response) (arrived : Nat) (ending : Int)

namespace IncAttempt

def applied : IncAttempt → Bool
  | handled response _ _ => response.status = 0
  | _ => false

/-- What TCP and the server allow: an error has a number, and a response is well formed. -/
def Consistent : IncAttempt → Prop
  | refused errno | unsent errno => errno ≠ 0
  | lost ending => ending ≠ 0
  | handled response _ ending => ending ≠ 0 ∧
      (response.status ≠ 0 → response.body = []) ∧
      (response.status = 0 → ∃ value : Bytes, response.body = int2buff value.length ++ value)

/-- A server has added, and the client finds the end of the stream where it reads the
response. A body that is too long it would not read at all. -/
def Unanswered : IncAttempt → Prop
  | handled response arrived ending => response.status = 0 ∧ ending = ENOTCONN ∧
      (arrived < sizeofHeader ∨
        arrived < response.bytes.length ∧ response.body.length ≤ incBuff)
  | _ => False

def result (valueLen : Int) : IncAttempt → Int
  | refused errno | unsent errno => errno
  | lost ending => (outcome (incExResponse valueLen) ⟨[], ending⟩).1
  | handled response arrived ending =>
    (outcome (incExResponse valueLen) ⟨response.bytes.take arrived, ending⟩).1

/-- The call goes on after `ENOTCONN` from a connection it had. -/
def retried (keepAlive : Bool) (valueLen : Int) : IncAttempt → Bool
  | refused _ => false
  | a => keepAlive && a.result valueLen = ENOTCONN

end IncAttempt

/-- The loop of `fdht_inc_ex`: its result, and how many increments the servers have
applied. -/
def incLoop (keepAlive : Bool) (valueLen : Int) (attempts : Nat → IncAttempt) :
    Nat → Nat → Int → Int × Nat
  | 0, _, result => (result, 0)
  | n + 1, i, _ =>
    let applied := if (attempts i).applied then 1 else 0
    if (attempts i).retried keepAlive valueLen then
      let rest := incLoop keepAlive valueLen attempts n (i + 1) ((attempts i).result valueLen)
      (rest.1, applied + rest.2)
    else ((attempts i).result valueLen, applied)

/-- `fdht_inc_ex` on a group of `count` servers. -/
def fdhtIncExCall (keepAlive : Bool) (valueLen : Int) (count : Nat) (attempts : Nat → IncAttempt) :
    Int × Nat :=
  incLoop keepAlive valueLen attempts (count + 1) 0 ENOENT

/-- At most one increment is applied, and exactly one if the call returns 0. -/
def Once (r : Int × Nat) : Prop := r.2 ≤ 1 ∧ (r.1 = 0 → r.2 = 1)

/-! ## One attempt -/

section Responses

variable {r : Response} {ending valueLen : Int} {arrived : Nat}

theorem incExResponse_error {s : Incoming} {result : Int} (s' : Incoming)
    (h : fdhtRecvResponse (some incBuff) false s = .error result s') :
    (outcome (incExResponse valueLen) s).1 = result := by
  unfold incExResponse
  rw [outcome_bind_error h]

theorem incExResponse_short {bytes : Bytes} (h : bytes.length < sizeofHeader) :
    (outcome (incExResponse valueLen) ⟨bytes, ending⟩).1 = ending := by
  have hread : tcprecvdataNb sizeofHeader ⟨bytes, ending⟩ = .error ending ⟨[], ending⟩ :=
    if_neg (not_le.mpr h)
  exact incExResponse_error _ (bind_error (bind_error hread))

theorem incExResponse_refused (h : r.status ≠ 0) (rest : Bytes) :
    (outcome (incExResponse valueLen) ⟨r.header ++ rest, ending⟩).1 = r.status := by
  have hheader := recvHeader_header r rest ending
  rw [if_neg h] at hheader
  exact incExResponse_error _ (bind_error hheader)

/-- A body that would fit is not there: the call ends with what follows. -/
theorem incExResponse_cut (h : r.status = 0) {rest : Bytes} (hrest : rest.length < r.body.length)
    (hroom : r.body.length ≤ incBuff) :
    (outcome (incExResponse valueLen) ⟨r.header ++ rest, ending⟩).1 = ending := by
  have hheader := recvHeader_header r rest ending
  rw [if_pos h] at hheader
  refine incExResponse_error ⟨[], ending⟩ ?_
  unfold fdhtRecvResponse
  rw [bind_ok hheader, if_neg (by omega)]
  dsimp only
  rw [if_neg (by omega), Int.toNat_natCast]
  exact if_neg (not_le.mpr hrest)

theorem incExResponse_long (h : r.status = 0) (rest : Bytes) (hroom : incBuff < r.body.length) :
    (outcome (incExResponse valueLen) ⟨r.header ++ rest, ending⟩).1 = ENOSPC := by
  have hheader := recvHeader_header r rest ending
  rw [if_pos h] at hheader
  refine incExResponse_error ⟨rest, ending⟩ ?_
  unfold fdhtRecvResponse
  rw [bind_ok hheader, if_neg (by omega)]
  dsimp only
  rw [if_pos (by omega)]
  rfl

theorem Response.bytes_take (r : Response) (h : sizeofHeader ≤ arrived) :
    r.bytes.take arrived = r.header ++ r.body.take (arrived - sizeofHeader) := by
  have hlen := r.header_length
  rw [Response.bytes, List.take_append, List.take_of_length_le (by omega), hlen]

theorem Response.bytes_length (r : Response) : r.bytes.length = sizeofHeader + r.body.length := by
  rw [Response.bytes, List.length_append, r.header_length]

end Responses

namespace IncAttempt

variable {a : IncAttempt} {valueLen : Int} {keepAlive : Bool}

theorem applied_of_result (hc : a.Consistent) (h : a.result valueLen = 0) : a.applied = true := by
  cases a with
  | refused errno => exact absurd h hc
  | unsent errno => exact absurd h hc
  | lost ending => exact absurd ((incExResponse_short (by decide)).symm.trans h) hc
  | handled r arrived ending =>
    refine decide_eq_true ?_
    by_contra hstatus
    unfold result at h
    dsimp only at h
    by_cases hshort : arrived < sizeofHeader
    · rw [incExResponse_short ((List.length_take_le _ _).trans_lt hshort)] at h
      exact hc.1 h
    · rw [r.bytes_take (not_lt.mp hshort), incExResponse_refused hstatus] at h
      exact hstatus h

/-- **An increment that was applied gives `ENOTCONN` exactly if it is unanswered.** -/
theorem result_notconn_iff (ha : a.applied = true) :
    a.result valueLen = ENOTCONN ↔ a.Unanswered := by
  cases a with
  | refused errno => exact absurd ha Bool.false_ne_true
  | unsent errno => exact absurd ha Bool.false_ne_true
  | lost ending => exact absurd ha Bool.false_ne_true
  | handled r arrived ending =>
    have hstatus : r.status = 0 := of_decide_eq_true ha
    unfold result Unanswered
    dsimp only
    rw [r.bytes_length]
    by_cases hshort : arrived < sizeofHeader
    · rw [incExResponse_short ((List.length_take_le _ _).trans_lt hshort)]
      exact ⟨fun h => ⟨hstatus, h, .inl hshort⟩, fun h => h.2.1⟩
    · rw [r.bytes_take (not_lt.mp hshort)]
      have hlen := List.length_take (i := arrived - sizeofHeader) (l := r.body)
      by_cases hroom : r.body.length ≤ incBuff
      · by_cases hall : arrived < sizeofHeader + r.body.length
        · rw [incExResponse_cut hstatus (by omega) hroom]
          exact ⟨fun h => ⟨hstatus, h, .inr ⟨hall, hroom⟩⟩, fun h => h.2.1⟩
        · -- the whole response is there
          have hleft : (outcome (incExResponse valueLen) ⟨r.bytes, ending⟩).1 < ENETDOWN :=
            (incExResponse_left hstatus valueLen).1
          rw [List.take_of_length_le (by omega), ← Response.bytes]
          refine iff_of_false (fun h => ?_) fun h => ?_
          · exact absurd (h ▸ hleft) (by decide)
          · rcases h.2.2 with h | h
            · exact hshort h
            · exact hall h.1
      · rw [incExResponse_long hstatus _ (not_le.mp hroom)]
        refine iff_of_false (by decide) fun h => ?_
        rcases h.2.2 with h | h
        · exact hshort h
        · exact hroom h.2

theorem retried_of_unanswered (valueLen : Int) (h : a.Unanswered) : a.applied = true ∧
    a.retried true valueLen = true := by
  cases a with
  | refused errno => exact h.elim
  | unsent errno => exact h.elim
  | lost ending => exact h.elim
  | handled r arrived ending =>
    have ha : (handled r arrived ending).applied = true := decide_eq_true h.1
    exact ⟨ha, decide_eq_true ((result_notconn_iff ha).mpr h)⟩

theorem result_of_retried (h : a.retried keepAlive valueLen = true) :
    keepAlive = true ∧ a.result valueLen = ENOTCONN := by
  cases a with
  | refused errno => exact absurd h Bool.false_ne_true
  | unsent errno => exact (Bool.and_eq_true_iff.mp h).imp_right of_decide_eq_true
  | lost ending => exact (Bool.and_eq_true_iff.mp h).imp_right of_decide_eq_true
  | handled r arrived ending => exact (Bool.and_eq_true_iff.mp h).imp_right of_decide_eq_true

end IncAttempt

/-! ## The call -/

section Calls

variable {keepAlive : Bool} {valueLen : Int} {attempts : Nat → IncAttempt}

/-- As long as no attempt is applied and unanswered, only the last attempt can be
applied. -/
theorem incLoop_once (hc : ∀ i, (attempts i).Consistent)
    (hsafe : keepAlive = true → ∀ i, ¬ (attempts i).Unanswered) (n i : Nat) {result : Int}
    (hresult : result ≠ 0) : Once (incLoop keepAlive valueLen attempts n i result) := by
  induction n generalizing i result with
  | zero => exact ⟨Nat.zero_le 1, fun h => absurd h hresult⟩
  | succ n ih =>
    unfold incLoop
    dsimp only
    by_cases hretried : (attempts i).retried keepAlive valueLen = true
    · obtain ⟨hkeep, hnotconn⟩ := IncAttempt.result_of_retried hretried
      have hnot : ¬ (attempts i).applied = true := fun ha =>
        hsafe hkeep i ((IncAttempt.result_notconn_iff ha).mp hnotconn)
      rw [if_pos hretried, if_neg hnot, Nat.zero_add]
      exact ih (i + 1) (by rw [hnotconn]; decide)
    · rw [if_neg hretried]
      refine ⟨?_, fun h => ?_⟩
      · split_ifs
        · exact le_refl 1
        · exact Nat.zero_le 1
      · rw [if_pos (IncAttempt.applied_of_result (hc i) h)]

theorem incLoop_count {a : IncAttempt} (h : a.Unanswered) (n i : Nat) (result : Int) :
    (incLoop true valueLen (fun _ => a) n i result).2 = n := by
  obtain ⟨ha, hretried⟩ := IncAttempt.retried_of_unanswered valueLen h
  induction n generalizing i result with
  | zero => rfl
  | succ n ih =>
    unfold incLoop
    rw [if_pos hretried, if_pos ha]
    dsimp only
    rw [ih, Nat.add_comm]

/-- **Increments are applied at most once exactly if no increment that was applied can be
followed by the end of its connection**, before the response is complete. `allowed` are the
attempts that can happen. -/
theorem inc_once_iff (keepAlive : Bool) (valueLen : Int) {count : Nat} (hcount : 0 < count)
    (allowed : IncAttempt → Prop) (hallowed : ∀ a, allowed a → a.Consistent) :
    (∀ attempts : Nat → IncAttempt, (∀ i, allowed (attempts i)) →
      Once (fdhtIncExCall keepAlive valueLen count attempts)) ↔
    (keepAlive = true → ∀ a, allowed a → ¬ a.Unanswered) := by
  constructor
  · rintro honce rfl a ha hunanswered
    have htwice := (honce (fun _ => a) fun _ => ha).1
    unfold fdhtIncExCall at htwice
    rw [incLoop_count hunanswered] at htwice
    omega
  · intro hsafe attempts hattempts
    exact incLoop_once (fun i => hallowed _ (hattempts i))
      (fun hkeep i => hsafe hkeep _ (hattempts i)) (count + 1) 0 (by decide)

/-! Over a connection of a lone server: the first response is lost when the server closes the
connection, the second arrives. -/

def incResponse : Response :=
  ⟨0, List.replicate 14 0, int2buff 1 ++ [49], fitsByte_zero, blankFields_length, by decide⟩

/-- The server adds, and all but the first `arrived` bytes of its response are lost. -/
def cutOff (arrived : Nat) : IncAttempt := .handled incResponse arrived ENOTCONN

theorem cutOff_consistent (arrived : Nat) : (cutOff arrived).Consistent :=
  ⟨by decide, fun h => absurd rfl h, fun _ => ⟨[49], rfl⟩⟩

theorem inc_once_complete : Once (fdhtIncExCall true 8 1 fun _ => cutOff 24) := by
  refine (inc_once_iff true 8 Nat.one_pos (· = cutOff 24) ?_).mpr ?_ _ fun _ => rfl
  · rintro a rfl
    exact cutOff_consistent 24
  · rintro - a rfl h
    exact absurd h.2.2 (by decide)

theorem inc_applied_twice : ∃ attempts : Nat → IncAttempt, (∀ i, (attempts i).Consistent) ∧
    fdhtIncExCall true 8 1 attempts = (0, 2) := by
  refine ⟨fun i => cutOff (if i = 0 then 0 else 24), fun i => cutOff_consistent _, rfl⟩

end Calls

end FastDht
