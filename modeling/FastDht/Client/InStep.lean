import FastDht.Client.Connections

/-! # Calls on one connection

With `bKeepAlive` a call closes its connection only if its result is a network error. All
other results leave it open for the next call, also those that a function returns before it
has read the body of its response. -/
namespace FastDht
open Lib

/-- A call with what its caller has brought for the answer: a pointer that may be `NULL`, and
`*value_len` or `key_size`. -/
structure BufferedCall where
  call : ClientCall
  isNull : Bool
  size : Int

/-- What the server and the allocator do for one attempt of a call. -/
structure Attempt where
  response : Response
  malloc : Bool

namespace BufferedCall

variable (c : BufferedCall)

def buffer : Option Int := if c.isNull then none else some c.size

/-- The call after its request has been sent. The buffers of the pairs of BATCH_GET decide
only over the statuses of the pairs. -/
def receive (malloc : Bool) : Incoming → Int × Incoming :=
  match c.call with
  | .get _ _ => outcome (getEx1Response c.buffer malloc)
  | .set _ _ _ | .delete _ => outcome emptyResponse
  | .inc _ _ _ => outcome (incExResponse c.size)
  | .batchSet _ keyList _ => outcome (statusesResponse (keyList.map Prod.fst))
  | .batchGet _ keyList _ => outcome (batchGetEx1Response (keyList.map fun _ => none) malloc)
  | .batchDelete _ keyList => outcome (statusesResponse keyList)
  | .getSubKeys _ => outcome (getSubKeysExResponse c.buffer malloc)

/-- `fdht_batch_set_ex` allocates the buffer of a long request. -/
def allocates : Bool :=
  match c.call with
  | .batchSet o keyList _ =>
    let pkgTotalLen := toInt32 (batchSetLen o keyList)
    pkgTotalLen < 0 || batchSetBuff < pkgTotalLen
  | _ => false

/-- One attempt on a connection with unread bytes, or on a new one: the request is sent, the
server answers, and the response is read from behind the unread bytes. -/
def attempt (a : Attempt) (conn : Option Bytes) : Int × Option Bytes :=
  let r := c.receive a.malloc ⟨conn.getD [] ++ a.response.bytes, ETIMEDOUT⟩
  (r.1, if ENETDOWN ≤ r.1 then none else some r.2.bytes)

/-- The loop over the attempts: `ENOTCONN` is tried again. -/
def retry (attempts : Nat → Attempt) : Nat → Nat → Int → Option Bytes → Int × Option Bytes
  | 0, _, result, conn => (result, conn)
  | n + 1, i, _, conn =>
    if c.allocates && !(attempts i).malloc then (ENOMEM, some (conn.getD []))
    else
      let r := c.attempt (attempts i) conn
      if r.1 = ENOTCONN then retry attempts n (i + 1) r.1 r.2 else r

/-- A call with `bKeepAlive` to a group of `count` servers. -/
def run (count : Nat) (attempts : Nat → Attempt) (conn : Option Bytes) : Int × Option Bytes :=
  if c.call.accepted = false then (EINVAL, conn)
  else c.retry attempts (count + 1) 0 ENOENT conn

/-- The buffers are large enough for a successful response, and what has to be allocated can
be. -/
def Takes (a : Attempt) : Prop :=
  a.response.status = 0 →
    match c.call with
    | .get _ _ => a.response.body.length = 4 ∨
        if c.isNull then a.malloc = true else a.response.body.length < c.size + 4
    | .inc _ _ _ => a.response.body.length ≤ incBuff
    | .batchGet _ _ _ => 17 ≤ a.response.body.length ∧
        (a.response.body.length ≤ batchGetBuff ∨ a.malloc = true)
    | .getSubKeys _ => a.response.body = [] ∨
        if c.isNull then a.malloc = true else a.response.body.length < c.size
    | _ => True

end BufferedCall

/-- The connection is closed, or nothing on it is unread. -/
def InStep (conn : Option Bytes) : Prop := ∀ bytes, conn = some bytes → bytes = []

theorem InStep.getD {conn : Option Bytes} (h : InStep conn) : conn.getD [] = [] := by
  cases conn with
  | none => rfl
  | some bytes => exact h bytes rfl

theorem inStep_none : InStep none := fun _ h => nomatch h

theorem inStep_some {bytes : Bytes} : InStep (some bytes) ↔ bytes = [] :=
  ⟨fun h => h bytes rfl, fun h _ hsome => (Option.some.inj hsome) ▸ h⟩

/-! ## One response -/

section Responses

variable {r : Response} {ending : Int}

theorem outcome_failed {α : Type} {f : Int → Receive α} (h : r.status ≠ 0) :
    outcome (recvHeader >>= f) ⟨r.bytes, ending⟩ = (r.status, ⟨r.body, ending⟩) := by
  have hheader := recvHeader_header r r.body ending
  rw [if_neg h] at hheader
  exact outcome_bind_error hheader

theorem outcome_succeeded {α : Type} {f : Int → Receive α} (h : r.status = 0) :
    outcome (recvHeader >>= f) ⟨r.bytes, ending⟩ = outcome (f r.body.length) ⟨r.body, ending⟩ := by
  have hheader := recvHeader_header r r.body ending
  rw [if_pos h] at hheader
  exact outcome_bind_ok hheader

/-- A function has ended without a network error, and has read all there was exactly if
`taken`. -/
def Left (o : Int × Incoming) (taken : Prop) : Prop :=
  o.1 < ENETDOWN ∧ (o.2.bytes = [] ↔ taken)

theorem local_results :
    0 < ENETDOWN ∧ EINVAL < ENETDOWN ∧ ENOSPC < ENETDOWN ∧ ENOMEM < ENETDOWN := by decide

theorem left_read {n : Nat} {bytes : Bytes} {taken : Prop} (hn : n = bytes.length)
    (htaken : taken) : Left (outcome (tcprecvdataNb n) ⟨bytes, ending⟩) taken := by
  unfold outcome
  rw [tcprecvdataNb_all hn]
  exact ⟨local_results.1, iff_of_true rfl htaken⟩

theorem left_throw {α : Type} {result : Int} {bytes : Bytes} {taken : Prop}
    (hresult : result < ENETDOWN) (htaken : bytes = [] ↔ taken) :
    Left (outcome (throw result : Receive α) ⟨bytes, ending⟩) taken :=
  ⟨hresult, htaken⟩

theorem left_bind {α β : Type} {m : Receive α} {f : α → Receive β} {s : Incoming} {taken : Prop}
    (hm : Left (outcome m s) taken)
    (hf : ∀ a s', (outcome (f a) s').1 < ENETDOWN ∧ (outcome (f a) s').2 = s') :
    Left (outcome (m >>= f) s) taken := by
  cases hs : m s with
  | ok a s' =>
    obtain ⟨hresult, hsame⟩ := hf a s'
    have hout : outcome m s = (0, s') := by
      unfold outcome
      rw [hs]
    rw [hout] at hm
    rw [outcome_bind_ok hs]
    refine ⟨hresult, ?_⟩
    rw [hsame]
    exact hm.2
  | error result s' =>
    have hout : outcome m s = (result, s') := by
      unfold outcome
      rw [hs]
    rw [outcome_bind_error hs, ← hout]
    exact hm

theorem fdhtRecvResponse_left (h : r.status = 0) (buffSize : Option Int) (malloc : Bool) :
    Left (outcome (fdhtRecvResponse buffSize malloc) ⟨r.bytes, ending⟩)
      (r.body = [] ∨ match buffSize with
        | none => malloc = true
        | some size => r.body.length ≤ size) := by
  unfold fdhtRecvResponse
  rw [outcome_succeeded h]
  by_cases hnil : r.body = []
  · rw [hnil]
    exact ⟨local_results.1, iff_of_true rfl (.inl rfl)⟩
  · have hne : (r.body.length : Int) ≠ 0 := fun h0 =>
      hnil (List.length_eq_zero_iff.mp (Int.ofNat_eq_zero.mp h0))
    rw [if_neg hne]
    cases buffSize with
    | none =>
      by_cases hmalloc : malloc = true
      · rw [if_pos hmalloc]
        exact left_read (Int.toNat_natCast _) (.inr hmalloc)
      · rw [if_neg hmalloc]
        exact left_throw local_results.2.2.2 (by simp [hnil, hmalloc])
    | some size =>
      dsimp only
      by_cases hsize : size < r.body.length
      · rw [if_pos hsize]
        exact left_throw local_results.2.2.1 (by simp [hnil, hsize])
      · rw [if_neg hsize]
        exact left_read (Int.toNat_natCast _) (.inr (not_lt.mp hsize))

theorem incExResponse_left (h : r.status = 0) (valueLen : Int) :
    Left (outcome (incExResponse valueLen) ⟨r.bytes, ending⟩) (r.body.length ≤ incBuff) := by
  have hrecv : Left (outcome _ ⟨r.bytes, ending⟩) _ :=
    fdhtRecvResponse_left h (some incBuff) false
  have hiff : (r.body = [] ∨ (r.body.length : Int) ≤ incBuff) ↔ r.body.length ≤ incBuff := by
    rw [Int.ofNat_le]
    exact ⟨fun h => h.elim (fun hnil => hnil ▸ Nat.zero_le _) id, .inr⟩
  rw [show _ = _ from propext hiff] at hrecv
  refine left_bind hrecv fun body s' => ?_
  split_ifs
  · exact ⟨local_results.2.1, rfl⟩
  · exact ⟨local_results.2.2.1, rfl⟩
  · exact ⟨local_results.1, rfl⟩

theorem emptyResponse_left (h : r.status = 0) (hbody : r.body = []) :
    Left (outcome emptyResponse ⟨r.bytes, ending⟩) True := by
  unfold emptyResponse
  rw [outcome_succeeded h, hbody]
  exact ⟨local_results.1, iff_of_true rfl trivial⟩

theorem getEx1Response_left (h : r.status = 0) {value : Bytes}
    (hbody : r.body = int2buff value.length ++ value) (valueLen : Option Int) (malloc : Bool) :
    Left (outcome (getEx1Response valueLen malloc) ⟨r.bytes, ending⟩)
      (r.body.length = 4 ∨ match valueLen with
        | none => malloc = true
        | some size => r.body.length < size + 4) := by
  have hlt := r.body_lt
  have hlen : r.body.length = 4 + value.length := by
    rw [hbody, List.length_append, int2buff_length]
  have hread : tcprecvdataNb 4 ⟨r.body, ending⟩ =
      .ok (int2buff value.length) ⟨value, ending⟩ := by
    rw [hbody]
    exact tcprecvdataNb_append (int2buff_length _).symm value ending
  have hvlen : buff2int (int2buff value.length) = value.length := by
    rw [← List.append_nil (int2buff _), buff2int_int2buff,
      toInt32_of_range (by omega) (by omega)]
  have hnil : value = [] ↔ r.body.length = 4 := by
    rw [hlen, ← List.length_eq_zero_iff]
    omega
  unfold getEx1Response
  rw [outcome_succeeded h, if_neg (by omega), outcome_bind_ok hread]
  rw [hvlen, if_neg (not_not.mpr (by omega))]
  cases valueLen with
  | none =>
    by_cases hmalloc : malloc = true
    · rw [if_pos hmalloc]
      exact left_read (Int.toNat_natCast _) (.inr hmalloc)
    · rw [if_neg hmalloc]
      exact left_throw local_results.2.2.2 (by simp [hnil, hmalloc])
  | some size =>
    dsimp only
    by_cases hsize : size ≤ value.length
    · rw [if_pos hsize]
      exact left_throw local_results.2.2.1 (by rw [hnil]; omega)
    · rw [if_neg hsize]
      exact left_read (Int.toNat_natCast _) (.inr (by omega))

theorem statusesResponse_left (h : r.status = 0) {keyList : List FDHTSubKey} {os : List Outcome}
    (hkeys : os.map (fun o => o.keyInfo.szKey) = keyList.map FDHTSubKey.szKey)
    (hbody : r.body = int2buff os.length ++ (int2buff (os.countP Outcome.ok) ++
      os.flatMap statusEntry)) :
    Left (outcome (statusesResponse keyList) ⟨r.bytes, ending⟩) True := by
  have hlen : r.body.length =
      8 + 5 * keyList.length + (keyList.map fun key => key.szKey.length).sum := by
    rw [hbody]
    exact statusesBody_length hkeys _
  unfold statusesResponse
  rw [outcome_succeeded h]
  rw [if_neg (not_not.mpr (by rw [hlen]))]
  refine left_bind (left_read (Int.toNat_natCast _) trivial) fun body s' => ?_
  split_ifs
  · exact ⟨local_results.2.1, rfl⟩
  · exact ⟨local_results.1, rfl⟩

theorem batchGetEx1Response_left (h : r.status = 0) (buffers : List (Option Int)) (malloc : Bool)
    (hne : r.body ≠ []) :
    Left (outcome (batchGetEx1Response buffers malloc) ⟨r.bytes, ending⟩)
      (17 ≤ r.body.length ∧ (r.body.length ≤ batchGetBuff ∨ malloc = true)) := by
  unfold batchGetEx1Response
  rw [outcome_succeeded h]
  by_cases hshort : (r.body.length : Int) < 17
  · rw [if_pos hshort]
    exact left_throw local_results.2.1 (iff_of_false hne (by omega))
  · rw [if_neg hshort]
    by_cases hroom : (batchGetBuff : Int) < r.body.length ∧ malloc = false
    · rw [if_pos hroom]
      refine left_throw local_results.2.2.2 (iff_of_false hne ?_)
      rintro ⟨-, hle | hmalloc⟩
      · exact absurd (Int.ofNat_lt.mp hroom.1) (not_lt.mpr hle)
      · exact Bool.false_ne_true (hroom.2.symm.trans hmalloc)
    · rw [if_neg hroom]
      refine left_bind (left_read (Int.toNat_natCast _) ⟨by omega, ?_⟩) fun body s' => ?_
      · by_cases hle : r.body.length ≤ batchGetBuff
        · exact .inl hle
        · refine .inr ?_
          by_contra hmalloc
          exact hroom ⟨Int.ofNat_lt.mpr (not_le.mp hle), Bool.eq_false_of_not_eq_true hmalloc⟩
      · dsimp only
        split_ifs
        · exact ⟨local_results.2.1, rfl⟩
        · exact ⟨local_results.2.1, rfl⟩
        · exact ⟨local_results.1, rfl⟩

end Responses

theorem Left.congr {o : Int × Incoming} {taken taken' : Prop} (h : Left o taken)
    (hiff : taken ↔ taken') : Left o taken' :=
  ⟨h.1, h.2.trans hiff⟩

namespace BufferedCall

variable {c : BufferedCall} {a : Attempt} {conn : Option Bytes}

theorem receive_failed (hfailed : a.response.status ≠ 0) (ending : Int) :
    c.receive a.malloc ⟨a.response.bytes, ending⟩ =
      (a.response.status, ⟨a.response.body, ending⟩) := by
  unfold receive
  cases c.call with
  | inc k increase expires =>
    have hheader := recvHeader_header a.response a.response.body ending
    rw [if_neg hfailed] at hheader
    exact outcome_bind_error (bind_error hheader)
  | get k expires => exact outcome_failed hfailed
  | set k value expires => exact outcome_failed hfailed
  | delete k => exact outcome_failed hfailed
  | batchSet o keyList expires => exact outcome_failed hfailed
  | batchGet o keyList expires => exact outcome_failed hfailed
  | batchDelete o keyList => exact outcome_failed hfailed
  | getSubKeys o => exact outcome_failed hfailed

theorem receive_left (hwf : a.response.WellFormed c.call) (h : a.response.status = 0)
    (ending : Int) :
    Left (c.receive a.malloc ⟨a.response.bytes, ending⟩) (c.Takes a) := by
  have hanswered := hwf.succeeded h
  unfold receive Takes
  cases hcall : c.call with
  | get k expires =>
    rw [hcall] at hanswered
    obtain ⟨value, hbody⟩ := hanswered
    refine (getEx1Response_left h hbody c.buffer a.malloc).congr ?_
    unfold buffer
    cases c.isNull <;> simp [h]
  | inc k increase expires =>
    exact (incExResponse_left h c.size).congr ⟨fun hle _ => hle, fun hle => hle h⟩
  | set k value expires =>
    rw [hcall] at hanswered
    exact (emptyResponse_left h hanswered).congr ⟨fun _ _ => trivial, fun _ => trivial⟩
  | delete k =>
    rw [hcall] at hanswered
    exact (emptyResponse_left h hanswered).congr ⟨fun _ _ => trivial, fun _ => trivial⟩
  | batchSet o keyList expires =>
    rw [hcall] at hanswered
    obtain ⟨os, hkeys, hbody⟩ := hanswered
    have hkeys' : os.map (fun o => o.keyInfo.szKey) =
        (keyList.map Prod.fst).map FDHTSubKey.szKey := by
      rw [hkeys, List.map_map]
      rfl
    exact (statusesResponse_left h hkeys' hbody).congr ⟨fun _ _ => trivial, fun _ => trivial⟩
  | batchDelete o keyList =>
    rw [hcall] at hanswered
    obtain ⟨os, hkeys, hbody⟩ := hanswered
    exact (statusesResponse_left h hkeys hbody).congr ⟨fun _ _ => trivial, fun _ => trivial⟩
  | batchGet o keyList expires =>
    rw [hcall] at hanswered
    obtain ⟨os, -, hbody⟩ := hanswered
    have hne : a.response.body ≠ [] := by
      intro hnil
      have hlen := congrArg List.length hbody
      rw [hnil, List.length_append, int2buff_length, List.length_nil] at hlen
      omega
    exact (batchGetEx1Response_left h _ a.malloc hne).congr ⟨fun hle _ => hle, fun hle => hle h⟩
  | getSubKeys o =>
    refine (fdhtRecvResponse_left h (c.buffer.map (· - 1)) a.malloc).congr ?_
    unfold buffer
    cases c.isNull with
    | true => simp [h]
    | false =>
      simp only [h, Bool.false_eq_true, ↓reduceIte, Option.map_some, forall_const]
      exact or_congr_right (by omega)

/-! ## Attempts and calls -/

theorem attempt_failed (hconn : InStep conn) (hwf : a.response.WellFormed c.call)
    (h : a.response.status ≠ 0) :
    (c.attempt a conn).1 = a.response.status ∧ InStep (c.attempt a conn).2 := by
  unfold attempt
  rw [hconn.getD, List.nil_append, receive_failed h, hwf.failed h]
  refine ⟨rfl, ?_⟩
  dsimp only
  split_ifs
  · exact inStep_none
  · exact inStep_some.mpr rfl

theorem attempt_succeeded (hconn : InStep conn) (hwf : a.response.WellFormed c.call)
    (h : a.response.status = 0) :
    (c.attempt a conn).1 ≠ ENOTCONN ∧ (InStep (c.attempt a conn).2 ↔ c.Takes a) := by
  obtain ⟨hresult, hleft⟩ := receive_left hwf h ETIMEDOUT
  have hnot : ¬ ENETDOWN ≤ (c.receive a.malloc ⟨a.response.bytes, ETIMEDOUT⟩).1 :=
    not_le.mpr hresult
  unfold attempt
  rw [hconn.getD, List.nil_append]
  refine ⟨fun heq => hnot (le_of_le_of_eq ?_ heq.symm), ?_⟩
  · decide
  · dsimp only
    rw [if_neg hnot]
    exact inStep_some.trans hleft

theorem takes_of_allocates (h : c.allocates = true) (a : Attempt) : c.Takes a := by
  unfold allocates at h
  intro _
  cases hcall : c.call <;> rw [hcall] at h <;> first | exact trivial | cases h

/-- The loop ends in step exactly if all attempts that are made take their responses. -/
theorem retry_inStep (attempts : Nat → Attempt)
    (hwf : ∀ i, (attempts i).response.WellFormed c.call) (n i : Nat) (result : Int)
    (conn : Option Bytes) (hconn : InStep conn) :
    InStep (c.retry attempts n i result conn).2 ↔
      ∀ k < n, (∀ j < k, (attempts (i + j)).response.status = ENOTCONN) →
        c.Takes (attempts (i + k)) := by
  induction n generalizing i result conn with
  | zero => exact iff_of_true hconn fun k hk => absurd hk (Nat.not_lt_zero _)
  | succ n ih =>
    unfold retry
    by_cases hmalloc : (c.allocates && !(attempts i).malloc) = true
    · rw [if_pos hmalloc, hconn.getD]
      exact iff_of_true (inStep_some.mpr rfl) fun k _ _ =>
        takes_of_allocates (Bool.and_eq_true_iff.mp hmalloc).1 _
    · rw [if_neg hmalloc]
      -- the attempts after the first
      have hstep : (∀ k < n + 1, (∀ j < k, (attempts (i + j)).response.status = ENOTCONN) →
          c.Takes (attempts (i + k))) ↔ c.Takes (attempts i) ∧
          ((attempts i).response.status = ENOTCONN → ∀ k < n,
            (∀ j < k, (attempts (i + 1 + j)).response.status = ENOTCONN) →
              c.Takes (attempts (i + 1 + k))) := by
        refine ⟨fun h => ⟨h 0 n.succ_pos fun j hj => absurd hj (Nat.not_lt_zero _),
          fun hfirst k hk hj => ?_⟩, fun h k hk hj => ?_⟩
        · rw [Nat.add_assoc, Nat.add_comm 1 k]
          refine h (k + 1) (Nat.succ_lt_succ hk) fun j hlt => ?_
          cases j with
          | zero => exact hfirst
          | succ j =>
            have hlater := hj j (Nat.lt_of_succ_lt_succ hlt)
            rwa [Nat.add_assoc, Nat.add_comm 1 j] at hlater
        · cases k with
          | zero => exact h.1
          | succ k =>
            have hlater := h.2 (hj 0 k.succ_pos) k (Nat.lt_of_succ_lt_succ hk) fun j hlt => by
              have := hj (j + 1) (Nat.succ_lt_succ hlt)
              rwa [Nat.add_comm j 1, ← Nat.add_assoc] at this
            rwa [Nat.add_assoc, Nat.add_comm 1 k] at hlater
      rw [hstep]
      dsimp only
      by_cases h0 : (attempts i).response.status = 0
      · obtain ⟨hne, hiff⟩ := attempt_succeeded hconn (hwf i) h0
        rw [if_neg hne, hiff]
        exact ⟨fun h => ⟨h, fun hstatus => absurd (h0.symm.trans hstatus) (by decide)⟩, And.left⟩
      · obtain ⟨hresult, hin⟩ := attempt_failed hconn (hwf i) h0
        have htakes : c.Takes (attempts i) := fun h => absurd h h0
        rw [hresult]
        by_cases hnotconn : (attempts i).response.status = ENOTCONN
        · rw [if_pos hnotconn, ih (i + 1) _ _ hin]
          exact ⟨fun h => ⟨htakes, fun _ => h⟩, fun h => h.2 hnotconn⟩
        · rw [if_neg hnotconn]
          exact iff_of_true hin ⟨htakes, fun h => absurd h hnotconn⟩

end BufferedCall

/-! ## Sequences of calls -/

/-- A call, and what happens at its attempts. -/
structure Exchange where
  call : BufferedCall
  attempts : Nat → Attempt

namespace Exchange

def runAll (count : Nat) (exchanges : List Exchange) (conn : Option Bytes) : Option Bytes :=
  exchanges.foldl (fun conn e => (e.call.run count e.attempts conn).2) conn

/-- The responses of a call are taken, as far as it gets to them: a later one is asked for
only if the server has answered `ENOTCONN` before. -/
def Fits (count : Nat) (e : Exchange) : Prop :=
  e.call.call.accepted = true → ∀ k < count + 1,
    (∀ j < k, (e.attempts j).response.status = ENOTCONN) → e.call.Takes (e.attempts k)

theorem run_inStep {e : Exchange} (hwf : ∀ i, (e.attempts i).response.WellFormed e.call.call)
    (count : Nat) {conn : Option Bytes} (hconn : InStep conn) :
    InStep (e.call.run count e.attempts conn).2 ↔ e.Fits count := by
  unfold BufferedCall.run Fits
  by_cases haccepted : e.call.call.accepted = true
  · rw [if_neg (by rw [haccepted]; exact Bool.noConfusion),
      BufferedCall.retry_inStep e.attempts hwf (count + 1) 0 ENOENT conn hconn]
    simp only [Nat.zero_add]
    exact ⟨fun h _ => h, fun h => h haccepted⟩
  · rw [if_pos (Bool.eq_false_of_not_eq_true haccepted)]
    exact iff_of_true hconn fun h => absurd h haccepted

/-- **A connection stays in step exactly as long as the buffers take the responses.** -/
theorem keep_alive_in_step_iff (count : Nat) (exchanges : List Exchange) (conn : Option Bytes)
    (hconn : InStep conn) (hwf : ∀ e ∈ exchanges, ∀ i,
      (e.attempts i).response.WellFormed e.call.call) :
    (∀ n, InStep (runAll count (exchanges.take n) conn)) ↔
      ∀ e ∈ exchanges, e.Fits count := by
  induction exchanges generalizing conn with
  | nil =>
    refine iff_of_true (fun n => ?_) fun e he => nomatch he
    rw [List.take_nil]
    exact hconn
  | cons e exchanges ih =>
    have hiff := run_inStep (hwf e List.mem_cons_self) count hconn
    rw [List.forall_mem_cons, ← hiff]
    constructor
    · intro h
      have hfirst : InStep (e.call.run count e.attempts conn).2 := h 1
      exact ⟨hfirst, (ih _ hfirst fun e' he' => hwf e' (List.mem_cons_of_mem _ he')).mp
        fun n => h (n + 1)⟩
    · rintro ⟨hfirst, hrest⟩ n
      cases n with
      | zero => exact hconn
      | succ n =>
        exact (ih _ hfirst fun e' he' => hwf e' (List.mem_cons_of_mem _ he')).mpr hrest n

/-! A value of 19 zero bytes for a buffer of 8: `fdht_get_ex1` leaves it unread. The server
refuses the SET that follows, but the client takes the value for a header. -/

def sampleKey : FDHTKeyInfo := ⟨[], [], [107], noNamespace_le, noObjectId_le, by decide⟩

def valueResponse (n : Nat) (h : (int2buff n ++ List.replicate n 0).length < 2 ^ 31) : Response :=
  ⟨0, List.replicate 14 0, int2buff n ++ List.replicate n 0, fitsByte_codes.1, rfl, h⟩

/-- A GET with a buffer of 8 bytes, for a value of `n`. -/
def getIntoEight (n : Nat) (h : (int2buff n ++ List.replicate n 0).length < 2 ^ 31) : Exchange :=
  ⟨⟨.get sampleKey 0, false, 8⟩, fun _ => ⟨valueResponse n h, true⟩⟩

def refusedSet : Exchange :=
  ⟨⟨.set sampleKey [49] 0, false, 0⟩,
    fun _ => ⟨⟨EINVAL, List.replicate 14 0, [], fitsByte_codes.2.2.2.2.2, rfl, by decide⟩, true⟩⟩

theorem getIntoEight_wellFormed (n : Nat)
    (h : (int2buff n ++ List.replicate n 0).length < 2 ^ 31) (i : Nat) :
    (((getIntoEight n h).attempts i).response).WellFormed (getIntoEight n h).call.call :=
  ⟨fun hne => absurd rfl hne, fun _ => ⟨List.replicate n 0, by
    show int2buff n ++ _ = _
    rw [List.length_replicate]⟩⟩

theorem refusedSet_wellFormed (i : Nat) :
    ((refusedSet.attempts i).response).WellFormed refusedSet.call.call :=
  ⟨fun _ => rfl, fun h => absurd h (by decide : EINVAL ≠ 0)⟩

theorem samples_wellFormed (n : Nat) (h : (int2buff n ++ List.replicate n 0).length < 2 ^ 31) :
    ∀ e ∈ [getIntoEight n h, refusedSet], ∀ i,
      ((e.attempts i).response).WellFormed e.call.call :=
  List.forall_mem_cons.mpr ⟨getIntoEight_wellFormed n h,
    List.forall_mem_singleton.mpr refusedSet_wellFormed⟩

theorem keep_alive_in_step_two :
    InStep (runAll 1 [getIntoEight 7 (by decide), refusedSet] none) := by
  refine (keep_alive_in_step_iff 1 _ none inStep_none (samples_wellFormed 7 _)).mpr ?_ 2
  refine List.forall_mem_cons.mpr ⟨fun _ k _ _ _ => .inr ?_, List.forall_mem_singleton.mpr
    fun _ k _ _ h => absurd h (by decide : EINVAL ≠ 0)⟩
  show ((int2buff 7 ++ List.replicate 7 0).length : Int) < 8 + 4
  decide

theorem keep_alive_out_of_step :
    (∀ e ∈ [getIntoEight 19 (by decide), refusedSet], ∀ i,
      ((e.attempts i).response).WellFormed e.call.call) ∧
    ¬ InStep (runAll 1 [getIntoEight 19 (by decide)] none) ∧
    (refusedSet.call.run 1 refusedSet.attempts
      (runAll 1 [getIntoEight 19 (by decide)] none)).1 = 0 ∧
    ∀ i, (refusedSet.attempts i).response.status = EINVAL := by
  have hleft : runAll 1 [getIntoEight 19 (by decide)] none = some (List.replicate 19 0) := rfl
  refine ⟨samples_wellFormed 19 _, ?_, ?_, fun _ => rfl⟩
  · rw [hleft, inStep_some]
    decide
  · rfl

end Exchange

end FastDht
