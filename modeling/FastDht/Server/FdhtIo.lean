import FastDht.Lib.Machine
import FastDht.Server.StoredValues

/-! # Receiving messages: client_sock_read of server/fdht_io.c

A connection receives a message in pieces of any size: first the header, whose
length field says how much is to follow, then the body. The message is handed
to `work_deal_task` when all of it is there; when the answer has been sent on a
connection that is kept alive, the next message starts. The length field is a
signed 32-bit number, to which the size of the header is added as `size_t` and
taken back to `int`. -/
namespace FastDht
open Lib

inductive ConnPhase
  | reading
  /-- `work_deal_task` has been called, and its answer is being sent. -/
  | dealing
  | closed
  deriving DecidableEq, Repr

/-- A connection: its task, how much of the message has been received, and what
the client is still going to send. -/
structure Connection where
  task : FastTaskInfo
  offset : Nat
  input : Bytes
  /-- The bytes of the current message. -/
  received : Bytes
  phase : ConnPhase
  deriving DecidableEq, Repr

/-- What can happen next: `recv` returns `n` bytes, with `fresh` the memory a
`realloc` adds; the answer has been sent and the buffer holds `data`; or the
connection ends. -/
inductive ConnEvent
  | recv (n : Nat) (fresh : Bytes)
  | answered (data : Bytes)
  | close

def Connection.recvBytes (c : Connection) : Nat :=
  if c.task.length = 0 then sizeofHeader - c.offset else (c.task.length - c.offset).toNat

/-- The buffer with room for `n` bytes at `offset`. -/
def growBuffer (data : Bytes) (offset n : Nat) (fresh : Bytes) : Bytes :=
  if data.length < offset + n then data ++ readAt fresh 0 n else data

/-- The `n` bytes that `recv` has copied to the buffer. -/
def Connection.copy (c : Connection) (n : Nat) (fresh : Bytes) : Connection :=
  { c with
    task := { c.task with
      data := writeAt (growBuffer c.task.data c.offset c.recvBytes fresh) c.offset
        (c.input.take n) }
    input := c.input.drop n
    received := c.received ++ c.input.take n }

/-- The end of a round of the loop: is the message complete? -/
def Connection.advance (c : Connection) (length : Int) (n : Nat) : Connection :=
  { c with
    task := { c.task with length := length }
    offset := c.offset + n
    phase := if length ≤ c.offset + n then .dealing else .reading }

/-- One round of the loop of `client_sock_read`, with `n` bytes received. -/
def clientSockRead (maxPkgSize : Int) (c : Connection) (n : Nat) (fresh : Bytes) : Connection :=
  let c := c.copy n fresh
  if c.task.length = 0 then
    if c.offset + n < sizeofHeader then { c with offset := c.offset + n }
    else
      let pkgLen := c.task.intAt pkgLenOffset
      if pkgLen < 0 then { c with phase := .closed }
      else
        let length := toInt32 (pkgLen + sizeofHeader)
        if maxPkgSize < length then { c with phase := .closed }
        else c.advance length n
  else c.advance c.task.length n

def Connection.step (maxPkgSize : Int) (c : Connection) : ConnEvent → Option Connection
  | .recv n fresh =>
    if c.phase = .reading ∧ 0 < n ∧ n ≤ c.recvBytes ∧ n ≤ c.input.length then
      some (clientSockRead maxPkgSize c n fresh)
    else none
  | .answered data =>
    if c.phase = .dealing then some { c with
      task := { c.task with data := data, length := 0 }
      offset := 0
      received := []
      phase := .reading }
    else none
  | .close => some { c with phase := .closed }

/-- A new connection, with a buffer from the task queue. -/
def Connection.accept (clientIp data input : Bytes) : Connection :=
  ⟨⟨data, 0, clientIp⟩, 0, input, [], .reading⟩

def Connection.pkgLen (c : Connection) : Int := buff2int (readAt c.received 0 4)

/-! ## The length of a message -/

/-- The buffer starts with what has been received. -/
structure Connection.Buffered (c : Connection) : Prop where
  offset : c.received.length = c.offset
  room : c.offset ≤ c.task.data.length
  data : readAt c.task.data 0 c.offset = c.received

/-- What a connection knows about its message in each phase. -/
def Connection.Sized (maxPkgSize : Int) (c : Connection) : Prop :=
  match c.phase with
  | .reading =>
    (c.task.length = 0 ∧ c.offset < sizeofHeader) ∨
      (sizeofHeader ≤ c.offset ∧ 0 ≤ c.pkgLen ∧
        c.task.length = toInt32 (c.pkgLen + sizeofHeader) ∧ c.task.length ≤ maxPkgSize ∧
        (c.offset : Int) < c.task.length)
  | .dealing =>
    sizeofHeader ≤ c.offset ∧ 0 ≤ c.pkgLen ∧ c.task.length = toInt32 (c.pkgLen + sizeofHeader) ∧
      c.task.length ≤ maxPkgSize ∧
      (c.task.length = c.pkgLen + sizeofHeader → (c.offset : Int) = c.task.length)
  | .closed => True

theorem readAt_growBuffer (data : Bytes) (offset n : Nat) (fresh : Bytes) {m : Nat}
    (hm : m ≤ data.length) : readAt (growBuffer data offset n fresh) 0 m = readAt data 0 m := by
  unfold growBuffer
  split
  · refine readAt_congr fun i _ hi => ?_
    rw [List.getD_append _ _ _ _ (by omega)]
  · rfl

section Receive

variable {maxPkgSize : Int} {c c' : Connection}

theorem Connection.Buffered.copy (hb : c.Buffered) {n : Nat} (hn : n ≤ c.input.length)
    (fresh : Bytes) : (c.copy n fresh).received.length = c.offset + n ∧
      c.offset + n ≤ (c.copy n fresh).task.data.length ∧
      readAt (c.copy n fresh).task.data 0 (c.offset + n) = (c.copy n fresh).received := by
  have hlen : (c.input.take n).length = n := List.length_take_of_le hn
  have hgrow := readAt_growBuffer c.task.data c.offset c.recvBytes fresh hb.room
  refine ⟨?_, ?_, ?_⟩
  · simp only [Connection.copy, List.length_append, hb.offset, hlen]
  · simp only [Connection.copy, writeAt, List.length_append, List.takeD_length, hlen]
    omega
  · have hself := readAt_writeAt_self (growBuffer c.task.data c.offset c.recvBytes fresh)
      (c.input.take n) c.offset
    rw [hlen] at hself
    simp only [Connection.copy]
    rw [readAt_add, readAt_writeAt_disjoint (.inr (by omega)), hgrow, hb.data, Nat.zero_add, hself]

theorem Connection.Buffered.of_eq (hb : c.Buffered) (hr : c'.received = c.received)
    (ho : c'.offset = c.offset) (hd : c'.task.data = c.task.data) : c'.Buffered :=
  ⟨by rw [hr, ho, hb.offset], by rw [ho, hd]; exact hb.room, by rw [hd, ho, hr, hb.data]⟩

theorem Connection.Buffered.pkgLen (hb : c.Buffered) (h : sizeofHeader ≤ c.offset) :
    c.task.intAt pkgLenOffset = c.pkgLen := by
  have hsub : readAt c.task.data 0 4 = readAt c.received 0 4 := by
    rw [← hb.data]
    refine readAt_congr fun i _ hi => ?_
    rw [getD_readAt, if_pos (by unfold sizeofHeader at h; omega), Nat.zero_add]
  exact congrArg buff2int hsub

theorem Connection.pkgLen_copy (hb : c.Buffered) (h : sizeofHeader ≤ c.offset) (n : Nat)
    (fresh : Bytes) : (c.copy n fresh).pkgLen = c.pkgLen := by
  refine congrArg buff2int (readAt_congr fun i _ hi => ?_)
  have hlen := hb.offset
  unfold sizeofHeader at h
  exact List.getD_append _ _ _ _ (by omega)

theorem toInt32_pkgLen {n : Int} (h0 : 0 ≤ n) (hlt : n < 2 ^ 31) :
    toInt32 (n + sizeofHeader) = n + sizeofHeader ∨
      toInt32 (n + sizeofHeader) < 0 ∧ 2 ^ 31 - sizeofHeader ≤ n := by
  have hsize : (sizeofHeader : Int) = 19 := rfl
  by_cases hfits : n + sizeofHeader < 2 ^ 31
  · exact .inl (toInt32_of_range (by omega) hfits)
  · right
    refine ⟨?_, by omega⟩
    rw [toInt32_congr (n := n + sizeofHeader) (m := n + sizeofHeader - 2 ^ 32) (q := 1) (by omega),
      toInt32_of_range (by omega) (by omega)]
    omega

theorem Connection.sized_advance {d : Connection} {length : Int} {n : Nat}
    (hoff : sizeofHeader ≤ d.offset + n) (h0 : 0 ≤ d.pkgLen)
    (hlength : length = toInt32 (d.pkgLen + sizeofHeader)) (hmax : length ≤ maxPkgSize)
    (hle : length = d.pkgLen + sizeofHeader → ((d.offset + n : Nat) : Int) ≤ length) :
    (d.advance length n).Sized maxPkgSize := by
  have hpkg : (d.advance length n).pkgLen = d.pkgLen := rfl
  unfold Connection.Sized
  simp only [hpkg]
  simp only [Connection.advance]
  by_cases hdone : length ≤ d.offset + n
  · rw [if_pos hdone]
    refine ⟨hoff, h0, hlength, hmax, fun heq => ?_⟩
    omega
  · rw [if_neg hdone]
    exact .inr ⟨hoff, h0, hlength, hmax, by push_cast; omega⟩

/-- What holds of a connection that is open. -/
def Connection.Framed (maxPkgSize : Int) (c : Connection) : Prop :=
  c.phase = .closed ∨ c.Buffered ∧ c.Sized maxPkgSize

theorem clientSockRead_framed (hb : c.Buffered) (hs : c.Sized maxPkgSize)
    (hphase : c.phase = .reading) {n : Nat} (hn : n ≤ c.recvBytes) (hin : n ≤ c.input.length)
    (fresh : Bytes) : (clientSockRead maxPkgSize c n fresh).Framed maxPkgSize := by
  obtain ⟨hlen, hroom, hdata⟩ := hb.copy hin fresh
  have hlength : (c.copy n fresh).task.length = c.task.length := rfl
  have hoffset : (c.copy n fresh).offset = c.offset := rfl
  have hbuf : ({ c.copy n fresh with offset := c.offset + n } : Connection).Buffered :=
    ⟨hlen, hroom, hdata⟩
  unfold Connection.Sized at hs
  rw [hphase] at hs
  unfold Connection.recvBytes at hn
  unfold clientSockRead
  dsimp only
  rw [hlength, hoffset]
  rcases hs with ⟨hzero, hshorter⟩ | ⟨hhead, h0, hlength', hmax, hlt⟩
  · -- the header is not complete yet
    rw [if_pos hzero] at hn ⊢
    by_cases hshort : c.offset + n < sizeofHeader
    · rw [if_pos hshort]
      refine .inr ⟨hbuf, ?_⟩
      simp only [Connection.copy, hphase]
      exact .inl ⟨hzero, hshort⟩
    rw [if_neg hshort]
    have hpkg : (c.copy n fresh).task.intAt pkgLenOffset = (c.copy n fresh).pkgLen :=
      hbuf.pkgLen (not_lt.mp hshort)
    rw [hpkg]
    split
    · exact .inl rfl
    rename_i h0
    split
    · exact .inl rfl
    rename_i hmax
    refine .inr ⟨hbuf.of_eq rfl rfl rfl, ?_⟩
    refine Connection.sized_advance (not_lt.mp hshort) (not_lt.mp h0) rfl (not_lt.mp hmax) ?_
    intro heq
    omega
  · -- more of the body
    rw [if_neg (by omega)] at hn ⊢
    have hpkg := c.pkgLen_copy hb hhead n fresh
    refine .inr ⟨hbuf.of_eq rfl rfl rfl, ?_⟩
    refine Connection.sized_advance (by rw [hoffset]; omega) (by rwa [hpkg]) (by rwa [hpkg])
      hmax ?_
    intro _
    omega

/-- A message that starts: nothing of it has been received. -/
theorem Connection.framed_start {d : Connection} (hphase : d.phase = .reading)
    (hlength : d.task.length = 0) (hoffset : d.offset = 0) (hreceived : d.received = []) :
    d.Framed maxPkgSize := by
  refine .inr ⟨⟨by rw [hreceived, hoffset]; rfl, by omega, by rw [hreceived, hoffset]; rfl⟩, ?_⟩
  unfold Connection.Sized
  rw [hphase]
  exact .inl ⟨hlength, by rw [hoffset]; decide⟩

theorem Connection.step_framed {e : ConnEvent} (hf : c.Framed maxPkgSize)
    (hs : c.step maxPkgSize e = some c') : c'.Framed maxPkgSize := by
  unfold Connection.step at hs
  rcases e with ⟨n, fresh⟩ | ⟨data⟩ | _ <;> dsimp only at hs
  · split at hs <;> cases hs
    rename_i hrecv
    obtain ⟨hphase, -, hn, hin⟩ := hrecv
    rcases hf with hclosed | ⟨hb, hs⟩
    · rw [hclosed] at hphase
      cases hphase
    · exact clientSockRead_framed hb hs hphase hn hin fresh
  · split at hs <;> cases hs
    exact Connection.framed_start rfl rfl rfl rfl
  · cases hs
    exact .inl rfl

end Receive

/-- **For every stream and every way `recv` splits it, the message that reaches
`work_deal_task` has a length within the bounds, has been received exactly and
has the body length that the handlers compute, if and only if its length field
is below `2 ^ 31 - sizeof(FDHTProtoHeader)`.** -/
theorem dealt_message_complete {maxPkgSize : Int} {clientIp data input : Bytes} {c : Connection}
    (hrun : Runs (Connection.step maxPkgSize) (fun _ _ => True)
      (Connection.accept clientIp data input) c) (hphase : c.phase = .dealing) :
    (sizeofHeader ≤ c.task.length ∧ c.task.length ≤ maxPkgSize ∧
      (c.received.length : Int) = c.task.length ∧
      readAt c.task.data 0 c.received.length = c.received ∧
      c.task.inBodyLen = (c.received.length : Int) - sizeofHeader) ↔
    c.pkgLen < 2 ^ 31 - sizeofHeader := by
  have hframed : c.Framed maxPkgSize :=
    hrun.invariant (Connection.framed_start rfl rfl rfl rfl) fun _ _ _ hf _ hs =>
      Connection.step_framed hf hs
  rcases hframed with hclosed | ⟨hb, hs⟩
  · rw [hclosed] at hphase
    cases hphase
  unfold Connection.Sized at hs
  rw [hphase] at hs
  obtain ⟨-, h0, hlength, hmax, hoffset⟩ := hs
  rw [hb.offset]
  constructor
  · rintro ⟨hmin, -⟩
    rcases toInt32_pkgLen h0 (buff2int_lt _) with heq | ⟨hneg, -⟩
    · have hlt := toInt32_lt (c.pkgLen + sizeofHeader)
      omega
    · omega
  · intro hlt
    have heq : c.task.length = c.pkgLen + sizeofHeader :=
      hlength.trans (toInt32_of_range (by omega) (by omega))
    have hoff := hoffset heq
    have hbody : c.task.inBodyLen = c.task.length - sizeofHeader :=
      toInt32_of_range (by omega) (by omega)
    exact ⟨by omega, hmax, hoff, hb.data, by rw [hbody, hoff]⟩

/-- The header of a message with the length field `pkgLen`, without its body. -/
def headerOfLength (pkgLen : Int) : Bytes := int2buff pkgLen ++ List.replicate 15 0

/-- A message with one byte of body, received in three pieces. -/
theorem dealt_message_complete_pieces : ∃ c : Connection, c.phase = .dealing ∧
    (sizeofHeader ≤ c.task.length ∧ c.task.length ≤ 1024 ∧
      (c.received.length : Int) = c.task.length ∧
      readAt c.task.data 0 c.received.length = c.received ∧
      c.task.inBodyLen = (c.received.length : Int) - sizeofHeader) := by
  have hexec : ∃ c, exec (Connection.step 1024) (fun _ _ => True)
      [.recv 7 [], .recv 12 [], .recv 1 []]
      (Connection.accept [] (List.replicate 32 0) (headerOfLength 1 ++ [5])) = some c ∧
      c.phase = .dealing ∧ c.pkgLen < 2 ^ 31 - sizeofHeader := by
    refine ⟨_, rfl, ?_⟩
    decide
  obtain ⟨c, hexec, hphase, hpkg⟩ := hexec
  exact ⟨c, hphase, (dealt_message_complete (Runs.of_exec hexec) hphase).mpr hpkg⟩

/-- The length field `2 ^ 31 - 1` makes the sum negative: nineteen bytes are dealt
with as a message whose body has `2 ^ 31 - 1` bytes. -/
theorem header_dealt_as_message : ∃ c : Connection,
    Runs (Connection.step 1024) (fun _ _ => True)
      (Connection.accept [] (List.replicate 32 0) (headerOfLength (2 ^ 31 - 1))) c ∧
    c.phase = .dealing ∧ c.received.length = 19 ∧ c.task.length < sizeofHeader ∧
    c.task.inBodyLen = 2 ^ 31 - 1 := by
  have hexec : ∃ c, exec (Connection.step 1024) (fun _ _ => True) [.recv 19 []]
      (Connection.accept [] (List.replicate 32 0) (headerOfLength (2 ^ 31 - 1))) = some c ∧
      c.phase = .dealing ∧ c.received.length = 19 ∧ c.task.length < sizeofHeader ∧
      c.task.inBodyLen = 2 ^ 31 - 1 := by
    refine ⟨_, rfl, ?_⟩
    decide
  obtain ⟨c, hexec, hrest⟩ := hexec
  exact ⟨c, Runs.of_exec hexec, hrest⟩

end FastDht
