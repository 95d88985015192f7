import FastDht.Server.FdhtIo
import FastDht.Server.KeepAlive

/-! # Messages on a connection that is kept alive

The client sends one message after the other, and `recv` returns the stream in
pieces of any size. The server asks for no more than the rest of the message it is
in, so that a piece never reaches into the next one. A message that is longer than
the buffer makes it grow by `realloc` of `size + recv_bytes`, a sum of two `int`. -/

namespace FastDht
open Lib Relation

variable {σ : Type}

/-- A connection and what has been passed to `work_deal_task` on it. -/
structure KeptConnection where
  conn : Connection
  dealt : List (Bytes × Bytes)

/-- The header and the body as the handlers read them. -/
def FastTaskInfo.headerAndBody (t : FastTaskInfo) : Bytes × Bytes :=
  (readAt t.data 0 sizeofHeader, t.bodyBytes 0 t.inBodyLen.toNat)

/-- The buffer has to grow, and `pTask->size + recv_bytes` does not fit an `int`:
it is negative then, and `realloc` fails. -/
def Connection.growthOverflows (c : Connection) : Bool :=
  c.task.data.length < c.offset + c.recvBytes && 2 ^ 31 ≤ c.task.data.length + c.recvBytes

/-- `recv` returns some bytes, or the message is dealt with and answered. -/
inductive KeptEvent (σ : Type)
  | recv (n : Nat) (fresh : Bytes)
  | answer (g : Globals) (env : TaskEnv) (server : Server σ)

/-- `work_deal_task` and `client_sock_write`: QUIT closes the connection, and so does
an answer without `keep_alive`. -/
def KeptConnection.answer (S : StoreFuncs σ) (maxPkgSize : Int) (g : Globals) (env : TaskEnv)
    (server : Server σ) (s : KeptConnection) : Option KeptConnection :=
  match workDealTask S g env s.conn.task server with
  | none => none
  | some (none, _) => some { s with conn := { s.conn with phase := .closed } }
  | some (some (_, t'), _) =>
    if t'.keepAlive = 0 then some { s with conn := { s.conn with phase := .closed } }
    else (s.conn.step maxPkgSize (.answered t'.data)).map fun c => ⟨c, s.dealt⟩

/-- A connection that only ends because of what is received on it. -/
def KeptConnection.step (S : StoreFuncs σ) (maxPkgSize : Int) (s : KeptConnection) :
    KeptEvent σ → Option KeptConnection
  | .recv n fresh =>
    if s.conn.phase = .reading ∧ s.conn.growthOverflows = true then
      some { s with conn := { s.conn with phase := .closed } }
    else (s.conn.step maxPkgSize (.recv n fresh)).map fun c =>
      ⟨c, if c.phase = .dealing then s.dealt ++ [c.task.headerAndBody] else s.dealt⟩
  | .answer g env server =>
    if s.conn.phase = .dealing then s.answer S maxPkgSize g env server else none

/-- A message whose length field says how long it is, with `keep_alive`. -/
structure ClientMessage (maxPkgSize : Int) (m : Bytes) : Prop where
  header : sizeofHeader ≤ m.length
  max : (m.length : Int) ≤ maxPkgSize
  pkgLen : buff2int (readAt m 0 4) = m.length - sizeofHeader
  keepAlive : m.getD keepAliveOffset 0 ≠ 0

/-- The buffer does not have to grow beyond an `int`, and the message to be answered
is not QUIT. -/
def KeptConnection.StaysOpen (s : KeptConnection) : KeptEvent σ → Prop
  | .recv _ _ => s.conn.growthOverflows = false
  | .answer _ _ _ => s.conn.task.cmd ≠ some .quit

instance (s : KeptConnection) (e : KeptEvent σ) : Decidable (s.StaysOpen e) :=
  match e with
  | .recv _ _ => inferInstanceAs (Decidable (_ = false))
  | .answer _ _ _ => inferInstanceAs (Decidable (_ ≠ _))

def splitMessage (m : Bytes) : Bytes × Bytes := (m.take sizeofHeader, m.drop sizeofHeader)

section Recv

variable {maxPkgSize : Int} {c : Connection} {m : Bytes}

theorem Connection.length_of_message (hmax : maxPkgSize < 2 ^ 31) (hm : ClientMessage maxPkgSize m)
    {behind next : Bytes} (hstream : c.received ++ behind = m ++ next)
    (hhead : sizeofHeader ≤ c.received.length) :
    c.pkgLen = m.length - sizeofHeader ∧ toInt32 (c.pkgLen + sizeofHeader) = m.length := by
  have hheader := hm.header
  unfold sizeofHeader at hheader hhead
  have hpkg : c.pkgLen = m.length - sizeofHeader := by
    rw [← hm.pkgLen]
    refine congrArg buff2int (readAt_congr fun i _ hi => ?_)
    rw [← List.getD_append c.received behind 0 i (by omega), hstream,
      List.getD_append _ _ _ _ (by omega)]
  have hlen := hm.max
  refine ⟨hpkg, ?_⟩
  rw [hpkg, sub_add_cancel]
  exact toInt32_of_range (by omega) (by omega)

theorem Connection.recvBytes_le (hmax : maxPkgSize < 2 ^ 31) (hm : ClientMessage maxPkgSize m)
    (hb : c.Buffered) (hs : c.Sized maxPkgSize) (hphase : c.phase = .reading)
    {behind next : Bytes} (hstream : c.received ++ behind = m ++ next) :
    0 < c.recvBytes ∧ c.offset + c.recvBytes ≤ m.length := by
  have hheader := hm.header
  unfold Connection.Sized at hs
  rw [hphase] at hs
  unfold Connection.recvBytes
  rcases hs with ⟨hzero, hshort⟩ | ⟨hhead, -, hlength, -, hlt⟩
  · rw [if_pos hzero]
    omega
  · have hlen := (c.length_of_message hmax hm hstream (by rw [hb.offset]; exact hhead)).2
    rw [if_neg (by omega)]
    omega

theorem clientSockRead_stream (maxPkgSize : Int) (c : Connection) (n : Nat) (fresh : Bytes) :
    (clientSockRead maxPkgSize c n fresh).received = c.received ++ c.input.take n ∧
      (clientSockRead maxPkgSize c n fresh).input = c.input.drop n := by
  unfold clientSockRead
  dsimp only
  split_ifs <;> exact ⟨rfl, rfl⟩

/-- One round of the loop: the message is complete, or the server goes on reading. -/
theorem clientSockRead_message (hmax : maxPkgSize < 2 ^ 31) (hm : ClientMessage maxPkgSize m)
    (hb : c.Buffered) (hs : c.Sized maxPkgSize) (hphase : c.phase = .reading) {n : Nat}
    (hin : n ≤ c.input.length) (fresh : Bytes) {behind next : Bytes}
    (hstream : c.received ++ c.input.take n ++ behind = m ++ next) :
    (clientSockRead maxPkgSize c n fresh).phase =
      if m.length ≤ c.offset + n then .dealing else .reading := by
  obtain ⟨hlen, hroom, hdata⟩ := hb.copy hin fresh
  have hbuf : ({ c.copy n fresh with offset := c.offset + n } : Connection).Buffered :=
    ⟨hlen, hroom, hdata⟩
  have hheader := hm.header
  have hle := hm.max
  have hadvance : ∀ length : Int, length = m.length → ((c.copy n fresh).advance length n).phase =
      if m.length ≤ c.offset + n then .dealing else .reading := by
    rintro length rfl
    refine if_congr ?_ rfl rfl
    show ((m.length : Int) ≤ c.offset + n) ↔ _
    omega
  have hknown : sizeofHeader ≤ c.offset + n →
      (c.copy n fresh).pkgLen = m.length - sizeofHeader ∧
        toInt32 ((c.copy n fresh).pkgLen + sizeofHeader) = m.length := fun hhead =>
    Connection.length_of_message hmax hm hstream (by rw [hlen]; exact hhead)
  unfold Connection.Sized at hs
  rw [hphase] at hs
  unfold clientSockRead
  dsimp only
  have hlength : (c.copy n fresh).task.length = c.task.length := rfl
  have hoffset : (c.copy n fresh).offset = c.offset := rfl
  rw [hlength, hoffset]
  rcases hs with ⟨hzero, -⟩ | ⟨hhead, -, hlength', -, hlt⟩
  · rw [if_pos hzero]
    by_cases hshort : c.offset + n < sizeofHeader
    · rw [if_pos hshort, if_neg (by omega)]
      exact hphase
    · obtain ⟨hpkg, hint⟩ := hknown (not_lt.mp hshort)
      have hfield : (c.copy n fresh).task.intAt pkgLenOffset = (c.copy n fresh).pkgLen :=
        hbuf.pkgLen (not_lt.mp hshort)
      rw [if_neg hshort, hfield, if_neg (by omega), if_neg (by omega)]
      exact hadvance _ hint
  · rw [List.append_assoc] at hstream
    have hint := (c.length_of_message hmax hm hstream (by rw [hb.offset]; exact hhead)).2
    rw [if_neg (by omega)]
    exact hadvance _ (hlength'.trans hint)

theorem Connection.headerAndBody_eq (hmax : maxPkgSize < 2 ^ 31) (hm : ClientMessage maxPkgSize m)
    (hb : c.Buffered) (hs : c.Sized maxPkgSize) (hphase : c.phase = .dealing)
    (hreceived : c.received = m) : c.task.headerAndBody = splitMessage m := by
  have hheader := hm.header
  have hle := hm.max
  unfold Connection.Sized at hs
  rw [hphase] at hs
  obtain ⟨-, -, hlength, -⟩ := hs
  have hlen := (c.length_of_message hmax hm (congrArg (· ++ []) hreceived)
    (by rw [hreceived]; exact hheader)).2
  have hbody : c.task.inBodyLen.toNat = m.length - sizeofHeader := by
    unfold FastTaskInfo.inBodyLen
    rw [hlength, hlen, toInt32_of_range (by omega) (by omega)]
    omega
  have hdata : readAt c.task.data 0 sizeofHeader ++
      readAt c.task.data sizeofHeader (m.length - sizeofHeader) = m := by
    have hall := hb.data
    rw [← hb.offset, hreceived] at hall
    have hsplit := readAt_add c.task.data 0 sizeofHeader (m.length - sizeofHeader)
    rw [Nat.zero_add, Nat.add_sub_cancel' hheader, hall] at hsplit
    exact hsplit.symm
  obtain ⟨hhead, htail⟩ := List.append_inj (hdata.trans (List.take_append_drop sizeofHeader m).symm)
    (by rw [readAt_length, List.length_take_of_le hheader])
  unfold FastTaskInfo.headerAndBody FastTaskInfo.bodyBytes splitMessage
  rw [hbody, Nat.add_zero, hhead, htail]

theorem Connection.Buffered.keepAlive (hb : c.Buffered) (hm : ClientMessage maxPkgSize m)
    (hreceived : c.received = m) :
    sizeofHeader ≤ c.task.data.length ∧ c.task.keepAlive ≠ 0 := by
  have hheader := hm.header
  have hoffset : m.length = c.offset := by rw [← hreceived]; exact hb.offset
  have hroom := hb.room
  have hdata := hb.data
  unfold sizeofHeader at hheader
  refine ⟨by unfold sizeofHeader; omega, fun hzero => hm.keepAlive ?_⟩
  rw [← hreceived, ← hdata, getD_readAt, if_pos (by unfold keepAliveOffset; omega), Nat.zero_add]
  exact hzero

end Recv

/-! ## The whole stream -/

/-- The messages `done` have been passed on and `todo` are to come. -/
structure KeptConnection.Between (maxPkgSize : Int) (s : KeptConnection) (done todo : List Bytes) :
    Prop where
  buffered : s.conn.Buffered
  sized : s.conn.Sized maxPkgSize
  dealt : s.dealt = done.map splitMessage
  open_ : s.conn.phase ≠ .closed
  reading : s.conn.phase = .reading → s.conn.received ++ s.conn.input = todo.flatten
  dealing : s.conn.phase = .dealing → s.conn.input = todo.flatten
  keptAlive : s.conn.phase = .dealing →
    sizeofHeader ≤ s.conn.task.data.length ∧ s.conn.task.keepAlive ≠ 0

section Stream

variable {S : StoreFuncs σ} {maxPkgSize : Int} {s s' : KeptConnection} {done todo : List Bytes}

theorem KeptConnection.Between.recv (hmax : maxPkgSize < 2 ^ 31)
    (htodo : ∀ m ∈ todo, ClientMessage maxPkgSize m) (h : s.Between maxPkgSize done todo)
    (hphase : s.conn.phase = .reading) {n : Nat} (h0 : 0 < n) (hn : n ≤ s.conn.recvBytes)
    (hin : n ≤ s.conn.input.length) (fresh : Bytes) :
    ∃ done' todo', done ++ todo = done' ++ todo' ∧
      KeptConnection.Between maxPkgSize ⟨clientSockRead maxPkgSize s.conn n fresh,
        if (clientSockRead maxPkgSize s.conn n fresh).phase = .dealing then
          s.dealt ++ [(clientSockRead maxPkgSize s.conn n fresh).task.headerAndBody]
        else s.dealt⟩ done' todo' := by
  have hall := h.reading hphase
  cases todo with
  | nil =>
    have hnil : s.conn.input = [] := (List.append_eq_nil_iff.mp hall).2
    rw [hnil] at hin
    exact absurd hin (by simp; omega)
  | cons m rest =>
    have hm := htodo m (List.mem_cons_self ..)
    have hle := (s.conn.recvBytes_le hmax hm h.buffered h.sized hphase hall).2
    have hstream : s.conn.received ++ s.conn.input.take n ++ s.conn.input.drop n =
        m ++ rest.flatten := by
      rw [List.append_assoc, List.take_append_drop]
      exact hall
    have hphase' := clientSockRead_message hmax hm h.buffered h.sized hphase hin fresh hstream
    obtain ⟨hreceived, hinput⟩ := clientSockRead_stream maxPkgSize s.conn n fresh
    have hframed := clientSockRead_framed h.buffered h.sized hphase hn hin fresh
    generalize clientSockRead maxPkgSize s.conn n fresh = c' at *
    have hopen : c'.phase ≠ .closed := by
      rw [hphase']
      split <;> nofun
    obtain ⟨hb, hs⟩ := hframed.resolve_left hopen
    by_cases hdone : m.length ≤ s.conn.offset + n
    · -- the message is complete, and the rest of the stream is untouched
      rw [if_pos hdone] at hphase'
      obtain ⟨hmessage, hrest⟩ := List.append_inj hstream (by
        rw [List.length_append, List.length_take_of_le hin, h.buffered.offset]
        omega)
      rw [if_pos hphase', Connection.headerAndBody_eq hmax hm hb hs hphase'
        (hreceived.trans hmessage)]
      refine ⟨done ++ [m], rest, by simp, hb, hs, ?_, hopen, ?_, fun _ => ?_, fun _ =>
        hb.keepAlive hm (hreceived.trans hmessage)⟩
      · rw [List.map_append, h.dealt]
        rfl
      · intro hreading
        rw [hphase'] at hreading
        cases hreading
      · exact hinput.trans hrest
    · rw [if_neg hdone] at hphase'
      have hnot : ¬ c'.phase = .dealing := by
        rw [hphase']
        nofun
      rw [if_neg hnot]
      refine ⟨done, m :: rest, rfl, hb, hs, h.dealt, hopen, fun _ => ?_,
        fun hd => absurd hd hnot, fun hd => absurd hd hnot⟩
      rw [hreceived, hinput]
      exact hstream

theorem KeptConnection.Between.answer (hS : S.TellsSize) (h : s.Between maxPkgSize done todo)
    (hphase : s.conn.phase = .dealing) (hquit : s.conn.task.cmd ≠ some .quit) {g : Globals}
    {env : TaskEnv} {server : Server σ}
    (hs : s.answer S maxPkgSize g env server = some s') : s'.Between maxPkgSize done todo := by
  obtain ⟨hroom, hkeep⟩ := h.keptAlive hphase
  unfold KeptConnection.answer at hs
  split at hs
  · cases hs
  · rename_i hdeal
    unfold workDealTask at hdeal
    split at hdeal
    · rename_i hcmd
      exact absurd hcmd hquit
    · obtain ⟨r, -, heq⟩ := Option.map_eq_some_iff.mp hdeal
      cases heq
  · rename_i hdeal
    rw [workDealTask_keepAlive hS hroom hdeal, if_neg hkeep] at hs
    simp only [Connection.step, if_pos hphase, Option.map_some, Option.some.injEq] at hs
    subst hs
    exact ⟨⟨rfl, Nat.zero_le _, rfl⟩, .inl ⟨rfl, (by decide : 0 < sizeofHeader)⟩, h.dealt, nofun,
      fun _ => h.dealing hphase, nofun, nofun⟩

theorem KeptConnection.Between.step (hS : S.TellsSize) (hmax : maxPkgSize < 2 ^ 31)
    (htodo : ∀ m ∈ todo, ClientMessage maxPkgSize m) (h : s.Between maxPkgSize done todo)
    {e : KeptEvent σ} (hopen : s.StaysOpen e) (hs : s.step S maxPkgSize e = some s') :
    ∃ done' todo', done ++ todo = done' ++ todo' ∧ s'.Between maxPkgSize done' todo' := by
  cases e with
  | recv n fresh =>
    have hno : ¬ (s.conn.phase = .reading ∧ s.conn.growthOverflows = true) := fun hover =>
      Bool.false_ne_true (hopen.symm.trans hover.2)
    simp only [KeptConnection.step, if_neg hno, Option.map_eq_some_iff] at hs
    obtain ⟨c, hc, rfl⟩ := hs
    simp only [Connection.step] at hc
    split_ifs at hc with hrecv
    obtain rfl := Option.some.inj hc
    obtain ⟨hphase, h0, hn, hin⟩ := hrecv
    exact h.recv hmax htodo hphase h0 hn hin fresh
  | answer g env server =>
    simp only [KeptConnection.step] at hs
    split_ifs at hs with hphase
    exact ⟨done, todo, rfl, h.answer hS hphase hopen hs⟩

end Stream

/-- **Every way of receiving a stream of messages passes on exactly these messages,
as long as the buffer grows within an `int` and no QUIT comes.** What has been passed on is the
beginning of the stream, message by message; while a message is dealt with nothing
behind it has been read; the connection stays open and asks for more as long as
something is missing, and once the stream is used up all messages have been passed
on. -/
theorem segmentation_independent {S : StoreFuncs σ} (hS : S.TellsSize) {maxPkgSize : Int}
    (hmax : maxPkgSize < 2 ^ 31)
    {messages : List Bytes} (hmessages : ∀ m ∈ messages, ClientMessage maxPkgSize m)
    {clientIp data : Bytes} {s : KeptConnection}
    (hrun : Runs (KeptConnection.step S maxPkgSize) KeptConnection.StaysOpen
      ⟨Connection.accept clientIp data messages.flatten, []⟩ s) :
    s.conn.phase ≠ .closed ∧
    (∃ done todo, messages = done ++ todo ∧ s.dealt = done.map splitMessage ∧
      (s.conn.phase = .dealing → s.conn.input = todo.flatten) ∧
      (s.conn.phase = .reading → s.conn.received ++ s.conn.input = todo.flatten ∧
        (s.conn.input ≠ [] → 0 < s.conn.recvBytes))) ∧
    (s.conn.input = [] → s.dealt = messages.map splitMessage) := by
  obtain ⟨done, todo, heq, hbetween⟩ := hrun.invariant
    (I := fun s => ∃ done todo, messages = done ++ todo ∧ s.Between maxPkgSize done todo)
    ⟨[], messages, rfl, ⟨rfl, Nat.zero_le _, rfl⟩, .inl ⟨rfl, (by decide : 0 < sizeofHeader)⟩, rfl,
      nofun, fun _ => rfl, nofun, nofun⟩ (by
      rintro s e s' ⟨done, todo, heq, hbetween⟩ hopen hs
      obtain ⟨done', todo', heq', hbetween'⟩ := hbetween.step hS hmax
        (fun m hm => hmessages m (by rw [heq]; exact List.mem_append_right _ hm)) hopen hs
      exact ⟨done', todo', heq.trans heq', hbetween'⟩)
  have htodo : ∀ m ∈ todo, ClientMessage maxPkgSize m := fun m hm =>
    hmessages m (by rw [heq]; exact List.mem_append_right _ hm)
  have hask : ∀ m rest, todo = m :: rest → s.conn.phase = .reading →
      0 < s.conn.recvBytes ∧ s.conn.offset + s.conn.recvBytes ≤ m.length := by
    rintro m rest rfl hphase
    exact s.conn.recvBytes_le hmax (htodo m (List.mem_cons_self ..)) hbetween.buffered
      hbetween.sized hphase (hbetween.reading hphase)
  refine ⟨hbetween.open_, ⟨done, todo, heq, hbetween.dealt, hbetween.dealing, fun hphase =>
    ⟨hbetween.reading hphase, fun hne => ?_⟩⟩, fun hnil => ?_⟩
  · cases todo with
    | nil => exact absurd (List.append_eq_nil_iff.mp (hbetween.reading hphase)).2 hne
    | cons m rest => exact (hask m rest rfl hphase).1
  · cases todo with
    | nil => rw [hbetween.dealt, heq, List.append_nil]
    | cons m rest =>
      -- something of the next message would still be in the stream
      have hheader := (htodo m (List.mem_cons_self ..)).header
      unfold sizeofHeader at hheader
      have hphase : s.conn.phase = .reading ∨ s.conn.phase = .dealing := by
        have hopen := hbetween.open_
        cases hp : s.conn.phase with
        | reading => exact .inl rfl
        | dealing => exact .inr rfl
        | closed => exact absurd hp hopen
      rcases hphase with hphase | hphase
      · have hlen := congrArg List.length (hbetween.reading hphase)
        have hoffset := hbetween.buffered.offset
        have hlt := hask m rest rfl hphase
        rw [hnil, List.append_nil, List.flatten_cons, List.length_append] at hlen
        omega
      · have hlen := congrArg List.length (hbetween.dealing hphase)
        rw [hnil, List.flatten_cons, List.length_append, List.length_nil] at hlen
        omega

/-- A header of a message with `keep_alive`. -/
def keptHeader (cmd : ProtoCmd) (pkgLen : Int) : Bytes :=
  int2buff pkgLen ++ List.replicate 12 0 ++ [cmd.toByte, 1, 0]

/-- A heart beat and a message with a body of one byte. -/
def twoMessages : List Bytes := [keptHeader .heartBeat 0, keptHeader .get 1 ++ [5]]

theorem twoMessages_fit : ∀ m ∈ twoMessages, ClientMessage 1024 m := by
  intro m hm
  rcases List.mem_pair.mp hm with rfl | rfl
  · exact ⟨by decide, by decide, by decide, by decide⟩
  · exact ⟨by decide, by decide, by decide, by decide⟩

def fourPieces (server : Server σ) : List (KeptEvent σ) :=
  [.recv 7 [], .recv 12 [], .answer oneGroup quietEnv server, .recv 19 [], .recv 1 []]

/-- Two messages, received in four pieces, by a server with either store. -/
theorem segmentation_independent_pieces :
    (∃ s, exec (KeptConnection.step bdbFuncs 1024) KeptConnection.StaysOpen
      (fourPieces emptyServer)
      ⟨Connection.accept [] (List.replicate 32 0) twoMessages.flatten, []⟩ = some s ∧
      s.dealt = twoMessages.map splitMessage) ∧
    ∃ s, exec (KeptConnection.step mpoolFuncs 1024) KeptConnection.StaysOpen
      (fourPieces ⟨emptyMpool, [], default⟩)
      ⟨Connection.accept [] (List.replicate 32 0) twoMessages.flatten, []⟩ = some s ∧
      s.dealt = twoMessages.map splitMessage := by
  have hmax : (1024 : Int) < 2 ^ 31 := by decide
  constructor
  · obtain ⟨s, hs, hinput⟩ : ∃ s, exec (KeptConnection.step bdbFuncs 1024)
        KeptConnection.StaysOpen (fourPieces emptyServer)
        ⟨Connection.accept [] (List.replicate 32 0) twoMessages.flatten, []⟩ = some s ∧
        s.conn.input = [] := ⟨_, rfl, by decide⟩
    exact ⟨s, hs, (segmentation_independent bdbFuncs_tellsSize hmax twoMessages_fit
      (Runs.of_exec hs)).2.2 hinput⟩
  · obtain ⟨s, hs, hinput⟩ : ∃ s, exec (KeptConnection.step mpoolFuncs 1024)
        KeptConnection.StaysOpen (fourPieces ⟨emptyMpool, [], default⟩)
        ⟨Connection.accept [] (List.replicate 32 0) twoMessages.flatten, []⟩ = some s ∧
        s.conn.input = [] := ⟨_, rfl, by decide⟩
    exact ⟨s, hs, (segmentation_independent mpoolFuncs_tellsSize hmax twoMessages_fit
      (Runs.of_exec hs)).2.2 hinput⟩

/-- A message of `2 ^ 31 - 1` bytes. -/
def hugeMessage : Bytes := keptHeader .set (2 ^ 31 - 20) ++ List.replicate (2 ^ 31 - 20) 0

theorem hugeMessage_length : hugeMessage.length = 2 ^ 31 - 1 := by
  unfold hugeMessage
  rw [List.length_append, List.length_replicate]
  rfl

theorem hugeMessage_isMessage : ClientMessage (2 ^ 31 - 1) hugeMessage where
  header := by rw [hugeMessage_length]; decide
  max := by rw [hugeMessage_length]; decide
  pkgLen := by
    have hfield : readAt hugeMessage 0 4 = int2buff (2 ^ 31 - 20) :=
      (readAt_append [] (int2buff (2 ^ 31 - 20)) _)
    rw [hfield, hugeMessage_length]
    decide
  keepAlive := by
    decide

def hugeConnection : Connection := Connection.accept [] (List.replicate 32 0) hugeMessage

theorem hugeConnection_input : 19 ≤ hugeConnection.input.length := by
  show 19 ≤ hugeMessage.length
  rw [hugeMessage_length]
  decide

theorem hugeConnection_read :
    (clientSockRead (2 ^ 31 - 1) hugeConnection 19 []).phase = .reading ∧
      (clientSockRead (2 ^ 31 - 1) hugeConnection 19 []).growthOverflows = true := by
  have hb : hugeConnection.Buffered := ⟨rfl, Nat.zero_le _, rfl⟩
  have hs : hugeConnection.Sized (2 ^ 31 - 1) := .inl ⟨rfl, (by decide : 0 < sizeofHeader)⟩
  have hstream : hugeConnection.received ++ hugeConnection.input.take 19 ++
      hugeConnection.input.drop 19 = hugeMessage ++ [] := by
    rw [List.append_assoc, List.take_append_drop, List.append_nil]
    rfl
  have hphase := clientSockRead_message (by decide) hugeMessage_isMessage hb hs rfl
    hugeConnection_input [] hstream
  rw [hugeMessage_length, if_neg (by decide)] at hphase
  obtain ⟨hreceived, -⟩ := clientSockRead_stream (2 ^ 31 - 1) hugeConnection 19 []
  have hdata : (clientSockRead (2 ^ 31 - 1) hugeConnection 19 []).task.data.length = 32 := by
    have hcopy : (clientSockRead (2 ^ 31 - 1) hugeConnection 19 []).task.data =
        writeAt (List.replicate 32 0) 0 (hugeConnection.input.take 19) := by
      unfold clientSockRead
      dsimp only
      split_ifs <;> rfl
    rw [hcopy, writeAt_length]
    · rfl
    · decide
  have hask : 19 ≤ hugeConnection.recvBytes := le_of_eq rfl
  have hframed := clientSockRead_framed hb hs rfl hask hugeConnection_input []
  generalize clientSockRead (2 ^ 31 - 1) hugeConnection 19 [] = c at *
  obtain ⟨hb', hs'⟩ := hframed.resolve_left (by rw [hphase]; nofun)
  have hlen : c.received.length = 19 := by
    rw [hreceived, List.length_append, List.length_take_of_le hugeConnection_input]
    rfl
  have hoffset : c.offset = 19 := hb'.offset.symm.trans hlen
  have hlength : c.task.length = 2 ^ 31 - 1 := by
    unfold Connection.Sized at hs'
    rw [hphase] at hs'
    rcases hs' with ⟨-, hshort⟩ | ⟨-, -, hlength, -⟩
    · rw [hoffset] at hshort
      exact absurd hshort (by decide)
    · rw [hlength, (c.length_of_message (by decide) hugeMessage_isMessage
        (by rw [hreceived]; exact hstream) (by rw [hlen]; decide)).2, hugeMessage_length]
      rfl
  refine ⟨hphase, ?_⟩
  unfold Connection.growthOverflows Connection.recvBytes
  rw [hlength, hoffset, hdata]
  decide

/-- The buffer would have to grow by the body of the message, which makes the size
negative: the connection is closed, and the message is never dealt with. -/
theorem huge_message_closes : ¬ ∀ (maxPkgSize : Int) (messages : List Bytes),
    maxPkgSize < 2 ^ 31 → (∀ m ∈ messages, ClientMessage maxPkgSize m) →
    ∀ (clientIp data : Bytes) (s : KeptConnection),
      Runs (KeptConnection.step bdbFuncs maxPkgSize) (fun _ _ => True)
        ⟨Connection.accept clientIp data messages.flatten, []⟩ s →
      s.conn.phase = .closed → s.dealt = messages.map splitMessage := by
  intro hall
  obtain ⟨hphase, hover⟩ := hugeConnection_read
  obtain ⟨c, hc⟩ : ∃ c, c = clientSockRead (2 ^ 31 - 1) hugeConnection 19 [] := ⟨_, rfl⟩
  rw [← hc] at hphase hover
  have hrecv : KeptConnection.step bdbFuncs (2 ^ 31 - 1)
      ⟨Connection.accept [] (List.replicate 32 0) [hugeMessage].flatten, []⟩ (.recv 19 []) =
        some ⟨c, []⟩ := by
    have hguard : hugeConnection.phase = .reading ∧ 0 < 19 ∧ 19 ≤ hugeConnection.recvBytes ∧
        19 ≤ hugeConnection.input.length :=
      ⟨rfl, by decide, le_of_eq rfl, hugeConnection_input⟩
    have hfits : ¬ (hugeConnection.phase = .reading ∧ hugeConnection.growthOverflows = true) :=
      fun h => Bool.false_ne_true h.2
    have hnot : ¬ c.phase = .dealing := by
      rw [hphase]
      nofun
    rw [List.flatten_singleton]
    change KeptConnection.step bdbFuncs (2 ^ 31 - 1) ⟨hugeConnection, []⟩ _ = _
    simp only [KeptConnection.step, Connection.step, if_neg hfits, if_pos hguard, Option.map_some,
      ← hc, if_neg hnot]
  have hclose : KeptConnection.step bdbFuncs (2 ^ 31 - 1) ⟨c, []⟩ (.recv 1 []) =
      some ⟨{ c with phase := .closed }, []⟩ := if_pos ⟨hphase, hover⟩
  have hdealt := hall (2 ^ 31 - 1) [hugeMessage] (by decide)
    (fun m hm => by rw [List.mem_singleton.mp hm]; exact hugeMessage_isMessage) [] _ _
    ((ReflTransGen.single ⟨_, trivial, hrecv⟩).tail ⟨_, trivial, hclose⟩) rfl
  exact List.cons_ne_nil _ _ hdealt.symm

end FastDht
