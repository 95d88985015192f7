import FastDht.Client.BatchResponses
import FastDht.Client.RequestBuffers

/-! # Reading from a connection

`tcprecvdata_nb` of common/sockopt.c collects the bytes it is asked for, in whatever
pieces they arrive, and gives up at the first event that is not data. The functions of
the client read a header, look at the length in it and then decide whether to read the
body; what they leave is still there for the next call on the connection. -/
namespace FastDht
open Lib

def ENETDOWN : Int := 100
def ENOTCONN : Int := 107
def ETIMEDOUT : Int := 110

/-! ## The receiving loop -/

/-- The bytes that can be read from a socket, and the result of reading further. -/
structure Incoming where
  bytes : Bytes
  ending : Int
  deriving DecidableEq, Repr

/-- A function that reads from the connection: it ends with an error, or goes on. -/
abbrev Receive := EStateM Int Incoming

def tcprecvdataNb (size : Nat) : Receive Bytes := fun s =>
  if size ≤ s.bytes.length then
    .ok (s.bytes.take size) { s with bytes := s.bytes.drop size }
  else .error s.ending { s with bytes := [] }

/-! ## The responses of the calls -/

/-- `fdht_recv_header`. -/
def recvHeader : Receive Int := do
  let resp ← tcprecvdataNb sizeofHeader
  match fdhtRecvHeader resp with
  | .error result => throw result
  | .ok inBytes => return inBytes

/-- `fdht_recv_response`. Without a buffer one is allocated, if `malloc` succeeds. -/
def fdhtRecvResponse (buffSize : Option Int) (malloc : Bool) : Receive Bytes := do
  let inBytes ← recvHeader
  if inBytes = 0 then return []
  else
    match buffSize with
    | none => if malloc then tcprecvdataNb inBytes.toNat else throw ENOMEM
    | some size => if size < inBytes then throw ENOSPC else tcprecvdataNb inBytes.toNat

/-- `fdht_get_ex1` after the request, with a buffer of `*value_len` bytes or none. -/
def getEx1Response (valueLen : Option Int) (malloc : Bool) : Receive Bytes := do
  let inBytes ← recvHeader
  if inBytes < 4 then throw EINVAL
  else
    let vlen := buff2int (← tcprecvdataNb 4)
    if vlen ≠ inBytes - 4 then throw EINVAL
    else
      match valueLen with
      | some size => if size ≤ vlen then throw ENOSPC else tcprecvdataNb vlen.toNat
      | none => if malloc then tcprecvdataNb vlen.toNat else throw ENOMEM

/-- `fdht_batch_set_ex` and `fdht_batch_delete_ex` after the request. -/
def statusesResponse (keyList : List FDHTSubKey) : Receive (Int × List KeyResult) := do
  let inBytes ← recvHeader
  let totalKeyLen := (keyList.map fun key => key.szKey.length).sum
  if inBytes ≠ (8 + 5 * keyList.length + totalKeyLen : Nat) then throw EINVAL
  else
    let body ← tcprecvdataNb inBytes.toNat
    if buff2int (readAt body 0 4) ≠ keyList.length then throw EINVAL
    else return (buff2int (readAt body 4 4), readStatuses body keyList.length 8)

/-- `sizeof(buff)` in `fdht_batch_get_ex1`. -/
def batchGetBuff : Nat :=
  sizeofHeader + fdhtMaxFullKeyLen + (4 + fdhtMaxSubKeyLen) * fdhtMaxKeyCountPerReq + 32 * 1024

/-- `fdht_batch_get_ex1` after the request, for keys with these buffers. A body that does not
fit the array is read into an allocated one. -/
def batchGetEx1Response (buffers : List (Option Int)) (malloc : Bool) :
    Receive (Int × List KeyResult) := do
  let inBytes ← recvHeader
  if inBytes < 17 then throw EINVAL
  else if batchGetBuff < inBytes ∧ malloc = false then throw ENOMEM
  else
    let body ← tcprecvdataNb inBytes.toNat
    if buff2int (readAt body 0 4) ≠ buffers.length then throw EINVAL
    else
      let read := readValues body buffers 8
      if inBytes ≠ read.2 then throw EINVAL else return (buff2int (readAt body 4 4), read.1)

/-- `sizeof(buff)` in `fdht_inc_ex`. -/
def incBuff : Nat := fdhtMaxFullKeyLen + 32

/-- `fdht_inc_ex` after the request, with a buffer of `*value_len` bytes. -/
def incExResponse (valueLen : Int) : Receive Bytes := do
  let body ← fdhtRecvResponse (some incBuff) false
  if body.length < 4 then throw EINVAL
  else if valueLen ≤ body.length - 4 then throw ENOSPC
  else return body.drop 4

/-- `fdht_get_sub_keys_ex` after the request, with a buffer of `key_size` bytes or none. -/
def getSubKeysExResponse (keySize : Option Int) (malloc : Bool) : Receive Bytes :=
  fdhtRecvResponse (keySize.map (· - 1)) malloc

/-- `fdht_client_set` and `fdht_client_delete` after the request. -/
def emptyResponse : Receive Unit := do
  let inBytes ← recvHeader
  if inBytes ≠ 0 then throw EINVAL else return ()

/-- The result of a function, and what it has left on the connection. -/
def outcome {α : Type} (m : Receive α) (s : Incoming) : Int × Incoming :=
  match m s with
  | .ok _ s' => (0, s')
  | .error result s' => (result, s')

/-! ## Well-formed responses -/

/-- A response: `fields` are those of the header between `pkg_len` and `status`. -/
structure Response where
  status : Int
  fields : Bytes
  body : Bytes
  status_fits : FitsByte status
  fields_length : fields.length = 14
  body_lt : body.length < 2 ^ 31

theorem blankFields_length : (List.replicate 14 (0 : UInt8)).length = 14 := rfl

def Response.header (r : Response) : Bytes :=
  int2buff r.body.length ++ (r.fields ++ statusByte r.status)

def Response.bytes (r : Response) : Bytes := r.header ++ r.body

theorem Response.header_length (r : Response) : sizeofHeader = r.header.length := by
  rw [header, List.length_append, List.length_append, int2buff_length, r.fields_length]
  rfl

/-- The body that belongs to a successful response, as it is described above the functions
of the client. -/
def ClientCall.Answered (body : Bytes) : ClientCall → Prop
  | .get _ _ | .inc _ _ _ => ∃ value : Bytes, body = int2buff value.length ++ value
  | .set _ _ _ | .delete _ => body = []
  | .batchSet _ keyList _ => ∃ os : List Outcome,
      os.map (fun o => o.keyInfo.szKey) = keyList.map (fun e => e.1.szKey) ∧
      body = int2buff os.length ++ (int2buff (os.countP Outcome.ok) ++ os.flatMap statusEntry)
  | .batchDelete _ keyList => ∃ os : List Outcome,
      os.map (fun o => o.keyInfo.szKey) = keyList.map FDHTSubKey.szKey ∧
      body = int2buff os.length ++ (int2buff (os.countP Outcome.ok) ++ os.flatMap statusEntry)
  | .batchGet _ keyList _ => ∃ os : List Outcome,
      os.map (fun o => o.keyInfo.szKey) = keyList.map FDHTSubKey.szKey ∧
      body = int2buff os.length ++ (int2buff (os.countP Outcome.ok) ++ os.flatMap valueEntry)
  | .getSubKeys _ => True

/-- A well-formed response to a call: an error comes without a body. -/
structure Response.WellFormed (r : Response) (c : ClientCall) : Prop where
  failed : r.status ≠ 0 → r.body = []
  succeeded : r.status = 0 → c.Answered r.body

/-! ## Running the functions -/

section Running

variable {α β : Type} {m : Receive α} {f : α → Receive β} {s s' : Incoming} {bytes : Bytes}

theorem bind_ok {a : α} (h : m s = .ok a s') : (m >>= f) s = f a s' := by
  show EStateM.bind m f s = f a s'
  unfold EStateM.bind
  rw [h]

theorem bind_error {result : Int} (h : m s = .error result s') :
    (m >>= f) s = .error result s' := by
  show EStateM.bind m f s = .error result s'
  unfold EStateM.bind
  rw [h]

theorem outcome_bind_ok {a : α} (h : m s = .ok a s') :
    outcome (m >>= f) s = outcome (f a) s' := by
  unfold outcome
  rw [bind_ok h]

theorem outcome_bind_error {result : Int} (h : m s = .error result s') :
    outcome (m >>= f) s = (result, s') := by
  unfold outcome
  rw [bind_error h]

theorem tcprecvdataNb_append {size : Nat} (h : size = bytes.length) (rest : Bytes) (ending : Int) :
    tcprecvdataNb size ⟨bytes ++ rest, ending⟩ = .ok bytes ⟨rest, ending⟩ := by
  unfold tcprecvdataNb
  rw [h, if_pos (by rw [List.length_append]; exact Nat.le_add_right _ _), List.take_left,
    List.drop_left]

theorem tcprecvdataNb_all {size : Nat} (h : size = bytes.length) (ending : Int) :
    tcprecvdataNb size ⟨bytes, ending⟩ = .ok bytes ⟨[], ending⟩ := by
  have hall := tcprecvdataNb_append h [] ending
  rwa [List.append_nil] at hall

theorem recvHeader_header (r : Response) (rest : Bytes) (ending : Int) :
    recvHeader ⟨r.header ++ rest, ending⟩ =
      if r.status = 0 then .ok r.body.length ⟨rest, ending⟩
      else .error r.status ⟨rest, ending⟩ := by
  have hbody := r.body_lt
  have hstatus : toChar (r.header.getD statusOffset 0) = r.status := by
    have hread : readAt r.header statusOffset 1 = statusByte r.status := by
      refine readAt_at (int2buff r.body.length ++ r.fields) [] ?_ ?_ rfl
      · rw [Response.header, List.append_nil, List.append_assoc]
      · rw [List.length_append, int2buff_length, r.fields_length]
        rfl
    have hbyte := congrArg (fun l => l.getD 0 0) hread
    rw [getD_readAt, if_pos Nat.zero_lt_one, Nat.add_zero] at hbyte
    rw [hbyte]
    exact toChar_byteAt r.status_fits
  have hpkg : buff2int (readAt r.header pkgLenOffset 4) = r.body.length := by
    have hread : readAt r.header pkgLenOffset 4 = int2buff r.body.length :=
      readAt_at [] (r.fields ++ statusByte r.status) rfl rfl (int2buff_length _).symm
    rw [hread, ← List.append_nil (int2buff _), buff2int_int2buff,
      toInt32_of_range (by omega) (by omega)]
  unfold recvHeader
  rw [bind_ok (tcprecvdataNb_append r.header_length rest ending)]
  unfold fdhtRecvHeader
  rw [hstatus, hpkg]
  by_cases h0 : r.status = 0
  · rw [if_neg (not_not.mpr h0), if_neg (by omega), if_pos h0]
    rfl
  · rw [if_pos h0, if_neg h0]
    rfl

end Running

end FastDht
