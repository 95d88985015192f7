import FastDht.Client.FdhtClient
import FastDht.Server.ReadAnswers

/-! # How the client reads the response to a batch

`fdht_recv_header` takes the status and the length from the header; the callers walk
over the body with their own arithmetic. A response whose entries are in the order of
the keys is read back entry by entry. -/
namespace FastDht
open Lib

def toChar (b : UInt8) : Int := if b.toNat < 128 then b.toNat else b.toNat - 256

/-- `fdht_recv_header`: the length of the body, or the result. -/
def fdhtRecvHeader (resp : Bytes) : Except Int Int :=
  let status := toChar (resp.getD statusOffset 0)
  if status ≠ 0 then .error status
  else
    let inBytes := buff2int (readAt resp pkgLenOffset 4)
    if inBytes < 0 then .error EINVAL else .ok inBytes

/-- What the caller finds in an `FDHTKeyValuePair`. -/
structure KeyResult where
  szKey : Bytes
  status : Int
  value : Bytes
  deriving DecidableEq, Repr

/-- The loop of `fdht_batch_set_ex` and `fdht_batch_delete_ex` over the body. -/
def readStatuses (body : Bytes) : Nat → Nat → List KeyResult
  | 0, _ => []
  | n + 1, p =>
    let keyLen := (buff2int (readAt body p 4)).toNat
    ⟨readAt body (p + 4) keyLen, toChar (body.getD (p + 4 + keyLen) 0), []⟩ ::
      readStatuses body n (p + 4 + keyLen + 1)

/-- A value for a caller who has brought a buffer of a certain size, or for whom one is
allocated. -/
def storeValue (key : Bytes) (buffer : Option Int) (valueLen : Int) (value : Bytes) : KeyResult :=
  match buffer with
  | none => ⟨key, 0, value⟩
  | some size => if size ≤ valueLen then ⟨key, ENOSPC, []⟩ else ⟨key, 0, value⟩

/-- The loop of `fdht_batch_get_ex1` over the body, and where it ends. -/
def readValues (body : Bytes) : List (Option Int) → Nat → List KeyResult × Nat
  | [], p => ([], p)
  | buffer :: buffers, p =>
    let keyLen := (buff2int (readAt body p 4)).toNat
    let key := readAt body (p + 4) keyLen
    let status := toChar (body.getD (p + 4 + keyLen) 0)
    if status ≠ 0 then
      let rest := readValues body buffers (p + 4 + keyLen + 1)
      (⟨key, status, []⟩ :: rest.1, rest.2)
    else
      let valueLen := buff2int (readAt body (p + 4 + keyLen + 1) 4)
      let value := readAt body (p + 4 + keyLen + 1 + 4) valueLen.toNat
      let rest := readValues body buffers (p + 4 + keyLen + 1 + 4 + valueLen).toNat
      (storeValue key buffer valueLen value :: rest.1, rest.2)

/-! ## The header -/

theorem toChar_byteAt {n : Int} (h : FitsByte n) : toChar (byteAt n 0) = n := by
  obtain ⟨hl, hu⟩ := h
  have hbyte := byteAt_toNat n 0
  unfold toChar
  split <;> omega

/-! ## The entries -/

section Entries

variable {body before behind v : Bytes}

theorem readAt_at (before behind : Bytes) {p n : Nat} (h : body = before ++ (v ++ behind))
    (hp : p = before.length) (hn : n = v.length) : readAt body p n = v := by
  rw [h, hp, hn]
  exact readAt_append before v behind

end Entries

/-! ## Whole responses -/

section Answers

variable {os : List Outcome}

theorem statusEntries_length (os : List Outcome) :
    (os.flatMap statusEntry).length =
      5 * os.length + (os.map fun o => o.keyInfo.szKey.length).sum := by
  induction os with
  | nil => rfl
  | cons o os ih =>
    rw [List.flatMap_cons, List.length_append, statusEntry_length, keyEntry_length, ih,
      List.length_cons, List.map_cons, List.sum_cons]
    omega

theorem statusesBody_length {keyList : List FDHTSubKey}
    (hkeys : os.map (fun o => o.keyInfo.szKey) = keyList.map FDHTSubKey.szKey) (count : Nat) :
    (int2buff os.length ++ (int2buff count ++ os.flatMap statusEntry)).length =
      8 + 5 * keyList.length + (keyList.map fun key => key.szKey.length).sum := by
  have hlen : os.length = keyList.length := by
    have := congrArg List.length hkeys
    rwa [List.length_map, List.length_map] at this
  have htotal : (os.map fun o => o.keyInfo.szKey.length).sum =
      (keyList.map fun key => key.szKey.length).sum := by
    have := congrArg (fun l => (l.map List.length).sum) hkeys
    simp only [List.map_map] at this
    exact this
  rw [List.length_append, List.length_append, int2buff_length, int2buff_length,
    statusEntries_length os, hlen, htotal]
  omega

end Answers

end FastDht
