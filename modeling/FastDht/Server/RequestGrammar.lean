import FastDht.Server.StoredValues
import FastDht.Server.Sync

/-! # The bodies that the handlers of single keys accept

A body is a namespace, an object id and a sub key, each after its length, and what the
command has besides: a value after its length for SET, four bytes for INC. The handlers
check the lengths one by one and then the length of the whole. The check that the body
is longer than its fixed part stands for the check that the sub key is not empty, which
SET gets wrong when it has a value. -/
namespace FastDht
open Lib

/-! ## Integers that are read -/

theorem int2buff_buff2int {b : Bytes} (h : b.length = 4) : int2buff (buff2int b) = b := by
  obtain ⟨b₀, b₁, b₂, b₃, rfl⟩ : ∃ b₀ b₁ b₂ b₃, b = [b₀, b₁, b₂, b₃] :=
    List.length_eq_four.mp h
  have h₀ := UInt8.toNat_lt b₀
  have h₁ := UInt8.toNat_lt b₁
  have h₂ := UInt8.toNat_lt b₂
  have h₃ := UInt8.toNat_lt b₃
  obtain ⟨n, hn⟩ : ∃ n : Nat, n = 2 ^ 24 * b₀.toNat + 2 ^ 16 * b₁.toNat + 2 ^ 8 * b₂.toNat +
    b₃.toNat := ⟨_, rfl⟩
  have hint : int2buff (buff2int [b₀, b₁, b₂, b₃]) = int2buff n := by
    rw [hn]
    exact int2buff_toInt32 _
  have hbyte : ∀ (s : Nat) (c : UInt8), ((n : Int) / 2 ^ s % 256 = c.toNat) → byteAt n s = c := by
    intro s c hc
    have htoNat := byteAt_toNat n s
    refine UInt8.toNat_inj.mp ?_
    omega
  rw [hint, int2buff, hbyte 24 b₀ (by omega), hbyte 16 b₁ (by omega), hbyte 8 b₂ (by omega),
    hbyte 0 b₃ (by omega)]

theorem FastTaskInfo.int2buff_bodyInt (t : FastTaskInfo) (off : Nat) :
    int2buff (t.bodyInt off) = t.bodyBytes off 4 :=
  int2buff_buff2int (readAt_length _ _ _)

theorem FastTaskInfo.bodyBytes_add (t : FastTaskInfo) (off n m : Nat) :
    t.bodyBytes off (n + m) = t.bodyBytes off n ++ t.bodyBytes (off + n) m := by
  unfold FastTaskInfo.bodyBytes
  rw [readAt_add, Nat.add_assoc]

/-! ## A body in its task -/

/-- The task holds the body behind its header, and its length says so. -/
structure FastTaskInfo.Delivers (t : FastTaskInfo) (body : Bytes) : Prop where
  holds : t.HoldsAt sizeofHeader body
  length : t.length = sizeofHeader + body.length
  int : t.length < 2 ^ 31

section Delivers

variable {g : Globals} {t : FastTaskInfo} {body : Bytes} {minBodyLen : Int} {k : FDHTKeyInfo}

theorem FastTaskInfo.Delivers.inBodyLen (h : t.Delivers body) : t.inBodyLen = body.length := by
  have hlength := h.length
  have hint := h.int
  unfold FastTaskInfo.inBodyLen
  rw [toInt32_of_range (by omega) (by omega)]
  omega

theorem FastTaskInfo.Delivers.bodyBytes (h : t.Delivers body) : t.bodyBytes 0 body.length = body :=
  h.holds.bytes

theorem parseKeyRequest_bytes {r : KeyRequest} (hp : parseKeyRequest g minBodyLen t = some r) :
    r.header = t.header g ∧ r.off = 12 + r.keyInfo.bytes ∧
      t.bodyBytes 0 r.off = r.keyInfo.packBodyUntilKey ∧
      minBodyLen + r.keyInfo.bytes ≤ t.inBodyLen ∧
      minBodyLen + r.keyInfo.szNameSpace.length + r.keyInfo.szObjectId.length < t.inBodyLen := by
  simp only [parseKeyRequest, Option.bind_eq_bind, Option.bind_eq_some_iff, Option.pure_def,
    Option.some.injEq] at hp
  obtain ⟨header, hheader, k, hk, k', hk', rfl⟩ := hp
  unfold checkGroupId at hheader
  split at hheader
  case isFalse => cases hheader
  obtain rfl := Option.some.inj hheader
  unfold parseCommonBodyBeforeKey at hk
  split_ifs at hk with h₁ h₂ h₃ h₄ h₅
  obtain rfl := Option.some.inj hk
  unfold parseCommonBodyKey at hk'
  split_ifs at hk' with h₆ h₇
  obtain rfl := Option.some.inj hk'
  obtain ⟨n, hn⟩ := Int.eq_ofNat_of_zero_le (show 0 ≤ t.namespaceLen by omega)
  obtain ⟨o, ho⟩ := Int.eq_ofNat_of_zero_le (show 0 ≤ t.objIdLen by omega)
  obtain ⟨m, hm⟩ := Int.eq_ofNat_of_zero_le (show 0 ≤ t.keyLen by omega)
  have hkeyOffset : t.keyOffset = 4 + n + 4 + o := by
    unfold FastTaskInfo.keyOffset
    rw [hn, ho]
    rfl
  -- the three lengths are the bytes they were read from
  have hnBytes : int2buff n = t.bodyBytes 0 4 := by
    rw [← t.int2buff_bodyInt 0]
    exact congrArg int2buff hn.symm
  have hoBytes : int2buff o = t.bodyBytes (4 + n) 4 := by
    rw [← t.int2buff_bodyInt (4 + n), ← ho, FastTaskInfo.objIdLen, hn]
    rfl
  have hmBytes : int2buff m = t.bodyBytes (4 + n + 4 + o) 4 := by
    rw [← t.int2buff_bodyInt, ← hkeyOffset, ← hm]
    rfl
  have hlen : ∀ off n, (t.bodyBytes off n).length = n := fun off n => readAt_length _ _ _
  simp only [FDHTKeyInfo.withKey, FDHTKeyInfo.bytes, hlen, hn, ho, hm, hkeyOffset,
    Int.toNat_natCast] at h₅ h₇ ⊢
  refine ⟨trivial, by omega, ?_, by push_cast; omega, Int.not_le.mp h₅⟩
  simp only [FDHTKeyInfo.packBodyUntilKey, hlen]
  rw [hnBytes, hoBytes, hmBytes, ← t.bodyBytes_add, ← t.bodyBytes_add, ← t.bodyBytes_add]
  rw [show 4 + n + 4 + o + 4 + m = 4 + (n + (4 + (o + (4 + m)))) by omega, t.bodyBytes_add 0,
    t.bodyBytes_add (0 + 4), Nat.zero_add]

theorem parseKeyRequest_packed (minBodyLen : Int)
    (howns : g.ownsGroup (t.header g).groupId = true)
    (h : t.HoldsAt sizeofHeader k.packBodyUntilKey) (hmin : minBodyLen + k.bytes ≤ t.inBodyLen)
    (hmore : minBodyLen + k.szNameSpace.length + k.szObjectId.length < t.inBodyLen) :
    parseKeyRequest g minBodyLen t = some ⟨t.header g, k, 12 + k.bytes⟩ := by
  obtain ⟨hparse, hoff⟩ := parseCommonBody_packed h hmin hmore
  obtain ⟨k', hbefore, hafter⟩ := Option.bind_eq_some_iff.mp hparse
  have hcheck : checkGroupId g t = some (t.header g) := if_pos howns
  simp only [parseKeyRequest, hcheck, hbefore, hafter, hoff, Option.bind_eq_bind,
    Option.bind_some, Option.pure_def]

end Delivers

/-! ## The four commands -/

/-- The commands for one key. -/
inductive SingleCmd
  | get
  | set
  | del
  | inc
  deriving DecidableEq, Repr

namespace SingleCmd

/-- The part of the body behind the key, for a command's argument. -/
def pack : SingleCmd → Bytes → Bytes
  | get, _ | del, _ => []
  | set, value => int2buff value.length ++ value
  | inc, increment => increment

/-- GET and DEL have no argument, INC has one of four bytes. -/
def Takes : SingleCmd → Bytes → Prop
  | get, arg | del, arg => arg = []
  | set, _ => True
  | inc, arg => arg.length = 4

/-- The body is that of the command for a key and an argument. -/
structure Grammar (c : SingleCmd) (body : Bytes) (k : FDHTKeyInfo) (arg : Bytes) : Prop where
  body : body = k.packBodyUntilKey ++ c.pack arg
  takes : c.Takes arg
  key_ne : k.szKey ≠ []
  not_list : k.szKey ≠ fdhtListKeyName

/-- What the parsing checks of the handler leave: the key and the argument. -/
def parse (g : Globals) (c : SingleCmd) (t : FastTaskInfo) : Option (FDHTKeyInfo × Bytes) :=
  match c with
  | get | del => (parseExact g 12 true t).map fun r => (r.keyInfo, [])
  | set => (parseSet g true t).map fun r => (r.1.keyInfo, t.bodyBytes (r.1.off + 4) r.2)
  | inc => (parseExact g 16 true t).map fun r => (r.keyInfo, t.bodyBytes r.off 4)

end SingleCmd

section Parse

variable {g : Globals} {t : FastTaskInfo} {body : Bytes} {k : FDHTKeyInfo}

/-- GET, DEL and INC: the key and `n` bytes behind it. -/
theorem parseExact_iff (h : t.Delivers body) (howns : g.ownsGroup (t.header g).groupId = true)
    (n : Nat) (arg : Bytes) :
    (∃ r, parseExact g (12 + n) true t = some r ∧ r.keyInfo = k ∧ t.bodyBytes r.off n = arg) ↔
      body = k.packBodyUntilKey ++ arg ∧ arg.length = n ∧ k.szKey ≠ [] ∧
        k.szKey ≠ fdhtListKeyName := by
  have hbody := h.inBodyLen
  have hbytes : k.bytes = k.szNameSpace.length + k.szObjectId.length + k.szKey.length := rfl
  constructor
  · rintro ⟨r, hr, rfl, rfl⟩
    obtain ⟨hparse, hchecks⟩ := Option.filter_eq_some_iff.mp hr
    obtain ⟨-, hoff, hpacked, hmin, hmore⟩ := parseKeyRequest_bytes hparse
    rw [Bool.and_eq_true] at hchecks
    obtain ⟨hexact, hname⟩ := hchecks
    have hexact : t.inBodyLen = _ := of_decide_eq_true hexact
    have hlen : body.length = r.off + n := by omega
    refine ⟨?_, readAt_length _ _ _, ?_, of_decide_eq_true hname⟩
    · rw [← h.bodyBytes, hlen, t.bodyBytes_add, hpacked, Nat.zero_add]
    · intro hnil
      rw [hnil, List.length_nil] at hexact
      omega
  · rintro ⟨rfl, hlen, hne, hlist⟩
    have hpos := List.length_pos_iff.mpr hne
    rw [List.length_append, packBodyUntilKey_length, hlen] at hbody
    obtain ⟨hkey, harg⟩ := h.holds.split
    rw [packBodyUntilKey_length] at harg
    have hparse := parseKeyRequest_packed (12 + n) howns hkey
      (by push_cast at hbody; omega) (by push_cast at hbody; omega)
    refine ⟨⟨t.header g, k, 12 + k.bytes⟩, ?_, rfl, by rw [← hlen]; exact harg.bytes⟩
    unfold parseExact
    rw [hparse, Option.filter_some, if_pos]
    have hexact : t.hasBodyLen (12 + n) k = true := by
      unfold FastTaskInfo.hasBodyLen
      rw [hbody, decide_eq_true_eq]
      omega
    rw [hexact]
    exact decide_eq_true hlist

/-- SET: the check that stands for a sub key passes as well for a value. -/
theorem parseSet_iff (h : t.Delivers body) (howns : g.ownsGroup (t.header g).groupId = true)
    (arg : Bytes) :
    (∃ r n, parseSet g true t = some (r, n) ∧ r.keyInfo = k ∧
        t.bodyBytes (r.off + 4) n = arg) ↔
      body = k.packBodyUntilKey ++ (int2buff arg.length ++ arg) ∧
        (k.szKey ≠ [] ∨ arg ≠ []) ∧ k.szKey ≠ fdhtListKeyName := by
  have hbody := h.inBodyLen
  have hint := h.int
  have hlength := h.length
  have hbytes : k.bytes = k.szNameSpace.length + k.szObjectId.length + k.szKey.length := rfl
  constructor
  · rintro ⟨r, n, hr, rfl, rfl⟩
    obtain ⟨r', hparse, hr⟩ := Option.bind_eq_some_iff.mp hr
    obtain ⟨-, hoff, hpacked, hmin, hmore⟩ := parseKeyRequest_bytes hparse
    dsimp only at hr
    split at hr
    case isTrue => cases hr
    rename_i hneg
    split at hr
    case isFalse => cases hr
    rename_i hchecks
    obtain ⟨rfl, rfl⟩ := Prod.mk.inj (Option.some.inj hr)
    obtain ⟨n, hn⟩ := Int.eq_ofNat_of_zero_le (Int.not_lt.mp hneg)
    rw [Bool.and_eq_true] at hchecks
    obtain ⟨hexact, hname⟩ := hchecks
    have hexact : t.inBodyLen = _ := of_decide_eq_true hexact
    have hlen : body.length = r'.off + (4 + n) := by omega
    have harg : (t.bodyBytes (r'.off + 4) n).length = n := readAt_length _ _ _
    rw [hn, Int.toNat_natCast, harg]
    refine ⟨?_, ?_, of_decide_eq_true hname⟩
    · rw [← hn, t.int2buff_bodyInt, ← t.bodyBytes_add, ← hpacked]
      conv_lhs => rw [← h.bodyBytes, hlen, t.bodyBytes_add, Nat.zero_add]
    · by_contra hnil
      push Not at hnil
      rw [hnil.2, List.length_nil] at harg
      rw [hnil.1, List.length_nil] at hexact
      omega
  · rintro ⟨rfl, hne, hlist⟩
    have hpos : 0 < k.szKey.length + arg.length := by
      rcases hne with hne | hne
      · have := List.length_pos_iff.mpr hne
        omega
      · have := List.length_pos_iff.mpr hne
        omega
    rw [List.length_append, packBodyUntilKey_length, List.length_append, int2buff_length]
      at hbody hlength
    obtain ⟨hkey, hrest⟩ := h.holds.split
    rw [packBodyUntilKey_length] at hrest
    obtain ⟨hargLen, harg⟩ := hrest.split
    have hvalueLen : t.bodyInt (12 + k.bytes) = arg.length :=
      hargLen.int.trans (toInt32_of_range (by omega) (by omega))
    have hparse := parseKeyRequest_packed 16 howns hkey (by omega) (by omega)
    have hexact : t.hasBodyLen (16 + arg.length) k = true := by
      unfold FastTaskInfo.hasBodyLen
      rw [hbody, decide_eq_true_eq]
      omega
    have hname : checkSubKeyName k = true := decide_eq_true hlist
    refine ⟨⟨t.header g, k, 12 + k.bytes⟩, arg.length, ?_, rfl, harg.bytes⟩
    unfold parseSet
    rw [hparse, Option.bind_some]
    rw [hvalueLen, if_neg (by omega), hexact, hname, Int.toNat_natCast]
    rfl

theorem SingleCmd.parse_iff {arg : Bytes} (h : t.Delivers body)
    (howns : g.ownsGroup (t.header g).groupId = true) (c : SingleCmd) :
    c.parse g t = some (k, arg) ↔ body = k.packBodyUntilKey ++ c.pack arg ∧ c.Takes arg ∧
      (k.szKey ≠ [] ∨ c = set ∧ arg ≠ []) ∧ k.szKey ≠ fdhtListKeyName := by
  have hexact : (parseExact g 12 true t).map (fun r => (r.keyInfo, [])) = some (k, arg) ↔
      body = k.packBodyUntilKey ++ [] ∧ arg = [] ∧ k.szKey ≠ [] ∧ k.szKey ≠ fdhtListKeyName := by
    rw [Option.map_eq_some_iff]
    constructor
    · rintro ⟨r, hr, heq⟩
      obtain ⟨rfl, rfl⟩ := Prod.mk.inj heq
      obtain ⟨hbody, -, hne, hlist⟩ := (parseExact_iff h howns 0 []).mp ⟨r, hr, rfl, rfl⟩
      exact ⟨hbody, rfl, hne, hlist⟩
    · rintro ⟨hbody, rfl, hne, hlist⟩
      obtain ⟨r, hr, rfl, -⟩ := (parseExact_iff h howns 0 []).mpr ⟨hbody, rfl, hne, hlist⟩
      exact ⟨r, hr, rfl⟩
  cases c with
  | get =>
    refine hexact.trans ?_
    simp [pack, Takes]
  | del =>
    refine hexact.trans ?_
    simp [pack, Takes]
  | inc =>
    have hinc := parseExact_iff (k := k) h howns 4 arg
    simp only [parse, Option.map_eq_some_iff, Prod.mk.injEq, pack, Takes, reduceCtorEq, false_and,
      or_false]
    exact hinc
  | set =>
    have hset := parseSet_iff (k := k) h howns arg
    simp only [parse, Option.map_eq_some_iff, Prod.mk.injEq, Prod.exists, pack, Takes, true_and]
    exact hset

/-- **The checks of a handler accept exactly the bodies of its grammar, with their one
decomposition, unless the body is that of a SET with a value and an empty sub key.** -/
theorem single_parse_exact_iff (h : t.Delivers body)
    (howns : g.ownsGroup (t.header g).groupId = true) (c : SingleCmd) :
    (∀ k arg, c.parse g t = some (k, arg) ↔ c.Grammar body k arg) ↔
      ¬ (c = .set ∧ ∃ (k : FDHTKeyInfo) (value : Bytes), k.szKey = [] ∧ value ≠ [] ∧
        body = k.packBodyUntilKey ++ (int2buff value.length ++ value)) := by
  constructor
  · rintro hall ⟨rfl, k, value, hkey, hvalue, hbody⟩
    have haccepted : SingleCmd.set.parse g t = some (k, value) :=
      (SingleCmd.parse_iff h howns .set).mpr
        ⟨hbody, trivial, .inr ⟨rfl, hvalue⟩, by rw [hkey]; exact nofun⟩
    exact ((hall k value).mp haccepted).key_ne hkey
  · intro hnot k arg
    rw [SingleCmd.parse_iff h howns]
    constructor
    · rintro ⟨hbody, htakes, hkey | ⟨rfl, harg⟩, hlist⟩
      · exact ⟨hbody, htakes, hkey, hlist⟩
      · exact ⟨hbody, htakes, fun hnil => hnot ⟨rfl, k, arg, hnil, harg, hbody⟩, hlist⟩
    · rintro ⟨hbody, htakes, hkey, hlist⟩
      exact ⟨hbody, htakes, .inl hkey, hlist⟩

end Parse

theorem request_delivers (cmd : ProtoCmd) (timestamp expires : Int) (body : Bytes)
    (h : sizeofHeader + body.length < 2 ^ 31) :
    (request cmd timestamp expires body).Delivers body := by
  refine ⟨⟨int2buff body.length ++ int2buff 0 ++ int2buff timestamp ++ int2buff expires ++
    [cmd.toByte, 0, 0], [], by rw [List.append_nil]; rfl, rfl⟩, rfl, ?_⟩
  show (sizeofHeader + body.length : Int) < 2 ^ 31
  omega

theorem oneGroup_owns (t : FastTaskInfo) : oneGroup.ownsGroup (t.header oneGroup).groupId = true := by
  show oneGroup.dbList.getD (toUInt32 _ % 1) false = true
  rw [Nat.mod_one]
  rfl

/-- The sub key of no object, and its SET to `x`. -/
def unnamedKey (key : Bytes) (h : key.length ≤ fdhtMaxSubKeyLen) : FDHTKeyInfo :=
  ⟨[], [], key, Nat.zero_le _, Nat.zero_le _, h⟩

theorem single_parse_exact_get :
    SingleCmd.get.parse oneGroup refreshRequest = some (unnamedKey [97] (by decide), []) := by
  refine ((single_parse_exact_iff (request_delivers .get 0 2000 _ (by decide)) (oneGroup_owns _)
    .get).mpr (fun h => by cases h.1) _ _).mpr ?_
  exact ⟨rfl, rfl, by decide, by decide⟩

def emptyKeyBody : Bytes := int2buff 0 ++ int2buff 0 ++ int2buff 0 ++ int2buff 1 ++ [120]

/-- A SET of the empty sub key is accepted, though no body of the grammar is like it. -/
theorem set_accepts_empty_key :
    (request .set 0 0 emptyKeyBody).Delivers emptyKeyBody ∧
    SingleCmd.set.parse oneGroup (request .set 0 0 emptyKeyBody) =
      some (unnamedKey [] (by decide), [120]) ∧
    ¬ ∃ k arg, SingleCmd.set.Grammar emptyKeyBody k arg := by
  have hdelivers := request_delivers .set 0 0 emptyKeyBody (by decide)
  have hparse : SingleCmd.set.parse oneGroup (request .set 0 0 emptyKeyBody) =
      some (unnamedKey [] (by decide), [120]) := by
    refine (SingleCmd.parse_iff hdelivers (oneGroup_owns _) .set).mpr ⟨rfl, trivial, ?_, by decide⟩
    exact .inr ⟨rfl, by decide⟩
  refine ⟨hdelivers, hparse, ?_⟩
  rintro ⟨k, arg, hgrammar⟩
  have hsame := (SingleCmd.parse_iff hdelivers (oneGroup_owns _) .set).mpr
    ⟨hgrammar.body, hgrammar.takes, .inl hgrammar.key_ne, hgrammar.not_list⟩
  obtain ⟨rfl, -⟩ := Prod.mk.inj (Option.some.inj hsame)
  exact hgrammar.key_ne rfl

end FastDht
