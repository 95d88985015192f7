import FastDht.Common.FdhtFuncSoundness
import Mathlib.Data.List.Rotate

/-! # The choice of a server: `get_connection` of client/fdht_client.c

The hash code of a key gives the group, and turned by 16 bits the position in the array of
the group at which the search for a connection starts. -/
namespace FastDht
open Lib

/-- `group_id = ((unsigned int)key_hash_code) % pGroupArray->group_count`. -/
def groupIdOf (hashCode : Int) (groupCount : Nat) : Nat :=
  (BitVec.ofInt 32 hashCode).toNat % groupCount

/-- `new_hash_code` of `get_connection`. -/
def newHashCode (hashCode : Int) : Nat :=
  let code := BitVec.ofInt 32 hashCode
  let turned := code <<< 16 ||| code.sshiftRight 16
  if turned.toInt < 0 then (turned &&& 0x7FFFFFFF#32).toNat else turned.toNat

/-- One of the two loops of `get_connection`: the server, if one is found, and `*err_no`.
`connect` is `fdht_connect_server_nb`. `none` where freed memory is read. -/
def probeServers (g : GroupArray) (connect : FDHTServerInfo → Int) :
    List ServerPtr → Int → Option (Option FDHTServerInfo × Int)
  | [], errNo => some (none, errNo)
  | p :: ps, errNo =>
    match g.deref p with
    | none => none
    | some s =>
      if s.sock > 0 then some (some s, errNo)
      else if connect s = 0 then some (some s, 0)
      else probeServers g connect ps (connect s)

def getConnection (g : GroupArray) (connect : FDHTServerInfo → Int) (servers : List ServerPtr)
    (hashCode : Int) : Option (Option FDHTServerInfo × Int) :=
  let serverIndex := newHashCode hashCode % servers.length
  match probeServers g connect (servers.drop serverIndex) ENOENT with
  | some (none, errNo) => probeServers g connect (servers.take serverIndex) errNo
  | found => found

def chooseConnection (g : GroupArray) (connect : FDHTServerInfo → Int) (hashCode : Int) :
    Option (Option FDHTServerInfo) :=
  (g.groups[groupIdOf hashCode g.groups.length]?).bind fun servers =>
    (getConnection g connect servers hashCode).map (·.1)

/-! ## The search -/

/-- There is a connection to the server, or one can be made. -/
def Reachable (connect : FDHTServerInfo → Int) (s : FDHTServerInfo) : Bool :=
  s.sock > 0 || connect s = 0

/-- The first server, in cyclic order from the hashed position on, that is reachable. -/
def firstReachable (connect : FDHTServerInfo → Int) (servers : List FDHTServerInfo)
    (hashCode : Int) : Option FDHTServerInfo :=
  (servers.rotate (newHashCode hashCode % servers.length)).find? (Reachable connect)

section Search

variable {g : GroupArray} {connect : FDHTServerInfo → Int} {ptrs : List ServerPtr}
  {servers : List FDHTServerInfo}

theorem probeServers_spec (connect : FDHTServerInfo → Int)
    (h : ptrs.map g.deref = servers.map some) (errNo : Int) :
    ∃ errNo', probeServers g connect ptrs errNo =
      some (servers.find? (Reachable connect), errNo') := by
  induction ptrs generalizing servers errNo with
  | nil =>
    obtain rfl := List.map_eq_nil_iff.mp h.symm
    exact ⟨errNo, rfl⟩
  | cons p ps ih =>
    cases servers with
    | nil => cases h
    | cons s servers =>
      obtain ⟨hp, hps⟩ := List.cons.inj h
      unfold probeServers
      rw [hp]
      dsimp only
      split_ifs with hsock hconnect
      · have hreach : Reachable connect s = true := by simp [Reachable, hsock]
        exact ⟨errNo, by rw [List.find?_cons_of_pos hreach]⟩
      · have hreach : Reachable connect s = true := by simp [Reachable, hconnect]
        exact ⟨0, by rw [List.find?_cons_of_pos hreach]⟩
      · have hreach : ¬ Reachable connect s = true := by simp [Reachable, hsock, hconnect]
        rw [List.find?_cons_of_neg hreach]
        exact ih hps (connect s)

/-- **`get_connection` finds the first reachable server in cyclic order.** -/
theorem getConnection_spec (h : ptrs.map g.deref = servers.map some) (hservers : servers ≠ [])
    (hashCode : Int) :
    (getConnection g connect ptrs hashCode).map (·.1) =
      some (firstReachable connect servers hashCode) := by
  have hlength : ptrs.length = servers.length := by
    have hlen := congrArg List.length h
    rwa [List.length_map, List.length_map] at hlen
  obtain ⟨i, hi⟩ : ∃ i, i = newHashCode hashCode % servers.length := ⟨_, rfl⟩
  have hle : i ≤ servers.length :=
    hi ▸ (Nat.mod_lt _ (List.length_pos_iff.mpr hservers)).le
  have hdrop : (ptrs.drop i).map g.deref = (servers.drop i).map some := by
    rw [List.map_drop, h, List.map_drop]
  have htake : (ptrs.take i).map g.deref = (servers.take i).map some := by
    rw [List.map_take, h, List.map_take]
  unfold getConnection firstReachable
  dsimp only
  rw [hlength, ← hi, List.rotate_eq_drop_append_take hle, List.find?_append]
  obtain ⟨e, he⟩ := probeServers_spec connect hdrop ENOENT
  rw [he]
  cases hfound : (servers.drop i).find? (Reachable connect) with
  | some s => rfl
  | none =>
    obtain ⟨e', he'⟩ := probeServers_spec connect htake e
    dsimp only
    rw [he']
    rfl

end Search

/-! ## Independence of the order of lines -/

namespace GroupItems

/-- The lines of each group in another order. -/
def Permuted (items items' : GroupItems) : Prop :=
  items'.groupCount = items.groupCount ∧ ∀ i, (items'.values i).Perm (items.values i)

variable {env : LoadEnv} {items items' : GroupItems}

theorem Permuted.readServers (h : items.Permuted items') (i : Nat) :
    (readServers env (items'.values i)).Perm (readServers env (items.values i)) :=
  (h.2 i).filterMap _

theorem Permuted.valid (h : items.Permuted items') (hvalid : items.Valid env) :
    items'.Valid env := by
  refine ⟨h.1 ▸ hvalid.count, fun i hi => ?_⟩
  obtain ⟨hnonempty, hparse, hnodup⟩ := hvalid.group i (h.1 ▸ hi)
  refine ⟨fun hnil => hnonempty ?_, fun v hv => hparse v ((h.2 i).mem_iff.mp hv), ?_⟩
  · have hperm := h.2 i
    rw [hnil] at hperm
    exact hperm.nil_eq.symm
  · exact (h.readServers i).nodup_iff.mpr hnodup

theorem Permuted.dangling_iff (h : items.Permuted items') :
    items'.Dangling env ↔ items.Dangling env := by
  have hall : (items'.allServers env).Perm (items.allServers env) := by
    unfold allServers
    rw [h.1]
    exact List.Perm.flatMap_left _ fun i _ => h.readServers i
  unfold Dangling
  rw [hall.dedup.length_eq, h.1]

/-- The array of a group does not depend on the order of its lines. -/
theorem Permuted.sortServers_eq (h : items.Permuted items') (hvalid : items.Valid env) {i : Nat}
    (hi : i < items.groupCount.toNat) :
    sortServers (FastDht.readServers env (items'.values i)) =
      sortServers (FastDht.readServers env (items.values i)) := by
  have hnodup := (hvalid.group i hi).nodup
  have hordered' : Ordered (sortServers (FastDht.readServers env (items'.values i))) :=
    sortServers_ordered (fun _ => readServers_fresh) ((h.readServers i).nodup_iff.mpr hnodup)
  have hordered : Ordered (sortServers (FastDht.readServers env (items.values i))) :=
    sortServers_ordered (fun _ => readServers_fresh) hnodup
  exact hordered'.eq_of_perm hordered (((sortServers_perm _).trans (h.readServers i)).trans
    (sortServers_perm _).symm)

end GroupItems

def GroupArray.serverArray (g : GroupArray) (i : Nat) : Option (List FDHTServerInfo) :=
  (g.groups[i]?).bind fun servers => servers.mapM g.deref

theorem mapM_eq_some_iff {α β : Type} {f : α → Option β} {l : List α} {r : List β} :
    l.mapM f = some r ↔ l.map f = r.map some := by
  induction l generalizing r with
  | nil =>
    cases r with
    | nil => exact ⟨fun _ => rfl, fun _ => rfl⟩
    | cons b r => exact ⟨nofun, nofun⟩
  | cons a l ih =>
    rw [List.mapM_cons, List.map_cons]
    cases hf : f a with
    | none => cases r <;> simp
    | some b =>
      cases hl : l.mapM f with
      | none =>
        cases r with
        | nil => exact ⟨nofun, nofun⟩
        | cons c r =>
          have hne : l.map f ≠ r.map some := fun h => nomatch hl.symm.trans (ih.mpr h)
          simp [hne]
      | some r' =>
        cases r with
        | nil => exact ⟨nofun, nofun⟩
        | cons c r =>
          simp [ih.mp hl, (List.map_injective_iff.mpr (Option.some_injective β)).eq_iff]

section Loaded

variable {g : GroupArray} {env : LoadEnv} {items : GroupItems} {i : Nat}

theorem GroupItems.GroupValid.exists_server (h : items.GroupValid env i) :
    ∃ s, s ∈ sortServers (readServers env (items.values i)) := by
  obtain ⟨v, vs, hvs⟩ := List.exists_cons_of_ne_nil h.nonempty
  obtain ⟨s, hs⟩ := h.parse v (hvs ▸ List.mem_cons_self)
  refine ⟨s, (sortServers_perm _).mem_iff.mpr (mem_readServers.mpr ?_)⟩
  exact ⟨v, hvs ▸ List.mem_cons_self, hs⟩

theorem GroupArray.Loaded.deref (h : g.Loaded env items) (hkept : ¬ items.Dangling env)
    (hi : i < items.groupCount.toNat) : ∃ ptrs, g.groups[i]? = some ptrs ∧
      ptrs.map g.deref = (sortServers (readServers env (items.values i))).map some := by
  obtain ⟨ptrs, hptrs, haddress, hmap⟩ := h.groups i hi
  have h0 : g.address = 0 := by
    by_contra hne
    exact hkept (h.dangling.mp hne)
  refine ⟨ptrs, hptrs, ?_⟩
  rw [← hmap]
  refine List.map_congr_left fun p hp => ?_
  unfold GroupArray.deref
  rw [haddress p hp, h0, if_pos rfl]

/-- Pointers into the array that was moved lead nowhere. -/
theorem GroupArray.Loaded.not_dangling (h : g.Loaded env items) (hvalid : items.Valid env)
    {servers : List FDHTServerInfo} (hi : i < items.groupCount.toNat)
    (harray : g.serverArray i = some servers) : ¬ items.Dangling env := by
  intro hdangling
  obtain ⟨ptrs, hptrs, haddress, hmap⟩ := h.groups i hi
  unfold serverArray at harray
  rw [hptrs, Option.bind_some, mapM_eq_some_iff] at harray
  obtain ⟨s, hs⟩ := (hvalid.group i hi).exists_server
  have hmem : some s ∈ ptrs.map (g.servers[·.index]?) := by
    rw [hmap]
    exact List.mem_map_of_mem hs
  obtain ⟨p, hp, -⟩ := List.mem_map.mp hmem
  have hderef : g.deref p ∈ servers.map some := harray ▸ List.mem_map_of_mem hp
  have hnone : g.deref p = none := by
    unfold GroupArray.deref
    rw [haddress p hp, if_neg (h.dangling.mpr hdangling).symm]
  rw [hnone] at hderef
  obtain ⟨a, -, ha⟩ := List.mem_map.mp hderef
  cases ha

end Loaded

/-- What is asked of a configuration: for each group there is one array, in order and with
the servers of its lines, to which the configuration is loaded in any order of the lines;
and the server for a key is the first in cyclic order that is reachable, or none if none is. -/
def RoutesAlike (env : LoadEnv) (items : GroupItems) : Prop :=
  ∃ arrays : Nat → List FDHTServerInfo,
    (∀ i < items.groupCount.toNat, Ordered (arrays i) ∧
      ∀ s, s ∈ arrays i ↔ ∃ v ∈ items.values i, parseServer env v = .ok s) ∧
    ∀ items', items.Permuted items' → ∃ g, fdhtLoadGroupsEx env items' = some (.ok g) ∧
      (∀ i < items.groupCount.toNat, g.serverArray i = some (arrays i)) ∧
      ∀ connect hashCode,
        let servers := arrays (groupIdOf hashCode items.groupCount.toNat)
        chooseConnection g connect hashCode = some (firstReachable connect servers hashCode) ∧
        (chooseConnection g connect hashCode = some none ↔ ∀ s ∈ servers, Reachable connect s = false)

theorem RoutesAlike.not_dangling {env : LoadEnv} {items : GroupItems}
    (h : RoutesAlike env items) : ¬ items.Dangling env := by
  obtain ⟨arrays, -, hall⟩ := h
  obtain ⟨g, hg, harrays, -⟩ := hall items ⟨rfl, fun _ => .refl _⟩
  have hvalid := GroupItems.valid_of_load hg
  have hpos : 0 < items.groupCount.toNat := Int.lt_toNat.mpr hvalid.count
  obtain ⟨g', hg', hloaded⟩ := hvalid.load
  obtain rfl := Except.ok.inj (Option.some.inj (hg'.symm.trans hg))
  exact hloaded.not_dangling hvalid hpos (harrays 0 hpos)

/-- **Routing does not depend on the order of the configuration, unless the array of
servers is moved when it is made smaller.** -/
theorem routing_alike_iff {env : LoadEnv} {items : GroupItems} {g₀ : GroupArray}
    (hload : fdhtLoadGroupsEx env items = some (.ok g₀)) :
    RoutesAlike env items ↔ ¬ items.Dangling env := by
  have hvalid := GroupItems.valid_of_load hload
  have hpos : 0 < items.groupCount.toNat := Int.lt_toNat.mpr hvalid.count
  constructor
  · exact RoutesAlike.not_dangling
  · intro hkept
    refine ⟨fun i => sortServers (readServers env (items.values i)), fun i hi => ⟨?_, fun s => ?_⟩, ?_⟩
    · exact sortServers_ordered (fun _ => readServers_fresh) (hvalid.group i hi).nodup
    · rw [(sortServers_perm _).mem_iff, mem_readServers]
    intro items' hperm
    obtain ⟨g, hg, hloaded⟩ := (hperm.valid hvalid).load
    have hkept' : ¬ items'.Dangling env := hperm.dangling_iff.not.mpr hkept
    have hderef : ∀ i < items.groupCount.toNat, ∃ ptrs, g.groups[i]? = some ptrs ∧
        ptrs.map g.deref = (sortServers (readServers env (items.values i))).map some := by
      intro i hi
      obtain ⟨ptrs, hptrs, hmap⟩ := hloaded.deref hkept' (hperm.1 ▸ hi)
      exact ⟨ptrs, hptrs, hmap.trans (by rw [hperm.sortServers_eq hvalid hi])⟩
    refine ⟨g, hg, fun i hi => ?_, fun connect hashCode => ?_⟩
    · obtain ⟨ptrs, hptrs, hmap⟩ := hderef i hi
      unfold GroupArray.serverArray
      rw [hptrs, Option.bind_some, mapM_eq_some_iff]
      exact hmap
    · have hid : groupIdOf hashCode items.groupCount.toNat < items.groupCount.toNat :=
        Nat.mod_lt _ hpos
      obtain ⟨ptrs, hptrs, hmap⟩ := hderef _ hid
      have hchoose : chooseConnection g connect hashCode = some (firstReachable connect
          (sortServers (readServers env (items.values (groupIdOf hashCode items.groupCount.toNat))))
          hashCode) := by
        unfold chooseConnection
        rw [hloaded.length, hperm.1, hptrs, Option.bind_some]
        obtain ⟨s, hs⟩ := (hvalid.group _ hid).exists_server
        exact getConnection_spec hmap (List.ne_nil_of_mem hs) hashCode
      refine ⟨hchoose, ?_⟩
      rw [hchoose, Option.some.injEq]
      unfold firstReachable
      simp only [List.find?_eq_none, List.mem_rotate, Bool.not_eq_true]

/-- The line `10.0.0.d:80`. -/
def hostLine (digit : UInt8) : Bytes := [49, 48, 46, 48, 46, 48, 46, digit, 58, 56, 48]

/-- One group of servers whose addresses are given as numbers. -/
def oneGroupItems (digits : List UInt8) : GroupItems := ⟨1, fun _ => digits.map hostLine⟩

/-- Addresses are taken as they are written. -/
def numericEnv (moves : Bool) : LoadEnv := ⟨some, moves⟩

theorem twoServers_load : ∃ g, fdhtLoadGroupsEx (numericEnv false) (oneGroupItems [50, 49]) =
    some (.ok g) := ⟨_, rfl⟩

theorem routing_alike_two : RoutesAlike (numericEnv false) (oneGroupItems [50, 49]) := by
  obtain ⟨g, hg⟩ := twoServers_load
  exact (routing_alike_iff hg).mpr fun h => nomatch h.1

/-- **A group of one server whose array is moved has a pointer to freed memory.** -/
theorem routing_dangling : (∃ g, fdhtLoadGroupsEx (numericEnv true) (oneGroupItems [49]) =
    some (.ok g)) ∧ ¬ RoutesAlike (numericEnv true) (oneGroupItems [49]) := by
  refine ⟨⟨_, rfl⟩, fun h => h.not_dangling ⟨rfl, fun k => ?_⟩⟩
  show 1 ≠ 1 * 2 + k * (1 + 8)
  omega

end FastDht
