import FastDht.Common.IniFileReader

/-! # The groups of servers: common/fdht_func.c

`fdht_load_groups_ex` reads the servers of all groups into one sorted array without
duplicates, and gives each group an array of pointers into it. -/
namespace FastDht
open Lib

structure FDHTServerInfo where
  sock : Int
  port : Int
  ipAddr : Bytes
  deriving DecidableEq

/-- `fdht_cmp_by_ip_and_port_p`; the ports are in range, so that their difference does
not overflow. -/
def fdhtCmpByIpAndPortP (a b : FDHTServerInfo) : Ordering :=
  match strcmp a.ipAddr b.ipAddr with
  | .eq => compare a.port b.port
  | res => res

/-- `fdht_insert_sorted_servers`: from the end on, the servers that are not before the
new one are moved up. -/
def fdhtInsertSortedServers (servers : List FDHTServerInfo) (inserted : FDHTServerInfo) :
    List FDHTServerInfo :=
  let before := (servers.reverse.dropWhile fun s => fdhtCmpByIpAndPortP s inserted ≠ .lt).reverse
  before ++ inserted :: servers.drop before.length

/-- A pointer to a server: the address of the array and the index in it. -/
structure ServerPtr where
  address : Nat
  index : Nat
  deriving DecidableEq

structure GroupArray where
  servers : List FDHTServerInfo
  /-- Where the array of servers lies. -/
  address : Nat
  groups : List (List ServerPtr)

/-- What a pointer points to; after the array has been moved it points to freed memory. -/
def GroupArray.deref (g : GroupArray) (p : ServerPtr) : Option FDHTServerInfo :=
  if p.address = g.address then g.servers[p.index]? else none

/-- What the loader finds: the text of `getIpaddrByName`, and whether the `realloc` that
makes the array of servers smaller moves it. -/
structure LoadEnv where
  getIpaddrByName : Bytes → Option Bytes
  moves : Bool

/-- The values of `group_count`, and of `group0`, `group1`, … as `iniGetValuesEx` returns
them. -/
structure GroupItems where
  groupCount : Int
  values : Nat → List Bytes

/-- The text `127.0.0.1`. -/
def localIp : Bytes := [49, 50, 55, 46, 48, 46, 48, 46, 49]

/-- One line `hostname:port`. -/
def parseServer (env : LoadEnv) (value : Bytes) : Except Int FDHTServerInfo :=
  let value := cstr value
  if 58 ∉ value then .error EINVAL
  else
    match env.getIpaddrByName (value.takeWhile (· ≠ 58)) with
    | none => .error EINVAL
    | some ipAddr =>
      let ipAddr := cstr ipAddr
      let port := atoi ((value.dropWhile (· ≠ 58)).drop 1)
      if ipAddr = localIp then .error EINVAL
      else if port ≤ 0 ∨ port > 65535 then .error EINVAL
      else .ok { sock := -1, port, ipAddr }

/-- `pGroupArray->servers` with `alloc_server_count`. -/
structure ServerTable where
  servers : List FDHTServerInfo
  allocServerCount : Nat

/-- A server that is not in the table yet is inserted; if there is no room the table is
made larger first. -/
def ServerTable.add (groupCount : Nat) (t : ServerTable) (server : FDHTServerInfo) : ServerTable :=
  if (bsearch (fdhtCmpByIpAndPortP server) t.servers).isSome then t
  else
    { servers := fdhtInsertSortedServers t.servers server
      allocServerCount := if t.servers.length ≥ t.allocServerCount then
        t.servers.length + groupCount + 8 else t.allocServerCount }

/-- The lines of one group. -/
def loadServers (env : LoadEnv) (groupCount : Nat) :
    List Bytes → ServerTable → Except Int (List FDHTServerInfo × ServerTable)
  | [], t => .ok ([], t)
  | value :: values, t =>
    match parseServer env value with
    | .error result => .error result
    | .ok server =>
      match loadServers env groupCount values (t.add groupCount server) with
      | .error result => .error result
      | .ok (servers, t) => .ok (server :: servers, t)

/-- The first loop over the groups, from `groupId` on. -/
def loadGroups (env : LoadEnv) (items : GroupItems) (groupCount : Nat) :
    Nat → Nat → ServerTable → Except Int (List (List FDHTServerInfo) × ServerTable)
  | 0, _, t => .ok ([], t)
  | n + 1, groupId, t =>
    if items.values groupId = [] then .error ENOENT
    else
      match loadServers env groupCount (items.values groupId) t with
      | .error result => .error result
      | .ok (servers, t) =>
        match loadGroups env items groupCount n (groupId + 1) t with
        | .error result => .error result
        | .ok (groups, t) => .ok (servers :: groups, t)

/-- The server of an index, as the comparison of pointers reads it. -/
def serverAt (servers : List FDHTServerInfo) (i : Nat) : FDHTServerInfo :=
  (servers[i]?).getD ⟨-1, 0, []⟩

/-- Two neighbours are equal. -/
def hasDuplicate (servers : List FDHTServerInfo) : List Nat → Bool
  | i :: j :: rest =>
    fdhtCmpByIpAndPortP (serverAt servers i) (serverAt servers j) = .eq ||
      hasDuplicate servers (j :: rest)
  | _ => false

/-- The pointers of one group; `none` where a NULL pointer would be followed. -/
def sortGroup (servers group : List FDHTServerInfo) : Option (Except Int (List Nat)) :=
  (group.mapM fun s => bsearch (fdhtCmpByIpAndPortP s) servers).map fun found =>
    let sorted := qsort (fun i j => fdhtCmpByIpAndPortP (serverAt servers i) (serverAt servers j)) found
    if hasDuplicate servers sorted then .error EINVAL else .ok sorted

def sortGroups (servers : List FDHTServerInfo) :
    List (List FDHTServerInfo) → Option (Except Int (List (List Nat)))
  | [] => some (.ok [])
  | group :: groups =>
    match sortGroup servers group with
    | none => none
    | some (.error result) => some (.error result)
    | some (.ok sorted) => (sortGroups servers groups).map (·.map (sorted :: ·))

/-- `fdht_load_groups_ex` without the parameters of the proxy. `none` is undefined
behaviour. -/
def fdhtLoadGroupsEx (env : LoadEnv) (items : GroupItems) : Option (Except Int GroupArray) :=
  if items.groupCount ≤ 0 then some (.error EINVAL)
  else
    let groupCount := items.groupCount.toNat
    match loadGroups env items groupCount groupCount 0 ⟨[], groupCount * 2⟩ with
    | .error result => some (.error result)
    | .ok (groups, t) => (sortGroups t.servers groups).map (·.map fun sorted =>
        { servers := t.servers
          address := if t.allocServerCount > t.servers.length ∧ env.moves then 1 else 0
          groups := sorted.map (·.map (ServerPtr.mk 0)) })

end FastDht
