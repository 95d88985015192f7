import FastDht.Server.DbOp
import FastDht.Server.Task

/-! # Recovery from the binlog, server/db_recovery.c

At startup the records of the binlog are applied to Berkeley DB one after the
other. A delete of a key that is not there is no error; any other error ends
the recovery. -/
namespace FastDht

def recoverCmdSet (g : Globals) (r : BinLogRecord) (db : Bdb) : Int × Bdb :=
  let groupId := g.groupOf r.keyHashCode
  if g.ownsGroup groupId then
    dbSet db groupId r.keyInfo.packFullKey (int2buff r.expires ++ r.value)
  else (EINVAL, db)

def recoverCmdDel (g : Globals) (r : BinLogRecord) (db : Bdb) : Int × Bdb :=
  let groupId := g.groupOf r.keyHashCode
  if g.ownsGroup groupId then dbDelete db groupId r.keyInfo.packFullKey else (EINVAL, db)

/-- The `switch` on the type of a record. -/
def recoverRecord (g : Globals) (r : BinLogRecord) : Bdb → Int × Bdb :=
  match r.opType with
  | .sourceSet => recoverCmdSet g r
  | .replicaSet => recoverCmdSet g r
  | .sourceDel => recoverCmdDel g r
  | .replicaDel => recoverCmdDel g r

/-- The loop of `fdht_recover_data` over what is left of the binlog. A record
takes at least one byte, so there are fewer rounds than bytes. -/
def recoverLoop (g : Globals) : Nat → Bytes → Bdb → Int × Bdb
  | 0, _, db => (0, db)
  | n + 1, file, db =>
    match fdhtBinlogRead file with
    | .error result => (result, db)
    | .ok (record, recordLen) =>
      let r := recoverRecord g record db
      if r.1 ≠ 0 ∧ r.1 ≠ ENOENT then r
      else recoverLoop g n (file.drop recordLen.toNat) r.2

def fdhtRecoverData (g : Globals) (file : Bytes) (db : Bdb) : Int × Bdb :=
  let r := recoverLoop g (file.length + 1) file db
  (if r.1 ≠ ENOENT then r.1 else 0, r.2)

end FastDht
