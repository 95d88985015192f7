import FastDht.Lib.Exchange
import FastDht.Server.Convergence
import FastDht.Server.LogOrder

/-! # Two servers that both take writes

Clients that cannot reach one server of a group go to another, so both servers
take writes, and each sends what it got from clients to the other. A server
stores what it is sent whatever it has. The servers end up with the same data if
no key is written to while a write of it is still on its way from the other
server; if one is, they can end up with each other's value. -/
namespace FastDht
open Lib

variable {ι σ κ : Type} [DecidableEq ι] [DecidableEq κ]

/-! ## Runs with two sources -/

def otherOf (a b i : ι) : ι := if i = a then b else a

/-- Clients send SET and DEL to both servers, and each sends its records to the
other. -/
def GroupEvent.TwoSources (a b : ι) : GroupEvent ι → Prop
  | .tick _ => True
  | .request i t _ => (i = a ∨ i = b) ∧ ∃ c ∈ [ProtoCmd.set, .del], t.cmd = some c
  | .deliver i j _ _ _ => i = a ∧ j = b ∨ i = b ∧ j = a
  | .rewind _ _ _ => False

/-- A request logs records that can be read, and no record of its key, or of the
list that it updates, is on its way to the server. A record that came from a
client is not expired and keeps its expiry. -/
def Group.WritesApart (M : MapStore σ κ) (g : ι → Globals) (a b : ι) (s : Group ι σ) :
    GroupEvent ι → Prop
  | .request i t _ => RecordsReadable ((g i).at s.now) t ∧ t.Fits M ∧
    ∀ r ∈ t.keyRequest ((g i).at s.now), ∀ w ∈ s.pending (otherOf a b i) i,
      (M.overwrite (g a) w).1 ≠ M.slot r.header.groupId r.keyInfo.packFullKey ∧
      ((g i).storeSubKeys = true → (M.overwrite (g a) w).1 ≠ M.listPlace r.header r.keyInfo)
  | .deliver i j _ _ _ => match s.next i j with
    | .ok (r, _) => r.opType.isSource = true → r.dropped s.now = false ∧ r.ExpiryKept s.now
    | .error _ => True
  | _ => True

instance (a b : ι) : (e : GroupEvent ι) → Decidable (e.TwoSources a b)
  | .tick _ => .isTrue trivial
  | .request _ _ _ => inferInstanceAs (Decidable (_ ∧ ∃ c ∈ _, _))
  | .deliver _ _ _ _ _ => inferInstanceAs (Decidable (_ ∨ _))
  | .rewind _ _ _ => .isFalse id

instance (M : MapStore σ κ) [DecidablePred M.room] (g : ι → Globals) (a b : ι) (s : Group ι σ) :
    (e : GroupEvent ι) → Decidable (s.WritesApart M g a b e)
  | .tick _ => .isTrue trivial
  | .request _ _ _ => inferInstanceAs (Decidable (_ ∧ _ ∧ ∀ r ∈ _, ∀ w ∈ _, _ ∧ (_ → _)))
  | .deliver i j _ _ _ => by
    dsimp only [Group.WritesApart]
    exact match s.next i j with
    | .ok _ => inferInstance
    | .error _ => .isTrue trivial
  | .rewind _ _ _ => .isTrue trivial

/-- The records of both servers can be read, their threads are at the starts of
records, and the stores differ by what is on its way. -/
structure Group.Mirrors (M : MapStore σ κ) (g : ι → Globals) (a b : ι) (s : Group ι σ) : Prop where
  quiet : M.Quiet (s.server a).store ∧ M.Quiet (s.server b).store
  recordsA : ∀ w ∈ (s.server a).binlog, w.Loggable ∧ (w.opType.isSource = true → w.Replicable M (g a))
  recordsB : ∀ w ∈ (s.server b).binlog, w.Loggable ∧ (w.opType.isSource = true → w.Replicable M (g a))
  startsA : ∃ n, StartsAt (s.server a).binlog (s.offset (a, b)) n
  startsB : ∃ n, StartsAt (s.server b).binlog (s.offset (b, a)) n
  exchange : Lib.Exchange (M.lookup (s.server a).store) (M.lookup (s.server b).store)
    ((s.pending a b).map (M.overwrite (g a))) ((s.pending b a).map (M.overwrite (g a)))

section Mirror

variable {M : MapStore σ κ} {g : ι → Globals} {a b : ι} {s s' : Group ι σ}

theorem SameGroups.symm {g g' : Globals} (h : SameGroups g g') : SameGroups g' g :=
  ⟨h.groupCount.symm, h.dbList.symm⟩

theorem SameGroups.overwrite {g g' : Globals} (h : SameGroups g g') :
    M.overwrite g' = M.overwrite g := by
  funext w
  unfold MapStore.overwrite
  rw [h.groupOf]
  rfl

theorem LogWrite.Replicable.of_sameGroups {g g' : Globals} (h : SameGroups g g') {w : LogWrite}
    (hw : w.Replicable M g) : w.Replicable M g' :=
  ⟨hw.loggable, by rw [h.groupOf, h.ownsGroup]; exact hw.owned, hw.sendable, hw.room⟩

omit [DecidableEq ι] in
theorem Group.Mirrors.symm (hgroups : SameGroups (g a) (g b)) (h : s.Mirrors M g a b) :
    s.Mirrors M g b a := by
  refine ⟨h.quiet.symm, ?_, ?_, h.startsB, h.startsA, ?_⟩
  · exact fun w hw => (h.recordsB w hw).imp_right fun hr hop => (hr hop).of_sameGroups hgroups
  · exact fun w hw => (h.recordsA w hw).imp_right fun hr hop => (hr hop).of_sameGroups hgroups
  · rw [hgroups.overwrite]
    exact h.exchange.symm

theorem Group.Mirrors.request (hab : a ≠ b) (hflag : (g a).writeToBinlogFlag = true)
    (h : s.Mirrors M g a b) {t : FastTaskInfo} {c : ProtoCmd} (hc : c ∈ [ProtoCmd.set, .del])
    (hcmd : t.cmd = some c) (hreadable : RecordsReadable ((g a).at s.now) t) (hfits : t.Fits M)
    (hapart : ∀ r ∈ t.keyRequest ((g a).at s.now), ∀ w ∈ s.pending b a,
      (M.overwrite (g a) w).1 ≠ M.slot r.header.groupId r.keyInfo.packFullKey ∧
      ((g a).storeSubKeys = true → (M.overwrite (g a) w).1 ≠ M.listPlace r.header r.keyInfo))
    {env : TaskEnv} {reply : Reply σ} (hdeal : dealCmd M.toStoreFuncs ((g a).at s.now) env t
      (s.server a) t.cmd = some reply) : (s.setServer a reply.server).Mirrors M g a b := by
  have hc' : c ∈ [ProtoCmd.set, .inc, .del] := by
    revert hc
    cases c <;> decide
  have hflag' : ((g a).at s.now).writeToBinlogFlag = true := hflag
  obtain ⟨log, hfollows, hlog⟩ := dealCmd_follows hc' hcmd hflag' h.quiet.1 hfits hdeal
  obtain ⟨n, hn⟩ := h.startsA
  have ha : (s.setServer a reply.server).server a = reply.server := Function.update_self ..
  have hb : (s.setServer a reply.server).server b = s.server b := Function.update_of_ne hab.symm ..
  have hsource : ∀ w ∈ log, w.opType.isSource = true := by
    intro w hw
    rcases (hlog w hw).1.source with hop | hop <;> rw [hop] <;> rfl
  have hpendA : (s.setServer a reply.server).pending a b = s.pending a b ++ log := by
    unfold Group.pending
    rw [ha, hfollows.binlog]
    refine (hn.pending_append log).trans ?_
    rw [List.filter_eq_self.mpr hsource]
  have hpendB : (s.setServer a reply.server).pending b a = s.pending b a := by
    unfold Group.pending
    rw [hb]
    rfl
  refine ⟨by rw [ha, hb]; exact ⟨hfollows.quiet, h.quiet.2⟩, ?_, by rw [hb]; exact h.recordsB,
    ⟨n, ?_⟩, by rw [hb]; exact h.startsB, ?_⟩
  · rw [ha, hfollows.binlog]
    intro w hw
    rcases List.mem_append.mp hw with hw | hw
    · exact h.recordsA w hw
    · have hrecord := (hlog w hw).1.replicable hreadable
      exact ⟨hrecord.loggable, fun _ => hrecord⟩
  · rw [ha, hfollows.binlog]
    exact hn.append log
  · rw [ha, hb, hpendA, hpendB, hfollows.replay, List.map_append]
    refine h.exchange.write ?_
    -- the keys of the request are not among those that are coming in
    intro e he e' he'
    obtain ⟨w, hw, rfl⟩ := List.mem_map.mp he
    obtain ⟨w', hw', rfl⟩ := List.mem_map.mp he'
    obtain ⟨hclient, r, hr, hof, hkey⟩ := hlog w hw
    obtain ⟨hne, hne'⟩ := hapart r hr w' hw'
    have hplace : (M.overwrite ((g a).at s.now) w).1 =
        M.slot r.header.groupId w.keyInfo.packFullKey := by
      rw [overwrite_eq hclient.of hclient.valueLen_nonneg rfl, hof.header]
    rcases hkey with hkey | ⟨hsub, hkey⟩
    · rw [hplace, hkey]
      exact hne.symm
    · rw [hplace, hkey]
      exact (hne' hsub).symm

/-- The thread from `a` to `b` has read a record. The stores still match if `b` does
what the record says, should it be one that is sent. -/
theorem Group.Mirrors.read (hab : a ≠ b) (h : s.Mirrors M g a b) {r : BinLogRecord} {len : Int}
    (hnext : s.next a b = .ok (r, len)) :
    ∃ w : LogWrite, r = w.record ∧ w.Loggable ∧ (w.opType.isSource = true → w.Replicable M (g a)) ∧
      ∃ later, s.pending a b = [w].filter (fun w => w.opType.isSource) ++ later ∧
      ∀ (server : Server σ) (more : List LogWrite), M.Quiet server.store →
        server.binlog = (s.server b).binlog ++ more →
        (∀ w ∈ more, w.Loggable ∧ w.opType.isSource = false) →
        Lib.Exchange (M.lookup (s.server a).store) (M.lookup server.store)
          (later.map (M.overwrite (g a))) ((s.pending b a).map (M.overwrite (g a))) →
        ((s.setServer b server).advance a b r).Mirrors M g a b := by
  obtain ⟨n, hn⟩ := h.startsA
  obtain ⟨m, hm⟩ := h.startsB
  obtain ⟨w, rest, hdrop, hr, htake, hn'⟩ := hn.read (fun w hw => (h.recordsA w hw).1) hnext
  obtain ⟨hlog, hrecord⟩ := h.recordsA w (List.mem_of_mem_drop (hdrop ▸ List.mem_cons_self))
  have hrest : rest = (s.server a).binlog.drop (n + 1) := by
    rw [← List.tail_drop, hdrop]
    rfl
  refine ⟨w, hr, hlog, hrecord, rest.filter fun w => w.opType.isSource, ?_, ?_⟩
  · rw [Group.pending, hn.recordsFrom, hdrop, ← List.filter_append]
    rfl
  intro server more hq hbinlog hmore hexchange
  have ha : ((s.setServer b server).advance a b r).server a = s.server a :=
    Function.update_of_ne hab ..
  have hb : ((s.setServer b server).advance a b r).server b = server := Function.update_self ..
  have hoffset : ((s.setServer b server).advance a b r).offset (a, b) =
      s.offset (a, b) + r.readBytes := Function.update_self ..
  have hback : ((s.setServer b server).advance a b r).offset (b, a) = s.offset (b, a) :=
    Function.update_of_ne (fun he => hab (congrArg Prod.snd he)) ..
  have hpendA : ((s.setServer b server).advance a b r).pending a b =
      rest.filter fun w => w.opType.isSource := by
    rw [Group.pending, ha, hoffset, hn'.recordsFrom, hrest]
  have hpendB : ((s.setServer b server).advance a b r).pending b a = s.pending b a := by
    have hnone : more.filter (fun w => w.opType.isSource) = [] :=
      List.filter_eq_nil_iff.mpr fun w hw => by rw [(hmore w hw).2]; decide
    rw [Group.pending, hb, hback, hbinlog, hm.pending_append, hnone, List.append_nil]
    rfl
  refine ⟨by rw [ha, hb]; exact ⟨h.quiet.1, hq⟩, by rw [ha]; exact h.recordsA, ?_,
    ⟨n + 1, by rw [ha, hoffset]; exact hn'⟩, ⟨m, by rw [hb, hback, hbinlog]; exact hm.append more⟩,
    by rw [ha, hb, hpendA, hpendB]; exact hexchange⟩
  rw [hb, hbinlog]
  intro w hw
  rcases List.mem_append.mp hw with hw | hw
  · exact h.recordsB w hw
  · exact ⟨(hmore w hw).1, fun hop => absurd ((hmore w hw).2.symm.trans hop) (by decide)⟩

theorem Group.Mirrors.deliver (hab : a ≠ b) (hgroups : SameGroups (g a) (g b))
    {reader : BinLogReader} (hreader : ∀ r, reader.needsOld r = false) (h : s.Mirrors M g a b)
    {r : BinLogRecord} {len : Int} (hnext : s.next a b = .ok (r, len))
    (hkept : r.opType.isSource = true → r.dropped s.now = false ∧ r.ExpiryKept s.now)
    {behind clientIp : Bytes} {env : TaskEnv}
    (hsync : s.sync M.toStoreFuncs g reader a b r behind clientIp env = some s') :
    s'.Mirrors M g a b := by
  obtain ⟨w, rfl, hlog, hrecord, later, hpend, hadvance⟩ := h.read hab hnext
  have hexchange := h.exchange
  rcases hsource : w.opType.isSource with _ | _
  · -- a record of another server is not sent on
    have hnone : fdhtSyncData ((g a).at s.now) reader w.record = none := by
      by_contra hsome
      obtain ⟨message, hsend⟩ := Option.ne_none_iff_exists'.mp hsome
      rcases (fdhtSyncData_some hsend).2.2 with hop | hold
      · exact absurd (hsource.symm.trans hop) (by decide)
      · exact absurd ((hreader _).symm.trans hold) (by decide)
    simp only [Group.sync, hnone] at hsync
    obtain rfl := Option.some.inj hsync
    rw [hpend, List.filter_cons_of_neg (by rw [hsource]; decide)] at hexchange
    have hmirrors := hadvance (s.server b) [] h.quiet.2 (List.append_nil _).symm (by simp) hexchange
    rwa [Group.setServer_self] at hmirrors
  · obtain ⟨hdropped, hexpiry⟩ := hkept hsource
    have hw := hrecord hsource
    rcases hsend : fdhtSyncData ((g a).at s.now) reader w.record with _ | message
    · rcases fdhtSyncData_none (g := (g a).at s.now) hw.owned_record hsend with hdrop | hop
      · exact absurd (hdropped.symm.trans hdrop) (by decide)
      · exact absurd (hop.1.symm.trans hsource) (by decide)
    obtain ⟨server, rfl, hq, hlookup, hbinlog⟩ := Group.sync_sent hsend hw.sendable
      (by rw [hgroups.groupOf, hgroups.ownsGroup]; exact hw.owned_record) hw.room h.quiet.2 hsync
    rw [placeOf_record hgroups, replicaValue_record (M := M) (g := g a) hexpiry] at hlookup
    rw [hpend, List.filter_cons_of_pos (by exact hsource)] at hexchange
    have hexchange' : Lib.Exchange (M.lookup (s.server a).store) (M.lookup server.store)
        (later.map (M.overwrite (g a))) ((s.pending b a).map (M.overwrite (g a))) := by
      rw [hlookup]
      exact hexchange.deliver
    rcases hbinlog with hbinlog | hbinlog
    · exact hadvance server [] hq (by rw [hbinlog, List.append_nil]) (by simp) hexchange'
    · refine hadvance server _ hq hbinlog (fun w' hw' => ?_) hexchange'
      rw [List.mem_singleton.mp hw']
      refine ⟨replicaWrite_loggable hlog hw.sendable ?_, ?_⟩
      · rw [newExpires_record hexpiry, toInt32_toInt32]
        exact hlog.expires
      · unfold BinLogRecord.replicaWrite
        split <;> rfl

theorem Group.Mirrors.step (hab : a ≠ b) (hgroups : SameGroups (g a) (g b))
    (hflag : (g a).writeToBinlogFlag = true ∧ (g b).writeToBinlogFlag = true)
    {reader : BinLogReader} (hreader : ∀ r, reader.needsOld r = false) (h : s.Mirrors M g a b)
    {e : GroupEvent ι} (htwo : e.TwoSources a b) (hok : s.WritesApart M g a b e)
    (hstep : s.step M.toStoreFuncs g reader e = some s') : s'.Mirrors M g a b := by
  cases e with
  | tick seconds =>
    obtain rfl := Option.some.inj hstep
    exact ⟨h.quiet, h.recordsA, h.recordsB, h.startsA, h.startsB, h.exchange⟩
  | request i t env =>
    obtain ⟨hi, c, hc, hcmd⟩ := htwo
    obtain ⟨hreadable, hfits, hapart⟩ := hok
    obtain ⟨reply, hdeal, rfl⟩ := Option.map_eq_some_iff.mp hstep
    rcases hi with rfl | rfl
    · rw [otherOf, if_pos rfl] at hapart
      exact h.request hab hflag.1 hc hcmd hreadable hfits hapart hdeal
    · rw [otherOf, if_neg hab.symm] at hapart
      rw [← hgroups.overwrite] at hapart
      exact ((h.symm hgroups).request hab.symm hflag.2 hc hcmd hreadable hfits hapart
        hdeal).symm hgroups.symm
  | deliver i j behind clientIp env =>
    have hij : i ≠ j := by
      rcases htwo with ⟨rfl, rfl⟩ | ⟨rfl, rfl⟩
      · exact hab
      · exact hab.symm
    simp only [Group.step, if_neg hij] at hstep
    simp only [Group.WritesApart] at hok
    rcases hnext : s.next i j with _ | ⟨r, len⟩ <;> rw [hnext] at hstep hok
    · cases hstep
    · rcases htwo with ⟨rfl, rfl⟩ | ⟨rfl, rfl⟩
      · exact h.deliver hab hgroups hreader hnext hok hstep
      · exact ((h.symm hgroups).deliver hab.symm hgroups.symm hreader hnext hok
          hstep).symm hgroups.symm
  | rewind i j offset => exact htwo.elim

/-- Both servers before the first request. -/
structure Group.BothFresh (M : MapStore σ κ) (a b : ι) (s : Group ι σ) : Prop where
  quiet : ∀ i, M.Quiet (s.server i).store
  empty : ∀ i, M.lookup (s.server i).store = fun _ => none
  binlog : (s.server a).binlog = [] ∧ (s.server b).binlog = []
  offset : s.offset (a, b) = 0 ∧ s.offset (b, a) = 0

omit [DecidableEq ι] in
theorem Group.BothFresh.mirrors (h : s.BothFresh M a b) : s.Mirrors M g a b := by
  have hA : s.pending a b = [] := by
    rw [Group.pending, h.binlog.1, h.offset.1]
    rfl
  have hB : s.pending b a = [] := by
    rw [Group.pending, h.binlog.2, h.offset.2]
    rfl
  refine ⟨⟨h.quiet a, h.quiet b⟩, by simp [h.binlog.1], by simp [h.binlog.2],
    ⟨0, by rw [h.offset.1]; exact .zero _⟩, ⟨0, by rw [h.offset.2]; exact .zero _⟩, ?_⟩
  rw [hA, hB, h.empty, h.empty]
  exact .refl _

end Mirror

/-- **Two servers that both take writes have the same data once each has sent its
binlog**, if no key is written to while a write of it is on its way. -/
theorem servers_agree {M : MapStore σ κ} {g : ι → Globals} {a b : ι} (hab : a ≠ b)
    (hgroups : SameGroups (g a) (g b))
    (hflag : (g a).writeToBinlogFlag = true ∧ (g b).writeToBinlogFlag = true)
    {reader : BinLogReader} (hreader : ∀ r, reader.needsOld r = false) {s₀ s : Group ι σ}
    (hfresh : s₀.BothFresh M a b)
    (hrun : Runs (Group.step M.toStoreFuncs g reader)
      (fun s e => e.TwoSources a b ∧ s.WritesApart M g a b e) s₀ s)
    (hA : s.offset (a, b) = (binlogBytes (s.server a).binlog).length)
    (hB : s.offset (b, a) = (binlogBytes (s.server b).binlog).length) :
    M.lookup (s.server a).store = M.lookup (s.server b).store := by
  have h : s.Mirrors M g a b := hrun.invariant hfresh.mirrors fun s e s' h hok hstep =>
    h.step hab hgroups hflag hreader hok.1 hok.2 hstep
  obtain ⟨n, hn⟩ := h.startsA
  obtain ⟨m, hm⟩ := h.startsB
  have hpendA : s.pending a b = [] := by
    rw [Group.pending, hn.recordsFrom, hn.at_end hA, List.drop_length]
    rfl
  have hpendB : s.pending b a = [] := by
    rw [Group.pending, hm.recordsFrom, hm.at_end hB, List.drop_length]
    rfl
  have hexchange := h.exchange
  rw [hpendA, hpendB] at hexchange
  exact hexchange.eq_of_done

theorem twoServers_bothFresh : twoServers.BothFresh bdbMap false true :=
  ⟨fun _ => emptyBdb_quiet, fun _ => rfl, ⟨rfl, rfl⟩, ⟨rfl, rfl⟩⟩

instance : DecidablePred mpoolMap.room := fun n => inferInstanceAs (Decidable (n + 2048 < 2 ^ 31))

/-- Two servers with the memory pool. -/
def twoPools : Group Bool Mpool where
  server := fun _ => ⟨openPool, [], default⟩
  offset := fun _ => 0
  marks := fun _ => []
  now := 1000

theorem twoPools_bothFresh : twoPools.BothFresh mpoolMap false true :=
  ⟨fun _ => ⟨openTable_ample, fun _ _ => rfl⟩, fun _ => rfl, ⟨rfl, rfl⟩, ⟨rfl, rfl⟩⟩

def writesInTurn : List (GroupEvent Bool) :=
  [.request false setRequest quietEnv, .deliver false true [] [] quietEnv,
    .request true setRequestY quietEnv, .deliver true false [] [] quietEnv,
    .deliver true false [] [] quietEnv, .deliver false true [] [] quietEnv]

/-- The second server is written to after it has got what the first one was sent. -/
theorem servers_agree_in_turn :
    (∃ s, exec (Group.step bdbMap.toStoreFuncs (fun _ => oneGroup) plainReader)
        (fun s e => e.TwoSources false true ∧
          s.WritesApart bdbMap (fun _ => oneGroup) false true e) writesInTurn twoServers = some s ∧
      (s.server false).binlog.length = 2 ∧ (s.server true).binlog.length = 2 ∧
      bdbMap.lookup (s.server false).store = bdbMap.lookup (s.server true).store) ∧
    ∃ s, exec (Group.step mpoolMap.toStoreFuncs (fun _ => oneGroup) plainReader)
        (fun s e => e.TwoSources false true ∧
          s.WritesApart mpoolMap (fun _ => oneGroup) false true e) writesInTurn twoPools = some s ∧
      mpoolMap.lookup (s.server false).store [1, 1, 97] = some [0, 0, 0, 0, 121] ∧
      mpoolMap.lookup (s.server false).store = mpoolMap.lookup (s.server true).store := by
  have hab : false ≠ true := by decide
  constructor
  · have hexec : (exec (Group.step bdbMap.toStoreFuncs (fun _ => oneGroup) plainReader)
        (fun s e => e.TwoSources false true ∧
          s.WritesApart bdbMap (fun _ => oneGroup) false true e) writesInTurn
        twoServers).map (fun s => decide
          (s.offset (false, true) = (binlogBytes (s.server false).binlog).length ∧
            s.offset (true, false) = (binlogBytes (s.server true).binlog).length ∧
            (s.server false).binlog.length = 2 ∧ (s.server true).binlog.length = 2)) =
        some true := by decide +kernel
    obtain ⟨s, hrun, heq⟩ := Option.map_eq_some_iff.mp hexec
    obtain ⟨hA, hB, hlenA, hlenB⟩ := of_decide_eq_true heq
    exact ⟨s, hrun, hlenA, hlenB, servers_agree (g := fun _ => oneGroup) hab ⟨rfl, rfl⟩ ⟨rfl, rfl⟩
      (fun _ => rfl) twoServers_bothFresh (Runs.of_exec hrun) hA hB⟩
  · have hexec : (exec (Group.step mpoolMap.toStoreFuncs (fun _ => oneGroup) plainReader)
        (fun s e => e.TwoSources false true ∧
          s.WritesApart mpoolMap (fun _ => oneGroup) false true e) writesInTurn
        twoPools).map (fun s => decide
          (s.offset (false, true) = (binlogBytes (s.server false).binlog).length ∧
            s.offset (true, false) = (binlogBytes (s.server true).binlog).length ∧
            (s.server false).store.hashArray.view [1, 1, 97] = some [0, 0, 0, 0, 121])) =
        some true := by decide +kernel
    obtain ⟨s, hrun, heq⟩ := Option.map_eq_some_iff.mp hexec
    obtain ⟨hA, hB, hvalue⟩ := of_decide_eq_true heq
    exact ⟨s, hrun, hvalue, servers_agree (g := fun _ => oneGroup) hab ⟨rfl, rfl⟩ ⟨rfl, rfl⟩
      (fun _ => rfl) twoPools_bothFresh (Runs.of_exec hrun) hA hB⟩

/-- The key is set to `x` at one server and to `y` at the other. Each then gets the
other's record and stores it, so the servers have exchanged their values. -/
theorem servers_exchange_values :
    ∃ s, Runs (Group.step bdbMap.toStoreFuncs (fun _ => oneGroup) plainReader)
        (fun _ e => e.TwoSources false true) twoServers s ∧
      s.offset (false, true) = (binlogBytes (s.server false).binlog).length ∧
      s.offset (true, false) = (binlogBytes (s.server true).binlog).length ∧
      (dealCmdGet bdbMap.toStoreFuncs (oneGroup.at s.now) roomyEnv getRequest (s.server false)).answer =
        (0, some [121]) ∧
      (dealCmdGet bdbMap.toStoreFuncs (oneGroup.at s.now) roomyEnv getRequest (s.server true)).answer =
        (0, some [120]) := by
  have hexec : (exec (Group.step bdbMap.toStoreFuncs (fun _ => oneGroup) plainReader)
      (fun _ e => e.TwoSources false true)
      [.request false setRequest quietEnv, .request true setRequestY quietEnv,
        .deliver false true [] [] quietEnv, .deliver true false [] [] quietEnv,
        .deliver false true [] [] quietEnv, .deliver true false [] [] quietEnv]
      twoServers).map (fun s =>
        (decide (s.offset (false, true) = (binlogBytes (s.server false).binlog).length ∧
          s.offset (true, false) = (binlogBytes (s.server true).binlog).length),
        (dealCmdGet bdbMap.toStoreFuncs (oneGroup.at s.now) roomyEnv getRequest
          (s.server false)).answer,
        (dealCmdGet bdbMap.toStoreFuncs (oneGroup.at s.now) roomyEnv getRequest
          (s.server true)).answer)) = some (true, (0, some [121]), 0, some [120]) := by
    decide +kernel
  obtain ⟨s, hrun, heq⟩ := Option.map_eq_some_iff.mp hexec
  obtain ⟨hend, heq⟩ := Prod.mk.inj heq
  obtain ⟨hfirst, hsecond⟩ := Prod.mk.inj heq
  obtain ⟨hA, hB⟩ := of_decide_eq_true hend
  exact ⟨s, Runs.of_exec hrun, hA, hB, hfirst, hsecond⟩

end FastDht
