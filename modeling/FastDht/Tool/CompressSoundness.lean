import FastDht.Tool.FdhtCompress

/-! # Compression and the meaning of the log

The new file has the last record of every key, but neither deletes nor what has
expired. Where such a record was the last word on a key, what was there before
shows through. -/
namespace FastDht
open Lib

/-! ## Replaying a compressed file -/

/-- What a GET shows of a stored value. -/
def visibleAt (now : Int) (v : Option Bytes) : Option Bytes :=
  v.bind fun b => if expired (buff2int b) now then none else some (b.drop 4)

theorem visibleAt_none_mono {t t' : Int} (h : t ≤ t') {v : Option Bytes}
    (hv : visibleAt t v = none) : visibleAt t' v = none := by
  cases v with
  | none => rfl
  | some b =>
    have hexp : expired (buff2int b) t = true := by
      by_contra hne
      rw [visibleAt, Option.bind_some, if_neg hne] at hv
      cases hv
    have hexp' : expired (buff2int b) t' = true := by
      simp only [expired, Bool.and_eq_true, decide_eq_true_eq] at hexp ⊢
      exact ⟨hexp.1, by omega⟩
    rw [visibleAt, Option.bind_some, if_pos hexp']

theorem LogWrite.leftOut_invisible (g : Globals) {w : LogWrite} {t : Int}
    (h : w.leftOut t = true) : visibleAt t (w.entry g).2 = none := by
  unfold LogWrite.entry
  by_cases hset : w.opType.isSet = true
  · have hexp : expired (buff2int (int2buff w.expires ++ w.value)) t = true := by
      rw [buff2int_int2buff]
      simp only [LogWrite.leftOut, hset, Bool.not_true, Bool.or_false, Bool.and_eq_true,
        decide_eq_true_eq] at h
      have hle : toInt32 w.expires ≤ toUInt32 w.expires := by
        obtain ⟨-, hlt, q, hq⟩ := toInt32_spec w.expires
        unfold toUInt32
        omega
      simp only [expired, Bool.and_eq_true, decide_eq_true_eq]
      exact ⟨h.1, by omega⟩
    rw [if_pos hset, visibleAt, Option.bind_some, if_pos hexp]
  · rw [if_neg hset]
    rfl

section Replay

variable {g : Globals} {t : Int} {before after : List LogWrite} {w : LogWrite}

theorem replayLog_last (hlast : ∀ v ∈ after, (v.entry g).1 ≠ (w.entry g).1)
    (m : Nat × Bytes → Option Bytes) :
    replayLog g (before ++ w :: after) m (w.entry g).1 = (w.entry g).2 := by
  have hnone : ∀ e ∈ after.map (LogWrite.entry g), e.1 ≠ (w.entry g).1 := by
    intro e he
    obtain ⟨v, hv, rfl⟩ := List.mem_map.mp he
    exact hlast v hv
  rw [replayLog, List.map_append, List.map_cons, replay_append, replay_cons,
    replay_of_not_mem _ hnone, Function.update_self]

theorem replayLog_of_not_mem {log : List LogWrite} {p : Nat × Bytes}
    (h : ∀ v ∈ log, (v.entry g).1 ≠ p) (m : Nat × Bytes → Option Bytes) :
    replayLog g log m p = m p := by
  refine replay_of_not_mem m fun e he => ?_
  obtain ⟨v, hv, rfl⟩ := List.mem_map.mp he
  exact h v hv

/-- A record that is kept stays the last word. -/
theorem replayLog_compress_kept (hout : w.leftOut t = false)
    (hlast : ∀ v ∈ after, v.keyInfo.packFullKey ≠ w.keyInfo.packFullKey)
    (m : Nat × Bytes → Option Bytes) :
    replayLog g (compressBy id t (before ++ w :: after)) m (w.entry g).1 = (w.entry g).2 := by
  have hfilter : ((before ++ w :: after).filter fun v =>
      (id v).keyInfo.packFullKey = w.keyInfo.packFullKey).getLast? = some w := by
    have hnone : (after.filter fun v => (id v).keyInfo.packFullKey = w.keyInfo.packFullKey) = [] :=
      List.filter_eq_nil_iff.mpr fun v hv h => hlast v hv (of_decide_eq_true h)
    rw [List.filter_append, List.filter_cons_of_pos (by simp), hnone, List.getLast?_concat]
  have hmem : w ∈ compressBy id t (before ++ w :: after) := mem_compressBy.mpr ⟨hout, hfilter⟩
  refine replay_of_forall ⟨_, List.mem_map.mpr ⟨w, hmem, rfl⟩, rfl⟩ (fun e he hp => ?_) m
  obtain ⟨v, hv, rfl⟩ := List.mem_map.mp he
  have hkey : v.keyInfo.packFullKey = w.keyInfo.packFullKey := congrArg Prod.snd hp
  have hv := (mem_compressBy.mp hv).2
  rw [id_eq, hkey, hfilter] at hv
  rw [Option.some.inj hv]

theorem replayLog_compress_gone (hlast : ∀ v ∈ after, (v.entry g).1 ≠ (w.entry g).1)
    (hgone : w.leftOut t = true ∨ ∃ v ∈ after, v.keyInfo.packFullKey = w.keyInfo.packFullKey)
    (m : Nat × Bytes → Option Bytes) :
    replayLog g (compressBy id t (before ++ w :: after)) m (w.entry g).1 = m (w.entry g).1 := by
  refine replayLog_of_not_mem (fun v hv hp => ?_) m
  obtain ⟨hout, hv⟩ := mem_compressBy.mp hv
  rw [id_eq] at hout
  have hkey : v.keyInfo.packFullKey = w.keyInfo.packFullKey := congrArg Prod.snd hp
  rw [id_eq, hkey, List.filter_append, List.filter_cons_of_pos (by simp),
    List.getLast?_append, List.getLast?_cons] at hv
  have hv := Option.some.inj hv
  cases hsuffix : (after.filter fun v => (id v).keyInfo.packFullKey =
      w.keyInfo.packFullKey).getLast? with
  | none =>
    rw [hsuffix, Option.getD_none] at hv
    rw [List.getLast?_eq_none_iff, List.filter_eq_nil_iff] at hsuffix
    rcases hgone with hleft | ⟨u, hu, hkey'⟩
    · rw [hv, hout] at hleft
      cases hleft
    · exact hsuffix u hu (decide_eq_true hkey')
  | some u =>
    rw [hsuffix, Option.getD_some] at hv
    have hu := List.mem_of_mem_filter (List.mem_of_getLast? hsuffix)
    rw [hv] at hu
    exact hlast v hu hp

end Replay

/-! ## Replaying all files -/

/-- The files after the tool has rewritten file `i`. -/
def compressedFiles (sort : List CompressRawRow → List CompressRawRow) (files : List Bytes)
    (i : Nat) (now : Int) : Option (List Bytes) :=
  (compressBinlogFile sort (files.getD i []) now).map fun r => files.set i r.2

/-- Replaying the files with file `i` compressed shows, at time `t` or later, what
replaying the original files shows. -/
def CompressPreserves (sort : List CompressRawRow → List CompressRawRow) (g : Globals)
    (files : List Bytes) (i : Nat) (t : Int) (db : Bdb) : Prop :=
  ∃ files', compressedFiles sort files i t = some files' ∧ ∀ t', t ≤ t' → ∀ p,
    visibleAt t' ((fdhtRecoverDataFrom g files' 0 0 db).2.data p) =
      visibleAt t' ((fdhtRecoverDataFrom g files 0 0 db).2.data p)

/-- File `i` has the record `w` at `before ++ w :: after`, and nothing later in the log
is of its place. -/
structure LastWord (g : Globals) (fs : List (List LogWrite)) (i : Nat)
    (before : List LogWrite) (w : LogWrite) (after : List LogWrite) : Prop where
  file : fs.getD i [] = before ++ w :: after
  last : ∀ v ∈ after, (v.entry g).1 ≠ (w.entry g).1
  last_later : ∀ v ∈ (fs.drop (i + 1)).flatten, (v.entry g).1 ≠ (w.entry g).1

/-- When file `i` can be compressed. -/
structure CompressSafe (g : Globals) (fs : List (List LogWrite)) (i : Nat) (t : Int)
    (data : Nat × Bytes → Option Bytes) : Prop where
  /-- The texts of the keys fit their buffer. -/
  keys_short : ∀ w ∈ fs.getD i [], w.keyInfo.packFullKey.length ≤ 318
  /-- Nothing shows through where the last word is a delete or has expired. -/
  left_out : ∀ before w after, LastWord g fs i before w after → w.leftOut t = true →
    visibleAt t (replayLog g (fs.take i).flatten data (w.entry g).1) = none
  /-- Where the same key follows in another group, the last word has repeated what was
  there. -/
  shadowed : ∀ before w after, LastWord g fs i before w after → w.leftOut t = false →
    (∃ v ∈ after, v.keyInfo.packFullKey = w.keyInfo.packFullKey) → ∀ t', t ≤ t' →
      visibleAt t' (replayLog g (fs.take i).flatten data (w.entry g).1) =
        visibleAt t' (w.entry g).2

section Files

variable {sort : List CompressRawRow → List CompressRawRow} {g : Globals}
  {fs : List (List LogWrite)} {i : Nat} {t : Int} {db : Bdb}

theorem fdhtRecoverDataFrom_start (h0 : 0 < fs.length) (hq : db.Quiet)
    (hall : ∀ w ∈ fs.flatten, w.Loggable ∧ g.ownsGroup (g.groupOf w.keyHashCode) = true) :
    (fdhtRecoverDataFrom g (fs.map binlogBytes) 0 0 db).2.data =
      replayLog g fs.flatten db.data := by
  have hbefore := RecoveryReader.Before.mark (n := 0) h0
  have hlog : (fs.getD 0 []).drop 0 ++ (fs.drop (0 + 1)).flatten = fs.flatten := by
    have hsplit := flatten_split h0
    rw [List.take_zero, List.flatten_nil, List.nil_append] at hsplit
    rw [hsplit, List.drop_zero]
  have hfuel : fs.flatten.length < (fs.map binlogBytes).flatten.length + 1 := by
    have := binlogBytes_length_le fs.flatten
    rw [flatten_binlogBytes]
    omega
  have hrecorded : ∀ w ∈ (fs.getD 0 []).drop 0 ++ (fs.drop (0 + 1)).flatten, w.Recorded g := by
    intro w hw
    rw [hlog] at hw
    obtain ⟨hw, hown⟩ := hall w hw
    exact ⟨hw.toFits, hw.len_nonneg, hw.key_ne, hown⟩
  have hrun := recoverFromLoop_log hbefore hrecorded
    (fun w hw => (hall w (hlog ▸ hw)).1.timestamp_ne) hq (by rw [hlog]; exact hfuel)
  rw [hlog] at hrun
  exact hrun.2

theorem compressedFiles_log (hsort : SortsRows sort) (hi : i < fs.length)
    (hall : ∀ w ∈ fs.flatten, w.Loggable) :
    compressedFiles sort (fs.map binlogBytes) i t =
      if ∀ w ∈ fs.getD i [], w.keyInfo.packFullKey.length ≤ 318 then
        some ((fs.set i (compressBy id t (fs.getD i []))).map binlogBytes) else none := by
  have hlog : ∀ w ∈ fs.getD i [], w.Loggable := by
    intro w hw
    refine hall w ?_
    rw [flatten_split hi]
    exact List.mem_append_right _ (List.mem_append_left _ hw)
  rw [compressedFiles, getD_binlogBytes hi, compressBinlogFile_log hsort hlog]
  split
  · rw [Option.map_some, List.map_set]
  · rfl

/-- The last word of a place decides its state; where it is gone, the earlier state
shows. -/
theorem LastWord.replay {before after : List LogWrite} {w : LogWrite} (hi : i < fs.length)
    (h : LastWord g fs i before w after) (m : Nat × Bytes → Option Bytes) :
    replayLog g fs.flatten m (w.entry g).1 = (w.entry g).2 ∧
      ((w.leftOut t = true ∨ ∃ v ∈ after, v.keyInfo.packFullKey = w.keyInfo.packFullKey) →
        replayLog g (fs.set i (compressBy id t (fs.getD i []))).flatten m (w.entry g).1 =
          replayLog g (fs.take i).flatten m (w.entry g).1) := by
  constructor
  · rw [flatten_split hi, replayLog_append, replayLog_append, replayLog_of_not_mem h.last_later,
      h.file, replayLog_last h.last]
  · intro hgone
    rw [flatten_set hi, replayLog_append, replayLog_append, replayLog_of_not_mem h.last_later,
      h.file, replayLog_compress_gone h.last hgone]

/-- A place keeps its state unless its last word is gone. -/
theorem compress_place (hi : i < fs.length) (p : Nat × Bytes) (m : Nat × Bytes → Option Bytes)
    (hkept : ∀ before w after, LastWord g fs i before w after → (w.entry g).1 = p →
      w.leftOut t = false ∧ ∀ v ∈ after, v.keyInfo.packFullKey ≠ w.keyInfo.packFullKey) :
    replayLog g (fs.set i (compressBy id t (fs.getD i []))).flatten m p =
      replayLog g fs.flatten m p := by
  rw [flatten_set hi, flatten_split hi, replayLog_append, replayLog_append, replayLog_append,
    replayLog_append]
  by_cases hlater : ∃ v ∈ (fs.drop (i + 1)).flatten, (v.entry g).1 = p
  · obtain ⟨v, hv, hp⟩ := hlater
    exact replay_of_mem ⟨_, List.mem_map.mpr ⟨v, hv, rfl⟩, hp⟩ _ _
  · refine replay_congr _ ?_
    have hlater : ∀ v ∈ (fs.drop (i + 1)).flatten, (v.entry g).1 ≠ p :=
      fun v hv hp => hlater ⟨v, hv, hp⟩
    by_cases hfile : ∃ v ∈ fs.getD i [], (v.entry g).1 = p
    · obtain ⟨before, w, after, hsplit, rfl, hafter⟩ := exists_last hfile
      obtain ⟨hout, hkeys⟩ := hkept before w after ⟨hsplit, hafter, hlater⟩ rfl
      rw [hsplit, replayLog_last hafter, replayLog_compress_kept hout hkeys]
    · have hnone : ∀ v ∈ fs.getD i [], (v.entry g).1 ≠ p := fun v hv hp => hfile ⟨v, hv, hp⟩
      rw [replayLog_of_not_mem hnone,
        replayLog_of_not_mem fun v hv => hnone v (compressBy_subset _ hv)]

/-- **Compressing a file keeps what the log shows from then on exactly if the keys are
short and no earlier state shows through where a last word is left out.** -/
theorem compress_preserves_iff (hsort : SortsRows sort) (t : Int) (hi : i + 1 < fs.length)
    (hq : db.Quiet)
    (hall : ∀ w ∈ fs.flatten, w.Loggable ∧ g.ownsGroup (g.groupOf w.keyHashCode) = true) :
    CompressPreserves sort g (fs.map binlogBytes) i t db ↔ CompressSafe g fs i t db.data := by
  have hlt : i < fs.length := by omega
  have hfiles := compressedFiles_log (t := t) hsort hlt fun w hw => (hall w hw).1
  have hall' : ∀ w ∈ (fs.set i (compressBy id t (fs.getD i []))).flatten,
      w.Loggable ∧ g.ownsGroup (g.groupOf w.keyHashCode) = true := by
    intro w hw
    refine hall w ?_
    rw [flatten_split hlt]
    rw [flatten_set hlt] at hw
    rcases List.mem_append.mp hw with hw | hw
    · exact List.mem_append_left _ hw
    · rcases List.mem_append.mp hw with hw | hw
      · exact List.mem_append_right _ (List.mem_append_left _ (compressBy_subset _ hw))
      · exact List.mem_append_right _ (List.mem_append_right _ hw)
  have hold := fdhtRecoverDataFrom_start (by omega) hq hall
  have hnew := fdhtRecoverDataFrom_start (by rw [List.length_set]; omega) hq hall'
  constructor
  · rintro ⟨files', hsome, hsame⟩
    have hshort : ∀ w ∈ fs.getD i [], w.keyInfo.packFullKey.length ≤ 318 := by
      by_contra hlong
      rw [hfiles, if_neg hlong] at hsome
      cases hsome
    rw [hfiles, if_pos hshort] at hsome
    rw [← Option.some.inj hsome, hold, hnew] at hsame
    refine ⟨hshort, fun before w after hlast hout => ?_, fun before w after hlast _ hv t' ht => ?_⟩
    · obtain ⟨hstate, hshow⟩ := hlast.replay (t := t) hlt db.data
      have hp := hsame t le_rfl (w.entry g).1
      rwa [hstate, hshow (.inl hout), LogWrite.leftOut_invisible g hout] at hp
    · obtain ⟨hstate, hshow⟩ := hlast.replay (t := t) hlt db.data
      have hp := hsame t' ht (w.entry g).1
      rwa [hstate, hshow (.inr hv)] at hp
  · intro hsafe
    refine ⟨_, by rw [hfiles, if_pos hsafe.keys_short], fun t' ht p => ?_⟩
    rw [hold, hnew]
    by_cases hgone : ∃ before w after, LastWord g fs i before w after ∧ (w.entry g).1 = p ∧
        (w.leftOut t = true ∨ ∃ v ∈ after, v.keyInfo.packFullKey = w.keyInfo.packFullKey)
    · obtain ⟨before, w, after, hlast, rfl, hgone⟩ := hgone
      obtain ⟨hstate, hshow⟩ := hlast.replay (t := t) hlt db.data
      rw [hstate, hshow hgone]
      cases hout : w.leftOut t with
      | true =>
        rw [visibleAt_none_mono ht (hsafe.left_out before w after hlast hout),
          visibleAt_none_mono ht (LogWrite.leftOut_invisible g hout)]
      | false =>
        rcases hgone with hleft | hv
        · rw [hout] at hleft
          cases hleft
        · exact hsafe.shadowed before w after hlast hout hv t' ht
    · rw [compress_place hlt p]
      intro before w after hlast hp
      refine ⟨?_, fun v hv hkey => hgone ⟨before, w, after, hlast, hp, .inr ⟨v, hv, hkey⟩⟩⟩
      rw [← Bool.not_eq_true]
      exact fun hout => hgone ⟨before, w, after, hlast, hp, .inl hout⟩

end Files

/-- A file in which a key is set and deleted. -/
theorem compress_preserves_set_del :
    CompressPreserves sortRows oneGroup ([[firstWrite, lastWrite], []].map binlogBytes) 0 1000
      emptyBdb := by
  have hall : ∀ w ∈ [[firstWrite, lastWrite], []].flatten,
      w.Loggable ∧ oneGroup.ownsGroup (oneGroup.groupOf w.keyHashCode) = true := by
    intro w hw
    simp only [List.flatten_cons, List.flatten_nil, List.append_nil, List.mem_cons,
      List.not_mem_nil, or_false] at hw
    rcases hw with rfl | rfl
    · exact ⟨firstWrite_loggable, rfl⟩
    · exact ⟨lastWrite_loggable, rfl⟩
  refine (compress_preserves_iff sortRows_sorts 1000 (by decide) emptyBdb_quiet hall).mpr ⟨?_, ?_, ?_⟩
  · intro w hw
    simp only [List.getD_cons_zero, List.mem_cons, List.not_mem_nil, or_false] at hw
    rcases hw with rfl | rfl
    · decide
    · decide
  · intro before w after hlast hout
    rfl
  · intro before w after hlast hout hv
    obtain ⟨v, hv, hkey⟩ := hv
    have hgroup : ∀ n, oneGroup.groupOf n = 0 := fun n => Nat.mod_one _
    exact absurd (Prod.ext ((hgroup _).trans (hgroup _).symm) hkey) (hlast.last v hv)

/-- A key is set in one file and deleted in the next. Compressing the second drops the
delete, and the key is back. -/
theorem compress_revives_deleted_key :
    (∀ w ∈ [[firstWrite], [lastWrite], []].flatten,
      w.Loggable ∧ oneGroup.ownsGroup (oneGroup.groupOf w.keyHashCode) = true) ∧
    emptyBdb.Quiet ∧
    ¬CompressPreserves sortRows oneGroup ([[firstWrite], [lastWrite], []].map binlogBytes) 1 1000
      emptyBdb := by
  refine ⟨?_, emptyBdb_quiet, ?_⟩
  · intro w hw
    simp only [List.flatten_cons, List.flatten_nil, List.append_nil, List.cons_append,
      List.nil_append, List.mem_cons, List.not_mem_nil, or_false] at hw
    rcases hw with rfl | rfl
    · exact ⟨firstWrite_loggable, rfl⟩
    · exact ⟨lastWrite_loggable, rfl⟩
  · rintro ⟨files', hsome, hsame⟩
    have hold : visibleAt 1000 ((fdhtRecoverDataFrom oneGroup ([[firstWrite], [lastWrite], []].map
        binlogBytes) 0 0 emptyBdb).2.data (0, firstWrite.keyInfo.packFullKey)) = none := by
      decide +kernel
    have hnew : (compressedFiles sortRows ([[firstWrite], [lastWrite], []].map binlogBytes) 1 1000).map
        (fun files => visibleAt 1000 ((fdhtRecoverDataFrom oneGroup files 0 0 emptyBdb).2.data
          (0, firstWrite.keyInfo.packFullKey))) = some (some [120]) := by
      decide +kernel
    rw [hsome, Option.map_some, hsame 1000 le_rfl, hold] at hnew
    cases hnew

end FastDht
