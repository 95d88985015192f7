import FastDht.Common.IniFileReader
import Mathlib.Data.List.TakeDrop

/-! # The state files of a server

A server keeps four small files: the mark file of each peer, the mark of the
database recovery, the state of its own joining and the index of the current
binlog file. All four are rewritten in place: truncated, then written. The
module asks what their loaders find if the server stops in between.
`needed` counts the bytes of the new text up to the last one that matters; the
state survives a crash before the truncation or after that byte, and no other. -/
namespace FastDht
open Lib

variable {n : Int} {c : UInt8} {name : String} {rest first : List IniItem}

/-! ## Rewriting a file -/

/-- Where the server stops while it rewrites a file: before the truncation, or
with the first bytes of the new text written. -/
inductive CrashPoint
  | beforeTruncate
  | written (bytes : Nat)
  deriving DecidableEq, Repr

/-- The file after `ftruncate` (or `O_TRUNC`) and `write` up to a crash. -/
def CrashPoint.fileFound (old new : Bytes) : CrashPoint → Bytes
  | beforeTruncate => old
  | written bytes => new.take bytes

/-- The crash comes before the truncation or after this many bytes. -/
def CrashPoint.Spares (needed : Nat) : CrashPoint → Prop
  | beforeTruncate => True
  | written bytes => needed ≤ bytes

instance (needed : Nat) : (point : CrashPoint) → Decidable (point.Spares needed)
  | .beforeTruncate => isTrue trivial
  | .written bytes => inferInstanceAs (Decidable (needed ≤ bytes))

/-- What a writer prints for a value, the part of it that counts as state, and
what the loader makes of a file. -/
structure StateFile (σ τ : Type) where
  print : σ → Bytes
  state : σ → τ
  load : Bytes → Option (Except Int τ)

/-- The file found after the crash is accepted and yields the old or the new
state. -/
def StateFile.Survives {σ τ : Type} (f : StateFile σ τ) (old new : σ) (point : CrashPoint) : Prop :=
  f.load (point.fileFound (f.print old) (f.print new)) = some (.ok (f.state old)) ∨
    f.load (point.fileFound (f.print old) (f.print new)) = some (.ok (f.state new))

section Needed

variable {σ τ : Type} {f : StateFile σ τ} {needed : σ → Nat}
  (hload : ∀ s k, f.load ((f.print s).take k) = some (.ok (f.state s)) ↔ needed s ≤ k)
  (hneeded : ∀ s, needed s ≤ (f.print s).length)
include hload hneeded

theorem StateFile.load_print (s : σ) : f.load (f.print s) = some (.ok (f.state s)) := by
  have h := (hload s (f.print s).length).mpr (hneeded s)
  rwa [List.take_length] at h

theorem StateFile.survives_iff (new : σ) (point : CrashPoint) :
    (∀ old, f.Survives old new point) ↔ point.Spares (needed new) := by
  cases point with
  | beforeTruncate =>
    exact ⟨fun _ => trivial, fun _ old => Or.inl (f.load_print hload hneeded old)⟩
  | written bytes =>
    constructor
    · intro h
      -- the old state may be the new one
      rcases h new with h | h <;> exact (hload new bytes).mp h
    · intro h old
      exact Or.inr ((hload new bytes).mpr h)

end Needed

/-! ## Items of a state file -/

/-- Where an ini file lies, and the files it could include. -/
structure StatePath where
  files : IniFiles
  depth : Nat
  configPath : Bytes
  filename : Bytes

def StatePath.iniLoad (p : StatePath) (content : Bytes) : Option (Except Int IniContext) :=
  iniLoadFromFile { p.files with
    content := fun name => if name = p.filename then .ok content else p.files.content name }
    (p.depth + 1) p.configPath p.filename

def numberItem (name : String) (n : Int) : IniItem := ⟨asciiBytes name, formatInt n⟩

def boolItem (name : String) (b : Bool) : IniItem := numberItem name (if b then 1 else 0)

/-- The end of the digits of a number item that starts at `start`; a number that
is zero may as well be missing. -/
def digitsEnd (start : Nat) (name : String) (n : Int) : Nat :=
  if n = 0 then 0 else start + (asciiBytes name).length + 1 + (formatInt n).length

/-- The names of a list of items are different words. -/
structure PlainItems (items : List IniItem) : Prop where
  plain : ∀ item ∈ items, item.Plain
  nodup : (items.map (·.name)).Nodup

theorem mem_formatInt (hc : c ∈ formatInt n) : c = 45 ∨ isDigit c = true := by
  unfold formatInt at hc
  split at hc
  · rcases List.mem_cons.mp hc with rfl | h
    · exact Or.inl rfl
    · exact Or.inr (isDigit_of_mem_decimal h)
  · exact Or.inr (isDigit_of_mem_decimal hc)

theorem isTrimmed_digit (hc : isDigit c = true) : c ≠ 0 ∧ isTrimmed c = false := by
  have hrange : ∀ b : UInt8, isTrimmed b = true → isDigit b = false := by
    intro b hb
    simp only [isTrimmed, Bool.or_eq_true, decide_eq_true_eq] at hb
    rcases hb with ((rfl | rfl) | rfl) | rfl <;> rfl
  refine ⟨fun h => absurd (h ▸ hc) (by decide), ?_⟩
  cases htrim : isTrimmed c with
  | false => rfl
  | true => exact absurd (hrange c htrim) (by simp [hc])

theorem formatInt_word (hc : c ∈ formatInt n) :
    c ≠ 0 ∧ isTrimmed c = false := by
  rcases mem_formatInt hc with rfl | h
  · exact ⟨by decide, rfl⟩
  · exact isTrimmed_digit h

theorem word_line (hc : c ≠ 0 ∧ isTrimmed c = false) : c ≠ 0 ∧ c ≠ 10 :=
  ⟨hc.1, fun h => absurd (h ▸ hc.2) (by decide)⟩

/-- The names of the state files are words. -/
def isItemName (name : Bytes) : Bool :=
  name ≠ [] && name.length ≤ fastIniItemNameLen &&
    name.all fun c => c ≠ 0 && c ≠ 61 && c ≠ 35 && c ≠ 91 && !isTrimmed c

theorem IniItem.Plain.of_word {item : IniItem} (hname : isItemName item.name = true)
    (hlength : item.value.length ≤ fastIniItemValueLen)
    (hvalue : ∀ c ∈ item.value, c ≠ 0 ∧ c ≠ 10) : item.Plain := by
  simp only [isItemName, Bool.and_eq_true, decide_eq_true_eq, List.all_eq_true,
    Bool.not_eq_true'] at hname
  exact {
    name_ne_nil := hname.1.1
    name_length := hname.1.2
    name_word := fun c hc => by
      obtain ⟨⟨⟨⟨h0, h1⟩, h2⟩, h3⟩, h4⟩ := hname.2 c hc
      exact ⟨h0, h1, h2, h3, h4⟩
    value_length := hlength
    value_line := hvalue }

theorem numberItem_plain (hname : isItemName (asciiBytes name) = true)
    (hl : -2 ^ 63 ≤ n) (hu : n < 2 ^ 63) : (numberItem name n).Plain :=
  .of_word hname ((formatInt_length_int64 hl hu).trans (by decide))
    fun _ hc => word_line (formatInt_word hc)

theorem boolItem_plain (b : Bool) (hname : isItemName (asciiBytes name) = true) :
    (boolItem name b).Plain :=
  numberItem_plain hname (by split <;> decide) (by split <;> decide)

theorem needed_le_length (name : String) {sign : Nat} (hname : (asciiBytes name).length + 1 = sign)
    (before : List IniItem) (n : Int) (after : List IniItem) :
    max ((iniText before).length + sign) (digitsEnd (iniText before).length name n) ≤
      (iniText (before ++ numberItem name n :: after)).length := by
  rw [iniText_length, digitsEnd]
  unfold numberItem
  dsimp only
  split <;> omega

section Loaded

variable {p : StatePath} {items : List IniItem} {k : Nat}

/-- What the loaders see of a cut-off text. -/
structure Loaded (items : List IniItem) (k : Nat) (ctx : IniContext) : Prop where
  count : ctx.global.length = (cutItems items k).length
  get : ∀ before item after, items = before ++ item :: after →
    iniGetStrValue ctx item.name =
      if k ≤ (iniText before).length + item.name.length then none
      else some (trim (item.value.take (k - ((iniText before).length + item.name.length + 1))))

theorem StatePath.iniLoad_take (p : StatePath) (h : PlainItems items) (k : Nat) :
    ∃ ctx, p.iniLoad ((iniText items).take k) = some (.ok ctx) ∧ Loaded items k ctx := by
  have hnul : 0 ∉ (iniText items).take k := by
    intro hmem
    obtain ⟨item, hitem, hc⟩ := List.mem_flatMap.mp (List.mem_of_mem_take hmem)
    have hplain := h.plain item hitem
    simp only [IniItem.line, List.mem_append, List.mem_cons, List.not_mem_nil, or_false] at hc
    rcases hc with hc | hc | hc | hc
    · exact (hplain.name_word 0 hc).1 rfl
    · exact absurd hc (by decide)
    · exact (hplain.value_line 0 hc).1 rfl
    · exact absurd hc (by decide)
  refine ⟨iniSortItems ⟨p.configPath, cutItems items k, [], none⟩, ?_, ?_, ?_⟩
  · unfold StatePath.iniLoad iniLoadFromFile iniDoLoadFromFile
    dsimp only
    rw [if_pos rfl]
    dsimp only
    rw [cstr_eq_self_iff.mpr hnul, iniLoadLines_take _ _ h.plain k (by rfl), List.nil_append]
    rfl
  · exact (qsort_perm _ _).length_eq
  · intro before item after hitems
    have hmem : item ∈ items := by
      rw [hitems]
      exact List.mem_append_right _ (List.mem_cons_self ..)
    have hnames := cutItems_names items k
    have hword : ∀ i ∈ items, 0 ∉ i.name := fun i hi hc => ((h.plain i hi).name_word 0 hc).1 rfl
    have hcut : ∀ i ∈ cutItems items k, 0 ∉ i.name := by
      intro i hi
      obtain ⟨j, hj, hname⟩ := List.mem_map.mp (hnames.subset (List.mem_map_of_mem hi))
      rw [← hname]
      exact hword j hj
    have hbefore : item.name ∉ before.map (·.name) := by
      have hnodup := h.nodup
      rw [hitems, List.map_append, List.map_cons, List.nodup_append] at hnodup
      exact fun hin => hnodup.2.2 _ hin _ (List.mem_cons_self ..) rfl
    rw [iniGetStrValue_sortItems (hnames.nodup h.nodup) hcut (hword item hmem)]
    rw [hitems, cutItems_find hbefore]
    split <;> rfl

variable {ctx : IniContext}

theorem Loaded.get_whole (h : Loaded items k ctx)
    (hitems : items = first ++ rest) (hk : (iniText first).length ≤ k) {item : IniItem}
    (hmem : item ∈ first) (hword : ∀ c ∈ item.value, c ≠ 0 ∧ isTrimmed c = false) :
    iniGetStrValue ctx item.name = some item.value := by
  obtain ⟨before, after, rfl⟩ := List.append_of_mem hmem
  rw [iniText_length] at hk
  rw [h.get before item (after ++ rest) (by rw [hitems, List.append_assoc, List.cons_append]),
    if_neg (by omega), List.take_of_length_le (by omega), trim_word hword]

theorem Loaded.get_number (h : Loaded items k ctx) (before : List IniItem) {after : List IniItem}
    (hitems : items = before ++ numberItem name n :: after) :
    iniGetStrValue ctx (asciiBytes name) =
      if k ≤ (iniText before).length + (asciiBytes name).length then none
      else some ((formatInt n).take
        (k - ((iniText before).length + (asciiBytes name).length + 1))) := by
  have hget := h.get before _ after hitems
  unfold numberItem at hget
  rwa [trim_word fun c hc => formatInt_word (List.mem_of_mem_take hc)] at hget

theorem atoi_take_formatInt (hl : -2 ^ 31 ≤ n) (hu : n < 2 ^ 31) (j : Nat) :
    atoi ((formatInt n).take j) = n ↔ n = 0 ∨ (formatInt n).length ≤ j := by
  obtain ⟨hbetween, hiff⟩ := strtoll_take_formatInt (n := n) (by omega) (by omega) j
  rw [← hiff, atoi, toInt32_of_range (by omega) (by omega)]

theorem Loaded.getInt_iff (h : Loaded items k ctx) (before : List IniItem) {after : List IniItem}
    (hitems : items = before ++ numberItem name n :: after) (hl : -2 ^ 31 ≤ n) (hu : n < 2 ^ 31) :
    iniGetIntValue ctx (asciiBytes name) 0 = n ↔ digitsEnd (iniText before).length name n ≤ k := by
  unfold iniGetIntValue digitsEnd
  rw [h.get_number before hitems]
  split
  · rw [Option.elim_none]
    split <;> omega
  · rw [Option.elim_some, atoi_take_formatInt hl hu]
    split <;> omega

theorem Loaded.getInt64_iff (h : Loaded items k ctx) (before : List IniItem) {after : List IniItem}
    (hitems : items = before ++ numberItem name n :: after) (hl : -2 ^ 63 ≤ n)
    (hu : n < 2 ^ 63) (default : Int)
    (hk : (iniText before).length + (asciiBytes name).length < k) :
    iniGetInt64Value ctx (asciiBytes name) default = n ↔
      digitsEnd (iniText before).length name n ≤ k := by
  unfold iniGetInt64Value digitsEnd
  rw [h.get_number before hitems, if_neg (by omega), Option.elim_some,
    (strtoll_take_formatInt hl hu _).2]
  split <;> omega

theorem Loaded.getInt_whole (h : Loaded items k ctx)
    (hitems : items = first ++ rest) (hk : (iniText first).length ≤ k) (name : String) (n : Int)
    (hmem : numberItem name n ∈ first) (hl : -2 ^ 31 ≤ n) (hu : n < 2 ^ 31) (default : Int) :
    iniGetIntValue ctx (asciiBytes name) default = n := by
  have hget : iniGetStrValue ctx (asciiBytes name) = some (formatInt n) :=
    h.get_whole hitems hk hmem fun _ hc => formatInt_word hc
  have hatoi := atoi_take_formatInt hl hu (formatInt n).length
  rw [List.take_length] at hatoi
  rw [iniGetIntValue, hget, Option.elim_some]
  exact hatoi.mpr (Or.inr le_rfl)

theorem Loaded.getInt64_whole (h : Loaded items k ctx)
    (hitems : items = first ++ rest) (hk : (iniText first).length ≤ k) (name : String) (n : Int)
    (hmem : numberItem name n ∈ first) (hl : -2 ^ 63 ≤ n) (hu : n < 2 ^ 63) (default : Int) :
    iniGetInt64Value ctx (asciiBytes name) default = n := by
  have hget : iniGetStrValue ctx (asciiBytes name) = some (formatInt n) :=
    h.get_whole hitems hk hmem fun _ hc => formatInt_word hc
  have hvalue := (strtoll_take_formatInt hl hu (formatInt n).length).2
  rw [List.take_length] at hvalue
  rw [iniGetInt64Value, hget, Option.elim_some]
  exact hvalue.mpr (Or.inr le_rfl)

theorem Loaded.getBool_whole (h : Loaded items k ctx)
    (hitems : items = first ++ rest) (hk : (iniText first).length ≤ k) (name : String) (b : Bool)
    (hmem : boolItem name b ∈ first) (default : Bool) :
    iniGetBoolValue ctx (asciiBytes name) default = b := by
  have hget : iniGetStrValue ctx (asciiBytes name) = some (formatInt (if b then 1 else 0)) :=
    h.get_whole hitems hk hmem fun _ hc => formatInt_word hc
  rw [iniGetBoolValue, hget, Option.elim_some]
  cases b <;> rfl

end Loaded

/-- The loader of a file whose items `read` turns into a state. -/
def StatePath.load {τ : Type} (p : StatePath) (read : IniContext → Except Int τ) (content : Bytes) :
    Option (Except Int τ) :=
  (p.iniLoad content).map fun r => r.bind read

theorem StatePath.load_take_iff {τ : Type} (p : StatePath) {read : IniContext → Except Int τ}
    {items : List IniItem} (hitems : PlainItems items) {k needed : Nat} {state : τ}
    (hread : ∀ ctx, Loaded items k ctx → (read ctx = .ok state ↔ needed ≤ k)) :
    p.load read ((iniText items).take k) = some (.ok state) ↔ needed ≤ k := by
  obtain ⟨ctx, hload, hctx⟩ := p.iniLoad_take hitems k
  rw [StatePath.load, hload, ← hread ctx hctx]
  exact Option.some_inj

/-! ## The mark file of a peer -/

structure MarkItems where
  binlogIndex : Int
  binlogOffset : Int
  needSyncOld : Bool
  syncOldDone : Bool
  untilTimestamp : Int
  scanRowCount : Int
  syncRowCount : Int
  deriving DecidableEq, Repr

/-- The part of a `BinLogReader` that is saved: a position of the binlog, and
numbers that fit their types. -/
structure MarkState extends MarkItems where
  index_range : 0 ≤ binlogIndex ∧ binlogIndex < 2 ^ 31
  offset_range : 0 ≤ binlogOffset ∧ binlogOffset < 2 ^ 63
  until_range : -2 ^ 31 ≤ untilTimestamp ∧ untilTimestamp < 2 ^ 31
  scan_range : -2 ^ 63 ≤ scanRowCount ∧ scanRowCount < 2 ^ 63
  sync_range : -2 ^ 63 ≤ syncRowCount ∧ syncRowCount < 2 ^ 63

/-- The items before `sync_row_count`. -/
def MarkState.firstItems (s : MarkState) : List IniItem := [
  numberItem "binlog_index" s.binlogIndex,
  numberItem "binlog_offset" s.binlogOffset,
  boolItem "need_sync_old" s.needSyncOld,
  boolItem "sync_old_done" s.syncOldDone,
  numberItem "until_timestamp" s.untilTimestamp,
  numberItem "scan_row_count" s.scanRowCount]

def MarkState.items (s : MarkState) : List IniItem :=
  s.firstItems ++ [numberItem "sync_row_count" s.syncRowCount]

/-- The text `fdht_write_to_mark_file` writes. -/
def fdhtWriteToMarkFile (s : MarkState) : Bytes := iniText s.items

/-- What `fdht_reader_init` does with the items of a mark file. -/
def fdhtReaderInitItems (ctx : IniContext) : Except Int MarkItems :=
  if ctx.global.length < 7 then .error ENOENT
  else
    let m : MarkItems := {
      binlogIndex := iniGetIntValue ctx (asciiBytes "binlog_index") (-1)
      binlogOffset := iniGetInt64Value ctx (asciiBytes "binlog_offset") (-1)
      needSyncOld := iniGetBoolValue ctx (asciiBytes "need_sync_old") false
      syncOldDone := iniGetBoolValue ctx (asciiBytes "sync_old_done") false
      untilTimestamp := iniGetIntValue ctx (asciiBytes "until_timestamp") (-1)
      scanRowCount := iniGetInt64Value ctx (asciiBytes "scan_row_count") 0
      syncRowCount := iniGetInt64Value ctx (asciiBytes "sync_row_count") 0 }
    if m.binlogIndex < 0 then .error EINVAL
    else if m.binlogOffset < 0 then .error EINVAL
    else .ok m

def markFile (p : StatePath) : StateFile MarkState MarkItems where
  print := fdhtWriteToMarkFile
  state := MarkState.toMarkItems
  load := p.load fdhtReaderInitItems

/-- All seven items have to be there, and the digits of the last one. -/
def MarkState.needed (s : MarkState) : Nat :=
  max ((iniText s.firstItems).length + 15)
    (digitsEnd (iniText s.firstItems).length "sync_row_count" s.syncRowCount)

theorem MarkState.items_plain (s : MarkState) : PlainItems s.items where
  plain := by
    have hindex := s.index_range
    have hoffset := s.offset_range
    have huntil := s.until_range
    intro item hitem
    simp only [MarkState.items, MarkState.firstItems, List.cons_append, List.nil_append,
      List.mem_cons, List.not_mem_nil, or_false] at hitem
    rcases hitem with rfl | rfl | rfl | rfl | rfl | rfl | rfl
    · exact numberItem_plain (by decide) (by omega) (by omega)
    · exact numberItem_plain (by decide) (by omega) (by omega)
    · exact boolItem_plain _ (by decide)
    · exact boolItem_plain _ (by decide)
    · exact numberItem_plain (by decide) (by omega) (by omega)
    · exact numberItem_plain (by decide) s.scan_range.1 s.scan_range.2
    · exact numberItem_plain (by decide) s.sync_range.1 s.sync_range.2
  nodup := by
    show (["binlog_index", "binlog_offset", "need_sync_old", "sync_old_done", "until_timestamp",
      "scan_row_count", "sync_row_count"].map asciiBytes).Nodup
    decide

theorem MarkState.read_iff (s : MarkState) {k : Nat} {ctx : IniContext}
    (h : Loaded s.items k ctx) :
    fdhtReaderInitItems ctx = .ok s.toMarkItems ↔ s.needed ≤ k := by
  have hcount := cutItems_length_lt_iff s.firstItems (numberItem "sync_row_count" s.syncRowCount) k
  have hname : (numberItem "sync_row_count" s.syncRowCount).name.length = 14 := rfl
  change (cutItems s.items k).length < 7 ↔ _ at hcount
  unfold fdhtReaderInitItems MarkState.needed
  rw [h.count]
  by_cases hall : k ≤ (iniText s.firstItems).length + 14
  · rw [if_pos (hcount.mpr hall)]
    exact ⟨nofun, fun hk => by omega⟩
  · have hk : (iniText s.firstItems).length ≤ k := by omega
    have hr := s.index_range
    have hindex := h.getInt_whole rfl hk "binlog_index" s.binlogIndex
      (by simp [MarkState.firstItems]) (by omega) hr.2 (-1)
    have hr' := s.offset_range
    have hoffset := h.getInt64_whole rfl hk "binlog_offset" s.binlogOffset
      (by simp [MarkState.firstItems]) (by omega) hr'.2 (-1)
    have hneed := h.getBool_whole rfl hk "need_sync_old" s.needSyncOld
      (by simp [MarkState.firstItems]) false
    have hdone := h.getBool_whole rfl hk "sync_old_done" s.syncOldDone
      (by simp [MarkState.firstItems]) false
    have huntil := h.getInt_whole rfl hk "until_timestamp" s.untilTimestamp
      (by simp [MarkState.firstItems]) s.until_range.1 s.until_range.2 (-1)
    have hscan := h.getInt64_whole rfl hk "scan_row_count" s.scanRowCount
      (by simp [MarkState.firstItems]) s.scan_range.1 s.scan_range.2 0
    have hsync := h.getInt64_iff s.firstItems rfl s.sync_range.1 s.sync_range.2 0
      (show (iniText s.firstItems).length + 14 < k by omega)
    rw [if_neg (by omega)]
    dsimp only
    rw [hindex, hoffset, hneed, hdone, huntil, hscan, if_neg (by omega), if_neg (by omega)]
    have hstate : (Except.ok (MarkItems.mk s.binlogIndex s.binlogOffset s.needSyncOld s.syncOldDone
        s.untilTimestamp s.scanRowCount (iniGetInt64Value ctx (asciiBytes "sync_row_count") 0)) :
        Except Int MarkItems) = .ok s.toMarkItems ↔
        iniGetInt64Value ctx (asciiBytes "sync_row_count") 0 = s.syncRowCount :=
      ⟨fun heq => congrArg MarkItems.syncRowCount (Except.ok.inj heq), fun heq => by rw [heq]⟩
    rw [hstate, hsync]
    omega

theorem MarkState.needed_le (s : MarkState) : s.needed ≤ (fdhtWriteToMarkFile s).length :=
  needed_le_length "sync_row_count" (show (asciiBytes "sync_row_count").length + 1 = 15 from rfl)
    s.firstItems s.syncRowCount []

/-! ## The mark of the database recovery -/

/-- Broken-down local time. -/
structure Tm where
  year : Fin (10 ^ 10)
  mon : Fin 100
  mday : Fin 100
  hour : Fin 100
  min : Fin 100
  sec : Fin 100
  deriving DecidableEq, Repr

def twoDigits (n : Fin 100) : Bytes := [UInt8.ofNat (48 + n / 10), UInt8.ofNat (48 + n % 10)]

/-- `formatDatetime` with `"%Y-%m-%d %H:%M:%S"`. -/
def formatDatetime (t : Tm) : Bytes :=
  decimal t.year ++ 45 :: (twoDigits t.mon ++ 45 :: (twoDigits t.mday ++ 32 ::
    (twoDigits t.hour ++ 58 :: (twoDigits t.min ++ 58 :: twoDigits t.sec))))

/-- The arguments of `fdht_write_to_db_recovery_mark_file`. -/
structure RecoveryUpdate where
  timestamp : Tm
  binlogIndex : Int
  binlogOffset : Int
  writtenPages : Int
  timeUsedMs : Int
  index_range : 0 ≤ binlogIndex ∧ binlogIndex < 2 ^ 31
  offset_range : 0 ≤ binlogOffset ∧ binlogOffset < 2 ^ 63
  pages_range : -2 ^ 31 ≤ writtenPages ∧ writtenPages < 2 ^ 31
  time_range : -2 ^ 31 ≤ timeUsedMs ∧ timeUsedMs < 2 ^ 31

def RecoveryUpdate.indexItem (u : RecoveryUpdate) : IniItem := numberItem "binlog_index" u.binlogIndex

/-- The items no loader reads. -/
def RecoveryUpdate.lastItems (u : RecoveryUpdate) : List IniItem := [
  numberItem "written_pages" u.writtenPages,
  ⟨asciiBytes "start_time", formatDatetime u.timestamp⟩,
  ⟨asciiBytes "time_used", formatInt u.timeUsedMs ++ asciiBytes " ms"⟩]

def RecoveryUpdate.items (u : RecoveryUpdate) : List IniItem :=
  u.indexItem :: numberItem "binlog_offset" u.binlogOffset :: u.lastItems

/-- The text `fdht_write_to_db_recovery_mark_file` writes. -/
def fdhtWriteToDbRecoveryMarkFile (u : RecoveryUpdate) : Bytes := iniText u.items

/-- What `fdht_db_recovery_init` does with the items of its mark file. -/
def fdhtDbRecoveryInitItems (ctx : IniContext) : Except Int (Int × Int) :=
  match iniGetStrValue ctx (asciiBytes "binlog_index") with
  | none => .error ENOENT
  | some index =>
    match iniGetStrValue ctx (asciiBytes "binlog_offset") with
    | none => .error ENOENT
    | some offset => .ok (atoi index, strtoll offset)

def recoveryMarkFile (p : StatePath) : StateFile RecoveryUpdate (Int × Int) where
  print := fdhtWriteToDbRecoveryMarkFile
  state := fun u => (u.binlogIndex, u.binlogOffset)
  load := p.load fdhtDbRecoveryInitItems

/-- The offset has to be there with its digits. -/
def RecoveryUpdate.needed (u : RecoveryUpdate) : Nat :=
  max ((iniText [u.indexItem]).length + 14)
    (digitsEnd (iniText [u.indexItem]).length "binlog_offset" u.binlogOffset)

theorem mem_formatDatetime {t : Tm} (hc : c ∈ formatDatetime t) : c ≠ 0 ∧ c ≠ 10 := by
  have hdigits : ∀ n : Fin 100, (twoDigits n).all isDigit = true := by decide
  have htwo : ∀ n : Fin 100, ∀ b ∈ twoDigits n, b ≠ 0 ∧ b ≠ 10 := fun n b hb =>
    word_line (isTrimmed_digit (List.all_eq_true.mp (hdigits n) b hb))
  have hyear : ∀ b ∈ decimal t.year, b ≠ 0 ∧ b ≠ 10 := fun b hb =>
    word_line (isTrimmed_digit (isDigit_of_mem_decimal hb))
  simp only [formatDatetime, List.mem_append, List.mem_cons] at hc
  rcases hc with h | rfl | h | rfl | h | rfl | h | rfl | h | rfl | h
  · exact hyear c h
  · decide
  · exact htwo _ c h
  · decide
  · exact htwo _ c h
  · decide
  · exact htwo _ c h
  · decide
  · exact htwo _ c h
  · decide
  · exact htwo _ c h

theorem formatDatetime_length (t : Tm) : (formatDatetime t).length ≤ fastIniItemValueLen := by
  have hyear : (decimal t.year).length ≤ 10 := (decimal_length_le (by decide)).mpr t.year.isLt
  simp only [formatDatetime, twoDigits, List.length_append, List.length_cons, List.length_nil,
    fastIniItemValueLen]
  omega

theorem RecoveryUpdate.items_plain (u : RecoveryUpdate) : PlainItems u.items where
  plain := by
    have hindex := u.index_range
    have hoffset := u.offset_range
    have hpages := u.pages_range
    have htime := u.time_range
    intro item hitem
    simp only [RecoveryUpdate.items, RecoveryUpdate.lastItems, List.mem_cons, List.not_mem_nil,
      or_false] at hitem
    rcases hitem with rfl | rfl | rfl | rfl | rfl
    · exact numberItem_plain (by decide) (by omega) (by omega)
    · exact numberItem_plain (by decide) (by omega) (by omega)
    · exact numberItem_plain (by decide) (by omega) (by omega)
    · exact .of_word (show isItemName (asciiBytes "start_time") = true by decide)
        (formatDatetime_length _) fun c hc => mem_formatDatetime hc
    · refine .of_word (show isItemName (asciiBytes "time_used") = true by decide) ?_ ?_
      · have hdigits := formatInt_length_int64 (n := u.timeUsedMs) (by omega) (by omega)
        have hms : (asciiBytes " ms").length = 3 := rfl
        simp only [List.length_append, hms, fastIniItemValueLen]
        omega
      · intro c hc
        rcases List.mem_append.mp hc with h | h
        · exact word_line (formatInt_word h)
        · have hms : (asciiBytes " ms").all (fun b => b ≠ 0 && b ≠ 10) = true := rfl
          simpa using List.all_eq_true.mp hms c h
  nodup := by
    show (["binlog_index", "binlog_offset", "written_pages", "start_time", "time_used"].map
      asciiBytes).Nodup
    decide

theorem RecoveryUpdate.read_iff (u : RecoveryUpdate) {k : Nat} {ctx : IniContext}
    (h : Loaded u.items k ctx) :
    fdhtDbRecoveryInitItems ctx = .ok (u.binlogIndex, u.binlogOffset) ↔ u.needed ≤ k := by
  have hr := u.index_range
  have hr' := u.offset_range
  have hitems : u.items = [u.indexItem] ++ numberItem "binlog_offset" u.binlogOffset :: u.lastItems :=
    rfl
  have hname : (asciiBytes "binlog_offset").length = 13 := rfl
  have hget := h.get_number [u.indexItem] hitems
  unfold fdhtDbRecoveryInitItems RecoveryUpdate.needed
  rw [hget, hname]
  by_cases hk : k ≤ (iniText [u.indexItem]).length + 13
  · rw [if_pos hk]
    refine ⟨fun heq => ?_, fun hneed => by omega⟩
    split at heq <;> cases heq
  · have hindex : iniGetStrValue ctx (asciiBytes "binlog_index") = some (formatInt u.binlogIndex) :=
      h.get_whole hitems (by omega) (List.mem_cons_self ..) fun _ hc => formatInt_word hc
    have hatoi := (atoi_take_formatInt (n := u.binlogIndex) (by omega) hr.2
      (formatInt u.binlogIndex).length).mpr (Or.inr le_rfl)
    rw [List.take_length] at hatoi
    have hvalue := (strtoll_take_formatInt (n := u.binlogOffset) (by omega) hr'.2
      (k - ((iniText [u.indexItem]).length + 13 + 1))).2
    rw [if_neg hk, hindex]
    dsimp only
    rw [hatoi, Except.ok.injEq, Prod.mk.injEq, hvalue, digitsEnd, hname]
    split <;> omega

theorem RecoveryUpdate.needed_le (u : RecoveryUpdate) :
    u.needed ≤ (fdhtWriteToDbRecoveryMarkFile u).length :=
  needed_le_length "binlog_offset" (show (asciiBytes "binlog_offset").length + 1 = 14 from rfl)
    [u.indexItem] u.binlogOffset u.lastItems

/-! ## The state of the server's own joining -/

structure SyncInitItems where
  serverJoinTime : Int
  syncOldDone : Bool
  syncSrcIpAddr : Bytes
  syncSrcPort : Int
  syncUntilTimestamp : Int
  syncDoneTimestamp : Int
  deriving DecidableEq, Repr

/-- The globals `write_to_sync_ini_file` saves; an address is a word that fits
its buffer. -/
structure SyncInit extends SyncInitItems where
  join_range : -2 ^ 31 ≤ serverJoinTime ∧ serverJoinTime < 2 ^ 31
  ip_length : syncSrcIpAddr.length < 16
  ip_word : ∀ c ∈ syncSrcIpAddr, c ≠ 0 ∧ isTrimmed c = false
  port_range : -2 ^ 31 ≤ syncSrcPort ∧ syncSrcPort < 2 ^ 31
  until_range : -2 ^ 31 ≤ syncUntilTimestamp ∧ syncUntilTimestamp < 2 ^ 31
  done_range : -2 ^ 31 ≤ syncDoneTimestamp ∧ syncDoneTimestamp < 2 ^ 31

def SyncInit.firstItems (s : SyncInit) : List IniItem :=
  [numberItem "server_join_time" s.serverJoinTime, boolItem "sync_old_done" s.syncOldDone]

def SyncInit.srcItem (s : SyncInit) : IniItem := ⟨asciiBytes "sync_src_server", s.syncSrcIpAddr⟩

def SyncInit.portItem (s : SyncInit) : IniItem := numberItem "sync_src_port" s.syncSrcPort

def SyncInit.untilItem (s : SyncInit) : IniItem :=
  numberItem "sync_until_timestamp" s.syncUntilTimestamp

def SyncInit.doneItem (s : SyncInit) : IniItem :=
  numberItem "sync_done_timestamp" s.syncDoneTimestamp

def SyncInit.items (s : SyncInit) : List IniItem :=
  s.firstItems ++ [s.srcItem, s.portItem, s.untilItem, s.doneItem]

/-- The text `write_to_sync_ini_file` writes. -/
def writeToSyncIniFile (s : SyncInit) : Bytes := iniText s.items

/-- What `load_sync_init_data` does with the items of its file; `bool` is a
`char`. -/
def loadSyncInitItems (ctx : IniContext) : Except Int SyncInitItems :=
  match iniGetStrValue ctx (asciiBytes "server_join_time") with
  | none => .error ENOENT
  | some joinTime =>
    match iniGetStrValue ctx (asciiBytes "sync_old_done") with
    | none => .error ENOENT
    | some oldDone =>
      match iniGetStrValue ctx (asciiBytes "sync_src_server") with
      | none => .error ENOENT
      | some srcServer => .ok {
          serverJoinTime := atoi joinTime
          syncOldDone := decide (atoi oldDone % 256 ≠ 0)
          syncSrcIpAddr := srcServer.take 15
          syncSrcPort := iniGetIntValue ctx (asciiBytes "sync_src_port") 0
          syncUntilTimestamp := iniGetIntValue ctx (asciiBytes "sync_until_timestamp") 0
          syncDoneTimestamp := iniGetIntValue ctx (asciiBytes "sync_done_timestamp") 0 }

def syncInitFile (p : StatePath) : StateFile SyncInit SyncInitItems where
  print := writeToSyncIniFile
  state := SyncInit.toSyncInitItems
  load := p.load loadSyncInitItems

/-- The address has to be there, and after it the last number that is not zero. -/
def SyncInit.needed (s : SyncInit) : Nat :=
  max ((iniText s.firstItems).length + 16 + s.syncSrcIpAddr.length)
    (max (digitsEnd (iniText (s.firstItems ++ [s.srcItem])).length "sync_src_port" s.syncSrcPort)
      (max (digitsEnd (iniText (s.firstItems ++ [s.srcItem, s.portItem])).length
          "sync_until_timestamp" s.syncUntilTimestamp)
        (digitsEnd (iniText (s.firstItems ++ [s.srcItem, s.portItem, s.untilItem])).length
          "sync_done_timestamp" s.syncDoneTimestamp)))

theorem SyncInit.items_plain (s : SyncInit) : PlainItems s.items where
  plain := by
    have hjoin := s.join_range
    have hport := s.port_range
    have huntil := s.until_range
    have hdone := s.done_range
    intro item hitem
    simp only [SyncInit.items, SyncInit.firstItems, List.cons_append, List.nil_append,
      List.mem_cons, List.not_mem_nil, or_false] at hitem
    rcases hitem with rfl | rfl | rfl | rfl | rfl | rfl
    · exact numberItem_plain (by decide) (by omega) (by omega)
    · exact boolItem_plain _ (by decide)
    · exact .of_word (show isItemName (asciiBytes "sync_src_server") = true by decide)
        (s.ip_length.le.trans (by decide)) fun c hc => word_line (s.ip_word c hc)
    · exact numberItem_plain (by decide) (by omega) (by omega)
    · exact numberItem_plain (by decide) (by omega) (by omega)
    · exact numberItem_plain (by decide) (by omega) (by omega)
  nodup := by
    show (["server_join_time", "sync_old_done", "sync_src_server", "sync_src_port",
      "sync_until_timestamp", "sync_done_timestamp"].map asciiBytes).Nodup
    decide

theorem SyncInit.read_iff (s : SyncInit) {k : Nat} {ctx : IniContext} (h : Loaded s.items k ctx) :
    loadSyncInitItems ctx = .ok s.toSyncInitItems ↔ s.needed ≤ k := by
  have hsrc := h.get s.firstItems s.srcItem _ rfl
  have hport := h.getInt_iff (s.firstItems ++ [s.srcItem]) rfl s.port_range.1 s.port_range.2
  have huntil := h.getInt_iff (s.firstItems ++ [s.srcItem, s.portItem]) rfl
    s.until_range.1 s.until_range.2
  have hdone := h.getInt_iff (s.firstItems ++ [s.srcItem, s.portItem, s.untilItem]) rfl
    s.done_range.1 s.done_range.2
  have hname : s.srcItem.name.length = 15 := rfl
  rw [hname] at hsrc
  unfold loadSyncInitItems SyncInit.needed
  change iniGetStrValue ctx (asciiBytes "sync_src_server") = _ at hsrc
  rw [hsrc]
  by_cases hk : k ≤ (iniText s.firstItems).length + 15
  · rw [if_pos hk]
    refine ⟨fun heq => ?_, fun hneed => by omega⟩
    split at heq
    · cases heq
    · split at heq <;> cases heq
  · have hfirst : (iniText s.firstItems).length ≤ k := by omega
    have hjoin : iniGetStrValue ctx (asciiBytes "server_join_time") =
        some (formatInt s.serverJoinTime) :=
      h.get_whole rfl hfirst (List.mem_cons_self ..) fun _ hc => formatInt_word hc
    have hold : iniGetStrValue ctx (asciiBytes "sync_old_done") =
        some (formatInt (if s.syncOldDone then 1 else 0)) :=
      h.get_whole rfl hfirst (show boolItem "sync_old_done" s.syncOldDone ∈ s.firstItems from
        List.mem_cons_of_mem _ (List.mem_cons_self ..)) fun _ hc => formatInt_word hc
    have hold' : decide (atoi (formatInt (if s.syncOldDone then 1 else 0)) % 256 ≠ 0) =
        s.syncOldDone := by
      cases s.syncOldDone <;> rfl
    have hatoi := (atoi_take_formatInt s.join_range.1 s.join_range.2
      (formatInt s.serverJoinTime).length).mpr (Or.inr le_rfl)
    rw [List.take_length] at hatoi
    have hip : trim (s.srcItem.value.take (k - ((iniText s.firstItems).length + 15 + 1))) =
        s.syncSrcIpAddr.take (k - ((iniText s.firstItems).length + 15 + 1)) :=
      trim_word fun c hc => s.ip_word c (List.mem_of_mem_take hc)
    have hfits : (s.syncSrcIpAddr.take (k - ((iniText s.firstItems).length + 15 + 1))).take 15 =
        s.syncSrcIpAddr ↔ (iniText s.firstItems).length + 16 + s.syncSrcIpAddr.length ≤ k := by
      have hlength := s.ip_length
      rw [List.take_take, List.take_eq_self_iff]
      omega
    rw [if_neg hk, hjoin, hold]
    dsimp only
    rw [hatoi, hold', hip]
    have hstate : ∀ ip port untilTime done, (Except.ok (SyncInitItems.mk s.serverJoinTime
        s.syncOldDone ip port untilTime done) : Except Int SyncInitItems) =
        .ok s.toSyncInitItems ↔ ip = s.syncSrcIpAddr ∧ port = s.syncSrcPort ∧
          untilTime = s.syncUntilTimestamp ∧ done = s.syncDoneTimestamp := by
      intro ip port untilTime done
      constructor
      · intro heq
        have heq := Except.ok.inj heq
        exact ⟨congrArg SyncInitItems.syncSrcIpAddr heq, congrArg SyncInitItems.syncSrcPort heq,
          congrArg SyncInitItems.syncUntilTimestamp heq,
          congrArg SyncInitItems.syncDoneTimestamp heq⟩
      · rintro ⟨rfl, rfl, rfl, rfl⟩
        rfl
    rw [hstate, hfits, hport, huntil, hdone]
    omega

theorem SyncInit.needed_le (s : SyncInit) : s.needed ≤ (writeToSyncIniFile s).length := by
  have hsrc := iniText_length s.firstItems s.srcItem [s.portItem, s.untilItem, s.doneItem]
  have hname : s.srcItem.name.length = 15 := rfl
  have hvalue : s.srcItem.value.length = s.syncSrcIpAddr.length := rfl
  have hport := needed_le_length "sync_src_port" rfl (s.firstItems ++ [s.srcItem])
    s.syncSrcPort [s.untilItem, s.doneItem]
  have huntil := needed_le_length "sync_until_timestamp" rfl
    (s.firstItems ++ [s.srcItem, s.portItem]) s.syncUntilTimestamp [s.doneItem]
  have hdone := needed_le_length "sync_done_timestamp" rfl
    (s.firstItems ++ [s.srcItem, s.portItem, s.untilItem]) s.syncDoneTimestamp []
  have hport' := (le_max_right _ _).trans hport
  have huntil' := (le_max_right _ _).trans huntil
  have hdone' := (le_max_right _ _).trans hdone
  show s.needed ≤ (iniText (s.firstItems ++ [s.srcItem, s.portItem, s.untilItem, s.doneItem])).length
  refine max_le (by omega) (max_le hport' (max_le huntil' hdone'))

/-! ## The index of the current binlog file -/

/-- An index of a binlog file. -/
abbrev BinlogIndex := { index : Int // 0 ≤ index ∧ index < 2 ^ 31 }

/-- The text `write_to_binlog_index` writes. -/
def writeToBinlogIndex (index : BinlogIndex) : Bytes := formatInt index

/-- How `fdht_sync_init` reads the index; `errno` is what an earlier call left
behind. -/
def fdhtSyncInitIndex (errno : Int) (content : Bytes) : Except Int Int :=
  if content = [] then .error (if errno ≠ 0 then errno else 5)
  else
    let index := atoi (cstr (content.take 63))
    if index < 0 then .error EINVAL else .ok index

def indexFile (errno : Int) : StateFile BinlogIndex Int where
  print := writeToBinlogIndex
  state := Subtype.val
  load := fun content => some (fdhtSyncInitIndex errno content)

theorem indexFile_load_iff (errno : Int) (index : BinlogIndex) (k : Nat) :
    (indexFile errno).load (((indexFile errno).print index).take k) = some (.ok index.1) ↔
      (formatInt index).length ≤ k := by
  obtain ⟨n, hl, hu⟩ := index
  show some (fdhtSyncInitIndex errno ((formatInt n).take k)) = some (.ok n) ↔ _
  have hlong : ((formatInt n).take k).length ≤ 63 := by
    have hlength := formatInt_length_int64 (n := n) (by omega) (by omega)
    rw [List.length_take]
    omega
  have hnul : 0 ∉ (formatInt n).take k := fun h => (formatInt_word (List.mem_of_mem_take h)).1 rfl
  have hpos : 0 < (formatInt n).length := by
    unfold formatInt
    split
    · exact Nat.succ_pos _
    · exact List.length_pos_of_ne_nil (decimal_ne_nil _)
  unfold fdhtSyncInitIndex
  rw [Option.some_inj, List.take_of_length_le hlong, cstr_eq_self_iff.mpr hnul]
  dsimp only
  by_cases hk : k = 0
  · subst hk
    exact ⟨nofun, fun h => by omega⟩
  · have hne : (formatInt n).take k ≠ [] := by
      intro h
      have hlength := congrArg List.length h
      rw [List.length_take, List.length_nil] at hlength
      omega
    have hvalue := atoi_take_formatInt (n := n) (by omega) hu k
    rw [if_neg hne]
    by_cases hwhole : (formatInt n).length ≤ k
    · rw [hvalue.mpr (Or.inr hwhole), if_neg (by omega)]
      exact ⟨fun _ => hwhole, fun _ => rfl⟩
    · refine ⟨fun heq => ?_, fun h => absurd h hwhole⟩
      split at heq
      · cases heq
      · rcases hvalue.mp (Except.ok.inj heq) with rfl | h
        · have hzero : (formatInt 0).length = 1 := rfl
          omega
        · exact h

/-! ## Round trips -/

/-- `sizeof(buff)` in the writers. -/
def stateBuffSize : Nat := 256

theorem iniText_length_le {items : List IniItem} (h : ∀ item ∈ items, item.value.length ≤ 20) :
    (iniText items).length ≤ (items.map fun item => item.name.length).sum + items.length * 22 := by
  induction items with
  | nil => exact le_rfl
  | cons item items ih =>
    obtain ⟨hitem, hitems⟩ := List.forall_mem_cons.mp h
    have hrest := ih hitems
    rw [iniText_cons, List.length_append, IniItem.line_length, List.map_cons, List.sum_cons,
      List.length_cons]
    omega

theorem boolItem_length (name : String) (b : Bool) : (boolItem name b).value.length ≤ 20 := by
  refine formatInt_length_int64 ?_ ?_ <;> split_ifs <;> decide

theorem MarkState.text_fits (s : MarkState) : (fdhtWriteToMarkFile s).length < stateBuffSize := by
  have hindex := s.index_range
  have hoffset := s.offset_range
  have huntil := s.until_range
  have hvalues : ∀ item ∈ s.items, item.value.length ≤ 20 := by
    intro item hitem
    simp only [MarkState.items, MarkState.firstItems, List.cons_append, List.nil_append,
      List.mem_cons, List.not_mem_nil, or_false] at hitem
    rcases hitem with rfl | rfl | rfl | rfl | rfl | rfl | rfl
    · exact formatInt_length_int64 (by omega) (by omega)
    · exact formatInt_length_int64 (by omega) (by omega)
    · exact boolItem_length _ _
    · exact boolItem_length _ _
    · exact formatInt_length_int64 (by omega) (by omega)
    · exact formatInt_length_int64 s.scan_range.1 s.scan_range.2
    · exact formatInt_length_int64 s.sync_range.1 s.sync_range.2
  exact lt_of_le_of_lt (iniText_length_le hvalues) (show 94 + 7 * 22 < 256 by decide)

theorem SyncInit.text_fits (s : SyncInit) : (writeToSyncIniFile s).length < stateBuffSize := by
  have hjoin := s.join_range
  have hport := s.port_range
  have huntil := s.until_range
  have hdone := s.done_range
  have hvalues : ∀ item ∈ s.items, item.value.length ≤ 20 := by
    intro item hitem
    simp only [SyncInit.items, SyncInit.firstItems, List.cons_append, List.nil_append,
      List.mem_cons, List.not_mem_nil, or_false] at hitem
    rcases hitem with rfl | rfl | rfl | rfl | rfl | rfl
    · exact formatInt_length_int64 (by omega) (by omega)
    · exact boolItem_length _ _
    · exact s.ip_length.le.trans (by decide)
    · exact formatInt_length_int64 (by omega) (by omega)
    · exact formatInt_length_int64 (by omega) (by omega)
    · exact formatInt_length_int64 (by omega) (by omega)
  exact lt_of_le_of_lt (iniText_length_le hvalues) (show 96 + 6 * 22 < 256 by decide)

/-- **A state file gives back the state that was written**: the seven items of a mark file, and
the state of the server's own joining, also with an empty address. The text of either fits the
buffer that it is printed to. -/
theorem state_files_round_trip (p : StatePath) :
    (∀ s : MarkState, (fdhtWriteToMarkFile s).length < stateBuffSize ∧
      p.load fdhtReaderInitItems (fdhtWriteToMarkFile s) = some (.ok s.toMarkItems)) ∧
    (∀ s : SyncInit, (writeToSyncIniFile s).length < stateBuffSize ∧
      p.load loadSyncInitItems (writeToSyncIniFile s) = some (.ok s.toSyncInitItems)) := by
  refine ⟨fun s => ⟨s.text_fits, ?_⟩, fun s => ⟨s.text_fits, ?_⟩⟩
  · exact (markFile p).load_print (fun s _ => p.load_take_iff s.items_plain fun _ => s.read_iff)
      MarkState.needed_le s
  · exact (syncInitFile p).load_print (fun s _ => p.load_take_iff s.items_plain fun _ => s.read_iff)
      SyncInit.needed_le s

/-! ## Crashes -/

theorem markFile_survives_iff (p : StatePath) (new : MarkState) (point : CrashPoint) :
    (∀ old, (markFile p).Survives old new point) ↔ point.Spares new.needed :=
  StateFile.survives_iff (fun s _ => p.load_take_iff s.items_plain fun _ => s.read_iff)
    MarkState.needed_le new point

theorem recoveryMarkFile_survives_iff (p : StatePath) (new : RecoveryUpdate) (point : CrashPoint) :
    (∀ old, (recoveryMarkFile p).Survives old new point) ↔ point.Spares new.needed :=
  StateFile.survives_iff (fun u _ => p.load_take_iff u.items_plain fun _ => u.read_iff)
    RecoveryUpdate.needed_le new point

theorem syncInitFile_survives_iff (p : StatePath) (new : SyncInit) (point : CrashPoint) :
    (∀ old, (syncInitFile p).Survives old new point) ↔ point.Spares new.needed :=
  StateFile.survives_iff (fun s _ => p.load_take_iff s.items_plain fun _ => s.read_iff)
    SyncInit.needed_le new point

theorem indexFile_survives_iff (errno : Int) (new : BinlogIndex) (point : CrashPoint) :
    (∀ old, (indexFile errno).Survives old new point) ↔ point.Spares (formatInt new).length :=
  StateFile.survives_iff (indexFile_load_iff errno) (fun _ => le_rfl) new point

/-- **What survives a crash while a state file is rewritten.** Whatever the old
state was, the file found afterwards is accepted and yields the old or the new
state exactly if the crash came before the truncation or after the last byte
of the new text that matters. -/
theorem state_files_survive_iff (p : StatePath) (errno : Int) (point : CrashPoint) :
    (∀ new : MarkState,
      (∀ old, (markFile p).Survives old new point) ↔ point.Spares new.needed) ∧
    (∀ new : RecoveryUpdate,
      (∀ old, (recoveryMarkFile p).Survives old new point) ↔ point.Spares new.needed) ∧
    (∀ new : SyncInit,
      (∀ old, (syncInitFile p).Survives old new point) ↔ point.Spares new.needed) ∧
    (∀ new : BinlogIndex,
      (∀ old, (indexFile errno).Survives old new point) ↔
        point.Spares (formatInt new).length) :=
  ⟨fun new => markFile_survives_iff p new point,
    fun new => recoveryMarkFile_survives_iff p new point,
    fun new => syncInitFile_survives_iff p new point,
    fun new => indexFile_survives_iff errno new point⟩

/-- A mark file in a directory with nothing to include. -/
def lonelyMark : StatePath where
  files := { fileExists := fun _ => false, content := fun _ => .error ENOENT }
  depth := 0
  configPath := asciiBytes "/data/sync"
  filename := asciiBytes "/data/sync/10.0.0.1_11411.mark"

def firstMark : MarkState where
  binlogIndex := 0
  binlogOffset := 0
  needSyncOld := false
  syncOldDone := false
  untilTimestamp := 0
  scanRowCount := 0
  syncRowCount := 0
  index_range := by decide
  offset_range := by decide
  until_range := by decide
  scan_range := by decide
  sync_range := by decide

/-- A mark file that has just been truncated is refused. A server that moves
from file 11 to file 12 and stops after the first digit starts again with
file 1. -/
theorem state_files_lost_in_crash :
    (¬ ∀ (old new : MarkState) (point : CrashPoint), (markFile lonelyMark).Survives old new point) ∧
    ¬ ∀ (old new : BinlogIndex) (point : CrashPoint), (indexFile 0).Survives old new point := by
  constructor
  · intro h
    have hneeded : firstMark.needed ≤ 0 := (markFile_survives_iff lonelyMark firstMark
      (.written 0)).mp fun old => h old firstMark (.written 0)
    have hsome : (iniText firstMark.firstItems).length + 15 ≤ firstMark.needed := le_max_left _ _
    omega
  · intro h
    have hneeded : (formatInt 12).length ≤ 1 := (indexFile_survives_iff 0 ⟨12, by decide⟩
      (.written 1)).mp fun old => h old ⟨12, by decide⟩ (.written 1)
    exact absurd hneeded (by decide +kernel)

/-- What the index file then holds. -/
example : (indexFile 0).load ((writeToBinlogIndex ⟨12, by decide⟩).take 1) = some (.ok 1) := by
  decide +kernel

end FastDht
