import FastDht.Common.Types
import FastDht.Lib.CString
import FastDht.Lib.Decimal
import Mathlib.Data.List.DropRight
import Mathlib.Data.List.Perm.Basic

/-! # The reader of common/ini_file_reader.c

An ini file is read line by line into items of a section. A line that is cut
off in its value still gives an item, and one that is cut off in its name gives
none. `iniLoadText_take` says what is left of a list of items when only the
first bytes of its text are in the file. -/
namespace FastDht
open Lib

/-! ## Strings -/

/-- The bytes `trim_left` and `trim_right` remove. -/
def isTrimmed (b : UInt8) : Bool := b = 32 || b = 10 || b = 13 || b = 9

def trimRight (s : Bytes) : Bytes := s.rdropWhile isTrimmed

def trim (s : Bytes) : Bytes := (trimRight (cstr s)).dropWhile isTrimmed

def toLower (b : UInt8) : UInt8 := if 65 ≤ b && b ≤ 90 then b + 32 else b

def atoi (s : Bytes) : Int := toInt32 (strtoll s)

/-- What `strchr(pLine, '\n')` cuts a buffer into. -/
def fileLines : Bytes → List Bytes
  | [] => [[]]
  | b :: s =>
    if b = 10 then [] :: fileLines s
    else match fileLines s with
      | [] => [[b]]
      | l :: ls => (b :: l) :: ls

/-! ## Loading -/

def fastIniItemNameLen : Nat := 64

def fastIniItemValueLen : Nat := 256

structure IniItem where
  name : Bytes
  value : Bytes
  deriving DecidableEq, Repr

/-- `sections` is the hash table of the named sections; `currentSection` is
`none` for the global one. -/
structure IniContext where
  configPath : Bytes
  global : List IniItem
  sections : List (Bytes × List IniItem)
  currentSection : Option Bytes
  deriving DecidableEq, Repr

/-- The files an ini file may include. -/
structure IniFiles where
  fileExists : Bytes → Bool
  content : Bytes → Except Int Bytes

def IniContext.addItem (ctx : IniContext) (item : IniItem) : IniContext :=
  match ctx.currentSection with
  | none => { ctx with global := ctx.global ++ [item] }
  | some name => { ctx with
      sections := ctx.sections.map fun s => if s.1 = name then (s.1, s.2 ++ [item]) else s }

def IniContext.enterSection (ctx : IniContext) (name : Bytes) : IniContext :=
  if name = [] then { ctx with currentSection := none }
  else if ctx.sections.any (·.1 = name) then { ctx with currentSection := some name }
  else { ctx with sections := ctx.sections ++ [(name, [])], currentSection := some name }

/-- `#include` and a blank, in any case of letters. -/
def isInclude (text : Bytes) : Bool :=
  text.head? = some 35 && ((text.drop 1).take 7).map toLower = [105, 110, 99, 108, 117, 100, 101] &&
    (text[8]? = some 32 || text[8]? = some 9)

def isUrl (name : Bytes) : Bool := (name.take 7).map toLower = [104, 116, 116, 112, 58, 47, 47]

/-- The item of a line with an equal sign. -/
def lineItem (line : Bytes) : IniItem where
  name := trim ((line.takeWhile (· ≠ 61)).take fastIniItemNameLen)
  value := trim (((line.dropWhile (· ≠ 61)).drop 1).take fastIniItemValueLen)

/-- One round of the loop of `iniDoLoadItemsFromBuffer`; `load` is
`iniDoLoadFromFile`, which may not return. -/
def iniLoadLine (files : IniFiles) (load : Bytes → IniContext → Option (Except Int IniContext))
    (line : Bytes) (ctx : IniContext) : Option (Except Int IniContext) :=
  if isInclude line then
    let name := trim (line.drop 9)
    if isUrl name then load name ctx
    else
      let path := if name.head? = some 47 then name else ctx.configPath ++ 47 :: name
      if files.fileExists path then load path ctx else some (.error ENOENT)
  else
    let line := trim line
    if line = [] ∨ line.head? = some 35 then some (.ok ctx)
    else if line.head? = some 91 ∧ line.getLast? = some 93 then
      some (.ok (ctx.enterSection (trim (line.dropLast.drop 1))))
    else if 61 ∈ line then some (.ok (ctx.addItem (lineItem line)))
    else some (.ok ctx)

def iniLoadLines (files : IniFiles) (load : Bytes → IniContext → Option (Except Int IniContext)) :
    List Bytes → IniContext → Option (Except Int IniContext)
  | [], ctx => some (.ok ctx)
  | line :: lines, ctx =>
    match iniLoadLine files load line ctx with
    | some (.ok ctx) => iniLoadLines files load lines ctx
    | result => result

/-- `iniDoLoadFromFile` with at most `depth` files open; a file that includes
itself is never loaded. -/
def iniDoLoadFromFile (files : IniFiles) : Nat → Bytes → IniContext →
    Option (Except Int IniContext)
  | 0, _, _ => none
  | depth + 1, filename, ctx =>
    match files.content filename with
    | .error e => some (.error e)
    | .ok content =>
      iniLoadLines files (iniDoLoadFromFile files depth) (fileLines (cstr content)) ctx

def iniCompareByItemName (a b : IniItem) : Ordering := strcmp a.name b.name

def iniSortItems (ctx : IniContext) : IniContext := { ctx with
  global := qsort iniCompareByItemName ctx.global
  sections := ctx.sections.map fun s => (s.1, qsort iniCompareByItemName s.2) }

def iniLoadFromFile (files : IniFiles) (depth : Nat) (configPath filename : Bytes) :
    Option (Except Int IniContext) :=
  (iniDoLoadFromFile files depth filename ⟨configPath, [], [], none⟩).map fun r => r.map iniSortItems

/-! ## Looking up -/

def iniGetStrValue (ctx : IniContext) (name : Bytes) : Option Bytes :=
  (bsearch (fun item => strcmp name item.name) ctx.global).bind fun i =>
    (ctx.global[i]?).map (·.value)

def iniGetInt64Value (ctx : IniContext) (name : Bytes) (default : Int) : Int :=
  (iniGetStrValue ctx name).elim default strtoll

def iniGetIntValue (ctx : IniContext) (name : Bytes) (default : Int) : Int :=
  (iniGetStrValue ctx name).elim default atoi

def iniGetBoolValue (ctx : IniContext) (name : Bytes) (default : Bool) : Bool :=
  (iniGetStrValue ctx name).elim default fun v =>
    v.map toLower = [116, 114, 117, 101] || v.map toLower = [121, 101, 115] ||
      v.map toLower = [111, 110] || v = [49]

/-! ## Text with items -/

/-- The text a server prints for an item, `"%s=%s\n"`. -/
def IniItem.line (item : IniItem) : Bytes := item.name ++ 61 :: (item.value ++ [10])

def iniText (items : List IniItem) : Bytes := items.flatMap IniItem.line

/-- An item whose text is read as the item: the name is a word and the value
stays on its line. -/
structure IniItem.Plain (item : IniItem) : Prop where
  name_ne_nil : item.name ≠ []
  name_length : item.name.length ≤ fastIniItemNameLen
  name_word : ∀ c ∈ item.name, c ≠ 0 ∧ c ≠ 61 ∧ c ≠ 35 ∧ c ≠ 91 ∧ isTrimmed c = false
  value_length : item.value.length ≤ fastIniItemValueLen
  value_line : ∀ c ∈ item.value, c ≠ 0 ∧ c ≠ 10

/-- The items in the first `k` bytes of the text of a list of items. -/
def cutItems : List IniItem → Nat → List IniItem
  | [], _ => []
  | item :: items, k =>
    if k ≤ item.name.length then []
    else ⟨item.name, trim (item.value.take (k - (item.name.length + 1)))⟩ ::
      cutItems items (k - item.line.length)

theorem IniItem.line_length (item : IniItem) :
    item.line.length = item.name.length + item.value.length + 2 := by
  simp only [IniItem.line, List.length_append, List.length_cons, List.length_nil]
  omega

theorem iniText_cons (item : IniItem) (items : List IniItem) :
    iniText (item :: items) = item.line ++ iniText items := List.flatMap_cons

theorem iniText_length (before : List IniItem) (item : IniItem) (after : List IniItem) :
    (iniText (before ++ item :: after)).length = (iniText before).length +
      (item.name.length + item.value.length + 2) + (iniText after).length := by
  simp only [iniText, List.flatMap_append, List.flatMap_cons, List.length_append,
    IniItem.line_length]
  omega

theorem fileLines_of_notMem {s : Bytes} (hs : 10 ∉ s) : fileLines s = [s] := by
  induction s with
  | nil => rfl
  | cons b s ih =>
    rw [List.mem_cons, not_or] at hs
    have hb : b ≠ 10 := fun h => hs.1 h.symm
    simp only [fileLines, if_neg hb, ih hs.2]

theorem fileLines_append {a : Bytes} (ha : 10 ∉ a) (s : Bytes) :
    fileLines (a ++ 10 :: s) = a :: fileLines s := by
  induction a with
  | nil => rfl
  | cons b a ih =>
    rw [List.mem_cons, not_or] at ha
    have hb : b ≠ 10 := fun h => ha.1 h.symm
    simp only [List.cons_append, fileLines, if_neg hb, ih ha.2]

theorem trim_word {s : Bytes} (hs : ∀ c ∈ s, c ≠ 0 ∧ isTrimmed c = false) : trim s = s := by
  have hcstr : cstr s = s := cstr_eq_self_iff.mpr fun h => (hs 0 h).1 rfl
  have hright : trimRight s = s := by
    rw [trimRight, List.rdropWhile_eq_self_iff]
    intro hne hlast
    exact absurd hlast (by simp [(hs _ (List.getLast_mem hne)).2])
  unfold trim
  rw [hcstr, hright, List.dropWhile_eq_self_iff]
  intro hpos hhead
  exact absurd hhead (by simp [(hs _ (List.getElem_mem hpos)).2])

theorem trimRight_append {a b : Bytes} {c : UInt8} (hc : isTrimmed c = false) :
    trimRight (a ++ c :: b) = a ++ c :: trimRight b := by
  unfold trimRight List.rdropWhile
  rw [List.reverse_append, List.reverse_cons, List.append_assoc, List.dropWhile_append]
  split
  · rename_i hempty
    rw [List.isEmpty_iff.mp hempty]
    simp [hc]
  · simp

theorem trim_trimRight {s : Bytes} (hs : 0 ∉ s) : trim (trimRight s) = trim s := by
  have hright : 0 ∉ trimRight s := fun h => hs ((List.rdropWhile_prefix isTrimmed s).subset h)
  unfold trim
  rw [cstr_eq_self_iff.mpr hs, cstr_eq_self_iff.mpr hright, trimRight, trimRight,
    List.rdropWhile_idempotent]

theorem isInclude_of_head {c : UInt8} (hc : c ≠ 35) (s : Bytes) : isInclude (c :: s) = false := by
  simp [isInclude, hc]

section Loading

variable (files : IniFiles) (load : Bytes → IniContext → Option (Except Int IniContext))

theorem iniLoadLine_nil (ctx : IniContext) : iniLoadLine files load [] ctx = some (.ok ctx) := rfl

theorem iniLoadLine_name {item : IniItem} (h : item.Plain) (k : Nat) (ctx : IniContext) :
    iniLoadLine files load (item.name.take k) ctx = some (.ok ctx) := by
  have hword : ∀ c ∈ item.name.take k, c ≠ 0 ∧ c ≠ 61 ∧ c ≠ 35 ∧ c ≠ 91 ∧ isTrimmed c = false :=
    fun c hc => h.name_word c (List.mem_of_mem_take hc)
  have htrim : trim (item.name.take k) = item.name.take k :=
    trim_word fun c hc => ⟨(hword c hc).1, (hword c hc).2.2.2.2⟩
  have hequal : 61 ∉ item.name.take k := fun hmem => (hword 61 hmem).2.1 rfl
  cases hline : item.name.take k with
  | nil => rfl
  | cons c s =>
    rw [hline] at hword htrim hequal
    obtain ⟨-, -, hhash, hopen, -⟩ := hword c (List.mem_cons_self ..)
    unfold iniLoadLine
    rw [isInclude_of_head hhash, if_neg Bool.false_ne_true]
    rw [htrim, if_neg (by simp [hhash]), if_neg (by simp [hopen]), if_neg hequal]

theorem iniLoadLine_value {item : IniItem} (h : item.Plain) (k : Nat) (ctx : IniContext) :
    iniLoadLine files load (item.name ++ 61 :: item.value.take k) ctx =
      some (.ok (ctx.addItem ⟨item.name, trim (item.value.take k)⟩)) := by
  have hvalue : 0 ∉ item.value.take k := fun hmem =>
    (h.value_line 0 (List.mem_of_mem_take hmem)).1 rfl
  have hline : 0 ∉ item.name ++ 61 :: item.value.take k := by
    rw [List.mem_append, List.mem_cons, not_or, not_or]
    exact ⟨fun hmem => (h.name_word 0 hmem).1 rfl, by decide, hvalue⟩
  have hname : ∀ c ∈ item.name, (c ≠ 61) = true := fun c hc => by
    simpa using (h.name_word c hc).2.1
  obtain ⟨c, s, hcons⟩ := List.exists_cons_of_ne_nil h.name_ne_nil
  obtain ⟨-, -, hhash, hopen, hblank⟩ := h.name_word c (by rw [hcons]; exact List.mem_cons_self ..)
  have htrim : trim (item.name ++ 61 :: item.value.take k) =
      item.name ++ 61 :: trimRight (item.value.take k) := by
    unfold trim
    rw [cstr_eq_self_iff.mpr hline, trimRight_append rfl, hcons, List.cons_append,
      List.dropWhile_cons_of_neg (by simp [hblank])]
  have hitem : lineItem (item.name ++ 61 :: trimRight (item.value.take k)) =
      ⟨item.name, trim (item.value.take k)⟩ := by
    have hlength : (trimRight (item.value.take k)).length ≤ fastIniItemValueLen :=
      calc (trimRight (item.value.take k)).length
          ≤ (item.value.take k).length := (List.rdropWhile_prefix isTrimmed _).length_le
        _ ≤ item.value.length := List.length_take_le' ..
        _ ≤ fastIniItemValueLen := h.value_length
    unfold lineItem
    rw [List.takeWhile_append_of_pos (by simpa using hname),
      List.dropWhile_append_of_pos (by simpa using hname),
      List.takeWhile_cons_of_neg (by simp), List.dropWhile_cons_of_neg (by simp),
      List.append_nil, List.drop_one, List.tail_cons, List.take_of_length_le h.name_length,
      List.take_of_length_le hlength, trim_trimRight hvalue,
      trim_word fun c hc => ⟨(h.name_word c hc).1, (h.name_word c hc).2.2.2.2⟩]
  unfold iniLoadLine
  rw [hcons, List.cons_append, isInclude_of_head hhash, if_neg Bool.false_ne_true,
    ← List.cons_append, ← hcons]
  rw [htrim, if_neg (by simp [hcons, hhash]), if_neg (by simp [hcons, hopen]),
    if_pos (by simp), hitem]

@[simp] theorem cutItems_zero (items : List IniItem) : cutItems items 0 = [] := by
  cases items <;> simp [cutItems]

/-- **What the reader finds in a cut-off file**: the items up to the cut, the
last of them with the part of its value that is there. -/
theorem iniLoadLines_take {items : List IniItem} (hplain : ∀ item ∈ items, item.Plain) (k : Nat)
    {ctx : IniContext} (hctx : ctx.currentSection = none) :
    iniLoadLines files load (fileLines ((iniText items).take k)) ctx =
      some (.ok { ctx with global := ctx.global ++ cutItems items k }) := by
  induction items generalizing k ctx with
  | nil => simp [iniText, fileLines, iniLoadLines, iniLoadLine_nil, cutItems]
  | cons item items ih =>
    have hitem := hplain item (List.mem_cons_self ..)
    have hrest := fun i hi => hplain i (List.mem_cons_of_mem _ hi)
    have hnewline : ∀ j, 10 ∉ item.name ++ 61 :: item.value.take j := by
      intro j
      rw [List.mem_append, List.mem_cons, not_or, not_or]
      exact ⟨fun h => absurd (hitem.name_word 10 h).2.2.2.2 (by decide), by decide,
        fun h => (hitem.value_line 10 (List.mem_of_mem_take h)).2 rfl⟩
    have htext : iniText (item :: items) =
        item.name ++ 61 :: (item.value ++ 10 :: iniText items) := by
      simp [iniText, IniItem.line]
    have hadd : ∀ v, ctx.addItem ⟨item.name, v⟩ =
        { ctx with global := ctx.global ++ [⟨item.name, v⟩] } := by
      intro v
      simp only [IniContext.addItem, hctx]
    rw [htext, cutItems]
    -- the cut lies in the name, in the value or after the line
    by_cases hname : k ≤ item.name.length
    · rw [if_pos hname, List.take_append_of_le_length hname, List.append_nil,
        fileLines_of_notMem fun h =>
          absurd (hitem.name_word 10 (List.mem_of_mem_take h)).2.2.2.2 (by decide)]
      simp only [iniLoadLines, iniLoadLine_name files load hitem]
    · rw [if_neg hname]
      obtain ⟨j, rfl⟩ : ∃ j, k = item.name.length + (j + 1) := ⟨k - item.name.length - 1, by omega⟩
      rw [List.take_length_add_append, List.take_succ_cons,
        show item.name.length + (j + 1) - (item.name.length + 1) = j by omega, IniItem.line_length]
      by_cases hvalue : j ≤ item.value.length
      · rw [List.take_append_of_le_length hvalue, fileLines_of_notMem (hnewline j),
          show item.name.length + (j + 1) - (item.name.length + item.value.length + 2) = 0 by omega,
          cutItems_zero]
        simp only [iniLoadLines, iniLoadLine_value files load hitem, hadd]
      · obtain ⟨i, rfl⟩ : ∃ i, j = item.value.length + (i + 1) := ⟨j - item.value.length - 1, by omega⟩
        have hwhole : item.value.take (item.value.length + (i + 1)) = item.value :=
          List.take_of_length_le (by omega)
        have hline := hnewline (item.value.length + (i + 1))
        rw [hwhole] at hline
        rw [List.take_length_add_append, List.take_succ_cons,
          show item.name ++ 61 :: (item.value ++ 10 :: (iniText items).take i) =
            (item.name ++ 61 :: item.value) ++ 10 :: (iniText items).take i by simp,
          fileLines_append hline, iniLoadLines]
        have hload := iniLoadLine_value files load hitem (item.value.length + (i + 1)) ctx
        rw [hwhole] at hload ⊢
        rw [hload, hadd]
        dsimp only
        rw [ih hrest i (by exact hctx), show item.name.length + (item.value.length + (i + 1) + 1) -
          (item.name.length + item.value.length + 2) = i by omega]
        simp

end Loading

/-! ## The items of a cut text -/

theorem cutItems_names (items : List IniItem) (k : Nat) :
    ((cutItems items k).map (·.name)).Sublist (items.map (·.name)) := by
  induction items generalizing k with
  | nil => exact List.Sublist.refl _
  | cons item items ih =>
    rw [cutItems]
    split
    · exact List.nil_sublist _
    · exact (ih _).cons_cons _

theorem cutItems_find {before after : List IniItem} {item : IniItem}
    (hbefore : item.name ∉ before.map (·.name)) (k : Nat) :
    (cutItems (before ++ item :: after) k).find? (fun i => i.name = item.name) =
      if k ≤ (iniText before).length + item.name.length then none
      else some ⟨item.name,
        trim (item.value.take (k - ((iniText before).length + item.name.length + 1)))⟩ := by
  induction before generalizing k with
  | nil =>
    simp only [List.nil_append, cutItems, iniText, List.flatMap_nil, List.length_nil, Nat.zero_add]
    split
    · rfl
    · rw [List.find?_cons_of_pos (by simp)]
  | cons first before ih =>
    rw [List.map_cons, List.mem_cons, not_or] at hbefore
    rw [List.cons_append, cutItems, iniText_cons, List.length_append, IniItem.line_length]
    split
    · rw [if_pos (by omega), List.find?_nil]
    · rw [List.find?_cons_of_neg (by simpa using fun h => hbefore.1 h.symm), ih hbefore.2]
      congr 1
      · exact propext (by omega)
      · rw [show k - (first.name.length + first.value.length + 2) -
          ((iniText before).length + item.name.length + 1) =
          k - (first.name.length + first.value.length + 2 + (iniText before).length +
            item.name.length + 1) by omega]

theorem cutItems_length_lt_iff (before : List IniItem) (item : IniItem) (k : Nat) :
    (cutItems (before ++ [item]) k).length < before.length + 1 ↔
      k ≤ (iniText before).length + item.name.length := by
  induction before generalizing k with
  | nil =>
    simp only [List.nil_append, cutItems, iniText, List.flatMap_nil, List.length_nil, Nat.zero_add]
    split <;> simp_all
  | cons first before ih =>
    rw [List.cons_append, cutItems, iniText_cons, List.length_append, IniItem.line_length]
    split
    · simp only [List.length_nil, List.length_cons]
      omega
    · rw [List.length_cons, List.length_cons, Nat.add_lt_add_iff_right, ih]
      omega

theorem iniGetStrValue_sortItems {ctx : IniContext} (hnodup : (ctx.global.map (·.name)).Nodup)
    (hnul : ∀ item ∈ ctx.global, 0 ∉ item.name) {name : Bytes} (hname : 0 ∉ name) :
    iniGetStrValue (iniSortItems ctx) name =
      (ctx.global.find? fun item => item.name = name).map (·.value) := by
  have hcmp : ∀ item ∈ ctx.global, (strcmp name item.name = .eq ↔ item.name = name) := by
    intro item hitem
    rw [strcmp_eq_iff, cstr_eq_self_iff.mpr hname, cstr_eq_self_iff.mpr (hnul item hitem)]
    exact eq_comm
  have hsorted : (qsort iniCompareByItemName ctx.global).Pairwise
      fun a b => strcmp a.name b.name = .lt := by
    refine qsort_sorted (List.Pairwise.imp_of_mem ?_ (List.pairwise_map.mp hnodup))
    intro a b ha hb hne heq
    rw [strcmp_eq_iff, cstr_eq_self_iff.mpr (hnul a ha), cstr_eq_self_iff.mpr (hnul b hb)] at heq
    exact hne heq
  unfold iniGetStrValue iniSortItems
  cases hfind : ctx.global.find? fun item => item.name = name with
  | some item =>
    have hmem := List.mem_of_find?_eq_some hfind
    have heq : item.name = name := by simpa using List.find?_some hfind
    obtain ⟨i, hi, hget⟩ := bsearch_sorted hsorted (mem_qsort.mpr hmem) ((hcmp item hmem).mpr heq)
    rw [hi, Option.bind_some, hget]
  | none =>
    cases hsearch : bsearch (fun item => strcmp name item.name)
        (qsort iniCompareByItemName ctx.global) with
    | none => rfl
    | some i =>
      obtain ⟨item, hget, heq⟩ := bsearch_some hsearch
      have hmem := mem_qsort.mp (List.mem_of_getElem? hget)
      have hnone := List.find?_eq_none.mp hfind item hmem
      exact absurd ((hcmp item hmem).mp heq) (by simpa using hnone)

end FastDht
