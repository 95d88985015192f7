import FastDht.Common.IniFileReader

/-! # Values by section and name

An item of a configuration may be given several times, and a section may be entered several
times. The loader collects the items of each section and sorts them by name, and
`iniGetValuesEx` widens what `bsearch` finds in both directions. What it should return is
stated on the lines of the configuration: the values that the lines of the section assign to
the name. -/
namespace FastDht
open Lib

/-! ## The lookup -/

/-- The section in `INI_FIND_ITEM`; the empty name is the global section. -/
def IniContext.findSection (ctx : IniContext) (szSectionName : Bytes) : Option (List IniItem) :=
  if szSectionName = [] then some ctx.global
  else (ctx.sections.find? (·.1 = szSectionName)).map (·.2)

/-- `INI_FIND_ITEM`: the items of the section and the index of the one that is found. -/
def iniFindItem (ctx : IniContext) (szSectionName szItemName : Bytes) :
    Option (List IniItem × Nat) :=
  (ctx.findSection szSectionName).bind fun items =>
    (bsearch (fun item => strcmp (szItemName.take fastIniItemNameLen) item.name) items).map
      fun i => (items, i)

/-- `iniGetStrValue` with a section. -/
def iniGetStrValueEx (ctx : IniContext) (szSectionName szItemName : Bytes) : Option Bytes :=
  (iniFindItem ctx szSectionName szItemName).bind fun (items, i) => (items[i]?).map (·.value)

/-- The test of the two loops of `iniGetValuesEx`. -/
def IniItem.hasName (szItemName : Bytes) (item : IniItem) : Bool :=
  strcmp item.name szItemName = .eq

/-- `iniGetValuesEx`: the items from `pItemStart` on, `nTargetCount` of them. -/
def iniGetValuesEx (ctx : IniContext) (szSectionName szItemName : Bytes) : List IniItem :=
  match iniFindItem ctx szSectionName szItemName with
  | none => []
  | some (items, i) =>
    let before := ((items.take i).reverse.takeWhile (IniItem.hasName szItemName)).length
    let after := ((items.drop (i + 1)).takeWhile (IniItem.hasName szItemName)).length
    (items.drop (i - before)).take (before + 1 + after)

/-! ## The lines of a configuration -/

/-- What a line says. The parts of an assignment are not trimmed yet. -/
inductive IniLine
  | blank
  | header (name : Bytes)
  | assign (name value : Bytes)

def readLine (line : Bytes) : IniLine :=
  if trim line = [] ∨ (trim line).head? = some 35 then .blank
  else if (trim line).head? = some 91 ∧ (trim line).getLast? = some 93 then
    .header (trim ((trim line).dropLast.drop 1))
  else if 61 ∈ trim line then
    .assign ((trim line).takeWhile (· ≠ 61)) (((trim line).dropWhile (· ≠ 61)).drop 1)
  else .blank

/-- The values that the lines of a section assign to a name; `current` is the section in which
the lines start. -/
def sectionValues (szSectionName szItemName : Bytes) : Bytes → List Bytes → List Bytes
  | _, [] => []
  | current, line :: lines =>
    match readLine line with
    | .blank => sectionValues szSectionName szItemName current lines
    | .header next => sectionValues szSectionName szItemName next lines
    | .assign name value =>
      (if current = szSectionName ∧ trim name = szItemName then [trim value] else []) ++
        sectionValues szSectionName szItemName current lines

/-- The name and the text behind the equal sign are not cut. -/
def LineFits (line : Bytes) : Prop :=
  match readLine line with
  | .assign name value =>
    (trim name).length ≤ fastIniItemNameLen ∧ value.length ≤ fastIniItemValueLen
  | _ => True

instance (line : Bytes) : Decidable (LineFits line) := by
  unfold LineFits
  split <;> infer_instance

/-- What a line stands for: itself, or the lines of the file that it includes. -/
def includedLines (files : IniFiles) (load : Bytes → Option (Except Int (List Bytes)))
    (configPath line : Bytes) : Option (Except Int (List Bytes)) :=
  if isInclude line then
    let name := trim (line.drop 9)
    if isUrl name then load name
    else
      let path := if name.head? = some 47 then name else configPath ++ 47 :: name
      if files.fileExists path then load path else some (.error ENOENT)
  else some (.ok [line])

/-- Lines with the lines of the included files in the place of the include lines. -/
def iniSplice (files : IniFiles) (load : Bytes → Option (Except Int (List Bytes)))
    (configPath : Bytes) : List Bytes → Option (Except Int (List Bytes))
  | [] => some (.ok [])
  | line :: lines =>
    match includedLines files load configPath line with
    | some (.ok front) => (iniSplice files load configPath lines).map (·.map (front ++ ·))
    | result => result

/-- The lines of a configuration file, with at most `depth` files open. -/
def iniFileLines (files : IniFiles) (configPath : Bytes) : Nat → Bytes →
    Option (Except Int (List Bytes))
  | 0, _ => none
  | depth + 1, filename =>
    match files.content filename with
    | .error e => some (.error e)
    | .ok content =>
      iniSplice files (iniFileLines files configPath depth) configPath (fileLines (cstr content))

theorem iniFileLines_plain {files : IniFiles} {configPath filename content : Bytes} (depth : Nat)
    (hcontent : files.content filename = .ok content)
    (hplain : ∀ line ∈ fileLines (cstr content), isInclude line = false) :
    iniFileLines files configPath (depth + 1) filename = some (.ok (fileLines (cstr content))) := by
  have hsplice : ∀ load lines, (∀ line ∈ lines, isInclude line = false) →
      iniSplice files load configPath lines = some (.ok lines) := by
    intro load lines hlines
    induction lines with
    | nil => rfl
    | cons line lines ih =>
      obtain ⟨hline, hlines⟩ := List.forall_mem_cons.mp hlines
      unfold iniSplice includedLines
      rw [hline, if_neg Bool.false_ne_true, ih hlines]
      rfl
  rw [iniFileLines, hcontent]
  exact hsplice _ _ hplain

/-! ## Loading -/

/-- What the loader does with a line that is no include line. -/
def IniContext.read (ctx : IniContext) (line : Bytes) : IniContext :=
  match readLine line with
  | .blank => ctx
  | .header name => ctx.enterSection name
  | .assign name value =>
    ctx.addItem ⟨trim (name.take fastIniItemNameLen), trim (value.take fastIniItemValueLen)⟩

theorem iniLoadLine_read (files : IniFiles)
    (load : Bytes → IniContext → Option (Except Int IniContext)) {line : Bytes}
    (h : isInclude line = false) (ctx : IniContext) :
    iniLoadLine files load line ctx = some (.ok (ctx.read line)) := by
  unfold iniLoadLine IniContext.read readLine
  rw [h, if_neg Bool.false_ne_true]
  by_cases hblank : trim line = [] ∨ (trim line).head? = some 35
  · rw [if_pos hblank, if_pos hblank]
  · rw [if_neg hblank, if_neg hblank]
    by_cases hheader : (trim line).head? = some 91 ∧ (trim line).getLast? = some 93
    · rw [if_pos hheader, if_pos hheader]
    · rw [if_neg hheader, if_neg hheader]
      by_cases hequal : 61 ∈ trim line
      · rw [if_pos hequal, if_pos hequal]
        rfl
      · rw [if_neg hequal, if_neg hequal]

@[simp] theorem IniContext.addItem_configPath (ctx : IniContext) (item : IniItem) :
    (ctx.addItem item).configPath = ctx.configPath := by
  unfold addItem
  split <;> rfl

@[simp] theorem IniContext.enterSection_configPath (ctx : IniContext) (name : Bytes) :
    (ctx.enterSection name).configPath = ctx.configPath := by
  unfold enterSection
  split_ifs <;> rfl

theorem IniContext.read_configPath (ctx : IniContext) (line : Bytes) :
    (ctx.read line).configPath = ctx.configPath := by
  unfold read
  split <;> simp

theorem IniContext.foldl_read_configPath (ctx : IniContext) (lines : List Bytes) :
    (lines.foldl read ctx).configPath = ctx.configPath := by
  induction lines generalizing ctx with
  | nil => rfl
  | cons line lines ih => rw [List.foldl_cons, ih, read_configPath]

section Splice

variable {files : IniFiles} {configPath : Bytes}
  {load : Bytes → IniContext → Option (Except Int IniContext)}
  {fileLines : Bytes → Option (Except Int (List Bytes))}
  (hload : ∀ filename (ctx : IniContext), ctx.configPath = configPath → load filename ctx =
    (fileLines filename).map fun r => r.map fun lines => lines.foldl IniContext.read ctx)
include hload

theorem iniLoadLine_included (line : Bytes) {ctx : IniContext} (hctx : ctx.configPath = configPath) :
    iniLoadLine files load line ctx = (includedLines files fileLines configPath line).map
      fun r => r.map fun lines => lines.foldl IniContext.read ctx := by
  by_cases hinclude : isInclude line = true
  · unfold iniLoadLine includedLines
    rw [if_pos hinclude, if_pos hinclude]
    dsimp only
    by_cases hurl : isUrl (trim (line.drop 9)) = true
    · rw [if_pos hurl, if_pos hurl, hload _ _ hctx]
    · rw [if_neg hurl, if_neg hurl, hctx]
      split_ifs with hroot hexists hexists
      · exact hload _ _ hctx
      · rfl
      · exact hload _ _ hctx
      · rfl
  · rw [includedLines, if_neg hinclude, iniLoadLine_read _ _ (Bool.eq_false_iff.mpr hinclude)]
    rfl

theorem iniLoadLines_splice (lines : List Bytes) {ctx : IniContext}
    (hctx : ctx.configPath = configPath) : iniLoadLines files load lines ctx =
      (iniSplice files fileLines configPath lines).map
        fun r => r.map fun lines => lines.foldl IniContext.read ctx := by
  induction lines generalizing ctx with
  | nil => rfl
  | cons line lines ih =>
    rw [iniLoadLines, iniSplice, iniLoadLine_included hload line hctx]
    rcases includedLines files fileLines configPath line with _ | _ | front
    · rfl
    · rfl
    · have hfront : (front.foldl IniContext.read ctx).configPath = configPath :=
        (ctx.foldl_read_configPath front).trans hctx
      simp only [Option.map_some, Except.map, ih hfront, Option.map_map]
      refine congrArg (Option.map · _) (funext fun r => ?_)
      cases r with
      | error e => rfl
      | ok rest => exact congrArg Except.ok (List.foldl_append ..).symm

end Splice

/-- **A configuration file is loaded by reading its lines.** -/
theorem iniDoLoadFromFile_lines (files : IniFiles) {configPath : Bytes} (depth : Nat)
    (filename : Bytes) {ctx : IniContext} (hctx : ctx.configPath = configPath) :
    iniDoLoadFromFile files depth filename ctx = (iniFileLines files configPath depth filename).map
      fun r => r.map fun lines => lines.foldl IniContext.read ctx := by
  induction depth generalizing filename ctx with
  | zero => rfl
  | succ depth ih =>
    rw [iniDoLoadFromFile, iniFileLines]
    cases files.content filename with
    | error e => rfl
    | ok content => exact iniLoadLines_splice (fun filename ctx hctx => ih filename hctx) _ hctx

/-! ## The parts of a line -/

theorem trim_nul (s : Bytes) : 0 ∉ trim s := by
  intro h
  have hmem : 0 ∈ cstr s :=
    (List.rdropWhile_prefix isTrimmed _).subset ((List.dropWhile_sublist _).subset h)
  exact cstr_eq_self_iff.mp (cstr_cstr s) hmem

theorem trim_of_head {s : Bytes} (hnul : 0 ∉ s) (hhead : ∀ c ∈ s.head?, isTrimmed c = false) :
    trim s = trimRight s := by
  unfold trim
  rw [cstr_eq_self_iff.mpr hnul]
  cases s with
  | nil => rfl
  | cons c s =>
    have hc : isTrimmed c = false := hhead c rfl
    have hright : trimRight (c :: s) = c :: trimRight s := by
      rw [← List.nil_append (c :: s), trimRight_append hc]
      rfl
    rw [hright, List.dropWhile_cons_of_neg (by simp [hc])]

theorem trimRight_append_blank {a b : Bytes} (hb : ∀ c ∈ b, isTrimmed c = true) :
    trimRight (a ++ b) = trimRight a := by
  unfold trimRight List.rdropWhile
  rw [List.reverse_append, List.dropWhile_append_of_pos (by simpa using hb)]

theorem trim_take {s : Bytes} (hnul : 0 ∉ s) (hhead : ∀ c ∈ s.head?, isTrimmed c = false)
    {k : Nat} (hk : (trim s).length ≤ k) : trim (s.take k) = trim s := by
  have hnul' : 0 ∉ s.take k := fun h => hnul (List.mem_of_mem_take h)
  have hhead' : ∀ c ∈ (s.take k).head?, isTrimmed c = false := by
    intro c hc
    rw [List.head?_take] at hc
    split_ifs at hc
    · cases hc
    · exact hhead c hc
  rw [trim_of_head hnul hhead] at hk ⊢
  rw [trim_of_head hnul' hhead']
  -- the text is its trimmed part and blanks
  have hsplit : trimRight s ++ s.rtakeWhile isTrimmed = s := List.rdropWhile_append_rtakeWhile
  have hblank : ∀ c ∈ (s.rtakeWhile isTrimmed).take (k - (trimRight s).length),
      isTrimmed c = true := fun c hc => List.mem_rtakeWhile_imp (List.mem_of_mem_take hc)
  calc trimRight (s.take k)
      = trimRight ((trimRight s ++ s.rtakeWhile isTrimmed).take k) := by rw [hsplit]
    _ = trimRight (trimRight s) := by
        rw [List.take_append, List.take_of_length_le hk, trimRight_append_blank hblank]
    _ = trimRight s := List.rdropWhile_idempotent ..

theorem readLine_name {line name value : Bytes} (h : readLine line = .assign name value) :
    0 ∉ name ∧ ∀ c ∈ name.head?, isTrimmed c = false := by
  unfold readLine at h
  split_ifs at h
  obtain ⟨rfl, -⟩ := IniLine.assign.inj h
  refine ⟨fun hmem => trim_nul line ((List.takeWhile_sublist _).subset hmem), fun c hc => ?_⟩
  have hhead : c ∈ (trim line).head? := by
    cases htrim : trim line with
    | nil => rw [htrim] at hc; exact hc
    | cons b t =>
      rw [htrim, List.takeWhile_cons] at hc
      split_ifs at hc
      · exact hc
      · cases hc
  have hblank := List.head?_dropWhile_not isTrimmed (trimRight (cstr line))
  rw [← trim, hhead] at hblank
  simpa using hblank

theorem IniContext.read_of_fits (ctx : IniContext) {line : Bytes} (h : LineFits line) :
    ctx.read line = match readLine line with
      | .blank => ctx
      | .header name => ctx.enterSection name
      | .assign name value => ctx.addItem ⟨trim name, trim value⟩ := by
  unfold read
  unfold LineFits at h
  cases hline : readLine line with
  | blank => rfl
  | header name => rfl
  | assign name value =>
    rw [hline] at h
    obtain ⟨hnul, hhead⟩ := readLine_name hline
    dsimp only
    rw [trim_take hnul hhead h.1, List.take_of_length_le h.2]

/-! ## The items of the sections -/

namespace IniContext

variable {ctx : IniContext}

/-- The items of a section, none if it does not exist. -/
def items (ctx : IniContext) (szSectionName : Bytes) : List IniItem :=
  (ctx.findSection szSectionName).getD []

def current (ctx : IniContext) : Bytes := ctx.currentSection.getD []

/-- The current section exists, and the names are C strings. -/
structure Loaded (ctx : IniContext) : Prop where
  entered : ∀ name, ctx.currentSection = some name → name ≠ [] ∧ ∃ s ∈ ctx.sections, s.1 = name
  names : ∀ szSectionName, ∀ item ∈ ctx.items szSectionName, 0 ∉ item.name

theorem items_addItem (h : ctx.Loaded) (item : IniItem) (szSectionName : Bytes) :
    (ctx.addItem item).items szSectionName =
      ctx.items szSectionName ++ if ctx.current = szSectionName then [item] else [] := by
  unfold items findSection addItem current
  cases hcurrent : ctx.currentSection with
  | none =>
    by_cases hglobal : szSectionName = []
    · subst hglobal
      simp
    · rw [if_neg hglobal, if_neg hglobal, if_neg (fun h => hglobal h.symm), List.append_nil]
  | some name =>
    obtain ⟨hname, s, hs, rfl⟩ := h.entered name hcurrent
    by_cases hglobal : szSectionName = []
    · subst hglobal
      simp [hname]
    · have hkey : (fun x : Bytes × List IniItem => decide (x.1 = szSectionName)) ∘
          (fun x => if x.1 = s.1 then (x.1, x.2 ++ [item]) else x) =
          fun x => decide (x.1 = szSectionName) := by
        funext x
        rw [Function.comp_apply]
        split_ifs <;> rfl
      rw [if_neg hglobal, if_neg hglobal, List.find?_map, hkey]
      cases hfind : ctx.sections.find? fun x => decide (x.1 = szSectionName) with
      | none =>
        have hne : s.1 ≠ szSectionName := by simpa using List.find?_eq_none.mp hfind s hs
        rw [Option.getD_some, if_neg hne]
        rfl
      | some x =>
        have hx : x.1 = szSectionName := by simpa using List.find?_some hfind
        simp only [Option.map_some, Option.getD_some, hx]
        by_cases hsame : s.1 = szSectionName
        · rw [if_pos hsame.symm, if_pos hsame]
        · rw [if_neg fun h => hsame h.symm, if_neg hsame, List.append_nil]

theorem items_enterSection (name szSectionName : Bytes) :
    (ctx.enterSection name).items szSectionName = ctx.items szSectionName := by
  unfold enterSection
  split_ifs with hempty hexists
  · rfl
  · rfl
  · unfold items findSection
    by_cases hglobal : szSectionName = []
    · rw [if_pos hglobal, if_pos hglobal]
    · rw [if_neg hglobal, if_neg hglobal, List.find?_append]
      cases hfind : ctx.sections.find? fun x => decide (x.1 = szSectionName) with
      | some x => rfl
      | none =>
        rw [Option.none_or, List.find?_singleton]
        split_ifs <;> rfl

theorem addItem_currentSection (item : IniItem) :
    (ctx.addItem item).currentSection = ctx.currentSection := by
  unfold addItem
  split <;> rfl

theorem current_addItem (item : IniItem) : (ctx.addItem item).current = ctx.current :=
  congrArg (·.getD []) (addItem_currentSection item)

theorem current_enterSection (name : Bytes) : (ctx.enterSection name).current = name := by
  unfold enterSection
  split_ifs with hempty hexists
  · exact hempty.symm
  · rfl
  · rfl

theorem Loaded.addItem (h : ctx.Loaded) {item : IniItem} (hitem : 0 ∉ item.name) :
    (ctx.addItem item).Loaded where
  entered := by
    intro name hname
    rw [addItem_currentSection] at hname
    obtain ⟨hne, s, hs, hkey⟩ := h.entered name hname
    refine ⟨hne, ?_⟩
    unfold IniContext.addItem
    split
    · exact ⟨s, hs, hkey⟩
    · refine ⟨_, List.mem_map_of_mem hs, ?_⟩
      rw [← hkey]
      split_ifs <;> rfl
  names := by
    intro szSectionName x hx
    rw [items_addItem h] at hx
    rcases List.mem_append.mp hx with hx | hx
    · exact h.names _ x hx
    · split_ifs at hx
      · exact List.mem_singleton.mp hx ▸ hitem
      · exact absurd hx List.not_mem_nil

theorem Loaded.enterSection (h : ctx.Loaded) (name : Bytes) : (ctx.enterSection name).Loaded where
  entered := by
    intro current hcurrent
    unfold IniContext.enterSection at hcurrent ⊢
    by_cases hempty : name = []
    · rw [if_pos hempty] at hcurrent
      exact nomatch hcurrent
    · rw [if_neg hempty] at hcurrent ⊢
      by_cases hexists : ctx.sections.any (·.1 = name) = true
      · rw [if_pos hexists] at hcurrent ⊢
        obtain rfl := Option.some.inj hcurrent
        exact ⟨hempty, by simpa using hexists⟩
      · rw [if_neg hexists] at hcurrent ⊢
        obtain rfl := Option.some.inj hcurrent
        exact ⟨hempty, _, List.mem_append_right _ List.mem_cons_self, rfl⟩
  names := by
    intro szSectionName item hitem
    rw [items_enterSection] at hitem
    exact h.names _ item hitem

theorem Loaded.read (h : ctx.Loaded) (line : Bytes) : (ctx.read line).Loaded := by
  unfold IniContext.read
  cases readLine line with
  | blank => exact h
  | header name => exact h.enterSection name
  | assign name value => exact h.addItem (trim_nul _)

theorem Loaded.lines (h : ctx.Loaded) (lines : List Bytes) :
    (lines.foldl IniContext.read ctx).Loaded := by
  induction lines generalizing ctx with
  | nil => exact h
  | cons line lines ih => exact ih (h.read line)

theorem loaded_empty (configPath : Bytes) : Loaded ⟨configPath, [], [], none⟩ where
  entered := nofun
  names := by
    intro szSectionName item hitem
    unfold items findSection at hitem
    split_ifs at hitem
    · exact absurd hitem List.not_mem_nil
    · exact absurd hitem List.not_mem_nil

end IniContext

def valuesOf (szItemName : Bytes) (items : List IniItem) : List Bytes :=
  (items.filter (·.name = szItemName)).map (·.value)

theorem valuesOf_append (szItemName : Bytes) (items more : List IniItem) :
    valuesOf szItemName (items ++ more) = valuesOf szItemName items ++ valuesOf szItemName more := by
  rw [valuesOf, List.filter_append, List.map_append]
  rfl

theorem valuesOf_ite (szItemName : Bytes) (p : Prop) [Decidable p] (item : IniItem) :
    valuesOf szItemName (if p then [item] else []) =
      if p ∧ item.name = szItemName then [item.value] else [] := by
  unfold valuesOf
  by_cases hp : p
  · by_cases hname : item.name = szItemName
    · simp [hp, hname]
    · simp [hp, hname]
  · simp [hp]

/-- **The loaded items have the values of the lines.** -/
theorem valuesOf_lines {ctx : IniContext} (h : ctx.Loaded) {lines : List Bytes}
    (hfits : ∀ line ∈ lines, LineFits line) (szSectionName szItemName : Bytes) :
    valuesOf szItemName ((lines.foldl IniContext.read ctx).items szSectionName) =
      valuesOf szItemName (ctx.items szSectionName) ++
        sectionValues szSectionName szItemName ctx.current lines := by
  induction lines generalizing ctx with
  | nil => exact (List.append_nil _).symm
  | cons line lines ih =>
    obtain ⟨hline, hfits⟩ := List.forall_mem_cons.mp hfits
    rw [List.foldl_cons, ih (h.read line) hfits, ctx.read_of_fits hline, sectionValues]
    cases readLine line with
    | blank => rfl
    | header name =>
      rw [IniContext.items_enterSection, IniContext.current_enterSection]
    | assign name value =>
      rw [IniContext.items_addItem h, IniContext.current_addItem, valuesOf_append,
        List.append_assoc, valuesOf_ite]

/-! ## Finding the items -/

theorem findSection_sort (ctx : IniContext) (szSectionName : Bytes) :
    (iniSortItems ctx).findSection szSectionName =
      (ctx.findSection szSectionName).map (qsort iniCompareByItemName) := by
  unfold IniContext.findSection iniSortItems
  by_cases hglobal : szSectionName = []
  · rw [if_pos hglobal, if_pos hglobal]
    rfl
  · rw [if_neg hglobal, if_neg hglobal, List.find?_map]
    simp only [Function.comp_def, Option.map_map]

theorem strcmp_name {name : Bytes} {item : IniItem} (hname : 0 ∉ name) (hitem : 0 ∉ item.name) :
    strcmp name item.name = .eq ↔ item.name = name := by
  rw [strcmp_eq_iff, cstr_eq_self_iff.mpr hname, cstr_eq_self_iff.mpr hitem, eq_comm]

theorem IniItem.hasName_iff {name : Bytes} {item : IniItem} :
    item.hasName name = true ↔ strcmp name item.name = .eq := by
  rw [hasName, decide_eq_true_iff]
  exact ⟨Std.OrientedCmp.eq_symm, Std.OrientedCmp.eq_symm⟩

theorem qsort_items (items : List IniItem) : (qsort iniCompareByItemName items).Pairwise
    fun a b => strcmp a.name b.name ≠ .gt := qsort_pairwise items

theorem valuesOf_qsort (szItemName : Bytes) (items : List IniItem) :
    (valuesOf szItemName (qsort iniCompareByItemName items)).Perm (valuesOf szItemName items) :=
  ((qsort_perm _ items).filter _).map _

theorem drop_take_block (p : IniItem → Bool) (before : List IniItem) (item : IniItem)
    (after : List IniItem) :
    ((before ++ item :: after).drop (before.length -
        (((before ++ item :: after).take before.length).reverse.takeWhile p).length)).take
      ((((before ++ item :: after).take before.length).reverse.takeWhile p).length + 1 +
        (((before ++ item :: after).drop (before.length + 1)).takeWhile p).length) =
      (before.reverse.takeWhile p).reverse ++ item :: after.takeWhile p := by
  have hafter : (before ++ item :: after).drop (before.length + 1) = after := by
    rw [← List.drop_drop, List.drop_left]
    rfl
  have hfront : before.length - (before.reverse.takeWhile p).length = (before.rdropWhile p).length := by
    have hlength := congrArg List.length (List.rdropWhile_append_rtakeWhile (p := p) (l := before))
    rw [List.length_append, List.rtakeWhile, List.length_reverse] at hlength
    omega
  rw [hafter, List.take_left, hfront]
  have hsplit : before ++ item :: after = before.rdropWhile p ++
      (((before.reverse.takeWhile p).reverse ++ item :: after.takeWhile p) ++ after.dropWhile p) := by
    rw [List.append_assoc, List.cons_append, List.takeWhile_append_dropWhile, ← List.append_assoc]
    exact congrArg (· ++ item :: after) List.rdropWhile_append_rtakeWhile.symm
  rw [hsplit, List.drop_left, List.take_left']
  rw [List.length_append, List.length_cons, List.length_reverse]
  omega

section Find

variable {ctx : IniContext} (h : ctx.Loaded) (szSectionName : Bytes) {szItemName : Bytes}
  (hnul : 0 ∉ szItemName)
include h hnul

theorem iniFindItem_sort (hlength : szItemName.length ≤ fastIniItemNameLen) :
    (iniFindItem (iniSortItems ctx) szSectionName szItemName = none ∧
      valuesOf szItemName (ctx.items szSectionName) = []) ∨
    ∃ before item after, iniFindItem (iniSortItems ctx) szSectionName szItemName =
        some (before ++ item :: after, before.length) ∧
      before ++ item :: after = qsort iniCompareByItemName (ctx.items szSectionName) ∧
      item.name = szItemName := by
  have hnames := h.names szSectionName
  unfold iniFindItem
  rw [findSection_sort, List.take_of_length_le hlength]
  unfold IniContext.items at hnames ⊢
  cases hsection : ctx.findSection szSectionName with
  | none => exact .inl ⟨rfl, rfl⟩
  | some items =>
    rw [hsection, Option.getD_some] at hnames
    rw [Option.map_some, Option.bind_some, Option.getD_some]
    have hiff := bsearch_ne_none_iff (qsort_items items) (k := szItemName)
    cases hfound : bsearch (fun item : IniItem => strcmp szItemName item.name)
        (qsort iniCompareByItemName items) with
    | none =>
      refine .inl ⟨rfl, ?_⟩
      have hnone : items.filter (·.name = szItemName) = [] := by
        refine List.filter_eq_nil_iff.mpr fun item hitem hname => ?_
        have heq := (strcmp_name hnul (hnames item hitem)).mpr (by simpa using hname)
        exact hiff.mpr ⟨item, mem_qsort.mpr hitem, heq⟩ hfound
      rw [valuesOf, hnone]
      rfl
    | some i =>
      obtain ⟨item, hi, heq⟩ := bsearch_some hfound
      obtain ⟨hlt, rfl⟩ := List.getElem?_eq_some_iff.mp hi
      have hmem := mem_qsort.mp (List.getElem_mem hlt)
      have hsplit : (qsort iniCompareByItemName items).take i ++
          (qsort iniCompareByItemName items)[i] :: (qsort iniCompareByItemName items).drop (i + 1) =
          qsort iniCompareByItemName items := by
        rw [List.getElem_cons_drop, List.take_append_drop]
      refine .inr ⟨_, _, _, ?_, hsplit, (strcmp_name hnul (hnames _ hmem)).mp heq⟩
      rw [hsplit, List.length_take, min_eq_left hlt.le]
      rfl

theorem iniGetValuesEx_sort (hlength : szItemName.length ≤ fastIniItemNameLen) :
    (iniGetValuesEx (iniSortItems ctx) szSectionName szItemName).map (·.value) =
      valuesOf szItemName (qsort iniCompareByItemName (ctx.items szSectionName)) := by
  rcases iniFindItem_sort h szSectionName hnul hlength with
    ⟨hfind, hnone⟩ | ⟨before, item, after, hfind, hsplit, hname⟩
  · have hperm := valuesOf_qsort szItemName (ctx.items szSectionName)
    rw [hnone] at hperm
    rw [iniGetValuesEx, hfind, hperm.eq_nil]
    rfl
  · have hsorted := qsort_items (ctx.items szSectionName)
    have hitem : item.hasName szItemName = true := by
      rw [IniItem.hasName_iff, hname]
      exact Std.ReflCmp.compare_self
    have hfilter : (qsort iniCompareByItemName (ctx.items szSectionName)).filter
        (·.name = szItemName) = (qsort iniCompareByItemName (ctx.items szSectionName)).filter
        (IniItem.hasName szItemName) := by
      refine List.filter_congr fun x hx => ?_
      have hx := h.names szSectionName x (mem_qsort.mp hx)
      rw [Bool.eq_iff_iff, decide_eq_true_iff, IniItem.hasName_iff, strcmp_name hnul hx]
    rw [valuesOf, hfilter, ← equal_block hsorted hsplit.symm (fun _ => IniItem.hasName_iff) hitem,
      iniGetValuesEx, hfind]
    exact congrArg (List.map IniItem.value) (drop_take_block (IniItem.hasName szItemName) ..)

theorem iniGetStrValueEx_sort (hlength : szItemName.length ≤ fastIniItemNameLen) :
    (∀ v, iniGetStrValueEx (iniSortItems ctx) szSectionName szItemName = some v →
      v ∈ valuesOf szItemName (ctx.items szSectionName)) ∧
    (iniGetStrValueEx (iniSortItems ctx) szSectionName szItemName = none ↔
      valuesOf szItemName (ctx.items szSectionName) = []) := by
  unfold iniGetStrValueEx
  rcases iniFindItem_sort h szSectionName hnul hlength with
    ⟨hfind, hnone⟩ | ⟨before, item, after, hfind, hsplit, hname⟩
  · rw [hfind, hnone]
    exact ⟨nofun, iff_of_true rfl rfl⟩
  · have hget : (before ++ item :: after)[before.length]? = some item :=
      by rw [List.getElem?_append_right le_rfl, Nat.sub_self, List.getElem?_cons_zero]
    have hmem : item.value ∈ valuesOf szItemName (ctx.items szSectionName) := by
      have hitem : item ∈ ctx.items szSectionName :=
        mem_qsort.mp (hsplit ▸ List.mem_append_right _ List.mem_cons_self)
      exact List.mem_map_of_mem (List.mem_filter.mpr ⟨hitem, decide_eq_true hname⟩)
    rw [hfind, Option.bind_some]
    dsimp only
    rw [hget]
    refine ⟨fun v hv => Option.some.inj hv ▸ hmem, iff_of_false nofun ?_⟩
    exact List.ne_nil_of_mem hmem

end Find

/-- **What a configuration assigns to a name in a section is what is looked up.** -/
theorem ini_values_of_section (files : IniFiles) (configPath : Bytes) (depth : Nat)
    (filename : Bytes) (lines : List Bytes)
    (hlines : iniFileLines files configPath depth filename = some (.ok lines))
    (hfits : ∀ line ∈ lines, LineFits line) (szSectionName szItemName : Bytes)
    (hnul : 0 ∉ szItemName) (hlength : szItemName.length ≤ fastIniItemNameLen) :
    ∃ ctx, iniLoadFromFile files depth configPath filename = some (.ok ctx) ∧
      ((iniGetValuesEx ctx szSectionName szItemName).map (·.value)).Perm
        (sectionValues szSectionName szItemName [] lines) ∧
      (∀ v, iniGetStrValueEx ctx szSectionName szItemName = some v →
        v ∈ sectionValues szSectionName szItemName [] lines) ∧
      (iniGetStrValueEx ctx szSectionName szItemName = none ↔
        sectionValues szSectionName szItemName [] lines = []) := by
  obtain ⟨ctx, hctx⟩ : ∃ ctx, ctx = lines.foldl IniContext.read ⟨configPath, [], [], none⟩ :=
    ⟨_, rfl⟩
  have hloaded : ctx.Loaded := hctx ▸ (IniContext.loaded_empty configPath).lines lines
  have hload : iniLoadFromFile files depth configPath filename = some (.ok (iniSortItems ctx)) := by
    rw [iniLoadFromFile, iniDoLoadFromFile_lines files depth filename rfl, hlines, hctx]
    rfl
  have hvalues : valuesOf szItemName (ctx.items szSectionName) =
      sectionValues szSectionName szItemName [] lines := by
    have hempty : valuesOf szItemName
        (IniContext.items ⟨configPath, [], [], none⟩ szSectionName) = [] := by
      unfold IniContext.items IniContext.findSection
      split_ifs <;> rfl
    rw [hctx, valuesOf_lines (IniContext.loaded_empty configPath) hfits, hempty]
    rfl
  refine ⟨iniSortItems ctx, hload, ?_⟩
  rw [← hvalues]
  refine ⟨?_, ?_⟩
  · rw [iniGetValuesEx_sort hloaded szSectionName hnul hlength]
    exact valuesOf_qsort _ _
  · exact iniGetStrValueEx_sort hloaded szSectionName hnul hlength

/-- A section that is entered twice, a comment and an item of the global section. -/
def twiceEntered : IniFiles where
  fileExists := fun _ => false
  content := fun _ => .ok (asciiBytes "n = 0\n[a]\n n=1 \n#n = 2\n[b]\nn=3\n[ a ]\nn =\t4")

theorem ini_values_twice_entered : ∃ ctx,
    iniLoadFromFile twiceEntered 1 [] [] = some (.ok ctx) ∧
      ((iniGetValuesEx ctx [97] [110]).map (·.value)).Perm [[49], [52]] := by
  obtain ⟨ctx, hload, hperm, -⟩ := ini_values_of_section twiceEntered [] 1 [] _
    (iniFileLines_plain 0 rfl (by decide)) (by decide) [97] [110] (by decide) (by decide)
  exact ⟨ctx, hload, hperm⟩

end FastDht
