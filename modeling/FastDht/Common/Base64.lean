import FastDht.Common.SharedFunc

/-! # Base64: common/base64.c

The encoder pads the last group with zero bytes, writes it like the others and then
replaces or cuts off the characters that stand for the padding. The decoder skips what is
not in the alphabet and counts the padding characters. -/
namespace FastDht

def base64Ignore : Int := -1

def base64Pad : Int := -2

/-- `struct base64_context`. -/
structure Base64Context where
  lineSeparator : Bytes
  lineLength : Int
  valueToChar : Nat → UInt8
  charToValue : UInt8 → Int
  padCh : UInt8

/-- The table `valueToChar`. -/
def base64Chars (chPlus chSplash : UInt8) (i : Nat) : UInt8 :=
  if i < 26 then UInt8.ofNat (65 + i)
  else if i < 52 then UInt8.ofNat (97 + (i - 26))
  else if i < 62 then UInt8.ofNat (48 + (i - 52))
  else if i = 62 then chPlus
  else chSplash

/-- The loop that fills `charToValue`. -/
def base64Values (valueToChar : Nat → UInt8) : Nat → UInt8 → Int
  | 0, _ => base64Ignore
  | i + 1, ch => if ch = valueToChar i then i else base64Values valueToChar i ch

def base64InitEx (nLineLength : Int) (chPlus chSplash chPad : UInt8) : Base64Context where
  lineSeparator := [10]
  lineLength := nLineLength
  valueToChar := base64Chars chPlus chSplash
  charToValue := fun ch =>
    if ch = chPad then base64Pad else base64Values (base64Chars chPlus chSplash) 64 ch
  padCh := chPad

def base64GetEncodeLength (context : Base64Context) (nSrcLen : Int) : Int :=
  let outputLength := toInt32 ((toInt32 (nSrcLen + 2)).tdiv 3 * 4)
  if context.lineLength ≠ 0 then
    let lines := (toInt32 (outputLength + context.lineLength - 1)).tdiv context.lineLength - 1
    if 0 < lines then toInt32 (outputLength + lines * context.lineSeparator.length)
    else outputLength
  else outputLength

/-! ## Encoding -/

def encodeGroup (context : Base64Context) (a b c : UInt8) : Bytes :=
  let combined := a.toNat <<< 16 ||| b.toNat <<< 8 ||| c.toNat
  [context.valueToChar (combined >>> 6 >>> 6 >>> 6 &&& 0x3f),
    context.valueToChar (combined >>> 6 >>> 6 &&& 0x3f),
    context.valueToChar (combined >>> 6 &&& 0x3f),
    context.valueToChar (combined &&& 0x3f)]

/-- The inner loop of `base64_encode_ex`. -/
def encodeLoop (context : Base64Context) : Bytes → Int → Bytes
  | a :: b :: c :: raw, linePos =>
    if context.lineLength < linePos + 4 then
      (if context.lineLength ≠ 0 then context.lineSeparator else []) ++
        (encodeGroup context a b c ++ encodeLoop context raw 4)
    else encodeGroup context a b c ++ encodeLoop context raw (linePos + 4)
  | _, _ => []

/-- The characters that were written, and `*dest_len`. -/
structure Encoded where
  dest : Bytes
  destLen : Int

def Encoded.text (e : Encoded) : Bytes := e.dest.take e.destLen.toNat

/-- The bytes that are encoded: the whole groups, and `szPad` if bytes are left over. -/
def paddedBytes (src : Bytes) : Bytes :=
  let whole := src.length / 3 * 3
  let leftover := src.length - whole
  src.take whole ++
    if leftover = 0 then [] else src.drop whole ++ List.replicate (3 - leftover) 0

def base64EncodeEx (context : Base64Context) (src : Bytes) (bPad : Bool) : Encoded :=
  if src = [] then ⟨[], 0⟩
  else
    let dest := encodeLoop context (paddedBytes src) 0
    let destLen := toInt32 dest.length
    match src.length - src.length / 3 * 3 with
    | 1 =>
      if bPad then
        ⟨(dest.set (dest.length - 1) context.padCh).set (dest.length - 2) context.padCh, destLen⟩
      else ⟨dest.set (dest.length - 2) 0, toInt32 (destLen - 2)⟩
    | 2 =>
      if bPad then ⟨dest.set (dest.length - 1) context.padCh, destLen⟩
      else ⟨dest.set (dest.length - 1) 0, toInt32 (destLen - 1)⟩
    | _ => ⟨dest, destLen⟩

/-! ## Decoding -/

structure DecodeState where
  cycle : Nat
  combined : Nat
  dummies : Nat

/-- One character: the bytes that are written, and the variables of the loop. -/
def decodeStep (context : Base64Context) (st : DecodeState) (ch : UInt8) : Bytes × DecodeState :=
  let value := context.charToValue ch
  if value = base64Ignore then ([], st)
  else
    let dummies := if value = base64Pad then st.dummies + 1 else st.dummies
    let value := if value = base64Pad then 0 else value.toNat
    let combined := st.combined <<< 6 ||| value
    match st.cycle with
    | 0 => ([], ⟨1, value, dummies⟩)
    | 1 => ([], ⟨2, combined, dummies⟩)
    | 2 => ([], ⟨3, combined, dummies⟩)
    | _ => ([UInt8.ofNat (combined >>> 16), UInt8.ofNat ((combined &&& 0x0000FF00) >>> 8),
        UInt8.ofNat (combined &&& 0x000000FF)], ⟨0, combined, dummies⟩)

def decodeLoop (context : Base64Context) : Bytes → DecodeState → Bytes × DecodeState
  | [], st => ([], st)
  | ch :: src, st =>
    let r := decodeStep context st ch
    let rest := decodeLoop context src r.2
    (r.1 ++ rest.1, rest.2)

/-- `base64_decode`: the bytes the caller gets. A negative length ends the loop at once. -/
def base64Decode (context : Base64Context) (src : Bytes) (nSrcLen : Int) : Bytes :=
  let r := decodeLoop context (src.take nSrcLen.toNat) ⟨0, 0, 0⟩
  if r.2.cycle ≠ 0 then [] else r.1.take (r.1.length - r.2.dummies)

/-- `base64_decode_auto`. A padded copy of more than 256 bytes is allocated. -/
def base64DecodeAuto (context : Base64Context) (malloc : Bool) (src : Bytes) (nSrcLen : Int) :
    Bytes :=
  let nRemain := nSrcLen.tmod 4
  if nRemain = 0 then base64Decode context src nSrcLen
  else
    let nPadLen := 4 - nRemain
    let nNewLen := toInt32 (nSrcLen + nPadLen)
    if (nNewLen < 0 ∨ 256 < nNewLen) ∧ malloc = false then []
    else base64Decode context
      (src.take nSrcLen.toNat ++ List.replicate nPadLen.toNat context.padCh) nNewLen

/-! ## The alphabet -/

/-- A character that is no letter and no digit, and not the end of a line. -/
def Base64Special (ch : UInt8) : Prop := (∀ i < 62, base64Chars 0 0 i ≠ ch) ∧ ch ≠ 10

/-- The characters that a context may be made with. -/
structure Base64Valid (chPlus chSplash chPad : UInt8) : Prop where
  plus : Base64Special chPlus
  splash : Base64Special chSplash
  pad : Base64Special chPad
  plus_splash : chPlus ≠ chSplash
  plus_pad : chPlus ≠ chPad
  splash_pad : chSplash ≠ chPad

section Alphabet

variable {chPlus chSplash chPad : UInt8}

theorem base64Chars_lt {i : Nat} (h : i < 62) :
    base64Chars chPlus chSplash i = base64Chars 0 0 i := by
  unfold base64Chars
  rw [if_pos h, if_pos h]

theorem base64Chars_cases {i : Nat} (h : i < 64) :
    i < 62 ∧ base64Chars chPlus chSplash i = base64Chars 0 0 i ∨
      i = 62 ∧ base64Chars chPlus chSplash i = chPlus ∨
      i = 63 ∧ base64Chars chPlus chSplash i = chSplash := by
  by_cases hlt : i < 62
  · exact .inl ⟨hlt, base64Chars_lt hlt⟩
  · by_cases h62 : i = 62
    · subst h62
      exact .inr (.inl ⟨rfl, rfl⟩)
    · obtain rfl : i = 63 := by omega
      exact .inr (.inr ⟨rfl, rfl⟩)

theorem base64Chars_letters :
    ∀ i < 62, ∀ j < 62, base64Chars 0 0 i = base64Chars 0 0 j → i = j := by
  decide +kernel

theorem base64Chars_letters_ne : ∀ i < 62, base64Chars 0 0 i ≠ 10 := by decide +kernel

theorem Base64Valid.injective (h : Base64Valid chPlus chSplash chPad) {i j : Nat} (hi : i < 64)
    (hj : j < 64) (heq : base64Chars chPlus chSplash i = base64Chars chPlus chSplash j) :
    i = j := by
  rcases base64Chars_cases hi with ⟨hi', ei⟩ | ⟨rfl, ei⟩ | ⟨rfl, ei⟩ <;>
    rcases base64Chars_cases hj with ⟨hj', ej⟩ | ⟨rfl, ej⟩ | ⟨rfl, ej⟩ <;>
    replace heq := ei.symm.trans (heq.trans ej)
  · exact base64Chars_letters i hi' j hj' heq
  · exact absurd heq (h.plus.1 i hi')
  · exact absurd heq (h.splash.1 i hi')
  · exact absurd heq.symm (h.plus.1 j hj')
  · rfl
  · exact absurd heq h.plus_splash
  · exact absurd heq.symm (h.splash.1 j hj')
  · exact absurd heq.symm h.plus_splash
  · rfl

theorem Base64Valid.ne_pad (h : Base64Valid chPlus chSplash chPad) {i : Nat} (hi : i < 64) :
    base64Chars chPlus chSplash i ≠ chPad := by
  rcases base64Chars_cases hi with ⟨hi', ei⟩ | ⟨rfl, ei⟩ | ⟨rfl, ei⟩ <;> rw [ei]
  · exact h.pad.1 i hi'
  · exact h.plus_pad
  · exact h.splash_pad

theorem Base64Valid.ne_newline (h : Base64Valid chPlus chSplash chPad) {i : Nat} (hi : i < 64) :
    base64Chars chPlus chSplash i ≠ 10 := by
  rcases base64Chars_cases hi with ⟨hi', ei⟩ | ⟨rfl, ei⟩ | ⟨rfl, ei⟩ <;> rw [ei]
  · exact base64Chars_letters_ne i hi'
  · exact h.plus.2
  · exact h.splash.2

theorem base64Values_char (h : Base64Valid chPlus chSplash chPad) {v n : Nat} (hv : v < n)
    (hn : n ≤ 64) : base64Values (base64Chars chPlus chSplash) n
      (base64Chars chPlus chSplash v) = v := by
  induction n with
  | zero => omega
  | succ n ih =>
    unfold base64Values
    by_cases heq : base64Chars chPlus chSplash v = base64Chars chPlus chSplash n
    · rw [if_pos heq, h.injective (by omega) (by omega) heq]
    · have hne : v ≠ n := fun hvn => heq (by rw [hvn])
      rw [if_neg heq]
      exact ih (by omega) (by omega)

theorem base64Values_ignore {ch : UInt8} {n : Nat}
    (h : ∀ i < n, base64Chars chPlus chSplash i ≠ ch) :
    base64Values (base64Chars chPlus chSplash) n ch = base64Ignore := by
  induction n with
  | zero => rfl
  | succ n ih =>
    unfold base64Values
    rw [if_neg (h n (Nat.lt_succ_self n)).symm]
    exact ih fun i hi => h i (Nat.lt_succ_of_lt hi)

end Alphabet

/-! ## Groups -/

theorem shiftLeft_or {x y n : Nat} (h : y < 2 ^ n) : x <<< n ||| y = 2 ^ n * x + y := by
  rw [← Nat.shiftLeft_add_eq_or_of_lt h, Nat.shiftLeft_eq, Nat.mul_comm]

theorem and_sextet (x : Nat) : x &&& 0x3f = x % 64 := Nat.and_two_pow_sub_one_eq_mod x 6

theorem and_octet (x : Nat) : x &&& 0xff = x % 256 := Nat.and_two_pow_sub_one_eq_mod x 8

theorem combine_bytes (a b c : UInt8) :
    a.toNat <<< 16 ||| b.toNat <<< 8 ||| c.toNat =
      65536 * a.toNat + (256 * b.toNat + c.toNat) := by
  have hb := b.toNat_lt
  have hc := c.toNat_lt
  rw [Nat.or_assoc, shiftLeft_or (show c.toNat < 2 ^ 8 by omega),
    shiftLeft_or (show 2 ^ 8 * b.toNat + c.toNat < 2 ^ 16 by omega)]
  omega

theorem encodeGroup_eq (context : Base64Context) (a b c : UInt8) :
    encodeGroup context a b c = [context.valueToChar (a.toNat / 4),
      context.valueToChar (16 * (a.toNat % 4) + b.toNat / 16),
      context.valueToChar (4 * (b.toNat % 16) + c.toNat / 64),
      context.valueToChar (c.toNat % 64)] := by
  have ha := a.toNat_lt
  have hb := b.toNat_lt
  have hc := c.toNat_lt
  unfold encodeGroup
  simp only [combine_bytes, and_sextet, Nat.shiftRight_eq_div_pow]
  have h0 : (65536 * a.toNat + (256 * b.toNat + c.toNat)) / 2 ^ 6 / 2 ^ 6 / 2 ^ 6 % 64 =
      a.toNat / 4 := by omega
  have h1 : (65536 * a.toNat + (256 * b.toNat + c.toNat)) / 2 ^ 6 / 2 ^ 6 % 64 =
      16 * (a.toNat % 4) + b.toNat / 16 := by omega
  have h2 : (65536 * a.toNat + (256 * b.toNat + c.toNat)) / 2 ^ 6 % 64 =
      4 * (b.toNat % 16) + c.toNat / 64 := by omega
  have h3 : (65536 * a.toNat + (256 * b.toNat + c.toNat)) % 64 = c.toNat % 64 := by omega
  rw [h0, h1, h2, h3]

theorem combine_values {u v w x : Nat} (hv : v < 64) (hw : w < 64) (hx : x < 64) :
    ((u <<< 6 ||| v) <<< 6 ||| w) <<< 6 ||| x = 64 * (64 * (64 * u + v) + w) + x := by
  rw [shiftLeft_or (show v < 2 ^ 6 by omega), shiftLeft_or (show w < 2 ^ 6 by omega),
    shiftLeft_or (show x < 2 ^ 6 by omega)]
  omega

theorem split_combined (n : Nat) :
    UInt8.ofNat ((n &&& 0x0000FF00) >>> 8) = UInt8.ofNat (n / 256 % 256) ∧
      UInt8.ofNat (n &&& 0x000000FF) = UInt8.ofNat (n % 256) ∧
      UInt8.ofNat (n >>> 16) = UInt8.ofNat (n / 65536) := by
  refine ⟨?_, ?_, ?_⟩
  · have hmask : (0x0000FF00 : Nat) >>> 8 = 0xff := rfl
    rw [Nat.shiftRight_and_distrib, hmask, and_octet, Nat.shiftRight_eq_div_pow]
  · rw [and_octet]
  · rw [Nat.shiftRight_eq_div_pow]

/-! ## Reading groups -/

section Reading

variable {context : Base64Context}

/-- The character counts as the value `v`, and as padding if `k` is 1. -/
def Stands (context : Base64Context) (ch : UInt8) (v k : Nat) : Prop :=
  context.charToValue ch = v ∧ k = 0 ∨ context.charToValue ch = base64Pad ∧ v = 0 ∧ k = 1

theorem decodeStep_stands {ch : UInt8} {v k : Nat} (h : Stands context ch v k)
    (st : DecodeState) :
    decodeStep context st ch = match st.cycle with
      | 0 => ([], ⟨1, v, st.dummies + k⟩)
      | 1 => ([], ⟨2, st.combined <<< 6 ||| v, st.dummies + k⟩)
      | 2 => ([], ⟨3, st.combined <<< 6 ||| v, st.dummies + k⟩)
      | _ => ([UInt8.ofNat ((st.combined <<< 6 ||| v) >>> 16),
          UInt8.ofNat (((st.combined <<< 6 ||| v) &&& 0x0000FF00) >>> 8),
          UInt8.ofNat ((st.combined <<< 6 ||| v) &&& 0x000000FF)],
          ⟨0, st.combined <<< 6 ||| v, st.dummies + k⟩) := by
  unfold decodeStep
  rcases h with ⟨hvalue, rfl⟩ | ⟨hvalue, rfl, rfl⟩
  · have hignore : (v : Int) ≠ base64Ignore := by unfold base64Ignore; omega
    have hpad : (v : Int) ≠ base64Pad := by unfold base64Pad; omega
    rw [hvalue, if_neg hignore, if_neg hpad, if_neg hpad, Int.toNat_natCast]
    rfl
  · rw [hvalue, if_neg (by decide), if_pos rfl, if_pos rfl]

theorem decodeLoop_append (s t : Bytes) (st : DecodeState) :
    decodeLoop context (s ++ t) st =
      ((decodeLoop context s st).1 ++ (decodeLoop context t (decodeLoop context s st).2).1,
        (decodeLoop context t (decodeLoop context s st).2).2) := by
  induction s generalizing st with
  | nil => rfl
  | cons ch s ih =>
    rw [List.cons_append, decodeLoop, decodeLoop]
    rw [ih, List.append_assoc]

theorem decodeLoop_ignored {s : Bytes} (h : ∀ ch ∈ s, context.charToValue ch = base64Ignore)
    (st : DecodeState) : decodeLoop context s st = ([], st) := by
  induction s with
  | nil => rfl
  | cons ch s ih =>
    have hstep : decodeStep context st ch = ([], st) := if_pos (h ch List.mem_cons_self)
    rw [decodeLoop, hstep]
    exact ih fun ch' hch' => h ch' (List.mem_cons_of_mem _ hch')

theorem decodeLoop_group {ch₀ ch₁ ch₂ ch₃ a b c : UInt8} {v₀ v₁ v₂ v₃ k₂ k₃ : Nat}
    (h₀ : Stands context ch₀ v₀ 0) (h₁ : Stands context ch₁ v₁ 0) (h₂ : Stands context ch₂ v₂ k₂)
    (h₃ : Stands context ch₃ v₃ k₃) (hlt : v₁ < 64 ∧ v₂ < 64 ∧ v₃ < 64)
    (hvalue : 64 * (64 * (64 * v₀ + v₁) + v₂) + v₃ =
      65536 * a.toNat + (256 * b.toNat + c.toNat)) (combined dummies : Nat) :
    ∃ combined', decodeLoop context [ch₀, ch₁, ch₂, ch₃] ⟨0, combined, dummies⟩ =
      ([a, b, c], ⟨0, combined', dummies + k₂ + k₃⟩) := by
  have hb := b.toNat_lt
  have hc := c.toNat_lt
  have hall := combine_values (u := v₀) hlt.1 hlt.2.1 hlt.2.2
  obtain ⟨hb', hc', ha'⟩ := split_combined (65536 * a.toNat + (256 * b.toNat + c.toNat))
  have hfirst : (65536 * a.toNat + (256 * b.toNat + c.toNat)) / 65536 = a.toNat := by omega
  have hsecond : (65536 * a.toNat + (256 * b.toNat + c.toNat)) / 256 % 256 = b.toNat := by omega
  have hthird : (65536 * a.toNat + (256 * b.toNat + c.toNat)) % 256 = c.toNat := by omega
  rw [hfirst, UInt8.ofNat_toNat] at ha'
  rw [hsecond, UInt8.ofNat_toNat] at hb'
  rw [hthird, UInt8.ofNat_toNat] at hc'
  refine ⟨((v₀ <<< 6 ||| v₁) <<< 6 ||| v₂) <<< 6 ||| v₃, ?_⟩
  simp only [decodeLoop, decodeStep_stands h₀, decodeStep_stands h₁, decodeStep_stands h₂,
    decodeStep_stands h₃, hall, hvalue, ha', hb', hc', List.nil_append, List.append_nil,
    Nat.add_zero]

end Reading

/-- What the round trip needs of the tables of a context. -/
structure Base64Context.Reads (context : Base64Context) : Prop where
  char : ∀ v < 64, context.charToValue (context.valueToChar v) = v
  separator : ∀ ch ∈ context.lineSeparator, context.charToValue ch = base64Ignore
  pad : context.charToValue context.padCh = base64Pad

theorem Base64Valid.reads {chPlus chSplash chPad : UInt8} (h : Base64Valid chPlus chSplash chPad)
    (nLineLength : Int) : (base64InitEx nLineLength chPlus chSplash chPad).Reads where
  char v hv := (if_neg (h.ne_pad hv)).trans (base64Values_char h hv le_rfl)
  separator ch hch := by
    obtain rfl := List.mem_singleton.mp hch
    exact (if_neg h.pad.2.symm).trans (base64Values_ignore fun i hi => h.ne_newline hi)
  pad := if_pos rfl

/-! ## Reading what was written -/

section Texts

variable {context : Base64Context}

theorem Base64Context.Reads.stands (hr : context.Reads) {v : Nat} (hv : v < 64) :
    Stands context (context.valueToChar v) v 0 :=
  .inl ⟨hr.char v hv, rfl⟩

theorem Base64Context.Reads.stands_pad (hr : context.Reads) : Stands context context.padCh 0 1 :=
  .inr ⟨hr.pad, rfl, rfl⟩

theorem decodeLoop_encodeGroup (hr : context.Reads) (a b c : UInt8) (combined dummies : Nat) :
    ∃ combined', decodeLoop context (encodeGroup context a b c) ⟨0, combined, dummies⟩ =
      ([a, b, c], ⟨0, combined', dummies⟩) := by
  have ha := a.toNat_lt
  have hb := b.toNat_lt
  have hc := c.toNat_lt
  rw [encodeGroup_eq]
  exact decodeLoop_group (hr.stands (by omega)) (hr.stands (by omega)) (hr.stands (by omega))
    (hr.stands (by omega)) ⟨by omega, by omega, by omega⟩ (by omega) combined dummies

theorem decodeLoop_oneByte (hr : context.Reads) (a : UInt8) (combined dummies : Nat) :
    ∃ combined', decodeLoop context [context.valueToChar (a.toNat / 4),
        context.valueToChar (16 * (a.toNat % 4)), context.padCh, context.padCh]
        ⟨0, combined, dummies⟩ = ([a, 0, 0], ⟨0, combined', dummies + 2⟩) := by
  have ha := a.toNat_lt
  have h0 : (0 : UInt8).toNat = 0 := rfl
  exact decodeLoop_group (hr.stands (by omega)) (hr.stands (by omega)) hr.stands_pad
    hr.stands_pad ⟨by omega, by omega, by omega⟩ (by rw [h0]; omega) combined dummies

theorem decodeLoop_twoBytes (hr : context.Reads) (a b : UInt8) (combined dummies : Nat) :
    ∃ combined', decodeLoop context [context.valueToChar (a.toNat / 4),
        context.valueToChar (16 * (a.toNat % 4) + b.toNat / 16),
        context.valueToChar (4 * (b.toNat % 16)), context.padCh]
        ⟨0, combined, dummies⟩ = ([a, b, 0], ⟨0, combined', dummies + 1⟩) := by
  have ha := a.toNat_lt
  have hb := b.toNat_lt
  have h0 : (0 : UInt8).toNat = 0 := rfl
  exact decodeLoop_group (hr.stands (by omega)) (hr.stands (by omega)) (hr.stands (by omega))
    hr.stands_pad ⟨by omega, by omega, by omega⟩ (by rw [h0]; omega) combined dummies

/-- The separator before a group. -/
def breakBefore (context : Base64Context) (linePos : Int) : Bytes :=
  if context.lineLength < linePos + 4 ∧ context.lineLength ≠ 0 then context.lineSeparator else []

theorem encodeLoop_cons (a b c : UInt8) (raw : Bytes) (linePos : Int) :
    encodeLoop context (a :: b :: c :: raw) linePos =
      breakBefore context linePos ++ (encodeGroup context a b c ++ encodeLoop context raw
        (if context.lineLength < linePos + 4 then 4 else linePos + 4)) := by
  unfold breakBefore
  rw [encodeLoop]
  by_cases hbreak : context.lineLength < linePos + 4
  · rw [if_pos hbreak, if_pos hbreak]
    by_cases hzero : context.lineLength = 0
    · rw [if_neg (not_not.mpr hzero), if_neg fun h => h.2 hzero]
    · rw [if_pos hzero, if_pos ⟨hbreak, hzero⟩]
  · rw [if_neg hbreak, if_neg hbreak, if_neg fun h => hbreak h.1, List.nil_append]

theorem decodeLoop_breakBefore (hr : context.Reads) (linePos : Int) (st : DecodeState) :
    decodeLoop context (breakBefore context linePos) st = ([], st) := by
  refine decodeLoop_ignored (fun ch hch => ?_) st
  unfold breakBefore at hch
  split_ifs at hch
  · exact hr.separator ch hch
  · cases hch

theorem exists_group {n : Nat} {raw : Bytes} (hraw : raw.length = 3 * (n + 1)) :
    ∃ a b c rest, raw = a :: b :: c :: rest ∧ rest.length = 3 * n := by
  match raw, hraw with
  | a :: b :: c :: rest, hraw =>
    simp only [List.length_cons] at hraw
    exact ⟨a, b, c, rest, rfl, by omega⟩

theorem decodeLoop_encodeLoop (hr : context.Reads) {n : Nat} {raw : Bytes}
    (hraw : raw.length = 3 * n) (linePos : Int) (combined dummies : Nat) :
    ∃ combined', decodeLoop context (encodeLoop context raw linePos) ⟨0, combined, dummies⟩ =
      (raw, ⟨0, combined', dummies⟩) := by
  induction n generalizing raw linePos combined with
  | zero =>
    obtain rfl := List.length_eq_zero_iff.mp hraw
    exact ⟨combined, rfl⟩
  | succ n ih =>
    obtain ⟨a, b, c, raw, rfl, hlen⟩ := exists_group hraw
    obtain ⟨combined₁, hgroup⟩ := decodeLoop_encodeGroup hr a b c combined dummies
    obtain ⟨combined₂, hrest⟩ := ih hlen
      (if context.lineLength < linePos + 4 then 4 else linePos + 4) combined₁
    refine ⟨combined₂, ?_⟩
    rw [encodeLoop_cons, decodeLoop_append, decodeLoop_breakBefore hr, decodeLoop_append, hgroup,
      hrest]
    rfl

variable (context) in
theorem encodeLoop_concat {n : Nat} {raw : Bytes} (hraw : raw.length = 3 * n) (a b c : UInt8)
    (linePos : Int) : ∃ linePos', encodeLoop context (raw ++ [a, b, c]) linePos =
      encodeLoop context raw linePos ++ breakBefore context linePos' ++
        encodeGroup context a b c := by
  induction n generalizing raw linePos with
  | zero =>
    obtain rfl := List.length_eq_zero_iff.mp hraw
    refine ⟨linePos, ?_⟩
    rw [List.nil_append, encodeLoop_cons]
    simp only [encodeLoop, List.append_nil, List.nil_append]
  | succ n ih =>
    obtain ⟨a', b', c', raw, rfl, hlen⟩ := exists_group hraw
    obtain ⟨linePos', hrest⟩ := ih hlen
      (if context.lineLength < linePos + 4 then 4 else linePos + 4)
    refine ⟨linePos', ?_⟩
    simp only [List.cons_append, encodeLoop_cons, hrest, List.append_assoc]

theorem paddedBytes_cases (x : Bytes) :
    (∃ n, x.length = 3 * n) ∧ paddedBytes x = x ∨
    (∃ front a n, x = front ++ [a] ∧ front.length = 3 * n ∧
      paddedBytes x = front ++ [a, 0, 0]) ∨
    ∃ front a b n, x = front ++ [a, b] ∧ front.length = 3 * n ∧
      paddedBytes x = front ++ [a, b, 0] := by
  obtain ⟨front, hfront⟩ : ∃ front, front = x.take (x.length / 3 * 3) := ⟨_, rfl⟩
  obtain ⟨rest, hrest⟩ : ∃ rest, rest = x.drop (x.length / 3 * 3) := ⟨_, rfl⟩
  have hx : x = front ++ rest := by rw [hfront, hrest, List.take_append_drop]
  have hfrontLen : front.length = 3 * (x.length / 3) := by
    rw [hfront, List.length_take]
    omega
  have hrestLen : rest.length = x.length - x.length / 3 * 3 := by rw [hrest, List.length_drop]
  have hpadded : paddedBytes x = front ++
      if rest.length = 0 then [] else rest ++ List.replicate (3 - rest.length) 0 := by
    rw [paddedBytes, hrestLen, hfront, hrest]
  match rest, hrestLen, hx, hpadded with
  | [], hlen, hx, hpadded =>
    refine .inl ⟨⟨x.length / 3, ?_⟩, ?_⟩
    · rw [List.length_nil] at hlen
      omega
    · rw [hpadded, hx]
      rfl
  | [a], _, hx, hpadded => exact .inr (.inl ⟨front, a, _, hx, hfrontLen, hpadded⟩)
  | [a, b], _, hx, hpadded => exact .inr (.inr ⟨front, a, b, _, hx, hfrontLen, hpadded⟩)
  | _ :: _ :: _ :: _, hlen, _, _ =>
    simp only [List.length_cons] at hlen
    omega

def padCount (n : Nat) : Nat := (3 - n % 3) % 3

/-- What the encoder gives for a text that is not empty: a padded text that is read back with
its padding, and the same text with the padding cut off. -/
structure Encodes (context : Base64Context) (x text : Bytes) : Prop where
  padded : base64EncodeEx context x true = ⟨text, toInt32 text.length⟩
  reads : ∃ combined, decodeLoop context text ⟨0, 0, 0⟩ =
    (x ++ List.replicate (padCount x.length) 0, ⟨0, combined, padCount x.length⟩)
  length : text.length = (encodeLoop context (paddedBytes x) 0).length
  cutLen : (base64EncodeEx context x false).destLen =
    toInt32 (toInt32 text.length - padCount x.length)
  cut : (base64EncodeEx context x false).dest.take (text.length - padCount x.length) ++
    List.replicate (padCount x.length) context.padCh = text

theorem encodeEx_whole {x : Bytes} (hx : x ≠ []) {n : Nat} (hlen : x.length = 3 * n)
    (bPad : Bool) : base64EncodeEx context x bPad =
      ⟨encodeLoop context (paddedBytes x) 0, toInt32 (encodeLoop context (paddedBytes x) 0).length⟩ := by
  have hleft : x.length - x.length / 3 * 3 = 0 := by omega
  unfold base64EncodeEx
  rw [if_neg hx, hleft]
  rfl

theorem set_last (front : Bytes) (c₀ c₁ c₂ c₃ ch : UInt8) :
    (front ++ [c₀, c₁, c₂, c₃]).set ((front ++ [c₀, c₁, c₂, c₃]).length - 1) ch =
      front ++ [c₀, c₁, c₂, ch] := by
  have hpos : (front ++ [c₀, c₁, c₂, c₃]).length - 1 = front.length + 3 := by
    rw [List.length_append]
    rfl
  rw [hpos, List.set_append_right _ _ (Nat.le_add_right _ _), Nat.add_sub_cancel_left]
  rfl

theorem set_beforeLast (front : Bytes) (c₀ c₁ c₂ c₃ ch : UInt8) :
    (front ++ [c₀, c₁, c₂, c₃]).set ((front ++ [c₀, c₁, c₂, c₃]).length - 2) ch =
      front ++ [c₀, c₁, ch, c₃] := by
  have hpos : (front ++ [c₀, c₁, c₂, c₃]).length - 2 = front.length + 2 := by
    rw [List.length_append]
    rfl
  rw [hpos, List.set_append_right _ _ (Nat.le_add_right _ _), Nat.add_sub_cancel_left]
  rfl

theorem encodeEx_one {x front : Bytes} {n : Nat} (hlen : x.length = 3 * n + 1)
    {c₀ c₁ c₂ c₃ : UInt8}
    (hdest : encodeLoop context (paddedBytes x) 0 = front ++ [c₀, c₁, c₂, c₃]) :
    base64EncodeEx context x true =
      ⟨front ++ [c₀, c₁, context.padCh, context.padCh], toInt32 (front.length + 4 : Nat)⟩ ∧
    base64EncodeEx context x false =
      ⟨front ++ [c₀, c₁, 0, c₃], toInt32 (toInt32 (front.length + 4 : Nat) - (2 : Nat))⟩ := by
  have hx : x ≠ [] := List.ne_nil_of_length_pos (by omega)
  have hleft : x.length - x.length / 3 * 3 = 1 := by omega
  have htotal : (front ++ [c₀, c₁, c₂, c₃]).length = front.length + 4 := List.length_append
  have hsame : (front ++ [c₀, c₁, c₂, context.padCh]).length =
      (front ++ [c₀, c₁, c₂, c₃]).length := by rw [List.length_append, List.length_append]; rfl
  have hpad : ((front ++ [c₀, c₁, c₂, c₃]).set ((front ++ [c₀, c₁, c₂, c₃]).length - 1)
      context.padCh).set ((front ++ [c₀, c₁, c₂, c₃]).length - 2) context.padCh =
      front ++ [c₀, c₁, context.padCh, context.padCh] := by
    rw [set_last, ← hsame, set_beforeLast]
  unfold base64EncodeEx
  rw [if_neg hx, if_neg hx, hleft, hdest]
  dsimp only
  rw [if_pos rfl, if_neg Bool.false_ne_true, hpad, set_beforeLast, htotal]
  exact ⟨rfl, rfl⟩

theorem encodeEx_two {x front : Bytes} {n : Nat} (hlen : x.length = 3 * n + 2)
    {c₀ c₁ c₂ c₃ : UInt8}
    (hdest : encodeLoop context (paddedBytes x) 0 = front ++ [c₀, c₁, c₂, c₃]) :
    base64EncodeEx context x true =
      ⟨front ++ [c₀, c₁, c₂, context.padCh], toInt32 (front.length + 4 : Nat)⟩ ∧
    base64EncodeEx context x false =
      ⟨front ++ [c₀, c₁, c₂, 0], toInt32 (toInt32 (front.length + 4 : Nat) - (1 : Nat))⟩ := by
  have hx : x ≠ [] := List.ne_nil_of_length_pos (by omega)
  have hleft : x.length - x.length / 3 * 3 = 2 := by omega
  have htotal : (front ++ [c₀, c₁, c₂, c₃]).length = front.length + 4 := List.length_append
  unfold base64EncodeEx
  rw [if_neg hx, if_neg hx, hleft, hdest]
  dsimp only
  rw [if_pos rfl, if_neg Bool.false_ne_true, set_last, set_last, htotal]
  exact ⟨rfl, rfl⟩

theorem encodes_whole (hr : context.Reads) {x : Bytes} (hx : x ≠ []) {n : Nat}
    (hn : x.length = 3 * n) (hpadded : paddedBytes x = x) :
    Encodes context x (encodeLoop context (paddedBytes x) 0) := by
  have hcount : padCount x.length = 0 := by
    unfold padCount
    omega
  obtain ⟨combined, hreads⟩ := decodeLoop_encodeLoop hr hn 0 0 0
  refine ⟨encodeEx_whole hx hn true, ⟨combined, ?_⟩, rfl, ?_, ?_⟩
  · rw [hcount, hpadded, hreads, List.replicate_zero, List.append_nil]
  · rw [hcount, encodeEx_whole hx hn, Int.natCast_zero, Int.sub_zero, toInt32_toInt32]
  · rw [hcount, encodeEx_whole hx hn, Nat.sub_zero, List.take_length, List.replicate_zero,
      List.append_nil]

/-- A text that ends with a group with padding: `D` is what stands before the group, `group'`
the group without its padding. -/
theorem encodes_group (hr : context.Reads) {x front D group group' tail : Bytes} {n k : Nat}
    {linePos : Int} (hk : padCount x.length = k) (hn : front.length = 3 * n)
    (hD : D = encodeLoop context front 0 ++ breakBefore context linePos)
    (hlen : (encodeLoop context (paddedBytes x) 0).length = D.length + 4)
    (hgroup : group.length = 4) (hread : ∀ combined, ∃ combined',
      decodeLoop context group ⟨0, combined, 0⟩ = (tail, ⟨0, combined', 0 + k⟩))
    (htail : front ++ tail = x ++ List.replicate k 0)
    (hpad : base64EncodeEx context x true = ⟨D ++ group, toInt32 (D.length + 4 : Nat)⟩)
    (hcut : base64EncodeEx context x false =
      ⟨D ++ group', toInt32 (toInt32 (D.length + 4 : Nat) - k)⟩)
    (hgroup' : group'.take (4 - k) ++ List.replicate k context.padCh = group) :
    Encodes context x (D ++ group) := by
  have hcount : k ≤ 4 := by
    rw [← hk]
    unfold padCount
    omega
  have htotal : (D ++ group).length = D.length + 4 := by rw [List.length_append, hgroup]
  obtain ⟨combined, hfront⟩ := decodeLoop_encodeLoop hr hn 0 0 0
  obtain ⟨combined', hlast⟩ := hread combined
  refine ⟨?_, ⟨combined', ?_⟩, ?_, ?_, ?_⟩
  · rw [hpad, htotal]
  · rw [hk, decodeLoop_append, hD, decodeLoop_append, hfront, decodeLoop_breakBefore hr, hlast]
    rw [List.append_nil, htail, Nat.zero_add]
  · rw [hlen, htotal]
  · rw [hk, hcut, htotal]
  · have hsub : (D ++ group).length - k = D.length + (4 - k) := by omega
    rw [hk, hcut, hsub]
    rw [List.take_length_add_append, List.append_assoc, hgroup']

theorem encodes_one (hr : context.Reads) {front : Bytes} {a : UInt8} {n : Nat}
    (hn : front.length = 3 * n) (hpadded : paddedBytes (front ++ [a]) = front ++ [a, 0, 0]) :
    ∃ text, Encodes context (front ++ [a]) text := by
  have h0 : (0 : UInt8).toNat = 0 := rfl
  have hlen : (front ++ [a]).length = 3 * n + 1 := by
    rw [List.length_append, hn]
    rfl
  have hcount : padCount (front ++ [a]).length = 2 := by
    unfold padCount
    omega
  obtain ⟨linePos, hdest⟩ := encodeLoop_concat context hn a 0 0 0
  rw [← hpadded, encodeGroup_eq, h0, Nat.zero_div, Nat.add_zero] at hdest
  obtain ⟨hpad, hcut⟩ := encodeEx_one hlen hdest
  refine ⟨_, encodes_group hr hcount hn rfl ?_ rfl
    (fun combined => decodeLoop_oneByte hr a combined 0) ?_ hpad hcut rfl⟩
  · rw [hdest, List.length_append]
    rfl
  · rw [List.append_assoc]
    rfl

theorem encodes_two (hr : context.Reads) {front : Bytes} {a b : UInt8} {n : Nat}
    (hn : front.length = 3 * n) (hpadded : paddedBytes (front ++ [a, b]) = front ++ [a, b, 0]) :
    ∃ text, Encodes context (front ++ [a, b]) text := by
  have h0 : (0 : UInt8).toNat = 0 := rfl
  have hlen : (front ++ [a, b]).length = 3 * n + 2 := by
    rw [List.length_append, hn]
    rfl
  have hcount : padCount (front ++ [a, b]).length = 1 := by
    unfold padCount
    omega
  obtain ⟨linePos, hdest⟩ := encodeLoop_concat context hn a b 0 0
  rw [← hpadded, encodeGroup_eq, h0, Nat.zero_div, Nat.add_zero] at hdest
  obtain ⟨hpad, hcut⟩ := encodeEx_two hlen hdest
  refine ⟨_, encodes_group hr hcount hn rfl ?_ rfl
    (fun combined => decodeLoop_twoBytes hr a b combined 0) ?_ hpad hcut rfl⟩
  · rw [hdest, List.length_append]
    rfl
  · rw [List.append_assoc]
    rfl

theorem encodes (hr : context.Reads) {x : Bytes} (hx : x ≠ []) :
    ∃ text, Encodes context x text := by
  rcases paddedBytes_cases x with ⟨⟨n, hn⟩, hpadded⟩ | ⟨front, a, n, rfl, hn, hpadded⟩ |
    ⟨front, a, b, n, rfl, hn, hpadded⟩
  · exact ⟨_, encodes_whole hr hx hn hpadded⟩
  · exact encodes_one hr hn hpadded
  · exact encodes_two hr hn hpadded

end Texts

end FastDht
