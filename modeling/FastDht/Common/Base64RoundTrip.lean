import FastDht.Common.Base64

/-! # The round trip through base64

The lengths are C `int`s, so a text of 2^31 characters or more has a negative length for
the decoder. Below that the text is read back, and its length is the one that
`base64_get_encode_length` promises unless the sum in it overflows. -/
namespace FastDht

/-- `outputLength` before the lines are counted. -/
def groupsLength (n : Nat) : Nat := (n + 2) / 3 * 4

def encodedLength (nLineLength : Int) (n : Nat) : Nat :=
  if nLineLength = 0 then groupsLength n
  else groupsLength n + (groupsLength n - 1) / nLineLength.toNat

/-! ## Lengths -/

theorem paddedBytes_length (x : Bytes) : (paddedBytes x).length = 3 * ((x.length + 2) / 3) := by
  rcases paddedBytes_cases x with ⟨⟨n, hn⟩, hpadded⟩ | ⟨front, a, n, rfl, hn, hpadded⟩ |
    ⟨front, a, b, n, rfl, hn, hpadded⟩
  · rw [hpadded]
    omega
  · simp only [hpadded, List.length_append, hn, List.length_cons, List.length_nil]
    omega
  · simp only [hpadded, List.length_append, hn, List.length_cons, List.length_nil]
    omega

section Lengths

variable {context : Base64Context}

theorem encodeGroup_length (a b c : UInt8) : (encodeGroup context a b c).length = 4 := rfl

theorem encodeLoop_length_zero (hline : context.lineLength = 0) {n : Nat} {raw : Bytes}
    (hraw : raw.length = 3 * n) (linePos : Int) : (encodeLoop context raw linePos).length = 4 * n := by
  induction n generalizing raw linePos with
  | zero =>
    obtain rfl := List.length_eq_zero_iff.mp hraw
    rfl
  | succ n ih =>
    obtain ⟨a, b, c, raw, rfl, hlen⟩ := exists_group hraw
    have hbreak : breakBefore context linePos = [] := if_neg fun h => h.2 hline
    rw [encodeLoop_cons, hbreak, List.nil_append, List.length_append, encodeGroup_length,
      ih hlen]
    omega

variable (context) in
/-- The separators are counted by the groups: `j` groups stand on the line so far, and a line
takes `m`. -/
theorem encodeLoop_length_lines {m : Nat} (hm : 0 < m) (hline : context.lineLength = 4 * m)
    (hsep : context.lineSeparator.length = 1) {n j : Nat} {raw : Bytes}
    (hraw : raw.length = 3 * n) (hj : j ≤ m) :
    (encodeLoop context raw (4 * j)).length = 4 * n + if n = 0 then 0 else (j + n - 1) / m := by
  induction n generalizing raw j with
  | zero =>
    obtain rfl := List.length_eq_zero_iff.mp hraw
    rfl
  | succ n ih =>
    obtain ⟨a, b, c, raw, rfl, hlen⟩ := exists_group hraw
    rw [encodeLoop_cons, List.length_append, List.length_append, encodeGroup_length,
      if_neg (Nat.succ_ne_zero n)]
    unfold breakBefore
    by_cases hfull : j = m
    · -- the line is full
      have hnext := ih hlen (show 1 ≤ m by omega)
      have hfour : (4 * (1 : Nat) : Int) = 4 := rfl
      rw [hfour] at hnext
      rw [if_pos ⟨by omega, by omega⟩, if_pos (by omega), hsep, hnext, hfull]
      have hdiv : (m + (n + 1) - 1) / m = 1 + n / m := by
        rw [show m + (n + 1) - 1 = n + m by omega, Nat.add_div_right _ hm, Nat.add_comm]
      have hrest : (if n = 0 then 0 else (1 + n - 1) / m) = n / m := by
        split_ifs with h0
        · rw [h0, Nat.zero_div]
        · rw [Nat.add_sub_cancel_left]
      omega
    · have hnext := ih hlen (show j + 1 ≤ m by omega)
      have hpos : (4 * (j + 1 : Nat) : Int) = 4 * j + 4 := by omega
      rw [hpos] at hnext
      rw [if_neg fun h => by omega, if_neg (by omega), hnext]
      have hrest : (if n = 0 then 0 else (j + 1 + n - 1) / m) = (j + (n + 1) - 1) / m := by
        split_ifs with h0
        · rw [h0, Nat.zero_add, Nat.add_sub_cancel, Nat.div_eq_of_lt (by omega)]
        · rw [show j + 1 + n - 1 = j + (n + 1) - 1 by omega]
      rw [hrest, List.length_nil]
      omega

end Lengths

def LineLength (nLineLength : Int) : Prop :=
  nLineLength = 0 ∨ ∃ m : Nat, 0 < m ∧ nLineLength = 4 * m

theorem groups_div {g m : Nat} (hg : 0 < g) : (4 * g - 1) / (4 * m) = (g - 1) / m := by
  rw [← Nat.div_div_eq_div_mul, show (4 * g - 1) / 4 = g - 1 by omega]

theorem encodeLoop_length {nLineLength : Int} (hline : LineLength nLineLength)
    (chPlus chSplash chPad : UInt8) (x : Bytes) :
    (encodeLoop (base64InitEx nLineLength chPlus chSplash chPad) (paddedBytes x) 0).length =
      encodedLength nLineLength x.length := by
  have hlen := paddedBytes_length x
  unfold encodedLength groupsLength
  rcases hline with h0 | ⟨m, hm, hL⟩
  · rw [encodeLoop_length_zero h0 hlen, if_pos h0, Nat.mul_comm]
  · have hloop := encodeLoop_length_lines (base64InitEx nLineLength chPlus chSplash chPad) hm hL
      rfl hlen (Nat.zero_le m)
    rw [Int.natCast_zero, Int.mul_zero] at hloop
    have hnat : nLineLength.toNat = 4 * m := by omega
    have hne : nLineLength ≠ 0 := by omega
    rw [hloop, if_neg hne, hnat]
    by_cases hg : (x.length + 2) / 3 = 0
    · rw [hg, if_pos rfl, Nat.zero_mul, Nat.zero_sub, Nat.zero_div]
    · rw [if_neg hg, Nat.mul_comm _ 4, groups_div (Nat.pos_of_ne_zero hg), Nat.zero_add]

/-! ## The three results -/

section Results

variable {nLineLength : Int} {chPlus chSplash chPad : UInt8} {x text : Bytes}

theorem encodedLength_lt (hline : LineLength nLineLength) {n : Nat} (hn : n < 2 ^ 31) :
    encodedLength nLineLength n < 2 ^ 32 := by
  have hgroups : groupsLength n = (n + 2) / 3 * 4 := rfl
  unfold encodedLength
  rcases hline with h0 | ⟨m, hm, hL⟩
  · rw [if_pos h0]
    omega
  · have hdiv : (groupsLength n - 1) / nLineLength.toNat ≤ (groupsLength n - 1) / 4 :=
      Nat.div_le_div_left (by omega) (by decide)
    rw [if_neg (by omega)]
    omega

theorem Encodes.decode {context : Base64Context} (h : Encodes context x text) {nSrcLen : Int}
    (hlen : nSrcLen = text.length) : base64Decode context text nSrcLen = x := by
  obtain ⟨combined, hreads⟩ := h.reads
  unfold base64Decode
  rw [hlen, Int.toNat_natCast, List.take_length, hreads]
  rw [if_neg (not_not.mpr rfl), List.length_append, List.length_replicate, Nat.add_sub_cancel,
    List.take_left]

theorem base64Decode_negative {context : Base64Context} (src : Bytes) {nSrcLen : Int}
    (h : nSrcLen < 0) : base64Decode context src nSrcLen = [] := by
  unfold base64Decode
  rw [Int.toNat_of_nonpos h.le, List.take_zero]
  rfl

/-- The text is read back exactly if its length is an `int`. -/
theorem decode_encode_iff (hvalid : Base64Valid chPlus chSplash chPad)
    (hline : LineLength nLineLength) (hx : x.length < 2 ^ 31) (hne : x ≠ []) :
    base64Decode (base64InitEx nLineLength chPlus chSplash chPad)
      (base64EncodeEx (base64InitEx nLineLength chPlus chSplash chPad) x true).dest
      (base64EncodeEx (base64InitEx nLineLength chPlus chSplash chPad) x true).destLen = x ↔
    encodedLength nLineLength x.length < 2 ^ 31 := by
  obtain ⟨text, htext⟩ := encodes (hvalid.reads nLineLength) hne
  have hlen := htext.length
  rw [encodeLoop_length hline] at hlen
  have hlt := encodedLength_lt hline hx
  rw [htext.padded, ← hlen]
  by_cases hint : text.length < 2 ^ 31
  · exact iff_of_true (htext.decode (toInt32_of_range (by omega) (by omega))) hint
  · have hneg : toInt32 text.length < 0 := by
      have hwrap : toInt32 text.length = toInt32 (text.length - 2 ^ 32) :=
        toInt32_congr (q := 1) (by omega)
      rw [hwrap, toInt32_of_range (by omega) (by omega)]
      omega
    rw [base64Decode_negative _ hneg]
    exact iff_of_false hne.symm hint

theorem groupsLength_le (nLineLength : Int) (n : Nat) :
    groupsLength n ≤ encodedLength nLineLength n := by
  unfold encodedLength
  split_ifs
  · exact le_rfl
  · exact Nat.le_add_right _ _

theorem outputLength_eq {n : Nat} (h : groupsLength n < 2 ^ 31) :
    toInt32 ((toInt32 (n + 2)).tdiv 3 * 4) = groupsLength n := by
  unfold groupsLength at h ⊢
  have hsum : toInt32 ((n : Int) + 2) = (n + 2 : Nat) := toInt32_of_range (by omega) (by omega)
  have hdiv : ((n + 2 : Nat) : Int).tdiv 3 = ((n + 2) / 3 : Nat) := rfl
  rw [hsum, hdiv, toInt32_of_range (by omega) (by omega)]
  omega

theorem lines_eq {g l : Nat} (hl : 0 < l) (hg : 0 < g) (hfits : g + l ≤ 2 ^ 31) :
    (toInt32 ((g : Int) + l - 1)).tdiv l - 1 = ((g - 1) / l : Nat) := by
  have hsum : (g : Int) + l - 1 = (g - 1 + l : Nat) := by omega
  have hdiv : ((g - 1 + l : Nat) : Int).tdiv l = ((g - 1 + l) / l : Nat) := rfl
  rw [hsum, toInt32_of_range (by omega) (by omega), hdiv, Nat.add_div_right _ hl]
  omega

theorem lines_negative {g l : Nat} (hg : g < 2 ^ 31) (hl : l < 2 ^ 31)
    (hover : 2 ^ 31 < g + l) : (toInt32 ((g : Int) + l - 1)).tdiv l - 1 < 0 := by
  have hwrap : toInt32 ((g : Int) + l - 1) = toInt32 ((g : Int) + l - 1 - 2 ^ 32) :=
    toInt32_congr (q := 1) (by omega)
  have hneg : toInt32 ((g : Int) + l - 1 - 2 ^ 32) < 0 := by
    rw [toInt32_of_range (by omega) (by omega)]
    omega
  have hdiv : 0 ≤ (-toInt32 ((g : Int) + l - 1 - 2 ^ 32)).tdiv l :=
    Int.tdiv_nonneg (by omega) (Int.natCast_nonneg l)
  rw [Int.neg_tdiv] at hdiv
  rw [hwrap]
  omega

/-- The promised length, as long as the text has a length at all. -/
theorem encode_length_iff (context : Base64Context) (hline : LineLength context.lineLength)
    (hsep : context.lineSeparator.length = 1) (hlineInt : context.lineLength < 2 ^ 31)
    {n : Nat} (hint : encodedLength context.lineLength n < 2 ^ 31) :
    (encodedLength context.lineLength n : Int) = base64GetEncodeLength context n ↔
    context.lineLength = 0 ∨ groupsLength n ≤ context.lineLength ∨
      groupsLength n + context.lineLength ≤ 2 ^ 31 := by
  have hgroups := (groupsLength_le context.lineLength n).trans_lt hint
  unfold base64GetEncodeLength
  rw [outputLength_eq hgroups, hsep]
  unfold encodedLength at hint ⊢
  dsimp only
  generalize context.lineLength = nLineLength at *
  rcases hline with h0 | ⟨m, hm, hL⟩
  · rw [if_pos h0, if_neg (not_not.mpr h0)]
    exact iff_of_true rfl (.inl h0)
  · obtain ⟨l, rfl⟩ : ∃ l : Nat, nLineLength = l := ⟨4 * m, by omega⟩
    have hne : (l : Int) ≠ 0 := by omega
    rw [if_neg hne, Int.toNat_natCast] at hint
    rw [if_neg hne, if_pos hne, Int.toNat_natCast, Int.natCast_one, Int.mul_one]
    by_cases hzero : groupsLength n = 0
    · have hlines : (toInt32 ((groupsLength n : Int) + l - 1)).tdiv l - 1 < 0 := by
        rw [hzero, Int.natCast_zero, Int.zero_add, toInt32_of_range (by omega) (by omega),
          Int.tdiv_eq_zero_of_lt (by omega) (by omega)]
        decide
      rw [if_neg (not_lt.mpr hlines.le), hzero, Nat.zero_sub, Nat.zero_div]
      exact iff_of_true rfl (.inr (.inl (by omega)))
    · by_cases hfits : groupsLength n + l ≤ 2 ^ 31
      · rw [lines_eq (by omega) (by omega) hfits]
        refine iff_of_true ?_ (.inr (.inr (by omega)))
        generalize (groupsLength n - 1) / l = lines at hint ⊢
        split_ifs with hpos
        · rw [toInt32_of_range (by omega) (by omega)]
          omega
        · omega
      · have hlines := lines_negative hgroups (show l < 2 ^ 31 by omega) (by omega)
        have hdiv : (groupsLength n - 1) / l = 0 ↔ groupsLength n ≤ l := by
          rw [Nat.div_eq_zero_iff]
          omega
        omega

theorem decodeAuto_encode_iff (hvalid : Base64Valid chPlus chSplash chPad)
    (hne : x ≠ []) (hint : groupsLength x.length < 2 ^ 31) (malloc : Bool) :
    base64DecodeAuto (base64InitEx 0 chPlus chSplash chPad) malloc
      (base64EncodeEx (base64InitEx 0 chPlus chSplash chPad) x false).dest
      (base64EncodeEx (base64InitEx 0 chPlus chSplash chPad) x false).destLen = x ↔
    x.length % 3 = 0 ∨ groupsLength x.length ≤ 256 ∨ malloc = true := by
  obtain ⟨text, htext⟩ := encodes (hvalid.reads 0) hne
  have hlen := htext.length
  rw [encodeLoop_length (.inl rfl)] at hlen
  have hgroups : encodedLength 0 x.length = groupsLength x.length := rfl
  rw [hgroups] at hlen
  have hcut := htext.cut
  have hlt : padCount x.length ≤ text.length := by
    unfold groupsLength at hlen
    unfold padCount
    omega
  have hdestLen : (base64EncodeEx (base64InitEx 0 chPlus chSplash chPad) x false).destLen =
      (text.length - padCount x.length : Nat) := by
    rw [htext.cutLen, toInt32_of_range (n := text.length) (by omega) (by omega),
      toInt32_of_range (by omega) (by omega)]
    omega
  have hcopy : (base64EncodeEx (base64InitEx 0 chPlus chSplash chPad) x false).dest.take
      ((text.length - padCount x.length : Nat) : Int).toNat ++
      List.replicate (padCount x.length) chPad = text := by
    exact hcut
  unfold base64DecodeAuto
  rw [hdestLen]
  by_cases hwhole : x.length % 3 = 0
  · have hcount : padCount x.length = 0 := by
      unfold padCount
      omega
    have hrest : ((text.length - padCount x.length : Nat) : Int).tmod 4 = 0 := by
      rw [hcount, hlen, groupsLength, Int.tmod_eq_emod_of_nonneg (Int.natCast_nonneg _)]
      omega
    rw [hcount, List.replicate_zero, List.append_nil] at hcopy
    refine iff_of_true ?_ (.inl hwhole)
    rw [if_pos hrest]
    have hdecode := htext.decode rfl
    unfold base64Decode at hdecode ⊢
    rw [Int.toNat_natCast, List.take_length] at hdecode
    rw [hcount, hcopy]
    exact hdecode
  · have hcount : padCount x.length = 3 - x.length % 3 := by
      unfold padCount
      omega
    have hrest : ((text.length - padCount x.length : Nat) : Int).tmod 4 =
        4 - padCount x.length := by
      rw [Int.tmod_eq_emod_of_nonneg (Int.natCast_nonneg _)]
      unfold groupsLength at hlen
      omega
    have hnew : toInt32 ((text.length - padCount x.length : Nat) +
        (4 - (4 - padCount x.length : Int))) = text.length := by
      rw [toInt32_of_range (by omega) (by omega)]
      omega
    have hpads : (4 - (4 - padCount x.length : Int)).toNat = padCount x.length := by omega
    dsimp only
    rw [hrest, if_neg (by omega), hnew, hpads]
    have hpadCh : (base64InitEx 0 chPlus chSplash chPad).padCh = chPad := rfl
    rw [hpadCh, hcopy, htext.decode rfl]
    by_cases hfail : ((text.length : Int) < 0 ∨ 256 < (text.length : Int)) ∧ malloc = false
    · rw [if_pos hfail]
      refine iff_of_false hne.symm ?_
      rintro (h | h | h)
      · exact hwhole h
      · omega
      · exact Bool.false_ne_true (hfail.2.symm.trans h)
    · rw [if_neg hfail]
      refine iff_of_true rfl (.inr ?_)
      by_cases hshort : groupsLength x.length ≤ 256
      · exact .inl hshort
      · refine .inr ?_
        by_contra hmalloc
        exact hfail ⟨.inr (by omega), Bool.eq_false_of_not_eq_true hmalloc⟩

end Results

/-! ## The round trip -/

/-- A text goes through base64 and back, with and without its padding, and has the promised
length. -/
structure Base64RoundTrips (context : Base64Context) (malloc : Bool) (x : Bytes) : Prop where
  decode : base64Decode context (base64EncodeEx context x true).dest
    (base64EncodeEx context x true).destLen = x
  length : (base64EncodeEx context x true).destLen = base64GetEncodeLength context x.length
  auto : context.lineLength = 0 → base64DecodeAuto context malloc
    (base64EncodeEx context x false).dest (base64EncodeEx context x false).destLen = x

/-- The length of the text is an `int`, and so is the sum by which the lines are counted, or
there is only one line; the copy for a text without padding is short or can be allocated. -/
def Base64Fits (nLineLength : Int) (malloc : Bool) (n : Nat) : Prop :=
  encodedLength nLineLength n < 2 ^ 31 ∧
    (nLineLength = 0 ∨ groupsLength n ≤ nLineLength ∨ groupsLength n + nLineLength ≤ 2 ^ 31) ∧
    (nLineLength = 0 → n % 3 = 0 ∨ groupsLength n ≤ 256 ∨ malloc = true)

theorem encodedLength_zero (nLineLength : Int) : encodedLength nLineLength 0 = 0 := by
  unfold encodedLength groupsLength
  simp

/-- **Base64 texts are read back, and have the promised length, exactly if the lengths fit.** -/
theorem base64_round_trip_iff {chPlus chSplash chPad : UInt8}
    (hvalid : Base64Valid chPlus chSplash chPad) {nLineLength : Int}
    (hline : LineLength nLineLength) (hlineInt : nLineLength < 2 ^ 31) (malloc : Bool) (x : Bytes)
    (hx : x.length < 2 ^ 31) :
    Base64RoundTrips (base64InitEx nLineLength chPlus chSplash chPad) malloc x ↔
      Base64Fits nLineLength malloc x.length := by
  have hlength := encode_length_iff (base64InitEx nLineLength chPlus chSplash chPad) hline rfl
    hlineInt (n := x.length)
  by_cases hne : x = []
  · subst hne
    have hzero := encodedLength_zero nLineLength
    have hfits : Base64Fits nLineLength malloc 0 := by
      refine ⟨by rw [hzero]; decide, .inr (.inl ?_), fun _ => .inl rfl⟩
      have hgroups : groupsLength 0 = 0 := rfl
      rcases hline with h0 | ⟨m, hm, hL⟩ <;> omega
    refine iff_of_true ⟨rfl, ?_, fun _ => rfl⟩ hfits
    have heq := (hlength hfits.1).mpr hfits.2.1
    change (encodedLength nLineLength 0 : Int) = _ at heq
    rw [hzero] at heq
    exact heq
  · have hdecode := decode_encode_iff hvalid hline hx hne
    have hdestLen : encodedLength nLineLength x.length < 2 ^ 31 →
        (base64EncodeEx (base64InitEx nLineLength chPlus chSplash chPad) x true).destLen =
          encodedLength nLineLength x.length := by
      intro hint
      obtain ⟨text, htext⟩ := encodes (hvalid.reads nLineLength) hne
      have hlen := htext.length
      rw [encodeLoop_length hline] at hlen
      rw [htext.padded]
      rw [hlen, toInt32_of_range (by omega) (by omega)]
    constructor
    · intro h
      have hint := hdecode.mp h.decode
      have hsame := h.length
      rw [hdestLen hint] at hsame
      refine ⟨hint, (hlength hint).mp hsame, fun h0 => ?_⟩
      subst h0
      exact (decodeAuto_encode_iff hvalid hne ((groupsLength_le 0 _).trans_lt hint) malloc).mp
        (h.auto rfl)
    · rintro ⟨hint, hlines, hmalloc⟩
      refine ⟨hdecode.mpr hint, ?_, fun h0 => ?_⟩
      · rw [hdestLen hint]
        exact (hlength hint).mpr hlines
      · replace h0 : nLineLength = 0 := h0
        subst h0
        exact (decodeAuto_encode_iff hvalid hne ((groupsLength_le 0 _).trans_lt hint) malloc).mpr
          (hmalloc rfl)

theorem standard_valid : Base64Valid 43 47 61 := by
  refine ⟨⟨?_, ?_⟩, ⟨?_, ?_⟩, ⟨?_, ?_⟩, ?_, ?_, ?_⟩ <;> decide +kernel

theorem base64_round_trip_two_lines :
    Base64RoundTrips (base64InitEx 4 43 47 61) true [102, 100, 104, 116] :=
  (base64_round_trip_iff standard_valid (.inr ⟨1, Nat.one_pos, rfl⟩) (by decide) true _
    (by decide)).mpr ⟨by decide, .inr (.inr (by decide)), fun h => absurd h (by decide)⟩

/-- 1.5 GiB of zero bytes: the text has 2^31 characters. -/
theorem base64_too_long : ¬ Base64RoundTrips (base64InitEx 0 43 47 61) true
    (List.replicate 1610612736 0) := by
  intro h
  have hne : List.replicate 1610612736 (0 : UInt8) ≠ [] := by
    decide
  have hlen : (List.replicate 1610612736 (0 : UInt8)).length = 1610612736 := List.length_replicate
  have hint := (decode_encode_iff standard_valid (.inl rfl) (by rw [hlen]; decide) hne).mp h.decode
  rw [hlen] at hint
  exact absurd hint (by decide)

end FastDht
