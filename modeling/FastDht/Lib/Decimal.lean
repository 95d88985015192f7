import Mathlib.Data.Nat.Digits.Defs
import Mathlib.Data.List.TakeWhile

/-! # Decimal integers as C prints and scans them

`printInt w` is the conversion `%wd` of `printf` and `scanInt w` that of
`scanf`, both over bytes. A number whose text fits its field is scanned back
exactly, and the field then has the width asked for. -/
namespace FastDht.Lib

variable {n : Int} {b : UInt8} {w : Nat}

def isDigit (b : UInt8) : Bool := 48 ≤ b && b ≤ 57

def isSpace (b : UInt8) : Bool := b = 32 || (9 ≤ b && b ≤ 13)

def decimal (n : Nat) : List UInt8 := (Nat.toDigits 10 n).map fun c => c.toNat.toUInt8

/-- The text of `%d`. -/
def formatInt (n : Int) : List UInt8 :=
  if n < 0 then 45 :: decimal n.natAbs else decimal n.natAbs

/-- The text of `%wd`: blanks on the left up to width `w`. -/
def printInt (w : Nat) (n : Int) : List UInt8 :=
  List.replicate (w - (formatInt n).length) 32 ++ formatInt n

def digitsValue (l : List UInt8) : Nat := l.foldl (fun n b => 10 * n + (b.toNat - 48)) 0

/-- A sign, if there is one, and what follows it. -/
def scanSign : List UInt8 → Bool × List UInt8
  | [] => (false, [])
  | b :: s => if b = 45 then (true, s) else if b = 43 then (false, s) else (false, b :: s)

/-- The conversion `%wd`: white space, then a number of at most `w` characters,
its sign included. -/
def scanInt (w : Nat) (s : List UInt8) : Option (Int × List UInt8) :=
  let text := s.dropWhile isSpace
  let (neg, rest) := scanSign text
  let digits := (rest.take (w - (text.length - rest.length))).takeWhile isDigit
  if digits = [] then none
  else some (if neg then -(digitsValue digits : Int) else digitsValue digits,
    rest.drop digits.length)

/-- The directive ` %c`: white space, then any character. -/
def scanChar (s : List UInt8) : Option (UInt8 × List UInt8) :=
  match s.dropWhile isSpace with
  | [] => none
  | b :: rest => some (b, rest)

/-- `strtoll(s, NULL, 10)`, which stops at the first byte that is no digit and
saturates. -/
def strtoll (s : List UInt8) : Int :=
  match scanInt s.length s with
  | none => 0
  | some (n, _) => max (-2 ^ 63) (min n (2 ^ 63 - 1))

theorem digitChar_toNat {n : Nat} {c : Char} (hc : c ∈ Nat.toDigits 10 n) :
    48 ≤ c.toNat ∧ c.toNat ≤ 57 := by
  have h := Nat.isDigit_of_mem_toDigits (by decide) (by decide) hc
  simp only [Char.isDigit, Bool.and_eq_true, decide_eq_true_eq] at h
  exact ⟨h.1, h.2⟩

theorem isDigit_of_mem_decimal {n : Nat} (hb : b ∈ decimal n) : isDigit b = true := by
  obtain ⟨c, hc, rfl⟩ := List.mem_map.mp hb
  obtain ⟨h1, h2⟩ := digitChar_toNat hc
  simp only [isDigit, Bool.and_eq_true, decide_eq_true_eq, UInt8.le_iff_toNat_le]
  simp
  omega

theorem digitsValue_decimal (n : Nat) : digitsValue (decimal n) = n := by
  have key : ∀ (l : List Char), (∀ c ∈ l, 48 ≤ c.toNat ∧ c.toNat ≤ 57) → ∀ init : Nat,
      (l.map fun c => c.toNat.toUInt8).foldl (fun n b => 10 * n + (b.toNat - 48)) init =
        Nat.ofDigitChars 10 l init := by
    intro l
    induction l with
    | nil => intro _ init; rfl
    | cons c l ih =>
      intro hl init
      obtain ⟨h1, h2⟩ := hl c (by simp)
      have hc : c.toNat.toUInt8.toNat = c.toNat := by simp; omega
      rw [List.map_cons, List.foldl_cons, hc, ih (fun d hd => hl d (by simp [hd]))]
      rfl
  rw [digitsValue, decimal, key _ (fun c hc => digitChar_toNat hc) 0,
    Nat.ofDigitChars_toDigits (by decide) (by decide)]

theorem decimal_ne_nil (n : Nat) : decimal n ≠ [] := by
  have hpos : 0 < (Nat.toDigits 10 n).length := Nat.length_toDigits_pos
  rw [decimal, Ne, List.map_eq_nil_iff]
  exact List.ne_nil_of_length_pos hpos

theorem decimal_length_le {n : Nat} (hw : 0 < w) : (decimal n).length ≤ w ↔ n < 10 ^ w := by
  rw [decimal, List.length_map, Nat.length_toDigits_le_iff (by decide) hw]

theorem formatInt_length_le (hw : 1 < w) :
    (formatInt n).length ≤ w ↔ -10 ^ (w - 1) < n ∧ n < 10 ^ w := by
  have hpos : (0 : Int) < 10 ^ w := by positivity
  have hpos' : (0 : Int) < 10 ^ (w - 1) := by positivity
  unfold formatInt
  split
  · have h := decimal_length_le (n := n.natAbs) (w := w - 1) (by omega)
    have hcast : n.natAbs < 10 ^ (w - 1) ↔ (n.natAbs : Int) < 10 ^ (w - 1) := by norm_cast
    simp only [List.length_cons]
    omega
  · have h := decimal_length_le (n := n.natAbs) (w := w) (by omega)
    have hcast : n.natAbs < 10 ^ w ↔ (n.natAbs : Int) < 10 ^ w := by norm_cast
    omega

theorem formatInt_length_int64 (hl : -2 ^ 63 ≤ n) (hu : n < 2 ^ 63) :
    (formatInt n).length ≤ 20 := by
  rw [formatInt_length_le (by decide)]
  omega

theorem printInt_length (w : Nat) (n : Int) :
    (printInt w n).length = max w (formatInt n).length := by
  simp only [printInt, List.length_append, List.length_replicate]
  omega

theorem dropWhile_space (k : Nat) {s : List UInt8} (hs : s.head?.any isSpace = false) :
    (List.replicate k 32 ++ s).dropWhile isSpace = s := by
  rw [List.dropWhile_append_of_pos (by simp [isSpace])]
  cases s with
  | nil => rfl
  | cons b s => simpa using hs

theorem takeWhile_digits {ds rest : List UInt8} (hds : ∀ b ∈ ds, isDigit b = true)
    (hw : ds.length ≤ w) (hrest : rest.head?.any isDigit = false) :
    ((ds ++ rest).take w).takeWhile isDigit = ds := by
  rw [List.take_append, List.take_of_length_le hw, List.takeWhile_append_of_pos hds]
  cases hr : rest.take (w - ds.length) with
  | nil => simp
  | cons b t =>
    have hb : rest.head? = some b := by
      cases rest with
      | nil => simp at hr
      | cons c rest =>
        cases hk : w - ds.length with
        | zero => simp [hk] at hr
        | succ k => rw [hk, List.take_succ_cons] at hr; simpa using (List.cons.inj hr).1
    rw [hb] at hrest
    simp [show isDigit b = false by simpa using hrest]

theorem isDigit_head_decimal (n : Nat) : ∃ b t, decimal n = b :: t ∧ isDigit b = true := by
  cases h : decimal n with
  | nil => exact absurd h (decimal_ne_nil n)
  | cons b t => exact ⟨b, t, rfl, isDigit_of_mem_decimal (n := n) (by simp [h])⟩

theorem scanSign_digit (hb : isDigit b = true) (t : List UInt8) :
    scanSign (b :: t) = (false, b :: t) := by
  have h1 : b ≠ 45 := by rintro rfl; exact absurd hb (by decide)
  have h2 : b ≠ 43 := by rintro rfl; exact absurd hb (by decide)
  simp [scanSign, h1, h2]

theorem isSpace_digit (hb : isDigit b = true) : isSpace b = false := by
  simp only [isDigit, isSpace, Bool.and_eq_true, decide_eq_true_eq, UInt8.le_iff_toNat_le,
    Bool.or_eq_false_iff, decide_eq_false_iff_not, Bool.and_eq_false_iff] at hb ⊢
  refine ⟨?_, ?_⟩
  · rintro rfl; exact absurd hb.1 (by decide)
  · right
    have := hb.1
    simp at this ⊢
    omega

/-- **A number that fits its field is read back**, blanks before it skipped and
what follows it left alone. -/
theorem scanInt_printInt {rest : List UInt8}
    (hw : (formatInt n).length ≤ w) (hrest : rest.head?.any isDigit = false) :
    scanInt w (printInt w n ++ rest) = some (n, rest) := by
  obtain ⟨b, t, hdec, hb⟩ := isDigit_head_decimal n.natAbs
  have hdigits : ∀ c ∈ b :: t, isDigit c = true := fun c hc =>
    isDigit_of_mem_decimal (n := n.natAbs) (by rw [hdec]; exact hc)
  have hvalue : digitsValue (b :: t) = n.natAbs := by rw [← hdec, digitsValue_decimal]
  unfold formatInt at hw
  unfold scanInt printInt formatInt
  rw [hdec] at hw ⊢
  rw [List.append_assoc]
  by_cases hn : n < 0
  · rw [if_pos hn] at hw ⊢
    rw [dropWhile_space _ (by simp [isSpace])]
    have hsign : scanSign (45 :: b :: t ++ rest) = (true, b :: t ++ rest) := rfl
    simp only [hsign]
    rw [takeWhile_digits hdigits (by simp at hw ⊢; omega) hrest, hvalue,
      if_neg (List.cons_ne_nil b t), List.drop_left, if_pos trivial, Int.ofNat_natAbs_of_nonpos hn.le,
      neg_neg]
  · rw [if_neg hn] at hw ⊢
    rw [dropWhile_space _ (by simp [isSpace_digit hb])]
    have hsign : scanSign (b :: t ++ rest) = (false, b :: t ++ rest) := scanSign_digit hb _
    simp only [hsign]
    rw [takeWhile_digits hdigits (by simp at hw ⊢; omega) hrest, hvalue,
      if_neg (List.cons_ne_nil b t), List.drop_left, if_neg Bool.false_ne_true,
      Int.natAbs_of_nonneg (not_lt.mp hn)]

@[simp] theorem scanInt_blank (w : Nat) (s : List UInt8) : scanInt w (32 :: s) = scanInt w s := rfl

theorem scanInt_formatInt {rest : List UInt8}
    (hw : (formatInt n).length ≤ w) (hrest : rest.head?.any isDigit = false) :
    scanInt w (formatInt n ++ rest) = some (n, rest) := by
  have hblanks : ∀ (k : Nat) (s : List UInt8), scanInt w (List.replicate k 32 ++ s) = scanInt w s := by
    intro k s
    induction k with
    | zero => rfl
    | succ k ih => rw [List.replicate_succ, List.cons_append, scanInt_blank, ih]
  have hprint := scanInt_printInt hw hrest
  rwa [printInt, List.append_assoc, hblanks] at hprint

theorem scanChar_blank (hb : isSpace b = false) (rest : List UInt8) :
    scanChar (32 :: b :: rest) = some (b, rest) := by
  have hdrop : (32 :: b :: rest).dropWhile isSpace = b :: rest := by
    simp [hb, show isSpace 32 = true from rfl]
  simp only [scanChar, hdrop]

theorem zero_not_mem_printInt (w : Nat) (n : Int) : (0 : UInt8) ∉ printInt w n := by
  have hdec : (0 : UInt8) ∉ decimal n.natAbs := fun h =>
    absurd (isDigit_of_mem_decimal h) (by decide)
  unfold printInt formatInt
  split <;> simp [hdec, List.mem_replicate]

/-! ## Numbers that are cut off -/

theorem digitsValue_append (a b : List UInt8) :
    digitsValue (a ++ b) = 10 ^ b.length * digitsValue a + digitsValue b := by
  have key : ∀ (l : List UInt8) (n : Nat), l.foldl (fun n b => 10 * n + (b.toNat - 48)) n =
      10 ^ l.length * n + digitsValue l := by
    intro l
    induction l with
    | nil => intro n; simp [digitsValue]
    | cons c l ih =>
      intro n
      unfold digitsValue
      rw [List.foldl_cons, List.foldl_cons, ih, ih, List.length_cons, pow_succ]
      ring
  rw [digitsValue, List.foldl_append, key]
  rfl

theorem digitsValue_take_decimal (n k : Nat) :
    digitsValue ((decimal n).take k) ≤ n ∧
      (digitsValue ((decimal n).take k) = n ↔ n = 0 ∨ (decimal n).length ≤ k) := by
  have hvalue : 10 ^ ((decimal n).drop k).length * digitsValue ((decimal n).take k) +
      digitsValue ((decimal n).drop k) = n := by
    rw [← digitsValue_append, List.take_append_drop, digitsValue_decimal]
  have hpos : 1 ≤ 10 ^ ((decimal n).drop k).length := Nat.one_le_pow _ _ (by decide)
  refine ⟨?_, ?_, ?_⟩
  · nlinarith
  · intro h
    by_contra hcut
    rw [not_or, not_le] at hcut
    have hlong : 10 ≤ 10 ^ ((decimal n).drop k).length :=
      Nat.le_self_pow (by rw [List.length_drop]; omega) 10
    nlinarith [Nat.pos_of_ne_zero hcut.1]
  · rintro (rfl | h)
    · have hle : digitsValue ((decimal 0).take k) ≤ 0 := by nlinarith
      omega
    · rw [List.take_of_length_le h, digitsValue_decimal]

theorem takeWhile_all_digits {ds : List UInt8} (hds : ∀ b ∈ ds, isDigit b = true) :
    (ds.take ds.length).takeWhile isDigit = ds := by
  rw [List.take_length, List.takeWhile_eq_self_iff.mpr hds]

theorem strtoll_digits {ds : List UInt8} (hds : ∀ b ∈ ds, isDigit b = true) :
    strtoll ds = min (digitsValue ds : Int) (2 ^ 63 - 1) := by
  cases ds with
  | nil => rfl
  | cons b t =>
    have hb := hds b (List.mem_cons_self ..)
    have hspace : (b :: t).dropWhile isSpace = b :: t :=
      List.dropWhile_cons_of_neg (by simp [isSpace_digit hb])
    have hall := takeWhile_all_digits hds
    unfold strtoll scanInt
    simp only [hspace, scanSign_digit hb, Nat.sub_self, Nat.sub_zero, hall,
      if_neg (List.cons_ne_nil b t), if_neg Bool.false_ne_true]
    omega

theorem strtoll_neg_digits {ds : List UInt8} (hds : ∀ b ∈ ds, isDigit b = true) :
    strtoll (45 :: ds) = max (-2 ^ 63) (-(digitsValue ds : Int)) := by
  cases ds with
  | nil => rfl
  | cons b t =>
    have hspace : (45 :: b :: t).dropWhile isSpace = 45 :: b :: t := rfl
    have hsign : scanSign (45 :: b :: t) = (true, b :: t) := rfl
    have hall := takeWhile_all_digits hds
    have hwidth : (45 :: b :: t).length - ((45 :: b :: t).length - (b :: t).length) =
        (b :: t).length := by simp
    unfold strtoll scanInt
    simp only [hspace, hsign, hwidth, hall, if_neg (List.cons_ne_nil b t), if_true]
    omega

theorem strtoll_take_formatInt (hl : -2 ^ 63 ≤ n) (hu : n < 2 ^ 63) (k : Nat) :
    (0 ≤ strtoll ((formatInt n).take k) ∧ strtoll ((formatInt n).take k) ≤ n ∨
      n ≤ strtoll ((formatInt n).take k) ∧ strtoll ((formatInt n).take k) ≤ 0) ∧
      (strtoll ((formatInt n).take k) = n ↔ n = 0 ∨ (formatInt n).length ≤ k) := by
  have hdigits : ∀ j, ∀ b ∈ (decimal n.natAbs).take j, isDigit b = true := fun j b hb =>
    isDigit_of_mem_decimal (List.mem_of_mem_take hb)
  unfold formatInt
  split
  · cases k with
    | zero =>
      have hzero : strtoll [] = 0 := rfl
      simp only [List.take_zero, hzero, List.length_cons]
      omega
    | succ k =>
      obtain ⟨hle, hiff⟩ := digitsValue_take_decimal n.natAbs k
      rw [List.take_succ_cons, strtoll_neg_digits (hdigits k), List.length_cons]
      omega
  · obtain ⟨hle, hiff⟩ := digitsValue_take_decimal n.natAbs k
    rw [strtoll_digits (hdigits k)]
    omega

/-! ## Texts that end in a NUL -/

theorem scanSign_length_le (s : List UInt8) : (scanSign s).2.length ≤ s.length := by
  unfold scanSign
  split
  · exact le_rfl
  · split_ifs <;> simp

/-- `strtoll` without the width: the sign and the digits after the white space. -/
theorem strtoll_eq (s : List UInt8) :
    strtoll s = max (-2 ^ 63) (min
      (if (scanSign (s.dropWhile isSpace)).1 then
        -(digitsValue ((scanSign (s.dropWhile isSpace)).2.takeWhile isDigit) : Int)
      else digitsValue ((scanSign (s.dropWhile isSpace)).2.takeWhile isDigit)) (2 ^ 63 - 1)) := by
  have hlen : (s.dropWhile isSpace).length ≤ s.length := (List.dropWhile_sublist _).length_le
  unfold strtoll scanInt
  dsimp only
  generalize s.dropWhile isSpace = text at hlen
  have hrest := scanSign_length_le text
  rw [List.take_of_length_le (by omega)]
  by_cases hnil : (scanSign text).2.takeWhile isDigit = []
  · simp [hnil, digitsValue]
  · simp only [if_neg hnil]

theorem takeWhile_append_zero {p : UInt8 → Bool} (h0 : p 0 = false) (s rest : List UInt8) :
    (s ++ 0 :: rest).takeWhile p = s.takeWhile p := by
  induction s with
  | nil => simp [h0]
  | cons b s ih => by_cases hb : p b = true <;> simp [hb, ih]

theorem dropWhile_append_zero {p : UInt8 → Bool} (h0 : p 0 = false) (s rest : List UInt8) :
    (s ++ 0 :: rest).dropWhile p = s.dropWhile p ++ 0 :: rest := by
  induction s with
  | nil => simp [h0]
  | cons b s ih => by_cases hb : p b = true <;> simp [hb, ih]

theorem scanSign_append_zero (s rest : List UInt8) :
    scanSign (s ++ 0 :: rest) = ((scanSign s).1, (scanSign s).2 ++ 0 :: rest) := by
  cases s with
  | nil => rfl
  | cons b s =>
    simp only [List.cons_append, scanSign]
    split_ifs <;> rfl

theorem strtoll_append_zero (s rest : List UInt8) : strtoll (s ++ 0 :: rest) = strtoll s := by
  rw [strtoll_eq, strtoll_eq, dropWhile_append_zero rfl, scanSign_append_zero]
  rw [takeWhile_append_zero rfl]

theorem strtoll_range (s : List UInt8) : -2 ^ 63 ≤ strtoll s ∧ strtoll s < 2 ^ 63 := by
  rw [strtoll_eq]
  omega

theorem strtoll_formatInt (hl : -2 ^ 63 ≤ n) (hu : n < 2 ^ 63) :
    strtoll (formatInt n) = n := by
  have h := (strtoll_take_formatInt hl hu (formatInt n).length).2.mpr (.inr le_rfl)
  rwa [List.take_length] at h

end FastDht.Lib
