import Mathlib.Data.List.Basic

/-! # Base64 without padding

Three bytes give four characters; one or two bytes that are left over give two
or three. Different byte strings have different texts. -/
namespace FastDht.Lib

def base64Char (v : Nat) : UInt8 :=
  if v < 26 then UInt8.ofNat (65 + v)
  else if v < 52 then UInt8.ofNat (97 + (v - 26))
  else if v < 62 then UInt8.ofNat (48 + (v - 52))
  else if v = 62 then 43
  else 47

def base64Encode : List UInt8 → List UInt8
  | a :: b :: c :: rest =>
    base64Char (a.toNat / 4) :: base64Char (16 * (a.toNat % 4) + b.toNat / 16) ::
    base64Char (4 * (b.toNat % 16) + c.toNat / 64) :: base64Char (c.toNat % 64) ::
    base64Encode rest
  | [a, b] => [base64Char (a.toNat / 4), base64Char (16 * (a.toNat % 4) + b.toNat / 16),
      base64Char (4 * (b.toNat % 16))]
  | [a] => [base64Char (a.toNat / 4), base64Char (16 * (a.toNat % 4))]
  | [] => []

theorem base64Char_inj {v w : Nat} (hv : v < 64) (hw : w < 64) (h : base64Char v = base64Char w) :
    v = w := by
  have hall : ∀ v < 64, ∀ w < 64, base64Char v = base64Char w → v = w := by decide +kernel
  exact hall v hv w hw h

theorem base64Encode_injective {l l' : List UInt8} (h : base64Encode l = base64Encode l') :
    l = l' := by
  -- the values of the characters determine the bytes
  induction l using base64Encode.induct generalizing l' with
  | case1 a b c rest ih =>
    have ha := a.toNat_lt
    have hb := b.toNat_lt
    have hc := c.toNat_lt
    match l' with
    | a' :: b' :: c' :: rest' =>
      have ha' := a'.toNat_lt
      have hb' := b'.toNat_lt
      have hc' := c'.toNat_lt
      simp only [base64Encode, List.cons.injEq] at h
      obtain ⟨h1, h2, h3, h4, hrest⟩ := h
      have h1 := base64Char_inj (by omega) (by omega) h1
      have h2 := base64Char_inj (by omega) (by omega) h2
      have h3 := base64Char_inj (by omega) (by omega) h3
      have h4 := base64Char_inj (by omega) (by omega) h4
      rw [ih hrest, UInt8.toNat_inj.mp (show a.toNat = a'.toNat by omega),
        UInt8.toNat_inj.mp (show b.toNat = b'.toNat by omega),
        UInt8.toNat_inj.mp (show c.toNat = c'.toNat by omega)]
    | [_, _] => simp [base64Encode] at h
    | [_] => simp [base64Encode] at h
    | [] => simp [base64Encode] at h
  | case2 a b =>
    have ha := a.toNat_lt
    have hb := b.toNat_lt
    match l' with
    | _ :: _ :: _ :: _ => simp [base64Encode] at h
    | [a', b'] =>
      have ha' := a'.toNat_lt
      have hb' := b'.toNat_lt
      simp only [base64Encode, List.cons.injEq] at h
      obtain ⟨h1, h2, h3, -⟩ := h
      have h1 := base64Char_inj (by omega) (by omega) h1
      have h2 := base64Char_inj (by omega) (by omega) h2
      have h3 := base64Char_inj (by omega) (by omega) h3
      rw [UInt8.toNat_inj.mp (show a.toNat = a'.toNat by omega),
        UInt8.toNat_inj.mp (show b.toNat = b'.toNat by omega)]
    | [_] => simp [base64Encode] at h
    | [] => simp [base64Encode] at h
  | case3 a =>
    have ha := a.toNat_lt
    match l' with
    | _ :: _ :: _ :: _ => simp [base64Encode] at h
    | [_, _] => simp [base64Encode] at h
    | [a'] =>
      have ha' := a'.toNat_lt
      simp only [base64Encode, List.cons.injEq] at h
      obtain ⟨h1, h2, -⟩ := h
      have h1 := base64Char_inj (by omega) (by omega) h1
      have h2 := base64Char_inj (by omega) (by omega) h2
      rw [UInt8.toNat_inj.mp (show a.toNat = a'.toNat by omega)]
    | [] => simp [base64Encode] at h
  | case4 =>
    match l' with
    | _ :: _ :: _ :: _ => simp [base64Encode] at h
    | [_, _] => simp [base64Encode] at h
    | [_] => simp [base64Encode] at h
    | [] => rfl

end FastDht.Lib
