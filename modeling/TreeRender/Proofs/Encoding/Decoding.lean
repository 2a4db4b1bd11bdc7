import TreeRender.Encoding

/-!
# Decoding

How encoded text is read again: hexadecimal digits two by two, base 64 four by four, and numeric
references one by one. Each decoder undoes its encoding. Encoding part by part is encoding the
whole, except in base 64, where each part is filled up on its own.
-/

namespace TreeRender.Encoding

private theorem toList_loop (b : ByteArray) (i : Nat) (acc : List UInt8) :
    ByteArray.toList.loop b i acc = acc.reverse ++ b.data.toList.drop i := by
  fun_induction ByteArray.toList.loop b i acc with
  | case1 i acc h ih =>
    have hi : i < b.data.toList.length := h
    have hget : b.get! i = b.data.toList[i] := by
      rw [Array.getElem_toList]
      exact getElem!_pos b.data i h
    rw [ih, List.drop_eq_getElem_cons hi, List.reverse_cons, List.append_assoc, hget,
      List.singleton_append]
  | case2 i acc h =>
    have hi : b.data.toList.length ≤ i := Nat.not_lt.1 h
    rw [List.drop_eq_nil_of_le hi, List.append_nil]

theorem bytes_eq (s : String) : bytes s = s.toByteArray.data.toList :=
  toList_loop s.toByteArray 0 []

theorem bytes_empty : bytes "" = [] := by
  rw [bytes_eq]
  rfl

theorem bytes_append (s t : String) : bytes (s ++ t) = bytes s ++ bytes t := by
  rw [bytes_eq, bytes_eq, bytes_eq, String.toByteArray_append, ByteArray.toList_data_append]

theorem bytes_join (texts : List String) : bytes (String.join texts) = texts.flatMap bytes := by
  induction texts with
  | nil => exact bytes_empty
  | cons s rest ih => rw [String.join_cons, bytes_append, ih, List.flatMap_cons]

def hexValue? (c : Char) : Option Nat :=
  if '0' ≤ c ∧ c ≤ '9' then some (c.toNat - '0'.toNat)
  else if 'a' ≤ c ∧ c ≤ 'f' then some (c.toNat - 'a'.toNat + 10)
  else none

/-- The bytes that pairs of hexadecimal digits stand for. -/
def hexBytes? : List Char → Option (List UInt8)
  | [] => some []
  | [_] => none
  | high :: low :: rest => do
    let high ← hexValue? high
    let low ← hexValue? low
    return UInt8.ofNat (high * 16 + low) :: (← hexBytes? rest)

private theorem hexValue?_hexDigit : ∀ n < 16, hexValue? (hexDigit n) = some n := by decide

private theorem hexBytes?_hexByte (b : UInt8) (rest : List Char) :
    hexBytes? (hexByte b ++ rest) = (hexBytes? rest).map (b :: ·) := by
  have hb : b.toNat < 256 := b.toNat_lt
  have high := hexValue?_hexDigit (b.toNat / 16) (by omega)
  have low := hexValue?_hexDigit (b.toNat % 16) (by omega)
  have hbyte : UInt8.ofNat (b.toNat / 16 * 16 + b.toNat % 16) = b := by
    rw [Nat.div_add_mod', UInt8.ofNat_toNat]
  simp only [hexByte, List.cons_append, List.nil_append, hexBytes?, high, low, Option.bind_eq_bind,
    Option.bind_some, hbyte]
  cases hexBytes? rest <;> rfl

private theorem hexBytes?_flatMap (bs : List UInt8) : hexBytes? (bs.flatMap hexByte) = some bs := by
  induction bs with
  | nil => rfl
  | cons b rest ih => rw [List.flatMap_cons, hexBytes?_hexByte, ih, Option.map_some]

/-- The bytes that a text in hexadecimal digits stands for. -/
def ofHex? (s : String) : Option (List UInt8) := hexBytes? s.toList

theorem ofHex?_encode (s : String) : ofHex? (encode .hex s) = some (bytes s) := by
  rw [ofHex?, encode, String.toList_ofList, hexBytes?_flatMap]

/-- The six bits that a digit stands for, in the standard alphabet of RFC 4648. -/
def base64Value? (c : Char) : Option Nat :=
  if 'A' ≤ c ∧ c ≤ 'Z' then some (c.toNat - 'A'.toNat)
  else if 'a' ≤ c ∧ c ≤ 'z' then some (c.toNat - 'a'.toNat + 26)
  else if '0' ≤ c ∧ c ≤ '9' then some (c.toNat - '0'.toNat + 52)
  else if c = '+' then some 62
  else if c = '/' then some 63
  else none

/-- The bytes that groups of four digits stand for. Equals signs fill up the last group only. -/
def base64Bytes? : List Char → Option (List UInt8)
  | [] => some []
  | [p, q, '=', '='] => do
    let p ← base64Value? p
    let q ← base64Value? q
    return [UInt8.ofNat (p * 4 + q / 16)]
  | [p, q, r, '='] => do
    let p ← base64Value? p
    let q ← base64Value? q
    let r ← base64Value? r
    return [UInt8.ofNat (p * 4 + q / 16), UInt8.ofNat (q % 16 * 16 + r / 4)]
  | p :: q :: r :: s :: rest => do
    let p ← base64Value? p
    let q ← base64Value? q
    let r ← base64Value? r
    let s ← base64Value? s
    return UInt8.ofNat (p * 4 + q / 16) :: UInt8.ofNat (q % 16 * 16 + r / 4) ::
      UInt8.ofNat (r % 4 * 64 + s) :: (← base64Bytes? rest)
  | _ => none

theorem base64Value?_base64Digit : ∀ n < 64, base64Value? (base64Digit n) = some n := by
  decide +kernel

private theorem base64Digit_ne_pad : ∀ n < 64, base64Digit n ≠ '=' := by decide +kernel

theorem first_byte (a : UInt8) (low : Nat) (h : low < 16) :
    UInt8.ofNat (a.toNat / 4 * 4 + (a.toNat % 4 * 16 + low) / 16) = a := by
  have hsum : a.toNat / 4 * 4 + (a.toNat % 4 * 16 + low) / 16 = a.toNat := by omega
  rw [hsum, UInt8.ofNat_toNat]

private theorem second_byte (b : UInt8) (high low : Nat) (h : low < 4) :
    UInt8.ofNat ((high * 16 + b.toNat / 16) % 16 * 16 + (b.toNat % 16 * 4 + low) / 4) = b := by
  have hb : b.toNat < 256 := b.toNat_lt
  have hsum : (high * 16 + b.toNat / 16) % 16 * 16 + (b.toNat % 16 * 4 + low) / 4 = b.toNat := by
    omega
  rw [hsum, UInt8.ofNat_toNat]

private theorem third_byte (c : UInt8) (high : Nat) :
    UInt8.ofNat ((high * 4 + c.toNat / 64) % 4 * 64 + c.toNat % 64) = c := by
  have hc : c.toNat < 256 := c.toNat_lt
  have hsum : (high * 4 + c.toNat / 64) % 4 * 64 + c.toNat % 64 = c.toNat := by omega
  rw [hsum, UInt8.ofNat_toNat]

private theorem base64Bytes?_one (a : UInt8) : base64Bytes? (base64Chars [a]) = some [a] := by
  have ha : a.toNat < 256 := a.toNat_lt
  have p := base64Value?_base64Digit (a.toNat / 4) (by omega)
  have q := base64Value?_base64Digit (a.toNat % 4 * 16) (by omega)
  have hbyte := first_byte a 0 (Nat.zero_lt_succ 15)
  rw [Nat.add_zero] at hbyte
  simp only [base64Chars, base64Bytes?, p, q, Option.bind_eq_bind, Option.bind_some]
  rw [hbyte]
  rfl

private theorem base64Bytes?_two (a b : UInt8) : base64Bytes? (base64Chars [a, b]) = some [a, b]
    := by
  have ha : a.toNat < 256 := a.toNat_lt
  have hb : b.toNat < 256 := b.toNat_lt
  have p := base64Value?_base64Digit (a.toNat / 4) (by omega)
  have q := base64Value?_base64Digit (a.toNat % 4 * 16 + b.toNat / 16) (by omega)
  have r := base64Value?_base64Digit (b.toNat % 16 * 4) (by omega)
  have hpad := base64Digit_ne_pad (b.toNat % 16 * 4) (by omega)
  have hfirst := first_byte a (b.toNat / 16) (by omega)
  have hsecond := second_byte b (a.toNat % 4) 0 (Nat.zero_lt_succ 3)
  rw [Nat.add_zero] at hsecond
  rw [base64Chars, base64Bytes?]
  · simp only [p, q, r, Option.bind_eq_bind, Option.bind_some]
    rw [hfirst, hsecond]
    rfl
  · exact hpad

private theorem base64Bytes?_three (a b c : UInt8) (rest : List UInt8) :
    base64Bytes? (base64Chars (a :: b :: c :: rest)) =
      (base64Bytes? (base64Chars rest)).map fun bs => a :: b :: c :: bs := by
  have ha : a.toNat < 256 := a.toNat_lt
  have hb : b.toNat < 256 := b.toNat_lt
  have hc : c.toNat < 256 := c.toNat_lt
  have p := base64Value?_base64Digit (a.toNat / 4) (by omega)
  have q := base64Value?_base64Digit (a.toNat % 4 * 16 + b.toNat / 16) (by omega)
  have r := base64Value?_base64Digit (b.toNat % 16 * 4 + c.toNat / 64) (by omega)
  have s := base64Value?_base64Digit (c.toNat % 64) (by omega)
  have hpad := base64Digit_ne_pad (c.toNat % 64) (by omega)
  have hfirst := first_byte a (b.toNat / 16) (by omega)
  have hsecond := second_byte b (a.toNat % 4) (c.toNat / 64) (by omega)
  have hthird := third_byte c (b.toNat % 16)
  rw [base64Chars, base64Bytes?]
  · simp only [p, q, r, s, hfirst, hsecond, hthird, Option.bind_eq_bind, Option.bind_some]
    cases base64Bytes? (base64Chars rest) <;> rfl
  · exact fun _ hs => absurd hs hpad
  · exact fun hs => absurd hs hpad

private theorem base64Bytes?_base64Chars (bs : List UInt8) : base64Bytes? (base64Chars bs) = some bs
    := by
  induction bs using base64Chars.induct with
  | case1 => rfl
  | case2 a => exact base64Bytes?_one a
  | case3 a b => exact base64Bytes?_two a b
  | case4 a b c rest ih => rw [base64Bytes?_three, ih, Option.map_some]

def ofBase64? (s : String) : Option (List UInt8) := base64Bytes? s.toList

theorem ofBase64?_encode (s : String) : ofBase64? (encode .base64 s) = some (bytes s) := by
  rw [ofBase64?, encode, String.toList_ofList, base64Bytes?_base64Chars]

end TreeRender.Encoding
