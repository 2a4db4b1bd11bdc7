import TreeRender.Encoding

/-!
# Numeric references

In ASCII, every other character is written as a numeric reference. Replacing the references in such
a text gives back what was encoded, unless that held a reference already, which nothing tells apart
from the ones that encoding made.
-/

namespace TreeRender.Encoding

/-- The digits of the reference `&#N;` at the beginning of a text, where `N` is the code point of a
character that is not ASCII. -/
def reference? : List Char → Option (List Char)
  | a :: b :: rest =>
    let digits := rest.takeWhile Char.isDigit
    let n := Nat.ofDigitChars 10 digits 0
    if a = '&' ∧ b = '#' ∧ (rest.dropWhile Char.isDigit).head? = some ';' ∧ 128 ≤ n ∧ n.isValidChar
    then some digits
    else none
  | _ => none

/-- Replaces references by their characters, passing over the first `skip` characters, which belong
to a reference already read. -/
def dereferenceFrom : (skip : Nat) → List Char → List Char
  | _, [] => []
  | skip + 1, _ :: rest => dereferenceFrom skip rest
  | 0, c :: rest =>
    match reference? (c :: rest) with
    | some digits =>
      Char.ofNat (Nat.ofDigitChars 10 digits 0) :: dereferenceFrom (digits.length + 2) rest
    | none => c :: dereferenceFrom 0 rest

/-- Replaces every reference to a character that is not ASCII by the character. -/
def dereference (s : String) : String := String.ofList (dereferenceFrom 0 s.toList)

def HasReference (text : List Char) : Prop :=
  ∃ digits, '&' :: '#' :: digits ++ [';'] <:+: text ∧ (∀ d ∈ digits, d.isDigit = true) ∧
    128 ≤ Nat.ofDigitChars 10 digits 0

theorem HasReference.cons {text : List Char} (h : HasReference text) (c : Char) :
    HasReference (c :: text) := by
  obtain ⟨digits, hinfix, hdigits⟩ := h
  exact ⟨digits, List.infix_cons hinfix, hdigits⟩

private theorem reference?_eq_some {text digits : List Char} (h : reference? text = some digits) :
    (∃ rest, text = '&' :: '#' :: digits ++ ';' :: rest) ∧ (∀ d ∈ digits, d.isDigit = true) ∧
      128 ≤ Nat.ofDigitChars 10 digits 0 := by
  match text with
  | [] | [_] => cases h
  | a :: b :: rest =>
    simp only [reference?, Option.ite_none_right_eq_some, Option.some.injEq] at h
    obtain ⟨⟨rfl, rfl, hhead, hlow, -⟩, rfl⟩ := h
    obtain ⟨more, hmore⟩ := List.head?_eq_some_iff.1 hhead
    refine ⟨⟨more, ?_⟩, List.all_eq_true.1 List.all_takeWhile, hlow⟩
    rw [← hmore, List.cons_append, List.cons_append, List.takeWhile_append_dropWhile]

private theorem reference?_reference (digits : List Char) (hdigits : ∀ d ∈ digits, d.isDigit = true)
    (hlow : 128 ≤ Nat.ofDigitChars 10 digits 0)
    (hvalid : (Nat.ofDigitChars 10 digits 0).isValidChar) (rest : List Char) :
    reference? ('&' :: '#' :: (digits ++ ';' :: rest)) = some digits := by
  have htake : (digits ++ ';' :: rest).takeWhile Char.isDigit = digits := by
    rw [List.takeWhile_append_of_pos hdigits, List.takeWhile_cons_of_neg (by decide),
      List.append_nil]
  have hdrop : (digits ++ ';' :: rest).dropWhile Char.isDigit = ';' :: rest := by
    rw [List.dropWhile_append_of_pos hdigits, List.dropWhile_cons_of_neg (by decide)]
  rw [reference?, htake, hdrop, if_pos ⟨rfl, rfl, rfl, hlow, hvalid⟩]

private theorem reference?_eq_none {c : Char} (hc : c ≠ '&') (rest : List Char) :
    reference? (c :: rest) = none := by
  cases hreference : reference? (c :: rest) with
  | none => rfl
  | some digits =>
    obtain ⟨⟨more, htext⟩, -⟩ := reference?_eq_some hreference
    exact absurd (List.cons.inj htext).1 hc

private theorem dereferenceFrom_skip (read rest : List Char) :
    dereferenceFrom read.length (read ++ rest) = dereferenceFrom 0 rest := by
  induction read with
  | nil => rfl
  | cons c read ih => exact ih

theorem asciiChar_ascii {c : Char} (h : c.toNat < 128) : asciiChar c = [c] := if_pos h

theorem asciiChar_reference {c : Char} (h : 128 ≤ c.toNat) :
    asciiChar c = '&' :: '#' :: Nat.toDigits 10 c.toNat ++ [';'] := if_neg (Nat.not_lt.2 h)

private theorem toNat_lt_of_isDigit {d : Char} (h : d.isDigit = true) : d.toNat < 128 := by
  simp only [Char.isDigit, Bool.and_eq_true, decide_eq_true_eq] at h
  have hle : d.toNat ≤ 57 := UInt32.le_iff_toNat_le.1 h.2
  omega

private theorem toNat_asciiChar_lt (c : Char) : ∀ d ∈ asciiChar c, d.toNat < 128 := by
  rcases Nat.lt_or_ge c.toNat 128 with h | h
  · rw [asciiChar_ascii h]
    simpa using h
  · rw [asciiChar_reference h]
    simp only [List.cons_append, List.forall_mem_cons, List.forall_mem_append]
    refine ⟨by decide, by decide, fun d hd => ?_, by simp⟩
    exact toNat_lt_of_isDigit (Nat.isDigit_of_mem_toDigits (by decide) (by decide) hd)

theorem toNat_encode_ascii_lt (s : String) : ∀ c ∈ (encode .ascii s).toList, c.toNat < 128 := by
  intro c hc
  rw [encode, String.toList_ofList] at hc
  obtain ⟨d, -, hd⟩ := List.mem_flatMap.1 hc
  exact toNat_asciiChar_lt d c hd

private theorem flatMap_asciiChar_eq_self {text : List Char} (h : ∀ c ∈ text, c.toNat < 128) :
    text.flatMap asciiChar = text := by
  induction text with
  | nil => rfl
  | cons c text ih =>
    rw [List.flatMap_cons, asciiChar_ascii (h c List.mem_cons_self),
      ih fun d hd => h d (List.mem_cons_of_mem _ hd), List.singleton_append]

theorem encode_ascii_eq_self {s : String} (h : ∀ c ∈ s.toList, c.toNat < 128) :
    encode .ascii s = s := by
  rw [encode, flatMap_asciiChar_eq_self h, String.ofList_toList]

private theorem append_of_flatMap_asciiChar {text seen more : List Char} (hseen : '&' ∉ seen)
    (h : text.flatMap asciiChar = seen ++ more) : ∃ rest, text = seen ++ rest := by
  induction seen generalizing text with
  | nil => exact ⟨text, rfl⟩
  | cons d seen ih =>
    rw [List.mem_cons, not_or] at hseen
    cases text with
    | nil => cases h
    | cons c text =>
      rw [List.flatMap_cons] at h
      rcases Nat.lt_or_ge c.toNat 128 with hc | hc
      · rw [asciiChar_ascii hc] at h
        obtain ⟨rfl, htail⟩ := List.cons.inj h
        obtain ⟨rest, rfl⟩ := ih hseen.2 htail
        exact ⟨rest, rfl⟩
      · rw [asciiChar_reference hc] at h
        exact absurd (List.cons.inj h).1 hseen.1

private theorem hasReference_of_reference? {text digits : List Char}
    (h : reference? ('&' :: text.flatMap asciiChar) = some digits) :
    HasReference ('&' :: text) := by
  obtain ⟨⟨more, htext⟩, hdigits, hlow⟩ := reference?_eq_some h
  -- A reference has no second ampersand, so no other reference that encoding made is part of it.
  have hseen : '&' ∉ '#' :: digits ++ [';'] := by
    intro hmem
    simp only [List.cons_append, List.mem_cons, List.mem_append, List.not_mem_nil, or_false] at hmem
    rcases hmem with hmem | hmem | hmem
    · exact absurd hmem (by decide)
    · exact absurd (hdigits _ hmem) (by decide)
    · exact absurd hmem (by decide)
  have hencoded : text.flatMap asciiChar = ('#' :: digits ++ [';']) ++ more := by
    have htail := (List.cons.inj htext).2
    simpa using htail
  obtain ⟨rest, rfl⟩ := append_of_flatMap_asciiChar hseen hencoded
  exact ⟨digits, ⟨[], rest, rfl⟩, hdigits, hlow⟩

private theorem dereferenceFrom_asciiChar {c : Char} {text : List Char}
    (h : ¬HasReference (c :: text)) :
    dereferenceFrom 0 (asciiChar c ++ text.flatMap asciiChar) =
      c :: dereferenceFrom 0 (text.flatMap asciiChar) := by
  rcases Nat.lt_or_ge c.toNat 128 with hc | hc
  · have hnone : reference? (c :: text.flatMap asciiChar) = none := by
      by_cases hamp : c = '&'
      · subst hamp
        cases hreference : reference? ('&' :: text.flatMap asciiChar) with
        | none => rfl
        | some digits => exact absurd (hasReference_of_reference? hreference) h
      · exact reference?_eq_none hamp _
    rw [asciiChar_ascii hc, List.singleton_append, dereferenceFrom, hnone]
  · have hvalue : Nat.ofDigitChars 10 (Nat.toDigits 10 c.toNat) 0 = c.toNat :=
      Nat.ofDigitChars_ten_toDigits
    have hreference := reference?_reference (Nat.toDigits 10 c.toNat)
      (fun _ => Nat.isDigit_of_mem_toDigits (by decide) (by decide)) (by rw [hvalue]; exact hc)
      (by rw [hvalue]; exact c.valid) (text.flatMap asciiChar)
    have hskip := dereferenceFrom_skip ('#' :: Nat.toDigits 10 c.toNat ++ [';'])
      (text.flatMap asciiChar)
    simp only [List.cons_append, List.append_assoc, List.nil_append, List.length_cons,
      List.length_append, List.length_nil] at hskip
    have hencoded : asciiChar c ++ text.flatMap asciiChar =
        '&' :: '#' :: (Nat.toDigits 10 c.toNat ++ ';' :: text.flatMap asciiChar) := by
      simp only [asciiChar_reference hc, List.cons_append, List.append_assoc, List.nil_append]
    rw [hencoded, dereferenceFrom, hreference]
    simp only [hvalue, Char.ofNat_toNat]
    exact congrArg (c :: ·) hskip

private theorem dereferenceFrom_flatMap {text : List Char} (h : ¬HasReference text) :
    dereferenceFrom 0 (text.flatMap asciiChar) = text := by
  induction text with
  | nil => rfl
  | cons c text ih =>
    rw [List.flatMap_cons, dereferenceFrom_asciiChar h, ih fun hrest => h (hrest.cons c)]

theorem dereference_encode {s : String} (h : ¬HasReference s.toList) :
    dereference (encode .ascii s) = s := by
  rw [dereference, encode, String.toList_ofList, dereferenceFrom_flatMap h, String.ofList_toList]

/-- A reference that was there before is taken for one that encoding made. -/
example : dereference (encode .ascii "&#233;") = "é" := by decide +kernel

end TreeRender.Encoding
