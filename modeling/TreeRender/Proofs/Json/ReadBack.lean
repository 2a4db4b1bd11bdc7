import TreeRender.Json.Typed
import TreeRender.Json.Value

/-!
# Reading back what was written

Strings, numbers and the members of an object are read as what they were written for, and exactly
their text is taken. A number is read to the last digit in sight, so it has to be followed by
something that does not continue it; a string and an object show where they end.
-/

namespace TreeRender.Json

namespace Reader

variable {α γ : Type}

structure Takes (reader : Reader α) (text : List Char) (a : α) (rest : List Char) : Prop where
  run_eq : StateT.run reader text = .ok (a, rest)

namespace Takes

variable {x : Reader α} {f : α → Reader γ} {a : α} {c : γ} {text rest rest' : List Char}

theorem pure (a : α) (text : List Char) : Takes (Pure.pure a) text a text := ⟨rfl⟩

theorem bind (hx : Takes x text a rest) (hf : Takes (f a) rest c rest') :
    Takes (x >>= f) text c rest' := by
  refine ⟨?_⟩
  rw [StateT.run_bind, hx.run_eq]
  exact hf.run_eq

private theorem lift {e : Except Fault α} (h : e = .ok a) (text : List Char) :
    Takes (liftM e) text a text := by
  rw [h]
  exact ⟨rfl⟩

theorem get (text : List Char) : Takes get text text text := ⟨rfl⟩

theorem set (text rest : List Char) : Takes (set rest) text () rest := ⟨rfl⟩

theorem skip (d : Char) (text : List Char) : Takes (skip 1) (d :: text) () text := ⟨rfl⟩

theorem peek? (text : List Char) : Takes peek? text text.head? text := ⟨rfl⟩

theorem peekToken? {d : Char} (hd : isBlank d = false) (text : List Char) :
    Takes peekToken? (d :: text) (some d) (d :: text) := by
  have hskip : Takes skipBlanks (d :: text) () (d :: text) := by
    refine ⟨?_⟩
    unfold skipBlanks
    rw [StateT.run_modify, List.dropWhile_cons_of_neg (by rw [hd]; exact Bool.false_ne_true)]
    rfl
  exact hskip.bind (peek? _)

private theorem word (expected rest : List Char) : Takes (word expected) (expected ++ rest) () rest
    := by
  induction expected with
  | nil => exact pure _ _
  | cons d expected ih =>
    apply (get _).bind
    apply (set _ _).bind
    rw [if_pos rfl]
    exact ih

private theorem startingWith {start : Char} (hstart : isBlank start = false)
    (h : Takes x text a rest) :
    Takes (startingWith start x) (start :: text) a rest := by
  apply (peekToken? hstart _).bind
  rw [if_pos rfl]
  exact (skip _ _).bind h

theorem run_eq_ok {s : String} (h : Takes x s.toList a []) : x.run s = .ok a := by
  have whole : Takes (do
      let a ← x
      skipBlanks
      return a) s.toList a [] :=
    h.bind (Takes.bind (a := ()) ⟨rfl⟩ (pure a []))
  unfold Reader.run
  rw [whole.run_eq]
  rfl

end Takes

private theorem hexValue?_digitChar : ∀ n < 16, hexValue? (Nat.digitChar n) = some n := by decide

private theorem utf8Size_digitChar : ∀ n < 16, (Nat.digitChar n).utf8Size = 1 := by decide

private theorem fourHexDigits_hexDigits {n : Nat} (hn : n < 256) (text : List Char) :
    fourHexDigits ('0' :: '0' :: hexDigits n ++ text) = .ok (n, text) := by
  have hhigh : n / 16 < 16 := by omega
  have hlow : n % 16 < 16 := by omega
  have hcount : byteCount (('0' :: '0' :: hexDigits n ++ text).take 4) = 4 := by
    change '0'.utf8Size + ('0'.utf8Size + ((Nat.digitChar (n / 16)).utf8Size +
      ((Nat.digitChar (n % 16)).utf8Size + 0))) = 4
    rw [utf8Size_digitChar _ hhigh, utf8Size_digitChar _ hlow]
    rfl
  have hzero : hexValue? '0' = some 0 := by decide
  have hvalue : ((0 * 16 + 0) * 16 + n / 16) * 16 + n % 16 = n := by omega
  unfold fourHexDigits
  rw [hcount, if_neg (by omega)]
  simp only [hexDigits, List.cons_append, List.nil_append, hzero, hexValue?_digitChar _ hhigh,
    hexValue?_digitChar _ hlow, hvalue]

private theorem escaped_control {n : Nat} (hn : n < 0x20) (text : List Char) :
    escaped ('u' :: '0' :: '0' :: hexDigits n ++ text) = .ok (Char.ofNat n, text) := by
  have hdigits := fourHexDigits_hexDigits (n := n) (by omega) text
  have htrailing : ¬((decide (0xdc00 ≤ n) && decide (n ≤ 0xdfff)) = true) := by
    rw [Bool.and_eq_true, decide_eq_true_eq]
    omega
  have hleading : ¬((decide (0xd800 ≤ n) && decide (n ≤ 0xdbff)) = true) := by
    rw [Bool.and_eq_true, decide_eq_true_eq]
    omega
  rw [List.cons_append, escaped, hdigits]
  dsimp only
  rw [if_neg htrailing, if_neg hleading]

private theorem escapeChar_cases (c : Char) :
    c ≠ '"' ∧ c ≠ '\\' ∧ ¬c.toNat < 0x20 ∧ escapeChar c = [c] ∨
      ∃ name, escapeChar c = '\\' :: name ∧ ∀ text, escaped (name ++ text) = .ok (c, text) := by
  unfold escapeChar
  by_cases hquot : c = '"'
  · exact .inr ⟨['"'], if_pos hquot, fun _ => by rw [hquot]; rfl⟩
  rw [if_neg hquot]
  by_cases hback : c = '\\'
  · exact .inr ⟨['\\'], if_pos hback, fun _ => by rw [hback]; rfl⟩
  rw [if_neg hback]
  by_cases hb : c.toNat = 0x08
  · have hc : c = '\x08' := Char.toNat_inj.1 hb
    exact .inr ⟨['b'], if_pos hb, fun _ => by rw [hc]; rfl⟩
  rw [if_neg hb]
  by_cases hf : c.toNat = 0x0c
  · have hc : c = '\x0c' := Char.toNat_inj.1 hf
    exact .inr ⟨['f'], if_pos hf, fun _ => by rw [hc]; rfl⟩
  rw [if_neg hf]
  by_cases hn : c = '\n'
  · exact .inr ⟨['n'], if_pos hn, fun _ => by rw [hn]; rfl⟩
  rw [if_neg hn]
  by_cases hr : c = '\r'
  · exact .inr ⟨['r'], if_pos hr, fun _ => by rw [hr]; rfl⟩
  rw [if_neg hr]
  by_cases ht : c = '\t'
  · exact .inr ⟨['t'], if_pos ht, fun _ => by rw [ht]; rfl⟩
  rw [if_neg ht]
  by_cases hcontrol : c.toNat < 0x20
  · refine .inr ⟨'u' :: '0' :: '0' :: hexDigits c.toNat, if_pos hcontrol, fun text => ?_⟩
    rw [escaped_control hcontrol, Char.ofNat_toNat]
  · exact .inl ⟨hquot, hback, hcontrol, if_neg hcontrol⟩

private theorem stringRounds_escapeChars {rounds : Nat} {chars : List Char}
    (hrounds : chars.length < rounds) (rest : List Char) :
    stringRounds escaped rounds (chars.flatMap escapeChar ++ '"' :: rest) = .ok (chars, rest) := by
  induction chars generalizing rounds with
  | nil =>
    cases rounds with
    | zero => cases hrounds
    | succ rounds => rfl
  | cons c chars ih =>
    cases rounds with
    | zero => cases hrounds
    | succ rounds =>
      have hrest := ih (Nat.lt_of_succ_lt_succ hrounds)
      rw [List.flatMap_cons, List.append_assoc]
      rcases escapeChar_cases c with ⟨hquot, hback, hcontrol, hself⟩ | ⟨name, hname, hread⟩
      · rw [hself, List.singleton_append, stringRounds, if_neg hquot, if_neg hback,
          if_neg hcontrol, hrest]
      · rw [hname, List.cons_append, stringRounds, if_neg (by decide), if_pos rfl, hread]
        dsimp only
        rw [hrest]

private theorem length_le_flatMap_escapeChar (chars : List Char) :
    chars.length ≤ (chars.flatMap escapeChar).length := by
  induction chars with
  | nil => exact Nat.le_refl 0
  | cons c chars ih =>
    have hc : 1 ≤ (escapeChar c).length := by
      rcases escapeChar_cases c with ⟨-, -, -, hself⟩ | ⟨name, hname, -⟩
      · rw [hself]
        exact Nat.le_refl 1
      · rw [hname, List.length_cons]
        omega
    rw [List.flatMap_cons, List.length_append, List.length_cons]
    omega

private theorem takes_stringRest (s : String) (rest : List Char) :
    Takes stringRest (s.toList.flatMap escapeChar ++ '"' :: rest) s rest := by
  have hlength := length_le_flatMap_escapeChar s.toList
  have hrounds : s.toList.length < (s.toList.flatMap escapeChar ++ '"' :: rest).length + 1 := by
    rw [List.length_append]
    omega
  apply (Takes.get _).bind
  apply (Takes.lift (stringRounds_escapeChars hrounds rest) _).bind
  apply (Takes.set _ _).bind
  rw [String.ofList_toList]
  exact Takes.pure s rest

theorem takes_string (s : String) (rest : List Char) :
    Takes string (stringChars s ++ rest) s rest := by
  unfold stringChars
  rw [List.append_assoc, List.cons_append, List.singleton_append]
  exact Takes.startingWith (by decide) (takes_stringRest s rest)

def EndsNumber (text : List Char) : Prop :=
  ∀ c ∈ text.head?, c.isDigit = false ∧ c ≠ '.' ∧ c ≠ 'e' ∧ c ≠ 'E'

private theorem le_ofDigitChars (digits : List Char) (n : Nat) : n ≤ Nat.ofDigitChars 10 digits n
    := by
  induction digits generalizing n with
  | nil => exact Nat.le_refl n
  | cons c digits ih =>
    rw [Nat.ofDigitChars_cons]
    exact Nat.le_trans (by omega) (ih _)

private theorem takeDigits_append {digits rest : List Char}
    (hdigits : ∀ c ∈ digits, c.isDigit = true)
    (hrest : ∀ c ∈ rest.head?, c.isDigit = false) {significand : Nat} (count : Nat)
    (h : Nat.ofDigitChars 10 digits significand < UInt64.size) :
    takeDigits significand count (digits ++ rest) =
      ((Nat.ofDigitChars 10 digits significand, count + digits.length), rest) := by
  induction digits generalizing significand count with
  | nil =>
    cases rest with
    | nil => rfl
    | cons c rest =>
      have hc : c.isDigit = false := hrest c rfl
      rw [List.nil_append, takeDigits, hc, Bool.false_and, if_neg Bool.false_ne_true]
      rfl
  | cons c digits ih =>
    have hc : c.isDigit = true := hdigits c List.mem_cons_self
    have hnext : significand * 10 + digitValue c = 10 * significand + (c.toNat - '0'.toNat) := by
      rw [digitValue, Nat.mul_comm]
    rw [Nat.ofDigitChars_cons] at h ⊢
    have hfits : significand * 10 + digitValue c < UInt64.size := by
      rw [hnext]
      exact Nat.lt_of_le_of_lt (le_ofDigitChars digits _) h
    rw [List.cons_append, takeDigits, hc, Bool.true_and, if_pos (decide_eq_true hfits), hnext,
      ih (fun d hd => hdigits d (List.mem_cons_of_mem _ hd)) _ h, List.length_cons]
    congr 2
    omega

private theorem toDigits_eq_cons {n : Nat} (hn : n ≠ 0) :
    ∃ c digits, Nat.toDigits 10 n = c :: digits ∧ c ≠ '0' := by
  induction n using Nat.strongRecOn with
  | ind n ih =>
    rw [Nat.toDigits_eq_if (by decide)]
    split
    · exact ⟨Nat.digitChar n, [], rfl, fun hzero => hn (Nat.digitChar_eq_zero.1 hzero)⟩
    · obtain ⟨c, digits, hdigits, hc⟩ := ih (n / 10) (by omega) (by omega)
      rw [hdigits]
      exact ⟨c, digits ++ [Nat.digitChar (n % 10)], rfl, hc⟩

private theorem takes_countDigits {rest : List Char} (h : ∀ c ∈ rest.head?, c.isDigit = false) :
    Takes countDigits rest 0 rest := by
  have hdrop : rest.dropWhile Char.isDigit = rest := by
    cases rest with
    | nil => rfl
    | cons c rest => exact List.dropWhile_cons_of_neg (by rw [h c rfl]; exact Bool.false_ne_true)
  have htake : rest.takeWhile Char.isDigit = [] := by
    cases rest with
    | nil => rfl
    | cons c rest => exact List.takeWhile_cons_of_neg (by rw [h c rfl]; exact Bool.false_ne_true)
  apply (Takes.get _).bind
  rw [hdrop, htake]
  exact (Takes.set _ _).bind (Takes.pure 0 rest)

private theorem takes_afterInteger (n : Nat) {rest : List Char} (h : EndsNumber rest) :
    Takes (afterInteger false n 0) rest (.natural n) rest := by
  have hpoint : rest.head? ≠ some '.' := fun hc => (h '.' hc).2.1 rfl
  have hmark : isExponentMark rest.head? = false := by
    cases hc : rest.head? with
    | none => rfl
    | some c =>
      obtain ⟨-, -, hlower, hupper⟩ := h c hc
      unfold isExponentMark
      rw [decide_eq_false (fun heq => hlower (Option.some.inj heq)),
        decide_eq_false (fun heq => hupper (Option.some.inj heq)), Bool.or_false]
  apply (Takes.peek? rest).bind
  rw [if_neg hpoint, hmark]
  exact Takes.pure _ rest

theorem exists_digit (n : Nat) :
    ∃ c digits, Nat.toDigits 10 n = c :: digits ∧ c.isDigit = true := by
  cases hdigits : Nat.toDigits 10 n with
  | nil => exact absurd hdigits Nat.toDigits_ne_nil
  | cons c digits =>
    have hmem : c ∈ Nat.toDigits 10 n := hdigits ▸ List.mem_cons_self
    exact ⟨c, digits, rfl, Nat.isDigit_of_mem_toDigits (by decide) (by decide) hmem⟩

theorem ne_of_isDigit {c d : Char} (hc : c.isDigit = true) (hd : d.isDigit = false) : c ≠ d := by
  rintro rfl
  rw [hc] at hd
  cases hd

private theorem isBlank_of_isDigit {c : Char} (hc : c.isDigit = true) : isBlank c = false := by
  have hspace : c ≠ ' ' := ne_of_isDigit hc (by decide)
  have hline : c ≠ '\n' := ne_of_isDigit hc (by decide)
  have htab : c ≠ '\t' := ne_of_isDigit hc (by decide)
  have hreturn : c ≠ '\r' := ne_of_isDigit hc (by decide)
  unfold isBlank
  rw [decide_eq_false hspace, decide_eq_false hline, decide_eq_false htab, decide_eq_false hreturn]
  rfl

private theorem takes_unsigned {n : Nat} (hn : n < UInt64.size) {rest : List Char}
    (h : EndsNumber rest) :
    Takes (unsigned false) (Nat.toDigits 10 n ++ rest) (.natural n) rest := by
  have hrest : ∀ c ∈ rest.head?, c.isDigit = false := fun c hc => (h c hc).1
  apply (Takes.get _).bind
  by_cases hzero : n = 0
  · subst hzero
    have hany : ¬(rest.head?.any Char.isDigit) = true := by
      intro hany
      obtain ⟨c, hc, hdigit⟩ := (Option.any_eq_true _ _).1 hany
      exact Bool.false_ne_true ((hrest c hc).symm.trans hdigit)
    rw [Nat.toDigits_zero, List.singleton_append]
    dsimp only
    rw [if_neg (by decide), if_pos rfl]
    apply (Takes.set _ _).bind
    rw [if_neg hany]
    exact takes_afterInteger 0 h
  · obtain ⟨c, digits, hdigits, hc⟩ := toDigits_eq_cons hzero
    have hall : ∀ d ∈ Nat.toDigits 10 n, d.isDigit = true := fun d hd =>
      Nat.isDigit_of_mem_toDigits (by decide) (by decide) hd
    have hvalue : Nat.ofDigitChars 10 (Nat.toDigits 10 n) 0 < UInt64.size := by
      rw [Nat.ofDigitChars_ten_toDigits]
      exact hn
    have htaken := takeDigits_append hall hrest 0 hvalue
    have hdigit : c.isDigit = true := hall c (hdigits ▸ List.mem_cons_self)
    rw [Nat.ofDigitChars_ten_toDigits] at htaken
    rw [hdigits, List.cons_append] at htaken ⊢
    dsimp only
    rw [hdigit, if_neg (by decide), if_neg hc, htaken]
    exact (Takes.set _ _).bind ((takes_countDigits hrest).bind (takes_afterInteger n h))

private theorem takes_number {n : Nat} (hn : n < UInt64.size) {rest : List Char}
    (h : EndsNumber rest) :
    Takes number (Nat.toDigits 10 n ++ rest) (.natural n) rest := by
  obtain ⟨c, digits, hdigits, hc⟩ := exists_digit n
  have hsign : (Nat.toDigits 10 n ++ rest).head? ≠ some '-' := by
    rw [hdigits]
    exact fun heq => ne_of_isDigit hc (by decide) (Option.some.inj heq)
  apply (Takes.peek? _).bind
  rw [if_neg hsign]
  exact takes_unsigned hn h

private theorem takes_natural {n : Nat} (hn : n < UInt64.size) {rest : List Char}
    (h : EndsNumber rest) :
    Takes natural (Nat.toDigits 10 n ++ rest) n rest := by
  obtain ⟨c, digits, hdigits, hc⟩ := exists_digit n
  have hnumber := takes_number hn h
  rw [hdigits, List.cons_append] at hnumber ⊢
  apply (Takes.peekToken? (isBlank_of_isDigit hc) _).bind
  dsimp only
  rw [hc, Bool.or_true, if_pos rfl]
  exact hnumber.bind (Takes.pure n rest)

/-- The reader takes what is `written` and gives `a`, unless a number goes on behind it. -/
def Reads (reader : Reader α) (written : List Char) (a : α) : Prop :=
  ∀ rest, EndsNumber rest → Takes reader (written ++ rest) a rest

theorem Reads.map {reader : Reader α} {written : List Char} {a : α} (h : Reads reader written a)
    (f : α → γ) : Reads (do return f (← reader)) written (f a) :=
  fun rest hrest => (h rest hrest).bind (Takes.pure (f a) rest)

theorem reads_bool (b : Bool) : Reads bool (chars (.bool b)) b := by
  intro rest _
  cases b with
  | false =>
    apply (Takes.peekToken? (d := 'f') (by decide) _).bind
    apply (Takes.skip _ _).bind
    exact (Takes.word ['a', 'l', 's', 'e'] rest).bind (Takes.pure false rest)
  | true =>
    apply (Takes.peekToken? (d := 't') (by decide) _).bind
    apply (Takes.skip _ _).bind
    exact (Takes.word ['r', 'u', 'e'] rest).bind (Takes.pure true rest)

theorem reads_natural {n : Nat} (hn : n < UInt64.size) :
    Reads natural (chars (.number (.natural n))) n :=
  fun _ hrest => takes_natural hn hrest

theorem reads_string (s : String) : Reads string (chars (.string s)) s :=
  fun rest _ => takes_string s rest

theorem reads_optional_none (reader : Reader α) : Reads (optional reader) (chars .null) none := by
  intro rest _
  apply (Takes.peekToken? (d := 'n') (by decide) _).bind
  rw [if_pos rfl]
  apply (Takes.skip _ _).bind
  exact (Takes.word ['u', 'l', 'l'] rest).bind (Takes.pure none rest)

private theorem Reads.optional {reader : Reader α} {c : Char} {written : List Char} {a : α}
    (h : Reads reader (c :: written) a) (hblank : isBlank c = false) (hc : c ≠ 'n') :
    Reads (optional reader) (c :: written) (some a) := by
  intro rest hrest
  apply (Takes.peekToken? hblank _).bind
  rw [if_neg fun heq => hc (Option.some.inj heq)]
  exact (h rest hrest).bind (Takes.pure _ rest)

theorem reads_optional_natural {n : Nat} (hn : n < UInt64.size) :
    Reads (optional natural) (chars (.number (.natural n))) (some n) := by
  obtain ⟨c, digits, hdigits, hc⟩ := exists_digit n
  have hchars : chars (.number (.natural n)) = c :: digits := by rw [chars, numberChars, hdigits]
  have hread := reads_natural hn
  rw [hchars] at hread ⊢
  exact hread.optional (isBlank_of_isDigit hc) (ne_of_isDigit hc (by decide))

theorem reads_optional_string (s : String) :
    Reads (optional string) (chars (.string s)) (some s) := by
  have hread := reads_string s
  rw [chars, stringChars, List.cons_append] at hread ⊢
  exact hread.optional (by decide) (by decide)

private theorem endsNumber_comma (rest : List Char) : EndsNumber (',' :: rest) := by
  rintro c hc
  cases hc
  decide

private theorem endsNumber_brace (rest : List Char) : EndsNumber ('\x7d' :: rest) := by
  rintro c hc
  cases hc
  decide

theorem takes_colon (rest : List Char) : Takes colon (':' :: rest) () rest := by
  apply (Takes.peekToken? (by decide) _).bind
  exact (Takes.skip _ _).bind (Takes.pure () rest)

private theorem takes_hasMember_brace (first : Bool) (rest : List Char) :
    Takes (hasMember first) ('\x7d' :: rest) false rest := by
  apply (Takes.peekToken? (by decide) _).bind
  exact (Takes.skip _ _).bind (Takes.pure false rest)

private theorem takes_hasMember_first (rest : List Char) :
    Takes (hasMember true) ('"' :: rest) true rest := by
  apply (Takes.peekToken? (by decide) _).bind
  exact (Takes.skip _ _).bind (Takes.pure true rest)

private theorem takes_hasMember_next (rest : List Char) :
    Takes (hasMember false) (',' :: '"' :: rest) true rest := by
  apply (Takes.peekToken? (by decide) _).bind
  apply (Takes.skip _ _).bind
  apply (Takes.peekToken? (by decide) _).bind
  exact (Takes.skip _ _).bind (Takes.pure true rest)

/-- Going through the members, `member` gets from the first to the last result. -/
inductive Gathers (member : String → α → Reader α) : List (String × Json) → α → α → Prop
  | nil (a : α) : Gathers member [] a a
  | cons {key : String} {value : Json} {members : List (String × Json)} {a b c : α}
    (hvalue : Reads (member key a) (':' :: chars value) b) (hmembers : Gathers member members b c) :
    Gathers member ((key, value) :: members) a c

private theorem length_le_memberTailChars (members : List (String × Json)) :
    members.length ≤ (memberTailChars members).length := by
  induction members with
  | nil => exact Nat.le_refl 0
  | cons member members ih =>
    rw [memberTailChars, List.length_append, List.length_append, List.length_cons, List.length_cons]
    omega

private theorem endsNumber_memberTailChars (members : List (String × Json)) (rest : List Char) :
    EndsNumber (memberTailChars members ++ '\x7d' :: rest) := by
  cases members with
  | nil => exact endsNumber_brace rest
  | cons member members => exact endsNumber_comma _

private theorem takes_memberRounds_succ {member : String → α → Reader α} {rounds : Nat}
    {first : Bool}
    {text after rest : List Char} {key : String} {value : Json} {a b c : α}
    (hmember : Takes (hasMember first) text true
      (key.toList.flatMap escapeChar ++ '"' :: (':' :: chars value ++ after)))
    (hvalue : Reads (member key a) (':' :: chars value) b) (hafter : EndsNumber after)
    (hrounds : Takes (memberRounds member rounds false b) after c rest) :
    Takes (memberRounds member (rounds + 1) first a) text c rest := by
  unfold memberRounds
  apply hmember.bind
  rw [if_pos rfl]
  apply (takes_stringRest key _).bind
  exact (hvalue after hafter).bind hrounds

namespace Gathers

variable {member : String → α → Reader α} {members : List (String × Json)} {a b : α}

private theorem takes_memberRounds (h : Gathers member members a b) {rounds : Nat}
    (hrounds : members.length < rounds) (rest : List Char) :
    Takes (memberRounds member rounds false a) (memberTailChars members ++ '\x7d' :: rest) b
      rest := by
  induction h generalizing rounds with
  | nil a =>
    cases rounds with
    | zero => cases hrounds
    | succ rounds => exact (takes_hasMember_brace false rest).bind (Takes.pure a rest)
  | @cons key value members a b c hvalue _ ih =>
    cases rounds with
    | zero => cases hrounds
    | succ rounds =>
      have hmore := ih (Nat.lt_of_succ_lt_succ hrounds)
      have hnext := takes_hasMember_next (key.toList.flatMap escapeChar ++
        '"' :: (':' :: chars value ++ (memberTailChars members ++ '\x7d' :: rest)))
      refine takes_memberRounds_succ ?_ hvalue (endsNumber_memberTailChars members rest) hmore
      rw [memberTailChars, stringChars]
      simp only [List.append_assoc, List.cons_append, List.nil_append] at hnext ⊢
      exact hnext

theorem takes_membersRest (h : Gathers member members a b) {text : List Char}
    (htext : chars (.object members) = '\x7b' :: text) (rest : List Char) :
    Takes (membersRest member a) (text ++ rest) b rest := by
  apply (Takes.get _).bind
  cases h with
  | nil a =>
    rw [chars] at htext
    obtain rfl := (List.cons.inj htext).2
    exact (takes_hasMember_brace true rest).bind (Takes.pure a rest)
  | @cons key value members _ d _ hvalue hmembers =>
    rw [chars, stringChars] at htext
    simp only [List.append_assoc, List.cons_append, List.nil_append] at htext
    obtain rfl := (List.cons.inj htext).2
    have hlength := length_le_memberTailChars members
    have hfirst := takes_hasMember_first (key.toList.flatMap escapeChar ++
      '"' :: (':' :: chars value ++ (memberTailChars members ++ '\x7d' :: rest)))
    refine takes_memberRounds_succ ?_ hvalue (endsNumber_memberTailChars members rest)
      (hmembers.takes_memberRounds ?_ rest)
    · simp only [List.append_assoc, List.cons_append, List.nil_append] at hfirst ⊢
      exact hfirst
    · simp only [List.length_append, List.length_cons]
      omega

end Gathers

end Reader

end TreeRender.Json
