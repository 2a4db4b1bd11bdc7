import TreeRender.Markup.Text
import TreeRender.Text.Chars

/-!
# Minifying markup

Comments go, text that is blank goes, and in other text each run of blanks becomes one space. The
content of `script` and `style` elements stays as it is. Markup may come in pieces: pending text and
the raw text state carry over from one piece to the next, while a tag or comment has to lie within
one piece.
-/

namespace TreeRender.Markup

/-- Splits a text before the first place where `p` holds of the rest. -/
def splitBefore? (p : List Char → Bool) : List Char → Option (List Char × List Char)
  | [] => none
  | c :: rest =>
    if p (c :: rest) then some ([], c :: rest)
    else (splitBefore? p rest).map fun (before, found) => (c :: before, found)

theorem append_of_splitBefore? {p : List Char → Bool} {text before found : List Char}
    (h : splitBefore? p text = some (before, found)) : before ++ found = text := by
  induction text generalizing before with
  | nil => simp [splitBefore?] at h
  | cons c rest ih =>
    unfold splitBefore? at h
    split at h
    · simp_all
    · obtain ⟨⟨b, f⟩, hb, heq⟩ := Option.map_eq_some_iff.1 h
      simp only [Prod.mk.injEq] at heq
      obtain ⟨rfl, rfl⟩ := heq
      simp [ih hb]

/-- Splits a text that starts with a tag behind the `>` that closes it. A quoted value may hold a
`>`; `quote` is the quotation mark of the value that is open. -/
def splitTag? : (quote : Option Char) → List Char → Option (List Char × List Char)
  | _, [] => none
  | none, c :: rest =>
    if c = '>' then some ([c], rest)
    else
      let quote := if c = '"' || c = '\'' then some c else none
      (splitTag? quote rest).map fun (tag, after) => (c :: tag, after)
  | some q, c :: rest =>
    (splitTag? (if c = q then none else some q) rest).map fun (tag, after) => (c :: tag, after)

theorem append_of_splitTag? {quote : Option Char} {text tag after : List Char}
    (h : splitTag? quote text = some (tag, after)) : tag ++ after = text ∧ tag ≠ [] := by
  induction text generalizing quote tag with
  | nil => simp [splitTag?] at h
  | cons c rest ih =>
    cases quote with
    | none =>
      unfold splitTag? at h
      split at h
      · simp only [Option.some.injEq, Prod.mk.injEq] at h
        obtain ⟨rfl, rfl⟩ := h
        simp
      · obtain ⟨⟨t, a⟩, ht, heq⟩ := Option.map_eq_some_iff.1 h
        simp only [Prod.mk.injEq] at heq
        obtain ⟨rfl, rfl⟩ := heq
        simp [(ih ht).1]
    | some q =>
      unfold splitTag? at h
      obtain ⟨⟨t, a⟩, ht, heq⟩ := Option.map_eq_some_iff.1 h
      simp only [Prod.mk.injEq] at heq
      obtain ⟨rfl, rfl⟩ := heq
      simp [(ih ht).1]

inductive RawText where
  | script
  | style
  deriving DecidableEq

/-- What ends the raw text: the closing tag without its `>`. -/
def RawText.close : RawText → List Char
  | .script => ['<', '/', 's', 'c', 'r', 'i', 'p', 't']
  | .style => ['<', '/', 's', 't', 'y', 'l', 'e']

def startsWithIgnoringCase (start text : List Char) : Bool :=
  (text.take start.length).map Char.toLower == start

/-- The raw text that an opening tag begins. -/
def RawText.ofTag? (tag : List Char) : Option RawText :=
  let name := ((tag.drop 1).takeWhile Char.isAlphanum).map Char.toLower
  if name = ['s', 'c', 'r', 'i', 'p', 't'] then some .script
  else if name = ['s', 't', 'y', 'l', 'e'] then some .style
  else none

/-- Each run of blanks becomes one space; `inBlank` tells whether a run has begun. -/
def collapse : (inBlank : Bool) → List Char → List Char
  | _, [] => []
  | inBlank, c :: rest =>
    if Text.isBlank c then
      if inBlank then collapse true rest else ' ' :: collapse true rest
    else c :: collapse false rest

def minifyText (text : List Char) : List Char :=
  if text.all Text.isBlank then [] else collapse false text

/-- What carries over from one piece of markup to the next. -/
structure Minifier where
  pending : List Char := []
  raw : Option RawText := none

namespace Minifier

/-- The raw text at the front and the rest, which starts with the closing tag. -/
def splitRaw (raw : Option RawText) (input : List Char) : List Char × List Char :=
  match raw with
  | none => ([], input)
  | some r => (splitBefore? (startsWithIgnoringCase r.close) input).getD (input, [])

theorem append_splitRaw (raw : Option RawText) (input : List Char) :
    (splitRaw raw input).1 ++ (splitRaw raw input).2 = input := by
  unfold splitRaw
  split
  · rfl
  · rename_i r
    cases h : splitBefore? (startsWithIgnoringCase r.close) input with
    | none => simp
    | some parts => exact append_of_splitBefore? h

/-- The state after raw text: it lasts until its closing tag. -/
def afterRaw (raw : Option RawText) (rest : List Char) : Option RawText :=
  if rest.isEmpty then raw else none

def isTagStart (text : List Char) : Bool := text.head? = some '<'

def isCommentStart (text : List Char) : Bool := ['<', '!', '-', '-'].isPrefixOf text

def isCommentEnd (text : List Char) : Bool := ['-', '-', '>'].isPrefixOf text

theorem length_splitRaw_le (raw : Option RawText) (input : List Char) :
    (splitRaw raw input).2.length ≤ input.length := by
  have h := congrArg List.length (append_splitRaw raw input)
  simp only [List.length_append] at h
  omega

theorem length_le_of_splitBefore? {p : List Char → Bool} {text before found : List Char}
    (h : splitBefore? p text = some (before, found)) : found.length ≤ text.length := by
  have h := congrArg List.length (append_of_splitBefore? h)
  simp only [List.length_append] at h
  omega

theorem length_lt_of_splitTag? {quote : Option Char} {text tag after : List Char}
    (h : splitTag? quote text = some (tag, after)) : after.length < text.length := by
  have hlen := congrArg List.length (append_of_splitTag? h).1
  have hpos := List.length_pos_iff.2 (append_of_splitTag? h).2
  simp only [List.length_append] at hlen
  omega

theorem length_pos_of_splitBefore? {text before found : List Char}
    (h : splitBefore? isTagStart text = some (before, found)) : 0 < found.length := by
  induction text generalizing before with
  | nil => simp [splitBefore?] at h
  | cons c rest ih =>
    unfold splitBefore? at h
    split at h
    · simp only [Option.some.injEq, Prod.mk.injEq] at h
      simp [← h.2]
    · obtain ⟨⟨b, f⟩, hb, heq⟩ := Option.map_eq_some_iff.1 h
      simp only [Prod.mk.injEq] at heq
      obtain ⟨-, rfl⟩ := heq
      exact ih hb

/-- One piece of markup: what is written for it, and what is left over. A comment that does not end
in the piece takes its rest away, and a tag that does not end in it is written as it is. -/
def feed (m : Minifier) (input : List Char) : List Char × Minifier :=
  match _h : splitBefore? isTagStart (splitRaw m.raw input).2 with
  | none =>
    let (rawText, rest) := splitRaw m.raw input
    (rawText, { pending := m.pending ++ rest, raw := afterRaw m.raw rest })
  | some (text, markup) =>
    let written := (splitRaw m.raw input).1 ++ minifyText (m.pending ++ text)
    if isCommentStart markup then
      match _hc : splitBefore? isCommentEnd (markup.drop 4) with
      | none => (written, {})
      | some (_, found) =>
        let next := feed {} (found.drop 3)
        (written ++ next.1, next.2)
    else
      match _ht : splitTag? none markup with
      | none => (written ++ markup, {})
      | some (tag, after) =>
        let next := feed { raw := RawText.ofTag? tag } after
        (written ++ tag ++ next.1, next.2)
termination_by input.length
decreasing_by
  · have h1 := length_splitRaw_le m.raw input
    have h2 := length_le_of_splitBefore? _h
    have h3 := length_le_of_splitBefore? _hc
    have h4 := length_pos_of_splitBefore? _h
    simp only [List.length_drop] at h3 ⊢
    omega
  · have h1 := length_splitRaw_le m.raw input
    have h2 := length_le_of_splitBefore? _h
    have h3 := length_lt_of_splitTag? _ht
    omega

def finish (m : Minifier) : List Char × Minifier := (minifyText m.pending, { m with pending := [] })

end Minifier

def minify (html : String) : String :=
  let (written, m) := Minifier.feed {} html.toList
  String.ofList (written ++ m.finish.1)

end TreeRender.Markup
