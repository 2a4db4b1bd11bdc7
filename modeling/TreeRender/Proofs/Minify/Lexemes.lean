import TreeRender.Proofs.Minify.Whole

/-!
# Lexemes

The units of markup that the minifier tells apart: tags, comments, and the single characters of text
and of raw text. Feeding it with markup is letting it take up one lexeme after the other. Where a
lexeme ends, what comes before it can be split off without changing any lexeme.
-/

namespace TreeRender.Markup

open Minifier (isTagStart isCommentStart isCommentEnd)

inductive Lexeme where
  | char (c : Char)
  | tag (text : List Char)
  /-- A tag that does not end. -/
  | unclosed (text : List Char)
  /-- A comment, whether or not it ends. -/
  | comment (text : List Char)
  deriving DecidableEq

namespace Lexeme

def text : Lexeme → List Char
  | .char c => [c]
  | .tag text | .unclosed text | .comment text => text

def isMarkup : Lexeme → Bool
  | .char _ => false
  | .tag _ | .unclosed _ | .comment _ => true

def rawAfter (raw : Option RawText) : Lexeme → Option RawText
  | .char _ => raw
  | .tag text => RawText.ofTag? text
  | .unclosed _ | .comment _ => none

/-- Whether a tag or a comment begins. In raw text only its closing tag does. -/
def begins (raw : Option RawText) (markup : List Char) : Bool :=
  match raw with
  | none => isTagStart markup
  | some r => startsWithIgnoringCase r.close markup

def firstMarkup (markup : List Char) : Lexeme × List Char :=
  if isCommentStart markup then
    match splitBefore? isCommentEnd (markup.drop 4) with
    | none => (.comment markup, [])
    | some (content, found) =>
      (.comment (markup.take 4 ++ content ++ found.take 3), found.drop 3)
  else
    match splitTag? none markup with
    | none => (.unclosed markup, [])
    | some (closed, after) => (.tag closed, after)

def first (raw : Option RawText) (c : Char) (rest : List Char) : Lexeme × List Char :=
  if begins raw (c :: rest) then firstMarkup (c :: rest) else (.char c, rest)

theorem append_firstMarkup (markup : List Char) :
    (firstMarkup markup).1.text ++ (firstMarkup markup).2 = markup := by
  unfold firstMarkup
  split
  · split
    · exact List.append_nil _
    · rename_i content found hfound
      have hcontent := append_of_splitBefore? hfound
      simp only [text]
      rw [List.append_assoc, List.take_append_drop, List.append_assoc, hcontent,
        List.take_append_drop]
  · split
    · exact List.append_nil _
    · rename_i closed after htag
      exact (append_of_splitTag? htag).1

theorem append_first (raw : Option RawText) (c : Char) (rest : List Char) :
    (first raw c rest).1.text ++ (first raw c rest).2 = c :: rest := by
  unfold first
  split
  · exact append_firstMarkup _
  · rfl

theorem text_first_ne_nil (raw : Option RawText) (c : Char) (rest : List Char) :
    (first raw c rest).1.text ≠ [] := by
  unfold first
  split
  · unfold firstMarkup
    split
    · rename_i hcomment
      split
      · exact List.cons_ne_nil _ _
      · simp [text]
    · split
      · exact List.cons_ne_nil _ _
      · rename_i closed after htag
        exact (append_of_splitTag? htag).2
  · exact List.cons_ne_nil _ _

private theorem length_first_lt (raw : Option RawText) (c : Char) (rest : List Char) :
    (first raw c rest).2.length < (c :: rest).length := by
  have hlength := congrArg List.length (append_first raw c rest)
  have hpos := List.length_pos_iff.2 (text_first_ne_nil raw c rest)
  rw [List.length_append] at hlength
  omega

end Lexeme

/-- The lexemes of markup that begins with raw text or without. -/
def lexemes (raw : Option RawText) (markup : List Char) : List Lexeme :=
  match markup with
  | [] => []
  | c :: rest =>
    (Lexeme.first raw c rest).1 ::
      lexemes ((Lexeme.first raw c rest).1.rawAfter raw) (Lexeme.first raw c rest).2
termination_by markup.length
decreasing_by exact Lexeme.length_first_lt raw c rest

def textOf (units : List Lexeme) : List Char := units.flatMap Lexeme.text

theorem textOf_cons (l : Lexeme) (units : List Lexeme) :
    textOf (l :: units) = l.text ++ textOf units := List.flatMap_cons

theorem textOf_append (units units' : List Lexeme) :
    textOf (units ++ units') = textOf units ++ textOf units' := List.flatMap_append

theorem textOf_lexemes (raw : Option RawText) (markup : List Char) :
    textOf (lexemes raw markup) = markup := by
  induction raw, markup using lexemes.induct with
  | case1 raw => rw [lexemes]; rfl
  | case2 raw c rest ih =>
    rw [lexemes, textOf_cons, ih, Lexeme.append_first]

namespace Minifier

open Lexeme

private theorem isTagStart_of_begins {raw : Option RawText} {c : Char} {rest : List Char}
    (h : begins raw (c :: rest) = true) : isTagStart (c :: rest) = true := by
  cases raw with
  | none => exact h
  | some r =>
    by_cases hc : c = '<'
    · subst hc
      rfl
    · have hfalse : begins (some r) (c :: rest) = false := startsWith_cons hc rest
      rw [h] at hfalse
      cases hfalse

/-- What the minifier writes for a lexeme, and what is left over. -/
def absorb (m : Minifier) : Lexeme → List Char × Minifier
  | .char c =>
    match m.raw with
    | none => ([], { m with pending := m.pending ++ [c] })
    | some _ => ([c], m)
  | .tag text => (minifyText m.pending ++ text, { raw := RawText.ofTag? text })
  | .unclosed text => (minifyText m.pending ++ text, {})
  | .comment _ => (minifyText m.pending, {})

def absorbAll (m : Minifier) : List Lexeme → List Char × Minifier
  | [] => ([], m)
  | l :: rest =>
    ((m.absorb l).1 ++ ((m.absorb l).2.absorbAll rest).1, ((m.absorb l).2.absorbAll rest).2)

theorem raw_absorb (m : Minifier) (l : Lexeme) : (m.absorb l).2.raw = l.rawAfter m.raw := by
  cases l with
  | char c =>
    rw [absorb, rawAfter]
    split
    · rfl
    · rfl
  | tag | unclosed | comment => rfl

theorem absorbAll_append (m : Minifier) (units units' : List Lexeme) :
    m.absorbAll (units ++ units') =
      ((m.absorbAll units).1 ++ ((m.absorbAll units).2.absorbAll units').1,
        ((m.absorbAll units).2.absorbAll units').2) := by
  induction units generalizing m with
  | nil => rfl
  | cons l units ih =>
    rw [List.cons_append, absorbAll, ih, absorbAll]
    simp only [List.append_assoc]

private theorem feed_of_begins {m : Minifier} {c : Char} {rest : List Char}
    (h : begins m.raw (c :: rest) = true) :
    m.feed (c :: rest) =
      (minifyText m.pending ++ (feedMarkup (c :: rest)).1, (feedMarkup (c :: rest)).2) := by
  have hraw : splitRaw m.raw (c :: rest) = ([], c :: rest) := by
    cases hm : m.raw with
    | none => rfl
    | some r =>
      rw [hm] at h
      have hstarts : startsWithIgnoringCase r.close (c :: rest) = true := h
      rw [splitRaw, splitBefore?, if_pos hstarts, Option.getD_some]
  have hsplit : splitBefore? isTagStart (c :: rest) = some ([], c :: rest) :=
    if_pos (isTagStart_of_begins h)
  rw [feed_eq, hraw]
  simp only [hsplit, List.nil_append, List.append_nil]

private theorem feed_char {m : Minifier} {c : Char} {rest : List Char}
    (h : begins m.raw (c :: rest) = false) :
    m.feed (c :: rest) =
      ((m.absorb (.char c)).1 ++ ((m.absorb (.char c)).2.feed rest).1,
        ((m.absorb (.char c)).2.feed rest).2) := by
  unfold absorb
  cases hraw : m.raw with
  | none =>
    have hc : c ≠ '<' := by
      rintro rfl
      rw [hraw] at h
      cases h
    rw [feed_text hraw hc, hraw]
    rfl
  | some r =>
    rw [hraw] at h
    rw [feed_skip hraw h]
    rfl

private theorem feed_first (m : Minifier) (c : Char) (rest : List Char) :
    m.feed (c :: rest) =
      ((m.absorb (first m.raw c rest).1).1 ++
          ((m.absorb (first m.raw c rest).1).2.feed (first m.raw c rest).2).1,
        ((m.absorb (first m.raw c rest).1).2.feed (first m.raw c rest).2).2) := by
  unfold first
  split
  · rename_i hbegins
    rw [feed_of_begins hbegins]
    unfold firstMarkup feedMarkup
    split
    · cases splitBefore? isCommentEnd (List.drop 4 (c :: rest)) with
      | none => simp only [absorb, feed_nil, List.append_nil]
      | some parts => simp only [absorb]
    · cases splitTag? none (c :: rest) with
      | none => simp only [absorb, feed_nil, List.append_nil]
      | some parts => simp only [absorb, List.append_assoc]
  · rename_i hbegins
    exact feed_char (Bool.eq_false_iff.2 hbegins)

theorem feed_eq_absorbAll (m : Minifier) (markup : List Char) :
    m.feed markup = m.absorbAll (lexemes m.raw markup) := by
  generalize hraw : m.raw = raw
  induction raw, markup using lexemes.induct generalizing m with
  | case1 raw => rw [feed_nil, lexemes, absorbAll]
  | case2 raw c rest ih =>
    subst hraw
    rw [lexemes, absorbAll, feed_first, ih _ (raw_absorb m _)]

end Minifier

end TreeRender.Markup
