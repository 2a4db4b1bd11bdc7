import Mathlib.Data.List.Infix
import TreeRender.Proofs.Minify.Lexemes

/-!
# Markup in pieces

However markup is cut into pieces, as long as no tag and no comment is cut, the minifier gives for the
pieces what it gives for the whole: a cut between lexemes leaves the lexemes on both sides as they
are, and what the pending text and the raw text tell is all that the next piece has to know.
-/

namespace TreeRender.Markup

open Minifier (isTagStart isCommentStart isCommentEnd mem_of_splitTag? startsWith_append)

private theorem of_splitBefore? {p : List Char → Bool} {text before found : List Char}
    (h : splitBefore? p text = some (before, found)) : p found = true := by
  induction text generalizing before with
  | nil => cases h
  | cons c rest ih =>
    rw [splitBefore?] at h
    split at h
    · rename_i hp
      cases h
      exact hp
    · obtain ⟨parts, hparts, heq⟩ := Option.map_eq_some_iff.1 h
      cases heq
      exact ih hparts

private theorem splitBefore?_commentEnd {content after : List Char}
    (h : splitBefore? isCommentEnd (content ++ '-' :: '-' :: '>' :: after) =
      some (content, '-' :: '-' :: '>' :: after)) (other : List Char) :
    splitBefore? isCommentEnd (content ++ '-' :: '-' :: '>' :: other) =
      some (content, '-' :: '-' :: '>' :: other) := by
  induction content with
  | nil => rfl
  | cons c content ih =>
    rw [List.cons_append, splitBefore?] at h ⊢
    -- Only three characters count, and they are the same for both.
    have hend : isCommentEnd (c :: (content ++ '-' :: '-' :: '>' :: other)) =
        isCommentEnd (c :: (content ++ '-' :: '-' :: '>' :: after)) := by
      cases content with
      | nil => rfl
      | cons d content => cases content <;> rfl
    rw [hend]
    split at h
    · cases h
    · rename_i hnot
      obtain ⟨⟨before, found⟩, hparts, heq⟩ := Option.map_eq_some_iff.1 h
      obtain ⟨hbefore, rfl⟩ := Prod.mk.inj heq
      obtain rfl := (List.cons.inj hbefore).2
      rw [if_neg hnot, ih hparts]
      rfl

private theorem splitTag?_append {quote : Option Char} {tag after : List Char}
    (h : splitTag? quote (tag ++ after) = some (tag, after)) (other : List Char) :
    splitTag? quote (tag ++ other) = some (tag, other) := by
  induction tag generalizing quote with
  | nil => exact absurd rfl (append_of_splitTag? h).2
  | cons c tag ih =>
    have later {quote : Option Char} (hlater : (splitTag? quote (tag ++ after)).map
        (fun parts => (c :: parts.1, parts.2)) = some (c :: tag, after)) :
        (splitTag? quote (tag ++ other)).map (fun parts => (c :: parts.1, parts.2)) =
          some (c :: tag, other) := by
      obtain ⟨⟨tag', after'⟩, hparts, heq⟩ := Option.map_eq_some_iff.1 hlater
      obtain ⟨htag, rfl⟩ := Prod.mk.inj heq
      obtain rfl := (List.cons.inj htag).2
      rw [ih hparts]
      rfl
    cases quote with
    | none =>
      rw [List.cons_append, splitTag?] at h ⊢
      split at h
      · rename_i hc
        obtain ⟨htag, -⟩ := Prod.mk.inj (Option.some.inj h)
        obtain rfl := (List.cons.inj htag).2
        rw [if_pos hc]
        rfl
      · rename_i hc
        rw [if_neg hc]
        exact later h
    | some q =>
      rw [List.cons_append, splitTag?] at h ⊢
      exact later h

private theorem startsWith_append_of_startsWith {start markup : List Char}
    (h : startsWithIgnoringCase start markup = true) (more : List Char) :
    startsWithIgnoringCase start (markup ++ more) = true := by
  unfold startsWithIgnoringCase at h ⊢
  have hlength := congrArg List.length (eq_of_beq h)
  rw [List.length_map, List.length_take] at hlength
  rw [List.take_append_of_le_length (by omega)]
  exact h

namespace Lexeme

theorem begins_append {raw : Option RawText} {text : List Char} (h : '>' ∈ text)
    (after : List Char) : begins raw (text ++ after) = begins raw text := by
  cases raw with
  | none =>
    obtain ⟨c, rest, rfl⟩ := List.exists_cons_of_ne_nil (List.ne_nil_of_mem h)
    rfl
  | some r => exact startsWith_append h after

private theorem isCommentStart_append {tag after : List Char} (htag : '>' ∈ tag)
    (h : ¬isCommentStart (tag ++ after) = true) (other : List Char) :
    ¬isCommentStart (tag ++ other) = true := by
  intro hstart
  have hprefix : ['<', '!', '-', '-'] <+: tag ++ other := List.isPrefixOf_iff_prefix.1 hstart
  rcases List.prefix_or_prefix_of_prefix hprefix (List.prefix_append tag other) with hlong | hshort
  · exact h (List.isPrefixOf_iff_prefix.2 (hlong.trans (List.prefix_append tag after)))
  · have hmem := hshort.subset htag
    revert hmem
    decide

theorem firstMarkup_append {markup rest : List Char} {l : Lexeme}
    (h : firstMarkup markup = (l, rest)) :
    rest = [] ∨ '>' ∈ l.text ∧ ∀ other, firstMarkup (l.text ++ other) = (l, other) := by
  unfold firstMarkup at h
  split at h
  · rename_i hcomment
    obtain ⟨inner, rfl⟩ := List.isPrefixOf_iff_prefix.1 hcomment
    split at h
    · cases h
      exact .inl rfl
    · rename_i content found hfound
      obtain ⟨after, rfl⟩ := List.isPrefixOf_iff_prefix.1 (of_splitBefore? hfound)
      obtain ⟨rfl, rfl⟩ := Prod.mk.inj h
      have hinner : content ++ '-' :: '-' :: '>' :: after = inner := append_of_splitBefore? hfound
      subst hinner
      refine .inr ⟨by simp [text], fun other => ?_⟩
      have hother := splitBefore?_commentEnd hfound other
      simp [text, firstMarkup, isCommentStart, hother]
  · rename_i hcomment
    split at h
    · cases h
      exact .inl rfl
    · rename_i closed after hclosed
      obtain ⟨rfl, rfl⟩ := Prod.mk.inj h
      have hmem := mem_of_splitTag? hclosed
      have hmarkup := (append_of_splitTag? hclosed).1
      subst hmarkup
      refine .inr ⟨hmem, fun other => ?_⟩
      rw [text, firstMarkup, if_neg (isCommentStart_append hmem hcomment other),
        splitTag?_append hclosed other]

private theorem begins_append_of_begins {raw : Option RawText} {c : Char} {rest : List Char}
    (h : begins raw (c :: rest) = true) (more : List Char) :
    begins raw (c :: (rest ++ more)) = true := by
  cases raw with
  | none => exact h
  | some r => exact startsWith_append_of_startsWith h more

private theorem first_front {raw : Option RawText} {c : Char} {rest rest' more : List Char}
    {l : Lexeme}
    (h : first raw c (rest ++ more) = (l, rest' ++ more)) : first raw c rest = (l, rest') := by
  have happend := append_first raw c (rest ++ more)
  rw [h, ← List.cons_append, ← List.append_assoc] at happend
  have hfront : l.text ++ rest' = c :: rest := List.append_cancel_right happend
  unfold first at h ⊢
  split at h
  · rename_i hbegins
    rcases firstMarkup_append h with hnil | ⟨hmem, hsame⟩
    · -- Nothing is behind the cut.
      obtain ⟨rfl, rfl⟩ := List.append_eq_nil_iff.1 hnil
      rw [List.append_nil] at hbegins h
      rw [if_pos hbegins, h, List.append_nil]
    · rw [← List.cons_append, ← hfront, List.append_assoc, begins_append hmem] at hbegins
      rw [← hfront, begins_append hmem, if_pos hbegins, hsame]
  · rename_i hbegins
    obtain ⟨rfl, hrest⟩ := Prod.mk.inj h
    rw [if_neg fun hpart => hbegins (begins_append_of_begins hpart more),
      List.append_cancel_right hrest]

end Lexeme

def rawAfterAll (raw : Option RawText) (units : List Lexeme) : Option RawText :=
  units.foldl Lexeme.rawAfter raw

private theorem first_of_lexemes {raw : Option RawText} {l : Lexeme} {after : List Char}
    {units : List Lexeme} (h : lexemes raw (l.text ++ after) = l :: units) :
    ∃ c inner, l.text = c :: inner ∧ Lexeme.first raw c (inner ++ after) = (l, after) ∧
      lexemes (l.rawAfter raw) after = units := by
  cases hmarkup : l.text ++ after with
  | nil =>
    rw [hmarkup, lexemes] at h
    cases h
  | cons c rest =>
    rw [hmarkup, lexemes] at h
    obtain ⟨hl, hunits⟩ := List.cons.inj h
    have hne : l.text ≠ [] := hl ▸ Lexeme.text_first_ne_nil raw c rest
    have hafter : (Lexeme.first raw c rest).2 = after := by
      have happend := Lexeme.append_first raw c rest
      rw [hl, ← hmarkup] at happend
      exact List.append_cancel_left happend
    rw [hl, hafter] at hunits
    obtain ⟨c', inner, hinner⟩ := List.exists_cons_of_ne_nil hne
    rw [hinner, List.cons_append] at hmarkup
    obtain ⟨rfl, rfl⟩ := List.cons.inj hmarkup
    exact ⟨c', inner, hinner, Prod.ext hl hafter, hunits⟩

private theorem lexemes_of_append {raw : Option RawText} {back : List Char}
    {units units' : List Lexeme}
    (h : lexemes raw (textOf units ++ back) = units ++ units') :
    lexemes raw (textOf units) = units ∧ lexemes (rawAfterAll raw units) back = units' := by
  induction units generalizing raw with
  | nil => exact ⟨by rw [textOf, List.flatMap_nil, lexemes], h⟩
  | cons l units ih =>
    rw [textOf_cons, List.append_assoc, List.cons_append] at h
    obtain ⟨c, inner, hinner, hfirst, hrest⟩ := first_of_lexemes h
    obtain ⟨hunits, hback⟩ := ih hrest
    rw [← List.append_assoc] at hfirst
    refine ⟨?_, hback⟩
    rw [textOf_cons, hinner, List.cons_append, lexemes, Lexeme.first_front hfirst, hunits]

/-- Whether the place behind the first `k` characters is inside a tag or a comment. -/
def isInside : List Lexeme → Nat → Bool
  | [], _ => false
  | l :: units, k =>
    if k < l.text.length then l.isMarkup && decide (0 < k) else isInside units (k - l.text.length)

private theorem exists_append_of_isInside {units : List Lexeme} {k : Nat}
    (hk : k ≤ (textOf units).length)
    (h : isInside units k = false) :
    ∃ before behind, units = before ++ behind ∧ (textOf before).length = k := by
  induction units generalizing k with
  | nil => exact ⟨[], [], rfl, (Nat.le_zero.1 hk).symm⟩
  | cons l units ih =>
    rw [textOf_cons, List.length_append] at hk
    rw [isInside] at h
    split at h
    · rename_i hlt
      -- In front of a tag or comment, or of a single character.
      have hzero : k = 0 := by
        cases l with
        | char c => exact Nat.lt_one_iff.1 hlt
        | tag | unclosed | comment => simpa [Lexeme.isMarkup] using h
      exact ⟨[], l :: units, rfl, hzero.symm⟩
    · rename_i hle
      obtain ⟨before, behind, rfl, hbefore⟩ := ih (by omega) h
      refine ⟨l :: before, behind, rfl, ?_⟩
      rw [textOf_cons, List.length_append, hbefore]
      omega

private theorem isInside_append (before behind : List Lexeme) (k : Nat) :
    isInside (before ++ behind) ((textOf before).length + k) = isInside behind k := by
  induction before with
  | nil => rw [textOf, List.flatMap_nil, List.length_nil, Nat.zero_add, List.nil_append]
  | cons l before ih =>
    rw [List.cons_append, textOf_cons, List.length_append, isInside, if_neg (by omega),
      Nat.add_assoc, Nat.add_sub_cancel_left, ih]

private theorem lexemes_append {raw : Option RawText} {front back : List Char}
    (h : isInside (lexemes raw (front ++ back)) front.length = false) :
    lexemes raw (front ++ back) =
      lexemes raw front ++ lexemes (rawAfterAll raw (lexemes raw front)) back := by
  have hall := textOf_lexemes raw (front ++ back)
  have hle : front.length ≤ (textOf (lexemes raw (front ++ back))).length := by
    rw [hall, List.length_append]
    omega
  obtain ⟨before, behind, hunits, hbefore⟩ := exists_append_of_isInside hle h
  rw [hunits, textOf_append] at hall
  obtain rfl : textOf before = front := List.append_inj_left hall hbefore
  obtain ⟨hlexemes, hbehind⟩ := lexemes_of_append hunits
  rw [hunits, hlexemes, hbehind]

namespace Minifier

def feedAll (m : Minifier) : List String → List Char × Minifier
  | [] => ([], m)
  | piece :: rest =>
    let (written, m) := m.feed piece.toList
    let (more, m) := m.feedAll rest
    (written ++ more, m)

private theorem raw_absorbAll (m : Minifier) (units : List Lexeme) :
    (m.absorbAll units).2.raw = rawAfterAll m.raw units := by
  induction units generalizing m with
  | nil => rfl
  | cons l units ih =>
    rw [absorbAll, ih, raw_absorb]
    rfl

private theorem feedAll_eq_absorbAll (m : Minifier) (pieces : List String)
    (h : ∀ front, front <+: pieces → isInside (lexemes m.raw (String.join pieces).toList)
      (String.join front).toList.length = false) :
    m.feedAll pieces = m.absorbAll (lexemes m.raw (String.join pieces).toList) := by
  induction pieces generalizing m with
  | nil =>
    have hnil : (String.join []).toList = [] := rfl
    rw [hnil, lexemes]
    rfl
  | cons piece rest ih =>
    have hjoin (texts : List String) : (String.join (piece :: texts)).toList =
        piece.toList ++ (String.join texts).toList := by
      rw [String.join_cons, String.toList_append]
    rw [hjoin] at h ⊢
    have hcut := h [piece] (List.prefix_append [piece] rest)
    have hpiece : (String.join [piece]).toList = piece.toList :=
      (hjoin []).trans (List.append_nil _)
    rw [hpiece] at hcut
    have hunits := lexemes_append hcut
    rw [← raw_absorbAll] at hunits
    have hrest := ih (m.absorbAll (lexemes m.raw piece.toList)).2 (by
      intro front hprefix
      have hinside := h (piece :: front) (List.cons_prefix_cons.2 ⟨rfl, hprefix⟩)
      have hcount := isInside_append (lexemes m.raw piece.toList)
        (lexemes (m.absorbAll (lexemes m.raw piece.toList)).2.raw (String.join rest).toList)
        (String.join front).toList.length
      rw [textOf_lexemes] at hcount
      rw [hunits, hjoin, List.length_append, hcount] at hinside
      exact hinside)
    simp only [feedAll, feed_eq_absorbAll, hrest]
    rw [hunits, absorbAll_append]

end Minifier

def minifyPieces (pieces : List String) : String :=
  let (written, m) := Minifier.feedAll {} pieces
  String.ofList (written ++ m.finish.1)

/-- However markup is cut into pieces, as long as no tag and no comment is cut, the pieces are
minified to what the whole is minified to. -/
theorem minifyPieces_eq_minify (pieces : List String)
    (h : ∀ front, front <+: pieces →
      isInside (lexemes none (String.join pieces).toList) (String.join front).length = false) :
    minifyPieces pieces = minify (String.join pieces) := by
  have hall := Minifier.feedAll_eq_absorbAll {} pieces fun front hprefix => by
    rw [String.length_toList]
    exact h front hprefix
  rw [minifyPieces, minify, hall, Minifier.feed_eq_absorbAll]

/-- A run of blanks in three pieces, raw text that is cut in what looks like its closing tag, and a
comment with a tag in it. -/
def scriptPieces : List String :=
  ["<p>a ", " ", "", " b</p> <Script>i  < '</scr", "ap>'</SCRIPT>", " <!-- <b> --> "]

theorem minifyPieces_eq_minify_script :
    (∀ front ∈ scriptPieces.inits,
      isInside (lexemes none (String.join scriptPieces).toList) (String.join front).length = false) ∧
    minifyPieces scriptPieces = "<p>a b</p><Script>i  < '</scrap>'</SCRIPT>" := by
  have hcuts : ∀ front ∈ scriptPieces.inits,
      isInside (lexemes none (String.join scriptPieces).toList) (String.join front).length =
        false := by
    decide +kernel
  refine ⟨hcuts, ?_⟩
  rw [minifyPieces_eq_minify scriptPieces fun front hprefix =>
    hcuts front ((List.mem_inits front _).2 hprefix)]
  decide +kernel

end TreeRender.Markup
