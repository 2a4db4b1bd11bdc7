import TreeRender.Proofs.Minify.Collapse
import TreeRender.Proofs.Minify.Cuts

/-!
# Minifying twice

The lexemes of minified markup are those that the minifier keeps, so a second pass sees each text as
the first one has written it. A comment that is left out brings the texts on both sides together,
and then a blank can meet another one: only in that case does the second pass change anything, and
after it there are no comments left, so that a third one never does.
-/

namespace TreeRender.Markup

open Minifier (isTagStart isCommentStart startsWith_append absorb raw_absorb)
open Lexeme (begins firstMarkup first rawAfter)

namespace Minifier

def keep (m : Minifier) : Lexeme → List Lexeme
  | .char c =>
    match m.raw with
    | none => []
    | some _ => [.char c]
  | .tag text => (minifyText m.pending).map .char ++ [.tag text]
  | .unclosed text => (minifyText m.pending).map .char ++ [.unclosed text]
  | .comment _ => (minifyText m.pending).map .char

/-- The lexemes that are written for all lexemes and for the text that is left over. -/
def keepAll (m : Minifier) : List Lexeme → List Lexeme
  | [] => (minifyText m.pending).map .char
  | l :: units => m.keep l ++ (m.absorb l).2.keepAll units

end Minifier

private theorem keepAll_text (pending : List Char) (c : Char) (units : List Lexeme) :
    Minifier.keepAll { pending } (.char c :: units) =
      Minifier.keepAll { pending := pending ++ [c] } units := rfl

private theorem keepAll_rawText (pending : List Char) (r : RawText) (c : Char) (units : List Lexeme)
    :
    Minifier.keepAll { pending, raw := some r } (.char c :: units) =
      .char c :: Minifier.keepAll { pending, raw := some r } units := rfl

theorem textOf_map_char (text : List Char) : textOf (text.map .char) = text := by
  induction text with
  | nil => rfl
  | cons c text ih => rw [List.map_cons, textOf_cons, ih]; rfl

private theorem textOf_keep (m : Minifier) (l : Lexeme) : textOf (m.keep l) = (m.absorb l).1 := by
  cases l with
  | char c =>
    rw [Minifier.keep, absorb]
    cases m.raw <;> rfl
  | tag text | unclosed text =>
    rw [Minifier.keep, textOf_append, textOf_map_char, textOf_cons, textOf, List.flatMap_nil,
      List.append_nil]
    rfl
  | comment text => exact textOf_map_char _

private theorem textOf_keepAll (m : Minifier) (units : List Lexeme) : textOf (m.keepAll units) =
    (m.absorbAll units).1 ++ (m.absorbAll units).2.finish.1 := by
  induction units generalizing m with
  | nil => exact textOf_map_char _
  | cons l units ih =>
    rw [Minifier.keepAll, textOf_append, textOf_keep, ih, Minifier.absorbAll, List.append_assoc]

private theorem toList_minify (html : String) :
    (minify html).toList = textOf (Minifier.keepAll {} (lexemes none html.toList)) := by
  rw [textOf_keepAll, minify, Minifier.feed_eq_absorbAll, String.toList_ofList]

/-- Pending text holds no `<`, and in raw text nothing is pending. -/
structure Minifier.IsOpen (m : Minifier) : Prop where
  noTag : '<' ∉ m.pending
  empty : m.raw ≠ none → m.pending = []

theorem isOpen_of_pending {m : Minifier} (h : m.pending = []) : m.IsOpen where
  noTag := h ▸ List.not_mem_nil
  empty _ := h

theorem lexemes_of_begins {raw : Option RawText} {c : Char} {rest after : List Char} {l : Lexeme}
    (hbegins : begins raw (c :: rest) = true) (h : firstMarkup (c :: rest) = (l, after)) :
    lexemes raw (c :: rest) = l :: lexemes (l.rawAfter raw) after := by
  have hfirst : first raw c rest = (l, after) := by
    rw [first, if_pos hbegins, h]
  rw [lexemes, hfirst]

theorem lexemes_char {raw : Option RawText} {c : Char} {rest : List Char}
    (h : ¬begins raw (c :: rest) = true) :
    lexemes raw (c :: rest) = .char c :: lexemes raw rest := by
  have hfirst : first raw c rest = (.char c, rest) := by
    rw [first, if_neg h]
  rw [lexemes, hfirst]
  rfl

theorem eq_none_of_comment {raw : Option RawText} {c : Char} {rest text after : List Char}
    (hbegins : begins raw (c :: rest) = true)
    (h : firstMarkup (c :: rest) = (.comment text, after)) : raw = none := by
  cases raw with
  | none => rfl
  | some r =>
    exfalso
    unfold firstMarkup at h
    split at h
    · rename_i hcomment
      obtain ⟨inner, hinner⟩ := List.isPrefixOf_iff_prefix.1 hcomment
      rw [← hinner] at hbegins
      cases r <;> cases hbegins
    · split at h <;> cases h

theorem firstMarkup_ne_char {markup after : List Char} {c : Char} :
    firstMarkup markup ≠ (.char c, after) := by
  intro h
  unfold firstMarkup at h
  split at h
  · split at h <;> cases h
  · split at h <;> cases h

private theorem pending_absorb {markup after : List Char} {l : Lexeme}
    (h : firstMarkup markup = (l, after)) (m : Minifier) : (m.absorb l).2.pending = [] := by
  cases l with
  | char c => exact absurd h firstMarkup_ne_char
  | tag | unclosed | comment => rfl

private theorem keepAll_lexemes_nil {m : Minifier} (hm : m.pending = []) (raw : Option RawText) :
    m.keepAll (lexemes raw []) = [] := by
  rw [lexemes, Minifier.keepAll, hm]
  rfl

private theorem lexemes_text {raw : Option RawText} {text : List Char} (htag : '<' ∉ text)
    (hraw : raw ≠ none → text = []) (markup : List Char) :
    lexemes raw (text ++ markup) = text.map .char ++ lexemes raw markup := by
  induction text with
  | nil => rfl
  | cons c text ih =>
    cases raw with
    | some r => cases hraw nofun
    | none =>
      have hc : ¬begins none (c :: (text ++ markup)) = true := by
        intro h
        obtain rfl : c = '<' := Option.some.inj (of_decide_eq_true h)
        exact htag List.mem_cons_self
      rw [List.cons_append, lexemes_char hc,
        ih (fun h => htag (List.mem_cons_of_mem _ h)) fun h => absurd rfl h]
      rfl

private theorem lexemes_markup {raw : Option RawText} {c : Char} {rest after : List Char}
    {l : Lexeme}
    (hbegins : begins raw (c :: rest) = true) (h : firstMarkup (c :: rest) = (l, after))
    (other : List Char) (hother : after = [] → other = []) :
    lexemes raw (l.text ++ other) = l :: lexemes (l.rawAfter raw) other := by
  have happend := Lexeme.append_firstMarkup (c :: rest)
  rw [h] at happend
  rcases Lexeme.firstMarkup_append h with rfl | ⟨hmem, hsame⟩
  · rw [hother rfl, happend, lexemes_of_begins hbegins h]
  · obtain ⟨d, inner, hinner⟩ := List.exists_cons_of_ne_nil (List.ne_nil_of_mem hmem)
    rw [← happend, Lexeme.begins_append hmem, ← Lexeme.begins_append hmem other] at hbegins
    have hfirst := hsame other
    rw [hinner, List.cons_append] at hbegins hfirst ⊢
    exact lexemes_of_begins hbegins hfirst

private theorem front_of_raw {m : Minifier} {r : RawText} (hraw : m.raw = some r) (hm : m.IsOpen)
    (markup : List Char) :
    textOf (m.keepAll (lexemes (some r) markup)) = markup ∨
      ∃ front after other, '>' ∈ front ∧ markup = front ++ after ∧
        textOf (m.keepAll (lexemes (some r) markup)) = front ++ other := by
  have hpending := hm.empty (by rw [hraw]; exact nofun)
  induction markup with
  | nil => exact .inl (by rw [keepAll_lexemes_nil hpending]; rfl)
  | cons c rest ih =>
    cases hbegins : begins (some r) (c :: rest) with
    | false =>
      -- The character is passed over.
      have hkeep : textOf (m.keepAll (lexemes (some r) (c :: rest))) =
          c :: textOf (m.keepAll (lexemes (some r) rest)) := by
        rw [lexemes_char (Bool.eq_false_iff.1 hbegins), Minifier.keepAll, Minifier.keep,
          Minifier.absorb, hraw]
        rfl
      rw [hkeep]
      rcases ih with hall | ⟨front, after, other, hmem, hrest, hother⟩
      · exact .inl (congrArg (c :: ·) hall)
      · exact .inr ⟨c :: front, after, other, List.mem_cons_of_mem _ hmem,
          congrArg (c :: ·) hrest, congrArg (c :: ·) hother⟩
    | true =>
      obtain ⟨⟨l, after⟩, hfirst⟩ : ∃ parts, firstMarkup (c :: rest) = parts := ⟨_, rfl⟩
      have happend := Lexeme.append_firstMarkup (c :: rest)
      rw [hfirst] at happend
      -- The closing tag is written as it is, behind no text.
      have hkeep : textOf (m.keepAll (lexemes (some r) (c :: rest))) =
          l.text ++ textOf ((m.absorb l).2.keepAll (lexemes (l.rawAfter (some r)) after)) := by
        rw [lexemes_of_begins hbegins hfirst, Minifier.keepAll, textOf_append, textOf_keep]
        cases l with
        | char d => exact absurd hfirst firstMarkup_ne_char
        | comment text => cases eq_none_of_comment hbegins hfirst
        | tag text | unclosed text =>
          rw [absorb, hpending]
          rfl
      rw [hkeep]
      rcases Lexeme.firstMarkup_append hfirst with rfl | ⟨hmem, -⟩
      · rw [keepAll_lexemes_nil (pending_absorb hfirst m), ← happend]
        exact .inl rfl
      · exact .inr ⟨l.text, after, _, hmem, happend.symm, rfl⟩

private theorem isOpen_text {pending : List Char} {c : Char} {rest : List Char}
    (hm : Minifier.IsOpen { pending }) (h : ¬begins none (c :: rest) = true) :
    Minifier.IsOpen { pending := pending ++ [c] } where
  noTag hmem := by
    rcases List.mem_append.1 hmem with hmem | hmem
    · exact hm.noTag hmem
    · rw [← List.mem_singleton.1 hmem] at h
      exact h rfl
  empty h := absurd rfl h

private theorem begins_keepAll {m : Minifier} {r : RawText} (hraw : m.raw = some r) (hm : m.IsOpen)
    (c : Char) (rest : List Char) :
    begins (some r) (c :: textOf (m.keepAll (lexemes (some r) rest))) =
      begins (some r) (c :: rest) := by
  rcases front_of_raw hraw hm rest with hall | ⟨front, after, other, hmem, hrest, hother⟩
  · rw [hall]
  · have hmem := List.mem_cons_of_mem c hmem
    rw [hother, hrest, ← List.cons_append, ← List.cons_append, Lexeme.begins_append hmem,
      Lexeme.begins_append hmem]

private theorem lexemes_keepAll {m : Minifier} (hm : m.IsOpen) (markup : List Char) :
    lexemes m.raw (textOf (m.keepAll (lexemes m.raw markup))) =
      m.keepAll (lexemes m.raw markup) := by
  have hwritten (m : Minifier) (hm : m.IsOpen) (behind : List Char) : lexemes m.raw
      (minifyText m.pending ++ behind) =
        (minifyText m.pending).map .char ++ lexemes m.raw behind :=
    lexemes_text (notMem_minifyText (by decide) hm.noTag) (fun h => by rw [hm.empty h]; rfl) behind
  generalize hraw : m.raw = raw
  induction raw, markup using lexemes.induct generalizing m with
  | case1 raw =>
    have hall := hwritten m hm []
    rw [lexemes, List.append_nil, List.append_nil, hraw] at hall
    rw [lexemes, Minifier.keepAll, textOf_map_char, hall]
  | case2 raw c rest ih =>
    subst hraw
    cases hbegins : begins m.raw (c :: rest) with
    | false =>
      have hnot := Bool.eq_false_iff.1 hbegins
      have hfirst : first m.raw c rest = (.char c, rest) := by
        rw [first, if_neg hnot]
      rw [hfirst] at ih
      rw [lexemes_char hnot]
      obtain ⟨pending, raw⟩ := m
      cases raw with
      | none => exact ih (isOpen_text hm hnot) rfl
      | some r =>
        rw [keepAll_rawText, textOf_cons]
        have hagain := begins_keepAll rfl hm c rest
        rw [hbegins] at hagain
        exact (lexemes_char (Bool.eq_false_iff.1 hagain)).trans
          (congrArg (.char c :: ·) (ih hm rfl))
    | true =>
      obtain ⟨⟨l, after⟩, hmarkup⟩ : ∃ parts, firstMarkup (c :: rest) = parts := ⟨_, rfl⟩
      have hfirst : first m.raw c rest = (l, after) := by
        rw [first, if_pos hbegins, hmarkup]
      have hpending := pending_absorb hmarkup m
      rw [hfirst] at ih
      have hrest := ih (isOpen_of_pending hpending) (raw_absorb m l)
      have hagain := lexemes_markup hbegins hmarkup
        (textOf ((m.absorb l).2.keepAll (lexemes (l.rawAfter m.raw) after))) fun hnil => by
          rw [hnil, keepAll_lexemes_nil hpending]
          rfl
      rw [lexemes_of_begins hbegins hmarkup, Minifier.keepAll]
      cases l with
      | char d => exact absurd hmarkup firstMarkup_ne_char
      | comment text =>
        rw [Minifier.keep, textOf_append, textOf_map_char, hwritten m hm]
        have hnone := eq_none_of_comment hbegins hmarkup
        rw [hnone] at hrest ⊢
        exact congrArg (_ ++ ·) hrest
      | tag text | unclosed text =>
        rw [Minifier.keep, List.append_assoc, textOf_append, textOf_map_char, hwritten m hm]
        exact congrArg (_ ++ ·) (hagain.trans (congrArg (_ :: ·) hrest))

def CommentsOutside : Option RawText → List Lexeme → Prop
  | _, [] => True
  | raw, l :: units =>
    (∀ text, l = .comment text → raw = none) ∧ CommentsOutside (l.rawAfter raw) units

private theorem commentsOutside_lexemes (raw : Option RawText) (markup : List Char) :
    CommentsOutside raw (lexemes raw markup) := by
  induction raw, markup using lexemes.induct with
  | case1 raw =>
    rw [lexemes]
    trivial
  | case2 raw c rest ih =>
    rw [lexemes]
    refine ⟨fun text htext => ?_, ih⟩
    unfold first at htext
    split at htext
    · rename_i hbegins
      exact eq_none_of_comment hbegins (Prod.ext htext rfl)
    · cases htext

/-- The stretches of text between tags, each as the texts into which comments part it. Of the first
stretch, the texts in `done` have ended at a comment. -/
def Minifier.texts (m : Minifier) (done : List (List Char)) :
    List Lexeme → List (List (List Char))
  | [] => [done ++ [m.pending]]
  | .char c :: units => (m.absorb (.char c)).2.texts done units
  | .comment text :: units => (m.absorb (.comment text)).2.texts (done ++ [m.pending]) units
  | .tag text :: units => (done ++ [m.pending]) :: (m.absorb (.tag text)).2.texts [] units
  | .unclosed text :: units => (done ++ [m.pending]) :: (m.absorb (.unclosed text)).2.texts [] units

/-- Some characters are lost, and none of them if and only if a condition holds. -/
def LosesUnless (condition : Prop) (before behind : List Char) : Prop :=
  behind.Sublist before ∧ (behind = before ↔ condition)

theorem LosesUnless.append {p q : Prop} {before before' behind behind' : List Char}
    (h : LosesUnless p before behind) (h' : LosesUnless q before' behind') :
    LosesUnless (p ∧ q) (before ++ before') (behind ++ behind') := by
  refine ⟨h.1.append h'.1, ?_⟩
  rw [← h.2, ← h'.2]
  constructor
  · intro heq
    have hlength := congrArg List.length heq
    rw [List.length_append, List.length_append] at hlength
    have hle := h.1.length_le
    have hle' := h'.1.length_le
    exact ⟨h.1.eq_of_length (by omega), h'.1.eq_of_length (by omega)⟩
  · rintro ⟨rfl, rfl⟩
    rfl

private theorem losesUnless_refl (text : List Char) : LosesUnless True text text :=
  ⟨List.Sublist.refl text, iff_true_intro rfl⟩

private theorem losesUnless_joinsWell (texts : List (List Char)) :
    LosesUnless (JoinsWell texts) (texts.flatMap minifyText)
      (minifyText (texts.flatMap minifyText)) :=
  ⟨sublist_minifyText (isSpaced_flatMap texts), minifyText_flatMap_iff texts⟩

private theorem keepAll_map_char {raw : Option RawText} {text : List Char}
    (h : raw ≠ none → text = [])
    (pending : List Char) (units : List Lexeme) :
    Minifier.keepAll { pending, raw } (text.map .char ++ units) =
      Minifier.keepAll { pending := pending ++ text, raw } units := by
  cases raw with
  | some r =>
    rw [h nofun, List.append_nil]
    rfl
  | none =>
    induction text generalizing pending with
    | nil =>
      rw [List.append_nil]
      rfl
    | cons c text ih =>
      rw [List.map_cons, List.cons_append, keepAll_text, ih _ fun h => absurd rfl h,
        List.append_assoc]
      rfl

private theorem flatMap_append_singleton (done : List (List Char)) (text : List Char) :
    (done ++ [text]).flatMap minifyText = done.flatMap minifyText ++ minifyText text := by
  rw [List.flatMap_append, List.flatMap_singleton]

private theorem minifyText_pending {m : Minifier} {done : List (List Char)}
    (h : m.raw ≠ none → m.pending = [] ∧ done = []) (hraw : m.raw ≠ none) :
    minifyText m.pending = [] := by
  rw [(h hraw).1]
  rfl

private theorem losesUnless_keepAll (m : Minifier) (done : List (List Char)) (units : List Lexeme)
    (hraw : m.raw ≠ none → m.pending = [] ∧ done = []) (hcomments : CommentsOutside m.raw units) :
    LosesUnless (∀ texts ∈ m.texts done units, JoinsWell texts)
      (done.flatMap minifyText ++ textOf (m.keepAll units))
      (textOf (Minifier.keepAll { pending := done.flatMap minifyText, raw := m.raw }
        (m.keepAll units))) := by
  induction units generalizing m done with
  | nil =>
    have htexts := losesUnless_joinsWell (done ++ [m.pending])
    rw [flatMap_append_singleton] at htexts
    have hwritten := keepAll_map_char (minifyText_pending hraw) (done.flatMap minifyText) []
    rw [List.append_nil] at hwritten
    rw [Minifier.keepAll, hwritten, Minifier.keepAll, textOf_map_char, textOf_map_char,
      Minifier.texts, List.forall_mem_singleton]
    exact htexts
  | cons l units ih =>
    obtain ⟨hcomment, hcomments⟩ := hcomments
    rw [← raw_absorb] at hcomments
    cases l with
    | char c =>
      obtain ⟨pending, raw⟩ := m
      cases raw with
      | none => exact ih _ done (fun h => absurd rfl h) hcomments
      | some r =>
        obtain ⟨rfl, rfl⟩ := hraw nofun
        have hrest := ih _ [] (fun _ => ⟨rfl, rfl⟩) hcomments
        have hall := (losesUnless_refl [c]).append hrest
        rw [true_and] at hall
        exact hall
    | comment text =>
      have hnone := hcomment text rfl
      have hrest := ih _ (done ++ [m.pending]) (fun h => absurd rfl h) hcomments
      have hwritten := keepAll_map_char (minifyText_pending hraw) (done.flatMap minifyText)
        ((m.absorb (.comment text)).2.keepAll units)
      rw [flatMap_append_singleton, List.append_assoc] at hrest
      rw [Minifier.keepAll, Minifier.keep, hwritten, textOf_append, textOf_map_char, hnone]
      exact hrest
    | tag text | unclosed text =>
      have htexts := losesUnless_joinsWell (done ++ [m.pending])
      rw [flatMap_append_singleton] at htexts
      have hrest := ih _ [] (fun _ => ⟨rfl, rfl⟩) hcomments
      have hall := htexts.append ((losesUnless_refl text).append hrest)
      rw [true_and, ← List.forall_mem_cons, List.append_assoc] at hall
      rw [Minifier.keepAll, Minifier.keep, List.append_assoc, textOf_append, textOf_map_char,
        keepAll_map_char (minifyText_pending hraw), List.singleton_append, Minifier.keepAll,
        Minifier.keep, List.append_assoc, textOf_append, textOf_map_char]
      exact hall

private theorem joinsWell_texts (m : Minifier) {units : List Lexeme}
    (h : ∀ text, .comment text ∉ units) : ∀ texts ∈ m.texts [] units, JoinsWell texts := by
  induction units generalizing m with
  | nil => exact List.forall_mem_singleton.2 (joinsWell_singleton m.pending)
  | cons l units ih =>
    have hrest (m : Minifier) := ih m fun text hmem => h text (List.mem_cons_of_mem l hmem)
    cases l with
    | char c => exact hrest _
    | comment text => exact absurd List.mem_cons_self (h text)
    | tag text | unclosed text =>
      exact List.forall_mem_cons.2 ⟨joinsWell_singleton m.pending, hrest _⟩

private theorem comment_notMem_keepAll (m : Minifier) (units : List Lexeme) (text : List Char) :
    .comment text ∉ m.keepAll units := by
  have hchars (chars : List Char) : Lexeme.comment text ∉ chars.map .char := by
    intro hmem
    obtain ⟨c, -, hc⟩ := List.mem_map.1 hmem
    cases hc
  have hkeep (m : Minifier) (l : Lexeme) : Lexeme.comment text ∉ m.keep l := by
    cases l with
    | char c =>
      rw [Minifier.keep]
      cases m.raw with
      | none => exact List.not_mem_nil
      | some r => exact hchars [c]
    | comment inner => exact hchars _
    | tag inner | unclosed inner =>
      intro hmem
      rcases List.mem_append.1 hmem with hmem | hmem
      · exact hchars _ hmem
      · cases List.mem_singleton.1 hmem
  induction units generalizing m with
  | nil => exact hchars _
  | cons l units ih =>
    intro hmem
    rcases List.mem_append.1 hmem with hmem | hmem
    · exact hkeep m l hmem
    · exact ih _ hmem

/-- The stretches of text between the tags of markup, each as the texts into which comments part
it. -/
def stretches (html : String) : List (List (List Char)) :=
  Minifier.texts {} [] (lexemes none html.toList)

private theorem lexemes_minify (html : String) : lexemes none (minify html).toList =
    Minifier.keepAll {} (lexemes none html.toList) := by
  have hopen : Minifier.IsOpen {} := isOpen_of_pending rfl
  rw [toList_minify]
  exact lexemes_keepAll hopen html.toList

private theorem minify_minify_iff (html : String) :
    minify (minify html) = minify html ↔ ∀ texts ∈ stretches html, JoinsWell texts := by
  have hloses := losesUnless_keepAll {} [] (lexemes none html.toList) (fun _ => ⟨rfl, rfl⟩)
    (commentsOutside_lexemes none html.toList)
  rw [← String.toList_inj, toList_minify (minify html), lexemes_minify, toList_minify html]
  exact hloses.2

private theorem minify_minify_of_noComment {html : String}
    (h : ∀ text, .comment text ∉ lexemes none html.toList) :
    minify (minify html) = minify html :=
  (minify_minify_iff html).2 (joinsWell_texts {} h)

/-- Markup that is minified stays as it is if and only if no blank that ended a text met one that
began a text behind a comment. Two passes are always enough. -/
theorem minify_stable_iff (html : String) :
    (minify (minify html) = minify html ↔ ∀ texts ∈ stretches html, JoinsWell texts) ∧
      minify (minify (minify html)) = minify (minify html) := by
  refine ⟨minify_minify_iff html, minify_minify_of_noComment fun text => ?_⟩
  rw [lexemes_minify]
  exact comment_notMem_keepAll {} _ text

/-- A comment between two blanks, for which the second pass takes one of them away. -/
theorem minify_minify_ne_comment :
    minify "a <!-- x --> b" = "a  b" ∧ minify (minify "a <!-- x --> b") ≠ minify "a <!-- x --> b" := by
  have hstretches : stretches "a <!-- x --> b" = [[['a', ' '], [' ', 'b']]] := by decide +kernel
  refine ⟨by decide +kernel, fun h => ?_⟩
  have hjoins := (minify_stable_iff "a <!-- x --> b").1.1 h
  rw [hstretches] at hjoins
  exact absurd (hjoins _ List.mem_cons_self) (by decide +kernel)

end TreeRender.Markup
