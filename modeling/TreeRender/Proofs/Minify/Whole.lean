import TreeRender.Markup.Minify

/-!
# Cutting markup for the minifier

The minifier gives the same for markup in two pieces as for the whole, if no tag is cut and the
first piece holds no comment. `Whole` describes such a piece: characters other than `<`, and
complete tags.
-/

namespace TreeRender.Markup

/-- A complete tag, in which no other tag begins and which is no comment. -/
structure IsTag (tag : List Char) : Prop where
  starts : ∃ c rest, tag = '<' :: c :: rest ∧ c ≠ '!' ∧ '<' ∉ c :: rest
  ends : ∀ after, splitTag? none (tag ++ after) = some (tag, after)

inductive Whole : List Char → Prop
  | nil : Whole []
  | text {c rest} : c ≠ '<' → Whole rest → Whole (c :: rest)
  | tag {tag rest} : IsTag tag → Whole rest → Whole (tag ++ rest)

namespace Whole

theorem append {xs ys : List Char} (hx : Whole xs) (hy : Whole ys) : Whole (xs ++ ys) := by
  induction hx with
  | nil => exact hy
  | text hc _ ih => exact .text hc ih
  | tag htag _ ih =>
    rw [List.append_assoc]
    exact .tag htag ih

theorem of_notMem {xs : List Char} (h : '<' ∉ xs) : Whole xs := by
  induction xs with
  | nil => exact .nil
  | cons c rest ih =>
    refine .text (fun hc => h (hc ▸ List.mem_cons_self)) (ih fun hmem => h ?_)
    exact List.mem_cons_of_mem _ hmem

theorem of_isTag {tag : List Char} (h : IsTag tag) : Whole tag := by
  rw [← List.append_nil tag]
  exact .tag h .nil

end Whole

namespace Minifier

def feedMarkup (markup : List Char) : List Char × Minifier :=
  if isCommentStart markup then
    match splitBefore? isCommentEnd (markup.drop 4) with
    | none => ([], {})
    | some (_, found) => feed {} (found.drop 3)
  else
    match splitTag? none markup with
    | none => (markup, {})
    | some (tag, after) =>
      (tag ++ (feed { raw := RawText.ofTag? tag } after).1,
        (feed { raw := RawText.ofTag? tag } after).2)

theorem feed_eq (m : Minifier) (input : List Char) : m.feed input =
    match splitBefore? isTagStart (splitRaw m.raw input).2 with
    | none =>
      ((splitRaw m.raw input).1,
        { pending := m.pending ++ (splitRaw m.raw input).2
          raw := afterRaw m.raw (splitRaw m.raw input).2 })
    | some (text, markup) =>
      ((splitRaw m.raw input).1 ++ minifyText (m.pending ++ text) ++ (feedMarkup markup).1,
        (feedMarkup markup).2) := by
  rw [feed]
  split
  · rename_i hsplit
    rw [hsplit]
  · rename_i text markup hsplit
    rw [hsplit]
    simp only [feedMarkup]
    split
    · split <;> rename_i hfound
      · rw [hfound]
        simp
      · rw [hfound]
    · split <;> rename_i hfound
      · rw [hfound]
      · rw [hfound]
        simp

theorem feed_nil (m : Minifier) : m.feed [] = ([], m) := by
  rw [feed_eq]
  obtain ⟨pending, raw⟩ := m
  cases raw with
  | none => simp [splitRaw, splitBefore?, afterRaw]
  | some r => simp [splitRaw, splitBefore?, afterRaw]

private theorem eq_of_toLower_eq {c : Char} (h : c.toLower = '<') : c = '<' := by
  unfold Char.toLower at h
  split at h
  · rename_i hupper
    have hval := congrArg (fun c => c.val.toNat) h
    simp only [UInt32.toNat_add] at hval
    have h1 : 65 ≤ c.val.toNat := hupper.1
    have h2 : c.val.toNat ≤ 90 := hupper.2
    have h3 : ('a'.val - 'A'.val).toNat = 32 := by decide
    have h4 : ('<'.val).toNat = 60 := by decide
    rw [h3, h4] at hval
    omega
  · exact h

theorem startsWith_cons {r : RawText} {c : Char} (hc : c ≠ '<') (rest : List Char) :
    startsWithIgnoringCase r.close (c :: rest) = false := by
  have hlower : c.toLower ≠ '<' := fun h => hc (eq_of_toLower_eq h)
  cases r <;> simp [startsWithIgnoringCase, RawText.close, hlower]

theorem startsWith_append {r : RawText} {tag : List Char} (htag : '>' ∈ tag) (after : List Char) :
    startsWithIgnoringCase r.close (tag ++ after) = startsWithIgnoringCase r.close tag := by
  unfold startsWithIgnoringCase
  by_cases hlong : r.close.length ≤ tag.length
  · rw [List.take_append_of_le_length hlong]
  · have hclose : '>' ∉ r.close := by cases r <;> decide
    have htake (after : List Char) : '>' ∈ ((tag ++ after).take r.close.length).map Char.toLower := by
      refine List.mem_map.2 ⟨'>', ?_, by decide⟩
      rw [List.take_append, List.take_of_length_le (by omega)]
      exact List.mem_append_left _ htag
    have hne (after : List Char) : ((tag ++ after).take r.close.length).map Char.toLower ≠ r.close :=
      fun h => hclose (h ▸ htake after)
    rw [beq_eq_false_iff_ne.2 (hne after)]
    have hne' := hne []
    rw [List.append_nil] at hne'
    rw [beq_eq_false_iff_ne.2 hne']

theorem feed_skip {m : Minifier} {r : RawText} (hraw : m.raw = some r) {c : Char}
    {rest : List Char} (hc : startsWithIgnoringCase r.close (c :: rest) = false) :
    m.feed (c :: rest) = (c :: (m.feed rest).1, (m.feed rest).2) := by
  have hsplit : splitRaw m.raw (c :: rest) =
      (c :: (splitRaw m.raw rest).1, (splitRaw m.raw rest).2) := by
    simp only [splitRaw, hraw, splitBefore?, hc, Bool.false_eq_true, if_false]
    cases splitBefore? (startsWithIgnoringCase r.close) rest <;> rfl
  rw [feed_eq, feed_eq m rest, hsplit]
  cases splitBefore? isTagStart (splitRaw m.raw rest).2 <;> rfl

theorem feed_text {m : Minifier} (hraw : m.raw = none) {c : Char} (hc : c ≠ '<')
    (rest : List Char) :
    m.feed (c :: rest) = { m with pending := m.pending ++ [c] }.feed rest := by
  have hstart : isTagStart (c :: rest) = false := by
    simp only [isTagStart, List.head?_cons, Option.some.injEq, decide_eq_false_iff_not]
    exact hc
  rw [feed_eq, feed_eq _ rest]
  simp only [splitRaw, hraw, splitBefore?, hstart, Bool.false_eq_true, if_false]
  cases splitBefore? isTagStart rest with
  | none => simp [afterRaw]
  | some parts => simp

private theorem feed_tag {m : Minifier} {tag after : List Char} (htag : IsTag tag)
    (hraw : splitRaw m.raw (tag ++ after) = ([], tag ++ after)) :
    m.feed (tag ++ after) =
      (minifyText m.pending ++ tag ++ (feed { raw := RawText.ofTag? tag } after).1,
        (feed { raw := RawText.ofTag? tag } after).2) := by
  obtain ⟨c, body, rfl, hc, -⟩ := htag.starts
  have hcomment : isCommentStart ('<' :: c :: body ++ after) = false := by
    simp [isCommentStart, List.isPrefixOf, hc.symm]
  have hsplit : splitBefore? isTagStart ('<' :: c :: body ++ after) =
      some ([], '<' :: c :: body ++ after) := by
    simp [splitBefore?, isTagStart]
  rw [feed_eq, hraw]
  simp only [hsplit, feedMarkup, hcomment, Bool.false_eq_true, if_false, htag.ends,
    List.append_nil, List.nil_append, List.append_assoc]

private theorem feed_skipTag {m : Minifier} {r : RawText} (hraw : m.raw = some r)
    {tag after : List Char}
    (htag : IsTag tag) (hc : startsWithIgnoringCase r.close (tag ++ after) = false) :
    m.feed (tag ++ after) = (tag ++ (m.feed after).1, (m.feed after).2) := by
  obtain ⟨c, body, rfl, -, hbody⟩ := htag.starts
  have inside (xs : List Char) (h : '<' ∉ xs) :
      m.feed (xs ++ after) = (xs ++ (m.feed after).1, (m.feed after).2) := by
    induction xs with
    | nil => rfl
    | cons x xs ih =>
      have hx : x ≠ '<' := fun hx => h (hx ▸ List.mem_cons_self)
      rw [List.cons_append, feed_skip hraw (startsWith_cons hx _),
        ih fun hmem => h (List.mem_cons_of_mem _ hmem)]
      rfl
  rw [List.cons_append] at hc ⊢
  rw [feed_skip hraw hc, inside _ hbody]
  rfl

theorem mem_of_splitTag? {quote : Option Char} {markup tag after : List Char}
    (h : splitTag? quote markup = some (tag, after)) : '>' ∈ tag := by
  induction markup generalizing quote tag with
  | nil => simp [splitTag?] at h
  | cons c rest ih =>
    cases quote with
    | none =>
      rw [splitTag?] at h
      split at h
      · rename_i hc
        cases h
        exact hc ▸ List.mem_cons_self
      · obtain ⟨more, hmore, heq⟩ := Option.map_eq_some_iff.1 h
        cases heq
        exact List.mem_cons_of_mem _ (ih hmore)
    | some q =>
      rw [splitTag?] at h
      obtain ⟨more, hmore, heq⟩ := Option.map_eq_some_iff.1 h
      cases heq
      exact List.mem_cons_of_mem _ (ih hmore)

private theorem mem_of_isTag {tag : List Char} (h : IsTag tag) : '>' ∈ tag := mem_of_splitTag?
    (h.ends [])

theorem feed_tag_cases (m : Minifier) {tag : List Char} (htag : IsTag tag) :
    (∀ after, m.feed (tag ++ after) =
      (minifyText m.pending ++ tag ++ (feed { raw := RawText.ofTag? tag } after).1,
        (feed { raw := RawText.ofTag? tag } after).2)) ∨
    m.raw ≠ none ∧ ∀ after, m.feed (tag ++ after) = (tag ++ (m.feed after).1, (m.feed after).2) := by
  cases hraw : m.raw with
  | none =>
    exact .inl fun after => feed_tag htag (by rw [hraw]; rfl)
  | some r =>
    have hmem := mem_of_isTag htag
    cases hclose : startsWithIgnoringCase r.close tag with
    | true =>
      refine .inl fun after => feed_tag htag ?_
      have hstart : startsWithIgnoringCase r.close (tag ++ after) = true := by
        rw [startsWith_append hmem, hclose]
      rw [hraw]
      obtain ⟨c, body, rfl, -, -⟩ := htag.starts
      simp only [splitRaw, List.cons_append] at hstart ⊢
      rw [splitBefore?, if_pos hstart]
      rfl
    | false =>
      refine .inr ⟨Option.some_ne_none r, fun after => feed_skipTag hraw htag ?_⟩
      rw [startsWith_append hmem, hclose]

/-- The minifier may be given markup in two pieces if the first one is whole. -/
theorem feed_append {a : List Char} (ha : Whole a) (m : Minifier) (b : List Char) :
    m.feed (a ++ b) = ((m.feed a).1 ++ ((m.feed a).2.feed b).1, ((m.feed a).2.feed b).2) := by
  induction ha generalizing m with
  | nil => rw [feed_nil]; rfl
  | @text c rest hc _ ih =>
    cases hraw : m.raw with
    | none => rw [List.cons_append, feed_text hraw hc, feed_text hraw hc, ih]
    | some r =>
      rw [List.cons_append, feed_skip hraw (startsWith_cons hc _),
        feed_skip hraw (startsWith_cons hc _), ih]
      rfl
  | @tag tag rest htag _ ih =>
    rw [List.append_assoc]
    rcases m.feed_tag_cases htag with htaken | ⟨-, hpassed⟩
    · rw [htaken, htaken, ih]
      simp only [List.append_assoc]
    · rw [hpassed, hpassed, ih]
      simp only [List.append_assoc]

end Minifier

end TreeRender.Markup
