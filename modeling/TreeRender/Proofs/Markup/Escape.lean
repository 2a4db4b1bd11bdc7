import TreeRender.Markup.Text

/-!
# Reading escaped text

Reading entities undoes escaping, wherever the escaped text stands: an entity ends with a semicolon,
so what follows has no part in it. Escaped text holds no character that could end it, and each of
its ampersands begins an entity that escaping wrote, so it is read exactly one level deep.
-/

namespace TreeRender.Markup

def IsPlain (c : Char) : Prop := c ≠ '<' ∧ c ≠ '>' ∧ c ≠ '"' ∧ c ≠ '\''

instance : DecidablePred IsPlain := fun c =>
  inferInstanceAs (Decidable (c ≠ '<' ∧ c ≠ '>' ∧ c ≠ '"' ∧ c ≠ '\''))

theorem isPlain_of_all {cs : List Char} (h : cs.all (IsPlain ·) = true) {c : Char} (hc : c ∈ cs) :
    IsPlain c :=
  of_decide_eq_true (List.all_eq_true.1 h c hc)

def writtenEntities : List String := ["&amp;", "&lt;", "&gt;", "&quot;", "&#39;"]

private theorem escapeChar_cases (c : Char) :
    c ≠ '&' ∧ IsPlain c ∧ escapeChar c = [c] ∨
      ∃ entity ∈ writtenEntities, ∃ name, entity.toList = '&' :: name ∧ '&' ∉ name ∧
        name.all (IsPlain ·) = true ∧ escapeChar c = '&' :: name := by
  unfold escapeChar
  by_cases hamp : c = '&'
  · rw [if_pos hamp]
    exact .inr ⟨"&amp;", by decide, ['a', 'm', 'p', ';'], by decide, by decide, by decide, rfl⟩
  rw [if_neg hamp]
  by_cases hlt : c = '<'
  · rw [if_pos hlt]
    exact .inr ⟨"&lt;", by decide, ['l', 't', ';'], by decide, by decide, by decide, rfl⟩
  rw [if_neg hlt]
  by_cases hgt : c = '>'
  · rw [if_pos hgt]
    exact .inr ⟨"&gt;", by decide, ['g', 't', ';'], by decide, by decide, by decide, rfl⟩
  rw [if_neg hgt]
  by_cases hquot : c = '"'
  · rw [if_pos hquot]
    exact .inr
      ⟨"&quot;", by decide, ['q', 'u', 'o', 't', ';'], by decide, by decide, by decide, rfl⟩
  rw [if_neg hquot]
  by_cases hapos : c = '\''
  · rw [if_pos hapos]
    exact .inr ⟨"&#39;", by decide, ['#', '3', '9', ';'], by decide, by decide, by decide, rfl⟩
  exact .inl ⟨hamp, ⟨hlt, hgt, hquot, hapos⟩, if_neg hapos⟩

theorem isPlain_of_mem_escapeChars {text : List Char} {c : Char} (h : c ∈ escapeChars text) :
    IsPlain c := by
  obtain ⟨d, -, hd⟩ := List.mem_flatMap.1 h
  rcases escapeChar_cases d with ⟨-, hplain, hself⟩ | ⟨-, -, name, -, -, hname, hentity⟩
  · rw [hself] at hd
    rwa [List.mem_singleton.1 hd]
  · rw [hentity] at hd
    rcases List.mem_cons.1 hd with rfl | hd
    · decide
    · exact isPlain_of_all hname hd

theorem escapeChars_cons (c : Char) (text : List Char) :
    escapeChars (c :: text) = escapeChar c ++ escapeChars text :=
  List.flatMap_cons

private theorem unescapeFrom_escapeChar (c : Char) (rest : List Char) :
    unescapeFrom 0 (escapeChar c ++ rest) = c :: unescapeFrom 0 rest := by
  unfold escapeChar
  split
  · next h => subst h; rfl
  split
  · next h => subst h; rfl
  split
  · next h => subst h; rfl
  split
  · next h => subst h; rfl
  split
  · next h => subst h; rfl
  · next hamp _ _ _ _ => rw [List.singleton_append, unescapeFrom, if_neg hamp]

theorem unescapeFrom_escapeChars (text rest : List Char) :
    unescapeFrom 0 (escapeChars text ++ rest) = text ++ unescapeFrom 0 rest := by
  induction text with
  | nil => rfl
  | cons c text ih =>
    rw [escapeChars_cons, List.append_assoc, unescapeFrom_escapeChar, ih, List.cons_append]

theorem unescape_escape (text : String) : unescape (escape text) = text := by
  have h := unescapeFrom_escapeChars text.toList []
  rw [List.append_nil] at h
  rw [unescape, escape, String.toList_ofList, h, unescapeFrom, List.append_nil, String.ofList_toList]

theorem escapeChars_eq_self {text : List Char} (h : ∀ c ∈ text, c ≠ '&' ∧ IsPlain c) :
    escapeChars text = text := by
  induction text with
  | nil => rfl
  | cons c text ih =>
    obtain ⟨hamp, hlt, hgt, hquot, hapos⟩ := h c List.mem_cons_self
    have hc : escapeChar c = [c] := by
      rw [escapeChar, if_neg hamp, if_neg hlt, if_neg hgt, if_neg hquot, if_neg hapos]
    rw [escapeChars_cons, hc, ih fun d hd => h d (List.mem_cons_of_mem _ hd), List.singleton_append]

theorem escape_eq_self {text : String} (h : ∀ c ∈ text.toList, c ≠ '&' ∧ IsPlain c) :
    escape text = text := by
  rw [escape, escapeChars_eq_self h, String.ofList_toList]

private theorem exists_entity_of_escapeChars {text before rest : List Char}
    (h : escapeChars text = before ++ '&' :: rest) :
    ∃ entity ∈ writtenEntities, entity.toList <+: '&' :: rest := by
  induction text generalizing before with
  | nil =>
    have hmem : '&' ∈ before ++ '&' :: rest := List.mem_append_right _ List.mem_cons_self
    rw [← h] at hmem
    cases hmem
  | cons c text ih =>
    rw [escapeChars_cons] at h
    -- The ampersand is in what is written for the text, or in what is written for `c`.
    rcases List.append_eq_append_iff.1 h with ⟨more, -, htext⟩ | ⟨more, hc, hrest⟩
    · exact ih htext
    cases more with
    | nil =>
      have htext : escapeChars text = [] ++ '&' :: rest := hrest.symm
      exact ih htext
    | cons d more =>
      obtain ⟨rfl, -⟩ := List.cons.inj hrest
      rcases escapeChar_cases c with
        ⟨hne, -, hself⟩ | ⟨entity, hmem, name, hlist, hname, -, hentity⟩
      · rw [hself] at hc
        have hamp : '&' ∈ [c] := hc ▸ List.mem_append_right _ List.mem_cons_self
        exact absurd (List.mem_singleton.1 hamp).symm hne
      · rw [hentity] at hc
        cases before with
        | nil =>
          refine ⟨entity, hmem, escapeChars text, ?_⟩
          rw [hlist, hc, List.nil_append]
          exact hrest.symm
        | cons e before =>
          have hamp : '&' ∈ name :=
            (List.cons.inj hc).2 ▸ List.mem_append_right _ List.mem_cons_self
          exact absurd hamp hname

/-- Reading undoes escaping for any text. Escaped text holds none of the characters that could end
it, and its ampersands begin entities that escaping writes, so that reading text that was escaped
twice goes one level down and no further. -/
theorem escape_reads_back (text : String) :
    unescape (escape text) = text ∧
      (∀ c ∈ (escape text).toList, c ≠ '<' ∧ c ≠ '>' ∧ c ≠ '"' ∧ c ≠ '\'') ∧
      (∀ before rest, (escape text).toList = before ++ '&' :: rest →
        ∃ entity ∈ writtenEntities, entity.toList <+: '&' :: rest) ∧
      unescape (escape (escape text)) = escape text := by
  have hlist : (escape text).toList = escapeChars text.toList := String.toList_ofList
  refine ⟨unescape_escape text, ?_, ?_, unescape_escape (escape text)⟩
  · rw [hlist]
    exact fun c hc => isPlain_of_mem_escapeChars hc
  · rw [hlist]
    exact fun before rest h => exists_entity_of_escapeChars h

/-- Text that looks like an entity: the ampersand that escaping wrote is the only one left. -/
theorem escape_reads_back_lookalike :
    escape "&lt;" = "&amp;lt;" ∧ unescape "&amp;lt;" = "&lt;" ∧
      (∃ entity ∈ writtenEntities, entity.toList <+: ['&', 'a', 'm', 'p', ';', 'l', 't', ';']) ∧
      unescape (escape "&amp;lt;") = "&amp;lt;" := by
  have hescape : escape "&lt;" = "&amp;lt;" := by decide
  obtain ⟨hread, -, hentity, htwice⟩ := escape_reads_back "&lt;"
  rw [hescape] at hread hentity htwice
  exact ⟨hescape, hread, hentity [] _ (by decide), htwice⟩

end TreeRender.Markup
