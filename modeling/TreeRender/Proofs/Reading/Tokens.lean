import TreeRender.Markup.Text
import TreeRender.Proofs.Markup.Escape

/-!
# The tokens of markup

A plain grammar that markup can be read by: opening tags, closing tags, and texts. Names are written
as they are, and neither texts nor values hold an angle bracket or a quotation mark. So no two
sequences of tokens are written alike, as long as no two texts stand side by side. For that it is
enough that no text holds a `<`.
-/

namespace TreeRender.Reading

open Markup

/-- An attribute as it is written, with or without a value. -/
abbrev RawAttribute := List Char × Option (List Char)

inductive Token where
  | opening (tag : List Char) (attributes : List RawAttribute)
  | closing (tag : List Char)
  | text (raw : List Char)

def valueSource : Option (List Char) → List Char
  | none => []
  | some value => '=' :: '"' :: value ++ ['"']

def attributeSource (a : RawAttribute) : List Char := ' ' :: a.1 ++ valueSource a.2

def Token.source : Token → List Char
  | .opening tag attributes => '<' :: tag ++ attributes.flatMap attributeSource ++ ['>']
  | .closing tag => '<' :: '/' :: tag ++ ['>']
  | .text raw => raw

def source (tokens : List Token) : List Char := tokens.flatMap Token.source

def IsName (name : List Char) : Prop := name ≠ [] ∧ ∀ c ∈ name, isNameChar c = true

def IsValue (value : List Char) : Prop := ∀ c ∈ value, IsPlain c

def IsAttribute (a : RawAttribute) : Prop := IsName a.1 ∧ ∀ value, a.2 = some value → IsValue value

def Token.InGrammar : Token → Prop
  | .opening tag attributes => IsName tag ∧ ∀ a ∈ attributes, IsAttribute a
  | .closing tag => IsName tag
  | .text raw => raw ≠ [] ∧ IsValue raw

/-- A text may hold any characters but the one that begins a tag. -/
def Token.InMarkup : Token → Prop
  | .opening tag attributes => IsName tag ∧ ∀ a ∈ attributes, IsAttribute a
  | .closing tag => IsName tag
  | .text raw => raw ≠ [] ∧ '<' ∉ raw

theorem Token.InGrammar.inMarkup {t : Token} (h : t.InGrammar) : t.InMarkup := by
  cases t with
  | text raw => exact ⟨h.1, fun hmem => (h.2 _ hmem).1 rfl⟩
  | _ => exact h

def startsWithText : List Token → Bool
  | .text _ :: _ => true
  | _ => false

def Merged : List Token → Prop
  | [] => True
  | .text _ :: rest => startsWithText rest = false ∧ Merged rest
  | _ :: rest => Merged rest

structure Tokenizes (html : List Char) (tokens : List Token) : Prop where
  inGrammar : ∀ t ∈ tokens, t.InGrammar
  merged : Merged tokens
  source : source tokens = html

structure Splits (html : List Char) (tokens : List Token) : Prop where
  inMarkup : ∀ t ∈ tokens, t.InMarkup
  merged : Merged tokens
  source : Reading.source tokens = html

private theorem Tokenizes.splits {html : List Char} {tokens : List Token}
    (h : Tokenizes html tokens) :
    Splits html tokens :=
  ⟨fun t ht => (h.inGrammar t ht).inMarkup, h.merged, h.source⟩

theorem append_cons_inj_of {p : Char → Prop} {xs ys rest rest' : List Char} {c d : Char}
    (hx : ∀ x ∈ xs, p x) (hy : ∀ y ∈ ys, p y) (hc : ¬p c) (hd : ¬p d)
    (h : xs ++ c :: rest = ys ++ d :: rest') : xs = ys ∧ c = d ∧ rest = rest' := by
  induction xs generalizing ys with
  | nil =>
    cases ys with
    | nil => exact ⟨rfl, List.cons.inj h⟩
    | cons y ys =>
      rw [(List.cons.inj h).1] at hc
      exact absurd (hy y List.mem_cons_self) hc
  | cons x xs ih =>
    cases ys with
    | nil =>
      rw [← (List.cons.inj h).1] at hd
      exact absurd (hx x List.mem_cons_self) hd
    | cons y ys =>
      obtain ⟨rfl, htail⟩ := List.cons.inj h
      obtain ⟨rfl, hrest⟩ := ih (fun z hz => hx z (List.mem_cons_of_mem _ hz))
        (fun z hz => hy z (List.mem_cons_of_mem _ hz)) htail
      exact ⟨rfl, hrest⟩

theorem isName_of_isValidName {name : String} (h : isValidName name = true) :
    IsName name.toList := by
  simp only [isValidName, Bool.and_eq_true, Bool.not_eq_true', List.isEmpty_eq_false_iff] at h
  exact ⟨h.1, List.all_eq_true.1 h.2⟩

/-- What comes after the name of a tag, or after an attribute: the space before an attribute, or the
end of the tag. -/
def EndsAttribute (rest : List Char) : Prop := ∃ c more, rest = c :: more ∧ (c = ' ' ∨ c = '>')

private theorem endsAttribute_tail (attributes : List RawAttribute) (rest : List Char) :
    EndsAttribute (attributes.flatMap attributeSource ++ '>' :: rest) := by
  cases attributes with
  | nil => exact ⟨'>', rest, rfl, .inr rfl⟩
  | cons a attributes => exact ⟨' ', _, rfl, .inl rfl⟩

private theorem EndsAttribute.ends_name {rest : List Char} (h : EndsAttribute rest) :
    ∃ c more, rest = c :: more ∧ ¬isNameChar c = true := by
  obtain ⟨c, more, rfl, rfl | rfl⟩ := h
  · exact ⟨' ', more, rfl, by decide⟩
  · exact ⟨'>', more, rfl, by decide⟩

private theorem ends_name_value {value : Option (List Char)} {rest : List Char}
    (h : EndsAttribute rest) :
    ∃ c more, valueSource value ++ rest = c :: more ∧ ¬isNameChar c = true := by
  cases value with
  | none => exact h.ends_name
  | some value => exact ⟨'=', _, rfl, by decide⟩

private theorem name_inj {xs ys rest rest' : List Char} (hx : IsName xs) (hy : IsName ys)
    (hrest : ∃ c more, rest = c :: more ∧ ¬isNameChar c = true)
    (hrest' : ∃ c more, rest' = c :: more ∧ ¬isNameChar c = true)
    (h : xs ++ rest = ys ++ rest') : xs = ys ∧ rest = rest' := by
  obtain ⟨c, more, rfl, hc⟩ := hrest
  obtain ⟨d, more', rfl, hd⟩ := hrest'
  obtain ⟨hnames, rfl, rfl⟩ := append_cons_inj_of hx.2 hy.2 hc hd h
  exact ⟨hnames, rfl⟩

private theorem value_inj {v w : Option (List Char)} (hv : ∀ value, v = some value → IsValue value)
    (hw : ∀ value, w = some value → IsValue value) {rest rest' : List Char}
    (hrest : EndsAttribute rest) (hrest' : EndsAttribute rest')
    (h : valueSource v ++ rest = valueSource w ++ rest') : v = w ∧ rest = rest' := by
  have hend {c : Char} (hc : c = ' ' ∨ c = '>') : '=' ≠ c := by rcases hc with rfl | rfl <;> decide
  cases v with
  | none =>
    cases w with
    | none => exact ⟨rfl, h⟩
    | some value =>
      obtain ⟨c, more, rfl, hc⟩ := hrest
      exact absurd (List.cons.inj h).1.symm (hend hc)
  | some value =>
    cases w with
    | none =>
      obtain ⟨c, more, rfl, hc⟩ := hrest'
      exact absurd (List.cons.inj h).1 (hend hc)
    | some value' =>
      simp only [valueSource, List.cons_append, List.append_assoc, List.nil_append,
        List.cons.injEq, true_and] at h
      have hquote : ¬IsPlain '"' := by decide
      obtain ⟨rfl, -, rfl⟩ := append_cons_inj_of (hv value rfl) (hw value' rfl) hquote hquote h
      exact ⟨rfl, rfl⟩

theorem attributes_inj {as bs : List RawAttribute} (ha : ∀ a ∈ as, IsAttribute a)
    (hb : ∀ b ∈ bs, IsAttribute b) {rest rest' : List Char}
    (h : as.flatMap attributeSource ++ '>' :: rest = bs.flatMap attributeSource ++ '>' :: rest') :
    as = bs ∧ rest = rest' := by
  induction as generalizing bs with
  | nil =>
    cases bs with
    | nil => exact ⟨rfl, (List.cons.inj h).2⟩
    | cons b bs => exact absurd (List.cons.inj h).1 (by decide)
  | cons a as ih =>
    cases bs with
    | nil => exact absurd (List.cons.inj h).1 (by decide)
    | cons b bs =>
      obtain ⟨name, value⟩ := a
      obtain ⟨name', value'⟩ := b
      obtain ⟨hname, hvalue⟩ := ha _ List.mem_cons_self
      obtain ⟨hname', hvalue'⟩ := hb _ List.mem_cons_self
      have htail := endsAttribute_tail as rest
      have htail' := endsAttribute_tail bs rest'
      simp only [List.flatMap_cons, attributeSource, List.cons_append, List.append_assoc,
        List.cons.injEq, true_and] at h
      obtain ⟨hnames, hvalues⟩ :=
        name_inj hname hname' (ends_name_value htail) (ends_name_value htail') h
      obtain ⟨hsame, hmore⟩ := value_inj hvalue hvalue' htail htail' hvalues
      obtain ⟨rfl, hrest⟩ := ih (fun x hx => ha x (List.mem_cons_of_mem _ hx))
        (fun x hx => hb x (List.mem_cons_of_mem _ hx)) hmore
      exact ⟨by rw [Prod.ext hnames hsame], hrest⟩

private theorem source_eq_cons {tokens : List Token} (h : startsWithText tokens = false) :
    ∃ more, source tokens ++ ['<'] = '<' :: more := by
  match tokens with
  | [] => exact ⟨[], rfl⟩
  | .opening tag attributes :: rest => exact ⟨_, rfl⟩
  | .closing tag :: rest => exact ⟨_, rfl⟩

private theorem Token.InMarkup.source_ne_nil {t : Token} (h : t.InMarkup) : t.source ≠ [] := by
  cases t with
  | text raw => exact h.1
  | _ => exact List.cons_ne_nil _ _

private theorem text_ne_tag {raw : List Char} (h : (Token.text raw).InMarkup)
    (rest more : List Char) :
    raw ++ rest ≠ '<' :: more := by
  obtain ⟨hne, htag⟩ := h
  cases raw with
  | nil => exact absurd rfl hne
  | cons c raw =>
    intro heq
    rw [(List.cons.inj heq).1] at htag
    exact htag List.mem_cons_self

private theorem opening_ne_closing {tag : List Char} (h : IsName tag) (rest more : List Char) :
    tag ++ rest ≠ '/' :: more := by
  obtain ⟨hne, hname⟩ := h
  cases tag with
  | nil => exact absurd rfl hne
  | cons c tag =>
    intro heq
    have hc := hname c List.mem_cons_self
    rw [(List.cons.inj heq).1] at hc
    exact absurd hc (by decide)

private theorem ne_end_of_inMarkup {t : Token} (h : t.InMarkup) (rest : List Token) :
    source (t :: rest) ++ ['<'] ≠ ['<'] := by
  intro heq
  have hlength := congrArg List.length heq
  have hpos := List.length_pos_iff.2 h.source_ne_nil
  simp only [source, List.flatMap_cons, List.length_append, List.length_singleton] at hlength
  omega

private theorem token_inj {t u : Token} (ht : t.InMarkup) (hu : u.InMarkup) {ts us : List Token}
    (hts : Merged (t :: ts)) (hus : Merged (u :: us))
    (h : source (t :: ts) ++ ['<'] = source (u :: us) ++ ['<']) :
    t = u ∧ source ts ++ ['<'] = source us ++ ['<'] := by
  simp only [source, List.flatMap_cons, List.append_assoc] at h
  change t.source ++ (source ts ++ ['<']) = u.source ++ (source us ++ ['<']) at h
  cases t with
  | opening tag attributes =>
    cases u with
    | opening tag' attributes' =>
      simp only [Token.source, List.cons_append, List.append_assoc, List.cons.injEq, true_and,
        List.nil_append] at h
      obtain ⟨rfl, htail⟩ := name_inj ht.1 hu.1 (endsAttribute_tail _ _).ends_name
        (endsAttribute_tail _ _).ends_name h
      obtain ⟨rfl, hrest⟩ := attributes_inj ht.2 hu.2 htail
      exact ⟨rfl, hrest⟩
    | closing tag' =>
      simp only [Token.source, List.cons_append, List.append_assoc, List.cons.injEq, true_and] at h
      exact absurd h (opening_ne_closing ht.1 _ _)
    | text raw =>
      exact absurd h.symm (text_ne_tag hu _ _)
  | closing tag =>
    cases u with
    | opening tag' attributes' =>
      simp only [Token.source, List.cons_append, List.append_assoc, List.cons.injEq, true_and] at h
      exact absurd h.symm (opening_ne_closing hu.1 _ _)
    | closing tag' =>
      simp only [Token.source, List.cons_append, List.append_assoc, List.cons.injEq, true_and,
        List.nil_append] at h
      have hend : ¬isNameChar '>' = true := by decide
      obtain ⟨rfl, hrest⟩ := name_inj ht hu ⟨_, _, rfl, hend⟩ ⟨_, _, rfl, hend⟩ h
      exact ⟨rfl, (List.cons.inj hrest).2⟩
    | text raw => exact absurd h.symm (text_ne_tag hu _ _)
  | text raw =>
    cases u with
    | text raw' =>
      obtain ⟨more, hmore⟩ := source_eq_cons hts.1
      obtain ⟨more', hmore'⟩ := source_eq_cons hus.1
      rw [hmore, hmore'] at h ⊢
      have notTag {raw : List Char} (htag : '<' ∉ raw) : ∀ c ∈ raw, c ≠ '<' :=
        fun c hc heq => htag (heq ▸ hc)
      have htext : ¬ '<' ≠ '<' := fun h => h rfl
      obtain ⟨rfl, -, rfl⟩ :=
        append_cons_inj_of (notTag ht.2) (notTag hu.2) htext htext h
      exact ⟨rfl, rfl⟩
    | _ => exact absurd h (text_ne_tag ht _ _)

private theorem merged_of_cons {t : Token} {rest : List Token} (h : Merged (t :: rest))
    : Merged rest := by
  cases t with
  | text raw => exact h.2
  | _ => exact h

private theorem source_inj {ts us : List Token} (ht : ∀ t ∈ ts, t.InMarkup)
    (hu : ∀ u ∈ us, u.InMarkup)
    (hts : Merged ts) (hus : Merged us) (h : source ts ++ ['<'] = source us ++ ['<']) : ts = us := by
  induction ts generalizing us with
  | nil =>
    cases us with
    | nil => rfl
    | cons u us => exact absurd h.symm (ne_end_of_inMarkup (hu u List.mem_cons_self) us)
  | cons t ts ih =>
    cases us with
    | nil => exact absurd h (ne_end_of_inMarkup (ht t List.mem_cons_self) ts)
    | cons u us =>
      obtain ⟨rfl, hrest⟩ :=
        token_inj (ht t List.mem_cons_self) (hu u List.mem_cons_self) hts hus h
      rw [ih (fun x hx => ht x (List.mem_cons_of_mem _ hx))
        (fun x hx => hu x (List.mem_cons_of_mem _ hx)) (merged_of_cons hts) (merged_of_cons hus)
        hrest]

/-- Markup can be split in one way at most. -/
theorem Splits.unique {html : List Char} {ts us : List Token} (ht : Splits html ts)
    (hu : Splits html us) : ts = us :=
  source_inj ht.inMarkup hu.inMarkup ht.merged hu.merged (by rw [ht.source, hu.source])

/-- A text can be read in one way at most. -/
theorem Tokenizes.unique {html : List Char} {ts us : List Token} (ht : Tokenizes html ts)
    (hu : Tokenizes html us) : ts = us :=
  ht.splits.unique hu.splits

end TreeRender.Reading
