import TreeRender.Proofs.Signature.Alike

/-!
# Signatures tell trees apart

Each part of a signature can be read off its front: a text ends after the bytes that its length
announces, and whatever may stand next begins with a character of its own. So two signatures that
are equal, whatever follows them, were made of trees that are alike, and the rests are equal too.
-/

namespace TreeRender.Signature

variable {F N : Type}

theorem append_cons_inj {c : Char} {xs ys rest rest' : List Char} (hx : c ∉ xs) (hy : c ∉ ys)
    (h : xs ++ c :: rest = ys ++ c :: rest') : xs = ys ∧ rest = rest' := by
  induction xs generalizing ys with
  | nil =>
    cases ys with
    | nil => exact ⟨rfl, (List.cons.inj h).2⟩
    | cons y ys => exact absurd (List.mem_cons.2 (.inl (List.cons.inj h).1)) hy
  | cons x xs ih =>
    cases ys with
    | nil => exact absurd (List.mem_cons.2 (.inl (List.cons.inj h).1.symm)) hx
    | cons y ys =>
      obtain ⟨rfl, htail⟩ := List.cons.inj h
      have hx' : c ∉ xs := fun hmem => hx (List.mem_cons_of_mem _ hmem)
      have hy' : c ∉ ys := fun hmem => hy (List.mem_cons_of_mem _ hmem)
      obtain ⟨rfl, hrest⟩ := ih hx' hy' htail
      exact ⟨rfl, hrest⟩

theorem notMem_toDigits {c : Char} (hc : c.isDigit = false) (n : Nat) : c ∉ Nat.toDigits 10 n := by
  intro hmem
  have h := Nat.isDigit_of_mem_toDigits (by decide) (by decide) hmem
  rw [hc] at h
  cases h

theorem toDigits_inj {n m : Nat} (h : Nat.toDigits 10 n = Nat.toDigits 10 m) : n = m := by
  rw [← Nat.ofDigitChars_ten_toDigits (n := n), h, Nat.ofDigitChars_ten_toDigits]

private theorem toList_append_inj {s t : String} {rest rest' : List Char}
    (hsize : s.utf8ByteSize = t.utf8ByteSize) (h : s.toList ++ rest = t.toList ++ rest') :
    s = t ∧ rest = rest' := by
  have same (s t : String) (more : List Char) (hsize : s.utf8ByteSize = t.utf8ByteSize)
      (h : t.toList = s.toList ++ more) : more = [] := by
    have ht : t = s ++ String.ofList more := by
      rw [← String.toList_inj, String.toList_append, String.toList_ofList, h]
    rw [ht, String.utf8ByteSize_append] at hsize
    have hzero : (String.ofList more).utf8ByteSize = 0 := by omega
    have hempty := String.utf8ByteSize_eq_zero_iff.1 hzero
    rw [← String.toList_inj, String.toList_ofList] at hempty
    exact hempty
  rcases List.append_eq_append_iff.1 h with ⟨more, ht, hrest⟩ | ⟨more, hs, hrest⟩
  · obtain rfl := same s t more hsize ht
    rw [List.append_nil] at ht
    exact ⟨(String.toList_inj.1 ht).symm, hrest⟩
  · obtain rfl := same t s more hsize.symm hs
    rw [List.append_nil] at hs
    exact ⟨String.toList_inj.1 hs, hrest.symm⟩

theorem ofText_inj {s t : String} {rest rest' : List Char}
    (h : ofText s ++ rest = ofText t ++ rest') : s = t ∧ rest = rest' := by
  unfold ofText at h
  rw [List.append_assoc, List.append_assoc] at h
  have colon (n : Nat) : ':' ∉ Nat.toDigits 10 n := notMem_toDigits (by decide) n
  obtain ⟨hdigits, htail⟩ := append_cons_inj (colon _) (colon _) h
  exact toList_append_inj (toDigits_inj hdigits) htail

private theorem ofText_eq_cons (s : String) : ∃ d more, ofText s = d :: more ∧ d.isDigit = true
    := by
  unfold ofText
  cases h : Nat.toDigits 10 s.utf8ByteSize with
  | nil => exact absurd h Nat.toDigits_ne_nil
  | cons d digits =>
    refine ⟨d, digits ++ ':' :: s.toList, rfl, ?_⟩
    exact Nat.isDigit_of_mem_toDigits (b := 10) (by decide) (by decide) (h ▸ List.mem_cons_self)

theorem ofText_append_ne {c : Char} (hc : c.isDigit = false) (s : String) (rest rest' : List Char) :
    ofText s ++ rest ≠ c :: rest' := by
  obtain ⟨d, more, hs, hd⟩ := ofText_eq_cons s
  rw [hs]
  intro h
  rw [(List.cons.inj h).1, hc] at hd
  cases hd

private theorem ofDeclarations_inj {xs ys : List (String × String)} {rest rest' : List Char}
    (h : ofDeclarations xs ++ ')' :: rest = ofDeclarations ys ++ ')' :: rest') :
    xs = ys ∧ rest = rest' := by
  induction xs generalizing ys with
  | nil =>
    cases ys with
    | nil => exact ⟨rfl, (List.cons.inj h).2⟩
    | cons y ys =>
      obtain ⟨property, value⟩ := y
      simp only [ofDeclarations, List.append_assoc, List.nil_append] at h
      exact absurd h.symm (ofText_append_ne (by decide) property _ _)
  | cons x xs ih =>
    obtain ⟨property, value⟩ := x
    cases ys with
    | nil =>
      simp only [ofDeclarations, List.append_assoc, List.nil_append] at h
      exact absurd h (ofText_append_ne (by decide) property _ _)
    | cons y ys =>
      obtain ⟨property', value'⟩ := y
      simp only [ofDeclarations, List.append_assoc] at h
      obtain ⟨rfl, htail⟩ := ofText_inj h
      obtain ⟨rfl, hmore⟩ := ofText_inj htail
      obtain ⟨rfl, hrest⟩ := ih hmore
      exact ⟨rfl, hrest⟩

private theorem comma_notMem_positional (x : Decimal.Scaled) : ',' ∉ x.positional := by
  have digits : ',' ∉ Decimal.digitChars x.digits := notMem_toDigits (by decide) x.digits
  have zeros (n : Nat) : ',' ∉ List.replicate n '0' := by
    intro h
    exact absurd (List.eq_of_mem_replicate h) (by decide)
  unfold Decimal.Scaled.positional
  simp only
  split
  · intro h
    rcases List.mem_append.1 h with h | h
    · exact digits h
    · exact zeros _ h
  · split
    · intro h
      simp only [List.cons_append, List.mem_cons, List.mem_append] at h
      rcases h with h | h | h | h
      · exact absurd h (by decide)
      · exact absurd h (by decide)
      · exact zeros _ h
      · exact digits h
    · intro h
      simp only [List.mem_cons, List.mem_append] at h
      rcases h with h | h | h
      · exact digits (List.mem_of_mem_take h)
      · exact absurd h (by decide)
      · exact digits (List.mem_of_mem_drop h)

private theorem comma_notMem_text (x : Float) : ',' ∉ (Decimal.text x).toList := by
  unfold Decimal.text
  cases Decimal.Double.ofBits x.toBits with
  | nan => decide
  | infinite negative => cases negative <;> decide
  | finite negative mantissa exponent =>
    simp only [Decimal.Double.text]
    split
    · decide
    · rw [String.toList_ofList]
      intro h
      rcases List.mem_append.1 h with h | h
      · cases negative <;> simp [Decimal.signChars] at h
      · exact comma_notMem_positional _ h

private theorem ofValue_inj {value value' : AttrValue F} {rest rest' : List Char}
    (h : ofValue value ++ ',' :: rest = ofValue value' ++ ',' :: rest') :
    value.Alike value' ∧ rest = rest' := by
  cases value <;> cases value'
  case null.null => exact ⟨trivial, by simpa [ofValue] using h⟩
  case str.str text text' =>
    obtain ⟨htext, hrest⟩ := ofText_inj (List.cons.inj h).2
    exact ⟨htext, (List.cons.inj hrest).2⟩
  case number.number x y =>
    obtain ⟨htext, hrest⟩ := append_cons_inj (comma_notMem_text x) (comma_notMem_text y)
      (List.cons.inj h).2
    exact ⟨String.toList_inj.1 htext, hrest⟩
  case bool.bool b b' =>
    obtain ⟨hhead, htail⟩ := List.cons.inj h
    refine ⟨?_, (List.cons.inj htail).2⟩
    change b = b'
    cases b <;> cases b' <;> first | rfl | exact absurd hhead (by decide)
  case style.style xs ys =>
    simp only [ofValue, List.cons_append, List.append_assoc, List.nil_append] at h
    obtain ⟨hdeclarations, hrest⟩ := ofDeclarations_inj (List.cons.inj h).2
    exact ⟨hdeclarations, (List.cons.inj hrest).2⟩
  case handler.handler => exact ⟨trivial, by simpa [ofValue] using h⟩
  case bool.null b => cases b <;> exact absurd (List.cons.inj h).1 (by decide)
  case bool.str b _ => cases b <;> exact absurd (List.cons.inj h).1 (by decide)
  case bool.number b _ => cases b <;> exact absurd (List.cons.inj h).1 (by decide)
  case bool.style b _ => cases b <;> exact absurd (List.cons.inj h).1 (by decide)
  case bool.handler b _ => cases b <;> exact absurd (List.cons.inj h).1 (by decide)
  case null.bool b => cases b <;> exact absurd (List.cons.inj h).1 (by decide)
  case str.bool _ b => cases b <;> exact absurd (List.cons.inj h).1 (by decide)
  case number.bool _ b => cases b <;> exact absurd (List.cons.inj h).1 (by decide)
  case style.bool _ b => cases b <;> exact absurd (List.cons.inj h).1 (by decide)
  case handler.bool _ b => cases b <;> exact absurd (List.cons.inj h).1 (by decide)
  all_goals exact absurd (List.cons.inj h).1 (by decide)

private theorem ofAttributes_inj {xs ys : List (String × AttrValue F)} {rest rest' : List Char}
    (hrest : ∀ s more, rest ≠ ofText s ++ more) (hrest' : ∀ s more, rest' ≠ ofText s ++ more)
    (h : ofAttributes xs ++ rest = ofAttributes ys ++ rest') :
    AttributesAlike xs ys ∧ rest = rest' := by
  induction xs generalizing ys with
  | nil =>
    cases ys with
    | nil => exact ⟨trivial, h⟩
    | cons y ys =>
      obtain ⟨key, value⟩ := y
      simp only [ofAttributes, List.append_assoc, List.nil_append] at h
      exact absurd h (hrest key _)
  | cons x xs ih =>
    obtain ⟨key, value⟩ := x
    cases ys with
    | nil =>
      simp only [ofAttributes, List.append_assoc, List.nil_append] at h
      exact absurd h.symm (hrest' key _)
    | cons y ys =>
      obtain ⟨key', value'⟩ := y
      simp only [ofAttributes, List.append_assoc, List.cons_append] at h
      obtain ⟨hkey, htail⟩ := ofText_inj h
      obtain ⟨hvalue, hmore⟩ := ofValue_inj (List.cons.inj htail).2
      obtain ⟨hattributes, hrest⟩ := ih hmore
      exact ⟨⟨hkey, hvalue, hattributes⟩, hrest⟩

private theorem ofDirective_inj {d d' : Option (Directive F)} {rest rest' : List Char}
    (h : ofDirective d ++ '\x7d' :: rest = ofDirective d' ++ '\x7d' :: rest') :
    DirectivesAlike d d' ∧ rest = rest' := by
  match d, d' with
  | none, none => exact ⟨trivial, (List.cons.inj h).2⟩
  | none, some (.literal _) => exact absurd (List.cons.inj h).1 (by decide)
  | none, some (.computed _) => exact absurd (List.cons.inj h).1 (by decide)
  | some (.literal _), none => exact absurd (List.cons.inj h).1 (by decide)
  | some (.computed _), none => exact absurd (List.cons.inj h).1 (by decide)
  | some (.literal text), some (.literal text') =>
    simp only [ofDirective, List.append_assoc, List.append_cancel_left_eq] at h
    obtain ⟨htext, hrest⟩ := ofText_inj h
    exact ⟨htext, (List.cons.inj hrest).2⟩
  | some (.literal text), some (.computed _) =>
    simp [ofDirective] at h
    exact absurd h (ofText_append_ne (by decide) text _ _)
  | some (.computed _), some (.literal text) =>
    simp [ofDirective] at h
    exact absurd h.symm (ofText_append_ne (by decide) text _ _)
  | some (.computed _), some (.computed _) =>
    simp [ofDirective] at h
    exact ⟨trivial, h⟩

private theorem ofDirective_ne_ofText (d : Option (Directive F)) (rest : List Char) (s : String)
    (more : List Char) : ofDirective d ++ '\x7d' :: rest ≠ ofText s ++ more := by
  intro h
  match d with
  | none => exact ofText_append_ne (by decide) s _ _ h.symm
  | some (.literal _) => exact ofText_append_ne (by decide) s _ _ h.symm
  | some (.computed _) => exact ofText_append_ne (by decide) s _ _ h.symm

private theorem ofHead_inj {e e' : Element F N} {rest rest' : List Char}
    (h : ofHead e.tag e.attributes e.text ++ rest = ofHead e'.tag e'.attributes e'.text ++ rest') :
    HeadsAlike e e' ∧ rest = rest' := by
  simp only [ofHead, List.append_assoc, List.cons_append, List.nil_append] at h
  obtain ⟨htag, htail⟩ := ofText_inj h
  obtain ⟨hattributes, hmore⟩ := ofAttributes_inj (ofDirective_ne_ofText e.text _)
    (ofDirective_ne_ofText e'.text _) (List.cons.inj htail).2
  obtain ⟨htext, hrest⟩ := ofDirective_inj hmore
  exact ⟨⟨htag, hattributes, htext⟩, hrest⟩

/-- The characters with which the signature of a node begins. -/
def markOf : Node F → Char
  | .empty => '_'
  | .text _ => 't'
  | .component _ => '!'
  | .collection _ => '['
  | .element _ => '<'

private theorem ofNode_eq_cons (n : Node F) : ∃ more, ofNode n = markOf n :: more := by
  cases n with
  | element e =>
    obtain ⟨tag, attributes, directive, children, nodup⟩ := e
    cases children <;> exact ⟨_, rfl⟩
  | _ => exact ⟨_, rfl⟩

private theorem ofNode_append_ne (n : Node F) {c : Char} (hc : c = ']' ∨ c = '>') (rest rest'
    : List Char) :
    ofNode n ++ rest ≠ c :: rest' := by
  obtain ⟨more, hn⟩ := ofNode_eq_cons n
  rw [hn]
  intro h
  have hmark : markOf n = c := (List.cons.inj h).1
  rcases hc with rfl | rfl <;> cases n <;> exact absurd hmark (by simp [markOf])

def ofChildren : Option (Node F) → List Char
  | none => []
  | some child => ofNode child

theorem ofNode_element (e : Element F (Node F)) : ofNode (.element e) =
    '<' :: (ofHead e.tag e.attributes e.text ++ (ofChildren e.children ++ ['>'])) := by
  obtain ⟨tag, attributes, directive, children, nodup⟩ := e
  cases children <;> simp [ofNode, ofChildren]

private theorem markOf_eq {n n' : Node F} {rest rest' : List Char}
    (h : ofNode n ++ rest = ofNode n' ++ rest') : markOf n = markOf n' := by
  obtain ⟨more, hn⟩ := ofNode_eq_cons n
  obtain ⟨more', hn'⟩ := ofNode_eq_cons n'
  rw [hn, hn'] at h
  exact (List.cons.inj h).1

private theorem ofNodes_inj {nodes nodes' : List (Node F)} {rest rest' : List Char}
    (ih : ∀ n ∈ nodes, ∀ (n' : Node F) (rest rest' : List Char),
      ofNode n ++ rest = ofNode n' ++ rest' → n.Alike n' ∧ rest = rest')
    (h : ofNodes nodes ++ ']' :: rest = ofNodes nodes' ++ ']' :: rest') :
    Node.AllAlike nodes nodes' ∧ rest = rest' := by
  induction nodes generalizing nodes' with
  | nil =>
    cases nodes' with
    | nil => exact ⟨trivial, (List.cons.inj h).2⟩
    | cons n' more' =>
      rw [ofNodes, ofNodes, List.append_assoc] at h
      exact absurd h.symm (ofNode_append_ne n' (.inl rfl) _ _)
  | cons n more ihmore =>
    cases nodes' with
    | nil =>
      rw [ofNodes, ofNodes, List.append_assoc] at h
      exact absurd h (ofNode_append_ne n (.inl rfl) _ _)
    | cons n' more' =>
      rw [ofNodes, ofNodes, List.append_assoc, List.append_assoc] at h
      obtain ⟨hn, htail⟩ := ih n (by simp) n' _ _ h
      obtain ⟨hmore, hrest⟩ := ihmore (fun m hm => ih m (by simp [hm])) htail
      exact ⟨⟨hn, hmore⟩, hrest⟩

private theorem ofChildren_inj {children children' : Option (Node F)} {rest rest' : List Char}
    (ih : ∀ n, children = some n → ∀ (n' : Node F) (rest rest' : List Char),
      ofNode n ++ rest = ofNode n' ++ rest' → n.Alike n' ∧ rest = rest')
    (h : ofChildren children ++ '>' :: rest = ofChildren children' ++ '>' :: rest') :
    Option.Rel Node.Alike children children' ∧ rest = rest' := by
  cases children with
  | none =>
    cases children' with
    | none => exact ⟨.none, (List.cons.inj h).2⟩
    | some child' => exact absurd h.symm (ofNode_append_ne child' (.inr rfl) _ _)
  | some child =>
    cases children' with
    | none => exact absurd h (ofNode_append_ne child (.inr rfl) _ _)
    | some child' =>
      obtain ⟨hchild, htail⟩ := ih child rfl child' _ _ h
      exact ⟨.some hchild, (List.cons.inj htail).2⟩

private theorem ofNode_inj {n n' : Node F} {rest rest' : List Char}
    (h : ofNode n ++ rest = ofNode n' ++ rest') : n.Alike n' ∧ rest = rest' := by
  induction n using Node.inductOn generalizing n' rest rest' with
  | empty =>
    have marks := markOf_eq h
    cases n' with
    | empty => exact ⟨trivial, (List.cons.inj h).2⟩
    | _ => simp [markOf] at marks
  | text value =>
    have marks := markOf_eq h
    cases n' with
    | text value' => exact ofText_inj (List.cons.inj h).2
    | _ => simp [markOf] at marks
  | component c =>
    have marks := markOf_eq h
    cases n' with
    | component c' => exact ⟨trivial, (List.cons.inj h).2⟩
    | _ => simp [markOf] at marks
  | collection nodes ih =>
    have marks := markOf_eq h
    cases n' with
    | collection nodes' =>
      simp only [ofNode, List.cons_append, List.append_assoc, List.nil_append] at h
      exact ofNodes_inj (fun n hn _ _ _ => ih n hn) (List.cons.inj h).2
    | _ => simp [markOf] at marks
  | element e ih =>
    have marks := markOf_eq h
    cases n' with
    | element e' =>
      simp only [ofNode_element, List.cons_append, List.append_assoc, List.nil_append] at h
      obtain ⟨hhead, htail⟩ := ofHead_inj (List.cons.inj h).2
      obtain ⟨hchildren, hrest⟩ := ofChildren_inj (fun n hn _ _ _ => ih n hn) htail
      exact ⟨Node.alike_element.2 ⟨hhead, hchildren⟩, hrest⟩
    | _ => simp [markOf] at marks

private theorem ofValue_eq {value value' : AttrValue F} (h : value.Alike value') :
    ofValue value = ofValue value' := by
  cases value <;> cases value' <;> try exact h.elim
  case null => rfl
  case str => rw [show _ = _ from h]
  case number => exact congrArg (fun text => '#' :: text.toList) h
  case bool => rw [show _ = _ from h]
  case style => rw [show _ = _ from h]
  case handler => rfl

private theorem ofAttributes_eq {xs ys : List (String × AttrValue F)} (h : AttributesAlike xs ys) :
    ofAttributes xs = ofAttributes ys := by
  have hall := h.forall₂
  clear h
  induction hall with
  | nil => rfl
  | @cons x y _ _ hxy _ ih =>
    obtain ⟨key, value⟩ := x
    obtain ⟨key', value'⟩ := y
    obtain ⟨rfl, hvalue⟩ : key = key' ∧ value.Alike value' := hxy
    rw [ofAttributes, ofAttributes, ofValue_eq hvalue, ih]

private theorem ofDirective_eq {d d' : Option (Directive F)} (h : DirectivesAlike d d') :
    ofDirective d = ofDirective d' :=
  h.cases (P := fun d d' => ofDirective d = ofDirective d') rfl (fun _ => rfl) fun _ _ => rfl

private theorem ofHead_eq {e e' : Element F N} (h : HeadsAlike e e') :
    ofHead e.tag e.attributes e.text = ofHead e'.tag e'.attributes e'.text := by
  rw [ofHead, ofHead, h.tag, ofAttributes_eq h.attributes, ofDirective_eq h.text]

private theorem ofNode_eq {n n' : Node F} (h : n.Alike n') : ofNode n = ofNode n' := by
  apply Node.Alike.inductOn (P := fun n n' => ofNode n = ofNode n') h
  case empty => rfl
  case text =>
    intro value value' hvalue
    exact congrArg (fun text => 't' :: ofText text) hvalue
  case component =>
    intro c c'
    rfl
  case collection =>
    intro nodes nodes' members
    have hmembers : ofNodes nodes = ofNodes nodes' := by
      induction members with
      | nil => rfl
      | cons hn _ ih => rw [ofNodes, ofNodes, hn, ih]
    rw [ofNode, ofNode, hmembers]
  case element =>
    intro e e' halike hchildren
    have hcontent : ofChildren e.children = ofChildren e'.children := by
      generalize e.children = children, e'.children = children' at hchildren
      cases hchildren with
      | none => rfl
      | some hchild => exact hchild
    rw [ofNode_element, ofNode_element, ofHead_eq (Node.alike_element.1 halike).1, hcontent]

end TreeRender.Signature

namespace TreeRender

variable {F : Type}

theorem Element.ofNode_eq_signature (e : Element F (Node F)) :
    Signature.ofNode (.element e) = '<' :: (e.signature.toList ++ ['>']) := by
  rw [Signature.ofNode_element, signature, String.toList_ofList, List.append_assoc]
  cases e.children <;> rfl

/-- Elements with the same signature are alike. -/
theorem Element.alike_of_signature_eq {e e' : Element F (Node F)}
    (h : e.signature = e'.signature) : (Node.element e).Alike (.element e') := by
  have same : Signature.ofNode (.element e) ++ [] = Signature.ofNode (.element e') ++ [] := by
    rw [ofNode_eq_signature, ofNode_eq_signature, h]
  exact (Signature.ofNode_inj same).1

theorem Element.signature_eq_of_alike {e e' : Element F (Node F)}
    (h : (Node.element e).Alike (.element e')) : e.signature = e'.signature := by
  have hnodes := Signature.ofNode_eq h
  rw [ofNode_eq_signature, ofNode_eq_signature] at hnodes
  exact String.toList_inj.1 (List.append_cancel_right (List.cons.inj hnodes).2)

theorem Element.markup_eq_of_signature_eq {e e' : Element F (Node F)}
    (h : e.signature = e'.signature) (fallback : String) :
    e.outline.markup fallback = e'.outline.markup fallback :=
  (alike_of_signature_eq h).markup_eq fallback

end TreeRender
