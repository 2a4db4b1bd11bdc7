import TreeRender.Json.Typed

/-!
# What readers can give

A property of all that a reader gives is proved along its binds, whatever text it is run on. So
natural numbers that are read are numbers of 64 bits.
-/

namespace TreeRender

def JsonNumber.FitsWord : JsonNumber → Prop
  | .natural n => n < UInt64.size
  | _ => True

namespace Json

structure Reader.Yields {α : Type} (P : α → Prop) (x : Reader α) : Prop where
  of_run : ∀ {s a s'}, StateT.run x s = .ok (a, s') → P a

namespace Reader

variable {α γ : Type} {P : α → Prop} {Q : γ → Prop}

namespace Yields

private theorem any (x : Reader α) : Yields (fun _ => True) x := ⟨fun _ => trivial⟩

theorem pure {a : α} (h : P a) : Yields P (Pure.pure a) := by
  refine ⟨fun hrun => ?_⟩
  cases hrun
  exact h

theorem fail (fault : Fault) : Yields P (Reader.fail fault) := ⟨fun hrun => nomatch hrun⟩

theorem bind {x : Reader α} {f : α → Reader γ} (hx : Yields P x) (hf : ∀ a, P a → Yields Q (f a)) :
    Yields Q (x >>= f) := by
  refine ⟨fun {s c s'} hc => ?_⟩
  rw [StateT.run_bind] at hc
  cases hrun : StateT.run x s with
  | error fault =>
    rw [hrun] at hc
    cases hc
  | ok p =>
    rw [hrun] at hc
    exact (hf p.1 (hx.of_run hrun)).of_run hc

theorem after {x : Reader α} {f : α → Reader γ} (hf : ∀ a, Yields Q (f a)) :
    Yields Q (x >>= f) :=
  (any x).bind fun a _ => hf a

theorem map {x : Reader α} (hx : Yields P x) {f : α → γ} (hf : ∀ a, P a → Q (f a)) :
    Yields Q (do return f (← x)) :=
  hx.bind fun a ha => .pure (hf a ha)

private theorem afterIf {condition : Prop} [Decidable condition] {x : Reader Unit}
    {f : Unit → Reader γ} (hf : ∀ u, Yields Q (f u)) :
    Yields Q (if condition then x >>= f else f ()) := by
  split
  · exact .after hf
  · exact hf ()

theorem of_run_eq_ok {x : Reader α} (hx : Yields P x) {text : String} {a : α}
    (h : x.run text = .ok a) : P a := by
  have whole : Yields P (do
      let a ← x
      skipBlanks
      return a) :=
    hx.bind fun _ ha => .after fun _ => .pure ha
  unfold Reader.run at h
  split at h
  · cases h
  · rename_i b rest hrun
    have hb : P b := whole.of_run hrun
    split at h
    · cases h
      exact hb
    · cases h

end Yields

private theorem yields_memberRounds {member : String → α → Reader α}
    (h : ∀ key a, P a → (member key a).Yields P) (rounds : Nat) (first : Bool) {a : α} (ha : P a) :
    Yields P (memberRounds member rounds first a) := by
  induction rounds generalizing first a with
  | zero => exact .fail _
  | succ rounds ih =>
    rw [memberRounds]
    apply Yields.after
    intro more
    cases more with
    | false => exact .pure ha
    | true => exact .after fun key => (h key a ha).bind fun _ hb => ih false hb

theorem yields_membersRest {member : String → α → Reader α}
    (h : ∀ key a, P a → (member key a).Yields P) {start : α} (hstart : P start) :
    Yields P (membersRest member start) :=
  .after fun _ => yields_memberRounds h _ true hstart

private theorem takeDigits_lt {significand : Nat} (h : significand < UInt64.size) (count : Nat)
    (text : List Char) : (takeDigits significand count text).1.1 < UInt64.size := by
  induction text generalizing significand count with
  | nil => exact h
  | cons c text ih =>
    unfold takeDigits
    split
    · next hfits => exact ih (of_decide_eq_true (Bool.and_eq_true_iff.1 hfits).2) (count + 1)
    · exact h

theorem yields_double (negative : Bool) (significand : Nat) (exponent : Int) :
    Yields JsonNumber.FitsWord (double negative significand exponent) := by
  unfold double
  split
  · exact .fail _
  · exact .pure trivial

private theorem yields_afterExponentMark (negative : Bool) (significand : Nat) (exponent : Int) :
    Yields JsonNumber.FitsWord (afterExponentMark negative significand exponent) := by
  unfold afterExponentMark
  apply Yields.after
  intro _
  apply Yields.after
  intro _
  refine Yields.afterIf fun _ => ?_
  apply Yields.after
  rintro (_ | ⟨c, rest⟩)
  · exact .fail _
  apply Yields.after
  intro _
  split
  · exact .fail _
  apply Yields.after
  intro _
  split
  · exact yields_double _ _ _
  split
  · exact .fail _
  · exact .after fun _ => .pure trivial

private theorem yields_afterDecimals (negative : Bool) (significand : Nat) (exponent : Int) :
    Yields JsonNumber.FitsWord (afterDecimals negative significand exponent) := by
  unfold afterDecimals
  apply Yields.after
  intro _
  split
  · exact .after fun _ => yields_afterExponentMark _ _ _
  · exact yields_double _ _ _

private theorem yields_afterPoint (negative : Bool) (significand : Nat) (exponent : Int) :
    Yields JsonNumber.FitsWord (afterPoint negative significand exponent) := by
  unfold afterPoint
  apply Yields.after
  intro _
  apply Yields.after
  intro _
  apply Yields.after
  intro _
  split
  · exact .after fun _ => .fail _
  · exact yields_afterDecimals _ _ _

private theorem yields_afterInteger (negative : Bool) {significand : Nat}
    (h : significand < UInt64.size)
    (dropped : Nat) : Yields JsonNumber.FitsWord (afterInteger negative significand dropped) := by
  unfold afterInteger
  apply Yields.after
  intro _
  split
  · exact .after fun _ => yields_afterPoint _ _ _
  split
  · exact .after fun _ => yields_afterExponentMark _ _ _
  split
  · exact yields_double _ _ _
  split
  · exact .pure h
  split
  · exact .pure trivial
  · exact .pure trivial

private theorem yields_unsigned (negative : Bool) : Yields JsonNumber.FitsWord (unsigned negative)
    := by
  unfold unsigned
  apply Yields.after
  rintro (_ | ⟨c, rest⟩)
  · exact .fail _
  dsimp only
  split
  · exact .fail _
  split
  · apply Yields.after
    intro _
    split
    · exact .fail _
    · exact yields_afterInteger negative (by decide) 0
  · apply Yields.after
    intro _
    exact .after fun _ => yields_afterInteger negative (takeDigits_lt (by decide) 0 _) _

private theorem yields_number : Yields JsonNumber.FitsWord number := by
  unfold number
  apply Yields.after
  intro _
  split
  · exact .after fun _ => yields_unsigned true
  · exact yields_unsigned false

theorem yields_mismatch (P : α → Prop) : Yields P mismatch := by
  unfold mismatch
  apply Yields.after
  rintro (_ | c)
  · exact .fail _
  dsimp only
  split
  · exact .fail _
  · exact .after fun _ => .fail _

theorem yields_natural : Yields (· < UInt64.size) natural := by
  unfold natural
  apply Yields.after
  rintro (_ | c)
  · exact .fail _
  dsimp only
  split
  · apply yields_number.bind
    intro n hn
    cases n with
    | natural n => exact .pure hn
    | negative _ => exact .fail _
    | double _ => exact .fail _
  · exact yields_mismatch _

theorem yields_optional {reader : Reader α} (h : Yields P reader) :
    Yields (fun a? => ∀ a, a? = some a → P a) (optional reader) := by
  unfold optional
  apply Yields.after
  intro _
  split
  · apply Yields.after
    intro _
    exact .after fun _ => .pure fun _ hnone => nomatch hnone
  · refine h.bind fun a ha => .pure fun b hb => ?_
    cases hb
    exact ha

end Reader

end Json

end TreeRender
