import TreeRender.Proofs.Dom.Parity
import TreeRender.Proofs.Outline.Described
import TreeRender.Proofs.Reading.Document

/-!
# Reading rendered markup

Rendered markup says what the tree describes and nothing else: it can be read in one way, and this
way gives back the document that the tree describes. So whatever texts, values and names a tree is
made of, they add no tag, remove none and change none.
-/

namespace TreeRender

open Markup Reading

variable {F σ : Type}

namespace MarkupRenderer

variable {config : Config} {r : MarkupRenderer F}

/-- A tree that is rendered describes just one document, the markup is made up of tokens in just one
way, and the tokens make up this document. -/
theorem render_reads (hr : r.Reachable config) (hdry : config.enableHydration = false)
    (hraw : config.minify = false)
    (hplain : ∀ c ∈ config.errorFallback.toList, c ≠ '&' ∧ IsPlain c) (program : Program F σ)
    (node : Node F) (world : World σ) {html : String}
    (hok : (r.render program node world).value.result = .ok html) :
    ∃ o t, Describes program config 1 [node] { state := world.state } o t ∧
      (∀ o' t', Describes program config 1 [node] { state := world.state } o' t' →
        o' = o ∧ t' = t) ∧
      ∃ tokens, Tokenizes html.toList tokens ∧
        (∀ tokens', Tokenizes html.toList tokens' → tokens' = tokens) ∧
        document? tokens = some (o.document config.errorFallback) := by
  have hresult := hr.sound.dry_result hdry hraw program node world
  rw [hok] at hresult
  cases houtline : (outlining program config node world.state).1 with
  | error e =>
    rw [houtline] at hresult
    cases hresult
  | ok o =>
    rw [houtline] at hresult
    obtain rfl : html = o.markup config.errorFallback := Except.ok.inj hresult
    obtain ⟨t, hdescribes⟩ := describes_of_outlining houtline
    obtain ⟨htokens, hdocument⟩ := Outline.reads_markup hplain (wellFormed_of_outlining houtline)
    exact ⟨o, t, hdescribes, fun _ _ h => h.unique hdescribes, o.tokens config.errorFallback [],
      htokens, fun _ h => h.unique htokens, hdocument⟩

/-- An element with texts, values and names that look like markup, and a component that fails. -/
def hostile : Element String (Node String) :=
  (((((Element.new "p").className "a\" b='c").attr "x onload" (.str "steal()")).attr "hidden"
    (.bool true)).attr "style" (.style [("fontFamily", "\"<i>\"")])).withText "</p><br>&amp;"
      |>.withChildren [.component (.producer "broken"), .text (.str "'"),
        .element ((Element.new "br").withText "lost"), .element (Element.new "br/")]

def Program.failing : Program String Nat where
  produce _ calls := return (.error (.refused "broken"), calls + 1)
  provide _ _ _ calls := .finish (return (.ok .empty, calls))
  compute _ calls := return (.error none, calls)

private theorem describes_hostile : ∃ t,
    Describes Program.failing { errorFallback := "gone" } 1 [.element hostile] { state := 0 }
      (.element hostile (.text "</p><br>&amp;" (.fallback (.text "'"
        (.element ((Element.new "br").withText "lost") .nil .nil)))) .nil) t := by
  have hname : isValidName "p" = true ∧ isValidName "br" = true ∧ isValidName "br/" = false := by
    decide +kernel
  have hvoid : isVoid "p" = false ∧ isVoid "br" = true := by decide +kernel
  exact ⟨_, .element (o := .text _ .nil) hname.1 hvoid.1 (.text rfl)
    (.failed rfl rfl (.text (.void hname.2.1 hvoid.2 (.unnamed hname.2.2 .nil)))) .nil⟩

/-- What the element says once it is written and read. -/
theorem render_reads_hostile : ∃ html tokens,
    ((fresh { errorFallback := "gone" }).render Program.failing (.element hostile)
      { state := 0, clock := { reading := id } }).value.result = .ok html ∧
    Tokenizes html.toList tokens ∧
    document? tokens = some (.element "p"
      [("class", some "a\" b='c"), ("hidden", none), ("style", some "font-family:\"<i>\"")]
      (.text "</p><br>&amp;gone'" (.element "br" [] .nil .nil)) .nil) := by
  have hr : (fresh { errorFallback := "gone" } : MarkupRenderer String).Reachable
      { errorFallback := "gone" } := .new rfl
  have hall : "gone".toList.all (fun c => c ≠ '&' ∧ IsPlain c) = true := by decide +kernel
  have hplain (c : Char) (hc : c ∈ "gone".toList) : c ≠ '&' ∧ IsPlain c :=
    of_decide_eq_true (List.all_eq_true.1 hall c hc)
  have hok : ((fresh { errorFallback := "gone" }).render Program.failing (.element hostile)
      { state := 0, clock := { reading := id } }).value.result.toOption.isSome := by
    decide +kernel
  obtain ⟨t, hdescribes⟩ := describes_hostile
  cases hresult : ((fresh { errorFallback := "gone" }).render Program.failing (.element hostile)
      { state := 0, clock := { reading := id } }).value.result with
  | error e =>
    rw [hresult] at hok
    cases hok
  | ok html =>
    obtain ⟨o, t', -, hunique, tokens, htokens, -, hdocument⟩ :=
      render_reads hr rfl rfl hplain Program.failing (.element hostile) _ hresult
    obtain ⟨rfl, rfl⟩ := hunique _ _ hdescribes
    exact ⟨html, tokens, rfl, htokens, hdocument.trans (by decide +kernel)⟩

end MarkupRenderer

end TreeRender
