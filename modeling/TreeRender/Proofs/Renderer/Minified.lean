import TreeRender.Proofs.Reading.Minified
import TreeRender.Proofs.Renderer.Streaming

/-!
# Minified renders

Minification leaves the tags of rendered markup alone, whatever their attributes hold, and takes
nothing but blanks out of the texts between them.
-/

namespace TreeRender

open Markup Reading

variable {F σ : Type}

def Config.withoutMinification (config : Config) : Config := { config with minify := false }

namespace Outline

private theorem splits_bottomUp (hydrate : Bool) {fallback : String}
    (hfallback : '<' ∉ fallback.toList)
    {o : Outline F} (hwell : o.WellFormed) (r : Registry F) {after : List Char}
    {tokens : List Token} (hafter : Splits after tokens) :
    ∃ tokens', Splits ((o.bottomUp hydrate fallback r).1.toList ++ after) tokens' := by
  induction o generalizing r after tokens with
  | nil => exact ⟨tokens, hafter⟩
  | text content rest ih =>
    obtain ⟨more, hmore⟩ := ih hwell r hafter
    have hcontent : '<' ∉ (escape content).toList := by
      rw [escape, String.toList_ofList]
      exact fun hmem => (isPlain_of_mem_escapeChars hmem).1 rfl
    simp only [bottomUp, String.toList_append, List.append_assoc]
    exact ⟨_, hmore.text hcontent⟩
  | fallback rest ih =>
    obtain ⟨more, hmore⟩ := ih hwell r hafter
    simp only [bottomUp, String.toList_append, List.append_assoc]
    exact ⟨_, hmore.text hfallback⟩
  | element e content rest ihc ih =>
    obtain ⟨hvalid, hempty, hcontent, hrest⟩ := hwell
    simp only [bottomUp, String.toList_append, List.append_assoc]
    generalize hinner : content.bottomUp hydrate fallback r = inner
    obtain ⟨more, hmore⟩ := ih hrest (openText hydrate e inner.2).2 hafter
    rw [← source_openingToken]
    cases hvoid : isVoid e.tag with
    | true =>
      rw [bodyText, hvoid, if_pos rfl]
      exact ⟨_, hmore.tag rfl (inGrammar_openingToken hvalid _).inMarkup⟩
    | false =>
      have hclosing : (Token.closing e.tag.toList).InMarkup := isName_of_isValidName hvalid
      have hbehind := hmore.tag rfl hclosing
      obtain ⟨within, hwithin⟩ := ihc hcontent r hbehind
      rw [hinner, source_closing] at hwithin
      rw [bodyText, hvoid, if_neg Bool.false_ne_true, String.toList_append, List.append_assoc]
      exact ⟨_, hwithin.tag rfl (inGrammar_openingToken hvalid _).inMarkup⟩

end Outline

namespace MarkupRenderer

variable {config : Config} {r r₀ : MarkupRenderer F}

/-- With minification a render fails as without it, and otherwise gives the same tags, and between
them the same texts up to blanks. -/
theorem render_minified (hr : r.Reachable config) (hr₀ : r₀.Reachable config.withoutMinification)
    (hminify : config.minify = true) (hactions : r₀.actions = r.actions)
    (hfallback : '<' ∉ config.errorFallback.toList) (program : Program F σ)
    (hprovide : ∀ name depth s, program.provide name depth config s =
      program.provide name depth config.withoutMinification s)
    (node : Node F) (world world₀ : World σ) (hstate : world.state = world₀.state) :
    (r.render program node world).value.result =
        (r₀.render program node world₀).value.result.map Markup.minify ∧
      ∀ html₀, (r₀.render program node world₀).value.result = .ok html₀ →
        ∃ tokens₀ tokens, Splits html₀.toList tokens₀ ∧
          Splits (Markup.minify html₀).toList tokens ∧
          (∀ ts, Splits html₀.toList ts → ts = tokens₀) ∧
          (∀ ts, Splits (Markup.minify html₀).toList ts → ts = tokens) ∧
          tags tokens = tags tokens₀ ∧ unspaced tokens = unspaced tokens₀ := by
  have hlike : config.EvaluatesLike program config.withoutMinification := ⟨rfl, rfl, hprovide⟩
  have hresult := hr.sound.result_eq program node world
  have hresult₀ := hr₀.sound.result_eq program node world₀
  rw [hminify, hstate, outlining_congr hlike] at hresult
  rw [hactions] at hresult₀
  rw [hresult, hresult₀]
  cases houtline : (outlining program config.withoutMinification node world₀.state).1 with
  | error e => exact ⟨rfl, fun html₀ h => nomatch h⟩
  | ok o =>
    refine ⟨rfl, fun html₀ hok => ?_⟩
    obtain rfl := Except.ok.inj hok
    have hwell := wellFormed_of_outlining houtline
    obtain ⟨tokens₀, hsplits₀⟩ :=
      Outline.splits_bottomUp config.enableHydration hfallback hwell r.actions splits_nil
    rw [List.append_nil] at hsplits₀
    obtain ⟨tokens, hsplits, hunspaced⟩ := hsplits₀.minify
    refine ⟨tokens₀, tokens, hsplits₀, hsplits, fun _ h => h.unique hsplits₀,
      fun _ h => h.unique hsplits, ?_, hunspaced⟩
    rw [← tags_unspaced, hunspaced, tags_unspaced]

/-- Blanks where they are kept and where they are not: in a value that holds a `>`, in a text, in a
script, and between tags. -/
def spacious : Element String (Node String) :=
  ((Element.new "p").attr "title" (.str "a  >\t'b'")).withChildren [.text (.str " x   y "),
    .element ((Element.new "script").withText "i  =  1"), .text (.str "\n  "),
    .element ((Element.new "br").on "click" "open")]

theorem render_minified_spacious :
    let world : World Nat := { state := 0, clock := { reading := id } }
    let config : Config := { minify := true, enableHydration := true, errorFallback := "> \"" }
    ((fresh config).render Program.counting (.element spacious) world).value.result =
        ((fresh config.withoutMinification).render Program.counting (.element spacious)
          world).value.result.map Markup.minify ∧
      ∃ html₀ tokens₀ tokens,
        ((fresh config.withoutMinification).render Program.counting (.element spacious)
          world).value.result = .ok html₀ ∧
        Splits html₀.toList tokens₀ ∧ Splits (Markup.minify html₀).toList tokens ∧
        Markup.minify html₀ = "<p title=\"a  &gt;\t&#39;b&#39;\"> x y <script>i  =  1</script>" ++
          "<br data-action-click=\"a0\"></p>" ∧
        tags tokens = tags tokens₀ := by
  intro world config
  have hr : (fresh config : MarkupRenderer String).Reachable config := .new rfl
  have hr₀ : (fresh config.withoutMinification : MarkupRenderer String).Reachable
      config.withoutMinification := .new rfl
  have hfallback : '<' ∉ config.errorFallback.toList := by decide
  obtain ⟨hsame, hsplit⟩ := render_minified hr hr₀ rfl rfl hfallback Program.counting
    (fun _ _ _ => rfl) (.element spacious) world world rfl
  have hshown : ((fresh config.withoutMinification).render Program.counting (.element spacious)
      world).value.result.toOption.map Markup.minify =
        some ("<p title=\"a  &gt;\t&#39;b&#39;\"> x y <script>i  =  1</script>" ++
          "<br data-action-click=\"a0\"></p>") := by
    decide +kernel
  refine ⟨hsame, ?_⟩
  cases hresult : ((fresh config.withoutMinification).render Program.counting (.element spacious)
      world).value.result with
  | error e =>
    rw [hresult] at hshown
    cases hshown
  | ok html₀ =>
    obtain ⟨tokens₀, tokens, hsplits₀, hsplits, -, -, htags, -⟩ := hsplit html₀ hresult
    rw [hresult] at hshown
    exact ⟨html₀, tokens₀, tokens, rfl, hsplits₀, hsplits, Option.some.inj hshown, htags⟩

end MarkupRenderer

end TreeRender
