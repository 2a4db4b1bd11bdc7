import TreeRender.Proofs.Hydration.History

/-!
# What hydration adds

With hydration, a page or a drained stream is the markup without hydration, with one attribute for
each action of each element. The registry gains these actions, and finds them by the ids in the
markup.
-/

namespace TreeRender

open Markup MarkupStream

variable {F σ : Type} {config : Config}

def Config.withoutHydration (config : Config) : Config := { config with enableHydration := false }

/-- The hydrated markup of an outline, in its parts: in the tag of each element there is an attribute
for each of its actions, under an id that the registry gave it, and around these attributes stands
the markup `plain` without hydration. -/
structure Outline.Hydrates (config : Config) (o : Outline F) (r r' : Registry F)
    (html plain : String) (parts : List (Part F × Nat)) : Prop where
  wellFormed : o.WellFormed
  shape : parts.map Prod.fst = o.parts
  html : html = written (segmentsOf config parts)
  actions : (published (segmentsOf config parts)).map Prod.snd =
    o.elements.flatMap Element.actions
  gained : ∃ gained, r'.actions = r.actions ++ gained ∧
    (published (segmentsOf config parts)).Perm gained
  nodup : ((published (segmentsOf config parts)).map Prod.fst).Nodup
  found : r'.nextId < UInt64.size → ∀ id action,
    (id, action) ∈ published (segmentsOf config parts) →
      ActionId.parse? (ActionId.text id) = some id ∧ r'.get? id = some action
  plain : stripped (segmentsOf config parts) = plain

private theorem Outline.InParts.hydrates {o : Outline F} {r r' : Registry F} {html : String}
    {parts : List (Part F × Nat)} (h : InParts config o r r' html parts) (hwell : o.WellFormed)
    (hhydrate : config.enableHydration = true) (hr : r.Sound) :
    o.Hydrates config r r' html (o.markup config.errorFallback) parts where
  wellFormed := hwell
  shape := h.shape
  html := h.html
  actions := by rw [actions_published, h.shape, actions_parts hwell hhydrate]
  gained := ⟨_, h.gains.drop⟩
  nodup := h.gains.nodup
  found := by
    intro hfew id action hmem
    obtain ⟨hactions, hperm⟩ := h.gains.drop
    have hfresh : id < r'.nextId := (h.gains.bounds hmem).2
    refine ⟨ActionId.parse?_text (Nat.lt_trans hfresh hfew), (hr.gains h.gains).get?_eq ?_⟩
    rw [hactions]
    exact List.mem_append_right _ (hperm.mem_iff.1 hmem)
  plain := by rw [stripped_segmentsOf, h.shape, plain_parts hwell]

namespace MarkupRenderer

variable {r : MarkupRenderer F}

private theorem Sound.drain_outlined (h : r.Sound config) (hencoding : config.encoding = .utf8)
    (hraw : config.minify = false) (program : Program F σ) (node : Node F) (world : World σ) :
    ∃ items last, Drains (MarkupStream.new r program node world).next.value items last ∧
      ∀ html, Delivers items (.ok html) →
        ∃ o, (outlining program config node world.state).1 = .ok o ∧
          o.topDown config.enableHydration config.errorFallback r.actions =
            (html, last.close.1.actions) := by
  have hfallback : config.minify = true → '<' ∉ config.errorFallback.toList := by
    rw [hraw]
    exact fun h => nomatch h
  obtain ⟨items, last, hdrains, hdelivers, hactions⟩ :=
    h.drain_result hencoding hfallback program node world
  refine ⟨items, last, hdrains, fun html hhtml => ?_⟩
  have hresult := hdelivers.unique hhtml
  cases ho : (outlining program config node world.state).1 with
  | error e =>
    rw [ho] at hresult
    cases hresult
  | ok o =>
    rw [ho, hraw] at hresult
    exact ⟨o, rfl, Prod.ext (Except.ok.inj hresult) (hactions o ho).symm⟩

/-- Over the history of a renderer no id is given twice, and none stands in two of the tags that
explain what the renderer gave. With hydration, and without minification and encoding, a render that
succeeds and a drained stream that does give the markup that there is without hydration, with one
attribute for each action of each element. -/
theorem History.hydration_accounts {episodes : List (Episode F)} (h : History config r episodes) :
    ((allPublished episodes).map Prod.fst).Nodup ∧
    (∃ explanations, Explains config explanations episodes ∧
      ((explanations.flatMap fun explanation =>
        published (segmentsOf config explanation.2)).map Prod.fst).Nodup) ∧
    (config.enableHydration = true → config.minify = false → config.encoding = .utf8 →
      ∀ {σ : Type} (program : Program F σ), (∀ name depth s,
        program.provide name depth config s =
          program.provide name depth config.withoutHydration s) →
      ∀ dry : MarkupRenderer F, dry.Reachable config.withoutHydration →
      ∀ node (world world' : World σ), world.state = world'.state →
        (∀ html, (r.render program node world).value.result = .ok html →
          ∃ o plain parts, (outlining program config node world.state).1 = .ok o ∧
            (dry.render program node world').value.result = .ok plain ∧
            o.Hydrates config r.actions (r.render program node world).value.renderer.actions html
              plain parts) ∧
        ∃ items last, Drains (MarkupStream.new r program node world).next.value items last ∧
          ∀ html, Delivers items (.ok html) →
            ∃ o plain parts, (outlining program config node world.state).1 = .ok o ∧
              (dry.render program node world').value.result = .ok plain ∧
              o.Hydrates config r.actions last.close.1.actions html plain parts) := by
  obtain ⟨hrecalls, explanations, hexplains⟩ := h.explained
  refine ⟨hrecalls.nodup, ⟨explanations, hexplains, hexplains.nodup hrecalls.nodup⟩, ?_⟩
  intro hhydrate hraw hencoding σ program hprovide dry hdry node world world' hstate
  have hsound := h.reachable.sound
  have hlike : config.EvaluatesLike program config.withoutHydration := ⟨rfl, rfl, hprovide⟩
  have hplain (o : Outline F) (ho : (outlining program config node world.state).1 = .ok o) :
      (dry.render program node world').value.result = .ok (o.markup config.errorFallback) := by
    rw [hdry.sound.dry_result rfl hraw, ← hstate, ← outlining_congr hlike, ho]
    rfl
  -- A render publishes children before their parent, a stream the parent first.
  refine ⟨fun html hhtml => ?_, ?_⟩
  · obtain ⟨o, ho, htext, hactions⟩ := hsound.render_outlined hhtml
    have hwell := wellFormed_of_outlining ho
    obtain ⟨parts, hparts⟩ := Outline.inParts_bottomUp config hwell r.actions
    rw [hraw, if_neg Bool.false_ne_true] at htext
    rw [← hactions, ← htext] at hparts
    exact ⟨o, _, parts, ho, hplain o ho, hparts.hydrates hwell hhydrate hrecalls.sound⟩
  · obtain ⟨items, last, hdrains, hdelivered⟩ :=
      hsound.drain_outlined hencoding hraw program node world
    refine ⟨items, last, hdrains, fun html hhtml => ?_⟩
    obtain ⟨o, ho, htext⟩ := hdelivered html hhtml
    have hwell := wellFormed_of_outlining ho
    have hparts := Outline.inParts_topDown config hwell r.actions
    rw [htext] at hparts
    exact ⟨o, _, _, ho, hplain o ho, hparts.hydrates hwell hhydrate hrecalls.sound⟩

def hydrating : Config := { enableHydration := true }

/-- A renderer that gave a page, whose actions were drained. -/
def drainedOnce : MarkupRenderer String :=
  let rendered := ((fresh hydrating).render Program.counting nestedHandlers
    { state := 0, clock := { reading := id } }).value
  { rendered.renderer with actions := rendered.renderer.actions.drain.2 }

theorem hydration_accounts_drained :
    let page := (drainedOnce.render Program.counting nestedHandlers
      { state := 0, clock := { reading := id } }).value
    ∃ parts, page.result = .ok (written (segmentsOf hydrating parts)) ∧
      parts.map Prod.fst = reached Program.counting hydrating nestedHandlers 0 ∧
      written (segmentsOf hydrating parts) =
        "<a data-action-click=\"a3\"><b data-action-click=\"a2\"></b></a>" ∧
      stripped (segmentsOf hydrating parts) = "<a><b></b></a>" ∧
      ∀ id action, (id, action) ∈ published (segmentsOf hydrating parts) →
        page.renderer.actions.get? id = some action := by
  intro page
  have hnew : (fresh hydrating : MarkupRenderer String).History hydrating [] := .new rfl
  have hdry : (fresh hydrating.withoutHydration : MarkupRenderer String).Reachable
      hydrating.withoutHydration := .new rfl
  have hhistory : ∃ episodes, drainedOnce.History hydrating episodes :=
    ⟨_, (hnew.render Program.counting nestedHandlers
      { state := 0, clock := { reading := id } }).drain⟩
  obtain ⟨episodes, hhistory⟩ := hhistory
  obtain ⟨hrendered, -⟩ := hhistory.hydration_accounts.2.2 rfl rfl rfl Program.counting
    (fun _ _ _ => rfl) _ hdry nestedHandlers { state := 0, clock := { reading := id } }
    { state := 0, clock := { reading := id } } rfl
  have hshown : page.result.toOption =
      some "<a data-action-click=\"a3\"><b data-action-click=\"a2\"></b></a>" := by decide +kernel
  have hdryshown : ((fresh hydrating.withoutHydration).render Program.counting nestedHandlers
      { state := 0, clock := { reading := id } }).value.result.toOption =
        some "<a><b></b></a>" := by decide +kernel
  have hfew : page.renderer.actions.nextId < UInt64.size := by decide +kernel
  cases hresult : page.result with
  | error e =>
    rw [hresult] at hshown
    cases hshown
  | ok html =>
    obtain ⟨o, plain, parts, houtline, hplain, hhydrates⟩ := hrendered html hresult
    rw [hresult] at hshown
    rw [hplain] at hdryshown
    refine ⟨parts, congrArg Except.ok hhydrates.html, ?_, ?_, ?_, fun id action hmem => ?_⟩
    · rw [hhydrates.shape, reached_eq_parts houtline]
    · rw [← hhydrates.html]
      exact Option.some.inj hshown
    · rw [hhydrates.plain]
      exact Option.some.inj hdryshown
    · exact (hhydrates.found hfew id action hmem).2

end MarkupRenderer

end TreeRender
