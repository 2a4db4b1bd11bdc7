import TreeRender.Proofs.Dom.Parity
import TreeRender.Proofs.Hydration.Streams
import TreeRender.Proofs.Renderer.Hydration

/-!
# Action ids over the history of a renderer

Renders and streams publish the handlers of what they write, and what they write names each of them
once. Whatever a renderer goes through, no id is given twice, and no id that was given stands in two
tags.
-/

namespace TreeRender

open Markup MarkupStream

variable {F σ : Type}

/-- What a renderer has given: a page, or the chunks of a stream. -/
inductive Output where
  | page (html : String)
  | chunks (texts : List String)

/-- What the output presents is this markup, minified and encoded as the configuration says. -/
def Output.Presents (config : Config) (markup : String) : Output → Prop
  | .page html => html = if config.minify then minify markup else markup
  | .chunks texts => ∃ cuts, String.join (cuts.map Prod.snd) = markup ∧
    texts = (cutChunks config cuts).1

/-- Something that a renderer went through: the parts of a tree that it reached, what it gave, if
anything, and the actions that were published meanwhile. -/
structure Episode (F : Type) where
  reached : List (Part F)
  output : Option Output
  gained : List (Nat × Action F)

def Output.ofResult : Except RenderError String → Option Output
  | .ok html => some (.page html)
  | .error _ => none

namespace MarkupRenderer

/-- The renderers that can come of one made for `config`, with what they went through. Renders may
fail and streams may be given up; besides, actions may be published and drained at any time. -/
inductive History (config : Config) : MarkupRenderer F → List (Episode F) → Prop
  | new {r} : (MarkupRenderer.new config).value = .ok r → History config r []
  | render {σ : Type} {r episodes} (program : Program F σ) (node : Node F) (world : World σ) :
    History config r episodes →
    History config (r.render program node world).value.renderer (episodes ++ [{
      reached := reached program config node world.state
      output := Output.ofResult (r.render program node world).value.result
      gained := (r.render program node world).value.renderer.actions.actions.drop
        r.actions.actions.length }])
  | stream {σ : Type} {r episodes} (program : Program F σ) (node : Node F) (world : World σ)
    {items : List Item} {s : MarkupStream F σ} : History config r episodes →
    (MarkupStream.new r program node world).Pulls items s →
    History config s.close.1 (episodes ++ [{
      reached := reached program config node world.state
      output := some (.chunks (chunksOf items))
      gained := s.close.1.actions.actions.drop r.actions.actions.length }])
  | publish {r episodes} (event : String) (handler : F) : History config r episodes →
    History config { r with actions := (r.actions.publish event handler).2 } (episodes ++ [{
      reached := []
      output := none
      gained := [((r.actions.publish event handler).1, ⟨event, handler⟩)] }])
  | drain {r episodes} : History config r episodes →
    History config { r with actions := r.actions.drain.2 } episodes
  | clearCache {r episodes} : History config r episodes →
    History config { r with engine := r.engine.clearCache } episodes

end MarkupRenderer

/-- The parts, with the ids of their actions, explain an episode: the output presents them. They are
the parts that were reached, and their actions are those that were published meanwhile. The chunks
of a stream may leave off before the last parts that were reached and published. -/
def Episode.ExplainedBy (config : Config) (episode : Episode F) (parts : List (Part F × Nat)) :
    Prop :=
  match episode.output with
  | none => parts = []
  | some (.page html) => (Output.page html).Presents config (written (segmentsOf config parts)) ∧
    parts.map Prod.fst = episode.reached ∧
    (published (segmentsOf config parts)).Perm episode.gained
  | some (.chunks texts) =>
    (Output.chunks texts).Presents config (written (segmentsOf config parts)) ∧
    ∃ more, (parts ++ more).map Prod.fst <+: episode.reached ∧
      (published (segmentsOf config (parts ++ more))).Perm episode.gained

theorem Episode.ExplainedBy.perm {config : Config} {episode : Episode F}
    {parts : List (Part F × Nat)} (h : episode.ExplainedBy config parts) :
    ∃ lost, (published (segmentsOf config parts) ++ lost).Perm episode.gained := by
  obtain ⟨reached, output, entries⟩ := episode
  match output with
  | none =>
    obtain rfl : parts = [] := h
    exact ⟨entries, .refl _⟩
  | some (.page html) =>
    refine ⟨[], ?_⟩
    rw [List.append_nil]
    exact h.2.2
  | some (.chunks texts) =>
    obtain ⟨-, more, -, hperm⟩ := h
    rw [segmentsOf_append, published_append] at hperm
    exact ⟨_, hperm⟩

private theorem Episode.ExplainedBy.reached {config : Config} {episode : Episode F}
    {parts : List (Part F × Nat)} (h : episode.ExplainedBy config parts) :
    parts.map Prod.fst <+: episode.reached := by
  obtain ⟨reached, output, entries⟩ := episode
  match output with
  | none =>
    obtain rfl : parts = [] := h
    exact List.nil_prefix
  | some (.page html) => exact h.2.1 ▸ List.prefix_rfl
  | some (.chunks texts) =>
    obtain ⟨-, more, hreached, -⟩ := h
    rw [List.map_append] at hreached
    exact (List.prefix_append ..).trans hreached

def allPublished (episodes : List (Episode F)) : List (Nat × Action F) :=
  episodes.flatMap Episode.gained

private theorem allPublished_concat (episodes : List (Episode F)) (episode : Episode F) :
    allPublished (episodes ++ [episode]) = allPublished episodes ++ episode.gained := by
  rw [allPublished, List.flatMap_append, List.flatMap_singleton]
  rfl

/-- What is known of a registry after some episodes: its ids were given once each, and the next one
was not given yet. -/
structure Registry.Recalls (r : Registry F) (episodes : List (Episode F)) : Prop where
  sound : r.Sound
  nodup : ((allPublished episodes).map Prod.fst).Nodup
  given : ∀ entry ∈ allPublished episodes, entry.1 < r.nextId

private theorem Registry.Recalls.gains {r r' : Registry F} {episodes : List (Episode F)}
    (h : r.Recalls episodes) {entries : List (Nat × Action F)} (hgains : r.Gains entries r')
    {reached : List (Part F)} {output : Option Output} {gained : List (Nat × Action F)}
    (hgained : entries.Perm gained) : r'.Recalls (episodes ++ [⟨reached, output, gained⟩]) := by
  have hfresh {entry : Nat × Action F} (hentry : entry ∈ gained) :
      r.nextId ≤ entry.1 ∧ entry.1 < r'.nextId :=
    hgains.bounds (hgained.mem_iff.2 hentry)
  refine ⟨h.sound.gains hgains, ?_, ?_⟩
  · rw [allPublished_concat, List.map_append]
    refine List.nodup_append.2 ⟨h.nodup, ((hgained.map Prod.fst).nodup_iff).1 hgains.nodup, ?_⟩
    intro id hid id' hid' heq
    obtain ⟨entry, hentry, rfl⟩ := List.mem_map.1 hid
    obtain ⟨entry', hentry', rfl⟩ := List.mem_map.1 hid'
    have hold := h.given entry hentry
    have hnew := (hfresh hentry').1
    omega
  · intro entry hentry
    rw [allPublished_concat] at hentry
    rcases List.mem_append.1 hentry with hold | hnew
    · refine Nat.lt_of_lt_of_le (h.given entry hold) ?_
      rw [hgains.nextId]
      exact Nat.le_add_right _ _
    · exact (hfresh hnew).2

namespace MarkupRenderer

variable {config : Config} {r : MarkupRenderer F} {episodes : List (Episode F)}

theorem History.reachable (h : History config r episodes) : r.Reachable config := by
  induction h with
  | new hnew => exact .new hnew
  | render program node world _ ih => exact .render program node world ih
  | @stream σ r episodes program node world items s _ hpulls ih =>
    have hpulled : (MarkupStream.new r program node world).Pulled s := by
      clear ih
      induction hpulls with
      | start => exact .start
      | pull _ ihpull => exact .pull ihpull
    exact .stream program node world ih hpulled
  | publish event handler _ ih => exact .changeActions _ ih
  | drain _ ih => exact .changeActions _ ih
  | clearCache _ ih => exact .clearCache ih

private theorem new_actions (h : (MarkupRenderer.new config).value = .ok r) : r.actions = {} := by
  rw [value_new] at h
  cases hvalid : config.validate.value with
  | error e =>
    rw [hvalid] at h
    cases h
  | ok u =>
    rw [hvalid] at h
    cases h
    rfl

private theorem stepsWithin_gains (hydrate : Bool) :
    (backend (F := F) hydrate).StepsWithin (σ := σ) (fun _ => True)
      fun s s' => ∃ entries, s.backend.Gains entries s'.backend where
  toHereditary := Node.hereditary_true
  refl s := ⟨[], .refl s.backend⟩
  trans := by
    rintro s t u ⟨entries, hst⟩ ⟨entries', htu⟩
    exact ⟨_, hst.trans htu⟩
  scene s _ := ⟨[], .refl s.backend⟩
  clock s _ := ⟨[], .refl s.backend⟩
  lookUp _ s _ _ := ⟨[], .refl s.backend⟩
  store _ s _ _ _ := ⟨[], .refl s.backend⟩
  operation hx s := by
    cases hx with
    | @element e content _ _ =>
      change ∃ entries, s.backend.Gains entries
        (elementText hydrate e content s.backend).value.2
      rw [value_elementText]
      exact ⟨_, gains_openText { enableHydration := hydrate } e s.backend⟩
    | _ => exact ⟨[], .refl s.backend⟩

private theorem render_gains (r : MarkupRenderer F) (program : Program F σ) (node : Node F)
    (world : World σ) :
    ∃ entries, r.actions.Gains entries (r.render program node world).value.renderer.actions :=
  (stepsWithin_gains r.engine.config.enableHydration).closed.walkFrom
    (Nat.add_comm 1 r.engine.config.maxDepth) (Nat.le_refl 1) trivial
    (r.engine.start world r.actions).2

theorem Sound.render_outlined (h : r.Sound config) {program : Program F σ} {node : Node F}
    {world : World σ} {html : String}
    (hhtml : (r.render program node world).value.result = .ok html) :
    ∃ o, (outlining program config node world.state).1 = .ok o ∧
      html = (if config.minify then
        minify (o.bottomUp config.enableHydration config.errorFallback r.actions).1
        else (o.bottomUp config.enableHydration config.errorFallback r.actions).1) ∧
      (r.render program node world).value.renderer.actions =
        (o.bottomUp config.enableHydration config.errorFallback r.actions).2 := by
  have agree := h.agree program node world
  rw [value_render, h.configured] at hhtml ⊢
  generalize r.walked program node world = p at agree hhtml ⊢
  generalize outlining program config node world.state = q at agree ⊢
  cases agree with
  | error _ => cases hhtml
  | @ok text o s t htext _ =>
    refine ⟨o, rfl, ?_, (congrArg Prod.snd htext).symm⟩
    cases hhtml
    rw [htext]

private theorem Sound.explained_render (h : r.Sound config) (program : Program F σ) (node : Node F)
    (world : World σ) :
    ∃ parts entries, r.actions.Gains entries (r.render program node world).value.renderer.actions ∧
      ∀ gained, entries.Perm gained → Episode.ExplainedBy config
        ⟨reached program config node world.state,
          Output.ofResult (r.render program node world).value.result, gained⟩ parts := by
  cases hresult : (r.render program node world).value.result with
  | error e =>
    obtain ⟨entries, hgains⟩ := r.render_gains program node world
    exact ⟨[], entries, hgains, fun _ _ => rfl⟩
  | ok html =>
    obtain ⟨o, houtline, hhtml, hactions⟩ := h.render_outlined hresult
    obtain ⟨parts, hparts⟩ := Outline.inParts_bottomUp config (wellFormed_of_outlining houtline)
      r.actions
    rw [← hactions] at hparts
    refine ⟨parts, _, hparts.gains, fun gained hperm => ⟨?_, ?_, hperm⟩⟩
    · rw [Output.Presents, hhtml, hparts.html]
    · rw [hparts.shape]
      exact (reached_eq_parts houtline).symm

private theorem Sound.explained_stream (h : r.Sound config) {program : Program F σ} {node : Node F}
    {world : World σ} {items : List Item} {s : MarkupStream F σ}
    (hpulls : (MarkupStream.new r program node world).Pulls items s) :
    ∃ parts entries, r.actions.Gains entries s.close.1.actions ∧
      ∀ gained, entries.Perm gained → Episode.ExplainedBy config
        ⟨reached program config node world.state, some (.chunks (chunksOf items)), gained⟩
        parts := by
  obtain ⟨cuts, parts, more, hchunks, hwritten, hactions, hreached⟩ := h.chunks_reached hpulls
  have hgains := gains_writeParts config (parts ++ more) r.actions
  rw [← hactions] at hgains
  refine ⟨Part.numberFrom config r.actions.nextId parts, _, hgains, fun gained hperm =>
    ⟨⟨cuts, hwritten, hchunks⟩, ?_⟩⟩
  rw [Part.numberFrom_append] at hperm
  refine ⟨_, ?_, hperm⟩
  rw [← Part.numberFrom_append, Part.map_fst_numberFrom]
  exact hreached

/-- Each episode of a history with the parts that explain it. Their elements have valid names. -/
structure Explains (config : Config) (explanations : List (Episode F × List (Part F × Nat)))
    (episodes : List (Episode F)) : Prop where
  episodes : explanations.map Prod.fst = episodes
  explained : ∀ explanation ∈ explanations, explanation.1.ExplainedBy config explanation.2
  valid : ∀ explanation ∈ explanations, ∀ e first, (.opening e, first) ∈ explanation.2 →
    isValidName e.tag = true

theorem Explains.concat {explanations : List (Episode F × List (Part F × Nat))}
    (h : Explains config explanations episodes) {episode : Episode F}
    {parts : List (Part F × Nat)} (hepisode : episode.ExplainedBy config parts)
    (hvalid : ∀ e, .opening e ∈ episode.reached → isValidName e.tag = true) :
    Explains config (explanations ++ [(episode, parts)]) (episodes ++ [episode]) where
  episodes := by
    rw [List.map_append, h.episodes]
    rfl
  explained := List.forall_mem_append.2 ⟨h.explained, by simpa using hepisode⟩
  valid := by
    refine List.forall_mem_append.2 ⟨h.valid, ?_⟩
    rintro explanation hmem e first hopening
    obtain rfl := List.mem_singleton.1 hmem
    exact hvalid e (hepisode.reached.subset (List.mem_map_of_mem hopening))

/-- What a history leaves: a registry that gave each id once, and an explanation of each episode. -/
theorem History.explained (h : History config r episodes) : r.actions.Recalls episodes ∧
    ∃ explanations, Explains config explanations episodes := by
  induction h with
  | new hnew =>
    rw [new_actions hnew]
    exact ⟨⟨Registry.sound_empty, List.nodup_nil, nofun⟩, [], rfl, nofun, nofun⟩
  | @render σ r episodes program node world hr ih =>
    obtain ⟨hrecalls, explanations, hexplains⟩ := ih
    obtain ⟨parts, entries, hgains, hrender⟩ :=
      hr.reachable.sound.explained_render program node world
    have hperm := hgains.drop.2
    exact ⟨hrecalls.gains hgains hperm, _,
      hexplains.concat (hrender _ hperm) fun _ => valid_reached⟩
  | @stream σ r episodes program node world items s hr hpulls ih =>
    obtain ⟨hrecalls, explanations, hexplains⟩ := ih
    obtain ⟨parts, entries, hgains, hstream⟩ := hr.reachable.sound.explained_stream hpulls
    have hperm := hgains.drop.2
    exact ⟨hrecalls.gains hgains hperm, _,
      hexplains.concat (hstream _ hperm) fun _ => valid_reached⟩
  | @publish r episodes event handler _ ih =>
    obtain ⟨hrecalls, explanations, hexplains⟩ := ih
    have hgains := Registry.Gains.publish r.actions event handler
    -- What is published by hand stands in no tag.
    have hunseen :
        Episode.ExplainedBy config ⟨[], none, [(r.actions.nextId, ⟨event, handler⟩)]⟩ [] := rfl
    exact ⟨hrecalls.gains hgains (.refl _), _, hexplains.concat hunseen fun _ h => nomatch h⟩
  | drain _ ih =>
    obtain ⟨hrecalls, hexplanations⟩ := ih
    exact ⟨⟨Registry.sound_drain _, hrecalls.nodup, hrecalls.given⟩, hexplanations⟩
  | clearCache _ ih => exact ih

/-- No id stands in two of the tags that explain a history. -/
theorem Explains.nodup {explanations : List (Episode F × List (Part F × Nat))}
    (h : Explains config explanations episodes)
    (hnodup : ((allPublished episodes).map Prod.fst).Nodup) :
    ((explanations.flatMap fun explanation =>
      published (segmentsOf config explanation.2)).map Prod.fst).Nodup := by
  have hperm : ∃ lost, ((explanations.flatMap fun explanation =>
      published (segmentsOf config explanation.2)) ++ lost).Perm
      (allPublished (explanations.map Prod.fst)) := by
    have hexplained := h.explained
    clear h
    induction explanations with
    | nil => exact ⟨[], .nil⟩
    | cons explanation explanations ih =>
      obtain ⟨lost, hlost⟩ := (hexplained explanation (by simp)).perm
      obtain ⟨lost', hlost'⟩ := ih fun e he => hexplained e (by simp [he])
      refine ⟨lost ++ lost', ?_⟩
      rw [List.flatMap_cons]
      refine List.Perm.trans ?_ (hlost.append hlost')
      simp only [List.append_assoc]
      refine .append_left _ ?_
      rw [← List.append_assoc, ← List.append_assoc]
      exact List.perm_append_comm.append_right _
  obtain ⟨lost, hlost⟩ := hperm
  rw [h.episodes] at hlost
  have hall := ((hlost.map Prod.fst).nodup_iff).2 hnodup
  rw [List.map_append] at hall
  exact (List.nodup_append.1 hall).1

end MarkupRenderer

end TreeRender
