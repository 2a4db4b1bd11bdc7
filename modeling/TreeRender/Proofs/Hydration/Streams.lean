import TreeRender.Proofs.Hydration.Recording
import TreeRender.Proofs.Renderer.Streaming
import TreeRender.Proofs.Stream.Pulls

/-!
# Streams of hydrated markup

A stream writes the parts that the walk over its tree reaches, one after the other, and the chunks
that it gives take them up in turn. Where it is given up, or an error ends it, some parts that it
wrote may be in no chunk.
-/

namespace TreeRender

open Markup

variable {F σ : Type}

/-- With `t` recorded so far, the rest of the plan takes a walk through to the parts `all`. -/
def Markup.Plan.Follows (config : Config) (r : Registry F) (all : List (Part F)) (plan : Plan F σ)
    (t : WalkState σ (List (Part F))) (walk : WalkState σ (Registry F)) : Prop :=
  ∃ x, plan.RecordedBy config r x ∧ t.Records config r walk ∧ (x.exec t).2.backend = all

section

variable {config : Config} {r : Registry F} {all : List (Part F)} {opens : Bool}
  {piece : Walk σ (Registry F) String} {component : Calls σ (Except RenderError (Node F))}
  {resume : Node F → Plan F σ} {plan rest : Plan F σ} {t : WalkState σ (List (Part F))}
  {walk walk' : WalkState σ (Registry F)} {scene : Scene σ}

private theorem Markup.Plan.RecordedBy.grows {x : Walk σ (List (Part F)) Unit}
    (h : plan.RecordedBy config r x) : Walk.Within (fun t t' => t.backend <+: t'.backend) x := by
  have composes := (stepsWithin_grows (F := F) (σ := σ)).composable
  induction plan generalizing x with
  | done =>
    obtain rfl : x = return () := h
    exact composes.pure ()
  | write opens piece rest ih =>
    obtain ⟨note, more, rfl, hnote, hmore⟩ := h
    exact composes.bind hnote.grows fun _ => ih hmore
  | call component resume rest ihresume ihrest =>
    obtain ⟨goOn, more, rfl, -, hgoOn, hmore⟩ := h
    apply composes.bind (stepsWithin_grows.onScene component)
    intro outcome
    cases outcome with
    | ok node => exact ihresume node (hgoOn node)
    | error e =>
      cases e with
      | failed cause =>
        exact composes.bind (composes.recover stepsWithin_grows.throw cause) fun _ => ihrest hmore
      | depthExceeded depth maxDepth => exact stepsWithin_grows.throw _
      | config cause => exact stepsWithin_grows.throw _

namespace Markup.Plan.Follows

private theorem reaches (h : plan.Follows config r all t walk) : t.backend <+: all := by
  obtain ⟨x, hx, -, rfl⟩ := h
  exact hx.grows t

private theorem clock (h : plan.Follows config r all t walk) (clock : Clock) :
    plan.Follows config r all t { walk with clock } := by
  obtain ⟨x, hx, hst, hall⟩ := h
  exact ⟨x, hx, ⟨⟨hst.state, hst.pending, hst.errors, hst.callDepths, hst.cache⟩, hst.valid,
    hst.written⟩, hall⟩

private theorem write (h : (Plan.write opens piece rest).Follows config r all t walk)
    {text : String}
    (hp : piece.exec walk = (.ok text, walk')) :
    ∃ t', rest.Follows config r all t' walk' ∧
      WritesNext config r t.backend t'.backend () text := by
  obtain ⟨x, ⟨note, more, rfl, hnote, hmore⟩, hst, hall⟩ := h
  have agree := hnote.tracks t.backend t walk rfl hst
  rw [Walk.exec_bind] at hall
  rw [hp] at agree
  generalize note.exec t = p at agree hall
  cases agree with
  | ok htext hst' => exact ⟨_, ⟨more, hmore, hst', hall⟩, htext⟩

private theorem fail (h : (Plan.write opens piece rest).Follows config r all t walk)
    {e : RenderError}
    (hp : piece.exec walk = (.error e, walk')) :
    ∃ t', Plan.done.Follows config r all t' walk' ∧ t.backend <+: t'.backend := by
  obtain ⟨x, ⟨note, more, rfl, hnote, hmore⟩, hst, hall⟩ := h
  have agree := hnote.tracks t.backend t walk rfl hst
  have hgrows := hnote.grows t
  rw [Walk.exec_bind] at hall
  rw [hp] at agree
  generalize note.exec t = p at agree hall hgrows
  cases agree with
  | error hst' => exact ⟨_, ⟨return (), rfl, hst', hall⟩, hgrows⟩

private theorem call (h : (Plan.call component resume rest).Follows config r all t walk)
    {outcome : Except RenderError (Node F)}
    (hcall : component.exec walk.toScene = (outcome, scene)) :
    ∃ t', t'.backend = t.backend ∧ match outcome with
      | .ok node => (resume node).Follows config r all t' { walk with toScene := scene }
      | .error (.failed cause) => (Plan.write false
          (recover config (backend config.enableHydration) cause) rest).Follows config r all t'
            { walk with toScene := scene }
      | .error _ => Plan.done.Follows config r all t' { walk with toScene := scene } := by
  obtain ⟨x, ⟨goOn, more, rfl, hblind, hgoOn, hmore⟩, hst, hall⟩ := h
  have agree := tracks_records_call hblind t.backend t walk rfl hst
  rw [Walk.exec_onScene component walk, hcall] at agree
  rw [Walk.exec_bind] at hall
  generalize (Walk.onScene component).exec t = p at agree hall
  cases agree with
  | @ok outcome' _ t' _ hcalled hst' =>
    obtain ⟨hbackend, houtcome⟩ := hcalled
    subst houtcome
    refine ⟨t', hbackend, ?_⟩
    cases outcome' with
    | ok node => exact ⟨_, hgoOn node, hst', hall⟩
    | error e =>
      cases e with
      | failed cause => exact ⟨_, ⟨_, more, rfl, notes_recover cause, hmore⟩, hst', hall⟩
      | depthExceeded depth maxDepth => exact ⟨return (), rfl, hst', hall⟩
      | config cause => exact ⟨return (), rfl, hst', hall⟩

end Markup.Plan.Follows

end

/-- What a stream has given and its minifier, after one more cut. Each cut takes up some markup, and
the last one what the minifier still holds. -/
def cutChunk (config : Config) (given : List String × Option Minifier) (cut : Bool × String) :
    List String × Option Minifier :=
  (if (MarkupStream.minified given.2 cut.1 cut.2).1 = "" then given.1
    else given.1 ++ [config.encoding.encode (MarkupStream.minified given.2 cut.1 cut.2).1],
   (MarkupStream.minified given.2 cut.1 cut.2).2)

/-- The chunks that a stream gives for `cuts`, and its minifier after them. -/
def cutChunks (config : Config) (cuts : List (Bool × String)) : List String × Option Minifier :=
  cuts.foldl (cutChunk config) ([], if config.minify then some {} else none)

namespace MarkupStream

def chunksOf (items : List Item) : List String := items.filterMap Except.toOption

private theorem chunksOf_append_error (items : List Item) (e : RenderError) :
    chunksOf (items ++ [.error e]) = chunksOf items :=
  List.filterMap_append.trans (List.append_nil _)

/-- The chunks among the items have taken up the parts `given`, and the parts `buffered` are in the
buffer. -/
structure TakesUp (config : Config) (r : Registry F) (items : List Item)
    (minifier : Option Minifier) (buffer : String) (given buffered : List (Part F)) : Prop where
  chunks : ∃ cuts, (chunksOf items, minifier) = cutChunks config cuts ∧
    String.join (cuts.map Prod.snd) = (writeParts config given r).1
  buffer : buffer = (writeParts config buffered (writeParts config given r).2).1

/-- The stream is on its way to the parts `all`, and its chunks have taken up the first of them.
Some are `lost` once an error has come up. -/
def Accounts (config : Config) (r : Registry F) (all : List (Part F)) (plan : Plan F σ)
    (items : List Item) (s : MarkupStream F σ) : Prop :=
  ∃ t given buffered lost, plan.Follows config r all t s.walk ∧
    TakesUp config r items s.minifier s.buffer given buffered ∧
    t.backend = given ++ buffered ++ lost ∧ (plan ≠ .done → lost = [])

section

variable {config : Config} {r : Registry F} {all given buffered parts : List (Part F)}
  {items : List Item} {minifier : Option Minifier} {buffer : String} {s : MarkupStream F σ}

private theorem TakesUp.written (h : TakesUp config r items minifier buffer given buffered)
    {text : String}
    (htext : text = (writeParts config parts (writeParts config (given ++ buffered) r).2).1) :
    TakesUp config r items minifier (buffer ++ text) given (buffered ++ parts) where
  chunks := h.chunks
  buffer := by
    rw [writeParts_append config buffered parts, htext, h.buffer,
      writeParts_append config given buffered]

private theorem TakesUp.error (h : TakesUp config r items minifier buffer given buffered)
    (e : RenderError) :
    TakesUp config r (items ++ [.error e]) minifier buffer given buffered where
  chunks := by
    rw [chunksOf_append_error]
    exact h.chunks
  buffer := h.buffer

private theorem TakesUp.cut (h : TakesUp config r items s.minifier s.buffer given buffered)
    (last : Bool)
    (hconfig : s.engine.config = config) :
    TakesUp config r (items ++ ((s.takeChunk last).1.map .ok : Option Item).toList)
      (s.cut last).minifier (s.cut last).buffer (given ++ buffered) [] where
  chunks := by
    obtain ⟨cuts, hcuts, hgiven⟩ := h.chunks
    refine ⟨cuts ++ [(last, s.buffer)], ?_, ?_⟩
    · rw [cutChunks, List.foldl_append, ← cutChunks, ← hcuts, takeChunk_eq, hconfig]
      refine Prod.ext ?_ rfl
      change _ = if (minified s.minifier last s.buffer).1 = "" then _ else _
      by_cases hempty : (minified s.minifier last s.buffer).1 = ""
      · simp only [if_pos hempty]
        exact congrArg chunksOf (List.append_nil items)
      · simp only [if_neg hempty]
        exact List.filterMap_append
    · rw [List.map_append, String.join_append, hgiven, writeParts_append, ← h.buffer, List.map_cons,
        String.join_cons]
      exact congrArg _ String.append_empty
  buffer := by
    rw [writeParts_nil]
    rfl

private theorem kept_accounts : Kept config (Accounts (σ := σ) config r all) where
  plan _ hs := hs
  write := by
    rintro opens piece rest items s text walk hp ⟨t, given, buffered, lost, hplan, htaken, ht, hlost⟩
    obtain rfl : lost = [] := hlost nofun
    rw [List.append_nil] at ht
    obtain ⟨t', hrest, parts, ht', htext⟩ := hplan.write hp
    rw [ht] at ht' htext
    refine ⟨t', given, buffered ++ parts, [], hrest, htaken.written htext, ?_, fun _ => rfl⟩
    rw [ht', List.append_nil, List.append_assoc]
  fail := by
    rintro opens piece rest items s e walk hp ⟨t, given, buffered, lost, hplan, htaken, ht, hlost⟩
    obtain rfl : lost = [] := hlost nofun
    rw [List.append_nil] at ht
    obtain ⟨t', hdone, more, ht'⟩ := hplan.fail hp
    refine ⟨t', given, buffered, more, hdone.clock _, htaken.error e, ?_, nofun⟩
    rw [← ht', ht]
  call := by
    rintro component resume rest items s node scene hcall
      ⟨t, given, buffered, lost, hplan, htaken, ht, hlost⟩
    obtain ⟨t', ht', hnode⟩ := hplan.call hcall
    exact ⟨t', given, buffered, lost, hnode, htaken, ht'.trans ht, fun _ => hlost nofun⟩
  fallback := by
    rintro component resume rest items s cause scene hcall
      ⟨t, given, buffered, lost, hplan, htaken, ht, hlost⟩
    obtain ⟨t', ht', hfallback⟩ := hplan.call hcall
    exact ⟨t', given, buffered, lost, hfallback, htaken, ht'.trans ht, fun _ => hlost nofun⟩
  stop := by
    rintro component resume rest items s e scene hcall he
      ⟨t, given, buffered, lost, hplan, htaken, ht, hlost⟩
    obtain ⟨t', ht', hdone⟩ := hplan.call hcall
    refine ⟨t', given, buffered, lost, Plan.Follows.clock ?_ _, htaken.error e, ht'.trans ht,
      fun _ => hlost nofun⟩
    cases e with
    | failed cause => exact absurd rfl (he cause)
    | depthExceeded depth maxDepth => exact hdone
    | config cause => exact hdone
  finish := by
    rintro items s ⟨t, given, buffered, lost, hplan, htaken, ht, hlost⟩
    exact ⟨t, given, buffered, lost, hplan.clock _, htaken, ht, hlost⟩
  cut := by
    rintro plan items s last hconfig ⟨t, given, buffered, lost, hplan, htaken, ht, hlost⟩
    refine ⟨t, given ++ buffered, [], lost, hplan, htaken.cut last hconfig, ?_, hlost⟩
    rw [ht, List.append_nil]

end

end MarkupStream

/-- However often a stream is pulled, its chunks take up the first parts that the walk over its tree
reaches. The registry has gained the actions of these, and of parts behind them that are still in
the buffer, or were written when an error came up. -/
theorem MarkupRenderer.Sound.chunks_reached {config : Config} {r : MarkupRenderer F}
    (h : r.Sound config) {program : Program F σ} {node : Node F} {world : World σ}
    {items : List MarkupStream.Item} {s : MarkupStream F σ}
    (hpulls : (MarkupStream.new r program node world).Pulls items s) :
    ∃ cuts parts more, MarkupStream.chunksOf items = (cutChunks config cuts).1 ∧
      String.join (cuts.map Prod.snd) = (writeParts config parts r.actions).1 ∧
      s.walk.backend = (writeParts config (parts ++ more) r.actions).2 ∧
      parts ++ more <+: reached program config node world.state := by
  have hempty : ("", r.actions) = writeParts config [] r.actions := (writeParts_nil ..).symm
  have begins : MarkupStream.Accounts config r.actions
      (reached program config node world.state) (MarkupStream.new r program node world).plan []
      (MarkupStream.new r program node world) := by
    obtain ⟨rfl, hcache⟩ := h
    exact ⟨recordingStart world.state, [], [], [], ⟨_, recordedBy_plan node,
      ⟨⟨rfl, rfl, rfl, rfl, FragmentCache.valid_empty 0 none⟩, hcache, congrArg Prod.snd hempty⟩,
      rfl⟩, ⟨⟨[], rfl, congrArg Prod.fst hempty⟩, congrArg Prod.fst hempty⟩, rfl, fun _ => rfl⟩
  obtain ⟨t, given, buffered, lost, hplan, htaken, ht, -⟩ :=
    (hpulls.held MarkupStream.kept_accounts ⟨h.configured, begins⟩).holds
  obtain ⟨cuts, hcuts, hgiven⟩ := htaken.chunks
  rw [List.append_assoc] at ht
  refine ⟨cuts, given, buffered ++ lost, congrArg Prod.fst hcuts, hgiven, ?_, ht ▸ hplan.reaches⟩
  obtain ⟨x, -, hst, -⟩ := hplan
  rw [hst.written, ht]

end TreeRender
