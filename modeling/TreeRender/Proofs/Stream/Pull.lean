import TreeRender.Markup.Stream
import TreeRender.Proofs.Stream.Pieces

/-!
# Pulling a stream to its end

A stream that is pulled until it has nothing more to give goes through its plan once. Wherever the
chunks are cut, they join to what the plan writes when it is drained at once, minified as a whole;
and the stream leaves the walk where draining the plan leaves it.
-/

namespace TreeRender

open Markup

variable {F σ : Type}

namespace MarkupStream

/-- From the outcome `pull` of a pull on, a stream gives `items` until a pull gives nothing, and is
left as `last`. -/
inductive Drains : Option Item × MarkupStream F σ → List Item → MarkupStream F σ → Prop
  | stop {s} : Drains (none, s) [] s
  | item {i s items last} : Drains s.next.value items last → Drains (some i, s) (i :: items) last

theorem Drains.unique {pull : Option Item × MarkupStream F σ} {items items' : List Item}
    {last last' : MarkupStream F σ} (h : Drains pull items last) (h' : Drains pull items' last') :
    items = items' ∧ last = last' := by
  induction h generalizing items' last' with
  | stop =>
    cases h'
    exact ⟨rfl, rfl⟩
  | item _ ih =>
    cases h' with
    | item h' =>
      obtain ⟨rfl, rfl⟩ := ih h'
      exact ⟨rfl, rfl⟩

theorem pullFrom_done (s : MarkupStream F σ) : (pullFrom .done s).value =
    ((s.finish.takeChunk true).1.map .ok, (s.finish.takeChunk true).2) := rfl

theorem pullFrom_write_error {opens : Bool} {piece : Walk σ (Registry F) String} {rest : Plan F σ}
    {s : MarkupStream F σ} {e : RenderError} {walk : WalkState σ (Registry F)}
    (h : piece.exec s.walk = (.error e, walk)) :
    (pullFrom (.write opens piece rest) s).value =
      (some (.error e), { s with walk, plan := rest }.finish) := by
  unfold Walk.exec at h
  simp only [pullFrom, Logged.value_bind, h]
  rfl

theorem pullFrom_write_ok {opens : Bool} {piece : Walk σ (Registry F) String} {rest : Plan F σ}
    {s : MarkupStream F σ} {text : String} {walk : WalkState σ (Registry F)}
    (h : piece.exec s.walk = (.ok text, walk)) :
    (pullFrom (.write opens piece rest) s).value =
      match { s with walk, plan := rest }.push opens text with
      | (some chunk, s) => (some (.ok chunk), s)
      | (none, s) => (pullFrom rest s).value := by
  unfold Walk.exec at h
  simp only [pullFrom, Logged.value_bind, h]
  generalize { s with walk, plan := rest }.push opens text = pushed
  obtain ⟨_ | chunk, s⟩ := pushed <;> rfl

section

variable {component : Calls σ (Except RenderError (Node F))} {resume : Node F → Plan F σ}
  {rest : Plan F σ} {s : MarkupStream F σ} {scene : Scene σ}

theorem run_onScene {α : Type} {x : Calls σ α} {walk : WalkState σ (Registry F)} {a : α}
    (h : x.exec walk.toScene = (a, scene)) :
    ((Walk.onScene x : Walk σ (Registry F) α).run.run walk).value =
      (.ok a, { walk with toScene := scene }) := by
  change (Walk.onScene x : Walk σ (Registry F) α).exec walk = _
  rw [Walk.exec_onScene, h]

theorem pullFrom_call_ok {node : Node F}
    (h : component.exec s.walk.toScene = (.ok node, scene)) :
    (pullFrom (.call component resume rest) s).value =
      (pullFrom (resume node) { s with walk.toScene := scene }).value := by
  simp only [pullFrom, Logged.value_bind, run_onScene h]

theorem pullFrom_call_failed {cause : CallError}
    (h : component.exec s.walk.toScene = (.error (.failed cause), scene)) :
    (pullFrom (.call component resume rest) s).value =
      (pullFrom (.write false (recover s.engine.config
        (backend s.engine.config.enableHydration) cause) rest)
          { s with walk.toScene := scene }).value := by
  simp only [pullFrom, Logged.value_bind, run_onScene h]

theorem pullFrom_call_error {e : RenderError}
    (h : component.exec s.walk.toScene = (.error e, scene)) (he : ∀ cause, e ≠ .failed cause) :
    (pullFrom (.call component resume rest) s).value =
      (some (.error e), { s with walk.toScene := scene }.finish) := by
  simp only [pullFrom, Logged.value_bind, run_onScene h]
  cases e with
  | failed cause => exact absurd rfl (he cause)
  | _ => rfl

theorem pullFrom_call_cases {P : Option Item × MarkupStream F σ → Prop}
    (ok : ∀ node scene, component.exec s.walk.toScene = (.ok node, scene) →
      P (pullFrom (resume node) { s with walk.toScene := scene }).value)
    (failed : ∀ cause scene, component.exec s.walk.toScene = (.error (.failed cause), scene) →
      P (pullFrom (.write false (recover s.engine.config
        (backend s.engine.config.enableHydration) cause) rest)
          { s with walk.toScene := scene }).value)
    (ended : ∀ e scene, component.exec s.walk.toScene = (.error e, scene) →
      (∀ cause, e ≠ .failed cause) → P (some (.error e), { s with walk.toScene := scene }.finish)) :
    P (pullFrom (.call component resume rest) s).value := by
  cases hcall : component.exec s.walk.toScene with
  | mk result scene =>
    cases result with
    | ok node =>
      rw [pullFrom_call_ok hcall]
      exact ok node scene hcall
    | error e =>
      have hended (he : ∀ cause, e ≠ .failed cause) :
          P (pullFrom (.call component resume rest) s).value := by
        rw [pullFrom_call_error hcall he]
        exact ended e scene hcall he
      cases e with
      | failed cause =>
        rw [pullFrom_call_failed hcall]
        exact failed cause scene hcall
      | depthExceeded depth maxDepth => exact hended (by rintro _ ⟨⟩)
      | config cause => exact hended (by rintro _ ⟨⟩)

end

/-- What holds of every pull, since every step of a pull keeps it. A failed component leaves the
fallback to be written. -/
theorem pullFrom_inductOn
    {P : Plan F σ → MarkupStream F σ → Option Item × MarkupStream F σ → Prop}
    (done : ∀ s, P .done s ((s.finish.takeChunk true).1.map .ok, (s.finish.takeChunk true).2))
    (fail : ∀ {opens piece rest s e walk}, piece.exec s.walk = (.error e, walk) →
      P (.write opens piece rest) s (some (.error e), { s with walk, plan := rest }.finish))
    (give : ∀ {opens piece rest s text walk chunk t}, piece.exec s.walk = (.ok text, walk) →
      { s with walk, plan := rest }.push opens text = (some chunk, t) →
      P (.write opens piece rest) s (some (.ok chunk), t))
    (write : ∀ {opens piece rest s text walk t pull}, piece.exec s.walk = (.ok text, walk) →
      { s with walk, plan := rest }.push opens text = (none, t) → P rest t pull →
      P (.write opens piece rest) s pull)
    (call : ∀ {component resume rest s node scene pull},
      component.exec s.walk.toScene = (.ok node, scene) →
      P (resume node) { s with walk.toScene := scene } pull →
      P (.call component resume rest) s pull)
    (fallback : ∀ {component resume rest s cause scene pull},
      component.exec s.walk.toScene = (.error (.failed cause), scene) →
      P (.write false (recover s.engine.config (backend s.engine.config.enableHydration) cause) rest)
        { s with walk.toScene := scene } pull →
      P (.call component resume rest) s pull)
    (stop : ∀ {component resume rest s e scene},
      component.exec s.walk.toScene = (.error e, scene) → (∀ cause, e ≠ .failed cause) →
      P (.call component resume rest) s (some (.error e), { s with walk.toScene := scene }.finish))
    (plan : Plan F σ) (s : MarkupStream F σ) : P plan s (pullFrom plan s).value := by
  have written {rest : Plan F σ} (ih : ∀ s, P rest s (pullFrom rest s).value) (opens : Bool)
      (piece : Walk σ (Registry F) String) (s : MarkupStream F σ) :
      P (.write opens piece rest) s (pullFrom (.write opens piece rest) s).value := by
    cases hp : piece.exec s.walk with
    | mk result walk =>
      cases result with
      | error e =>
        rw [pullFrom_write_error hp]
        exact fail hp
      | ok text =>
        rw [pullFrom_write_ok hp]
        cases hpush : { s with walk, plan := rest }.push opens text with
        | mk chunk? t =>
          cases chunk? with
          | none => exact write hp hpush (ih t)
          | some chunk => exact give hp hpush
  induction plan generalizing s with
  | done => exact done s
  | write opens piece rest ih => exact written ih opens piece s
  | call component resume rest ihresume ihrest =>
    apply pullFrom_call_cases (P := P (.call component resume rest) s)
    · intro node scene hcall
      exact call hcall (ihresume node _)
    · intro cause scene hcall
      exact fallback hcall (written ihrest _ _ _)
    · intro e scene hcall he
      exact stop hcall he

private theorem minified_append {minifier : Option Minifier} {a : String}
    (ha : minifier.isSome = true → Whole a.toList) (b : String) :
    (minified minifier true (a ++ b)).1 =
      (minified minifier false a).1 ++ (minified (minified minifier false a).2 true b).1 := by
  cases minifier with
  | none => rfl
  | some m =>
    simp only [minified, Bool.false_eq_true, if_false, if_true]
    rw [String.toList_append, Minifier.feed_append (ha rfl)]
    simp only [List.append_assoc, String.ofList_append]

private theorem minified_isSome (minifier : Option Minifier) (last : Bool) (raw : String) :
    (minified minifier last raw).2.isSome = minifier.isSome := by
  cases minifier with
  | none => rfl
  | some m =>
    simp only [minified]
    cases last <;> rfl

structure Ready (config : Config) (s : MarkupStream F σ) : Prop where
  configured : s.engine.config = config
  unfinished : s.finished = false
  buffer : IsPiece config.minify s.buffer
  minifier : s.minifier.isSome = config.minify

private theorem Ready.whole {config : Config} {s : MarkupStream F σ} (h : s.Ready config) :
    s.minifier.isSome = true → Whole s.buffer.toList := by
  intro hm
  exact h.buffer (h.minifier ▸ hm)

def chunkItems (config : Config) (texts : List String) : List Item :=
  texts.map fun text => .ok (config.encoding.encode text)

variable {config : Config}

/-- How a stream that was in the state `s` is left by a drain, given how draining its plan ends. -/
structure EndsWith (config : Config) (s : MarkupStream F σ)
    (ends : Except RenderError String × WalkState σ (Registry F)) (items : List Item)
    (last : MarkupStream F σ) : Prop where
  finished : last.finished = true
  walk : last.walk = { ends.2 with clock := (Engine.recordTime config ends.2.clock).2 }
  engine : last.engine = s.engine.after (s.engine.finish s.startedAt (.ok ()) ends.2)
  items : ∃ texts, match ends.1 with
    | .ok text => items = chunkItems config texts ∧
      String.join texts = (minified s.minifier true (s.buffer ++ text)).1
    | .error e => items = chunkItems config texts ++ [.error e]

private theorem EndsWith.after {s t : MarkupStream F σ} {text chunk : String}
    (hengine : t.engine = s.engine) (hstarted : t.startedAt = s.startedAt)
    (hchunk : ∀ more, (minified s.minifier true (s.buffer ++ (text ++ more))).1 =
      chunk ++ (minified t.minifier true (t.buffer ++ more)).1)
    {ends : Except RenderError String × WalkState σ (Registry F)} {items : List Item}
    {last : MarkupStream F σ} (h : t.EndsWith config ends items last) :
    s.EndsWith config (ends.1.map (text ++ ·), ends.2)
      (chunkItems config (if chunk = "" then [] else [chunk]) ++ items) last := by
  obtain ⟨hfinished, hwalk, hlast, texts, htexts⟩ := h
  refine ⟨hfinished, hwalk, ?_, (if chunk = "" then [] else [chunk]) ++ texts, ?_⟩
  · rw [hlast, hengine, hstarted]
  · have hjoin : String.join (if chunk = "" then [] else [chunk]) = chunk := by
      by_cases hempty : chunk = ""
      · rw [if_pos hempty, hempty]
        rfl
      · rw [if_neg hempty]
        exact String.join_cons.trans String.append_empty
    obtain ⟨result, walk⟩ := ends
    cases result with
    | ok more =>
      obtain ⟨rfl, hmore⟩ := htexts
      refine ⟨(List.map_append ..).symm, ?_⟩
      rw [String.join_append, hjoin, hmore, hchunk]
    | error e =>
      change items = _ at htexts
      change _ ++ items = _
      rw [htexts, ← List.append_assoc, chunkItems, chunkItems, chunkItems, List.map_append]

def written (opens : Bool) (piece : String) (s : MarkupStream F σ) : MarkupStream F σ :=
  { s with
    buffer := s.buffer ++ piece
    opened := if opens then s.opened + 1 else s.opened }

def cut (last : Bool) (s : MarkupStream F σ) : MarkupStream F σ :=
  { s with buffer := "", opened := 0, minifier := (minified s.minifier last s.buffer).2 }

theorem takeChunk_eq (last : Bool) (s : MarkupStream F σ) : s.takeChunk last =
    (if (minified s.minifier last s.buffer).1 = "" then none
      else some (s.engine.config.encoding.encode (minified s.minifier last s.buffer).1),
      s.cut last) := by
  rw [takeChunk]
  simp only [String.isEmpty_iff]
  rfl

theorem push_eq (opens : Bool) (piece : String) (s : MarkupStream F σ) : s.push opens piece =
    if s.engine.config.chunkSize ≤ (s.written opens piece).buffer.utf8ByteSize ||
      s.engine.config.yieldThreshold ≤ (s.written opens piece).opened then
      (s.written opens piece).takeChunk false
    else (none, s.written opens piece) := rfl

private theorem push_spec {s : MarkupStream F σ} (hready : s.Ready config) (opens : Bool)
    {text : String}
    (htext : IsPiece config.minify text) : ∃ chunk t,
      s.push opens text = (if chunk = "" then none else some (config.encoding.encode chunk), t) ∧
      t.Ready config ∧ t.walk = s.walk ∧ t.plan = s.plan ∧ t.engine = s.engine ∧
      t.startedAt = s.startedAt ∧
      ∀ more, (minified s.minifier true (s.buffer ++ (text ++ more))).1 =
        chunk ++ (minified t.minifier true (t.buffer ++ more)).1 := by
  have hwritten : (s.written opens text).Ready config :=
    ⟨hready.configured, hready.unfinished, hready.buffer.append htext, hready.minifier⟩
  have hbuffer (more : String) : s.buffer ++ (text ++ more) = (s.written opens text).buffer ++ more :=
    String.append_assoc.symm
  rw [push_eq]
  split
  · rw [takeChunk_eq, hwritten.configured]
    refine ⟨_, (s.written opens text).cut false, rfl, ?_, rfl, rfl, rfl, rfl, fun more => ?_⟩
    · refine ⟨hready.configured, hready.unfinished, .empty, ?_⟩
      exact (minified_isSome _ _ _).trans hready.minifier
    · have hminified := minified_append hwritten.whole more
      rw [hbuffer]
      exact hminified.trans (by rw [cut, String.empty_append])
  · refine ⟨"", s.written opens text, rfl, hwritten, rfl, rfl, rfl, rfl, fun more => ?_⟩
    rw [hbuffer, String.empty_append]
    rfl

private theorem drains_finish {s : MarkupStream F σ} (hconfig : s.engine.config = config)
    (e : RenderError) :
    ∃ items last, Drains (some (.error e), s.finish) items last ∧
      EndsWith config s (.error e, s.walk) items last := by
  refine ⟨[.error e], s.finish, .item ?_, rfl, ?_, rfl, [], rfl⟩
  · have hnext : s.finish.next = return (none, s.finish) := rfl
    rw [hnext]
    exact .stop
  · rw [← hconfig]
    rfl

private theorem drains_done {s : MarkupStream F σ} (hready : s.Ready config) :
    ∃ items last, Drains (pullFrom .done s).value items last ∧
      EndsWith config s (.ok "", s.walk) items last := by
  have stopped : Drains (s.finish.cut true).next.value [] (s.finish.cut true) := by
    have hnext : (s.finish.cut true).next = return (none, s.finish.cut true) := rfl
    rw [hnext]
    exact .stop
  have ends (texts : List String)
      (hjoin : String.join texts = (minified s.minifier true (s.buffer ++ "")).1) :
      EndsWith config s (.ok "", s.walk) (chunkItems config texts) (s.finish.cut true) := by
    refine ⟨rfl, ?_, rfl, texts, rfl, hjoin⟩
    rw [← hready.configured]
    rfl
  have hchunk : (minified s.finish.minifier true s.finish.buffer).1 =
      (minified s.minifier true (s.buffer ++ "")).1 := by
    rw [String.append_empty]
    rfl
  rw [pullFrom_done, takeChunk_eq, hchunk]
  by_cases hempty : (minified s.minifier true (s.buffer ++ "")).1 = ""
  · rw [if_pos hempty]
    exact ⟨[], _, .stop, ends [] hempty.symm⟩
  · rw [if_neg hempty]
    have hconfig : s.finish.engine.config = config := hready.configured
    rw [hconfig]
    refine ⟨_, _, .item stopped, ends [_] ?_⟩
    exact String.join_cons.trans String.append_empty

private theorem drains_write {opens : Bool} {piece : Walk σ (Registry F) String} {rest : Plan F σ}
    (ih : ∀ s : MarkupStream F σ, s.Ready config → rest.Smooth config config.minify s.walk →
      ∃ items last, Drains (pullFrom rest s).value items last ∧
        EndsWith config s ((rest.drain config).exec s.walk) items last)
    {s : MarkupStream F σ} (hready : s.Ready config)
    (hsmooth : (Plan.write opens piece rest).Smooth config config.minify s.walk) :
    ∃ items last, Drains (pullFrom (.write opens piece rest) s).value items last ∧
      EndsWith config s (((Plan.write opens piece rest).drain config).exec s.walk) items last := by
  rw [Plan.drain, Walk.exec_bind]
  cases hp : piece.exec s.walk with
  | mk result walk =>
    cases result with
    | error e =>
      rw [pullFrom_write_error hp]
      have hconfig : { s with walk, plan := rest }.engine.config = config := hready.configured
      obtain ⟨items, last, hdrains, hends⟩ := drains_finish hconfig e
      exact ⟨items, last, hdrains, hends.finished, hends.walk, hends.engine, hends.items⟩
    | ok text =>
      obtain ⟨htext, hrest⟩ := hsmooth text walk hp
      have hready' : { s with walk, plan := rest }.Ready config :=
        ⟨hready.configured, hready.unfinished, hready.buffer, hready.minifier⟩
      obtain ⟨chunk, t, hpush, ht, hwalk, hplan, hengine, hstarted, hchunk⟩ :=
        push_spec hready' opens htext
      rw [pullFrom_write_ok hp, hpush]
      obtain ⟨items, last, hdrains, hends⟩ := ih t ht (hwalk ▸ hrest)
      rw [hwalk] at hends
      have hdrain : ((do
          let more ← rest.drain config
          return text ++ more) : Walk σ (Registry F) String).exec walk =
          (((rest.drain config).exec walk).1.map (text ++ ·), ((rest.drain config).exec walk).2) :=
        Walk.exec_bind_pure _ _ _
      have ends := hends.after (s := s) hengine hstarted hchunk
      simp only [hdrain]
      by_cases hempty : chunk = ""
      · rw [if_pos hempty] at ends ⊢
        exact ⟨items, last, hdrains, ends⟩
      · rw [if_neg hempty] at ends ⊢
        have hnext : t.next.value = (pullFrom rest t).value := by
          rw [next, ht.unfinished, hplan]
          rfl
        exact ⟨_, last, .item (hnext ▸ hdrains), ends⟩

theorem drains_pullFrom (plan : Plan F σ) {s : MarkupStream F σ} (hready : s.Ready config)
    (hsmooth : plan.Smooth config config.minify s.walk) :
    ∃ items last, Drains (pullFrom plan s).value items last ∧
      EndsWith config s ((plan.drain config).exec s.walk) items last := by
  induction plan generalizing s with
  | done => exact drains_done hready
  | write opens piece rest ih => exact drains_write (fun s hs hrest => ih hs hrest) hready hsmooth
  | call component resume rest ihresume ihrest =>
    have hcalled (scene : Scene σ) : { s with walk.toScene := scene }.Ready config :=
      ⟨hready.configured, hready.unfinished, hready.buffer, hready.minifier⟩
    rw [Plan.drain, Walk.exec_bind, Walk.exec_onScene]
    apply pullFrom_call_cases (P := fun pull => ∃ items last, Drains pull items last ∧
      EndsWith config s _ items last)
    · intro node scene hcall
      rw [hcall]
      obtain ⟨items, last, hdrains, hends⟩ :=
        ihresume node (hcalled scene) (hsmooth.1 node scene hcall)
      exact ⟨items, last, hdrains, hends.finished, hends.walk, hends.engine, hends.items⟩
    · intro cause scene hcall
      rw [hcall, hready.configured]
      have hwritten : ∃ items last, Drains (pullFrom (.write false (recover config
            (backend config.enableHydration) cause) rest) { s with walk.toScene := scene }).value
            items last ∧ _ :=
        drains_write (fun s hs hrest => ihrest hs hrest) (hcalled scene)
          (hsmooth.2 cause scene hcall)
      obtain ⟨items, last, hdrains, hends⟩ := hwritten
      exact ⟨items, last, hdrains, hends.finished, hends.walk, hends.engine, hends.items⟩
    · intro e scene hcall he
      obtain ⟨items, last, hdrains, hends⟩ := drains_finish (hcalled scene).configured e
      refine ⟨items, last, hdrains, ?_⟩
      rw [hcall]
      cases e with
      | failed cause => exact absurd rfl (he cause)
      | _ => exact ⟨hends.finished, hends.walk, hends.engine, hends.items⟩

/-- A stream whose cache is valid and whose plan keeps it so. -/
structure Sound (config : Config) (s : MarkupStream F σ) : Prop where
  configured : s.engine.config = config
  cache : s.walk.cache.Valid F config
  plan : s.plan.Sound config false

private theorem Sound.takeChunk {s : MarkupStream F σ} (h : s.Sound config) (last : Bool) :
    (s.takeChunk last).2.Sound config := by
  rw [takeChunk_eq]
  exact ⟨h.configured, h.cache, h.plan⟩

private theorem Sound.push {s : MarkupStream F σ} (h : s.Sound config) (opens : Bool)
    (piece : String) :
    (s.push opens piece).2.Sound config := by
  have hwritten : (s.written opens piece).Sound config := ⟨h.configured, h.cache, h.plan⟩
  rw [push_eq]
  split
  · exact hwritten.takeChunk false
  · exact hwritten

private theorem sound_push {opens : Bool} {piece : Walk σ (Registry F) String} {rest : Plan F σ}
    {s : MarkupStream F σ} {text : String} {walk : WalkState σ (Registry F)}
    (hp : piece.exec s.walk = (.ok text, walk))
    (hplan : (Plan.write opens piece rest).Sound config false) (hconfig : s.engine.config = config)
    (hcache : s.walk.cache.Valid F config) :
    ({ s with walk, plan := rest }.push opens text).2.Sound config := by
  obtain ⟨hkept, -⟩ := hplan.1 s.walk hcache
  rw [hp] at hkept
  have hafter : { s with walk, plan := rest }.Sound config := ⟨hconfig, hkept, hplan.2⟩
  exact hafter.push opens text

private theorem sound_pullFrom (plan : Plan F σ) (hplan : plan.Sound config false)
    {s : MarkupStream F σ}
    (hconfig : s.engine.config = config) (hcache : s.walk.cache.Valid F config) :
    (pullFrom plan s).value.2.Sound config := by
  apply pullFrom_inductOn (P := fun plan s pull => plan.Sound config false →
    s.engine.config = config → s.walk.cache.Valid F config → pull.2.Sound config)
  case done =>
    intro s _ hconfig hcache
    exact Sound.takeChunk (s := s.finish) ⟨hconfig, hcache, trivial⟩ true
  case fail =>
    intro opens piece rest s e walk hp hplan hconfig hcache
    obtain ⟨hkept, -⟩ := hplan.1 s.walk hcache
    rw [hp] at hkept
    exact ⟨hconfig, hkept, trivial⟩
  case give =>
    intro opens piece rest s text walk chunk t hp hpush hplan hconfig hcache
    have hpushed := sound_push hp hplan hconfig hcache
    rw [hpush] at hpushed
    exact hpushed
  case write =>
    intro opens piece rest s text walk t pull hp hpush ih hplan hconfig hcache
    have hpushed := sound_push hp hplan hconfig hcache
    rw [hpush] at hpushed
    exact ih hplan.2 hpushed.configured hpushed.cache
  case call =>
    intro component resume rest s node scene pull _ ih hplan hconfig hcache
    exact ih (hplan.1 node) hconfig hcache
  case fallback =>
    intro component resume rest s cause scene pull _ ih hplan hconfig hcache
    have hany : config.throwOnError = false → false = true →
        '<' ∉ config.errorFallback.toList := fun _ h => nomatch h
    refine ih ⟨?_, hplan.2⟩ hconfig hcache
    rw [hconfig]
    exact keeps_recover hany cause
  case stop =>
    intro component resume rest s e scene _ _ _ hconfig hcache
    exact ⟨hconfig, hcache, trivial⟩
  all_goals assumption

theorem Sound.next {s : MarkupStream F σ} (h : s.Sound config) : s.next.value.2.Sound config := by
  unfold MarkupStream.next
  split
  · exact h
  · exact sound_pullFrom s.plan h.plan h.configured h.cache

end MarkupStream

end TreeRender
