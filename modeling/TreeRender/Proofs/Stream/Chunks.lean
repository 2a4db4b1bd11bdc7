import TreeRender.Proofs.Stream.Pulls
import TreeRender.Proofs.Stream.Steps

/-!
# Where chunks are cut

The steps of a stream write piece after piece. Without a minifier, each chunk consists of the pieces
since the last cut, and it is cut as soon as they are enough. A pull takes no step behind the piece
that fills its chunk.
-/

namespace TreeRender

open Markup

variable {F σ : Type}

namespace Markup

/-- What one step of a plan writes, and whether it counts as an opened element. -/
structure Piece where
  opens : Bool
  text : String

namespace Piece

def join (pieces : List Piece) : String := String.join (pieces.map text)

def opened (pieces : List Piece) : Nat := pieces.countP (·.opens)

def Full (config : Config) (pieces : List Piece) : Prop :=
  config.chunkSize ≤ (join pieces).utf8ByteSize ∨ config.yieldThreshold ≤ opened pieces

structure IsCut (config : Config) (pieces : List Piece) : Prop where
  full : Full config pieces
  minimal : ¬Full config pieces.dropLast

private theorem join_concat (pieces : List Piece) (p : Piece) :
    join (pieces ++ [p]) = join pieces ++ p.text := by
  rw [join, List.map_append, String.join_append]
  exact congrArg _ (String.join_cons.trans String.append_empty)

private theorem opened_concat (pieces : List Piece) (p : Piece) :
    opened (pieces ++ [p]) = if p.opens then opened pieces + 1 else opened pieces := by
  rw [opened, List.countP_append, List.countP_singleton]
  split <;> rfl

private theorem Full.of_nil {config : Config} (h : Full config []) (pieces : List Piece) :
    Full config pieces :=
  h.imp (fun hsize => Nat.le_trans hsize (Nat.zero_le _))
    (fun hopened => Nat.le_trans hopened (Nat.zero_le _))

end Piece

/-- The pieces that belong to the steps of a tree: an opening tag with its text directive, a closing
tag, a text, a fallback, a cacheable subtree, or nothing for an element without a valid name. -/
inductive StepPiece (program : Program F σ) (config : Config) : Piece → Prop
  | opening {e : Element F (Node F)} {walk text walk'} : isValidName e.tag = true →
    (opening program config e).exec walk = (.ok text, walk') → StepPiece program config ⟨true, text⟩
  | closing {tag} : isValidName tag = true → StepPiece program config ⟨false, closeTag tag⟩
  | text {content} : StepPiece program config ⟨false, escape content⟩
  | fallback : StepPiece program config ⟨false, config.errorFallback⟩
  | subtree {levels depth} {e : Element F (Node F)} {walk html walk'} :
    config.isCacheable e = true →
    (pieceOf program config levels depth (.element e)).exec walk = (.ok html, walk') →
    StepPiece program config ⟨true, html⟩
  | unnamed : StepPiece program config ⟨false, ""⟩

/-- Where the steps of a plan stop: with a plan for later, or at their end. -/
inductive Plan.Stop (F σ : Type) where
  | paused (plan : Plan F σ) (walk : WalkState σ (Registry F))
  | ended (result : Except RenderError Unit) (walk : WalkState σ (Registry F))

/-- The pieces that a plan writes from a state of the walk on, up to a stop. It can be paused right
behind a piece and nowhere else: a component is only called on the way to a piece, or to the end. -/
inductive Plan.Writes (config : Config) :
    Plan F σ → WalkState σ (Registry F) → List Piece → Plan.Stop F σ → Prop
  | done {walk} : Writes config .done walk [] (.ended (.ok ()) walk)
  | pause {opens piece rest walk text walk'} : piece.exec walk = (.ok text, walk') →
    Writes config (.write opens piece rest) walk [⟨opens, text⟩] (.paused rest walk')
  | write {opens piece rest walk text walk' pieces stop} : piece.exec walk = (.ok text, walk') →
    Writes config rest walk' pieces stop →
    Writes config (.write opens piece rest) walk (⟨opens, text⟩ :: pieces) stop
  | fail {opens piece rest walk e walk'} : piece.exec walk = (.error e, walk') →
    Writes config (.write opens piece rest) walk [] (.ended (.error e) walk')
  | call {component resume rest walk node scene pieces stop} :
    component.exec walk.toScene = (.ok node, scene) →
    Writes config (resume node) { walk with toScene := scene } pieces stop →
    Writes config (.call component resume rest) walk pieces stop
  | recover {component resume rest walk cause scene pieces stop} :
    component.exec walk.toScene = (.error (.failed cause), scene) →
    Writes config (.write false (recover config (backend config.enableHydration) cause) rest)
      { walk with toScene := scene } pieces stop →
    Writes config (.call component resume rest) walk pieces stop
  | stop {component resume rest walk e scene} :
    component.exec walk.toScene = (.error e, scene) → (∀ cause, e ≠ .failed cause) →
    Writes config (.call component resume rest) walk []
      (.ended (.error e) { walk with toScene := scene })

theorem Plan.Writes.append {config : Config} {plan plan' : Plan F σ}
    {walk walk' : WalkState σ (Registry F)} {pieces pieces' : List Piece} {stop : Plan.Stop F σ}
    (h : plan.Writes config walk pieces (.paused plan' walk'))
    (h' : plan'.Writes config walk' pieces' stop) :
    plan.Writes config walk (pieces ++ pieces') stop := by
  generalize hpaused : Plan.Stop.paused plan' walk' = paused at h
  induction h with
  | done | fail _ | stop _ _ => cases hpaused
  | pause hp =>
    cases hpaused
    exact .write hp h'
  | write hp _ ih => exact .write hp (ih hpaused)
  | call hcall _ ih => exact .call hcall (ih hpaused)
  | recover hcall _ ih => exact .recover hcall (ih hpaused)

private theorem stepPiece_recover {program : Program F σ} {config : Config} {cause : CallError}
    {walk walk' : WalkState σ (Registry F)} {text : String}
    (h : (recover config (backend config.enableHydration) cause).exec walk = (.ok text, walk')) :
    StepPiece program config ⟨false, text⟩ := by
  unfold recover at h
  split at h
  · cases h
  · cases h
    exact .fallback

def WritesStepPiece (program : Program F σ) (config : Config) (opens : Bool)
    (piece : Walk σ (Registry F) String) : Prop :=
  ∀ {walk text walk'}, piece.exec walk = (.ok text, walk') →
    StepPiece program config ⟨opens, text⟩

theorem stepsCount_stepPiece (program : Program F σ) (config : Config) :
    StepsCount program config (WritesStepPiece program config) (fun _ => True) where
  tooDeep h := by cases h
  text content := by
    rintro _ _ _ ⟨⟩
    exact .text
  unnamed tag := by
    rintro _ _ _ ⟨⟩
    exact .unnamed
  opening e hvalid := .opening hvalid
  closing tag hvalid := by
    rintro _ _ _ ⟨⟩
    exact .closing hvalid
  piece levels depth e _ _ hcacheable := .subtree hcacheable
  call _ _ _ _ _ := trivial

theorem Plan.Writes.stepPiece {program : Program F σ} {config : Config} {plan : Plan F σ}
    {walk : WalkState σ (Registry F)} {pieces : List Piece} {stop : Plan.Stop F σ}
    (h : plan.Writes config walk pieces stop)
    (hplan : plan.Every (WritesStepPiece program config) fun _ => True) :
    ∀ p ∈ pieces, StepPiece program config p := by
  induction h with
  | done | fail _ | stop _ _ => simp
  | pause hp => simpa using hplan.1 hp
  | write hp _ ih => exact List.forall_mem_cons.2 ⟨hplan.1 hp, ih hplan.2⟩
  | call _ _ ih => exact ih (hplan.2.1 _)
  | recover _ _ ih => exact ih ⟨stepPiece_recover, hplan.2.2⟩

end Markup

namespace MarkupStream

/-- The chunks that are made of groups of pieces, each encoded on its own. A group without markup
makes none. -/
def groupItems (config : Config) (groups : List (List Piece)) : List Item :=
  chunkItems config ((groups.map Piece.join).filter (· ≠ ""))

/-- A stream in the middle of a pull, with the pieces that no chunk has taken. -/
structure Filling (config : Config) (s : MarkupStream F σ) (pending : List Piece) : Prop where
  configured : s.engine.config = config
  unfinished : s.finished = false
  plain : s.minifier = none
  buffer : s.buffer = Piece.join pending
  opened : s.opened = Piece.opened pending
  scant : ¬Piece.Full config pending

/-- What a stream has given and how it is left when its steps stop, with the groups of pieces that
were cut and the pieces behind the last cut. An error takes these away. -/
def Stands (config : Config) (cuts : List (List Piece)) (rest : List Piece) :
    Plan.Stop F σ → List Item → MarkupStream F σ → Prop
  | .paused plan walk, items, s =>
    rest = [] ∧ items = groupItems config cuts ∧ s.plan = plan ∧ s.walk = walk ∧ s.Filling config []
  | .ended (.ok ()) walk, items, s =>
    items = groupItems config (cuts ++ [rest]) ∧ s.finished = true ∧
      s.walk = { walk with clock := (Engine.recordTime config walk.clock).2 }
  | .ended (.error e) walk, items, s =>
    items = groupItems config cuts ++ [.error e] ∧ s.finished = true ∧
      s.walk = { walk with clock := (Engine.recordTime config walk.clock).2 }

/-- The steps of a plan, begun with some pieces pending, have their pieces cut into chunks and
leave the stream with these given. -/
def Chunked (config : Config) (plan : Plan F σ) (walk : WalkState σ (Registry F))
    (pending : List Piece) (items : List Item) (s : MarkupStream F σ) : Prop :=
  ∃ pieces cuts rest stop, plan.Writes config walk pieces stop ∧
    pending ++ pieces = cuts.flatten ++ rest ∧ (∀ cut ∈ cuts, Piece.IsCut config cut) ∧
    ¬Piece.Full config rest ∧ Stands config cuts rest stop items s

section

variable {config : Config}

private theorem groupItems_append (groups groups' : List (List Piece)) :
    groupItems config (groups ++ groups') = groupItems config groups ++ groupItems config groups' := by
  simp only [groupItems, chunkItems, List.map_append, List.filter_append]

private theorem groupItems_singleton (group : List Piece) : groupItems config [group] =
    (if Piece.join group = "" then none
      else some (.ok (config.encoding.encode (Piece.join group))) : Option Item).toList := by
  by_cases hempty : Piece.join group = "" <;>
    simp [groupItems, chunkItems, hempty]

theorem Stands.append (cuts : List (List Piece)) {cuts' : List (List Piece)} {rest : List Piece}
    {stop : Plan.Stop F σ} {items : List Item} {s : MarkupStream F σ}
    (h : Stands config cuts' rest stop items s) :
    Stands config (cuts ++ cuts') rest stop (groupItems config cuts ++ items) s := by
  cases stop with
  | paused plan walk =>
    obtain ⟨hrest, rfl, hleft⟩ := h
    exact ⟨hrest, (groupItems_append ..).symm, hleft⟩
  | ended result walk =>
    cases result with
    | ok u =>
      obtain ⟨rfl, hleft⟩ := h
      exact ⟨by rw [← groupItems_append, List.append_assoc], hleft⟩
    | error e =>
      obtain ⟨rfl, hleft⟩ := h
      exact ⟨by rw [groupItems_append, List.append_assoc], hleft⟩

private theorem takeChunk_plain {s : MarkupStream F σ} (h : s.minifier = none) (last : Bool) :
    s.takeChunk last =
      (if s.buffer = "" then none else some (s.engine.config.encoding.encode s.buffer),
        { s with buffer := "", opened := 0 }) := by
  rw [takeChunk_eq, cut, h, minified]

private theorem Filling.push {s : MarkupStream F σ} {pending : List Piece}
    (h : s.Filling config pending)
    (p : Piece) :
    (∃ t, s.push p.opens p.text = (none, t) ∧ t.plan = s.plan ∧ t.walk = s.walk ∧
      t.Filling config (pending ++ [p])) ∨
    Piece.IsCut config (pending ++ [p]) ∧ ∃ i t, s.push p.opens p.text = (i, t) ∧
      t.plan = s.plan ∧ t.walk = s.walk ∧ t.Filling config [] ∧
      (i.map .ok : Option Item).toList = groupItems config [pending ++ [p]] := by
  have hbuffer : (s.written p.opens p.text).buffer = Piece.join (pending ++ [p]) := by
    rw [Piece.join_concat, ← h.buffer]
    rfl
  have hopened : (s.written p.opens p.text).opened = Piece.opened (pending ++ [p]) := by
    rw [Piece.opened_concat, ← h.opened]
    rfl
  have hfull : (s.engine.config.chunkSize ≤ (s.written p.opens p.text).buffer.utf8ByteSize ||
      s.engine.config.yieldThreshold ≤ (s.written p.opens p.text).opened) = true ↔
      Piece.Full config (pending ++ [p]) := by
    rw [hbuffer, hopened, h.configured, Bool.or_eq_true, decide_eq_true_iff, decide_eq_true_iff]
    rfl
  have hplain : (s.written p.opens p.text).minifier = none := h.plain
  have hconfig : (s.written p.opens p.text).engine.config = config := h.configured
  rw [push_eq]
  by_cases hcut : Piece.Full config (pending ++ [p])
  · rw [if_pos (hfull.2 hcut), takeChunk_plain hplain, hbuffer, hconfig, groupItems_singleton]
    have hminimal : ¬Piece.Full config (pending ++ [p]).dropLast := by
      rw [List.dropLast_concat]
      exact h.scant
    refine .inr ⟨⟨hcut, hminimal⟩, _, _, rfl, rfl, rfl, ?_, ?_⟩
    · exact ⟨h.configured, h.unfinished, h.plain, rfl, rfl, fun hnil => h.scant (hnil.of_nil _)⟩
    · split <;> rfl
  · rw [if_neg (mt hfull.1 hcut)]
    exact .inl ⟨_, rfl, rfl, rfl, h.configured, h.unfinished, h.plain, hbuffer, hopened, hcut⟩

private theorem Filling.walk_finish {s : MarkupStream F σ} {pending : List Piece}
    (h : s.Filling config pending) : s.finish.walk =
      { s.walk with clock := (Engine.recordTime config s.walk.clock).2 } := by
  rw [← h.configured]
  rfl

private theorem Filling.withPlan {s : MarkupStream F σ} {pending : List Piece}
    (h : s.Filling config pending)
    (plan : Plan F σ) (walk : WalkState σ (Registry F)) :
    { s with walk, plan }.Filling config pending :=
  ⟨h.configured, h.unfinished, h.plain, h.buffer, h.opened, h.scant⟩

private theorem Filling.withScene {s : MarkupStream F σ} {pending : List Piece}
    (h : s.Filling config pending) (scene : Scene σ) :
    { s with walk.toScene := scene }.Filling config pending := h.withPlan s.plan _

private theorem Filling.chunked_done {s : MarkupStream F σ} {pending : List Piece}
    (hs : s.Filling config pending) : Chunked config .done s.walk pending
      ((s.finish.takeChunk true).1.map .ok : Option Item).toList (s.finish.takeChunk true).2 := by
  have hplain : s.finish.minifier = none := hs.plain
  have hbuffer : s.finish.buffer = Piece.join pending := hs.buffer
  have hconfig : s.finish.engine.config = config := hs.configured
  rw [takeChunk_plain hplain, hbuffer, hconfig]
  refine ⟨[], [], pending, .ended (.ok ()) s.walk, .done, List.append_nil _, by simp, hs.scant,
    ?_, rfl, hs.walk_finish⟩
  rw [List.nil_append, groupItems_singleton]
  split <;> rfl

section

variable {opens : Bool} {piece : Walk σ (Registry F) String} {rest : Plan F σ}
  {walk walk' : WalkState σ (Registry F)} {text : String} {pending : List Piece}
  {items : List Item} {t : MarkupStream F σ}

private theorem Chunked.write (hp : piece.exec walk = (.ok text, walk'))
    (h : Chunked config rest walk' (pending ++ [⟨opens, text⟩]) items t) :
    Chunked config (.write opens piece rest) walk pending items t := by
  obtain ⟨pieces, cuts, left, stop, hwrites, hgroups, hleft⟩ := h
  refine ⟨Piece.mk opens text :: pieces, cuts, left, stop, .write hp hwrites, ?_, hleft⟩
  rw [← hgroups, List.append_assoc, List.singleton_append]

private theorem Chunked.write_cut (hp : piece.exec walk = (.ok text, walk'))
    (hcut : Piece.IsCut config (pending ++ [⟨opens, text⟩]))
    (h : Chunked config rest walk' [] items t) :
    Chunked config (.write opens piece rest) walk pending
      (groupItems config [pending ++ [⟨opens, text⟩]] ++ items) t := by
  obtain ⟨pieces, cuts, left, stop, hwrites, hgroups, hcuts, hscant, hstands⟩ := h
  refine ⟨Piece.mk opens text :: pieces, (pending ++ [Piece.mk opens text]) :: cuts, left, stop,
    .write hp hwrites, ?_, List.forall_mem_cons.2 ⟨hcut, hcuts⟩, hscant, hstands.append [_]⟩
  rw [List.flatten_cons, List.append_assoc, ← hgroups, List.nil_append, List.append_assoc,
    List.singleton_append]

private theorem Chunked.write_pause (hp : piece.exec walk = (.ok text, walk'))
    (hcut : Piece.IsCut config (pending ++ [⟨opens, text⟩])) (hplan : t.plan = rest)
    (hwalk : t.walk = walk') (ht : t.Filling config []) :
    Chunked config (.write opens piece rest) walk pending
      (groupItems config [pending ++ [⟨opens, text⟩]]) t := by
  refine ⟨[Piece.mk opens text], [pending ++ [⟨opens, text⟩]], [], .paused rest walk', .pause hp,
    ?_, by simpa using hcut, ht.scant, rfl, rfl, hplan, hwalk, ht⟩
  rw [List.flatten_singleton, List.append_nil]

end

private theorem chunked_pullFrom (plan : Plan F σ) {s : MarkupStream F σ} {pending : List Piece}
    (hs : s.Filling config pending) : Chunked config plan s.walk pending
      (pullFrom plan s).value.1.toList (pullFrom plan s).value.2 := by
  apply pullFrom_inductOn (P := fun plan s pull => ∀ pending, s.Filling config pending →
    Chunked config plan s.walk pending pull.1.toList pull.2)
  case done =>
    intro s pending hs
    exact hs.chunked_done
  case fail =>
    intro opens piece rest s e walk hp pending hs
    exact ⟨[], [], pending, .ended (.error e) walk, .fail hp, List.append_nil _, by simp, hs.scant,
      rfl, rfl, (hs.withPlan rest walk).walk_finish⟩
  case give =>
    intro opens piece rest s text walk chunk t hp hpush pending hs
    rcases (hs.withPlan rest walk).push (Piece.mk opens text) with
      ⟨t', hpush', -⟩ | ⟨hcut, i, t', hpush', hplan, hwalk, ht, hi⟩
    · rw [hpush] at hpush'
      cases hpush'
    · rw [hpush] at hpush'
      cases hpush'
      have hpaused := Chunked.write_pause hp hcut hplan hwalk ht
      rw [← hi] at hpaused
      exact hpaused
  case write =>
    intro opens piece rest s text walk t pull hp hpush ih pending hs
    rcases (hs.withPlan rest walk).push (Piece.mk opens text) with
      ⟨t', hpush', -, hwalk, ht⟩ | ⟨hcut, i, t', hpush', -, hwalk, ht, hi⟩
    · rw [hpush] at hpush'
      cases hpush'
      have hrest := ih _ ht
      rw [hwalk] at hrest
      exact hrest.write hp
    · -- The group that was cut has no markup, and the pull goes on behind it.
      rw [hpush] at hpush'
      cases hpush'
      have hrest := ih _ ht
      rw [hwalk] at hrest
      have hall := hrest.write_cut hp hcut
      rw [← hi] at hall
      exact hall
  case call =>
    intro component resume rest s node scene pull hcall ih pending hs
    obtain ⟨pieces, cuts, left, stop, hwrites, hleft⟩ := ih pending (hs.withScene scene)
    exact ⟨pieces, cuts, left, stop, .call hcall hwrites, hleft⟩
  case fallback =>
    intro component resume rest s cause scene pull hcall ih pending hs
    rw [hs.configured] at ih
    obtain ⟨pieces, cuts, left, stop, hwrites, hleft⟩ := ih pending (hs.withScene scene)
    exact ⟨pieces, cuts, left, stop, .recover hcall hwrites, hleft⟩
  case stop =>
    intro component resume rest s e scene hcall he pending hs
    exact ⟨[], [], pending, _, .stop hcall he, List.append_nil _, by simp, hs.scant, rfl, rfl,
      (hs.withScene scene).walk_finish⟩
  case a => exact hs

private theorem Chunked.pull {plan : Plan F σ} {walk : WalkState σ (Registry F)} {items : List Item}
    {t : MarkupStream F σ} (h : Chunked config plan walk [] items t) :
    Chunked config plan walk [] (items ++ t.next.value.1.toList) t.next.value.2 := by
  obtain ⟨pieces, cuts, rest, stop, hwrites, hgroups, hcuts, hscant, hstands⟩ := h
  unfold MarkupStream.next
  cases stop with
  | paused plan' walk' =>
    obtain ⟨rfl, rfl, rfl, rfl, ht⟩ := hstands
    rw [if_neg (Bool.eq_false_iff.1 ht.unfinished)]
    obtain ⟨pieces', cuts', rest, stop, hwrites', hgroups', hcuts', hscant', hstands'⟩ :=
      chunked_pullFrom t.plan ht
    refine ⟨pieces ++ pieces', cuts ++ cuts', rest, stop, hwrites.append hwrites', ?_,
      List.forall_mem_append.2 ⟨hcuts, hcuts'⟩, hscant', hstands'.append cuts⟩
    rw [List.append_nil] at hgroups
    rw [List.nil_append] at hgroups hgroups' ⊢
    rw [hgroups, hgroups', List.flatten_append, List.append_assoc]
  | ended result walk' =>
    have hfinished : t.finished = true := by
      cases result <;> exact hstands.2.1
    rw [if_pos hfinished]
    refine ⟨pieces, cuts, rest, _, hwrites, hgroups, hcuts, hscant, ?_⟩
    rw [Logged.value_pure, Option.toList_none, List.append_nil]
    exact hstands

/-- What any number of pulls give. -/
theorem Pulls.chunked {s t : MarkupStream F σ} {items : List Item} (hpulls : s.Pulls items t)
    (hs : s.Filling config []) :
    items = [] ∧ t = s ∨ Chunked config s.plan s.walk [] items t := by
  induction hpulls with
  | start => exact .inl ⟨rfl, rfl⟩
  | pull _ ih =>
    rcases ih with ⟨rfl, ht⟩ | hchunked
    · have hnext : s.next = pullFrom s.plan s := if_neg (Bool.eq_false_iff.1 hs.unfinished)
      rw [ht, hnext, List.nil_append]
      exact .inr (chunked_pullFrom s.plan hs)
    · exact .inr hchunked.pull

end

end MarkupStream

end TreeRender
