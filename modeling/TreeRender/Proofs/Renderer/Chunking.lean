import TreeRender.Proofs.Renderer.Encoded
import TreeRender.Proofs.Stream.Chunks

/-!
# What streams give

A stream gives chunks, none of them empty, and then an error or nothing more. Without a minifier the
chunks consist of whole pieces of markup, as few as make up a chunk, and no step is taken before its
chunk is pulled.
-/

namespace TreeRender

open Markup MarkupStream

variable {F σ : Type}

namespace MarkupStream

variable {config : Config}

private theorem takeChunk_ne_empty (last : Bool) (s : MarkupStream F σ) :
    ∀ chunk ∈ (s.takeChunk last).1, chunk ≠ "" := by
  intro chunk hchunk
  rw [takeChunk_eq] at hchunk
  split at hchunk
  · cases hchunk
  · rename_i hne
    cases hchunk
    exact mt Encoding.encode_eq_empty.1 hne

private theorem Pulls.ne_empty {s t : MarkupStream F σ} {items : List Item}
    (hpulls : s.Pulls items t)
    (hconfig : s.engine.config = config) (hplan : s.plan.Forall (fun _ => True) fun _ => True) :
    ∀ item ∈ items, item ≠ .ok "" := by
  have lasts : Lasts config (fun _ => True)
      (fun items (_ : MarkupStream F σ) => ∀ item ∈ items, item ≠ .ok "") := {
    recovers := fun _ => trivial
    plan := fun _ hs => hs
    call := fun _ hs => hs
    write := fun _ _ _ hs => hs
    fail := fun _ _ hs => List.forall_mem_append.2 ⟨hs, by simp⟩
    stop := fun _ hs => List.forall_mem_append.2 ⟨hs, by simp⟩
    finish := fun hs => hs
    cut := by
      intro items s last _ hs
      refine List.forall_mem_append.2 ⟨hs, ?_⟩
      intro item hitem
      obtain ⟨chunk, hchunk, rfl⟩ := Option.map_eq_some_iff.1 (Option.mem_toList.1 hitem)
      exact fun hempty => takeChunk_ne_empty last s chunk hchunk (Except.ok.inj hempty) }
  exact hpulls.lasts lasts hconfig hplan (by simp)

def GivesOrEnds (pull : Option Item × MarkupStream F σ) : Prop :=
  (∃ chunk, pull.1 = some (.ok chunk)) ∨ pull.2.finished = true

private theorem givesOrEnds_pullFrom (plan : Plan F σ) (s : MarkupStream F σ) :
    GivesOrEnds (pullFrom plan s).value := by
  apply pullFrom_inductOn (P := fun _ _ pull => GivesOrEnds pull)
  case done =>
    intro s
    rw [takeChunk_eq]
    exact .inr rfl
  case give =>
    intro _ _ _ _ _ _ chunk _ _ _
    exact .inl ⟨chunk, rfl⟩
  case fail | stop =>
    intros
    exact .inr rfl
  case write | call | fallback =>
    intros
    assumption

private theorem givesOrEnds_next (s : MarkupStream F σ) : GivesOrEnds s.next.value := by
  unfold next
  split
  · rename_i hfinished
    exact .inr hfinished
  · exact givesOrEnds_pullFrom s.plan s

private theorem Pulls.eq_nil_of_ended {s t : MarkupStream F σ} {items : List Item}
    (hended : s.next.value.1 = none ∨ ∃ e, s.next.value.1 = some (.error e))
    (hpulls : s.next.value.2.Pulls items t) : items = [] := by
  have hfinished : s.next.value.2.finished = true := by
    rcases givesOrEnds_next s with ⟨chunk, hchunk⟩ | hfinished
    · rw [hchunk] at hended
      rcases hended with hnone | ⟨e, he⟩
      · cases hnone
      · cases he
    · exact hfinished
  exact (hpulls.of_finished hfinished).1

private theorem Pulls.items_eq {s t : MarkupStream F σ} {items : List Item}
    (hpulls : s.Pulls items t) :
    ∃ chunks : List String, items = chunks.map .ok ∨
      t.finished = true ∧ ∃ e, items = chunks.map .ok ++ [.error e] := by
  induction hpulls with
  | start => exact ⟨[], .inl rfl⟩
  | @pull items t _ ih =>
    obtain ⟨chunks, rfl | ⟨hfinished, e, rfl⟩⟩ := ih
    · have hgives := givesOrEnds_next t
      generalize t.next.value = pull at hgives ⊢
      obtain ⟨_ | e | chunk, u⟩ := pull
      · exact ⟨chunks, .inl (List.append_nil _)⟩
      · rcases hgives with ⟨chunk, hchunk⟩ | hfinished
        · cases hchunk
        · exact ⟨chunks, .inr ⟨hfinished, e, rfl⟩⟩
      · exact ⟨chunks ++ [chunk], .inl (by rw [List.map_append]; rfl)⟩
    · rw [next, if_pos hfinished]
      exact ⟨chunks, .inr ⟨hfinished, e, List.append_nil _⟩⟩

end MarkupStream

namespace MarkupRenderer

variable {config : Config} {r : MarkupRenderer F}

private theorem Reachable.filling (hr : r.Reachable config) (hplain : config.minify = false)
    (program : Program F σ) (node : Node F) (world : World σ) :
    (MarkupStream.new r program node world).Filling config [] := by
  obtain ⟨-, hsize, hopened⟩ := Config.zeroLimit?_eq_none.1 hr.limits
  obtain ⟨rfl, -⟩ := hr.sound
  refine ⟨rfl, rfl, ?_, rfl, rfl, ?_⟩
  · change (if r.engine.config.minify then some {} else none : Option Minifier) = none
    rw [hplain, if_neg Bool.false_ne_true]
  · rintro (hfull | hfull)
    · exact hsize (Nat.le_zero.1 hfull)
    · exact hopened (Nat.le_zero.1 hfull)

/-- However often a stream is pulled, without a minifier its chunks consist of whole pieces of
markup, each chunk but the last of as few as are enough for it, and the stream is left where the
last of these pieces was written, or at its end. With or without a minifier, no chunk is empty, an
error is the last item, and when a pull gives an error or nothing, no later one gives anything. -/
theorem stream_chunks (hr : r.Reachable config) (program : Program F σ) (node : Node F)
    (world : World σ) {items : List Item} {t : MarkupStream F σ}
    (hpulls : (MarkupStream.new r program node world).Pulls items t) :
    (config.minify = false →
      items = [] ∧ t = MarkupStream.new r program node world ∨
      ∃ pieces cuts rest stop,
        (plan program config node).Writes config (r.engine.start world r.actions).2 pieces stop ∧
        pieces = cuts.flatten ++ rest ∧ (∀ p ∈ pieces, StepPiece program config p) ∧
        (∀ cut ∈ cuts, Piece.IsCut config cut) ∧ ¬Piece.Full config rest ∧
        Stands config cuts rest stop items t) ∧
    (∀ item ∈ items, item ≠ .ok "") ∧
    (∃ chunks : List String,
      items = chunks.map .ok ∨ ∃ e, items = chunks.map .ok ++ [.error e]) ∧
    ((t.next.value.1 = none ∨ ∃ e, t.next.value.1 = some (.error e)) →
      ∀ more u, t.next.value.2.Pulls more u → more = []) := by
  have hconfig := hr.sound.configured
  refine ⟨fun hplain => ?_, ?_, ?_, fun hended more u hmore => hmore.eq_nil_of_ended hended⟩
  · refine (hpulls.chunked (hr.filling hplain program node world)).imp id ?_
    rintro ⟨pieces, cuts, rest, stop, hwrites, hgroups, hcuts, hscant, hstands⟩
    subst hconfig
    exact ⟨pieces, cuts, rest, stop, hwrites, hgroups,
      hwrites.stepPiece (every_plan (stepsCount_stepPiece program _) node), hcuts, hscant, hstands⟩
  · subst hconfig
    exact hpulls.ne_empty rfl (forall_plan ⟨trivial, fun _ => trivial, fun _ => trivial,
      fun _ _ => trivial, fun _ _ => trivial, fun _ _ _ _ _ _ => trivial,
      fun _ _ _ _ _ => trivial⟩ node)
  · obtain ⟨chunks, hok | ⟨-, herror⟩⟩ := hpulls.items_eq
    · exact ⟨chunks, .inl hok⟩
    · exact ⟨chunks, .inr herror⟩

def twoTicks : Node String :=
  .element (((Element.new "p").child (.component (.producer "tick"))).child
    (.component (.producer "tick")))

/-- When the first number fills a chunk, the second one was not asked for yet. -/
theorem stream_chunks_counting :
    ∃ t, (MarkupStream.new (fresh { chunkSize := 4 }) Program.counting twoTicks
        { state := 7, clock := { reading := id } }).Pulls [.ok "<p>7"] t ∧ t.walk.state = 8 ∧
      ∃ pieces cuts rest stop,
        (plan Program.counting { chunkSize := 4 } twoTicks).Writes { chunkSize := 4 }
          ((fresh { chunkSize := 4 } : MarkupRenderer String).engine.start
            { state := 7, clock := { reading := id } } {}).2 pieces stop ∧
        pieces = cuts.flatten ++ rest ∧ (∀ cut ∈ cuts, Piece.IsCut { chunkSize := 4 } cut) ∧
        Stands { chunkSize := 4 } cuts rest stop [.ok "<p>7"] t := by
  have hr : (fresh { chunkSize := 4 } : MarkupRenderer String).Reachable { chunkSize := 4 } :=
    .new rfl
  have hpulls := Pulls.pull (.start (s := MarkupStream.new (fresh { chunkSize := 4 })
    Program.counting twoTicks { state := 7, clock := { reading := id } }))
  have hchunk : (MarkupStream.new (fresh { chunkSize := 4 }) Program.counting twoTicks
      { state := 7, clock := { reading := id } }).next.value.1 = some (.ok "<p>7") := by
    have hgiven : (MarkupStream.new (fresh { chunkSize := 4 }) Program.counting twoTicks
        { state := 7, clock := { reading := id } }).next.value.1.bind Except.toOption =
          some "<p>7" := by decide +kernel
    obtain ⟨_ | chunk, hitem, hok⟩ := Option.bind_eq_some_iff.1 hgiven
    · cases hok
    · cases hok
      exact hitem
  have hstate : (MarkupStream.new (fresh { chunkSize := 4 }) Program.counting twoTicks
      { state := 7, clock := { reading := id } }).next.value.2.walk.state = 8 := by
    decide +kernel
  rw [hchunk] at hpulls
  obtain ⟨hpieces, -⟩ := stream_chunks hr Program.counting twoTicks _ hpulls
  rcases hpieces rfl with ⟨hnil, -⟩ | hwritten
  · cases hnil
  · obtain ⟨pieces, cuts, rest, stop, hwrites, hgroups, -, hcuts, -, hstands⟩ := hwritten
    exact ⟨_, hpulls, hstate, pieces, cuts, rest, stop, hwrites, hgroups, hcuts, hstands⟩

end MarkupRenderer

end TreeRender
