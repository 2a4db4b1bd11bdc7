import TreeRender.Proofs.Signature.Walks

/-!
# Signatures are faithful

The signature of an element tells no less and no more of it than shows: elements have the same
signature exactly if they are alike, and elements without functions that are alike render the same
in every way, through one renderer with one program in one world.
-/

namespace TreeRender

open Markup

variable {F H N σ : Type}

private theorem Dom.backend_seesMapped (host : Dom.Host F H N) (default : Option String) :
    (Dom.backend host default).SeesMapped where
  enter {e e'} htag _ := by
    change (modify _ : StateT (Dom.HostState H) Logged Unit) = modify _
    rw [htag]
  element {e e'} content htag hmapped := by
    have hmade (ns : Option String) (children : List N) :
        Dom.assemble host ns e children = Dom.assemble host ns e' children := by
      unfold Dom.assemble
      rw [htag, hmapped]
    simp only [Dom.backend, hmade]

section

variable {n n' : Node F} (h : n.Alike n') (hfree : n.containsFunction = false)
  (program : Program F σ) (world : World σ)

include h hfree

private theorem Engine.render_alike {β U : Type} {backend : Backend F β U}
    (hbackend : backend.SeesMapped) (engine : Engine) (b : β) :
    engine.render program backend n world b = engine.render program backend n' world b := by
  unfold Engine.render walk
  rw [walkFrom_alike hbackend _ 1 h hfree]

private theorem MarkupRenderer.render_alike (r : MarkupRenderer F) :
    r.render program n world = r.render program n' world := by
  unfold MarkupRenderer.render
  simp only [Engine.render_alike h hfree program world (backend_seesMapped _)]

private theorem MarkupStream.new_alike (r : MarkupRenderer F) :
    MarkupStream.new r program n world = MarkupStream.new r program n' world := by
  have hplan : Markup.plan program r.engine.config n = Markup.plan program r.engine.config n' :=
    planFrom_alike _ 1 h hfree .done
  unfold MarkupStream.new
  rw [hplan]

private theorem LiveRenderer.render_alike (live : LiveRenderer H) (host : Dom.Host F H N)
    (container : Option N) :
    live.render host program n container world = live.render host program n' container world := by
  unfold LiveRenderer.render
  simp only [Engine.render_alike h hfree program world (Dom.backend_seesMapped _ _)]

end

/-- Elements have the same signature exactly if they have the same tag, the same keys with the same
values in the same order, the same text directive and the same children, where numbers and scalars
are the same if their texts are. An element with a function never has the signature of one without.
So with the same signature, elements without functions are equally complex and equally high, and
they render the same from every renderer: as markup, as a stream chunk by chunk, and as live nodes,
with the same reports and the same effect on the renderer. -/
theorem signature_faithful (e e' : Element F (Node F)) :
    (e.signature = e'.signature ↔ (Node.element e).Alike (.element e')) ∧
    (e.containsFunction ≠ e'.containsFunction → e.signature ≠ e'.signature) ∧
    (e.signature = e'.signature → e.containsFunction = false →
      (∀ limit, e.complexity limit = e'.complexity limit) ∧ e.height = e'.height ∧
      (∀ {σ : Type} (r : MarkupRenderer F) (program : Program F σ) (world : World σ),
        r.render program (.element e) world = r.render program (.element e') world ∧
        MarkupStream.new r program (.element e) world =
          MarkupStream.new r program (.element e') world) ∧
      ∀ {H N σ : Type} (live : LiveRenderer H) (host : Dom.Host F H N) (program : Program F σ)
        (container : Option N) (world : World σ),
        live.render host program (.element e) container world =
          live.render host program (.element e') container world) := by
  refine ⟨⟨Element.alike_of_signature_eq, Element.signature_eq_of_alike⟩, ?_, ?_⟩
  · intro hfunction hsignature
    exact hfunction (Element.alike_of_signature_eq hsignature).containsFunction_eq
  · intro hsignature hfree
    have halike := Element.alike_of_signature_eq hsignature
    refine ⟨Element.complexity_eq_of_alike halike, halike.heights_eq.1, ?_, ?_⟩
    · intro σ r program world
      exact ⟨r.render_alike halike hfree program world,
        MarkupStream.new_alike halike hfree program world r⟩
    · intro H N σ live host program container world
      exact live.render_alike halike hfree program world host container

def paragraph (child : Node String) : Element String (Node String) :=
  (Element.new "p").withChild child

/-- A truth value and its text cannot be told apart, while a text that is spelled like a signature
cannot pass for structure, nor a function for its mark. -/
theorem signature_faithful_scalars :
    (paragraph (.text (.bool true))).signature = (paragraph (.text (.str "true"))).signature ∧
    (∀ (r : MarkupRenderer String) (program : Program String Nat) (world : World Nat),
      r.render program (.element (paragraph (.text (.bool true)))) world =
        r.render program (.element (paragraph (.text (.str "true")))) world) ∧
    (paragraph (.collection [.text (.str "a"), .text (.str "b")])).signature ≠
      (paragraph (.text (.str "at1:b"))).signature ∧
    (paragraph (.component (.producer "tick"))).signature ≠
      (paragraph (.text (.str "!"))).signature := by
  have halike : (Node.element (paragraph (.text (.bool true)))).Alike
      (.element (paragraph (.text (.str "true")))) := ⟨⟨rfl, trivial, trivial⟩, rfl⟩
  have hscalars := signature_faithful (paragraph (.text (.bool true)))
    (paragraph (.text (.str "true")))
  have hsame := hscalars.1.2 halike
  have hspelled := (signature_faithful
    (paragraph (.collection [.text (.str "a"), .text (.str "b")]))
    (paragraph (.text (.str "at1:b")))).1
  have hmark := (signature_faithful (paragraph (.component (.producer "tick")))
    (paragraph (.text (.str "!")))).2.1
  refine ⟨hsame, fun r program world => ?_, fun hsignature => ?_, hmark (by decide)⟩
  · obtain ⟨-, -, hrenders, -⟩ := hscalars.2.2 hsame rfl
    exact (hrenders r program world).1
  · exact (hspelled.1 hsignature).2.elim

end TreeRender
