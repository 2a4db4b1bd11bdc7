import TreeRender.Proofs.Hydration.Parts

/-!
# What a walk reaches

A walk reaches the parts of its tree one after the other, in the order in which they stand, until it
has gone through the tree or an error ends it. That order depends on nothing but the tree and the
functions. If no error comes up, the parts are those of the outline.
-/

namespace TreeRender

open Markup

variable {F σ : Type}

/-- The backend that lists the parts that a walk comes to. -/
def Part.recorder : Backend F (List (Part F)) Unit where
  empty := return ()
  text content := modify (· ++ [.text content])
  fragment _ := return ()
  enter e := modify (· ++ [.opening e])
  element e _ := modify (· ++ if isVoid e.tag then [] else [.closing e.tag])
  fallback _ := modify (· ++ [.fallback])

section

variable (program : Program F σ) (config : Config)

def recordingStart (state : σ) : WalkState σ (List (Part F)) :=
  { state, clock := { reading := fun _ => 0 }, cache := FragmentCache.empty 0 none, backend := [] }

/-- The parts of a tree that a walk reaches, when the functions are in `state`. -/
def reached (node : Node F) (state : σ) : List (Part F) :=
  ((walk program config Part.recorder 1 node).exec (recordingStart state)).2.backend

end

namespace Part

private theorem chain_recorder {b b' : List (Part F)} {us : List Unit} {os : List (Outline F)}
    (h : Chain (fun b b' (_ : Unit) o => b' = b ++ Outline.parts o) b b' us os) :
    b' = b ++ (Outline.join os).parts := by
  induction h with
  | nil => exact (List.append_nil _).symm
  | cons hr _ ih => rw [ih, hr, Outline.join, Outline.parts_append, List.append_assoc]

theorem realizes_recorder (fallback : String) :
    (recorder : Backend F (List (Part F)) Unit).Realizes fallback
      fun b b' _ o => b' = b ++ o.parts where
  empty b := (List.append_nil b).symm
  text _ _ := rfl
  fallback _ := rfl
  fragment h := chain_recorder h
  element {b b₁ us os} e hvalid hvoid h := by
    have hcontent : b₁ = b ++ [.opening e] ++ (Outline.join os).parts := chain_recorder h
    change b₁ ++ (if isVoid e.tag then [] else [.closing e.tag]) = _
    rw [hcontent, Outline.parts]
    cases hv : isVoid e.tag with
    | true =>
      rw [if_pos rfl, if_pos rfl, hvoid hv]
      simp [Outline.join, Outline.parts]
    | false =>
      rw [if_neg Bool.false_ne_true, if_neg Bool.false_ne_true]
      simp only [Outline.parts, List.append_assoc, List.cons_append, List.nil_append]
  restore h := nomatch h
  store h := nomatch h

/-- Whatever the recorder is told of, it appends parts, and the opening tags among them belong to
elements of the nodes that are walked over. -/
theorem appends_recorder {N : Node F → Prop} {α : Type} {x : StateT (List (Part F)) Logged α}
    (hx : Part.recorder.Operation N x) : ∃ parts, (∀ b, (x b).value.2 = b ++ parts) ∧
      ∀ e, .opening e ∈ parts → isValidName e.tag = true ∧ N (.element e) := by
  cases hx with
  | enter hvalid he =>
    refine ⟨[.opening _], fun _ => rfl, fun e hmem => ?_⟩
    cases List.mem_singleton.1 hmem
    exact ⟨hvalid, he⟩
  | @element e content _ _ =>
    refine ⟨if isVoid e.tag then [] else [.closing e.tag], fun _ => rfl, fun e hmem => ?_⟩
    split at hmem
    · cases hmem
    · cases List.mem_singleton.1 hmem
  | text content => exact ⟨[.text content], fun _ => rfl, by simp⟩
  | fallback text => exact ⟨[.fallback], fun _ => rfl, by simp⟩
  | _ => exact ⟨[], fun b => (List.append_nil b).symm, by simp⟩

theorem stepsWithin_recorder {N : Node F → Prop} (hN : Node.Hereditary N) :
    (recorder (F := F)).StepsWithin (σ := σ) N fun s t => ∃ parts, t.backend = s.backend ++ parts ∧
      ∀ e, .opening e ∈ parts → isValidName e.tag = true ∧ N (.element e) where
  toHereditary := hN
  refl s := ⟨[], (List.append_nil _).symm, by simp⟩
  trans := by
    rintro s t u ⟨parts, hst, hparts⟩ ⟨parts', htu, hparts'⟩
    refine ⟨parts ++ parts', by rw [htu, hst, List.append_assoc], fun e hmem => ?_⟩
    rcases List.mem_append.1 hmem with hmem | hmem
    · exact hparts e hmem
    · exact hparts' e hmem
  scene s _ := ⟨[], (List.append_nil _).symm, by simp⟩
  clock s _ := ⟨[], (List.append_nil _).symm, by simp⟩
  lookUp h := nomatch h
  store h := nomatch h
  operation hx s := by
    obtain ⟨parts, happend, hparts⟩ := appends_recorder hx
    exact ⟨parts, happend s.backend, hparts⟩

end Part

variable {program : Program F σ} {config : Config} {node : Node F} {state : σ}

/-- A walk only reaches elements whose names can be written. -/
theorem valid_reached {e : Element F (Node F)}
    (h : .opening e ∈ reached program config node state) : isValidName e.tag = true := by
  obtain ⟨parts, hparts, hvalid⟩ :
      ∃ parts, reached program config node state = [] ++ parts ∧ _ :=
    (Part.stepsWithin_recorder Node.hereditary_true).closed.walk trivial (recordingStart state)
  rw [List.nil_append] at hparts
  exact (hvalid e (hparts ▸ h)).1

/-- A walk that comes to an end has reached the parts of the outline. -/
theorem reached_eq_parts {o : Outline F} (h : (outlining program config node state).1 = .ok o) :
    reached program config node state = o.parts := by
  have agree : Walk.Agree (WalkState.Beside config F) (fun b _ o => b = [] ++ Outline.parts o)
      ((walk program config Part.recorder 1 node).exec (recordingStart state))
      (outlining program config node state) :=
    (Part.realizes_recorder config.errorFallback).tracks (Nat.add_comm _ _) node []
      (recordingStart state) (outlineStart state) rfl
      ⟨rfl, rfl, rfl, rfl, FragmentCache.valid_empty 0 none⟩
  unfold reached
  generalize (walk program config Part.recorder 1 node).exec (recordingStart state) = p at agree ⊢
  generalize outlining program config node state = q at agree h
  cases agree with
  | error _ => cases h
  | ok hparts _ =>
    cases h
    exact hparts

end TreeRender
