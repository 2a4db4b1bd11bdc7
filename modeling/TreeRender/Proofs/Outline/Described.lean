import TreeRender.Proofs.Outline.Basic

/-!
# What a tree describes

The outline of a tree told rule by rule, one for each kind of node: what stands where, and which
functions are called in which order. It knows no backend, no cache and no walk, and it does not end
at the depth limit.
-/

namespace TreeRender

open Markup

variable {F σ : Type}

/-- What the text directive of an element describes, if it has one. -/
inductive DirectiveDescribes (program : Program F σ) (config : Config) :
    Option (Directive F) → Scene σ → Outline F → Scene σ → Prop
  | none {s} : DirectiveDescribes program config none s .nil s
  | text {directive s text t} : (directiveText program directive).exec s = (.ok text, t) →
    DirectiveDescribes program config (some directive) s (.text text .nil) t
  | failed {directive s cause t} : config.throwOnError = false →
    (directiveText program directive).exec s = (.error cause, t) →
    DirectiveDescribes program config (some directive) s (.fallback .nil) t

/-- What a sequence of nodes at one depth describes, one after the other. -/
inductive Describes (program : Program F σ) (config : Config) :
    Nat → List (Node F) → Scene σ → Outline F → Scene σ → Prop
  | nil {depth s} : Describes program config depth [] s .nil s
  | empty {depth rest s o t} : Describes program config depth rest s o t →
    Describes program config depth (.empty :: rest) s o t
  | text {depth value rest s o t} : Describes program config depth rest s o t →
    Describes program config depth (.text value :: rest) s (.text value.text o) t
  | collection {depth nodes rest s o t} : Describes program config depth (nodes ++ rest) s o t →
    Describes program config depth (.collection nodes :: rest) s o t
  | component {depth c node rest s s₁ s₂ o o' t} :
    (invoke program config (resolve program config depth) depth c).exec s = (.ok node, s₁) →
    Describes program config (depth + 1) [node] s₁ o s₂ →
    Describes program config depth rest s₂ o' t →
    Describes program config depth (.component c :: rest) s (o ++ o') t
  /-- Where failures do not surface, a mark stands for a component that failed. -/
  | failed {depth c cause rest s s₁ o t} : config.throwOnError = false →
    (invoke program config (resolve program config depth) depth c).exec s =
      (.error (.failed cause), s₁) →
    Describes program config depth rest s₁ o t →
    Describes program config depth (.component c :: rest) s (.fallback o) t
  | unnamed {depth rest s o t} {e : Element F (Node F)} : isValidName e.tag = false →
    Describes program config depth rest s o t →
    Describes program config depth (.element e :: rest) s o t
  | void {depth rest s o t} {e : Element F (Node F)} : isValidName e.tag = true →
    isVoid e.tag = true → Describes program config depth rest s.countElement o t →
    Describes program config depth (.element e :: rest) s (.element e .nil o) t
  /-- The content of an element: its text directive, then its children. -/
  | element {depth rest s s₁ s₂ o o' o'' t} {e : Element F (Node F)} : isValidName e.tag = true →
    isVoid e.tag = false → DirectiveDescribes program config e.text s.countElement o s₁ →
    Describes program config (depth + 1) e.childNodes s₁ o' s₂ →
    Describes program config depth rest s₂ o'' t →
    Describes program config depth (.element e :: rest) s (.element e (o ++ o') o'') t

section

variable {program : Program F σ} {config : Config} {depth : Nat}

private theorem DirectiveDescribes.unique {directive : Option (Directive F)} {s t t' : Scene σ}
    {o o' : Outline F} (h : DirectiveDescribes program config directive s o t)
    (h' : DirectiveDescribes program config directive s o' t') : o = o' ∧ t = t' := by
  cases h with
  | none =>
    cases h'
    exact ⟨rfl, rfl⟩
  | text hcomputed =>
    cases h' with
    | text hcomputed' =>
      cases hcomputed.symm.trans hcomputed'
      exact ⟨rfl, rfl⟩
    | failed _ hcomputed' => cases hcomputed.symm.trans hcomputed'
  | failed _ hcomputed =>
    cases h' with
    | text hcomputed' => cases hcomputed.symm.trans hcomputed'
    | failed _ hcomputed' =>
      cases hcomputed.symm.trans hcomputed'
      exact ⟨rfl, rfl⟩

/-- A tree describes one outline at most. -/
theorem Describes.unique {nodes : List (Node F)} {s t t' : Scene σ} {o o' : Outline F}
    (h : Describes program config depth nodes s o t)
    (h' : Describes program config depth nodes s o' t') : o = o' ∧ t = t' := by
  induction h generalizing o' t' with
  | nil =>
    cases h'
    exact ⟨rfl, rfl⟩
  | empty _ ih =>
    cases h' with
    | empty hrest => exact ih hrest
  | text _ ih =>
    cases h' with
    | text hrest =>
      obtain ⟨rfl, rfl⟩ := ih hrest
      exact ⟨rfl, rfl⟩
  | collection _ ih =>
    cases h' with
    | collection hrest => exact ih hrest
  | component hcall _ _ ihnode ihrest =>
    cases h' with
    | component hcall' hnode hrest =>
      cases hcall.symm.trans hcall'
      obtain ⟨rfl, rfl⟩ := ihnode hnode
      obtain ⟨rfl, rfl⟩ := ihrest hrest
      exact ⟨rfl, rfl⟩
    | failed _ hcall' _ => cases hcall.symm.trans hcall'
  | failed _ hcall _ ih =>
    cases h' with
    | component hcall' _ _ => cases hcall.symm.trans hcall'
    | failed _ hcall' hrest =>
      cases hcall.symm.trans hcall'
      obtain ⟨rfl, rfl⟩ := ih hrest
      exact ⟨rfl, rfl⟩
  | unnamed hname _ ih =>
    cases h' with
    | unnamed _ hrest => exact ih hrest
    | void hname' _ _ => cases hname.symm.trans hname'
    | element hname' _ _ _ _ => cases hname.symm.trans hname'
  | void hname hvoid _ ih =>
    cases h' with
    | unnamed hname' _ => cases hname.symm.trans hname'
    | void _ _ hrest =>
      obtain ⟨rfl, rfl⟩ := ih hrest
      exact ⟨rfl, rfl⟩
    | element _ hvoid' _ _ _ => cases hvoid.symm.trans hvoid'
  | element hname hvoid hdirective _ _ ihchildren ihrest =>
    cases h' with
    | unnamed hname' _ => cases hname.symm.trans hname'
    | void _ hvoid' _ => cases hvoid.symm.trans hvoid'
    | element _ _ hdirective' hchildren hrest =>
      obtain ⟨rfl, rfl⟩ := hdirective.unique hdirective'
      obtain ⟨rfl, rfl⟩ := ihchildren hchildren
      obtain ⟨rfl, rfl⟩ := ihrest hrest
      exact ⟨rfl, rfl⟩

theorem Describes.append {xs ys : List (Node F)} {s s₁ t : Scene σ} {o o' : Outline F}
    (h : Describes program config depth xs s o s₁) (h' : Describes program config depth ys s₁ o' t) :
    Describes program config depth (xs ++ ys) s (o ++ o') t := by
  induction h with
  | nil => exact h'
  | empty _ ih => exact .empty (ih h')
  | text _ ih => exact .text (ih h')
  | collection _ ih => exact .collection (List.append_assoc .. ▸ ih h')
  | component hcall hnode _ _ ih =>
    rw [Outline.append_assoc]
    exact .component hcall hnode (ih h')
  | failed hthrow hcall _ ih => exact .failed hthrow hcall (ih h')
  | unnamed hname _ ih => exact .unnamed hname (ih h')
  | void hname hvoid _ ih => exact .void hname hvoid (ih h')
  | element hname hvoid hdirective hchildren _ _ ih =>
    exact .element hname hvoid hdirective hchildren (ih h')

theorem Walk.ok_of_bind_ok {α β γ : Type} {x : Walk σ β α} {f : α → Walk σ β γ}
    {s t : WalkState σ β} {c : γ} (h : (x >>= f).exec s = (.ok c, t)) :
    ∃ a s₁, x.exec s = (.ok a, s₁) ∧ (f a).exec s₁ = (.ok c, t) := by
  rw [exec_bind] at h
  rcases hx : x.exec s with ⟨e | a, s₁⟩
  · rw [hx] at h
    cases h
  · rw [hx] at h
    exact ⟨a, s₁, rfl, h⟩

private theorem describes_walkEach {f : Node F → Walk σ Unit (Outline F)} (nodes : List (Node F))
    (h : ∀ n ∈ nodes, ∀ {s t o}, (f n).exec s = (.ok o, t) →
      Describes program config depth [n] s.toScene o t.toScene)
    {s t : WalkState σ Unit} {os : List (Outline F)}
    (hexec : (walkEach f nodes).exec s = (.ok os, t)) :
    Describes program config depth nodes s.toScene (.join os) t.toScene := by
  induction nodes generalizing s os with
  | nil =>
    cases hexec
    exact .nil
  | cons n rest ih =>
    obtain ⟨o, s₁, hn, hexec⟩ := Walk.ok_of_bind_ok hexec
    obtain ⟨os', s₂, hrest, hexec⟩ := Walk.ok_of_bind_ok hexec
    cases hexec
    exact (h n (by simp) hn).append (ih (fun m hm => h m (by simp [hm])) hrest)

private theorem exec_recover_outline {cause : CallError} {s t : WalkState σ Unit} {o : Outline F}
    (h : (recover config Outline.backend cause).exec s = (.ok o, t)) :
    config.throwOnError = false ∧ o = .fallback .nil ∧ t = s := by
  cases hthrow : config.throwOnError with
  | true =>
    rw [recover, hthrow] at h
    cases h
  | false =>
    rw [recover, hthrow] at h
    cases h
    exact ⟨rfl, rfl, rfl⟩

private theorem describes_walkDirective {directive : Option (Directive F)} {s t : WalkState σ Unit}
    {os : List (Outline F)}
    (h : (walkDirective program config Outline.backend directive).exec s = (.ok os, t)) :
    DirectiveDescribes program config directive s.toScene (.join os) t.toScene := by
  cases directive with
  | none =>
    cases h
    exact .none
  | some directive =>
    obtain ⟨outcome, s₁, hcomputed, h⟩ := Walk.ok_of_bind_ok h
    rw [Walk.exec_onScene] at hcomputed
    cases hcomputed
    cases hresult : ((directiveText program directive).exec s.toScene).1 with
    | ok text =>
      rw [hresult] at h
      cases h
      exact .text (Prod.ext hresult rfl)
    | error cause =>
      rw [hresult] at h
      obtain ⟨o, s₂, hrecover, h⟩ := Walk.ok_of_bind_ok h
      obtain ⟨hthrow, rfl, rfl⟩ := exec_recover_outline hrecover
      cases h
      exact .failed hthrow (Prod.ext hresult rfl)

section

variable {below : Node F → Walk σ Unit (Outline F)}
  (hbelow : ∀ n {s t o}, (below n).exec s = (.ok o, t) →
    Describes program config (depth + 1) [n] s.toScene o t.toScene)
  {s t : WalkState σ Unit} {o : Outline F}

include hbelow

private theorem describes_component {levels : Nat} {c : Component F}
    (h : ((Traversal.ofBackend program config Outline.backend).visitLevel program config
      (resolve program config depth) below levels depth (.component c)).exec s = (.ok o, t)) :
    Describes program config depth [.component c] s.toScene o t.toScene := by
  obtain ⟨outcome, s₁, hcall, h⟩ := Walk.ok_of_bind_ok h
  rw [Walk.exec_onScene] at hcall
  cases hcall
  cases hinvoked : (invoke program config (resolve program config depth) depth c).exec
    s.toScene with
  | mk result scene =>
    rw [hinvoked] at h
    cases result with
    | ok node =>
      have hnode := hbelow node h
      rw [← Outline.append_nil o]
      exact .component hinvoked hnode .nil
    | error e =>
      cases e with
      | failed cause =>
        obtain ⟨hthrow, rfl, rfl⟩ := exec_recover_outline h
        exact .failed hthrow hinvoked .nil
      | depthExceeded depth maxDepth => cases h
      | config cause => cases h

private theorem describes_walkElement {e : Element F (Node F)}
    (h : (walkElement program config Outline.backend below depth e).exec s = (.ok o, t)) :
    Describes program config depth [.element e] s.toScene o t.toScene := by
  cases hvalid : isValidName e.tag with
  | false =>
    rw [walkElement_invalid hvalid] at h
    cases h
    exact .unnamed hvalid .nil
  | true =>
    rw [walkElement_uncached hvalid rfl] at h
    obtain ⟨_, s₁, hcount, h⟩ := Walk.ok_of_bind_ok h
    cases hcount
    cases hvoid : isVoid e.tag with
    | true =>
      rw [buildElement_void hvoid] at h
      cases h
      exact .void hvalid hvoid .nil
    | false =>
      rw [buildElement_content hvoid] at h
      obtain ⟨_, s₁, henter, h⟩ := Walk.ok_of_bind_ok h
      cases henter
      obtain ⟨directive, s₂, hdirective, h⟩ := Walk.ok_of_bind_ok h
      obtain ⟨children, s₃, hchildren, h⟩ := Walk.ok_of_bind_ok h
      have hmade : o = .element e (.join directive ++ .join children) .nil ∧ t = s₃ := by
        cases h
        exact ⟨by rw [← Outline.join_append], rfl⟩
      obtain ⟨rfl, rfl⟩ := hmade
      exact .element hvalid hvoid (describes_walkDirective hdirective)
        (describes_walkEach e.childNodes (fun n _ => hbelow n) hchildren) .nil

end

private theorem describes_outlineFrom {levels : Nat} (hdepth : depth + levels = config.maxDepth + 1)
    {node : Node F} {s t : WalkState σ Unit} {o : Outline F}
    (h : (outlineFrom program config levels depth node).exec s = (.ok o, t)) :
    Describes program config depth [node] s.toScene o t.toScene := by
  rw [outlineFrom, Traversal.walkFrom_eq_visit] at h
  induction levels generalizing depth node s o t with
  | zero => cases h
  | succ levels ih =>
    -- `Describes` knows no levels left, only the depth: both resolve nested nodes alike.
    have hresolve : resolveFrom program config levels (depth + 1) = resolve program config depth := by
      have hlevels : config.levelsAt (depth + 1) = levels := by
        unfold Config.levelsAt
        omega
      funext n
      rw [resolve, hlevels]
    rw [Traversal.visit, hresolve] at h
    induction node using Node.inductOn generalizing s o t with
    | empty =>
      cases h
      exact .empty .nil
    | text value =>
      cases h
      exact .text .nil
    | component c => exact describes_component (fun n _ _ _ => ih (by omega)) h
    | collection nodes ihnodes =>
      rw [Traversal.visitLevel, Traversal.visitMembers_eq] at h
      obtain ⟨os, s₁, hmembers, h⟩ := Walk.ok_of_bind_ok h
      cases h
      have hnodes := describes_walkEach nodes ihnodes hmembers
      exact .collection (by rwa [List.append_nil])
    | element e _ => exact describes_walkElement (fun n _ _ _ => ih (by omega)) h

theorem describes_of_outlining {node : Node F} {state : σ} {o : Outline F}
    (h : (outlining program config node state).1 = .ok o) :
    ∃ t, Describes program config 1 [node] { state } o t :=
  ⟨_, describes_outlineFrom (Nat.add_comm _ _) (Prod.ext h rfl)⟩

end

end TreeRender
