import TreeRender.Evaluate
import TreeRender.Node.Shape
import TreeRender.Proofs.Containment.Rename

/-!
# Trees with their failures replaced

Pure functions do the same whenever they are called, so it is settled beforehand which components
of a tree fail. Here the fallback is put in their place, in the tree and in whatever its components
return. As it depends on the depth whether a component fails, the same function may return one thing
here and another there. So functions get new names, which say at what depth they stand.
-/

namespace TreeRender

variable {F G : Type}

/-- The name of a function in a tree whose failures are replaced. Under a free name a function
returns what it always does. Where a component stands at a depth, the failures are replaced in what
it returns. -/
inductive Placed (F : Type) where
  | free (name : F)
  | standing (depth : Nat) (name : F)

def Placed.function : Placed F → F
  | .free name => name
  | .standing _ name => name

section

variable (program : Program F Unit) (config : Config)

/-- Whether the evaluation of a component at a depth ends with the failure of a function, its own or
that of the last one of a chain. -/
def Program.failsAt (depth : Nat) (c : Component F) : Bool :=
  match ((evaluate program config depth c).exec { state := () }).1 with
  | .error (.failed _) => true
  | _ => false

/-- The fallback as a literal text, in place of a computed text that panics. -/
def Program.replaceText : Directive F → Directive F
  | .literal text => .literal text
  | .computed name =>
    match (program.compute name ()).value.1 with
    | .ok _ => .computed name
    | .error _ => .literal config.errorFallback

/-- The element with the failure of its own text replaced and the children as `below` gives
them. -/
def Program.replaceElement {N M : Type} (below : N → M) (e : Element F N) :
    Element (Placed F) M :=
  Element.rename .free { e with text := e.text.map (program.replaceText config) }
    (e.children.map below)

mutual

/-- Replaces the failures of one level; `below` replaces those of the next. -/
def Program.replaceLevel (below : Node F → Node (Placed F)) (depth : Nat) :
    Node F → Node (Placed F)
  | .empty => .empty
  | .text value => .text value
  | .component c =>
    if program.failsAt config depth c then .text (.str config.errorFallback)
    else .component (c.rename (.standing depth))
  | .collection nodes => .collection (Program.replaceMembers below depth nodes)
  | .element e => .element (program.replaceElement config below e)

def Program.replaceMembers (below : Node F → Node (Placed F)) (depth : Nat) :
    List (Node F) → List (Node (Placed F))
  | [] => []
  | n :: rest =>
    Program.replaceLevel below depth n :: Program.replaceMembers below depth rest

end

/-- Replaces the failures in a node at `depth`, where the depth limit allows `levels` more levels.
Past the limit no function is called. -/
def Program.replaceFrom : (levels depth : Nat) → Node F → Node (Placed F)
  | 0, _, node => node.rename .free
  | levels + 1, depth, node =>
    program.replaceLevel config (Program.replaceFrom levels (depth + 1)) depth node

/-- The node at `depth` in which the fallback stands for each component whose evaluation there ends
with a failed function, and for each computed text that panics. -/
def Program.replace (depth : Nat) (node : Node F) : Node (Placed F) :=
  program.replaceFrom config (config.levelsAt depth) depth node

/-- What becomes of a node that the function of a name returns. -/
def Program.returned : Placed F → Node F → Node (Placed F)
  | .free _ => Node.rename .free
  | .standing depth _ => program.replace config (depth + 1)

end

/-- A script that has the same nodes resolved, under free names, and ends with what `g` makes of the
node returned. -/
def Script.placed (g : Node F → Node (Placed F)) : Script F Unit → Script (Placed F) Unit
  | .finish outcome => .finish ((fun (result, state) => (result.map g, state)) <$> outcome)
  | .resolve request resume =>
    .resolve ((fun (node, state) => (node.rename .free, state)) <$> request) fun resolved state =>
      (resume (resolved.rename Placed.function) state).placed g

/-- The functions of trees whose failures are replaced: they do as those of the program, and the
failures are replaced in what a component returns that stands at a depth. -/
def Program.placed (program : Program F Unit) (config : Config) : Program (Placed F) Unit where
  produce name state :=
    (fun (result, state) => (result.map (program.returned config name), state)) <$>
      program.produce name.function state
  provide name depth config' state :=
    (program.provide name.function depth config' state).placed (program.returned config name)
  compute name state := program.compute name.function state

section

variable {program : Program F Unit} {config : Config}

theorem mapped_replaceElement (below : Node F → Node (Placed F)) (e : Element F (Node F)) :
    (program.replaceElement config below e).mapped = e.mapped.map (Attribute.rename .free) :=
  Element.mapped_rename _ _ _

private theorem childNodes_of_single {e : Element G (Node G)} {child : Node G}
    (hchild : e.children = some child) (h : child.kind ≠ .collection) : e.childNodes = [child] := by
  rw [Element.childNodes, hchild]
  cases child with
  | collection nodes => exact absurd rfl h
  | _ => rfl

theorem childNodes_replaceElement {below : Node F → Node (Placed F)} (e : Element F (Node F))
    (hcollection : ∀ nodes, below (.collection nodes) = .collection (nodes.map below))
    (hsingle : ∀ n, n.kind ≠ .collection → (below n).kind ≠ .collection) :
    (program.replaceElement config below e).childNodes = e.childNodes.map below := by
  have hreplaced : (program.replaceElement config below e).children = e.children.map below := rfl
  cases hchildren : e.children with
  | none =>
    rw [hchildren] at hreplaced
    rw [Element.childNodes, Element.childNodes, hchildren, hreplaced]
    rfl
  | some child =>
    rw [hchildren] at hreplaced
    by_cases h : child.kind = .collection
    · cases child with
      | collection nodes =>
        rw [Option.map_some, hcollection] at hreplaced
        rw [Element.childNodes, Element.childNodes, hchildren, hreplaced]
      | _ => cases h
    · rw [childNodes_of_single hchildren h, childNodes_of_single hreplaced (hsingle child h)]
      rfl

private theorem replaceMembers_eq (below : Node F → Node (Placed F)) (depth : Nat)
    (nodes : List (Node F)) :
    program.replaceMembers config below depth nodes =
      nodes.map (program.replaceLevel config below depth) := by
  induction nodes with
  | nil => rfl
  | cons n rest ih => rw [Program.replaceMembers, List.map_cons, ih]

theorem replaceFrom_collection (levels depth : Nat) (nodes : List (Node F)) :
    program.replaceFrom config levels depth (.collection nodes) =
      .collection (nodes.map (program.replaceFrom config levels depth)) := by
  cases levels with
  | zero => exact Node.rename_collection _ nodes
  | succ levels =>
    rw [Program.replaceFrom, Program.replaceLevel, replaceMembers_eq]
    rfl

theorem kind_replaceFrom {levels depth : Nat} {node : Node F} (h : node.kind ≠ .collection) :
    (program.replaceFrom config levels depth node).kind ≠ .collection := by
  cases levels with
  | zero =>
    cases node with
    | collection nodes => exact absurd rfl h
    | element e =>
      rw [Program.replaceFrom, Node.rename_element]
      exact fun h => nomatch h
    | _ => exact fun h => nomatch h
  | succ levels =>
    rw [Program.replaceFrom]
    cases node with
    | collection nodes => exact absurd rfl h
    | component c =>
      rw [Program.replaceLevel]
      cases program.failsAt config depth c <;> exact fun h => nomatch h
    | _ => exact fun h => nomatch h

end

end TreeRender
