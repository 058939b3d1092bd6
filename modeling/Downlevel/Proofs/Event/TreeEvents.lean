/-
Downlevel.Proofs.Event.TreeEvents — which events a tree gives, and in which
order.

The collector carries a counter through a tree: it goes up at every function and
comes down again behind it. So the counter stands behind a subtree where it
stood in front of it, and what a subtree adds depends on the depth at which it
is entered and on nothing else that was collected (`Collector.visit_eq`).

`SyntaxNode.places` lists the nodes of a tree with the nodes around them, in the
order of a visit. The counter at a node is the number of functions among the
nodes around it, so the events of a tree are those of its places
(`SyntaxTree.events_of_places`).
-/
import Downlevel.Event.Collector

namespace Downlevel

/-! ## Events of a subtree -/

namespace SyntaxNode

/-- The depth inside of a node. -/
def depthInside (depth : Nat) (node : SyntaxNode) : Nat :=
  if node.isFunction then depth + 1 else depth

mutual

/-- The events of a subtree that is entered at some depth: its own ones and then
those of its children. -/
def eventsAt (source : String) (depth : Nat) : SyntaxNode → List Event
  | .mk shape children =>
    ownEvents source depth (.mk shape children)
      ++ eventsAtAll source (depthInside depth (.mk shape children)) children

def eventsAtAll (source : String) (depth : Nat) : List SyntaxNode → List Event
  | [] => []
  | node :: rest => eventsAt source depth node ++ eventsAtAll source depth rest

end

theorem eventsAtAll_eq_flatMap (source : String) (depth : Nat) (nodes : List SyntaxNode) :
    eventsAtAll source depth nodes = nodes.flatMap (eventsAt source depth) := by
  induction nodes with
  | nil => rw [eventsAtAll, List.flatMap_nil]
  | cons node rest ih => rw [eventsAtAll, ih, List.flatMap_cons]

/-- A subtree gives its own events and then those of its children in order. -/
theorem eventsAt_mk (source : String) (depth : Nat) (shape : NodeShape)
    (children : List SyntaxNode) :
    eventsAt source depth (.mk shape children)
      = ownEvents source depth (.mk shape children)
        ++ children.flatMap (eventsAt source (depthInside depth (.mk shape children))) := by
  rw [eventsAt, eventsAtAll_eq_flatMap]

end SyntaxNode

namespace Collector

open SyntaxNode

theorem enter_eq (source : String) (c : Collector) (node : SyntaxNode) :
    c.enter source node
      = ⟨node.depthInside c.functionDepth, c.events ++ node.ownEvents source c.functionDepth⟩ :=
  rfl

/-- The way out of a node undoes the way in. -/
theorem leave_depthInside (depth : Nat) (events : List Event) (node : SyntaxNode) :
    (⟨node.depthInside depth, events⟩ : Collector).leave node = ⟨depth, events⟩ := by
  rw [leave, depthInside]
  split <;> rfl

mutual

/-- **Behind a subtree the counter stands where it stood in front of it**, and
the events of the subtree follow those that were collected before. -/
theorem visit_eq (source : String) : ∀ (c : Collector) (node : SyntaxNode),
    c.visit source node
      = ⟨c.functionDepth, c.events ++ node.eventsAt source c.functionDepth⟩
  | c, .mk shape children => by
      rw [visit, enter_eq, visitAll_eq, leave_depthInside, eventsAt, List.append_assoc]

theorem visitAll_eq (source : String) : ∀ (c : Collector) (nodes : List SyntaxNode),
    c.visitAll source nodes
      = ⟨c.functionDepth, c.events ++ eventsAtAll source c.functionDepth nodes⟩
  | c, [] => by rw [visitAll, eventsAtAll, List.append_nil]
  | c, node :: rest => by
      rw [visitAll, visit_eq, visitAll_eq, eventsAtAll, List.append_assoc]

end

end Collector

/-! ## Places -/

/-- A node in a tree, with the nodes around it, the innermost first. -/
structure SyntaxPlace where
  node : SyntaxNode
  around : List SyntaxNode

mutual

/-- The places of a subtree in the order of a visit: a node before its children,
and one child after the other. -/
def SyntaxNode.places (around : List SyntaxNode) : SyntaxNode → List SyntaxPlace
  | .mk shape children =>
    ⟨.mk shape children, around⟩ :: placesAll (.mk shape children :: around) children

def SyntaxNode.placesAll (around : List SyntaxNode) : List SyntaxNode → List SyntaxPlace
  | [] => []
  | node :: rest => places around node ++ placesAll around rest

end

/-- The places of a tree. -/
def SyntaxTree.places (tree : SyntaxTree) : List SyntaxPlace := SyntaxNode.placesAll [] tree

namespace SyntaxPlace

/-- The events of the node itself, as deep as it stands among functions. -/
def events (source : String) (p : SyntaxPlace) : List Event :=
  p.node.ownEvents source (p.around.countP SyntaxNode.isFunction)

/-- An `await` around which there is no function. -/
def isTopLevelAwait (p : SyntaxPlace) : Bool :=
  p.node.shape == .awaitExpression && !p.around.any SyntaxNode.isFunction

end SyntaxPlace

namespace SyntaxNode

theorem depthInside_countP (node : SyntaxNode) (around : List SyntaxNode) :
    node.depthInside (around.countP isFunction) = (node :: around).countP isFunction := by
  rw [depthInside, List.countP_cons]
  split <;> rfl

mutual

theorem eventsAt_eq_places (source : String) : ∀ (around : List SyntaxNode) (node : SyntaxNode),
    node.eventsAt source (around.countP isFunction)
      = (node.places around).flatMap (SyntaxPlace.events source)
  | around, .mk shape children => by
      rw [eventsAt, depthInside_countP, eventsAtAll_eq_places, places, List.flatMap_cons]
      rfl

theorem eventsAtAll_eq_places (source : String) :
    ∀ (around : List SyntaxNode) (nodes : List SyntaxNode),
    eventsAtAll source (around.countP isFunction) nodes
      = (placesAll around nodes).flatMap (SyntaxPlace.events source)
  | around, [] => by rw [eventsAtAll, placesAll, List.flatMap_nil]
  | around, node :: rest => by
      rw [eventsAtAll, placesAll, List.flatMap_append, eventsAt_eq_places, eventsAtAll_eq_places]

end

/-! ## Awaiting outside of functions -/

@[simp] theorem shape_mk (shape : NodeShape) (children : List SyntaxNode) :
    (mk shape children).shape = shape := rfl

/-- No other node reports an `await`. -/
theorem kind_ne_of_mem_ownEvents {source : String} {depth : Nat} {node : SyntaxNode}
    (hshape : node.shape ≠ .awaitExpression) {e : Event}
    (he : e ∈ node.ownEvents source depth) : e.kind ≠ .topLevelAwait := by
  obtain ⟨shape, children⟩ := node
  cases shape
  case awaitExpression => exact absurd rfl hshape
  all_goals
    simp only [ownEvents, shape_mk, Event.plain, Event.about] at he
    grind

theorem ownEvents_of_await {source : String} {depth : Nat} {node : SyntaxNode}
    (hshape : node.shape = .awaitExpression) :
    node.ownEvents source depth = if depth = 0 then [.plain .topLevelAwait] else [] := by
  rw [ownEvents, hshape]

end SyntaxNode

namespace SyntaxPlace

open SyntaxNode

/-- A place reports one `await` if it is one outside of all functions, and none
otherwise. -/
theorem filter_events (source : String) (p : SyntaxPlace) :
    (p.events source).filter (fun e => e.kind = .topLevelAwait)
      = if p.isTopLevelAwait then [.plain .topLevelAwait] else [] := by
  by_cases hshape : p.node.shape = .awaitExpression
  · have houtside : p.isTopLevelAwait = true ↔ p.around.countP isFunction = 0 := by
      simp [isTopLevelAwait, hshape, List.countP_eq_zero]
    simp only [events, ownEvents_of_await hshape, houtside]
    split <;> rfl
  · have hnot : p.isTopLevelAwait = false := by simp [isTopLevelAwait, hshape]
    rw [hnot, if_neg Bool.false_ne_true, List.filter_eq_nil_iff]
    intro e he
    rw [decide_eq_true_eq]
    exact kind_ne_of_mem_ownEvents hshape he

end SyntaxPlace

/-- Of the events of some places there is one `await` for each that is one
outside of all functions, as the places follow one another. -/
theorem filter_flatMap_events (source : String) (places : List SyntaxPlace) :
    (places.flatMap (SyntaxPlace.events source)).filter (fun e => e.kind = .topLevelAwait)
      = (places.filter SyntaxPlace.isTopLevelAwait).map fun _ => .plain .topLevelAwait := by
  induction places with
  | nil => rfl
  | cons p rest ih =>
    rw [List.flatMap_cons, List.filter_append, SyntaxPlace.filter_events, ih, List.filter_cons]
    split <;> rfl

/-! ## Trees -/

theorem SyntaxTree.events_eq_places (source : String) (tree : SyntaxTree) :
    tree.events source = tree.places.flatMap (SyntaxPlace.events source) := by
  rw [SyntaxTree.events, Collector.visitAll_eq]
  exact SyntaxNode.eventsAtAll_eq_places source [] tree

/-- **What is collected of a tree.** Wherever a collector stands, visiting a
subtree leaves its counter as it was and adds the events of the subtree; these
are the own events of the root followed by those of its children in order. The
events of a tree are those of its places in the order of the visit, and of all
places exactly those report an `await`, once each, that are an `await` without a
function around them. -/
theorem SyntaxTree.events_of_places (source : String) (tree : SyntaxTree) :
    (∀ (c : Collector) (node : SyntaxNode),
      (c.visit source node).functionDepth = c.functionDepth
        ∧ (c.visit source node).events = c.events ++ node.eventsAt source c.functionDepth)
    ∧ (∀ (depth : Nat) (shape : NodeShape) (children : List SyntaxNode),
        let node := SyntaxNode.mk shape children
        node.eventsAt source depth
          = node.ownEvents source depth
            ++ children.flatMap (SyntaxNode.eventsAt source (node.depthInside depth)))
    ∧ tree.events source = tree.places.flatMap (SyntaxPlace.events source)
    ∧ (∀ p : SyntaxPlace, (p.events source).filter (fun e => e.kind = .topLevelAwait)
        = if p.isTopLevelAwait then [.plain .topLevelAwait] else [])
    ∧ (tree.events source).filter (fun e => e.kind = .topLevelAwait)
        = (tree.places.filter SyntaxPlace.isTopLevelAwait).map fun _ => .plain .topLevelAwait := by
  have hevents := tree.events_eq_places source
  refine ⟨?_, SyntaxNode.eventsAt_mk source, hevents, SyntaxPlace.filter_events source, ?_⟩
  · intro c node
    rw [Collector.visit_eq]
    exact ⟨rfl, rfl⟩
  · rw [hevents, filter_flatMap_events]

/-- One `await` in an arrow function and one behind it. -/
example :
    let tree : SyntaxTree := [.mk .other [
      .mk (.arrowFunction true) [.mk .awaitExpression []], .mk .awaitExpression []]]
    tree.events "" = [.plain .arrowFunction, .plain .asyncFunction, .plain .topLevelAwait] := by
  decide

end Downlevel
