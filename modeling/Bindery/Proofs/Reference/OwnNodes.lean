/-
**Whose node gives a class its parents.**

A class looks for its node in an inheritance graph under its full name and under its short name at
once, and the first hit in the order of the document is taken. A node of another class with the
short name is a hit as well, so the parents of a class may depend on the order of the nodes.

* `referredLabels` — the labels of the nodes to which a node refers; no order of the nodes is in it.
* `IsOwnNode` — the node that alone has the full name of a class.
* `parents_eq_referredLabels` — a class has the parents of its own node unless a node with its short
  name stands in front of that one.
-/

import Mathlib.Data.List.Basic
import Bindery.Reference.Finding

namespace Bindery.Reference

open Xml

/-! ### Nodes by their ids -/

/-- The id of a node. -/
def nodeId? (node : Element) : Option String := node.attribute? "id"

/-- Whether a node has the id. -/
def hasId (id : String) (node : Element) : Bool := node.hasAttribute "id" id

/-- No two nodes of a graph have one id. -/
def HasDistinctIds (nodes : List Element) : Prop := (nodes.filterMap nodeId?).Nodup

instance (nodes : List Element) : Decidable (HasDistinctIds nodes) :=
  inferInstanceAs (Decidable (List.Nodup _))

/-- The labels of the nodes with an id. -/
def labelsOf (nodes : List Element) (id : String) : List String :=
  (nodes.filter (hasId id)).map nodeLabel

/-- The ids to which the edges of a node refer, in their order. -/
def targets (node : Element) : List String :=
  (node.children "childnode").filterMap (·.attribute? "refid")

/-- The labels of the nodes to which a node refers, by the order of its edges. An edge to a missing
node gives none, and an empty label is no name. -/
def referredLabels (nodes : List Element) (node : Element) : List String :=
  ((targets node).flatMap (labelsOf nodes)).filter fun label => !label.isEmpty

theorem hasId_iff {id : String} {node : Element} : hasId id node ↔ nodeId? node = some id := by
  rw [hasId, Element.hasAttribute, beq_iff_eq, nodeId?]

section Ids

variable {nodes others : List Element}

theorem HasDistinctIds.perm (distinct : HasDistinctIds nodes) (samePlaces : others.Perm nodes) :
    HasDistinctIds others :=
  (samePlaces.filterMap nodeId?).nodup_iff.mpr distinct

/-- Under distinct ids, the nodes with an id are the first one with it. -/
theorem HasDistinctIds.filter_eq (distinct : HasDistinctIds nodes) (id : String) :
    nodes.filter (hasId id) = (nodes.find? (hasId id)).toList := by
  induction nodes with
  | nil => rfl
  | cons node rest ih =>
    by_cases isHit : hasId id node
    · rw [HasDistinctIds, List.filterMap_cons_some (hasId_iff.mp isHit), List.nodup_cons]
        at distinct
      have noOther : rest.filter (hasId id) = [] := by
        refine List.filter_eq_nil_iff.mpr fun other isOther isSame => distinct.1 ?_
        exact List.mem_filterMap.mpr ⟨other, isOther, hasId_iff.mp isSame⟩
      rw [List.filter_cons_of_pos isHit, List.find?_cons_of_pos isHit, noOther]
      rfl
    · have distinctRest : HasDistinctIds rest :=
        distinct.sublist ((List.sublist_cons_self node rest).filterMap nodeId?)
      rw [List.filter_cons_of_neg isHit, List.find?_cons_of_neg isHit, ih distinctRest]

theorem HasDistinctIds.labelsOf_eq (distinct : HasDistinctIds nodes) (id : String) :
    labelsOf nodes id = ((nodes.find? (hasId id)).map nodeLabel).toList := by
  rw [labelsOf, distinct.filter_eq]
  cases nodes.find? (hasId id) <;> rfl

/-- Under distinct ids, the order of the nodes does not matter to an id. -/
theorem HasDistinctIds.labelsOf_perm (distinct : HasDistinctIds nodes)
    (samePlaces : others.Perm nodes) : labelsOf others = labelsOf nodes := by
  funext id
  have sameHits := samePlaces.filter (hasId id)
  rw [distinct.filter_eq] at sameHits
  rw [labelsOf, labelsOf, distinct.filter_eq]
  cases isFound : nodes.find? (hasId id) with
  | none =>
    rw [isFound] at sameHits
    rw [sameHits.eq_nil]
    rfl
  | some node =>
    rw [isFound] at sameHits
    rw [List.perm_singleton.mp sameHits]
    rfl

theorem HasDistinctIds.referredLabels_perm (distinct : HasDistinctIds nodes)
    (samePlaces : others.Perm nodes) (node : Element) :
    referredLabels others node = referredLabels nodes node := by
  rw [referredLabels, referredLabels, distinct.labelsOf_perm samePlaces]

end Ids

/-! ### The node that is taken -/

/-- Whether a node has one of the names of a class. -/
def isNamedAs (fullName shortName : String) (node : Element) : Bool :=
  nodeLabel node == fullName || nodeLabel node == shortName

theorem isNamedAs_iff {fullName shortName : String} {node : Element} :
    isNamedAs fullName shortName node ↔ nodeLabel node = fullName ∨ nodeLabel node = shortName := by
  rw [isNamedAs, Bool.or_eq_true, beq_iff_eq, beq_iff_eq]

/-- A graph gives the labels to which the first node with one of the names refers. -/
theorem graphParents?_eq {graph : Element} (distinct : HasDistinctIds (graph.children "node"))
    (fullName shortName : String) :
    graphParents? graph fullName shortName =
      ((graph.children "node").find? (isNamedAs fullName shortName)).map
        (referredLabels (graph.children "node")) := by
  have sameLabels : ∀ node, referredLabels (graph.children "node") node =
      ((targets node).filterMap fun target =>
        ((graph.children "node").find? (hasId target)).map nodeLabel).filter
          fun label => !label.isEmpty := by
    intro node
    rw [referredLabels, funext distinct.labelsOf_eq, List.filterMap_eq_flatMap_toList]
  rw [Option.map_congr fun node _ => sameLabels node, Option.map_eq_bind]
  rfl

section Hits

variable {definition graph : Element} {fullName : String}

/-- A class has the parents of the node that is found for it. -/
theorem parents_eq_of_find? {shortName : String} {hit : Element}
    (hasGraph : definition.child? "inheritancegraph" = some graph)
    (distinct : HasDistinctIds (graph.children "node"))
    (isFound : (graph.children "node").find? (isNamedAs fullName shortName) = some hit) :
    parents definition fullName shortName = referredLabels (graph.children "node") hit := by
  rw [parents, hasGraph, Option.bind_some, graphParents?_eq distinct, isFound]
  rfl

/-- A class has the parents of the first node with one of its names. -/
theorem parents_eq_of_first {shortName : String} {hit : Element} {early late : List Element}
    (hasGraph : definition.child? "inheritancegraph" = some graph)
    (distinct : HasDistinctIds (graph.children "node"))
    (whole : graph.children "node" = early ++ hit :: late)
    (isHit : nodeLabel hit = fullName ∨ nodeLabel hit = shortName)
    (isFirst : ∀ node ∈ early, nodeLabel node ≠ fullName ∧ nodeLabel node ≠ shortName) :
    parents definition fullName shortName = referredLabels (graph.children "node") hit := by
  refine parents_eq_of_find? hasGraph distinct (List.find?_eq_some_iff_append.mpr
    ⟨isNamedAs_iff.mpr isHit, early, late, whole, fun node isEarly => ?_⟩)
  rw [Bool.not_eq_true', Bool.eq_false_iff, ne_eq, isNamedAs_iff, not_or]
  exact isFirst node isEarly

/-- There is a first node with one of the names where there is one at all. -/
theorem exists_parents_eq {own : Element} (shortName : String)
    (hasGraph : definition.child? "inheritancegraph" = some graph)
    (distinct : HasDistinctIds (graph.children "node"))
    (isIn : own ∈ graph.children "node") (isOwn : nodeLabel own = fullName) :
    ∃ hit ∈ graph.children "node", (nodeLabel hit = fullName ∨ nodeLabel hit = shortName) ∧
      parents definition fullName shortName = referredLabels (graph.children "node") hit := by
  obtain ⟨hit, isFound⟩ := Option.isSome_iff_exists.mp <|
    List.find?_isSome.mpr ⟨own, isIn, isNamedAs_iff.mpr (.inl isOwn)⟩
  exact ⟨hit, List.mem_of_find?_eq_some isFound, isNamedAs_iff.mp (List.find?_some isFound),
    parents_eq_of_find? hasGraph distinct isFound⟩

end Hits

/-! ### The nodes in another order -/

/-- A graph of some nodes. -/
def graphOf (nodes : List Element) : Element :=
  .mk "inheritancegraph" [] (nodes.map .element)

/-- A definition with nothing but a graph of some nodes. -/
def definitionOf (nodes : List Element) : Element :=
  .mk "compounddef" [] [.element (graphOf nodes)]

theorem children_graphOf {nodes : List Element} (areNodes : ∀ node ∈ nodes, node.name = "node") :
    (graphOf nodes).children "node" = nodes := by
  rw [graphOf, Element.children, Element.content, List.filterMap_map]
  calc nodes.filterMap _ = nodes.filterMap some := List.filterMap_congr fun node isIn => by
        exact if_pos (beq_iff_eq.mpr (areNodes node isIn))
    _ = nodes := List.filterMap_some

theorem name_of_mem_children {element inner : Element} {name : String}
    (isInner : inner ∈ element.children name) : inner.name = name := by
  obtain ⟨node, -, isRead⟩ := List.mem_filterMap.mp isInner
  cases node with
  | text => cases isRead
  | element found =>
    obtain ⟨isNamed, isSame⟩ := Option.ite_none_right_eq_some.mp isRead
    obtain rfl := Option.some.inj isSame
    exact beq_iff_eq.mp isNamed

/-- A node with the short name that stands before all others is the one that is taken. -/
theorem parents_definitionOf_cons {node : Element} {rest : List Element} {shortName : String}
    (fullName : String) (areNodes : ∀ inner ∈ node :: rest, inner.name = "node")
    (distinct : HasDistinctIds (node :: rest)) (isShort : nodeLabel node = shortName) :
    parents (definitionOf (node :: rest)) fullName shortName =
      referredLabels (node :: rest) node := by
  have hasNodes : (graphOf (node :: rest)).children "node" = [] ++ node :: rest :=
    children_graphOf areNodes
  have isFirst : parents (definitionOf (node :: rest)) fullName shortName =
      referredLabels ((graphOf (node :: rest)).children "node") node :=
    parents_eq_of_first rfl (hasNodes ▸ distinct) hasNodes (.inr isShort)
      fun _ isEarly => absurd isEarly List.not_mem_nil
  rw [isFirst, hasNodes, List.nil_append]

/-! ### Main statement -/

/-- The node at which the nodes of a graph part is the only one with a name. -/
structure IsOwnNode (nodes : List Element) (name : String) (front : List Element) (own : Element)
    (behind : List Element) : Prop where
  whole : nodes = front ++ own :: behind
  isLabelled : nodeLabel own = name
  isOnly : ∀ node ∈ front ++ behind, nodeLabel node ≠ name

theorem IsOwnNode.eq_own {nodes front behind : List Element} {own node : Element} {name : String}
    (isOwn : IsOwnNode nodes name front own behind) (isIn : node ∈ nodes)
    (isNamed : nodeLabel node = name) : node = own := by
  rw [isOwn.whole] at isIn
  rcases List.mem_append.mp isIn with isFront | isBehind
  · exact absurd isNamed (isOwn.isOnly node (List.mem_append_left _ isFront))
  · rcases List.mem_cons.mp isBehind with isSame | isBehind
    · exact isSame
    · exact absurd isNamed (isOwn.isOnly node (List.mem_append_right _ isBehind))

/-- **A node with the short name in front of the own one is taken for it.** The parents of a class
are those of its own node if no node in front of that one has the short name of the class, and else
those of the first such node. They stay those of its own node in every order of the nodes exactly if
no node with the short name refers to other labels. -/
theorem parents_eq_referredLabels {definition graph own : Element} {front behind : List Element}
    {fullName shortName : String}
    (hasGraph : definition.child? "inheritancegraph" = some graph)
    (distinct : HasDistinctIds (graph.children "node"))
    (isOwn : IsOwnNode (graph.children "node") fullName front own behind) :
    ((∀ node ∈ front, nodeLabel node ≠ shortName) →
      parents definition fullName shortName = referredLabels (graph.children "node") own) ∧
    (∀ early first late, front = early ++ first :: late →
      (∀ node ∈ early, nodeLabel node ≠ shortName) → nodeLabel first = shortName →
        parents definition fullName shortName =
          referredLabels (graph.children "node") first) ∧
    ((∀ other otherGraph, other.child? "inheritancegraph" = some otherGraph →
        (otherGraph.children "node").Perm (graph.children "node") →
          parents other fullName shortName = referredLabels (graph.children "node") own) ↔
      ∀ node ∈ graph.children "node", nodeLabel node = shortName →
        referredLabels (graph.children "node") node =
          referredLabels (graph.children "node") own) := by
  have isOnlyFront : ∀ node ∈ front, nodeLabel node ≠ fullName := fun node isFront =>
    isOwn.isOnly node (List.mem_append_left _ isFront)
  refine ⟨fun noShort => ?_, fun early first late isFront noShort isShort => ?_,
    fun everyOrder node isIn isShort => ?_, fun sameParents other otherGraph hasOther same => ?_⟩
  · exact parents_eq_of_first hasGraph distinct isOwn.whole (.inl isOwn.isLabelled)
      fun node isFront => ⟨isOnlyFront node isFront, noShort node isFront⟩
  · have whole : graph.children "node" = early ++ first :: (late ++ own :: behind) := by
      rw [isOwn.whole, isFront, List.append_assoc, List.cons_append]
    refine parents_eq_of_first hasGraph distinct whole (.inr isShort) fun node isEarly =>
      ⟨isOnlyFront node ?_, noShort node isEarly⟩
    rw [isFront]
    exact List.mem_append_left _ isEarly
  · -- With the node moved to the start, it is the one that is taken.
    obtain ⟨early, late, isSplit⟩ := List.append_of_mem isIn
    have moved : (node :: (early ++ late)).Perm (graph.children "node") :=
      isSplit ▸ List.perm_middle.symm
    have areNodes : ∀ inner ∈ node :: (early ++ late), inner.name = "node" :=
      fun inner isInner => name_of_mem_children (moved.subset isInner)
    rw [← distinct.referredLabels_perm moved node,
      ← parents_definitionOf_cons fullName areNodes (distinct.perm moved) isShort]
    refine everyOrder _ _ rfl ?_
    rw [children_graphOf areNodes]
    exact moved
  · have distinctOther := distinct.perm same
    have isIn : own ∈ otherGraph.children "node" :=
      same.mem_iff.mpr (isOwn.whole ▸ List.mem_append_right _ (List.mem_cons_self ..))
    obtain ⟨hit, isHit, hasName, isParents⟩ :=
      exists_parents_eq shortName hasOther distinctOther isIn isOwn.isLabelled
    rw [isParents, distinct.referredLabels_perm same]
    rcases hasName with isFull | isShort
    · rw [isOwn.eq_own (same.mem_iff.mp isHit) isFull]
    · exact sameParents hit (same.mem_iff.mp isHit) isShort

/-- A node with an id, a label and edges to some ids. -/
def nodeOf (id label : String) (targets : List String) : Element :=
  .mk "node" [("id", id)] (.element (.mk "label" [] [.text label.toList]) ::
    targets.map fun target => .element (.mk "childnode" [("refid", target)] []))

section Samples

/-- A class with one parent that has a name, one without a name and one that is missing. -/
def buttonNode : Element := nodeOf "1" "ui::Button" ["3", "4", "5"]

/-- A class with the short name of the first one. -/
def otherButtonNode : Element := nodeOf "2" "Button" []

/-- The parents of the first class. -/
def parentNodes : List Element := [nodeOf "3" "Control" [], nodeOf "4" "" []]

/-- Behind the own node, a node with the short name takes no parents away. -/
theorem parents_eq_referredLabels_behind :
    HasDistinctIds (parentNodes ++ [buttonNode, otherButtonNode]) ∧
      IsOwnNode (parentNodes ++ [buttonNode, otherButtonNode]) "ui::Button" parentNodes buttonNode
        [otherButtonNode] ∧
      parents (definitionOf (parentNodes ++ [buttonNode, otherButtonNode])) "ui::Button" "Button" =
        referredLabels (parentNodes ++ [buttonNode, otherButtonNode]) buttonNode ∧
      referredLabels (parentNodes ++ [buttonNode, otherButtonNode]) buttonNode = ["Control"] := by
  have distinct : HasDistinctIds (parentNodes ++ [buttonNode, otherButtonNode]) := by decide
  have isOwn : IsOwnNode (parentNodes ++ [buttonNode, otherButtonNode]) "ui::Button" parentNodes
      buttonNode [otherButtonNode] :=
    ⟨rfl, by decide, by decide⟩
  have hasNodes : (graphOf (parentNodes ++ [buttonNode, otherButtonNode])).children "node" =
      parentNodes ++ [buttonNode, otherButtonNode] := rfl
  have ownParents :
      parents (definitionOf (parentNodes ++ [buttonNode, otherButtonNode])) "ui::Button" "Button" =
        referredLabels ((graphOf (parentNodes ++ [buttonNode, otherButtonNode])).children "node")
          buttonNode :=
    (parents_eq_referredLabels rfl (hasNodes ▸ distinct) (hasNodes ▸ isOwn)).1 (by decide)
  exact ⟨distinct, isOwn, hasNodes ▸ ownParents, by decide⟩

/-- In front of the own node, a node with the short name is taken for it. -/
theorem parents_ne_referredLabels_in_front :
    HasDistinctIds (otherButtonNode :: buttonNode :: parentNodes) ∧
      IsOwnNode (otherButtonNode :: buttonNode :: parentNodes) "ui::Button" [otherButtonNode]
        buttonNode parentNodes ∧
      referredLabels (otherButtonNode :: buttonNode :: parentNodes) buttonNode = ["Control"] ∧
      parents (definitionOf (otherButtonNode :: buttonNode :: parentNodes)) "ui::Button" "Button" =
        [] :=
  ⟨by decide, ⟨rfl, by decide, by decide⟩, by decide, by decide⟩

end Samples

end Bindery.Reference
