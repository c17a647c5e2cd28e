import PhpFrontEnd.Proofs.Traversal
import PhpFrontEnd.Proofs.WriterProtocol

/-!
# Written trees

The events of a tree are brackets: a node starts, then come its children in the order of the source,
each with its own start and stop, and then the node stops (`Node.brackets`). Its document is built
in the same way, with the documents of the children inside that of the node (`Node.document`).

A writer is given just these brackets, whatever it does with them (`visitNode_treeWriter`). For a
builder of documents a node in brackets is one step: below the innermost open node there is one
more document, and all else is as before (`foldl_brackets`). So nothing can be wrong with the events
of a tree, and its document always comes out (`Program.written`).
-/

namespace PhpFrontEnd

namespace Node

/-! ## What is to be written -/

/-- The events of a tree, in the order of the source. -/
def brackets (node : Node) : List NodeEvent :=
  .start node.kind.name node.span node.described ::
    (node.children.attach.flatMap fun ⟨child, _⟩ => child.brackets) ++ [.stop]
termination_by node
decreasing_by exact sizeOf_lt_of_mem_children ‹_›

/-- The document of a tree. -/
def document (node : Node) : Json :=
  .object
    [("kind", .string node.kind.name),
     ("span", .object [("start", .int node.span.start), ("end", .int node.span.stop)]),
     ("properties", (PropertyValue.nested node.described).toJson),
     ("children", .array (node.children.attach.map fun ⟨child, _⟩ => child.document))]
termination_by node
decreasing_by exact sizeOf_lt_of_mem_children ‹_›

theorem brackets_eq (node : Node) : node.brackets =
    .start node.kind.name node.span node.described ::
      node.children.flatMap brackets ++ [.stop] := by
  rw [brackets, List.flatMap_subtype fun _ _ => rfl, List.unattach_attach]

/-- The object of a node holds those of its children. -/
theorem document_eq (node : Node) : node.document =
    OpenNode.toJson {
      kind := node.kind.name
      span := node.span
      properties := node.described
      children := node.children.map document } := by
  rw [document, List.map_subtype fun _ _ => rfl, List.unattach_attach]
  rfl

/-! ## What is written -/

/-- A writer takes the brackets of a node, one after the other. -/
theorem visitNode_treeWriter {σ : Type} [NodeWriter σ] (node : Node) (writer : σ) :
    (treeWriter σ).visitNode node writer = ((), node.brackets.foldl NodeWriter.add writer) := by
  induction node using induction generalizing writer with
  | step node ih =>
    let started := NodeWriter.add writer (.start node.kind.name node.span node.described)
    have children : node.children.forM (treeWriter σ).visitNode started =
        ((), (node.children.flatMap brackets).foldl NodeWriter.add started) := by
      rw [forM_eq_foldl node.children ih, List.foldl_flatMap]
    rw [treeWriter, Visitor.visitNode_of_plain, brackets_eq, List.foldl_append, List.foldl_cons]
    change (node.children.forM (treeWriter σ).visitNode >>= fun _ =>
      modify (NodeWriter.add · .stop) : StateM σ Unit) started = _
    change (modify (NodeWriter.add · .stop) : StateM σ Unit)
      (node.children.forM (treeWriter σ).visitNode started).2 = _
    rw [children]
    rfl

end Node

namespace DocumentBuilder

variable {builder : DocumentBuilder}

/-- Opens a node inside all that are open. -/
def push (builder : DocumentBuilder) (node : OpenNode) : DocumentBuilder :=
  { builder with stack := node :: builder.stack }

theorem start_eq_push {kind : String} {span : Span} {properties : List Property}
    (h : builder.stack ≠ [] ∨ builder.root = none) :
    builder.start kind span properties = builder.push { kind, span, properties } := by
  have right : (builder.stack.isEmpty && builder.root.isSome) = false := by
    rcases h with inside | first
    · rw [List.isEmpty_eq_false_iff.2 inside, Bool.false_and]
    · rw [first, Option.isSome_none, Bool.and_false]
  rw [start, right]
  rfl

/-- Nodes in brackets become children of the innermost open node, if that holds of each. -/
theorem foldl_children {node : OpenNode} (nodes : List Node)
    (h : ∀ child ∈ nodes, ∀ builder : DocumentBuilder, builder.stack ≠ [] ∨ builder.root = none →
      child.brackets.foldl add builder = builder.attach child.document) :
    (nodes.flatMap Node.brackets).foldl add (builder.push node) =
      builder.push { node with children := node.children ++ nodes.map Node.document } := by
  induction nodes generalizing node with
  | nil =>
    rw [List.map_nil, List.append_nil]
    rfl
  | cons child nodes ih =>
    obtain ⟨first, rest⟩ := List.forall_mem_cons.1 h
    -- whatever the root is, it does not matter inside a node
    have inside : (builder.push node).stack ≠ [] := List.cons_ne_nil _ _
    rw [List.flatMap_cons, List.foldl_append, first _ (.inl inside)]
    change (nodes.flatMap Node.brackets).foldl add
      (builder.push { node with children := node.children ++ [child.document] }) = _
    rw [ih rest, List.append_assoc]
    rfl

/-- A node in brackets is one step of a builder. -/
theorem foldl_brackets (node : Node) (h : builder.stack ≠ [] ∨ builder.root = none) :
    node.brackets.foldl add builder = builder.attach node.document := by
  induction node using Node.induction generalizing builder with
  | step node ih =>
    rw [Node.brackets_eq, Node.document_eq, List.foldl_append, List.foldl_cons]
    change ((node.children.flatMap Node.brackets).foldl add
      (builder.start node.kind.name node.span node.described)).stop = _
    rw [start_eq_push h, foldl_children node.children fun child mem builder => ih child mem]
    exact stop_of_cons rfl

end DocumentBuilder

/-- **Writing a tree never fails.** The events of a program are the brackets of its nodes, which are
balanced, and its document has the shape of the tree. -/
theorem Program.written (program : Program) :
    program.events = (Node.program program).brackets ∧ NodeEvent.balanced program.events ∧
      program.toJson = .ok (Node.program program).document := by
  have events : program.events = (Node.program program).brackets := by
    change ((treeWriter (Array NodeEvent)).visitNode (.program program) #[]).2.toList = _
    rw [Node.visitNode_treeWriter]
    change ((Node.program program).brackets.foldl Array.push #[]).toList = _
    simp
  have json : (DocumentBuilder.built program.events).finish =
      .ok (Node.program program).document := by
    rw [events, DocumentBuilder.built, DocumentBuilder.foldl_brackets _ (.inr rfl)]
    rfl
  -- a document comes out of balanced events alone
  have closed := DocumentBuilder.finish_eq_ok_iff.1 ⟨_, json⟩
  refine ⟨events, (NodeEvent.balanced_iff.2 closed).1, ?_⟩
  change ((treeWriter DocumentBuilder).visitNode (.program program) {}).2.finish = _
  rw [Node.visitNode_treeWriter, ← json, events]
  rfl

end PhpFrontEnd
