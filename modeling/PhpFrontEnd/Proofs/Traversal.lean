import Mathlib.Data.List.Basic
import PhpFrontEnd.Tree.Transform
import PhpFrontEnd.Tree.Visit

/-!
# Walks over trees

Visitors and transformers each have a walk over the tree that is written out for every kind of node.
Here both are compared with the children of a node (`Node.children`), which are told apart from any
walk. A place in a tree is the list of the children to go to, so the order of the source is the
lexicographic order of places: a node comes before what is below it, and what is below one child
before what is below the next.

A visitor that notes every node and walks on, except below nodes of some kinds, notes each node that
is not below such a node, once and in the order of the source. A transformer with the same handlers
notes the same nodes and gives the tree back (`Node.visits_inOrder`).
-/

namespace PhpFrontEnd

/-! ## Induction over nodes -/

/-- The expressions in an expression are smaller. -/
theorem Expression.sizeOf_lt_of_mem_children {e child : Expression} (h : child ∈ e.children) :
    sizeOf child < sizeOf e := by
  cases e with
  | concat info parts | call info function parts =>
    have smaller : sizeOf child < sizeOf parts := List.sizeOf_lt_of_mem h
    simp only [concat.sizeOf_spec, call.sizeOf_spec]
    omega
  | unary info operator operand | count info up after operand =>
    obtain rfl := List.mem_singleton.1 h
    simp only [unary.sizeOf_spec, count.sizeOf_spec]
    omega
  | binary info operator a b | assign info operator a b | assignRef info a b =>
    simp only [binary.sizeOf_spec, assign.sizeOf_spec, assignRef.sizeOf_spec]
    obtain rfl | rfl := by simpa [children] using h
    · omega
    · omega
  | _ => cases h

namespace Node

/-- The nodes below a node are smaller. -/
theorem sizeOf_lt_of_mem_children {node child : Node} (h : child ∈ node.children) :
    sizeOf child < sizeOf node := by
  match node with
  | .program ⟨info, body⟩ | .statement (.namespaceDecl info _ _ body)
  | .statement (.block info body) =>
    obtain ⟨s, mem, rfl⟩ := List.mem_map.1 h
    have smaller : sizeOf s < sizeOf body := List.sizeOf_lt_of_mem mem
    simp only [program.sizeOf_spec, Program.mk.sizeOf_spec, statement.sizeOf_spec,
      Statement.namespaceDecl.sizeOf_spec, Statement.block.sizeOf_spec]
    omega
  | .statement (.constants info decls) =>
    obtain ⟨c, mem, rfl⟩ := List.mem_map.1 h
    have smaller := List.sizeOf_lt_of_mem mem
    simp only [statement.sizeOf_spec, Statement.constants.sizeOf_spec, constant.sizeOf_spec]
    omega
  | .statement (.echo info parameters) =>
    obtain ⟨e, mem, rfl⟩ := List.mem_map.1 h
    have smaller := List.sizeOf_lt_of_mem mem
    simp only [statement.sizeOf_spec, Statement.echo.sizeOf_spec, expression.sizeOf_spec]
    omega
  | .statement (.expression info value) =>
    obtain rfl := List.mem_singleton.1 h
    simp only [statement.sizeOf_spec, Statement.expression.sizeOf_spec, expression.sizeOf_spec]
    omega
  | .constant ⟨info, name, conditional, initializer⟩ =>
    obtain rfl := List.mem_singleton.1 h
    simp only [constant.sizeOf_spec, ConstantDecl.mk.sizeOf_spec, expression.sizeOf_spec]
    omega
  | .expression e =>
    obtain ⟨child, mem, rfl⟩ := List.mem_map.1 h
    have smaller := Expression.sizeOf_lt_of_mem_children mem
    simp only [expression.sizeOf_spec]
    omega

/-- What holds of a node if it holds of its children holds of every node. -/
@[elab_as_elim]
theorem induction {motive : Node → Prop}
    (step : ∀ node, (∀ child ∈ node.children, motive child) → motive node) (node : Node) :
    motive node :=
  step node fun child _ => induction step child
termination_by node
decreasing_by exact sizeOf_lt_of_mem_children ‹_›

/-! ## Places -/

/-- The node at a place. A place says which child to go to, from a node on downwards. -/
def at? : Node → List Nat → Option Node
  | node, [] => some node
  | node, i :: place => node.children[i]?.bind (·.at? place)

/-- A place in a tree that is not below a node of the kinds to skip. -/
def Reached (skip : NodeKind → Bool) (root : Node) (place : List Nat) : Prop :=
  (root.at? place).isSome ∧ ∀ above ancestor, above <+: place → above ≠ place →
    root.at? above = some ancestor → skip ancestor.kind = false

/-- The nodes at the places that are wanted, each once and in the order of the source. -/
def InOrder (root : Node) (wanted : List Nat → Prop) (nodes : List Node) : Prop :=
  ∃ places : List (List Nat), places.Pairwise (· < ·) ∧ (∀ place, place ∈ places ↔ wanted place) ∧
    places.map root.at? = nodes.map some

/-- The nodes that a walk comes to, if it does not go below nodes of the kinds to skip. -/
def reachable (skip : NodeKind → Bool) (node : Node) : List Node :=
  node :: if skip node.kind then [] else
    node.children.attach.flatMap fun ⟨child, _⟩ => child.reachable skip
termination_by node
decreasing_by exact sizeOf_lt_of_mem_children ‹_›

/-- The places of these nodes. -/
def places (skip : NodeKind → Bool) (node : Node) : List (List Nat) :=
  [] :: if skip node.kind then [] else
    node.children.zipIdx.attach.flatMap fun ⟨(child, i), _⟩ => (child.places skip).map (i :: ·)
termination_by node
decreasing_by exact sizeOf_lt_of_mem_children (List.fst_mem_of_mem_zipIdx ‹_›)

variable {skip : NodeKind → Bool}

/-- A walk comes to a node and then to what is reachable from its children, unless they are
skipped. -/
theorem reachable_eq (skip : NodeKind → Bool) (node : Node) : node.reachable skip =
    node :: if skip node.kind then [] else node.children.flatMap (·.reachable skip) := by
  rw [reachable, List.flatMap_subtype fun _ _ => rfl, List.unattach_attach]

theorem places_eq (skip : NodeKind → Bool) (node : Node) : node.places skip =
    [] :: if skip node.kind then [] else
      node.children.zipIdx.flatMap fun (child, i) => (child.places skip).map (i :: ·) := by
  rw [places, List.flatMap_subtype fun _ _ => rfl, List.unattach_attach]

/-- Of what is below a node, that is reached which is reached from one of its children. -/
theorem reached_cons_iff {root : Node} {i : Nat} {place : List Nat} :
    root.Reached skip (i :: place) ↔ skip root.kind = false ∧
      ∃ child, root.children[i]? = some child ∧ child.Reached skip place := by
  constructor
  · rintro ⟨isSome, free⟩
    obtain ⟨child, eq⟩ : ∃ child, root.children[i]? = some child := by
      refine Option.isSome_iff_exists.1 ?_
      rcases child : root.children[i]? with _ | _
      · rw [at?, child] at isSome
        cases isSome
      · rfl
    refine ⟨free [] root List.nil_prefix nofun rfl, child, eq, ?_, ?_⟩
    · rwa [at?, eq] at isSome
    · intro above ancestor front ne found
      refine free (i :: above) ancestor (List.cons_prefix_cons.2 ⟨rfl, front⟩) ?_ ?_
      · exact fun same => ne (List.cons.inj same).2
      · rw [at?, eq]
        exact found
  · rintro ⟨kind, child, eq, isSome, free⟩
    refine ⟨by rw [at?, eq]; exact isSome, fun above ancestor front ne found => ?_⟩
    rcases List.prefix_cons_iff.1 front with rfl | ⟨inner, rfl, within⟩
    · obtain rfl := Option.some.inj found
      exact kind
    · rw [at?, eq] at found
      exact free inner ancestor within (fun same => ne (congrArg (i :: ·) same)) found

/-- The places of a walk are those that it reaches. -/
theorem mem_places {root : Node} {place : List Nat} :
    place ∈ root.places skip ↔ root.Reached skip place := by
  induction root using induction generalizing place with
  | step root ih =>
    rw [places_eq]
    cases place with
    | nil =>
      refine iff_of_true List.mem_cons_self ⟨rfl, fun above ancestor front ne => ?_⟩
      exact absurd (List.prefix_nil.1 front) ne
    | cons i place =>
      rw [reached_cons_iff, List.mem_cons, or_iff_right nofun]
      split
      · rename_i skipped
        exact iff_of_false List.not_mem_nil fun h => Bool.false_ne_true (h.1.symm.trans skipped)
      · rename_i walked
        rw [List.mem_flatMap]
        constructor
        · rintro ⟨⟨child, j⟩, mem, inner⟩
          obtain ⟨place', mem', eq⟩ := List.mem_map.1 inner
          obtain ⟨rfl, rfl⟩ := List.cons.inj eq
          exact ⟨by simpa using walked, child, List.mem_zipIdx_iff_getElem?.1 mem,
            (ih child (List.fst_mem_of_mem_zipIdx mem)).1 mem'⟩
        · rintro ⟨-, child, found, reached⟩
          refine ⟨(child, i), List.mem_zipIdx_iff_getElem?.2 found, ?_⟩
          exact List.mem_map.2 ⟨place, (ih child (List.mem_of_getElem? found)).2 reached, rfl⟩

theorem pairwise_zipIdx (nodes : List Node) :
    nodes.zipIdx.Pairwise fun a b => a.2 < b.2 := by
  rw [← List.pairwise_map, List.zipIdx_map_snd]
  exact List.pairwise_lt_range' 1

/-- Places are in the order of the source, and none comes twice. -/
theorem pairwise_places (skip : NodeKind → Bool) (root : Node) :
    (root.places skip).Pairwise (· < ·) := by
  induction root using induction with
  | step root ih =>
    rw [places_eq, List.pairwise_cons]
    constructor
    · intro place mem
      split at mem
      · cases mem
      · obtain ⟨⟨child, i⟩, -, inner⟩ := List.mem_flatMap.1 mem
        obtain ⟨place, -, rfl⟩ := List.mem_map.1 inner
        exact List.nil_lt_cons i place
    · split
      · exact List.Pairwise.nil
      · refine List.pairwise_flatMap.2 ⟨fun (child, i) mem => ?_, ?_⟩
        · refine List.pairwise_map.2 ((ih child (List.fst_mem_of_mem_zipIdx mem)).imp fun lt => ?_)
          exact List.cons_lt_cons_iff.2 (.inr ⟨rfl, lt⟩)
        · refine (pairwise_zipIdx root.children).imp fun {a b} lt place mem place' mem' => ?_
          obtain ⟨inner, -, rfl⟩ := List.mem_map.1 mem
          obtain ⟨inner', -, rfl⟩ := List.mem_map.1 mem'
          exact List.cons_lt_cons_iff.2 (.inl lt)

/-- At these places are the nodes of the walk, in the same order. -/
theorem map_at?_places (skip : NodeKind → Bool) (root : Node) :
    (root.places skip).map root.at? = (root.reachable skip).map some := by
  induction root using induction with
  | step root ih =>
    rw [places_eq, reachable_eq, List.map_cons, List.map_cons]
    congr 1
    split
    · rfl
    · rw [List.map_flatMap, List.map_flatMap]
      conv_rhs => rw [← List.zipIdx_map_fst 0 root.children, List.flatMap_map]
      refine List.flatMap_congr fun (child, i) mem => ?_
      rw [List.map_map, ← ih child (List.fst_mem_of_mem_zipIdx mem)]
      refine List.map_congr_left fun place _ => ?_
      change root.children[i]?.bind (·.at? place) = child.at? place
      rw [List.mem_zipIdx_iff_getElem?.1 mem]
      rfl

/-- The walk that skips what is below nodes of some kinds comes to each place that is not below
such a node, once and in the order of the source. -/
theorem reachable_inOrder (skip : NodeKind → Bool) (root : Node) :
    root.InOrder (root.Reached skip) (root.reachable skip) :=
  ⟨root.places skip, root.pairwise_places skip, fun _ => mem_places, root.map_at?_places skip⟩

end Node

/-! ## The two walks -/

section Walks

variable {m : Type → Type} [Monad m]

namespace Visitor

variable (visitor : Visitor m)

/-- Visits a node. -/
def visitNode : Node → m Unit
  | .program p => visitor.visit p
  | .statement s => visitor.visitStatement s
  | .constant c => visitor.visitConstant c
  | .expression e => visitor.visitExpression e

/-- The handler for all statements or all expressions, for nodes that have one. -/
def announce : Node → m Unit → m Unit
  | .statement s => visitor.statement s
  | .expression e => visitor.expression e
  | _ => id

/-- Expressions are visited one after the other. -/
theorem visitExpressions_eq (es : List Expression) :
    visitor.visitExpressions es = (es.map Node.expression).forM visitor.visitNode := by
  induction es with
  | nil => rw [visitExpressions]; rfl
  | cons e es ih => rw [visitExpressions, ih]; rfl

theorem visitConstants_eq (cs : List ConstantDecl) :
    visitor.visitConstants cs = (cs.map Node.constant).forM visitor.visitNode := by
  induction cs with
  | nil => rw [visitConstants]; rfl
  | cons c cs ih => rw [visitConstants, ih]; rfl

theorem visitStatements_eq (ss : List Statement) :
    visitor.visitStatements ss = (ss.map Node.statement).forM visitor.visitNode := by
  induction ss with
  | nil => rw [visitStatements]; rfl
  | cons s ss ih => rw [visitStatements, ih]; rfl

/-- Whatever the kind of a node, its walk goes to its children, one after the other. -/
theorem visitNode_eq [LawfulMonad m] (node : Node) : visitor.visitNode node =
    visitor.announce node (visitor.node node (node.children.forM visitor.visitNode)) := by
  match node with
  | .program p => rw [visitNode, visit, visitStatements_eq]; rfl
  | .constant c =>
    rw [visitNode, visitConstant]
    simp [Node.children, announce, visitNode]
  | .statement s =>
    rw [visitNode]
    cases s <;> rw [visitStatement] <;>
      simp [Node.children, announce, visitStatements_eq, visitConstants_eq, visitExpressions_eq,
        visitNode]
  | .expression e =>
    rw [visitNode]
    cases e <;> rw [visitExpression] <;>
      simp [Node.children, Expression.children, announce, visitExpressions_eq, visitNode]

/-- Without handlers for all statements or all expressions only the handlers for the nodes count. -/
theorem visitNode_of_plain [LawfulMonad m] {handler : Node → m Unit → m Unit} (node : Node) :
    ({ node := handler } : Visitor m).visitNode node =
      handler node (node.children.forM ({ node := handler } : Visitor m).visitNode) := by
  rw [visitNode_eq]
  cases node <;> rfl

end Visitor

/-! ## Noting what is walked through -/

/-- Notes a node and walks on. Below a node of a kind to skip there is no walk, and what is there
stays as it is. -/
def Node.noteThen {α : Type} (note : Node → m Unit) (skip : NodeKind → Bool) (node : Node)
    (same : α) (walk : m α) : m α := do
  note node
  if skip node.kind then return same else walk

/-- A visitor that notes every node it comes to. -/
def Visitor.noting (note : Node → m Unit) (skip : NodeKind → Bool) : Visitor m where
  node node walk := node.noteThen note skip () walk

/-- A transformer that notes every node it comes to, and changes none. -/
def Transformer.noting (note : Node → m Unit) (skip : NodeKind → Bool) : Transformer m where
  program p walk := (Node.program p).noteThen note skip p walk
  statementNode s walk := (Node.statement s).noteThen note skip s walk
  constant c walk := (Node.constant c).noteThen note skip c walk
  expressionNode e walk := (Node.expression e).noteThen note skip e walk

/-- Transforms a node. -/
def Transformer.transformNode (transformer : Transformer m) : Node → m Node
  | .program p => .program <$> transformer.transform p
  | .statement s => .statement <$> transformer.transformStatement s
  | .constant c => .constant <$> transformer.transformConstant c
  | .expression e => .expression <$> transformer.transformExpression e

variable [LawfulMonad m] (note : Node → m Unit) (skip : NodeKind → Bool)

/-- A walk that only gives a node back is one that gives nothing, and then the node. -/
theorem Node.noteThen_eq {α : Type} (node : Node) (same : α) (walk : m Unit) :
    (node.noteThen note skip same do walk; return same) =
      (do node.noteThen note skip () walk; return same) := by
  unfold noteThen
  split <;> simp

namespace Transformer

mutual

/-- A transformer that only notes goes where the visitor goes, and gives the expression back. -/
theorem transformExpression_noting (e : Expression) :
    (noting note skip).transformExpression e =
      (do (Visitor.noting note skip).visitExpression e; return e) := by
  rw [transformExpression.eq_def, Visitor.visitExpression.eq_def]
  change Node.noteThen _ _ _ _ _ = (do Node.noteThen _ _ _ _ _; return e)
  rw [← Node.noteThen_eq]
  congr 1
  match e with
  | .concat info parts => simp [transformExpressions_noting parts]
  | .call info function arguments => simp [transformExpressions_noting arguments]
  | .unary info operator operand => simp [transformExpression_noting operand]
  | .count info up after operand => simp [transformExpression_noting operand]
  | .binary info operator left right =>
    simp [transformExpression_noting left, transformExpression_noting right]
  | .assign info operator target value =>
    simp [transformExpression_noting target, transformExpression_noting value]
  | .assignRef info target value =>
    simp [transformExpression_noting target, transformExpression_noting value]
  | .integer .. | .double .. | .string .. | .binaryString .. | .bool .. | .null .. | .variable .. =>
    simp

theorem transformExpressions_noting (es : List Expression) :
    (noting note skip).transformExpressions es =
      (do (Visitor.noting note skip).visitExpressions es; return es) := by
  match es with
  | [] => simp [transformExpressions, Visitor.visitExpressions]
  | e :: es =>
    rw [transformExpressions, Visitor.visitExpressions, transformExpression_noting e,
      transformExpressions_noting es]
    simp

end

/-- The same for a constant, and its initializer. -/
theorem transformConstant_noting (c : ConstantDecl) :
    (noting note skip).transformConstant c =
      (do (Visitor.noting note skip).visitConstant c; return c) := by
  rw [transformConstant, Visitor.visitConstant, transformExpression_noting]
  change Node.noteThen _ _ _ _ _ = (do Node.noteThen _ _ _ _ _; return c)
  rw [← Node.noteThen_eq]
  simp

theorem transformConstants_noting (cs : List ConstantDecl) :
    (noting note skip).transformConstants cs =
      (do (Visitor.noting note skip).visitConstants cs; return cs) := by
  induction cs with
  | nil => simp [transformConstants, Visitor.visitConstants]
  | cons c cs ih =>
    rw [transformConstants, Visitor.visitConstants, transformConstant_noting, ih]
    simp

mutual

/-- The same for a statement, and whatever stands in it. -/
theorem transformStatement_noting (s : Statement) :
    (noting note skip).transformStatement s =
      (do (Visitor.noting note skip).visitStatement s; return s) := by
  rw [transformStatement.eq_def, Visitor.visitStatement.eq_def]
  change Node.noteThen _ _ _ _ _ = (do Node.noteThen _ _ _ _ _; return s)
  rw [← Node.noteThen_eq]
  congr 1
  match s with
  | .namespaceDecl info name simple body => simp [transformStatements_noting body]
  | .block info body => simp [transformStatements_noting body]
  | .constants info decls => simp [transformConstants_noting]
  | .echo info parameters => simp [transformExpressions_noting]
  | .expression info value => simp [transformExpression_noting]

theorem transformStatements_noting (ss : List Statement) :
    (noting note skip).transformStatements ss =
      (do (Visitor.noting note skip).visitStatements ss; return ss) := by
  match ss with
  | [] => simp [transformStatements, Visitor.visitStatements]
  | s :: ss =>
    rw [transformStatements, Visitor.visitStatements, transformStatement_noting s,
      transformStatements_noting ss]
    simp

end

/-- With handlers that change nothing, a transformer does what a visitor does and gives the tree
back. -/
theorem transformNode_noting (node : Node) :
    (noting note skip).transformNode node =
      (do (Visitor.noting note skip).visitNode node; return node) := by
  match node with
  | .program p =>
    rw [transformNode, transform, Visitor.visitNode, Visitor.visit, transformStatements_noting]
    change Node.program <$> Node.noteThen _ _ _ _ _ = (do Node.noteThen _ _ _ _ _; return _)
    have back := Node.noteThen_eq note skip (.program p) p
      ((Visitor.noting note skip).visitStatements p.statements)
    rw [bind_pure_comp] at back
    simp [back]
  | .statement s => simp [transformNode, Visitor.visitNode, transformStatement_noting]
  | .constant c => simp [transformNode, Visitor.visitNode, transformConstant_noting]
  | .expression e => simp [transformNode, Visitor.visitNode, transformExpression_noting]

end Transformer

end Walks

/-! ## The order of a walk -/

/-- What a visitor does to a state at some nodes, one after the other. -/
theorem forM_eq_foldl {σ : Type} {visit : Node → StateM σ Unit} {after : σ → Node → σ}
    (nodes : List Node) (h : ∀ node ∈ nodes, ∀ state, visit node state = ((), after state node))
    (state : σ) : nodes.forM visit state = ((), nodes.foldl after state) := by
  induction nodes generalizing state with
  | nil => rfl
  | cons node nodes ih =>
    have first := h node List.mem_cons_self state
    have rest := ih (fun node mem => h node (List.mem_cons_of_mem _ mem)) (after state node)
    change (visit node >>= fun _ => nodes.forM visit) state = _
    rw [List.foldl_cons, ← rest]
    change (nodes.forM visit) (visit node state).2 = _
    rw [first]

namespace Node

/-- Puts a node behind those that have been noted. -/
def record (node : Node) : StateM (List Node) Unit := modify (· ++ [node])

/-- A visitor that records what it comes to has the reachable nodes in the end. -/
theorem visitNode_record (skip : NodeKind → Bool) (node : Node) (noted : List Node) :
    (Visitor.noting record skip).visitNode node noted = ((), noted ++ node.reachable skip) := by
  induction node using induction generalizing noted with
  | step node ih =>
    rw [Visitor.noting, Visitor.visitNode_of_plain, reachable_eq, List.append_cons]
    change (if skip node.kind then pure ()
      else node.children.forM (Visitor.noting record skip).visitNode : StateM _ Unit)
        (noted ++ [node]) = _
    split
    · rw [List.append_nil]
      rfl
    · rw [forM_eq_foldl node.children ih, List.foldl_append_eq_append]
      rfl

/-- **Visitors and transformers walk in the order of the source.** A visitor that notes every node
and walks on, except from nodes of the kinds to skip, notes each node that is not below a node of
such a kind, once and in the order of the source. A transformer with the same handlers notes the
same and gives the tree back. If nothing is skipped, that is every node. -/
theorem visits_inOrder (skip : NodeKind → Bool) (root : Node) :
    let visited := ((Visitor.noting record skip).visitNode root []).2
    root.InOrder (root.Reached skip) visited ∧
      (Transformer.noting record skip).transformNode root [] = (root, visited) ∧
      root.InOrder (fun place => (root.at? place).isSome)
        ((Visitor.noting record fun _ => false).visitNode root []).2 := by
  intro visited
  refine ⟨?_, ?_, ?_⟩
  · simp only [visited, visitNode_record]
    exact root.reachable_inOrder skip
  · rw [Transformer.transformNode_noting]
    rfl
  · rw [visitNode_record]
    obtain ⟨places, ordered, mem, found⟩ := root.reachable_inOrder fun _ => false
    refine ⟨places, ordered, fun place => (mem place).trans ?_, found⟩
    exact ⟨And.left, fun h => ⟨h, fun _ _ _ _ _ => rfl⟩⟩

end Node

end PhpFrontEnd
