import BraceScript.Node

/-! # Parts — what a program is made of

    The parts of a program are the nodes of its tree, each as often as it occurs.  A part belongs to
    the innermost routine around it; what a declaration of a routine has inside belongs to that
    routine and not to the one around it. -/

namespace BraceScript.Node

theorem sizeOf_lt_of_mem_children {node part : Node} (h : part ∈ node.children) :
    sizeOf part < sizeOf node := by
  have hlist : ∀ {nodes : List Node}, part ∈ nodes → sizeOf part < sizeOf nodes :=
    List.sizeOf_lt_of_mem
  cases node <;>
    simp only [children, List.mem_cons, List.mem_append, List.not_mem_nil, or_false] at h <;>
    simp only [incomplete.sizeOf_spec, program.sizeOf_spec, block.sizeOf_spec,
      variableDecl.sizeOf_spec, constantDecl.sizeOf_spec, assignment.sizeOf_spec,
      give.sizeOf_spec, display.sizeOf_spec, elif.sizeOf_spec, otherwise.sizeOf_spec,
      ifElse.sizeOf_spec, whileLoop.sizeOf_spec, forLoop.sizeOf_spec, parameter.sizeOf_spec,
      functionDecl.sizeOf_spec, procedureDecl.sizeOf_spec, functionCall.sizeOf_spec,
      procedureCall.sizeOf_spec, binary.sizeOf_spec, unary.sizeOf_spec, truth.sizeOf_spec,
      logical.sizeOf_spec, negation.sizeOf_spec, comparison.sizeOf_spec] <;>
    grind

/-- What holds of a node if it holds of its parts holds of every node. -/
theorem children_induction {motive : Node → Prop}
    (h : ∀ node, (∀ child ∈ node.children, motive child) → motive node) (node : Node) :
    motive node :=
  h node fun child _ => children_induction h child
termination_by node
decreasing_by exact sizeOf_lt_of_mem_children ‹_›

/-- A node with its parts, their parts, and so on. -/
def parts (node : Node) : List Node :=
  node :: node.children.attach.flatMap fun ⟨part, _⟩ => part.parts
termination_by node
decreasing_by exact sizeOf_lt_of_mem_children ‹_›

theorem mem_parts {node part : Node} :
    part ∈ node.parts ↔ part = node ∨ ∃ child ∈ node.children, part ∈ child.parts := by
  rw [parts, List.mem_cons, List.mem_flatMap]
  simp

theorem self_mem_parts (node : Node) : node ∈ node.parts := mem_parts.mpr (.inl rfl)

/-- The parts of a part of a program are parts of the program. -/
theorem mem_parts_of_mem_children {tree node part : Node} (h : node ∈ tree.parts)
    (hpart : part ∈ node.children) : part ∈ tree.parts := by
  rcases mem_parts.mp h with rfl | ⟨child, hchild, h⟩
  · exact mem_parts.mpr (.inr ⟨part, hpart, self_mem_parts part⟩)
  · exact mem_parts.mpr (.inr ⟨child, hchild, mem_parts_of_mem_children h hpart⟩)
termination_by tree
decreasing_by exact sizeOf_lt_of_mem_children hchild

/-- The parts that stand for themselves: neither names nor types nor parameters of the node. -/
def proper : Node → List Node
  | .variableDecl _ _ values | .constantDecl _ _ values => values
  | .assignment _ value => [value]
  | .functionDecl _ _ _ body | .procedureDecl _ _ body => [body]
  | .functionCall _ arguments | .procedureCall _ arguments => arguments
  | .parameter _ _ => []
  | node => node.children

theorem proper_subset (node : Node) : node.proper ⊆ node.children := by
  cases node <;> simp [proper, children]

/-! ## Parts of one routine -/

/-- Whether a node declares a routine. -/
def declaresRoutine : Node → Bool
  | .functionDecl _ _ _ _ | .procedureDecl _ _ _ => true
  | _ => false

/-- A node with the parts of it that belong to the same routine. -/
def ownParts (node : Node) : List Node :=
  node :: if node.declaresRoutine then []
    else node.children.attach.flatMap fun ⟨part, _⟩ => part.ownParts
termination_by node
decreasing_by exact sizeOf_lt_of_mem_children ‹_›

theorem mem_ownParts {node part : Node} :
    part ∈ node.ownParts ↔
      part = node ∨
        node.declaresRoutine = false ∧ ∃ child ∈ node.children, part ∈ child.ownParts := by
  rw [ownParts, List.mem_cons]
  cases node.declaresRoutine <;> simp

theorem self_mem_ownParts (node : Node) : node ∈ node.ownParts := mem_ownParts.mpr (.inl rfl)

theorem mem_ownParts_of_mem_children {node child part : Node} (h : node.declaresRoutine = false)
    (hchild : child ∈ node.children) (hpart : part ∈ child.ownParts) : part ∈ node.ownParts :=
  mem_ownParts.mpr (.inr ⟨h, child, hchild, hpart⟩)

theorem ownParts_subset (node : Node) : node.ownParts ⊆ node.parts := by
  induction node using children_induction with
  | h node ih =>
      intro part hpart
      rcases mem_ownParts.mp hpart with rfl | ⟨-, child, hchild, hpart⟩
      · exact self_mem_parts part
      · exact mem_parts.mpr (.inr ⟨child, hchild, ih child hchild hpart⟩)

end BraceScript.Node
