import Calculator.Proofs.Expr.Shape

/-!
# The nodes of an expression

The nodes of an expression in the order in which it is evaluated: those of the left operand, those of
the right one, then the operator. `Expr.First` is the node that comes first in this order among those
with a property. It is found operand by operand, as an evaluation finds it.
-/

namespace Calculator.Expr

/-- The nodes of an expression in post-order. -/
def nodes : Expr → List Expr
  | .number value span => [.number value span]
  | .binary left operator right span =>
    left.nodes ++ right.nodes ++ [.binary left operator right span]

/-- The nodes are what the paths lead to. -/
theorem mem_nodes_iff {e node : Expr} : node ∈ e.nodes ↔ ∃ path, e.at? path = some node := by
  induction e with
  | number value span =>
    rw [nodes, List.mem_singleton]
    constructor
    · rintro rfl
      exact ⟨[], rfl⟩
    · rintro ⟨path, hat⟩
      cases path with
      | nil => exact (Option.some.inj hat).symm
      | cons side path => simp [at?] at hat
  | binary left operator right span ihl ihr =>
    rw [nodes, List.mem_append, List.mem_append, List.mem_singleton, ihl, ihr]
    constructor
    · rintro ((⟨path, hat⟩ | ⟨path, hat⟩) | rfl)
      · exact ⟨.left :: path, hat⟩
      · exact ⟨.right :: path, hat⟩
      · exact ⟨[], rfl⟩
    · rintro ⟨path, hat⟩
      cases path with
      | nil => exact Or.inr (Option.some.inj hat).symm
      | cons side path =>
        cases side with
        | left => exact Or.inl (Or.inl ⟨path, hat⟩)
        | right => exact Or.inl (Or.inr ⟨path, hat⟩)

/-- What holds of the nodes of a binary node holds of those of its operands and of itself. -/
theorem forall_nodes_binary {P : Expr → Prop} {left right : Expr} {operator : Operator}
    {span : Span} :
    (∀ node ∈ (binary left operator right span).nodes, P node) ↔
      (∀ node ∈ left.nodes, P node) ∧ (∀ node ∈ right.nodes, P node) ∧
        P (.binary left operator right span) := by
  rw [nodes, List.forall_mem_append, List.forall_mem_append, List.forall_mem_singleton, and_assoc]

/-- The first node in post-order with a property. -/
def First (P : Expr → Prop) (e node : Expr) : Prop :=
  ∃ before after, e.nodes = before ++ node :: after ∧ P node ∧ ∀ earlier ∈ before, ¬ P earlier

section

variable {P : Expr → Prop} {left right node : Expr} {operator : Operator} {span : Span}

theorem First.mem_nodes {e : Expr} (h : First P e node) : node ∈ e.nodes ∧ P node := by
  obtain ⟨before, after, hnodes, hnode, -⟩ := h
  rw [hnodes]
  exact ⟨by simp, hnode⟩

/-- Only one node is the first. -/
theorem First.unique {e node' : Expr} (h : First P e node) (h' : First P e node') : node = node' := by
  obtain ⟨before, after, hnodes, hnode, hbefore⟩ := h
  obtain ⟨before', after', hnodes', hnode', hbefore'⟩ := h'
  rcases List.append_eq_append_iff.mp (hnodes.symm.trans hnodes') with
    ⟨between, rfl, hrest⟩ | ⟨between, rfl, hrest⟩
  · cases between with
    | nil => exact (List.cons.inj hrest).1
    | cons other between =>
      obtain ⟨rfl, -⟩ := List.cons.inj hrest
      exact absurd hnode (hbefore' _ (by simp))
  · cases between with
    | nil => exact (List.cons.inj hrest).1.symm
    | cons other between =>
      obtain ⟨rfl, -⟩ := List.cons.inj hrest
      exact absurd hnode' (hbefore _ (by simp))

theorem First.of_left (h : First P left node) :
    First P (.binary left operator right span) node := by
  obtain ⟨before, after, hnodes, hnode, hbefore⟩ := h
  refine ⟨before, after ++ (right.nodes ++ [.binary left operator right span]), ?_, hnode, hbefore⟩
  rw [nodes, hnodes]
  simp

theorem First.of_right (hleft : ∀ earlier ∈ left.nodes, ¬ P earlier) (h : First P right node) :
    First P (.binary left operator right span) node := by
  obtain ⟨before, after, hnodes, hnode, hbefore⟩ := h
  refine ⟨left.nodes ++ before, after ++ [.binary left operator right span], ?_, hnode,
    List.forall_mem_append.mpr ⟨hleft, hbefore⟩⟩
  rw [nodes, hnodes]
  simp

theorem First.of_root (hleft : ∀ earlier ∈ left.nodes, ¬ P earlier)
    (hright : ∀ earlier ∈ right.nodes, ¬ P earlier) (h : P (.binary left operator right span)) :
    First P (.binary left operator right span) (.binary left operator right span) :=
  ⟨left.nodes ++ right.nodes, [], rfl, h, List.forall_mem_append.mpr ⟨hleft, hright⟩⟩

end

end Calculator.Expr
