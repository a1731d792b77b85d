import DreamWorld.Proofs.Syntax.Layout
import Mathlib.Data.List.Perm.Basic

/-!
# The order of identifiers

A traversal reaches the identifiers of a tree as often as they are written, but not always in the
order of the source: it comes to the condition of a `do` loop before it comes to the body, which is
written before the condition.  Where one of the two has no identifiers this makes no difference, and
nothing else is out of order.
-/

namespace DreamWorld.Syntax

variable {node : Node}

/-! ## Identifiers in the source -/

def Token.identifierName? : Token → Option String
  | .identifier name => some name
  | .word _ | .literal _ | .kinds _ => none

/-- The identifiers in the source of a node, in the order in which they stand there. -/
def Node.writtenIdentifiers (node : Node) : List String :=
  node.source.filterMap Token.identifierName?

theorem filterMap_identifierName?_source (piece : Piece) :
    piece.source.filterMap Token.identifierName? =
      piece.content?.toList.flatMap (Sum.elim (fun name => [name]) Node.writtenIdentifiers) := by
  rcases piece with ⟨_ | _ | _ | _⟩ | _ <;>
    simp [Piece.source, Piece.content?, Token.identifierName?, Node.writtenIdentifiers]

/-- The identifiers of a node are itself, if it is one, and those of the nodes that it owns, in the
order in which these are written. -/
theorem Node.writtenIdentifiers_eq (node : Node) :
    node.writtenIdentifiers =
      node.identifierName?.toList ++ node.written.flatMap writtenIdentifiers := by
  have ofContents : node.writtenIdentifiers =
      (contents node.layout).flatMap (Sum.elim (fun name => [name]) writtenIdentifiers) := by
    rw [writtenIdentifiers, source_eq, List.filterMap_flatMap, contents,
      List.filterMap_eq_flatMap_toList, List.flatMap_assoc]
    exact List.flatMap_congr fun piece _ => filterMap_identifierName?_source piece
  rw [ofContents, contents_layout, List.flatMap_append, List.flatMap_map, List.flatMap_map]
  simp only [Sum.elim_inl, Sum.elim_inr, List.flatMap_singleton']

/-! ## Identifiers of a traversal -/

/-- The identifiers of a node, in the order in which a traversal reaches them. -/
def Node.reachedIdentifiers (node : Node) : List String :=
  node.names.identifiers.toList

theorem Node.reachedIdentifiers_eq (node : Node) :
    node.reachedIdentifiers =
      node.identifierName?.toList ++ node.children.flatMap reachedIdentifiers := by
  have ofOccurring (node : Node) :
      node.reachedIdentifiers = node.occurring.filterMap identifierName? := by
    simp [reachedIdentifiers, names_eq, Names.extend]
  rw [ofOccurring, occurring_eq]
  simp only [List.filterMap_eq_flatMap_toList, List.flatMap_cons, List.flatMap_assoc]
  simp only [← List.filterMap_eq_flatMap_toList, ← ofOccurring]

/-- A traversal reaches each identifier as often as it is written. -/
theorem Node.reachedIdentifiers_perm (node : Node) :
    node.reachedIdentifiers.Perm node.writtenIdentifiers := by
  induction node using Node.childInduction with
  | step node ih =>
      rw [reachedIdentifiers_eq, writtenIdentifiers_eq]
      exact (node.written_perm.symm.flatMap ih).append_left _

/-! ## Order -/

/-- A traversal reaches the identifiers of the node in the order in which they are written. -/
def Node.InOrder (node : Node) : Prop :=
  node.reachedIdentifiers = node.writtenIdentifiers

/-- The node is a loop whose condition is written behind its body, and both hold identifiers. -/
def Node.Clashes : Node → Prop
  | .procStatement (.doWhile condition body) =>
      (Node.procBlock body).writtenIdentifiers ≠ [] ∧ (Node.expr condition).writtenIdentifiers ≠ []
  | _ => False

/-- Rows that agree in length item by item are the same only if the items show the same. -/
theorem flatMap_eq_flatMap_iff {α β : Type} {items : List α} {first second : α → List β}
    (lengths : ∀ item ∈ items, (first item).length = (second item).length) :
    items.flatMap first = items.flatMap second ↔ ∀ item ∈ items, first item = second item := by
  induction items with
  | nil => simp
  | cons item rest ih =>
      rcases List.forall_mem_cons.mp lengths with ⟨itemLength, restLengths⟩
      rw [List.flatMap_cons, List.flatMap_cons, List.forall_mem_cons, ← ih restLengths]
      constructor
      · exact fun rowsEq => List.append_inj rowsEq itemLength
      · rintro ⟨itemEq, restEq⟩
        rw [itemEq, restEq]

section Swap

variable {α : Type} {first second first' second' : List α}

/-- Where one of two rows is empty, they can change places. -/
theorem append_eq_swap_iff (firstPerm : first.Perm first') (secondPerm : second.Perm second')
    (empty : second' = [] ∨ first' = []) :
    first ++ second = second' ++ first' ↔ first = first' ∧ second = second' := by
  rcases empty with rfl | rfl
  · rw [secondPerm.eq_nil, List.append_nil, List.nil_append, eq_self, and_true]
  · rw [firstPerm.eq_nil, List.append_nil, List.nil_append, eq_self, true_and]

/-- Where nothing stands twice, two rows can change places only if one of them is empty. -/
theorem eq_nil_or_eq_nil_of_swap (firstPerm : first.Perm first')
    (secondPerm : second.Perm second') (different : (first ++ second).Nodup)
    (swapped : first ++ second = second' ++ first') : second' = [] ∨ first' = [] := by
  cases second' with
  | nil => exact .inl rfl
  | cons head rest =>
      right
      cases first with
      | nil => exact firstPerm.nil_eq.symm
      | cons found others =>
          obtain rfl : found = head := (List.cons.inj swapped).1
          -- it stands in both rows
          have again : found ∈ second := secondPerm.mem_iff.mpr List.mem_cons_self
          exact absurd again (List.disjoint_of_nodup_append different List.mem_cons_self)

end Swap

theorem Node.exists_doWhile (postTested : node.isPostTested = true) :
    ∃ condition body, node = .procStatement (.doWhile condition body) := by
  unfold isPostTested at postTested
  split at postTested
  · exact ⟨_, _, rfl⟩
  · cases postTested

theorem Node.not_clashes_of_not_isPostTested (preTested : ¬ node.isPostTested = true) :
    ¬ node.Clashes := by
  unfold Clashes
  split
  · exact absurd rfl preTested
  · exact id

theorem Node.reachedIdentifiers_doWhile (condition : Expr) (body : ProcBlock) :
    (Node.procStatement (.doWhile condition body)).reachedIdentifiers =
      (Node.expr condition).reachedIdentifiers ++ (Node.procBlock body).reachedIdentifiers := by
  rw [reachedIdentifiers_eq]
  simp [identifierName?, children, ProcStatement.children]

theorem Node.writtenIdentifiers_doWhile (condition : Expr) (body : ProcBlock) :
    (Node.procStatement (.doWhile condition body)).writtenIdentifiers =
      (Node.procBlock body).writtenIdentifiers ++ (Node.expr condition).writtenIdentifiers := by
  rw [writtenIdentifiers_eq]
  simp [identifierName?, written, isPostTested, children, ProcStatement.children]

/-- A node that does not clash is in order if all nodes that it owns are, and only then. -/
theorem Node.inOrder_iff_of_not_clashes (apart : ¬ node.Clashes) :
    node.InOrder ↔ ∀ child ∈ node.children, child.InOrder := by
  by_cases postTested : node.isPostTested = true
  · rcases exists_doWhile postTested with ⟨condition, body, rfl⟩
    have empty := (not_and_or.mp apart).imp not_not.mp not_not.mp
    rw [InOrder, reachedIdentifiers_doWhile, writtenIdentifiers_doWhile,
      append_eq_swap_iff (reachedIdentifiers_perm _) (reachedIdentifiers_perm _) empty]
    simp [children, ProcStatement.children, InOrder]
  · have writtenEq : node.written = node.children := if_neg postTested
    rw [InOrder, reachedIdentifiers_eq, writtenIdentifiers_eq, writtenEq,
      List.append_cancel_left_eq]
    exact flatMap_eq_flatMap_iff fun child _ => child.reachedIdentifiers_perm.length_eq

/-- A node where no identifier is reached twice does not clash if it is in order. -/
theorem Node.not_clashes_of_inOrder (different : node.reachedIdentifiers.Nodup)
    (inOrder : node.InOrder) : ¬ node.Clashes := by
  by_cases postTested : node.isPostTested = true
  · rcases exists_doWhile postTested with ⟨condition, body, rfl⟩
    rw [InOrder, reachedIdentifiers_doWhile, writtenIdentifiers_doWhile] at inOrder
    rw [reachedIdentifiers_doWhile] at different
    rintro ⟨bodyHolds, conditionHolds⟩
    rcases eq_nil_or_eq_nil_of_swap (reachedIdentifiers_perm _) (reachedIdentifiers_perm _)
      different inOrder with bodyEmpty | conditionEmpty
    · exact bodyHolds bodyEmpty
    · exact conditionHolds conditionEmpty
  · exact not_clashes_of_not_isPostTested postTested

/-! ## Whole trees -/

theorem Node.inOrder_of_forall_not_clashes (apart : ∀ owner ∈ node.occurring, ¬ owner.Clashes) :
    node.InOrder := by
  induction node using Node.childInduction with
  | step node ih =>
      rw [occurring_eq, List.forall_mem_cons] at apart
      rcases apart with ⟨nodeApart, restApart⟩
      refine (inOrder_iff_of_not_clashes nodeApart).mpr fun child childMem => ?_
      exact ih child childMem fun owner ownerMem =>
        restApart owner (List.mem_flatMap_of_mem childMem ownerMem)

theorem Node.forall_not_clashes_of_inOrder (different : node.reachedIdentifiers.Nodup)
    (inOrder : node.InOrder) : ∀ owner ∈ node.occurring, ¬ owner.Clashes := by
  induction node using Node.childInduction with
  | step node ih =>
      have apart := not_clashes_of_inOrder different inOrder
      have childrenInOrder := (inOrder_iff_of_not_clashes apart).mp inOrder
      rw [reachedIdentifiers_eq] at different
      have childrenDifferent := (List.nodup_flatMap.mp different.of_append_right).1
      rw [occurring_eq, List.forall_mem_cons]
      refine ⟨apart, fun owner ownerMem => ?_⟩
      rcases List.mem_flatMap.mp ownerMem with ⟨child, childMem, belowMem⟩
      exact ih child childMem (childrenDifferent child childMem) (childrenInOrder child childMem)
        owner belowMem

/-- The node is an expression or one of the parts that expressions are made of. -/
def Node.isExpression : Node → Bool
  | .expr _ | .callParameter _ | .dereference _ | .callable _ | .path _ => true
  | _ => false

theorem NewTarget.isExpression_of_mem_children (target : NewTarget) :
    ∀ child ∈ target.children, child.isExpression = true := by
  cases target <;> simp [children, Node.isExpression]

theorem Expr.isExpression_of_mem_children (expr : Expr) :
    ∀ child ∈ expr.children, child.isExpression = true := by
  cases expr with
  | new target _ =>
      simpa [children, callParameters, Node.isExpression, or_imp, forall_and] using
        target.isExpression_of_mem_children
  | _ => simp [children, optionalExpr, callParameters, Node.isExpression, or_imp, forall_and]

theorem Node.isExpression_of_mem_children (isExpression : node.isExpression = true) :
    ∀ child ∈ node.children, child.isExpression = true := by
  cases node with
  | expr item => exact item.isExpression_of_mem_children
  | callable item => cases item <;> simp [children, Callable.children, Node.isExpression]
  | callParameter | dereference | path => simp [children, Node.isExpression]
  | _ => cases isExpression

/-- Loops are statements, so nothing within an expression clashes. -/
theorem Node.inOrder_of_isExpression (isExpression : node.isExpression = true) : node.InOrder := by
  induction node using Node.childInduction with
  | step node ih =>
      have apart : ¬ node.Clashes := by
        cases node with
        | procStatement => cases isExpression
        | _ => exact id
      refine (inOrder_iff_of_not_clashes apart).mpr fun child childMem => ?_
      exact ih child childMem (isExpression_of_mem_children isExpression child childMem)

/-- A traversal reaches every identifier as often as it is written.  Those of each expression it
reaches in the order in which they are written.  So it does those of a whole tree, unless some loop
whose condition is written behind its body has identifiers in both of them.  Where no identifier is
reached twice, such a loop always makes a difference. -/
theorem Node.inOrder_iff (node : Node) :
    node.reachedIdentifiers.Perm node.writtenIdentifiers ∧
    (∀ expr, .expr expr ∈ node.occurring → (Node.expr expr).InOrder) ∧
    ((∀ owner ∈ node.occurring, ¬ owner.Clashes) → node.InOrder) ∧
    (node.reachedIdentifiers.Nodup →
      (node.InOrder ↔ ∀ owner ∈ node.occurring, ¬ owner.Clashes)) := by
  refine ⟨node.reachedIdentifiers_perm, ?_, inOrder_of_forall_not_clashes, ?_⟩
  · intro expr _
    exact inOrder_of_isExpression rfl
  · intro different
    exact ⟨forall_not_clashes_of_inOrder different, inOrder_of_forall_not_clashes⟩

/-- In `while(n) do b while(1)` the identifiers are reached in the order in which they are written,
so no loop within clashes: the condition of the inner one has no identifiers. -/
theorem Node.inOrder_iff_nestedLoop :
    let block : ProcBlock :=
      ⟨[.while (.identifier "n") ⟨[.doWhile (.integer 1) ⟨[.expression (.identifier "b")]⟩]⟩]⟩
    (Node.procBlock block).reachedIdentifiers.Nodup ∧ (Node.procBlock block).InOrder ∧
      ∀ owner ∈ (Node.procBlock block).occurring, ¬ owner.Clashes := by
  intro block
  have different : (Node.procBlock block).reachedIdentifiers.Nodup := by
    simp [block, reachedIdentifiers_eq, identifierName?, children, ProcStatement.children,
      Expr.children]
  have inOrder : (Node.procBlock block).InOrder := by
    simp [block, InOrder, reachedIdentifiers_eq, writtenIdentifiers_eq, identifierName?, children,
      ProcStatement.children, Expr.children, written, isPostTested]
  exact ⟨different, inOrder, ((inOrder_iff _).2.2.2 different).mp inOrder⟩

/-- In `do b while(c)` the identifier `c` is reached before `b`. -/
theorem Node.not_forall_inOrder : ¬ ∀ block : ProcBlock, (Node.procBlock block).InOrder := by
  intro inOrder
  have loop := inOrder ⟨[.doWhile (.identifier "c") ⟨[.expression (.identifier "b")]⟩]⟩
  simp [InOrder, reachedIdentifiers_eq, writtenIdentifiers_eq, identifierName?, children,
    ProcStatement.children, Expr.children, written, isPostTested] at loop

end DreamWorld.Syntax
