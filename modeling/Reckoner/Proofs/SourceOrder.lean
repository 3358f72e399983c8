import Reckoner.Proofs.Parsing
import Reckoner.Proofs.Spans
import Reckoner.Proofs.WellFormed
/-!
# Nodes in the order of the line

Each node of a tree stands for a token of the line. If an operator is visited between its operands
and everything else in front of its parts, the nodes are visited in the order of their tokens,
however the operators were grouped. So positions increase strictly along a visit, and the first node
of a visit with some property is the leftmost one of the line.
-/

namespace Reckoner

/-- The text and the position of a token. -/
def Token.label (token : Token) : String × Nat := (token.text, token.stop)

namespace Expr

/-- The text and the position of the token at the root. -/
def label (expr : Expr) : String × Nat := (expr.rootText, expr.position)

mutual

/-- The nodes of a tree in the order of the line: an operator between its operands, everything else
in front of its parts. -/
def inOrder : Expr → List Expr
  | call origin name position arguments =>
    call origin name position arguments :: inOrderAll arguments
  | signed sign position operand => signed sign position operand :: inOrder operand
  | binary operator position left right =>
    inOrder left ++ binary operator position left right :: inOrder right
  | number spelling imaginary position => [number spelling imaginary position]
  | constant origin name position => [constant origin name position]
  | value known => [value known]

/-- The nodes of several trees in the order of the line. -/
def inOrderAll : List Expr → List Expr
  | [] => []
  | first :: others => inOrder first ++ inOrderAll others

end

/-- The nodes of several trees are those of each of them. -/
theorem inOrderAll_eq_flatMap (arguments : List Expr) :
    inOrderAll arguments = arguments.flatMap inOrder := by
  induction arguments with
  | nil => rfl
  | cons first others ih => rw [inOrderAll, ih, List.flatMap_cons]

/-- All nodes are visited, and each of them once. -/
theorem inOrder_perm_nodes (expr : Expr) : expr.inOrder.Perm expr.nodes := by
  induction expr with
  | number | constant | value => exact .refl _
  | call origin name position arguments ih =>
    rw [inOrder, nodes, inOrderAll_eq_flatMap, nodesAll_eq_flatMap]
    exact (List.Perm.flatMap_left arguments ih).cons _
  | signed sign position operand ih => exact ih.cons _
  | binary operator position left right leftIh rightIh =>
    rw [inOrder, nodes]
    exact List.perm_middle.trans ((leftIh.append rightIh).cons _)

/-- The nodes that are visited are the nodes of the tree. -/
theorem mem_inOrder_iff {node expr : Expr} : node ∈ expr.inOrder ↔ node ∈ expr.nodes :=
  (inOrder_perm_nodes expr).mem_iff

end Expr

/-- The label of a token is the text of its lexeme and its last byte. -/
theorem Token.label_eq {token : Token} {lexeme : Lexeme} (shape : token.lexeme = lexeme) :
    token.label = (lexeme.text, token.stop) := by
  rw [label, text, shape]

/-- The nodes of what is derived from tokens are labelled as some of these tokens are, in the same
order. -/
theorem Derives.labels_sublist {category : Nonterminal} {tokens : List Token}
    {phrases : List Phrase} (derives : Derives category tokens phrases) :
    (((phrases.map Phrase.expr).flatMap Expr.inOrder).map Expr.label).Sublist
      (tokens.map Token.label) := by
  induction derives with
  | joined _ joins _ firstIh secondIh =>
    cases joins with
    | comma _ earlier last =>
      simp only [List.map_append, List.flatMap_append, List.map_cons]
      exact firstIh.append (secondIh.cons _)
    | operator shape _ left right =>
      -- The operator stands between the nodes of its operands, as its token does.
      simp only [List.map_cons, List.map_nil, List.flatMap_cons, List.flatMap_nil, List.append_nil,
        List.map_append, Phrase.expr, Expr.inOrder, Token.label_eq shape] at firstIh secondIh ⊢
      exact firstIh.append (secondIh.cons_cons _)
  | only _ _ ih => exact ih
  | signed shape _ ih =>
    simp only [List.map_cons, List.map_nil, List.flatMap_cons, List.flatMap_nil, List.append_nil,
      Phrase.expr, Expr.inOrder, Token.label_eq shape] at ih ⊢
    exact ih.cons_cons _
  | number shape | constant shape =>
    simp only [List.map_cons, List.map_nil, Token.label_eq shape]
    exact .refl _
  | emptyCall shape =>
    simp only [List.map_cons, List.map_nil, Token.label_eq shape]
    exact (List.nil_sublist _).cons_cons _
  | call shape _ _ _ ih =>
    -- The parentheses around the arguments are no nodes.
    simp only [List.map_cons, List.map_nil, List.flatMap_cons, List.flatMap_nil, List.append_nil,
      List.map_append, Phrase.expr, Phrase.exprs_eq_map, Expr.inOrder, Expr.inOrderAll_eq_flatMap,
      Token.label_eq shape, List.cons_append]
    exact ((ih.trans (List.sublist_append_left _ _)).cons _).cons_cons _
  | group _ _ _ ih =>
    simp only [List.map_cons, List.map_append, List.cons_append] at ih ⊢
    exact (ih.trans (List.sublist_append_left _ _)).cons _

/-- The tokens of a line end one behind the other. -/
theorem Scan.Partitions.stops_increase {line : String} {scan : Scan}
    (partitions : scan.Partitions line) : (scan.tokens.map Token.stop).Pairwise (· < ·) := by
  rw [List.pairwise_map]
  refine partitions.ordered.imp_of_mem fun _ second behind => ?_
  have bytes := (partitions.inside _ second).1
  omega

namespace Scan

variable {scan : Scan} {length : Nat} {tree : Expr}

/-- The nodes of a tree are labelled as some of its tokens are, in the same order. -/
theorem labels_sublist_of_tree (built : scan.tree length = .ok tree) :
    (tree.inOrder.map Expr.label).Sublist (scan.tokens.map Token.label) := by
  obtain ⟨_, phrase, derives, rfl⟩ := (tree_eq_ok_iff ..).mp built
  simpa using derives.labels_sublist

/-- Every node of a tree is one of its tokens, with its text and its position. -/
theorem exists_token_of_mem_nodes (built : scan.tree length = .ok tree) {node : Expr}
    (member : node ∈ tree.nodes) :
    ∃ token ∈ scan.tokens, token.text = node.rootText ∧ token.stop = node.position := by
  have among := (labels_sublist_of_tree built).subset
    (List.mem_map_of_mem (Expr.mem_inOrder_iff.mpr member))
  obtain ⟨token, found, same⟩ := List.mem_map.mp among
  exact ⟨token, found, (Prod.mk.inj same).1, (Prod.mk.inj same).2⟩

end Scan

/-- The positions of the nodes of the tree of a line increase strictly along a visit. -/
theorem Context.positions_increase_of_tree {context : Context} {line : String} {tree : Expr}
    (built : context.tree line = .ok tree) : (tree.inOrder.map Expr.position).Pairwise (· < ·) := by
  have stops := (Scan.partitions_scan context line).stops_increase
  have labels := (Scan.labels_sublist_of_tree built).map Prod.snd
  rw [List.map_map, List.map_map] at labels
  exact stops.sublist labels

end Reckoner
