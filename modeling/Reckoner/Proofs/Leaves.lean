import Reckoner.Proofs.Margins
/-!
# What a tree is built from

The leaves of the tree of a line, and the functions that it calls, are tokens of the line. So what
holds of every token that can be read holds of them.
-/

namespace Reckoner

/-- The leaves of a tree and the functions that it calls are lexemes that fit. No evaluated argument
stands in the tree. -/
inductive Expr.Built (fits : Lexeme → Prop) : Expr → Prop
  /-- A literal fits. -/
  | number {spelling : String} {imaginary : Bool} (position : Nat)
    (leaf : fits (.number spelling imaginary)) : Built fits (.number spelling imaginary position)
  /-- A constant fits. -/
  | constant {origin : Origin} {name : String} (position : Nat)
    (leaf : fits (.constant origin name)) : Built fits (.constant origin name position)
  /-- A function fits, and its arguments are built so. -/
  | call {origin : Origin} {name : String} (position : Nat) {arguments : List Expr}
    (root : fits (.function origin name)) (parts : ∀ argument ∈ arguments, Built fits argument) :
    Built fits (.call origin name position arguments)
  /-- An operand is built so. -/
  | signed (sign : Sign) (position : Nat) {operand : Expr} (part : Built fits operand) :
    Built fits (.signed sign position operand)
  /-- Both operands are built so. -/
  | binary (operator : Operator) (position : Nat) {left right : Expr} (first : Built fits left)
    (second : Built fits right) : Built fits (.binary operator position left right)

namespace Scan

/-- What holds of every token that is read from the front of a text holds of all its tokens. -/
theorem forall_tokens_ofText {fits : Lexeme → Prop}
    (each : ∀ {start first rest found}, (token start first rest).1 = .ok found →
      fits found.lexeme) (start : Nat) (text : List Char) :
    ∀ found ∈ (ofText start text).tokens, fits found.lexeme := by
  induction start, text using ofText.induct with
  | case1 start text blank =>
    rw [ofText_of_blank blank]
    exact List.forall_mem_nil _
  | case2 start text first rest unread here diagnosis fault =>
    rw [ofText_of_error unread rfl fault]
    exact List.forall_mem_nil _
  | case3 start text first rest unread here found read ih =>
    rw [ofText_of_ok unread rfl read, List.forall_mem_cons]
    exact ⟨each read, ih⟩

end Scan

/-- A tree is built from the tokens it is derived from. -/
theorem Derives.built {fits : Lexeme → Prop} {category : Nonterminal} {tokens : List Token}
    {phrases : List Phrase} (derives : Derives category tokens phrases)
    (each : ∀ token ∈ tokens, fits token.lexeme) :
    ∀ phrase ∈ phrases, phrase.expr.Built fits := by
  induction derives with
  | @joined category token front behind left right result first joins second firstIh secondIh =>
    have before := firstIh fun other member => each other (List.mem_append_left _ member)
    have after := secondIh fun other member =>
      each other (List.mem_append_right _ (List.mem_cons_of_mem _ member))
    cases joins with
    | comma shape earlier last =>
      intro phrase member
      rcases List.mem_append.mp member with among | among
      · exact before phrase among
      · exact after phrase among
    | operator shape among left right =>
      rw [List.forall_mem_singleton] at *
      exact .binary _ _ before after
  | only higher part ih => exact ih each
  | signed shape part ih =>
    have operand := ih fun token member => each token (List.mem_cons_of_mem _ member)
    rw [List.forall_mem_singleton] at *
    exact .signed _ _ operand
  | number shape =>
    rw [List.forall_mem_singleton] at *
    rw [shape] at each
    exact .number _ each
  | constant shape =>
    rw [List.forall_mem_singleton] at *
    rw [shape] at each
    exact .constant _ each
  | emptyCall shape opened closed =>
    have root := each _ List.mem_cons_self
    rw [shape] at root
    rw [List.forall_mem_singleton]
    exact .call _ root nofun
  | call shape opened part closed ih =>
    have root := each _ List.mem_cons_self
    rw [shape] at root
    have arguments := ih fun token member => each token (by simp [member])
    rw [List.forall_mem_singleton, Phrase.expr, Phrase.exprs_eq_map]
    refine .call _ root ?_
    rw [List.forall_mem_map]
    exact arguments
  | group opened part closed ih =>
    have inner := ih fun token member => each token (by simp [member])
    rw [List.forall_mem_singleton] at *
    exact inner

end Reckoner
