import Reckoner.Proofs.Grounding
import Reckoner.Proofs.Origins
/-!
# Trees that are kept

The tree of an accepted expression may be kept and evaluated in a later context, where names have
been removed, defined anew, or changed from constants to functions and back. The origins in the tree
are those of the earlier context, and yet it is never out of date: where the line is still accepted
it has this very tree, and where it is refused the tree has no value.
-/

namespace Reckoner.Context

/-- A grounded tree whose origins are those of an accepted line is resolved. -/
theorem Grounded.resolved {context : Context} {parameters : List String} {expr : Expr}
    (grounded : context.Grounded parameters expr) (canonical : expr.IsCanonical parameters) :
    context.Resolved parameters expr := by
  induction grounded with
  | number => exact .number ..
  | value => exact .value _
  | parameter origin position member => exact .constant origin position (Or.inl member)
  | constant parameters position _ held => exact .constant _ position (Or.inr held)
  | builtIn position known fits _ ih =>
    obtain ⟨_, canonicals⟩ := (Expr.isCanonical_call_iff ..).mp canonical
    refine .call .builtIn position ?_ fun argument member =>
      ih argument member (canonicals argument member)
    rw [arity?, known, fits]
  | @user _ name position _ _ found fits _ _ ih =>
    obtain ⟨label, canonicals⟩ := (Expr.isCanonical_call_iff ..).mp canonical
    refine .call .user position ?_ fun argument member =>
      ih argument member (canonicals argument member)
    have unshadowed : BuiltIn.ofName? name = none := by
      rw [← Option.not_isSome_iff_eq_none]
      intro builtIn
      rw [if_pos builtIn] at label
      contradiction
    rw [arity?, unshadowed, found, Option.map_some, fits]
  | signed sign position _ ih =>
    exact .signed sign position (ih ((Expr.isCanonical_signed_iff ..).mp canonical))
  | binary position pure _ _ firstIh secondIh =>
    obtain ⟨left, right⟩ := (Expr.isCanonical_binary_iff ..).mp canonical
    exact .binary position pure (firstIh left) (secondIh right)

/-- Where a line that reads as an expression is refused, its tree has no value. -/
theorem eval?_eq_none_of_refused {context : Context} (acyclic : context.functions.Acyclic)
    {line : String} {rejection : Rejection} (refused : context.parse line = .error rejection)
    {earlier : Context} {kept : Expr} (parsed : earlier.parse line = .ok kept)
    (expression : IsExpression kept) : context.eval? kept = none := by
  have canonical := isCanonical_of_parse parsed expression
  obtain ⟨plain, read, alsoExpression, rfl, _⟩ := exists_plain_of_parse parsed expression
  rw [← Option.not_isSome_iff_eq_none, isSome_eval?_iff acyclic]
  intro grounded
  have resolved := (context.resolved_relabel ..).mp (grounded.resolved canonical)
  have accepted :=
    (context.parse_expression_eq_ok_iff read alsoExpression _).mpr ⟨rfl, resolved⟩
  rw [refused] at accepted
  contradiction

/-- The tree of an expression is kept from a context and evaluated in one that is reached later. If
the line is accepted there, its tree is the one that is kept, and so is its value. If the line is
refused there, the tree has no value and evaluates to the undefined number. -/
theorem parse_eq_or_undefined_of_kept (earlier later : List Change) {line : String} {kept : Expr}
    (parsed : (run earlier).parse line = .ok kept) (expression : IsExpression kept) :
    (∀ tree, (run later).parse line = .ok tree →
        tree = kept ∧ (run later).evaluate kept = (run later).evaluate tree) ∧
      ∀ rejection, (run later).parse line = .error rejection →
        (run later).eval? kept = none ∧ (run later).evaluate kept = .undefined := by
  constructor
  · intro tree again
    obtain ⟨plain, read, alsoExpression, rfl, resolved⟩ := exists_plain_of_parse parsed expression
    obtain ⟨rfl, also⟩ :=
      ((run later).parse_expression_eq_ok_iff read alsoExpression tree).mp again
    have same := also.relabel_resolve_eq resolved nofun
    exact ⟨same, by rw [same]⟩
  · intro rejection refused
    have missing :=
      eval?_eq_none_of_refused (kept_acyclic.run later) refused parsed expression
    exact ⟨missing, by rw [evaluate, missing, Option.getD_none]⟩

/-- A run after which `f(a)` is an expression. -/
def keptRun : List Change := [.enter "a = 3", .enter "f(x) = x"]

/-- The tree of `f(a)` after this run. -/
def keptTree : Expr := .call .user "f" 0 [.constant .user "a" 2]

/-- Another body of the function changes the value of the kept tree, as it does that of the line.
When the function is turned into a constant, the line is refused and the kept tree is undefined. -/
theorem keptRun_agrees : (run keptRun).parse "f(a)" = .ok keptTree ∧
    (∃ tree, (run (keptRun ++ [.enter "f(y) = 2*y"])).parse "f(a)" = .ok tree ∧ tree = keptTree ∧
      (run (keptRun ++ [.enter "f(y) = 2*y"])).evaluate keptTree = .real 6) ∧
    ∃ rejection, (run (keptRun ++ [.enter "f = 7"])).parse "f(a)" = .error rejection ∧
      (run (keptRun ++ [.enter "f = 7"])).evaluate keptTree = .undefined := by
  have parsed : (run keptRun).parse "f(a)" = .ok keptTree := by with_unfolding_all rfl
  have expression : IsExpression keptTree := nofun
  refine ⟨parsed, ?_, ?_⟩
  · have again : (run (keptRun ++ [.enter "f(y) = 2*y"])).parse "f(a)" = .ok keptTree := by
      with_unfolding_all rfl
    obtain ⟨same, _⟩ := (parse_eq_or_undefined_of_kept keptRun _ parsed expression).1 keptTree again
    exact ⟨keptTree, again, same, by decide +kernel⟩
  · have refused : (run (keptRun ++ [.enter "f = 7"])).parse "f(a)" =
        .error ⟨"f(a)", .unknownFunction "f", 0⟩ := by
      with_unfolding_all rfl
    exact ⟨_, refused, ((parse_eq_or_undefined_of_kept keptRun _ parsed expression).2 _ refused).2⟩

end Reckoner.Context
