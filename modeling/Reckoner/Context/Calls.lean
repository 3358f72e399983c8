import Reckoner.Context.Basic
/-!
# Calls between user functions

A function calls another one where its stored body does, also if the other one has been removed
since. Whether one function leads to another by such calls is found by a search that goes into the
stored body of every function that it meets. The names it has seen go with it from one part of a
tree to the next and into the bodies, so no body is searched twice, and the search ends in every
context, also in one with cycles of calls.
-/

namespace Reckoner

/-- What a search comes to that has some names behind it. -/
structure Search (earlier : List String) where
  /-- The name that is searched for has been met, which ends the search. -/
  found : Bool
  /-- The names that have been seen. -/
  seen : List String
  /-- A name that has been seen stays seen. -/
  keeps : earlier ⊆ seen

namespace Search

variable {earlier : List String}

/-- The search of nothing. -/
def nothing (seen : List String) : Search seen := ⟨false, seen, List.Subset.refl seen⟩

/-- A search, as what comes of it for those names that were seen before others. -/
def since {middle : List String} (keeps : earlier ⊆ middle) (search : Search middle) :
    Search earlier :=
  ⟨search.found, search.seen, List.Subset.trans keeps search.keeps⟩

/-- A search that goes on with what it has seen, unless the name has been met. -/
def orElse (first : Search earlier)
    (next : (later : List String) → earlier ⊆ later → Search later) : Search earlier :=
  if first.found then first else (next first.seen first.keeps).since first.keeps

end Search

/-- What the body of a function adds to what is left to be searched: nothing once its name has been
seen. -/
noncomputable def unsearchedSize (seen : List String) (entry : String × UserFunction) : Nat :=
  if entry.1 ∈ seen then 0 else sizeOf entry.2.body + 1

/-- The more has been seen, the less a body adds. -/
theorem unsearchedSize_le {earlier later : List String} (keeps : earlier ⊆ later)
    (entry : String × UserFunction) :
    unsearchedSize later entry ≤ unsearchedSize earlier entry := by
  unfold unsearchedSize
  by_cases before : entry.1 ∈ earlier
  · rw [if_pos (keeps before)]
    exact Nat.zero_le _
  · rw [if_neg before]
    split <;> omega

/-- What is left to be searched: the bodies of all functions whose names have not been seen. -/
noncomputable def Table.unsearched (functions : Table UserFunction) (seen : List String) : Nat :=
  functions.total (unsearchedSize seen)

/-- The more has been seen, the less is left. -/
theorem Table.unsearched_le (functions : Table UserFunction) {earlier later : List String}
    (keeps : earlier ⊆ later) : functions.unsearched later ≤ functions.unsearched earlier :=
  functions.total_le_total (unsearchedSize_le keeps)

/-- A function that is seen for the first time takes its body off what is left. -/
theorem Table.unsearched_cons_lt {functions : Table UserFunction} {name : String}
    {function : UserFunction} (found : functions.find? name = some function) {seen : List String}
    (fresh : name ∉ seen) :
    functions.unsearched (name :: seen) + sizeOf function.body < functions.unsearched seen := by
  have less : unsearchedSize (name :: seen) (name, function) + (sizeOf function.body + 1) ≤
      unsearchedSize seen (name, function) := by
    simp [unsearchedSize, fresh]
  exact total_add_le_total (unsearchedSize_le (List.subset_cons_self name seen)) less found

namespace Context

variable (context : Context) (target : String)

mutual

/-- Search for `target` by way of a called function, which need not be defined. -/
def searchCall (callee : String) (seen : List String) : Search seen :=
  if callee = target then ⟨true, seen, List.Subset.refl seen⟩
  else if _fresh : callee ∈ seen then .nothing seen
  else
    match _found : context.functions.find? callee with
    | none => (Search.nothing (callee :: seen)).since (List.subset_cons_self ..)
    | some function => (searchTree function.body (callee :: seen)).since (List.subset_cons_self ..)
termination_by context.functions.unsearched seen
decreasing_by exact Table.unsearched_cons_lt ‹_› ‹_›

/-- Search for `target` by way of the user functions that a tree calls. -/
def searchTree (expr : Expr) (seen : List String) : Search seen :=
  match expr with
  | .call .user name _ arguments =>
    (searchCall name seen).orElse fun later _keeps => searchTrees arguments later
  | .call _ _ _ arguments => searchTrees arguments seen
  | .signed _ _ operand => searchTree operand seen
  | .binary _ _ left right =>
    (searchTree left seen).orElse fun later _keeps => searchTree right later
  | .number .. | .constant .. | .value _ => .nothing seen
termination_by context.functions.unsearched seen + sizeOf expr
decreasing_by
  all_goals simp only [Expr.call.sizeOf_spec, Expr.signed.sizeOf_spec, Expr.binary.sizeOf_spec]
  · omega
  · have fewer := context.functions.unsearched_le _keeps
    omega
  · omega
  · omega
  · omega
  · have fewer := context.functions.unsearched_le _keeps
    omega

/-- Search for `target` by way of several trees. -/
def searchTrees (arguments : List Expr) (seen : List String) : Search seen :=
  match arguments with
  | [] => .nothing seen
  | first :: others => (searchTree first seen).orElse fun later _keeps => searchTrees others later
termination_by context.functions.unsearched seen + sizeOf arguments
decreasing_by
  all_goals simp only [List.cons.sizeOf_spec]
  · omega
  · have fewer := context.functions.unsearched_le _keeps
    omega

end

/-- Calling `callee` leads to `target`. -/
def leadsTo (callee target : String) : Bool := (context.searchCall target callee []).found

end Context

end Reckoner
