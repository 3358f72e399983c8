import Mathlib.Logic.Relation
import Reckoner.Context.Calls
/-!
# The call graph of a context

The edges of the graph are the calls in stored bodies, whether or not the called function is still
defined. The search for a call that leads to a name is exactly reachability along these edges. While
it is under way, a name that has been seen may have calls that are still to be searched, but only if
it was seen before the part of the search at hand began. A search that begins with nothing behind it
leaves no such names, so what it has seen is closed under calls when it ends without its target.
-/

open Relation

namespace Reckoner

/-- The stored body of `caller` calls `callee`, which need not be defined. -/
def Table.Calls (functions : Table UserFunction) (caller callee : String) : Prop :=
  ∃ function, functions.find? caller = some function ∧ callee ∈ function.body.callees

/-- The stored body of `caller` in a context calls `callee`, which need not be defined. -/
abbrev Context.Calls (context : Context) : String → String → Prop := context.functions.Calls

/-- Erasing a function takes away its own calls and no others. -/
theorem calls_erase (functions : Table UserFunction) (erased caller callee : String) :
    (functions.erase erased).Calls caller callee ↔
      caller ≠ erased ∧ functions.Calls caller callee := by
  unfold Table.Calls
  rw [Table.find?_erase]
  by_cases same : caller = erased <;> simp [same]

/-- Inserting a function replaces its own calls and no others. -/
theorem calls_insert (functions : Table UserFunction) (name : String) (function : UserFunction)
    (caller callee : String) :
    (functions.insert name function).Calls caller callee ↔
      if caller = name then callee ∈ function.body.callees else functions.Calls caller callee := by
  unfold Table.Calls
  rw [Table.find?_insert]
  by_cases same : caller = name <;> simp [same]

/-- What a search for `target` that has some names behind it comes to when it goes by way of
others. -/
structure Search.Answers (context : Context) (target : String) (names : List String)
    {earlier : List String} (search : Search earlier) : Prop where
  /-- If the target has been met, one of the names leads to it. -/
  leads : search.found = true → ∃ name ∈ names, ReflTransGen context.Calls name target
  /-- If not, all the names have been seen. -/
  reaches : search.found = false → ∀ name ∈ names, name ∈ search.seen
  /-- And then each name that has been seen since is not the target, and what it calls has been seen
  as well. The names behind the search may still be on their way. -/
  closes : search.found = false → ∀ name ∈ search.seen, name ∉ earlier →
    name ≠ target ∧ ∀ callee, context.Calls name callee → callee ∈ search.seen
  /-- Nothing has been seen since that the names do not lead to. -/
  origin : ∀ name ∈ search.seen, name ∉ earlier →
    ∃ start ∈ names, ReflTransGen context.Calls start name
  /-- No name has been seen twice. -/
  distinct : earlier.Nodup → search.seen.Nodup

namespace Search

variable {context : Context} {target : String} {earlier names : List String}

/-- A search by way of names that have been seen comes to nothing. -/
theorem answers_nothing (seen : ∀ name ∈ names, name ∈ earlier) :
    (nothing earlier).Answers context target names where
  leads found := nomatch found
  reaches _ := seen
  closes _ _ member fresh := absurd member fresh
  origin _ member fresh := absurd member fresh
  distinct := id

/-- A search that starts at the target has met it. -/
theorem answers_target (keeps : earlier ⊆ earlier) :
    (Search.mk true earlier keeps).Answers context target [target] where
  leads _ := ⟨target, List.mem_cons_self, .refl⟩
  reaches lost := nomatch lost
  closes lost := nomatch lost
  origin _ member fresh := absurd member fresh
  distinct := id

/-- A search that goes on after another one answers for the names of both. -/
theorem Answers.orElse {others : List String} {first : Search earlier}
    (front : first.Answers context target names)
    {next : (later : List String) → earlier ⊆ later → Search later}
    (behind : ∀ later keeps, (next later keeps).Answers context target others) :
    (first.orElse next).Answers context target (names ++ others) := by
  unfold Search.orElse
  cases met : first.found with
  | true =>
    refine ⟨fun _ => ?_, fun lost => ?_, fun lost => ?_, fun name member fresh => ?_,
      front.distinct⟩
    · obtain ⟨name, member, path⟩ := front.leads met
      exact ⟨name, List.mem_append_left _ member, path⟩
    · exact absurd (met.symm.trans lost) Bool.noConfusion
    · exact absurd (met.symm.trans lost) Bool.noConfusion
    · obtain ⟨start, among, path⟩ := front.origin name member fresh
      exact ⟨start, List.mem_append_left _ among, path⟩
  | false =>
    have further := behind first.seen first.keeps
    refine ⟨fun found => ?_, fun lost => ?_, fun lost name member fresh => ?_,
      fun name member fresh => ?_, fun distinct => further.distinct (front.distinct distinct)⟩
    · obtain ⟨name, member, path⟩ := further.leads found
      exact ⟨name, List.mem_append_right _ member, path⟩
    · rw [List.forall_mem_append]
      exact ⟨fun name member => (next first.seen first.keeps).keeps (front.reaches met name member),
        further.reaches lost⟩
    · by_cases before : name ∈ first.seen
      · obtain ⟨different, calls⟩ := front.closes met name before fresh
        exact ⟨different, fun callee call =>
          (next first.seen first.keeps).keeps (calls callee call)⟩
      · exact further.closes lost name member before
    · by_cases before : name ∈ first.seen
      · obtain ⟨start, among, path⟩ := front.origin name before fresh
        exact ⟨start, List.mem_append_left _ among, path⟩
      · obtain ⟨start, among, path⟩ := further.origin name member before
        exact ⟨start, List.mem_append_right _ among, path⟩

/-- A search by way of all that a new name calls answers for this name. -/
theorem Answers.visit {callee : String} (different : callee ≠ target) (fresh : callee ∉ earlier)
    (called : ∀ name, context.Calls callee name ↔ name ∈ names)
    {search : Search (callee :: earlier)} (inner : search.Answers context target names)
    (keeps : earlier ⊆ callee :: earlier) :
    (search.since keeps).Answers context target [callee] := by
  refine ⟨fun found => ?_, fun _ => ?_, fun lost name member old => ?_, fun name member old => ?_,
    fun distinct => inner.distinct (List.nodup_cons.mpr ⟨fresh, distinct⟩)⟩
  · obtain ⟨name, member, path⟩ := inner.leads found
    exact ⟨callee, List.mem_cons_self, path.head ((called name).mpr member)⟩
  · exact List.forall_mem_singleton.mpr (search.keeps List.mem_cons_self)
  · by_cases same : name = callee
    · rw [same]
      exact ⟨different, fun next call => inner.reaches lost next ((called next).mp call)⟩
    · exact inner.closes lost name member (List.not_mem_cons_of_ne_of_not_mem same old)
  · refine ⟨callee, List.mem_cons_self, ?_⟩
    by_cases same : name = callee
    · rw [same]
    · obtain ⟨start, among, path⟩ :=
        inner.origin name member (List.not_mem_cons_of_ne_of_not_mem same old)
      exact path.head ((called start).mpr among)

/-- With nothing behind it, a search that has not met the target has seen all that its names lead
to. -/
theorem Answers.mem_of_path {search : Search []} (answers : search.Answers context target names)
    (lost : search.found = false) {start name : String} (member : start ∈ names)
    (path : ReflTransGen context.Calls start name) : name ∈ search.seen := by
  induction path with
  | refl => exact answers.reaches lost start member
  | tail _ call ih => exact (answers.closes lost _ ih List.not_mem_nil).2 _ call

end Search

namespace Context

variable (context : Context) (target : String)

/-- A search by way of a call answers for the called name, and one by way of a tree, or of several,
for all names that are called there. -/
theorem answers_search :
    (∀ callee seen, (context.searchCall target callee seen).Answers context target [callee]) ∧
      (∀ expr seen, (context.searchTree target expr seen).Answers context target expr.callees) ∧
      ∀ arguments seen, (context.searchTrees target arguments seen).Answers context target
        (Expr.calleesAll arguments) := by
  apply searchCall.mutual_induct context target
  · intro seen
    rw [searchCall, if_pos rfl]
    exact Search.answers_target _
  · intro callee seen different known
    rw [searchCall, if_neg different, dif_pos known]
    exact Search.answers_nothing (List.forall_mem_singleton.mpr known)
  · intro callee seen different fresh missing
    have silent (name : String) : context.Calls callee name ↔ name ∈ [] := by
      simp [Table.Calls, missing]
    rw [searchCall, if_neg different, dif_neg fresh]
    split
    · exact .visit different fresh silent (Search.answers_nothing (List.forall_mem_nil _)) _
    · next found =>
      rw [missing] at found
      contradiction
  · intro callee seen different fresh function found inner
    have called (name : String) : context.Calls callee name ↔ name ∈ function.body.callees := by
      simp [Table.Calls, found]
    rw [searchCall, if_neg different, dif_neg fresh]
    split
    · next missing =>
      rw [found] at missing
      contradiction
    · next stored =>
      obtain rfl := Option.some.inj (found.symm.trans stored)
      exact .visit different fresh called inner _
  · intro seen name position arguments front behind
    rw [searchTree]
    exact front.orElse behind
  · intro seen origin name position arguments other inner
    rw [searchTree, Expr.callees]
    · exact inner
    all_goals exact other
  · intro seen sign position operand inner
    rw [searchTree]
    exact inner
  · intro seen operator position left right front behind
    rw [searchTree]
    exact front.orElse behind
  · intro seen spelling imaginary position
    rw [searchTree]
    exact Search.answers_nothing (List.forall_mem_nil _)
  · intro seen origin name position
    rw [searchTree]
    exact Search.answers_nothing (List.forall_mem_nil _)
  · intro seen known
    rw [searchTree]
    exact Search.answers_nothing (List.forall_mem_nil _)
  · intro seen
    rw [searchTrees]
    exact Search.answers_nothing (List.forall_mem_nil _)
  · intro seen first others front behind
    rw [searchTrees]
    exact front.orElse behind

variable {context target}

/-- A search with nothing behind it that has not met the target has seen exactly the names that the
called one leads to, and the target is none of them. -/
theorem mem_seen_iff {callee : String}
    (lost : (context.searchCall target callee []).found = false) (name : String) :
    name ∈ (context.searchCall target callee []).seen ↔
      ReflTransGen context.Calls callee name := by
  have answers := (context.answers_search target).1 callee []
  constructor
  · intro member
    obtain ⟨start, among, path⟩ := answers.origin name member List.not_mem_nil
    rwa [List.mem_singleton.mp among] at path
  · exact answers.mem_of_path lost List.mem_cons_self

variable (context target)

/-- Calling `callee` leads to `target` exactly if there is a path of calls. -/
theorem leadsTo_eq_true_iff (callee : String) :
    context.leadsTo callee target = true ↔ ReflTransGen context.Calls callee target := by
  have answers := (context.answers_search target).1 callee []
  constructor
  · intro found
    obtain ⟨start, among, path⟩ := answers.leads found
    rwa [List.mem_singleton.mp among] at path
  · intro path
    rw [leadsTo]
    cases met : (context.searchCall target callee []).found with
    | true => rfl
    | false =>
      have member := (mem_seen_iff met target).mpr path
      exact absurd rfl (answers.closes met target member List.not_mem_nil).1

/-- The search for a name by way of a called one is exact in every context, with cycles and with
calls of functions that are not defined: it meets the name exactly if that is the called one or a
chain of calls through stored bodies ends with it. No name is seen twice, so every body is searched
at most once, and a search that does not meet its target has seen exactly the names that the called
one leads to. -/
theorem searchCall_exact (callee : String) :
    ((context.searchCall target callee []).found = true ↔
        callee = target ∨ TransGen context.Calls callee target) ∧
      (context.searchCall target callee []).seen.Nodup ∧
      ((context.searchCall target callee []).found = false → ∀ name,
        name ∈ (context.searchCall target callee []).seen ↔
          ReflTransGen context.Calls callee name) := by
  have answers := (context.answers_search target).1 callee []
  refine ⟨?_, answers.distinct List.nodup_nil, mem_seen_iff⟩
  rw [← leadsTo, leadsTo_eq_true_iff, reflTransGen_iff_eq_or_transGen, eq_comm]

/-- In a cycle of two functions, each leads to the other and to a function that is not defined, and
the search for any other name ends. -/
example :
    let calling (name : String) : UserFunction :=
      { definition := "", parameters := [], body := .call .user name 0 [.call .user "gone" 0 []] }
    let cycle := (({} : Context).defineFunction "f" (calling "g")).defineFunction "g" (calling "f")
    cycle.leadsTo "f" "f" = true ∧ cycle.leadsTo "f" "gone" = true ∧
      cycle.leadsTo "f" "h" = false := by
  decide +kernel

end Context

end Reckoner
