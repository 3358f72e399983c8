import Reckoner.Json.Basic
/-!
# The members of objects

The members of an object stand in the order of their names, and of several members of one name the
last one is kept. So an object has each name once, and so has every object inside it.
-/

namespace Reckoner.Json

/-- Every object of the value has its members in ascending order of their names. -/
inductive Ascending : Json → Prop
  /-- A word has no members. -/
  | null : Ascending .null
  /-- A truth value has no members. -/
  | bool (value : Bool) : Ascending (.bool value)
  /-- A number has no members. -/
  | number (value : Binary64) : Ascending (.number value)
  /-- A string has no members. -/
  | string (text : String) : Ascending (.string text)
  /-- An array has elements. -/
  | array {elements : List Json} (parts : ∀ element ∈ elements, Ascending element) :
    Ascending (.array elements)
  /-- An object has members in ascending order. -/
  | object {members : List (String × Json)}
    (ascending : members.Pairwise fun earlier later => earlier.1 < later.1)
    (parts : ∀ member ∈ members, Ascending member.2) : Ascending (.object members)

/-- An object of some members has them in ascending order. -/
theorem ascending_ofMembers {members : List (String × Json)}
    (parts : ∀ member ∈ members, Ascending member.2) : Ascending (ofMembers members) := by
  have along (list : List (String × Json))
      (ascending : list.Pairwise fun earlier later => earlier.1 < later.1)
      (listed : ∀ member ∈ list, Ascending member.2) :
      Ascending (.object
        (members.foldl (fun list member => Table.insertEntry member.1 member.2 list) list)) := by
    induction members generalizing list with
    | nil => exact .object ascending listed
    | cons first others ih =>
      obtain ⟨head, rest⟩ := List.forall_mem_cons.mp parts
      refine ih rest _ (Table.insertEntry_ascending first.1 first.2 ascending) ?_
      intro member among
      rcases Table.mem_insertEntry among with rfl | before
      · exact head
      · exact listed member before
  exact along [] .nil (List.forall_mem_nil _)

/-- The members of an ascending object have different names. -/
theorem Ascending.nodup {members : List (String × Json)}
    (ascending : Ascending (.object members)) : (members.map Prod.fst).Nodup := by
  cases ascending with
  | object ascending =>
    rw [List.Nodup, List.pairwise_map]
    exact ascending.imp fun before => String.ne_of_lt before

/-- The member of a name in an ascending object is ascending. -/
theorem Ascending.of_lookup {members : List (String × Json)} {name : String} {value : Json}
    (ascending : Ascending (.object members)) (found : members.lookup name = some value) :
    Ascending value := by
  cases ascending with
  | object _ parts => exact parts _ (Table.mem_of_lookup found)

end Reckoner.Json
