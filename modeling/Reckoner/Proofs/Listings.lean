import Reckoner.Proofs.Printing
/-!
# Listings of trees

A listing writes a leaf as its text and every other tree in parentheses: the text of its root, and
its parts behind spaces. No text of a root has a space or a parenthesis in it, so what stands behind
the text begins at the next of these, and the listing of a part ends where its own parts do. The
text of a root and the number of parts tell what the root is: a name, an operator, a sign or a
literal. So a listing is that of one tree, up to origins and positions, and a context gives a name
one origin.
-/

namespace Reckoner

/-- The character stands between the texts of a listing. -/
def separatesTexts (c : Char) : Bool := c == ' ' || c == '(' || c == ')'

/-- The characters that stand between the texts of a listing. -/
theorem separatesTexts_iff {c : Char} :
    separatesTexts c = true ↔ c = ' ' ∨ c = '(' ∨ c = ')' := by
  simp [separatesTexts, or_assoc]

/-- The text may stand behind a listing: it is empty, or a character that separates texts stands
first. -/
def SeparatedFrom (more : List Char) : Prop := ∀ c ∈ more.head?, separatesTexts c = true

namespace Literal

/-- A character that no run goes on with does not stand in a text that is a run as a whole. -/
theorem not_mem_of_whole {c : Char}
    (ends : ∀ hex afterExponent rest, (runTail hex afterExponent (c :: rest)).characters = [])
    {hex afterExponent : Bool} {text : List Char}
    (whole : runTail hex afterExponent text = ⟨text, false, []⟩) : c ∉ text := by
  induction text generalizing afterExponent with
  | nil => exact List.not_mem_nil
  | cons first rest ih =>
    rw [List.mem_cons, not_or]
    refine ⟨?_, ih (runTail_cons_of_whole whole).1⟩
    rintro rfl
    have characters := congrArg Run.characters whole
    rw [ends] at characters
    contradiction

/-- A literal as a whole has no character in it that no run goes on with, unless it is a digit. -/
theorem not_mem_of_isWhole {c : Char} (other : c.isDigit = false)
    (ends : ∀ hex afterExponent rest, (runTail hex afterExponent (c :: rest)).characters = [])
    {text : List Char} (isWhole : IsWhole text) : c ∉ text := by
  cases text with
  | nil => exact List.not_mem_nil
  | cons first rest =>
    obtain ⟨digit, whole, _⟩ := isWhole
    rw [List.mem_cons, not_or]
    refine ⟨?_, not_mem_of_whole ends (eq_of_cons_eq whole)⟩
    rintro rfl
    exact absurd digit (Bool.eq_false_iff.mp other)

/-- A literal as a whole has no imaginary unit in it. -/
theorem unit_not_mem_of_isWhole {text : List Char} (isWhole : IsWhole text) : 'i' ∉ text :=
  not_mem_of_isWhole rfl (fun _ _ _ => rfl) isWhole

/-- A literal as a whole is one text of a listing. -/
theorem separatesTexts_of_isWhole {text : List Char} (isWhole : IsWhole text) :
    ∀ c ∈ text, separatesTexts c = false := by
  intro c member
  rw [Bool.eq_false_iff]
  intro separates
  have plain := separatesTexts_iff.mp separates
  apply not_mem_of_isWhole _ _ isWhole member
  · rcases plain with rfl | rfl | rfl <;> rfl
  · intro hex afterExponent rest
    rcases plain with rfl | rfl | rfl <;> cases afterExponent <;> rfl

end Literal

namespace Expr

/-- The text of the root in a listing. -/
def listedRoot : Expr → String
  | number spelling imaginary _ => if imaginary then spelling ++ "i" else spelling
  | other => other.rootText

/-- The parts of a tree, if it is no leaf. -/
def parts? : Expr → Option (List Expr)
  | number .. | constant .. | value _ => none
  | call _ _ _ arguments => some arguments
  | signed _ _ operand => some [operand]
  | binary _ _ left right => some [left, right]

/-- What stands in a listing behind the text of a root with these parts. -/
def listingBehind (parts : List Expr) : List Char :=
  parts.flatMap (fun part => ' ' :: part.listing.toList) ++ [')']

/-- Several listings stand behind a space each. -/
theorem toList_listings (arguments : List Expr) :
    (listings arguments).toList = arguments.flatMap fun part => ' ' :: part.listing.toList := by
  induction arguments with
  | nil => rfl
  | cons first others ih => simp [listings, ih]

/-- A leaf is listed as its text, and every other tree as its text and its parts. -/
theorem toList_listing (expr : Expr) : expr.listing.toList =
    match expr.parts? with
    | none => expr.listedRoot.toList
    | some parts => '(' :: (expr.listedRoot.toList ++ listingBehind parts) := by
  cases expr with
  | number | constant | value => simp only [listing, parts?, listedRoot, rootText]
  | call => simp [listing, parts?, listedRoot, rootText, toList_listings, listingBehind]
  | signed sign => simp [listing, parts?, listedRoot, rootText, listingBehind]
  | binary operator => simp [listing, parts?, listedRoot, rootText, listingBehind]

/-- The tree, up to positions, that has a text at its root and these parts. -/
def ofRoot (text : String) : Option (List Expr) → Expr
  | none =>
    if isName text then constant .unknown text 0
    else number (String.ofList (text.toList.takeWhile (· != 'i'))) (text.toList.contains 'i') 0
  | some parts =>
    if isName text then call .unknown text 0 parts
    else match Operator.ofText? text, parts with
      | some operator, [left, right] => binary operator 0 left right
      | some operator, [operand] => (operator.sign?.map (signed · 0 operand)).getD default
      | _, _ => default

/-- The text of an operator is no name. -/
theorem isName_text (operator : Operator) : isName operator.text = false := by
  cases operator <;> decide

/-- The operator of a text is the one that has it. -/
theorem ofText?_text (operator : Operator) : Operator.ofText? operator.text = some operator := by
  cases operator <;> decide

/-- The text of a number is no name. -/
theorem isName_number {spelling : String} (isWhole : Literal.IsWhole spelling.toList)
    (imaginary : Bool) (position : Nat) :
    isName (number spelling imaginary position).listedRoot = false := by
  cases shape : spelling.toList with
  | nil =>
    rw [shape] at isWhole
    exact absurd isWhole id
  | cons first rest =>
    rw [shape] at isWhole
    have noLetter := Scan.isLetter_of_isDigit isWhole.1
    cases imaginary <;> simp [listedRoot, isName, shape, noLetter]

/-- A tree that can be read back is that of the text of its root and its parts, up to positions. -/
theorem Built.relabel_eq_ofRoot {expr : Expr} (built : expr.Built Lexeme.IsLegible) :
    expr.relabel .unplaced =
      ofRoot expr.listedRoot (expr.parts?.map (List.map (relabel .unplaced))) := by
  cases built with
  | @number spelling imaginary position leaf =>
    have free : 'i' ∉ spelling.toList := Literal.unit_not_mem_of_isWhole leaf
    have before : ∀ c ∈ spelling.toList, (c != 'i') = true := by
      intro c member
      exact bne_iff_ne.mpr (ne_of_mem_of_not_mem member free)
    have spelled :
        (Expr.number spelling imaginary position).listedRoot.toList.takeWhile (· != 'i') =
          spelling.toList := by
      cases imaginary with
      | false => simpa [listedRoot, rootText] using before
      | true => simp [listedRoot, List.takeWhile_append_of_pos before]
    have unit :
        (Expr.number spelling imaginary position).listedRoot.toList.contains 'i' =
          imaginary := by
      cases imaginary <;> simp [listedRoot, free]
    rw [parts?, Option.map_none, ofRoot, isName_number leaf, spelled, unit,
      String.ofList_toList]
    rfl
  | @constant origin name position leaf =>
    obtain ⟨rfl, spelled⟩ := leaf
    exact (if_pos spelled).symm
  | @call origin name position arguments root parts =>
    obtain ⟨rfl, spelled⟩ := root
    rw [relabel, relabelAll_eq_map]
    exact (if_pos spelled).symm
  | @signed sign position operand part =>
    have plain : isName sign.text = false := isName_text sign.operator
    have known : Operator.ofText? sign.text = some sign.operator := ofText?_text sign.operator
    simp only [listedRoot, rootText, parts?, Option.map_some, List.map_cons, List.map_nil, ofRoot,
      plain, known, Sign.sign?_operator]
    rfl
  | @binary operator position left right first second =>
    simp only [listedRoot, rootText, parts?, Option.map_some, List.map_cons, List.map_nil, ofRoot,
      isName_text, ofText?_text]
    rfl

/-- The text of a root that can be read back is not empty, and one text of a listing. -/
theorem Built.listedRoot_legible {expr : Expr} (built : expr.Built Lexeme.IsLegible) :
    expr.listedRoot.toList ≠ [] ∧ ∀ c ∈ expr.listedRoot.toList, separatesTexts c = false := by
  have name {text : String} (spelled : isName text = true) :
      text.toList ≠ [] ∧ ∀ c ∈ text.toList, separatesTexts c = false := by
    constructor
    · intro empty
      simp [isName, empty] at spelled
    · intro c member
      rw [Bool.eq_false_iff]
      intro separates
      have inName := Scan.isNameChar_of_isName spelled c member
      rcases separatesTexts_iff.mp separates with rfl | rfl | rfl <;>
        exact absurd inName (by decide)
  have symbol (operator : Operator) : operator.text.toList ≠ [] ∧
      ∀ c ∈ operator.text.toList, separatesTexts c = false := by
    have text : operator.text.toList = [operator.symbol] := by simp [Operator.text]
    have inside : separatesTexts operator.symbol = false := by cases operator <;> rfl
    rw [text]
    exact ⟨List.cons_ne_nil _ _, List.forall_mem_singleton.mpr inside⟩
  cases built with
  | @number spelling imaginary position leaf =>
    have nonempty : spelling.toList ≠ [] := by
      intro empty
      rw [Lexeme.IsLegible, empty] at leaf
      exact leaf
    have each := Literal.separatesTexts_of_isWhole leaf
    cases imaginary with
    | false => exact ⟨nonempty, each⟩
    | true =>
      have unit : ∀ c ∈ ['i'], separatesTexts c = false := List.forall_mem_singleton.mpr rfl
      simp only [listedRoot, if_true, String.toList_append, List.forall_mem_append]
      exact ⟨by simp [nonempty], each, unit⟩
  | constant position leaf => exact name leaf.2
  | call position root parts => exact name root.2
  | signed sign position part => exact symbol sign.operator
  | binary operator position first second => exact symbol operator

/-- The listing of a tree that can be read back tells the tree up to positions, and where the text
behind it begins. -/
def ListingDecides (first : Expr) : Prop :=
  ∀ ⦃second : Expr⦄, second.Built Lexeme.IsLegible →
    ∀ ⦃more rest : List Char⦄, SeparatedFrom more → SeparatedFrom rest →
      first.listing.toList ++ more = second.listing.toList ++ rest →
        first.relabel .unplaced = second.relabel .unplaced ∧ more = rest

/-- What stands behind the text of a root is separated from it. -/
theorem separatedFrom_listingBehind (parts : List Expr) (more : List Char) :
    SeparatedFrom (listingBehind parts ++ more) := by
  cases parts <;> simp [listingBehind, SeparatedFrom, separatesTexts]

/-- Where the listing of each part decides, what stands behind the text of a root tells the parts.
-/
theorem listingBehind_decides {parts others : List Expr}
    (decides : ∀ part ∈ parts, part.ListingDecides)
    (built : ∀ other ∈ others, other.Built Lexeme.IsLegible) {more rest : List Char}
    (same : listingBehind parts ++ more = listingBehind others ++ rest) :
    parts.map (relabel .unplaced) = others.map (relabel .unplaced) ∧ more = rest := by
  induction parts generalizing others with
  | nil =>
    cases others with
    | nil => exact ⟨rfl, by simpa [listingBehind] using same⟩
    | cons other others => simp [listingBehind] at same
  | cons part parts ih =>
    cases others with
    | nil => simp [listingBehind] at same
    | cons other others =>
      rw [List.forall_mem_cons] at decides built
      have behind : part.listing.toList ++ (listingBehind parts ++ more) =
          other.listing.toList ++ (listingBehind others ++ rest) := by
        simpa [listingBehind] using same
      obtain ⟨here, later⟩ := decides.1 built.1 (separatedFrom_listingBehind parts more)
        (separatedFrom_listingBehind others rest) behind
      obtain ⟨parts_same, ends⟩ := ih decides.2 built.2 later
      exact ⟨by rw [List.map_cons, List.map_cons, here, parts_same], ends⟩

/-- The parts of a tree that is built from lexemes are built so. -/
theorem Built.of_mem_parts {fits : Lexeme → Prop} {expr part : Expr} (built : expr.Built fits)
    {parts : List Expr} (found : expr.parts? = some parts) (member : part ∈ parts) :
    part.Built fits := by
  cases built with
  | number position leaf => contradiction
  | constant position leaf => contradiction
  | call position root each =>
    obtain rfl := Option.some.inj found
    exact each part member
  | signed sign position operand =>
    obtain rfl := Option.some.inj found
    obtain rfl := List.mem_singleton.mp member
    exact operand
  | binary operator position first second =>
    obtain rfl := Option.some.inj found
    rcases List.mem_pair.mp member with rfl | rfl
    · exact first
    · exact second

/-- The texts of two roots are told from what stands behind them. -/
theorem listedRoot_eq_of_append {first second : Expr} (built : first.Built Lexeme.IsLegible)
    (alsoBuilt : second.Built Lexeme.IsLegible) {more rest : List Char}
    (separated : SeparatedFrom more) (alsoSeparated : SeparatedFrom rest)
    (same : first.listedRoot.toList ++ more = second.listedRoot.toList ++ rest) :
    first.listedRoot = second.listedRoot ∧ more = rest := by
  have split {expr : Expr} (legible : expr.Built Lexeme.IsLegible) {back : List Char}
      (behind : SeparatedFrom back) :
      (expr.listedRoot.toList ++ back).takeWhile (!separatesTexts ·) = expr.listedRoot.toList ∧
        (expr.listedRoot.toList ++ back).dropWhile (!separatesTexts ·) = back := by
    apply takeWhile_append_of_head
    · simpa using legible.listedRoot_legible.2
    · simpa [SeparatedFrom] using behind
  obtain ⟨firstFront, firstBack⟩ := split built separated
  obtain ⟨secondFront, secondBack⟩ := split alsoBuilt alsoSeparated
  rw [same] at firstFront firstBack
  exact ⟨String.toList_inj.mp (firstFront.symm.trans secondFront),
    firstBack.symm.trans secondBack⟩

/-- A listing in parentheses is not that of a leaf. -/
theorem listedRoot_append_ne {leaf : Expr} (built : leaf.Built Lexeme.IsLegible)
    (more inside : List Char) : leaf.listedRoot.toList ++ more ≠ '(' :: inside := by
  obtain ⟨nonempty, each⟩ := built.listedRoot_legible
  cases shape : leaf.listedRoot.toList with
  | nil => exact absurd shape nonempty
  | cons c others =>
    rw [shape] at each
    intro same
    obtain ⟨rfl, _⟩ := List.cons.inj same
    exact absurd (each '(' List.mem_cons_self) (by decide)

/-- A listing decides if those of the parts do. -/
theorem Built.listingDecides_of_parts {first : Expr} (built : first.Built Lexeme.IsLegible)
    (each : ∀ parts, first.parts? = some parts → ∀ part ∈ parts, part.ListingDecides) :
    first.ListingDecides := by
  intro second alsoBuilt more rest separated alsoSeparated same
  rw [built.relabel_eq_ofRoot, alsoBuilt.relabel_eq_ofRoot]
  rw [toList_listing, toList_listing] at same
  cases found : first.parts? with
  | none =>
    cases alsoFound : second.parts? with
    | none =>
      simp only [found, alsoFound] at same
      obtain ⟨roots, ends⟩ :=
        listedRoot_eq_of_append built alsoBuilt separated alsoSeparated same
      exact ⟨by rw [roots, Option.map_none], ends⟩
    | some others =>
      simp only [found, alsoFound] at same
      exact absurd same (listedRoot_append_ne built more _)
  | some parts =>
    cases alsoFound : second.parts? with
    | none =>
      simp only [found, alsoFound] at same
      exact absurd same.symm (listedRoot_append_ne alsoBuilt rest _)
    | some others =>
      simp only [found, alsoFound, List.cons_append, List.append_assoc, List.cons.injEq,
        true_and] at same
      obtain ⟨roots, behind⟩ := listedRoot_eq_of_append built alsoBuilt
        (separatedFrom_listingBehind parts more) (separatedFrom_listingBehind others rest) same
      obtain ⟨parts_same, ends⟩ := listingBehind_decides (each parts found)
        (fun other => alsoBuilt.of_mem_parts alsoFound) behind
      rw [roots, Option.map_some, Option.map_some, parts_same]
      exact ⟨rfl, ends⟩

/-- The listing of a tree that can be read back decides. -/
theorem Built.listingDecides {expr : Expr} (built : expr.Built Lexeme.IsLegible) :
    expr.ListingDecides := by
  induction built with
  | number position leaf => exact (Built.number position leaf).listingDecides_of_parts nofun
  | constant position leaf => exact (Built.constant position leaf).listingDecides_of_parts nofun
  | call position root parts ih =>
    apply (Built.call position root parts).listingDecides_of_parts
    rintro _ ⟨⟩
    exact ih
  | signed sign position part ih =>
    apply (Built.signed sign position part).listingDecides_of_parts
    rintro _ ⟨⟩
    simpa using ih
  | binary operator position first second firstIh secondIh =>
    apply (Built.binary operator position first second).listingDecides_of_parts
    rintro _ ⟨⟩
    simpa using ⟨firstIh, secondIh⟩

/-- Labels are not listed. -/
theorem listing_relabel (labels : Relabelling) (expr : Expr) :
    (expr.relabel labels).listing = expr.listing := by
  induction expr with
  | number | constant | value => rfl
  | call origin name position arguments ih =>
    have each : listings (arguments.map (relabel labels)) = listings arguments := by
      rw [← String.toList_inj, toList_listings, toList_listings, List.flatMap_map]
      exact List.flatMap_congr fun part member => by rw [ih part member]
    simp only [relabel, relabelAll_eq_map, listing, each]
  | signed sign position operand ih => simp only [relabel, listing, ih]
  | binary operator position left right leftIh rightIh =>
    simp only [relabel, listing, leftIh, rightIh]

end Expr

namespace Context

/-- Two lines that a context accepts have one listing if and only if they have one tree, up to
positions: the same literals, names with the same origins, and operators, in the same places. -/
theorem listing_eq_iff {context : Context} {line other : String} {first second : Expr}
    (parsed : context.parse line = .ok first) (alsoParsed : context.parse other = .ok second) :
    first.listing = second.listing ↔ first.relabel .unplaced = second.relabel .unplaced := by
  constructor
  · intro same
    obtain ⟨plain, read, rfl⟩ :=
      (context.tree_eq_ok_iff ..).mp ((context.parse_eq_ok_iff ..).mp parsed).1
    obtain ⟨also, readAlso, rfl⟩ :=
      (context.tree_eq_ok_iff ..).mp ((context.parse_eq_ok_iff ..).mp alsoParsed).1
    rw [Expr.listing_relabel, Expr.listing_relabel] at same
    have separated : SeparatedFrom [] := nofun
    have decided := ((built_lineTree read).listingDecides (built_lineTree readAlso) separated
      separated
      (congrArg (·.toList ++ []) same)).1
    have resolved := congrArg (Expr.relabel (.resolve context)) decided
    rw [Expr.relabel_relabel, Expr.relabel_relabel] at resolved ⊢
    exact resolved
  · intro same
    rw [← Expr.listing_relabel .unplaced first, same, Expr.listing_relabel]

/-- The tree of the line `1-(-pi^2-0.5e+3i)`. -/
def tightTree : Expr :=
  .binary .sub 1
    (.number "1" false 0)
    (.binary .sub 8
      (.binary .pow 6 (.signed .minus 3 (.constant .builtIn "pi" 5)) (.number "2" false 7))
      (.number "0.5e+3" true 15))

/-- The trees of two lines that differ in spaces, parentheses and a zero have one listing. -/
theorem listing_tightTree :
    Context.parse {} "1 - ( ( - (pi) ) ^ 2 - .5e+3i )" = .ok roomyTree ∧
      Context.parse {} "1-(-pi^2-0.5e+3i)" = .ok tightTree ∧
      roomyTree.listing = "(- 1 (- (^ (- pi) 2) 0.5e+3i))" ∧
      roomyTree.listing = tightTree.listing ∧
      roomyTree.relabel .unplaced = tightTree.relabel .unplaced := by
  have roomy : Context.parse {} "1 - ( ( - (pi) ) ^ 2 - .5e+3i )" = .ok roomyTree := by
    with_unfolding_all rfl
  have tight : Context.parse {} "1-(-pi^2-0.5e+3i)" = .ok tightTree := by with_unfolding_all rfl
  have same : roomyTree.listing = tightTree.listing := by decide +kernel
  exact ⟨roomy, tight, by decide +kernel, same, (listing_eq_iff roomy tight).mp same⟩

end Context

end Reckoner
