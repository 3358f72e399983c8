import Mathlib.Data.List.DropRight
import Mathlib.Data.List.TakeWhile
import Reckoner.Proofs.Entry
import Reckoner.Proofs.Parsing
/-!
# Lines without their margins

White space in front of a line moves its tokens to the right, and white space behind it changes
nothing, since no token and no fault reaches into it. So the tree of a definition is the tree of its
text without margins, up to positions.
-/

namespace Reckoner

namespace Scan

/-- A literal further to the right is the same literal further to the right. -/
theorem literal_shift (start distance : Nat) (run : Literal.Run) (long : 0 < run.length) :
    literal (start + distance) run =
      Build.relabelResult (.shift distance) (Token.relabel (.shift distance))
        (literal start run) := by
  have stop : start + distance + run.length - 1 = start + run.length - 1 + distance := by omega
  simp only [literal, stop]
  split <;> rfl

/-- A token further to the right is the same token further to the right, and what stands behind it
is the same. -/
theorem token_shift (start distance : Nat) (first : Char) (rest : List Char) :
    token (start + distance) first rest =
      (Build.relabelResult (.shift distance) (Token.relabel (.shift distance))
        (token start first rest).1, (token start first rest).2) := by
  unfold token
  split
  · have stop (others : List Char) :
        start + distance + others.length = start + others.length + distance := by omega
    simp only [name, stop]
    split <;> rfl
  · split
    · have long : 0 < (Literal.run first rest).length := by
        simp only [Literal.run, Literal.Run.cons, Literal.Run.length, List.length_cons]
        omega
      simp only [literal_shift start distance _ long]
    · split <;> rfl

/-- A text further to the right has the same tokens further to the right. -/
theorem ofText_shift (start distance : Nat) (text : List Char) :
    ofText (start + distance) text = (ofText start text).relabel (.shift distance) := by
  induction start, text using ofText.induct with
  | case1 start text blank =>
    rw [ofText_of_blank blank, ofText_of_blank blank]
    rfl
  | case2 start text first rest unread here diagnosis fault =>
    have place : start + distance + (text.takeWhile isBlank).length = here + distance := by omega
    have shifted : (token (here + distance) first rest).1 =
        .error (diagnosis.relabel (.shift distance)) := by
      rw [token_shift, fault]
      rfl
    rw [ofText_of_error unread rfl fault, ofText_of_error unread place shifted]
    rfl
  | case3 start text first rest unread here found read ih =>
    have place : start + distance + (text.takeWhile isBlank).length = here + distance := by omega
    have shifted : (token (here + distance) first rest).1 =
        .ok (found.relabel (.shift distance)) := by
      rw [token_shift, read]
      rfl
    have next : (found.relabel (.shift distance)).stop + 1 = found.stop + 1 + distance :=
      Nat.add_right_comm ..
    rw [ofText_of_ok unread rfl read, ofText_of_ok unread place shifted, token_shift, next, ih]
    rfl

/-- Blanks in front of a text move its tokens to the right. -/
theorem ofText_blanks_append {blanks : List Char} (blank : ∀ c ∈ blanks, isBlank c) (start : Nat)
    (text : List Char) : ofText start (blanks ++ text) = ofText (start + blanks.length) text := by
  have unread : (blanks ++ text).dropWhile isBlank = text.dropWhile isBlank :=
    List.dropWhile_append_of_pos blank
  have skipped : start + ((blanks ++ text).takeWhile isBlank).length =
      start + blanks.length + (text.takeWhile isBlank).length := by
    rw [List.takeWhile_append_of_pos blank, List.length_append, Nat.add_assoc]
  cases rest : text.dropWhile isBlank with
  | nil => rw [ofText_of_blank (unread.trans rest), ofText_of_blank rest]
  | cons first rest' =>
    cases read : (token (start + blanks.length + (text.takeWhile isBlank).length) first
      rest').1 with
    | error diagnosis =>
      rw [ofText_of_error (unread.trans rest) skipped read, ofText_of_error rest rfl read]
    | ok found => rw [ofText_of_ok (unread.trans rest) skipped read, ofText_of_ok rest rfl read]

/-- Blanks behind a text change nothing. -/
theorem ofText_append_blanks {blanks : List Char} (blank : ∀ c ∈ blanks, isBlank c) (start : Nat)
    (text : List Char) : ofText start (text ++ blanks) = ofText start text := by
  have apart : ∀ c ∈ blanks.head?, EndsToken c := fun c front =>
    endsToken_of_isBlank (blank c (List.mem_of_mem_head? front))
  induction start, text using ofText.induct with
  | case1 start text clear =>
    have allBlank : (text ++ blanks).dropWhile isBlank = [] := by
      rw [List.dropWhile_eq_nil_iff] at clear ⊢
      simpa [or_imp, forall_and] using ⟨clear, blank⟩
    rw [ofText_of_blank clear, ofText_of_blank allBlank]
  | case2 start text first rest unread here diagnosis fault =>
    obtain ⟨further, same⟩ := unread_append unread blanks
    have also : (token here first (rest ++ blanks)).1 = .error diagnosis := by
      rw [token_append apart, fault]
    rw [ofText_of_error unread rfl fault, ofText_of_error further (by rw [same]) also]
  | case3 start text first rest unread here found read ih =>
    obtain ⟨further, same⟩ := unread_append unread blanks
    have also : (token here first (rest ++ blanks)).1 = .ok found := by
      rw [token_append apart, read]
    rw [ofText_of_ok unread rfl read, ofText_of_ok further (by rw [same]) also,
      token_append apart, ih]

end Scan

/-- A margin is blank. -/
theorem isBlank_of_isMargin {c : Char} (margin : isMargin c) : isBlank c := by
  have four : c = ' ' ∨ c = '\t' ∨ c = '\r' ∨ c = '\n' := by
    simpa [isMargin, or_assoc] using margin
  rcases four with rfl | rfl | rfl | rfl <;> decide

/-- The characters of a trimmed text. -/
theorem toList_trimMargins (text : String) :
    (trimMargins text).toList = (text.toList.dropWhile isMargin).rdropWhile isMargin := by
  rw [trimMargins, String.toList_ofList]
  rfl

/-- A text is its trimmed text between margins. -/
theorem exists_margins (text : String) : ∃ leading trailing : List Char,
    text.toList = leading ++ (trimMargins text).toList ++ trailing ∧
      (∀ c ∈ leading, isMargin c) ∧ ∀ c ∈ trailing, isMargin c := by
  refine ⟨text.toList.takeWhile isMargin, (text.toList.dropWhile isMargin).rtakeWhile isMargin,
    ?_, fun c member => List.mem_takeWhile_imp member,
    fun c member => List.mem_rtakeWhile_imp member⟩
  rw [toList_trimMargins, List.append_assoc, List.rdropWhile_append_rtakeWhile,
    List.takeWhile_append_dropWhile]

/-- A trimmed text has no margins. -/
theorem trimMargins_trimMargins (text : String) :
    trimMargins (trimMargins text) = trimMargins text := by
  apply String.toList_injective
  rw [toList_trimMargins (trimMargins text)]
  have front : (trimMargins text).toList.dropWhile isMargin = (trimMargins text).toList := by
    rw [toList_trimMargins]
    have visible := List.head?_dropWhile_not isMargin text.toList
    generalize text.toList.dropWhile isMargin = behind at visible
    obtain ⟨rest, whole⟩ := List.rdropWhile_prefix isMargin behind
    cases shown : behind.rdropWhile isMargin with
    | nil => rfl
    | cons first others =>
      rw [shown] at whole
      rw [← whole] at visible
      exact List.dropWhile_cons_of_neg (Bool.eq_false_iff.mp visible)
  rw [front, toList_trimMargins, List.rdropWhile_idempotent]

/-- The tokens of a line are those of its trimmed text, moved to the right. -/
theorem Scan.exists_ofLine_eq (line : String) : ∃ distance,
    Scan.ofLine line = (Scan.ofLine (trimMargins line)).relabel (.shift distance) := by
  obtain ⟨leading, trailing, text, front, behind⟩ := exists_margins line
  refine ⟨leading.length, ?_⟩
  rw [ofLine_eq, ofLine_eq, text,
    ofText_append_blanks fun c member => isBlank_of_isMargin (behind c member),
    ofText_blanks_append fun c member => isBlank_of_isMargin (front c member), ofText_shift]

/-- Where the line ends has no part in the trees of lines that have one. -/
theorem Scan.tree_ok_length (scan : Scan) (first second : Nat) (expr : Expr) :
    scan.tree first = .ok expr ↔ scan.tree second = .ok expr := by
  rw [tree_eq_ok_iff, tree_eq_ok_iff]

/-- The tree of a line is that of its trimmed text, moved to the right. -/
theorem Context.exists_lineTree_trimMargins {line : String} {tree : Expr}
    (found : lineTree line = .ok tree) : ∃ distance trimmed,
      lineTree (trimMargins line) = .ok trimmed ∧ tree = trimmed.relabel (.shift distance) := by
  obtain ⟨distance, same⟩ := Scan.exists_ofLine_eq line
  have moved := Scan.tree_relabel (.shift distance) (trimMargins line).utf8ByteSize
    (Scan.ofLine (trimMargins line))
  rw [← same] at moved
  rw [lineTree, Scan.tree_ok_length, moved] at found
  cases trimmed : lineTree (trimMargins line) with
  | error diagnosis =>
    rw [lineTree] at trimmed
    rw [trimmed] at found
    contradiction
  | ok tree =>
    rw [lineTree] at trimmed
    rw [trimmed] at found
    exact ⟨distance, tree, rfl, (Except.ok.inj found).symm⟩

end Reckoner
