import Reckoner.Context.Reader
import Reckoner.Proofs.Margins
/-!
# Readers and scans

A reader hands out the tokens of the scan of its line, one at a time and in order. What it is asked
for in between, the token in front of it or the end of the line, changes neither the tokens nor
where and how reading fails.
-/

namespace Reckoner.Reader

variable (context : Context)

/-- The tokens that a reader has still to hand out, and what stops it in front of the end. -/
def remaining (reader : Reader) : Scan :=
  let further := (Scan.ofText reader.place reader.unread).resolve context
  { further with tokens := reader.ahead.toList ++ further.tokens }

/-- What a reader reports behind its last token. -/
def fault (reader : Reader) : Diagnosis :=
  (reader.remaining context).stop.getD ⟨.noFurtherToken, reader.length⟩

variable {context}

/-- In front of a line its scan remains. -/
theorem remaining_ofLine (line : String) : (ofLine line).remaining context = context.scan line :=
  rfl

/-- Blanks make no difference to what remains. -/
theorem remaining_skipBlanks (reader : Reader) :
    reader.skipBlanks.remaining context = reader.remaining context := by
  have blank : ∀ c ∈ reader.unread.takeWhile isBlank, isBlank c = true :=
    List.all_eq_true.mp List.all_takeWhile
  have skipped := Scan.ofText_blanks_append blank reader.place (reader.unread.dropWhile isBlank)
  rw [List.takeWhile_append_dropWhile] at skipped
  rw [remaining, remaining, skipped]
  rfl

/-- What remains of a line is what its text is read as, if no token has been looked at. -/
theorem remaining_of_clear {reader : Reader} (clear : reader.ahead = none) :
    reader.remaining context = (Scan.ofText reader.place reader.unread).resolve context := by
  rw [remaining, clear]
  rfl

section

variable {reader : Reader} {found : Token} {tokens : List Token}

/-- The first remaining token is read. -/
theorem read_of_cons (clear : reader.ahead = none)
    (left : (reader.remaining context).tokens = found :: tokens) :
    ∃ behind, reader.read context = (.ok found, behind) ∧ behind.length = reader.length ∧
      behind.ahead = none ∧
      behind.remaining context = ⟨tokens, (reader.remaining context).stop⟩ := by
  rw [remaining_of_clear clear] at left ⊢
  cases text : reader.unread.dropWhile isBlank with
  | nil =>
    rw [Scan.ofText_of_blank text] at left
    contradiction
  | cons first rest =>
    cases outcome : Scan.token (reader.place + (reader.unread.takeWhile isBlank).length) first
      rest with
    | mk result behind =>
      cases result with
      | error diagnosis =>
        rw [Scan.ofText_of_error text rfl (congrArg Prod.fst outcome)] at left
        contradiction
      | ok token =>
        rw [Scan.ofText_of_ok text rfl (congrArg Prod.fst outcome), outcome] at left ⊢
        obtain ⟨rfl, rfl⟩ := List.cons.inj left
        refine ⟨⟨reader.length, token.stop + 1, behind, reader.ahead⟩, ?_, rfl, clear, ?_⟩
        · simp only [read, skipBlanks, text, outcome]
        · exact remaining_of_clear clear

/-- Behind the last token reading fails. -/
theorem read_of_nil (clear : reader.ahead = none)
    (left : (reader.remaining context).tokens = []) :
    ∃ behind, reader.read context = (.error (reader.fault context), behind) := by
  rw [fault]
  rw [remaining_of_clear clear] at left ⊢
  cases text : reader.unread.dropWhile isBlank with
  | nil =>
    rw [Scan.ofText_of_blank text]
    exact ⟨reader.skipBlanks, by simp only [read, skipBlanks, text]; rfl⟩
  | cons first rest =>
    cases outcome : Scan.token (reader.place + (reader.unread.takeWhile isBlank).length) first
      rest with
    | mk result behind =>
      cases result with
      | ok token =>
        rw [Scan.ofText_of_ok text rfl (congrArg Prod.fst outcome)] at left
        contradiction
      | error diagnosis =>
        rw [Scan.ofText_of_error text rfl (congrArg Prod.fst outcome)]
        simp only [read, skipBlanks, text, outcome]
        exact ⟨_, rfl⟩

end

/-- The next token is the first remaining one. -/
theorem next_of_cons {reader : Reader} {found : Token} {tokens : List Token}
    (left : (reader.remaining context).tokens = found :: tokens) :
    ∃ behind, reader.next context = (.ok found, behind) ∧ behind.length = reader.length ∧
      behind.remaining context = ⟨tokens, (reader.remaining context).stop⟩ := by
  cases looked : reader.ahead with
  | none =>
    obtain ⟨behind, outcome, length, _, further⟩ := read_of_cons looked left
    exact ⟨behind, by rw [next, looked, outcome], length, further⟩
  | some token =>
    rw [remaining, looked] at left
    obtain ⟨rfl, rfl⟩ := List.cons.inj left
    exact ⟨{ reader with ahead := none }, by rw [next, looked], rfl, rfl⟩

/-- Behind the last token no further one can be handed out. -/
theorem next_of_nil {reader : Reader} (left : (reader.remaining context).tokens = []) :
    ∃ behind, reader.next context = (.error (reader.fault context), behind) := by
  cases looked : reader.ahead with
  | none =>
    obtain ⟨behind, outcome⟩ := read_of_nil looked left
    exact ⟨behind, by rw [next, looked, outcome]⟩
  | some token =>
    rw [remaining, looked] at left
    contradiction

/-- The token that is looked at is the first remaining one, and it remains. -/
theorem peek_of_cons {reader : Reader} {found : Token} {tokens : List Token}
    (left : (reader.remaining context).tokens = found :: tokens) :
    ∃ behind, reader.peek context = (.ok found, behind) ∧ behind.length = reader.length ∧
      behind.remaining context = reader.remaining context := by
  cases looked : reader.ahead with
  | none =>
    obtain ⟨behind, outcome, length, clear, further⟩ := read_of_cons looked left
    have kept : ({ behind with ahead := some found } : Reader).remaining context =
        reader.remaining context := by
      rw [remaining_of_clear clear] at further
      have shown : ({ behind with ahead := some found } : Reader).remaining context =
          ⟨found :: ((Scan.ofText behind.place behind.unread).resolve context).tokens,
            ((Scan.ofText behind.place behind.unread).resolve context).stop⟩ := rfl
      rw [shown, further, ← left]
    exact ⟨{ behind with ahead := some found }, by rw [peek, looked, outcome], length, kept⟩
  | some token =>
    rw [remaining, looked] at left
    obtain ⟨rfl, rfl⟩ := List.cons.inj left
    exact ⟨reader, by rw [peek, looked], rfl, rfl⟩

/-- Behind the last token none can be looked at. -/
theorem peek_of_nil {reader : Reader} (left : (reader.remaining context).tokens = []) :
    ∃ behind, reader.peek context = (.error (reader.fault context), behind) := by
  cases looked : reader.ahead with
  | none =>
    obtain ⟨behind, outcome⟩ := read_of_nil looked left
    exact ⟨behind, by rw [peek, looked, outcome]⟩
  | some token =>
    rw [remaining, looked] at left
    contradiction

/-- The question for the end leaves everything as it is. -/
theorem remaining_eof (context : Context) (reader : Reader) :
    reader.eof.2.length = reader.length ∧
      reader.eof.2.remaining context = reader.remaining context := by
  unfold eof
  split
  · exact ⟨rfl, rfl⟩
  · exact ⟨rfl, remaining_skipBlanks reader⟩

/-- This is the outcome of so many calls for the next token: the reader hands out the first of its
remaining tokens, as many as are asked for, and it fails only behind the last one, always with the
same report. -/
def HandsOut (context : Context) (reader : Reader) (count : Nat)
    (outcome : List Token × Option Diagnosis) : Prop :=
  outcome.1 = (reader.remaining context).tokens.take count ∧
    (outcome.2 = none ∧ count ≤ (reader.remaining context).tokens.length ∨
      outcome.2 = some (reader.fault context) ∧
        (reader.remaining context).tokens.length ≤ count)

section

variable {reader behind : Reader} {count : Nat} {outcome : List Token × Option Diagnosis}

/-- Behind the last token a reader hands out nothing and fails. -/
theorem handsOut_of_nil (left : (reader.remaining context).tokens = []) (count : Nat) :
    reader.HandsOut context count ([], some (reader.fault context)) := by
  rw [HandsOut, left]
  exact ⟨List.take_nil.symm, Or.inr ⟨rfl, Nat.zero_le _⟩⟩

/-- What a reader hands out follows the token that was handed out in front of it. -/
theorem HandsOut.cons {found : Token} {tokens : List Token}
    (left : (reader.remaining context).tokens = found :: tokens)
    (length : behind.length = reader.length)
    (further : behind.remaining context = ⟨tokens, (reader.remaining context).stop⟩)
    (hands : behind.HandsOut context count outcome) :
    reader.HandsOut context (count + 1) (found :: outcome.1, outcome.2) := by
  obtain ⟨handed, ending⟩ := hands
  have kept : behind.fault context = reader.fault context := by
    rw [fault, fault, length, further]
  rw [kept, further] at ending
  rw [further] at handed
  rw [HandsOut, left, List.take_succ_cons, List.length_cons]
  refine ⟨congrArg (found :: ·) handed, ?_⟩
  exact ending.imp (And.imp_right Nat.succ_le_succ) (And.imp_right Nat.succ_le_succ)

/-- What a reader hands out depends only on its length and on what remains. -/
theorem HandsOut.congr (length : behind.length = reader.length)
    (same : behind.remaining context = reader.remaining context)
    (hands : behind.HandsOut context count outcome) : reader.HandsOut context count outcome := by
  have kept : behind.fault context = reader.fault context := by
    rw [fault, fault, length, same]
  rwa [HandsOut, same, kept] at hands

end

/-- However a reader is called, only the calls for the next token matter to what it hands out. -/
theorem handsOut_run (context : Context) (calls : List Call) (reader : Reader) :
    reader.HandsOut context (calls.count .next) (run context calls reader) := by
  induction calls generalizing reader with
  | nil => exact ⟨rfl, Or.inl ⟨rfl, Nat.zero_le _⟩⟩
  | cons call calls ih =>
    cases call with
    | next =>
      rw [List.count_cons_self]
      cases left : (reader.remaining context).tokens with
      | nil =>
        obtain ⟨behind, outcome⟩ := next_of_nil left
        rw [run, outcome]
        exact handsOut_of_nil left _
      | cons found tokens =>
        obtain ⟨behind, outcome, length, further⟩ := next_of_cons left
        rw [run, outcome]
        exact (ih behind).cons left length further
    | peek =>
      rw [List.count_cons_of_ne (by decide)]
      cases left : (reader.remaining context).tokens with
      | nil =>
        obtain ⟨behind, outcome⟩ := peek_of_nil left
        rw [run, outcome]
        exact handsOut_of_nil left _
      | cons found tokens =>
        obtain ⟨behind, outcome, length, same⟩ := peek_of_cons left
        rw [run, outcome]
        exact (ih behind).congr length same
    | eof =>
      rw [List.count_cons_of_ne (by decide)]
      obtain ⟨length, same⟩ := remaining_eof context reader
      rw [run]
      exact (ih reader.eof.2).congr length same

end Reckoner.Reader
