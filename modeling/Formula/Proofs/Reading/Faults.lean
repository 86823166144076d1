import Formula.Decimal.Shortest
import Formula.Proofs.Reading.Parts
import Formula.Proofs.Reading.Places

/-!
# Signs out of order as a fault

A formula with a logarithm whose base leaves out a sign, behind an operand, cannot be read, although
nothing is wrong with its characters and its brackets. The parts of a formula never fail in this
way, since their signs have been restored, so `exists_parse_eq_outOfOrder_iff` tells the formulas
for which it happens.
-/

namespace Formula.Reading

open Formula.Bracket

variable {α β γ : Type} {s : List Char}

/-- The reading does not fail for signs out of order. -/
def InOrder (r : Except ParseError β) : Prop :=
  ∀ t, r ≠ .error (.outOfOrder t)

/-- What succeeds does not fail for signs out of order. -/
theorem inOrder_ok (x : β) : InOrder (.ok x) :=
  fun _ h => by cases h

/-! ## Dissections -/

/-- What a dissection refuses, it refuses for another reason than signs out of order. -/
def Dissection.InOrder : Dissection → Prop
  | refused e => ∀ t, e ≠ .outOfOrder t
  | call _ _ _ tail => Reading.InOrder tail
  | operation .. | negated _ | affirmed _ | product .. | letter _ => True

/-- Splitting off an operand may find none, but no signs out of order. -/
theorem inOrder_splitOperand (whole s : List Char) : InOrder (splitOperand whole s) := by
  cases s with
  | nil => exact fun t h => by cases h
  | cons c s =>
    rw [splitOperand]
    split
    · split
      · exact inOrder_ok _
      · exact fun t h => by cases h
    · exact inOrder_ok _

/-- A text cut at a function name is refused for want of an operand at most. -/
theorem inOrder_callAt (f : Symbol) (k : Cut) : (callAt f k).InOrder := by
  rw [callAt]
  split
  · split
    · exact inOrder_splitOperand _ _
    · exact fun t h => by cases h
  · exact inOrder_splitOperand _ _

/-- A row of symbols is refused for an unknown one at most. -/
theorem inOrder_symbols (s : List Char) : (symbols s).InOrder := by
  unfold symbols
  split
  · exact fun t h => by cases h
  · split
    · trivial
    · exact fun t h => by cases h
  · split
    · split
      · split
        · exact fun t h => by cases h
        · trivial
      · exact fun t h => by cases h
    · trivial

/-- A text that is taken apart is not refused for signs out of order. -/
theorem inOrder_dissect (s : List Char) : (dissect s).InOrder :=
  dissect_induction (fun _ _ _ _ => trivial) (fun _ _ => trivial) (fun _ _ => trivial)
    (fun f _ k _ _ _ => inOrder_callAt f k) (inOrder_symbols s)

/-- What is wrong with a dissection that is in order is something else than signs out of order. -/
theorem Dissection.InOrder.fault {d : Dissection} (h : d.InOrder) :
    ∀ e ∈ d.fault?, ∀ t, e ≠ .outOfOrder t := by
  intro e he t
  cases d with
  | refused e' =>
    obtain rfl := Option.some.inj he
    exact h t
  | call f base before tail =>
    cases tail with
    | ok => cases he
    | error e' =>
      obtain rfl := Option.some.inj he
      exact fun heq => h t (by rw [heq])
  | operation | negated | affirmed | product | letter => cases he

/-! ## Parts of formulas -/

section
variable [Numeral α]

/-- A number that cannot be read is reported as such. -/
theorem inOrder_readNumber (s : List Char) :
    InOrder (readNumber s : Except ParseError (Expr α)) := by
  unfold readNumber
  split
  · exact inOrder_ok _
  · exact fun t h => by cases h

/-- What cannot be entered is empty or unbalanced. -/
theorem inOrder_enter (shown s : List Char) : InOrder (enter shown s) := by
  unfold enter
  split
  · exact fun t h => by cases h
  · split
    · exact fun t h => by cases h
    · exact inOrder_ok _

/-- To be in order is to fail only with errors other than signs out of order. -/
theorem inOrder_iff_failsOnly {r : Except ParseError β} :
    InOrder r ↔ FailsOnly (fun e => ∀ t, e ≠ .outOfOrder t) r := by
  constructor
  · intro h e he t heq
    exact h t (by rw [he, heq])
  · intro h t ht
    exact h _ ht t rfl

/-- A text is read in order if its parts are. -/
theorem inOrder_readBody
    (ih : ∀ t : List Char, t.length < s.length →
      InOrder (readPart t : Except ParseError (Expr α))) :
    InOrder (readBody s : Except ParseError (Expr α)) :=
  inOrder_iff_failsOnly.2 (failsOnly_readBody (inOrder_dissect s).fault fun p hp =>
    inOrder_iff_failsOnly.1 (ih p (length_lt_of_mem_parts hp)))

/-- No part of a formula fails for signs out of order. -/
theorem inOrder_readPart (s : List Char) : InOrder (readPart s : Except ParseError (Expr α)) := by
  induction hn : s.length using Nat.strongRecOn generalizing s with
  | ind n ih =>
    rw [readPart]
    split
    next e he => exact fun t h => inOrder_enter s s t (by rw [he, Except.error.inj h])
    next t ht _ =>
      split
      · exact inOrder_readNumber t
      · exact inOrder_readBody fun u hu => ih u.length (by omega) u rfl

/-! ## Whole formulas -/

/-- The reading of a formula fails for signs out of order if and only if restoring them does. -/
theorem exists_read_eq_outOfOrder_iff :
    (∃ t, (Expr.read true s : Except ParseError (Expr α)) = .error (.outOfOrder t)) ↔
      (∀ c ∈ s, c.toNat < 128) ∧ balanced (squeezed s) = true ∧
      restoreTimes? (squeezed s) = none := by
  rw [← foreignChar?_eq_none]
  cases hforeign : foreignChar? s with
  | some c => simp [Expr.read, hforeign]
  | none =>
    cases hbalanced : balanced (squeezed s) with
    | false => simp [read_eq_unbalanced hforeign hbalanced]
    | true =>
      rw [read_eq hforeign hbalanced, readRestored]
      cases hrestored : restoreTimes? (squeezed s) with
      | none => simp [restored?, hrestored]
      | some u =>
        simp only [restored?, hrestored, if_true]
        refine iff_of_false ?_ (by simp)
        rintro ⟨t, ht⟩
        exact inOrder_readPart u t ht

/-- A formula is not read for signs out of order if and only if it is in ASCII, its brackets are
balanced, and it has a logarithm behind an operand with a sign left out in its base. -/
theorem exists_parse_eq_outOfOrder_iff (text : String) :
    (∃ t, (Expr.parse text : Except ParseError (Expr Float)) = .error (.outOfOrder t)) ↔
      (∀ c ∈ text.toList, c.toNat < 128) ∧ balanced (squeezed text.toList) = true ∧
        SplitsBase (squeezed text.toList) := by
  rw [Expr.parse, Expr.parseWith, exists_read_eq_outOfOrder_iff]
  refine and_congr_right fun _ => and_congr_right fun hbalanced => ?_
  exact restoreTimes?_eq_none_iff hbalanced

/-- In any text the places of both passes lie in the text, those of the second pass strictly from
left to right, and signs are restored if and only if those of the first pass go from left to right.
In a balanced text these do so, strictly, unless a logarithm with a base stands behind an operand
and leaves out a sign in its base. Such logarithms are all that keeps a formula from being read, or
refused for what is wrong with it. -/
theorem places_and_formulas_in_order (text : String) :
    let s := text.toList
    (∀ p ∈ openJoints s, p ≤ s.length) ∧ (∀ p ∈ closeJoints s, p ≤ s.length) ∧
      (closeJoints s).Pairwise (· < ·) ∧
      ((restoreTimes? s).isSome = true ↔ (openJoints s).Pairwise (· ≤ ·)) ∧
      (balanced s = true → ((openJoints s).Pairwise (· < ·) ↔ ¬ SplitsBase s)) ∧
      ((∃ t, (Expr.parse text : Except ParseError (Expr Float)) = .error (.outOfOrder t)) ↔
        (∀ c ∈ s, c.toNat < 128) ∧ balanced (squeezed s) = true ∧ SplitsBase (squeezed s)) := by
  intro s
  have hopen : ∀ p ∈ openJoints s, p ≤ s.length := fun p => le_of_mem_openJoints
  have hclose : ∀ p ∈ closeJoints s, p ≤ s.length := fun p => le_of_mem_closeJoints
  exact ⟨hopen, hclose, pairwise_closeJoints s, isSome_restoreTimes?, pairwise_openJoints_iff,
    exists_parse_eq_outOfOrder_iff text⟩

end

/-- A logarithm behind an operand whose base leaves out a sign as well. In the second text, which is
not balanced, both parentheses have the same place. -/
theorem places_and_formulas_in_order_split_base :
    openJoints "2log[3(x)](y)".toList = [6, 1] ∧ balanced "2log[3(x)](y)".toList = true ∧
      SplitsBase "2log[3(x)](y)".toList ∧
      (∃ t, (Expr.parse "2log[3(x)](y)" : Except ParseError (Expr Float)) =
        .error (.outOfOrder t)) ∧
      openJoints "2log(x](y)".toList = [1, 1] ∧
      (restoreTimes? "2log(x](y)".toList).isSome = true := by
  have hjoints : openJoints "2log[3(x)](y)".toList = [6, 1] := by decide
  have hbalanced : balanced "2log[3(x)](y)".toList = true := rfl
  have hascii : ∀ c ∈ "2log[3(x)](y)".toList, c.toNat < 128 := foreignChar?_eq_none.1 rfl
  obtain ⟨-, -, -, -, hordered, hrefused⟩ := places_and_formulas_in_order "2log[3(x)](y)"
  have hsplits : SplitsBase "2log[3(x)](y)".toList := Classical.byContradiction fun h => by
    have hsorted := (hordered hbalanced).2 h
    rw [hjoints] at hsorted
    exact absurd hsorted (by decide)
  have htwice : openJoints "2log(x](y)".toList = [1, 1] := by decide
  obtain ⟨-, -, -, hrestored, -⟩ := places_and_formulas_in_order "2log(x](y)"
  exact ⟨hjoints, hbalanced, hsplits, hrefused.2 ⟨hascii, hbalanced, hsplits⟩, htwice,
    hrestored.2 (htwice ▸ by decide)⟩

end Formula.Reading
