import Formula.Proofs.Reading.Dissection
import Formula.Reading.Parse

/-!
# What a dissected text reads as

One equation for each kind of dissection (`readBody_operation` and so on), and the two ways into a
part: parentheses around it do not count (`readPart_parenthesised`), and a part that is neither
enclosed nor a literal reads as its topmost operation (`readPart_eq_readBody`).
-/

namespace Formula.Reading

open Formula.Bracket

variable {α : Type} [Numeral α] {s l r : List Char} {x y : Expr α}

/-! ## Dissections -/

/-- A text taken apart at an operator reads as the operation on what its operands read as. -/
theorem readBody_operation {op : Symbol} (h : dissect s = .operation op l r)
    (hl : readPart l = .ok x) (hr : readPart r = .ok y) : readBody s = .ok (op.combine x y) := by
  rw [readBody]
  split <;> rename_i heq <;> rw [h] at heq <;> cases heq
  rw [hl, hr]
  rfl

/-- A text behind a minus reads as the opposite. -/
theorem readBody_negated (h : dissect s = .negated r) (hr : readPart r = .ok x) :
    readBody s = .ok (negate x) := by
  rw [readBody]
  split <;> rename_i heq <;> rw [h] at heq <;> cases heq
  rw [hr]
  rfl

/-- A text behind a plus reads as it does without. -/
theorem readBody_affirmed (h : dissect s = .affirmed r) (hr : readPart r = .ok x) :
    readBody s = .ok x := by
  rw [readBody]
  split <;> rename_i heq <;> rw [h] at heq <;> cases heq
  exact hr

/-- A call with nothing before it and nothing behind it reads as the function of its operand. -/
theorem readBody_call {f : Symbol} (h : dissect s = .call f none [] (.ok (r, [])))
    (hr : readPart r = .ok x) : readBody s = .ok (f.apply x) := by
  rw [readBody]
  split <;> rename_i heq <;> rw [h] at heq <;> cases heq
  simp [hr]

/-- A logarithm with nothing before it and nothing behind it reads as the logarithm of its operand
to its base. -/
theorem readBody_logarithm {f : Symbol} (h : dissect s = .call f (some l) [] (.ok (r, [])))
    (hl : readPart l = .ok x) (hr : readPart r = .ok y) :
    readBody s = .ok (Expr.logarithm x y) := by
  rw [readBody]
  split <;> rename_i heq <;> rw [h] at heq <;> cases heq
  simp [hl, hr, Except.map, bind, Except.bind, pure, Except.pure]

/-- A letter reads as its leaf. -/
theorem readBody_letter {c : Char} (h : dissect s = .letter c) :
    (readBody s : Except ParseError (Expr α)) = .ok (leaf c) := by
  rw [readBody]
  split <;> rename_i heq <;> rw [h] at heq <;> cases heq
  rfl

/-- The reason why a text is refused is reported. -/
theorem readBody_refused {e : ParseError} (h : dissect s = .refused e) :
    (readBody s : Except ParseError (Expr α)) = .error e := by
  rw [readBody]
  split <;> rename_i heq <;> rw [h] at heq <;> cases heq
  rfl

/-! ## Parts -/

/-- What is entered is what is left of a balanced text when the parentheses around it are taken
off. -/
theorem enter_eq_ok {shown : List Char} {t : { t : List Char // t.length ≤ s.length }}
    (h : enter shown s = .ok t) :
    balanced s = true ∧ strip s ≠ [] ∧ t.val = strip s := by
  unfold enter at h
  split at h
  · cases h
  next hs =>
    split at h
    · cases h
    next hne =>
      obtain rfl := Except.ok.inj h
      exact ⟨by simpa using hs, by simpa using hne, rfl⟩

/-- A balanced text that nothing encloses is entered as it is. -/
theorem enter_eq_of_bare {shown : List Char} (hs : balanced s = true) (hne : s ≠ [])
    (hnone : enclosed? s = none) :
    enter shown s = .ok ⟨s, Nat.le_refl s.length⟩ := by
  have hstrip := strip_of_enclosed?_eq_none hnone
  simp [enter, hs, hstrip, hne]

/-- A balanced text reads as what is left of it when the parentheses around it are taken off. -/
theorem readPart_eq (hs : balanced s = true) (hne : strip s ≠ []) :
    (readPart s : Except ParseError (Expr α)) =
      if Literal.isLiteral (strip s) then readNumber (strip s) else readBody (strip s) := by
  rw [readPart, enter]
  simp [hs, hne]

/-- The empty text is reported as such. -/
theorem readPart_nil : (readPart [] : Except ParseError (Expr α)) = .error .empty := by
  simp [readPart, enter, balanced, balancedAfter, strip_of_enclosed?_eq_none (s := []) rfl]

/-- A part that reads has balanced brackets. -/
theorem balanced_of_readPart (h : readPart s = .ok x) : balanced s = true := by
  cases hs : balanced s with
  | true => rfl
  | false => simp [readPart, enter, hs] at h

/-- Parentheses around a part do not count. -/
theorem readPart_parenthesised (hs : balanced s = true) :
    (readPart (parenthesised s) : Except ParseError (Expr α)) = readPart s := by
  rw [readPart, readPart]
  simp only [enter, balanced_parenthesised hs, hs, strip_parenthesised hs]
  by_cases hne : (strip s).isEmpty = true <;> simp [hne]

/-- A text that is neither enclosed in parentheses nor a literal reads as its topmost operation. -/
theorem readPart_eq_readBody (hs : balanced s = true) (hne : s ≠ [])
    (henclosed : enclosed? s = none) (hliteral : Literal.isLiteral s = false) :
    (readPart s : Except ParseError (Expr α)) = readBody s := by
  have hstrip := strip_of_enclosed?_eq_none henclosed
  rw [readPart_eq hs (by rwa [hstrip]), hstrip, hliteral]
  rfl

/-- A text without brackets encloses nothing. -/
theorem enclosed?_of_plain (h : Plain s) : enclosed? s = none := by
  cases s with
  | nil => rfl
  | cons c s =>
    refine enclosed?_eq_none_of_ne ?_ s
    rintro rfl
    have := (h '(' List.mem_cons_self).1
    cases this

/-- A literal holds no bracket. -/
theorem plain_of_isLiteral (h : Literal.isLiteral s = true) : Plain s := by
  intro c hc
  have hround : '(' ∉ s := Literal.not_mem_of_isLiteral_of_foreign (by decide) h
  have hround' : ')' ∉ s := Literal.not_mem_of_isLiteral_of_foreign (by decide) h
  have hsquare : '[' ∉ s := Literal.not_mem_of_isLiteral_of_foreign (by decide) h
  have hsquare' : ']' ∉ s := Literal.not_mem_of_isLiteral_of_foreign (by decide) h
  constructor
  · simp only [isOpening, Bool.or_eq_false_iff, beq_eq_false_iff_ne]
    exact ⟨fun h => hround (h ▸ hc), fun h => hsquare (h ▸ hc)⟩
  · simp only [isClosing, Bool.or_eq_false_iff, beq_eq_false_iff_ne]
    exact ⟨fun h => hround' (h ▸ hc), fun h => hsquare' (h ▸ hc)⟩

/-- The empty text is no literal. -/
theorem not_isLiteral_nil : Literal.isLiteral [] = false := by
  decide

/-- A literal reads as its number. -/
theorem readPart_literal (h : Literal.isLiteral s = true) :
    (readPart s : Except ParseError (Expr α)) = readNumber s := by
  have hstrip := strip_of_enclosed?_eq_none (enclosed?_of_plain (plain_of_isLiteral h))
  have hne : s ≠ [] := by
    rintro rfl
    rw [not_isLiteral_nil] at h
    cases h
  rw [readPart_eq (balanced_of_plain (plain_of_isLiteral h)) (by rwa [hstrip]), hstrip, h]
  rfl

/-- A minus sign before a literal negates its number. -/
theorem readNumber_minus [Numeral.Signed α] (hs : Decimal.splitSign s = (false, s))
    (h : readNumber s = .ok x) : readNumber ('-' :: s) = .ok (negate x) := by
  simp only [readNumber] at h
  split at h
  next d hd =>
    obtain rfl := Except.ok.inj h
    rw [readNumber, Decimal.read?_minus hs, hd, Option.map_some]
    simp only [Numeral.Signed.ofDecimal_negated d (Decimal.isNegative_of_read? hs hd)]
    rfl
  · cases h

/-- A plus in front of a number that has no sign makes no difference. -/
theorem readNumber_plus (hs : Decimal.splitSign s = (false, s)) (h : readNumber s = .ok x) :
    readNumber ('+' :: s) = .ok x := by
  simp only [readNumber, Decimal.read?_plus hs] at h ⊢
  split at h
  next d hd => simpa [hd] using h
  · cases h

end Formula.Reading
