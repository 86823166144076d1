import Formula.Proofs.Bracket.Count
import Formula.Proofs.Literal.Shape
import Formula.Proofs.Reading.Parts
import Formula.Proofs.Reading.Places

/-!
# Errors of formulas

Why a formula in ASCII without square brackets is not read: its parentheses are not balanced, which
is told of the whole text before anything else, or an operand is missing, or a single character
stands where a number or a letter should. The parts of a balanced text are balanced
(`splits_dissect`), so the first error is never found inside. A formula that is read has been read
to its last character, since every character is in a literal, in an operator or name, in parentheses
or a letter (`parseWith_errors`).
-/

namespace Formula.Reading

open Formula.Bracket

variable {α : Type} [Numeral α] {s : List Char} {c : Char} {x : Expr α}

/-- Can the character be part of a formula? -/
def IsFormulaChar (c : Char) : Prop :=
  c.isAlpha = true ∨ c.isDigit = true ∨ c = '.' ∨ Symbol.isOperatorChar c = true ∨ c = '(' ∨ c = ')'

/-- Can the character be an unknown symbol? The point by itself is one. -/
structure IsUnknown (c : Char) : Prop where
  not_isAlpha : c.isAlpha = false
  not_isDigit : c.isDigit = false
  not_isOperatorChar : Symbol.isOperatorChar c = false
  ne_opening : c ≠ '('
  ne_closing : c ≠ ')'
  not_isBlank : Text.isBlank c = false

/-- The errors of a balanced text: an operand is missing, or a character of the text is unknown. -/
def IsFault (s : List Char) (e : ParseError) : Prop :=
  e = .empty ∨ ∃ c ∈ s, e = .unknownSymbol [c] ∧ IsUnknown c

/-- A fault of a part is one of the whole text, which holds the unknown characters of the part. -/
theorem IsFault.mono {t : List Char} {e : ParseError} (h : IsFault s e)
    (hst : ∀ c ∈ s, IsUnknown c → c ∈ t) :
    IsFault t e := by
  rcases h with h | ⟨c, hc, h, hunknown⟩
  · exact .inl h
  · exact .inr ⟨c, hst c hc hunknown, h, hunknown⟩

/-! ## Errors of parts -/

/-- An operator by itself lacks its operands. -/
theorem fault?_dissect_operator (hc : Symbol.isOperatorChar c = true) :
    (dissect [c]).fault? = none := by
  simp only [Symbol.isOperatorChar, Bool.or_eq_true, beq_iff_eq] at hc
  rcases hc with (((rfl | rfl) | rfl) | rfl) | rfl <;> rfl

/-- What is wrong with the dissection of a text without blanks is a fault of the text. -/
theorem isFault_of_fault? (hs : balanced s = true) (hsquare : '[' ∉ s)
    (hliteral : Literal.isLiteral s = false) (hblank : ∀ c ∈ s, Text.isBlank c = false) :
    ∀ e ∈ (dissect s).fault?, IsFault s e := by
  intro e he
  rcases (splits_dissect hs hsquare).fault e he with rfl | ⟨c, rfl, rfl, halpha⟩
  · exact .inl rfl
  · refine .inr ⟨c, List.mem_singleton_self c, rfl, halpha, ?_, ?_, ?_, ?_,
      hblank c (List.mem_singleton_self c)⟩
    · rw [Bool.eq_false_iff]
      intro hdigit
      rw [Literal.isLiteral_digits (by simp) (List.forall_mem_singleton.2 hdigit)] at hliteral
      cases hliteral
    · rw [Bool.eq_false_iff]
      intro hop
      rw [fault?_dissect_operator hop] at he
      cases he
    · rintro rfl
      cases hs
    · rintro rfl
      cases hs

/-- A balanced text has no other fault. -/
theorem failsOnly_readPart (hs : balanced s = true) (hsquare : '[' ∉ s)
    (hascii : ∀ c ∈ s, c.toNat < 128) (hblank : ∀ c ∈ s, Text.isBlank c = false) :
    FailsOnly (IsFault s) (readPart s : Except ParseError (Expr α)) := by
  have h : ∀ c ∈ s, c.toNat < 128 ∧ Text.isBlank c = false := fun c hc => ⟨hascii c hc, hblank c hc⟩
  clear hascii hblank
  refine part_induction (P := fun s => (∀ c ∈ s, c.toNat < 128 ∧ Text.isBlank c = false) →
    FailsOnly (IsFault s) (readPart s : Except ParseError (Expr α))) ?_ ?_ ?_ ?_ hs hsquare h
  · intro m hm ih h
    have hsub : m ⊆ parenthesised m := fun c hc => by simp [parenthesised, hc]
    rw [readPart_parenthesised hm]
    exact (ih fun c hc => h c (hsub hc)).imp fun e he => he.mono fun c hc _ => hsub hc
  · intro _
    rw [readPart_nil]
    exact failsOnly_error (.inl rfl)
  · intro s hliteral h
    obtain ⟨d, hd⟩ := Decimal.exists_read?_of_isLiteral (fun c hc => (h c hc).1) hliteral
    rw [readPart_literal hliteral, readNumber, hd]
    exact failsOnly_ok _
  · intro s hs hsquare hne hnone hliteral ih h
    rw [readPart_eq_readBody hs hne hnone hliteral]
    refine failsOnly_readBody (isFault_of_fault? hs hsquare hliteral fun c hc => (h c hc).2)
      fun p hp => ?_
    have hsub := ((splits_dissect hs hsquare).piece p hp).subset
    exact (ih p hp fun c hc => h c (hsub hc)).imp fun e he => he.mono fun c hc _ => hsub hc

/-! ## Characters of parts -/

/-- Names hold characters of formulas only. -/
theorem isFormulaChar_of_mem_name {f : Symbol} (hc : c ∈ f.name) : IsFormulaChar c := by
  cases hf : f.isOperator with
  | false => exact .inl (isAlpha_of_mem_name hf c hc)
  | true =>
    obtain ⟨d, hname, hd⟩ := exists_char_of_isOperator hf
    rw [hname, List.mem_singleton] at hc
    exact .inr (.inr (.inr (.inl (hc ▸ hd))))

/-- If its parts are made of such characters, so is a text that was dissected to the end. -/
theorem isFormulaChar_of_dissect (hs : balanced s = true) (hsquare : '[' ∉ s)
    (hfault : (dissect s).fault? = none)
    (hparts : ∀ p ∈ (dissect s).parts, ∀ c ∈ p, IsFormulaChar c) : ∀ c ∈ s, IsFormulaChar c := by
  have hwritten := (splits_dissect hs hsquare).written hfault
  rw [← hwritten] at hsquare ⊢
  have hsign : ∀ c : Char, c = '+' ∨ c = '-' → IsFormulaChar c :=
    fun c hc => .inr (.inr (.inr (.inl (isOperatorChar_of_sign hc))))
  cases hd : dissect s with
  | operation op l r =>
    rw [hd] at hparts
    simp only [Dissection.parts, List.forall_mem_cons] at hparts
    simp only [Dissection.written, List.forall_mem_append]
    exact ⟨⟨hparts.1, fun c => isFormulaChar_of_mem_name⟩, hparts.2.1⟩
  | negated t =>
    rw [hd] at hparts
    exact List.forall_mem_cons.2 ⟨hsign '-' (.inr rfl), hparts t List.mem_cons_self⟩
  | affirmed t =>
    rw [hd] at hparts
    exact List.forall_mem_cons.2 ⟨hsign '+' (.inl rfl), hparts t List.mem_cons_self⟩
  | product l r =>
    rw [hd] at hparts
    simp only [Dissection.parts, List.forall_mem_cons] at hparts
    exact List.forall_mem_append.2 ⟨hparts.1, hparts.2.1⟩
  | letter c => exact List.forall_mem_singleton.2 (.inl (isAlpha_of_dissect hd))
  | refused e =>
    rw [hd] at hfault
    cases hfault
  | call f base before tail =>
    rw [hd] at hfault hparts hsquare
    cases tail with
    | error e => cases hfault
    | ok tail =>
      obtain ⟨operand, after⟩ := tail
      cases base with
      | some b => exact absurd (by simp [Dissection.written]) hsquare
      | none =>
        simp only [Dissection.parts, Option.toList_none, List.nil_append,
          List.forall_mem_cons] at hparts
        simp only [Dissection.written, List.append_nil, List.forall_mem_append]
        exact ⟨⟨hparts.1, fun c => isFormulaChar_of_mem_name⟩, hparts.2.1, hparts.2.2.1⟩

/-- No character of a text that reads is left out. -/
theorem isFormulaChar_of_readPart (hsquare : '[' ∉ s) (hascii : ∀ c ∈ s, c.toNat < 128)
    (h : readPart s = .ok x) :
    ∀ c ∈ s, IsFormulaChar c := by
  refine part_induction (P := fun s => (∀ c ∈ s, c.toNat < 128) → ∀ x : Expr α, readPart s = .ok x →
    ∀ c ∈ s, IsFormulaChar c) ?_ ?_ ?_ ?_ (balanced_of_readPart h) hsquare hascii x h
  · intro m hm ih hascii x h
    rw [readPart_parenthesised hm] at h
    have hinside := ih (fun c hc => hascii c (by simp [parenthesised, hc])) x h
    refine List.forall_mem_cons.2 ⟨?_,
      List.forall_mem_append.2 ⟨hinside, List.forall_mem_singleton.2 ?_⟩⟩
    · simp [IsFormulaChar]
    · simp [IsFormulaChar]
  · intro _ _ _
    exact List.forall_mem_nil _
  · intro s hliteral hascii x _ c hc
    rcases Literal.isAlpha_or_of_isLiteral hliteral hc (hascii c hc) with h | h | h | h
    · exact .inl h
    · exact .inr (.inl h)
    · exact .inr (.inr (.inl h))
    · exact .inr (.inr (.inr (.inl (isOperatorChar_of_sign h))))
  · intro s hs hsquare hne hnone hliteral ih hascii x h
    rw [readPart_eq_readBody hs hne hnone hliteral] at h
    obtain ⟨hfault, hread⟩ := exists_readPart_of_readBody h
    refine isFormulaChar_of_dissect hs hsquare hfault fun p hp => ?_
    by_cases hempty : p = []
    · rw [hempty]
      exact List.forall_mem_nil _
    · obtain ⟨y, hy⟩ := hread p hp hempty
      have hsub := ((splits_dissect hs hsquare).piece p hp).subset
      exact ih p hp (fun c hc => hascii c (hsub hc)) y hy

/-! ## Whole formulas -/

/-- Blanks do not matter for the balance of brackets. -/
theorem balanced_squeezed (s : List Char) : balanced (squeezed s) = balanced s := by
  refine balancedAfter_filter (fun c hc => ?_) s []
  have hblank : Text.isBlank c = true := by simpa using hc
  have hbracket : c ≠ '(' ∧ c ≠ '[' ∧ c ≠ ')' ∧ c ≠ ']' := by
    refine ⟨?_, ?_, ?_, ?_⟩ <;>
      · rintro rfl
        cases hblank
  simp [isOpening, isClosing, hbracket]

/-- The characters of a text without its blanks are those that are no blanks. -/
theorem mem_squeezed : c ∈ squeezed s ↔ c ∈ s ∧ Text.isBlank c = false := by
  simp [squeezed]

/-- Without square brackets the places of omitted signs are always in order. -/
theorem exists_restored? (restore : Bool) (hs : balanced s = true) (hsquare : '[' ∉ s) :
    ∃ u, restored? restore s = some u := by
  cases restore with
  | false => exact ⟨s, rfl⟩
  | true =>
    rw [restored?, if_pos rfl, ← Option.ne_none_iff_exists', Ne, restoreTimes?_eq_none_iff hs]
    rintro ⟨f, before, base, after, -, rfl, -⟩
    simp at hsquare

/-- A balanced formula without square brackets is the part that it is after its signs have been
restored. -/
theorem exists_read_eq_readPart (restore : Bool) (hascii : ∀ c ∈ s, c.toNat < 128)
    (hsquare : '[' ∉ s) (hs : balanced s = true) :
    ∃ u, Starred (squeezed s) u ∧ balanced u = true ∧ '[' ∉ u ∧ (∀ c ∈ u, c.toNat < 128) ∧
      (∀ c ∈ u, Text.isBlank c = false) ∧ (Expr.read restore s : Except ParseError (Expr α)) =
      readPart u := by
  rw [← balanced_squeezed] at hs
  have hsquare : '[' ∉ squeezed s := fun h => hsquare (mem_squeezed.1 h).1
  obtain ⟨u, hu⟩ := exists_restored? restore hs hsquare
  have hstarred := starred_of_restored? hu
  refine ⟨u, hstarred, hstarred.balanced_eq.trans hs, fun h => ?_, fun c hc =>
    ?_, fun c hc => ?_, ?_⟩
  · exact hsquare ((hstarred.mem_or h).resolve_left (by decide))
  · rcases hstarred.mem_or hc with rfl | hc
    · decide
    · exact hascii c (mem_squeezed.1 hc).1
  · rcases hstarred.mem_or hc with rfl | hc
    · rfl
    · exact (mem_squeezed.1 hc).2
  · rw [read_eq (foreignChar?_eq_none.2 hascii) hs, readRestored, hu]

/-- A formula in ASCII without square brackets is refused for its brackets if and only if its
parentheses are not balanced, and then without the blanks around it. If they are, every error is a
missing operand or a character of the text that is unknown. In a formula that is read every
character other than a blank is a letter, a digit, a point, an operator or a parenthesis. -/
theorem parseWith_errors (restore : Bool) (text : String)
    (hascii : ∀ c ∈ text.toList, c.toNat < 128) (hround : ∀ c ∈ text.toList, c ≠ '[' ∧ c ≠ ']') :
    (∀ shown, (Expr.parseWith restore text : Except ParseError (Expr Float)) =
      .error (.unbalanced shown) ↔ ¬ Matched text.toList ∧ shown = Text.trim text.toList) ∧
      (Matched text.toList → ∀ e, (Expr.parseWith restore text : Except ParseError (Expr Float)) =
        .error e → e = .empty ∨ ∃ c ∈ text.toList, e = .unknownSymbol [c] ∧ IsUnknown c) ∧
      ∀ x : Expr Float, Expr.parseWith restore text = .ok x →
        ∀ c ∈ text.toList, Text.isBlank c = true ∨ IsFormulaChar c := by
  rw [← balanced_iff_matched hround]
  unfold Expr.parseWith
  generalize text.toList = s at hascii hround ⊢
  have hsquare : '[' ∉ s := fun h => (hround '[' h).1 rfl
  cases hs : balanced s with
  | false =>
    have hread : (Expr.read restore s : Except ParseError (Expr Float)) =
      .error (.unbalanced (Text.trim s)) :=
      read_eq_unbalanced (foreignChar?_eq_none.2 hascii) ((balanced_squeezed s).trans hs)
    rw [hread]
    refine ⟨fun shown => ?_, fun h => (by cases h), fun x h => by cases h⟩
    simp [eq_comm]
  | true =>
    obtain ⟨u, hstarred, hbalanced, hsquare, hascii, hblank, hread⟩ :=
      exists_read_eq_readPart (α := Float) restore hascii hsquare hs
    rw [hread]
    have hfails : FailsOnly (IsFault u) (readPart u : Except ParseError (Expr Float)) :=
      failsOnly_readPart hbalanced hsquare hascii hblank
    refine ⟨fun shown => ?_, fun _ e he => ?_, fun x hx c hc => ?_⟩
    · refine iff_of_false (fun h => ?_) (by simp)
      rcases hfails _ h with h | ⟨c, -, h, -⟩ <;> cases h
    · -- The signs that were restored are known.
      refine (hfails e he).mono fun c hc hunknown => ?_
      rcases hstarred.mem_or hc with rfl | hc
      · cases hunknown.not_isOperatorChar
      · exact (mem_squeezed.1 hc).1
    · by_cases hcblank : Text.isBlank c = true
      · exact .inl hcblank
      · have hmem : c ∈ u := hstarred.subset (mem_squeezed.2 ⟨hc, by simpa using hcblank⟩)
        exact .inr (isFormulaChar_of_readPart hsquare hascii hx c hmem)

/-- A call that is not closed is reported without the blanks around it. -/
theorem parseWith_errors_open_call :
    (Expr.parseWith true " 2sin(x " : Except ParseError (Expr Float)) =
    .error (.unbalanced ['2', 's', 'i', 'n', '(', 'x']) := by
  have hascii : ∀ c ∈ " 2sin(x ".toList, c.toNat < 128 := foreignChar?_eq_none.1 rfl
  have hround : ∀ c ∈ " 2sin(x ".toList, c ≠ '[' ∧ c ≠ ']' := by simp
  have hcount : ¬ Matched " 2sin(x ".toList := fun h => absurd h.2 (by decide)
  exact ((parseWith_errors true " 2sin(x " hascii hround).1 _).2 ⟨hcount, rfl⟩

end Formula.Reading
