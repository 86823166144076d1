import Formula.Proofs.Reading.Operand

/-!
# Runs of symbols

A run is a number or a letter with letters directly behind it, as `2xy`. The reader takes its last
symbol off and reads the rest again from the beginning, so a run means the product of its symbols
from left to right, so long as no beginning of it is a word for a number and no function name stands
in it (`IsRun.letter`).
-/

namespace Formula.Reading

open Formula.Bracket

variable {α : Type} [Numeral α] {s l r : List Char} {x y : Expr α} {c : Char}

/-- A letter, a digit or a point. -/
def IsSymbolChar (c : Char) : Prop :=
  c.isAlpha = true ∨ c.isDigit = true ∨ c = '.'

/-- Letters behind each other, or behind a number, that hold no function name and read by
themselves. -/
structure IsRun (s : List Char) (x : Expr α) : Prop where
  ne_nil : s ≠ []
  chars : ∀ c ∈ s, IsSymbolChar c
  nameless : ∀ f ∈ Symbol.functions, ¬ f.name <:+: s
  reads : readPart s = .ok x

/-- A character of a run is no bracket, no operator and no blank. -/
theorem IsSymbolChar.plain (h : IsSymbolChar c) :
    (isOpening c = false ∧ isClosing c = false) ∧ Symbol.isOperatorChar c = false ∧
      Text.isBlank c = false := by
  rcases h with h | h | rfl
  · have hplain := plain_of_isAlpha h
    exact ⟨⟨hplain.1, hplain.2.1⟩, hplain.2.2, not_isBlank_of_isAlpha h⟩
  · exact ⟨(plain_of_isDigit h).1, (plain_of_isDigit h).2.1, not_isBlank_of_isDigit h⟩
  · decide

/-- Symbols are characters of ASCII. -/
theorem IsSymbolChar.toNat_lt (h : IsSymbolChar c) : c.toNat < 128 := by
  rcases h with h | h | rfl
  · exact toNat_lt_of_isAlpha h
  · exact toNat_lt_of_isDigit h
  · decide

/-- A row of symbols holds no brackets. -/
theorem plain_of_symbolChars (h : ∀ c ∈ s, IsSymbolChar c) : Plain s :=
  fun c hc => (h c hc).plain.1

/-- A row of symbols holds no operators. -/
theorem quiet_of_symbolChars (h : ∀ c ∈ s, IsSymbolChar c) : Quiet s :=
  fun _ c _ hs _ => (h c (by simp [hs])).plain.2.1

/-- A run of letters is an atom. -/
theorem IsRun.isAtom (h : IsRun s x) : IsAtom s x :=
  ⟨h.ne_nil, quiet_of_symbolChars h.chars, h.reads⟩

/-! ## The last letter -/

/-- Two texts side by side read as the product of what they read as. -/
theorem readBody_product (h : dissect s = .product l r) (hl : readPart l = .ok x)
    (hr : readPart r = .ok y) :
    readBody s = .ok (.mul x y) := by
  rw [readBody]
  split <;> rename_i heq <;> rw [h] at heq <;> cases heq
  rw [hl, hr]
  rfl

/-- A text without function names holds no call. -/
theorem call?_eq_none (h : ∀ f ∈ Symbol.functions, ¬ f.name <:+: s) : call? s = none := by
  refine List.findSome?_eq_none_iff.2 fun f hf => ?_
  rw [nameCut?_eq_none, Option.map_none]
  intro a c b hs _ hname
  refine h f hf (hname.isInfix.trans ?_)
  rw [hs]
  exact (List.suffix_append a (c :: b)).isInfix

/-- The last letter of a run is taken off as a factor. -/
theorem dissect_run (hne : s ≠ []) (hchars : ∀ d ∈ s ++ [c], IsSymbolChar d)
    (hnames : ∀ f ∈ Symbol.functions, ¬ f.name <:+: s ++ [c]) :
    dissect (s ++ [c]) = .product s [c] := by
  rw [dissect_quiet (by simp) (quiet_of_symbolChars hchars), call?_eq_none hnames, Option.getD_none]
  refine symbols_concat hne ?_
  rintro rfl
  have := (hchars ')' (by simp)).plain.1.2
  cases this

/-- Behind an unsigned literal in digits a letter makes no literal. -/
theorem not_isDigits_letter (hc : c.isAlpha = true) (s : List Char) :
    Literal.isDigits (s ++ [c]) = false := by
  rw [Bool.eq_false_iff]
  intro h
  simp only [Literal.isDigits, List.foldlM_append, List.foldlM_cons, List.foldlM_nil, bind_pure,
    Option.bind_eq_bind, Option.any_eq_true, Option.bind_eq_some_iff] at h
  obtain ⟨q, ⟨p, -, hq⟩, hfinal⟩ := h
  have hdigit := isDecimalDigit_of_isAlpha hc
  cases Literal.Phase.goes_of_next hq with
  | startPoint | wholePoint => cases hc
  | wholeMark | fractionMark | markSign => cases hfinal
  | startDigit hd | wholeDigit hd | barePointDigit hd | fractionDigit hd | markDigit hd
  | markSignDigit hd
  | exponentDigit hd =>
    rw [hdigit] at hd
    cases hd

/-- A row of symbols has no sign in front. -/
theorem splitSign_of_symbolChars (h : ∀ c ∈ s, IsSymbolChar c) :
    Decimal.splitSign s = (false, s) := by
  have hsign : ∀ c : Char, c = '-' ∨ c = '+' → ¬ IsSymbolChar c := by
    intro c hc h
    have := h.plain.2.1
    rw [isOperatorChar_of_sign hc.symm] at this
    cases this
  unfold Decimal.splitSign
  split
  · exact absurd (h '-' List.mem_cons_self) (hsign '-' (Or.inl rfl))
  · exact absurd (h '+' List.mem_cons_self) (hsign '+' (Or.inr rfl))
  · rfl

/-- A run goes on with a letter, unless that ends a function name or makes the run a word for a
number. -/
theorem IsRun.letter (h : IsRun s x) (hc : c.isAlpha = true)
    (hnames : ∀ f ∈ Symbol.functions, ¬ f.name <:+ s ++ [c])
    (hword : Literal.isWord (s ++ [c]) = false) :
    IsRun (s ++ [c]) (.mul x (leaf c)) := by
  have hchars : ∀ d ∈ s ++ [c], IsSymbolChar d :=
    List.forall_mem_append.2 ⟨h.chars, List.forall_mem_singleton.2 (Or.inl hc)⟩
  have hnameless : ∀ f ∈ Symbol.functions, ¬ f.name <:+: s ++ [c] := by
    intro f hf hname
    rcases List.infix_concat_iff.1 hname with hsuffix | hsub
    · exact hnames f hf hsuffix
    · exact h.nameless f hf hsub
  refine ⟨by simp, hchars, hnameless, ?_⟩
  have hplain := plain_of_symbolChars hchars
  have hliteral : Literal.isLiteral (s ++ [c]) = false := by
    rw [Literal.isLiteral, splitSign_of_symbolChars hchars]
    simp [not_isDigits_letter hc, hword]
  rw [readPart_eq_readBody (balanced_of_plain hplain) (by simp)
    (enclosed?_of_plain hplain) hliteral]
  exact readBody_product (dissect_run h.ne_nil hchars hnameless) h.reads (IsTame.letter hc).reads

/-- A letter by itself is a run. -/
theorem isRun_letter (hc : c.isAlpha = true) : IsRun (α := α) [c] (leaf c) where
  ne_nil := by simp
  chars := List.forall_mem_singleton.2 (Or.inl hc)
  nameless := by
    intro f hf hname
    have hlen := hname.length_le
    have := two_le_length_name (mem_functions.1 hf)
    simp only [List.length_cons, List.length_nil] at hlen
    omega
  reads := (IsTame.letter hc).reads

end Formula.Reading
