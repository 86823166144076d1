import Formula.Proofs.Literal.Shape
import Formula.Proofs.Reading.Entry
import Formula.Proofs.Reading.Grammar

/-!
# Operands

What stands between operators: groups, calls, letters, and numbers without an exponent. What a group
or a call holds is any text that reads by itself. An operand is an atom of the grammar once its
signs have been restored, and restoring them leaves it the operand that it was (`Operand.restores`),
since inside its brackets signs are restored as in the text that they hold.
-/

namespace Formula.Reading

open Formula.Bracket

variable {α : Type} [Numeral α]

/-- The operands of a chain and the expressions that they mean. -/
inductive Operand (restore : Bool) : List Char → Expr α → Prop
  /-- Parentheses around a text that reads. -/
  | group {s x} : Expr.read restore s = .ok x → Operand restore (parenthesised s) x
  /-- A function name before parentheses. -/
  | call {f s x} : f ∈ Symbol.functions → Expr.read restore s = .ok x →
      Operand restore (f.name ++ parenthesised s) (f.apply x)
  /-- A logarithm with its base in square brackets. -/
  | logarithm {b s x y} : Expr.read restore b = .ok x → Expr.read restore s = .ok y →
      Operand restore (Symbol.log.name ++ ('[' :: b ++ ']' :: parenthesised s)) (Expr.logarithm x y)
  | letter {c} : c.isAlpha = true → Operand restore [c] (leaf c)
  /-- Digits. -/
  | whole {ws} : ws ≠ [] → (∀ c ∈ ws, c.isDigit = true) →
      Operand restore ws (.num (Numeral.ofDecimal (.finite false (Decimal.natOfDigits ws) 0)))
  /-- Digits with a point before, among or behind them. -/
  | fraction {ws fs} : ws ++ fs ≠ [] → (∀ c ∈ ws, c.isDigit = true) → (∀ c ∈ fs, c.isDigit = true) →
      Operand restore (ws ++ '.' :: fs)
        (.num (Numeral.ofDecimal (.finite false (Decimal.natOfDigits (ws ++ fs))
          (-(fs.length : Int)))))

variable {restore : Bool} {s t u v before : List Char} {x y : Expr α}

/-- Operands are in ASCII. -/
theorem Operand.toNat_lt (h : Operand restore s x) : ∀ c ∈ s, c.toNat < 128 := by
  have hparens : ∀ {s : List Char}, (∀ c ∈ s, c.toNat < 128) →
    ∀ c ∈ parenthesised s, c.toNat < 128 := by
    intro s hs c hc
    simp only [parenthesised, List.cons_append, List.mem_cons, List.mem_append, List.not_mem_nil,
      or_false] at hc
    rcases hc with rfl | hc | rfl
    · decide
    · exact hs c hc
    · decide
  cases h with
  | group h => exact hparens (toNat_lt_of_read h)
  | @call f s x hf h =>
    intro c hc
    rcases List.mem_append.1 hc with hc | hc
    · exact toNat_lt_of_isAlpha (isAlpha_of_mem_name (mem_functions.1 hf) c hc)
    · exact hparens (toNat_lt_of_read h) c hc
  | @logarithm b s x y hb h =>
    intro c hc
    simp only [List.cons_append, List.mem_append, List.mem_cons] at hc
    rcases hc with hc | rfl | hc | rfl | hc
    · exact toNat_lt_of_isAlpha (isAlpha_of_mem_name (f := .log) rfl c hc)
    · decide
    · exact toNat_lt_of_read hb c hc
    · decide
    · exact hparens (toNat_lt_of_read h) c hc
  | letter hc =>
    intro d hd
    obtain rfl := List.mem_singleton.1 hd
    exact toNat_lt_of_isAlpha hc
  | whole _ hws => exact fun c hc => toNat_lt_of_isDigit (hws c hc)
  | @fraction ws fs _ hws hfs =>
    intro c hc
    simp only [List.mem_append, List.mem_cons] at hc
    rcases hc with hc | rfl | hc
    · exact toNat_lt_of_isDigit (hws c hc)
    · decide
    · exact toNat_lt_of_isDigit (hfs c hc)

/-! ## Atoms -/

/-- An atom behind which no exponent begins. -/
structure IsTame (s : List Char) (x : Expr α) : Prop extends IsAtom s x where
  unmarked : ¬ EndsInMark s

/-- A text that does not end in the letter ends in no mark. -/
theorem not_endsInMark_of_last {c : Char} (hc : c ≠ 'e' ∧ c ≠ 'E') (s : List Char) :
    ¬ EndsInMark (s ++ [c]) := by
  rintro ⟨u, d, m, h, -, hm⟩
  have h : s ++ [c] = (u ++ [d]) ++ [m] := by simpa using h
  obtain rfl : c = m := by simpa using List.append_inj_right' h rfl
  rcases hm with rfl | rfl
  · exact hc.1 rfl
  · exact hc.2 rfl

/-- A text that ends in a group ends in no mark. -/
theorem not_endsInMark_parenthesised (t s : List Char) : ¬ EndsInMark (t ++ parenthesised s) := by
  have := not_endsInMark_of_last (c := ')') (by decide) (t ++ '(' :: s)
  simpa [parenthesised] using this

/-- A text with a group in it reads as its topmost operation, if it begins with no parenthesis. -/
theorem readPart_of_name {f : Symbol} (hs : balanced (f.name ++ t) = true)
    (hf : f.isOperator = false) (hparen : '(' ∈ t) :
    (readPart (f.name ++ t) : Except ParseError (Expr α)) = readBody (f.name ++ t) := by
  obtain ⟨c, b, hname⟩ := List.exists_cons_of_length_pos f.name_length_pos
  have hc : c ≠ '(' := by
    rintro rfl
    exact not_mem_name hf (c := '(') rfl (by simp [hname])
  refine readPart_eq_readBody hs (by simp [hname]) ?_
    (not_isLiteral_of_mem (c := '(') (by decide) (by simp [hparen]))
  rw [hname]
  exact enclosed?_eq_none_of_ne hc _

/-- A group is tame. -/
theorem IsTame.group (h : readPart s = .ok x) : IsTame (parenthesised s) x where
  ne_nil := by simp [parenthesised]
  quiet := quiet_parenthesised (balanced_of_readPart h)
  reads := by rw [readPart_parenthesised (balanced_of_readPart h), h]
  unmarked := not_endsInMark_parenthesised [] s

/-- The call of a function is tame. -/
theorem IsTame.call {f : Symbol} (hf : f.isOperator = false) (h : readPart s = .ok x) :
    IsTame (f.name ++ parenthesised s) (f.apply x) where
  ne_nil := by simp [parenthesised]
  quiet := quiet_call hf (balanced_of_readPart h)
  reads := by
    have hs := balanced_of_readPart h
    have hbalanced : balanced (f.name ++ parenthesised s) = true := by
      rw [balanced_append (balanced_of_plain (plain_name hf)), balanced_parenthesised hs]
    rw [readPart_of_name hbalanced hf (by simp [parenthesised])]
    exact readBody_call (dissect_call hf hs) (by rw [readPart_parenthesised hs, h])
  unmarked := not_endsInMark_parenthesised f.name s

/-- A logarithm with a base is tame. -/
theorem IsTame.logarithm (ht : readPart t = .ok x) (hs : readPart s = .ok y) :
    IsTame (Symbol.log.name ++ ('[' :: t ++ ']' :: parenthesised s)) (Expr.logarithm x y) where
  ne_nil := by simp
  quiet := quiet_logarithm (balanced_of_readPart ht) (balanced_of_readPart hs)
  reads := by
    have ht' := balanced_of_readPart ht
    have hs' := balanced_of_readPart hs
    have hbalanced : balanced (Symbol.log.name ++ ('[' :: t ++ ']' :: parenthesised s)) = true := by
      have hgroup := balanced_group (o := '[') rfl ht' (parenthesised s)
      rw [balanced_append (by decide)]
      exact hgroup.trans (balanced_parenthesised hs')
    rw [readPart_of_name hbalanced rfl (by simp [parenthesised])]
    exact readBody_logarithm (dissect_logarithm ht' hs') ht (by rw [readPart_parenthesised hs', hs])
  unmarked := by
    have := not_endsInMark_parenthesised (Symbol.log.name ++ '[' :: t ++ [']']) s
    simpa using this

/-- No letter is a literal. -/
theorem not_isLiteral_letter {c : Char} (h : c.isAlpha = true) : Literal.isLiteral [c] = false :=
  forall_ascii (P := fun c => c.isAlpha = true → Literal.isLiteral [c] = false) (by decide)
    (toNat_lt_of_isAlpha h) h

/-- A letter by itself is tame. -/
theorem IsTame.letter {c : Char} (hc : c.isAlpha = true) : IsTame (α := α) [c] (leaf c) where
  ne_nil := by simp
  quiet := by
    intro a d b hs _
    obtain rfl : d = c := List.mem_singleton.1 (by simp [hs])
    exact (plain_of_isAlpha hc).2.2
  reads := by
    have hplain : Plain [c] := by
      intro d hd
      obtain rfl := List.mem_singleton.1 hd
      exact ⟨(plain_of_isAlpha hc).1, (plain_of_isAlpha hc).2.1⟩
    rw [readPart_eq_readBody (balanced_of_plain hplain) (by simp) (enclosed?_of_plain hplain)
      (not_isLiteral_letter hc)]
    exact readBody_letter (dissect_letter hc)
  unmarked := by
    rintro ⟨u, d, m, h, -⟩
    have := congrArg List.length h
    simp at this

/-- A literal without operators in it is an atom. -/
theorem isTame_literal {d : Decimal} (hliteral : Literal.isLiteral s = true)
    (hread : Decimal.read? s = some d) (hquiet : ∀ c ∈ s, Symbol.isOperatorChar c = false)
    (hmark : ¬ EndsInMark s) :
    IsTame (α := α) s (.num (Numeral.ofDecimal d)) where
  ne_nil := by
    rintro rfl
    rw [not_isLiteral_nil] at hliteral
    cases hliteral
  quiet := fun a c b hs _ => hquiet c (by simp [hs])
  reads := by rw [readPart_literal hliteral, readNumber, hread]
  unmarked := hmark

/-- A digit is no bracket, no operator and no mark of an exponent. -/
theorem plain_of_isDigit {c : Char} (h : c.isDigit = true) :
    (isOpening c = false ∧ isClosing c = false) ∧ Symbol.isOperatorChar c = false ∧
      c ≠ 'e' ∧ c ≠ 'E' :=
  forall_ascii (P := fun c => c.isDigit = true → (isOpening c = false ∧ isClosing c = false) ∧
    Symbol.isOperatorChar c = false ∧ c ≠ 'e' ∧ c ≠ 'E') (by decide) (toNat_lt_of_isDigit h) h

/-- Blanks are taken out of the argument of a call. -/
theorem squeezed_call {f : Symbol} (hf : f.isOperator = false) (s : List Char) :
    squeezed (f.name ++ parenthesised s) = f.name ++ parenthesised (squeezed s) := by
  rw [squeezed_append, squeezed_name hf, squeezed_parenthesised]

/-- Blanks are taken out of the base and the argument of a logarithm. -/
theorem squeezed_logarithm (t s : List Char) :
    squeezed (Symbol.log.name ++ ('[' :: t ++ ']' :: parenthesised s))
      = Symbol.log.name ++ ('[' :: squeezed t ++ ']' :: parenthesised (squeezed s)) := by
  rw [squeezed_append, squeezed_name rfl, List.cons_append, squeezed_cons rfl, squeezed_append,
    squeezed_cons rfl, squeezed_parenthesised]
  rfl

/-- What is between the brackets of an operand reads after its signs have been restored. -/
theorem readsAs_of_read (h : Expr.read restore s = .ok x) : ReadsAs restore (squeezed s) x :=
  (read_eq_ok_iff (foreignChar?_eq_none.2 (toNat_lt_of_read h))).1 h

/-- A text without blanks and brackets that is an atom is one after restoring, too. -/
theorem restores_tame (hplain : Plain s) (hblank : ∀ c ∈ s, Text.isBlank c = false) (h : IsTame s x)
    (before : List Char) : ∃ u, Restores restore before (squeezed s) u ∧ IsTame u x := by
  rw [squeezed_of_forall hblank]
  exact ⟨s, restores_of_plain hplain before, h⟩

/-- Figures without an exponent are an atom, and no sign is restored in them. -/
theorem restores_mantissa {d : Decimal} (hs : Literal.IsMantissa s)
    (hliteral : Literal.isLiteral s = true) (hread : Decimal.read? s = some d)
    (before : List Char) :
    ∃ u, Restores restore before (squeezed s) u ∧
      IsTame (α := α) u (.num (Numeral.ofDecimal d)) := by
  have hplain : ∀ c ∈ s, Text.isBlank c = false ∧ (isOpening c = false ∧ isClosing c = false) ∧
      Symbol.isOperatorChar c = false ∧ c ≠ 'e' ∧ c ≠ 'E' := by
    intro c hc
    rcases hs.isDigit_or_point c hc with hdigit | rfl
    · exact ⟨not_isBlank_of_isDigit hdigit, plain_of_isDigit hdigit⟩
    · decide
  have hmark : ¬ EndsInMark s := by
    obtain ⟨t, c, rfl⟩ := (List.eq_nil_or_concat s).resolve_left hs.ne_nil
    rw [List.concat_eq_append] at hplain ⊢
    exact not_endsInMark_of_last (hplain c (by simp)).2.2.2 t
  exact restores_tame (fun c hc => (hplain c hc).2.1) (fun c hc => (hplain c hc).1)
    (isTame_literal hliteral hread (fun c hc => (hplain c hc).2.2.1) hmark) before

/-- An operand before which none ends is restored to an atom of the same meaning. -/
theorem Operand.restores (h : Operand restore s x) (hb : Front before) :
    ∃ u, Restores restore before (squeezed s) u ∧ IsTame u x := by
  cases h with
  | group h =>
    obtain ⟨u, hu, hx⟩ := readsAs_of_read h
    rw [squeezed_parenthesised]
    exact ⟨parenthesised u, restores_parenthesised hb (balanced_of_readsAs (readsAs_of_read h)) hu,
      .group hx⟩
  | call hf h =>
    have hf := mem_functions.1 hf
    obtain ⟨u, hu, hx⟩ := readsAs_of_read h
    rw [squeezed_call hf]
    exact ⟨_, restores_call hf hb (balanced_of_readsAs (readsAs_of_read h)) hu, .call hf hx⟩
  | logarithm ht h =>
    have hbase := balanced_of_readsAs (readsAs_of_read ht)
    have hbalanced := balanced_of_readsAs (readsAs_of_read h)
    obtain ⟨v, hv, hy⟩ := readsAs_of_read ht
    obtain ⟨u, hu, hx⟩ := readsAs_of_read h
    rw [squeezed_logarithm]
    exact ⟨_, restores_logarithm hb hbase hbalanced hv hu, .logarithm hy hx⟩
  | @letter c hc =>
    refine restores_tame ?_ ?_ (.letter hc) before
    · intro d hd
      obtain rfl := List.mem_singleton.1 hd
      exact ⟨(plain_of_isAlpha hc).1, (plain_of_isAlpha hc).2.1⟩
    · intro d hd
      obtain rfl := List.mem_singleton.1 hd
      exact not_isBlank_of_isAlpha hc
  | whole hne hws =>
    exact restores_mantissa (.whole hne hws) (Literal.isLiteral_digits hne hws)
      (Decimal.read?_digits hne hws) before
  | fraction hne hws hfs =>
    exact restores_mantissa (.fraction hne hws hfs) (Literal.isLiteral_fraction hne hws hfs)
      (Decimal.read?_fraction hne hws hfs) before

end Formula.Reading
