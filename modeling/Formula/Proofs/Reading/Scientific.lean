import Mathlib.Data.List.Basic
import Formula.Proofs.Literal.Shape
import Formula.Proofs.Reading.Chain
import Formula.Proofs.Reading.Outcome
import Formula.Proofs.Reading.Run

/-!
# Literals with exponents as operands

The sign in a literal such as `1e-5` is no operator, whichever operator stands next to the literal.
The reader tells it from what is before it, digits and a mark behind an operator or at the start
(`isExponentSign`), and asks for a digit right before the mark. So a literal whose mantissa ends in
its point, as in `1.e-5`, is a number by itself but comes apart beside an operator: `HasBarePoint`.
With every other exponent a literal is the same number beside a group as it is alone
(`parse_scientific_iff`).
-/

namespace Formula

/-! ## Operators -/

namespace Symbol

variable {α : Type} {op op' : Symbol} {x y x' y' : Expr α}

/-- The operator and its left operand are told from the node that they make. -/
theorem combine_inj (hop : op.isOperator = true) (hop' : op'.isOperator = true)
    (h : op.combine x y = op'.combine x' y') : op = op' ∧ x = x' := by
  cases op with
  | plus | minus | times | divide | power =>
    cases op' with
    | plus | minus | times | divide | power => simp_all [combine]
    | sinc | cosec | sec | csc | cotan | cot | sin | cos | tan | ln | log => cases hop'
  | sinc | cosec | sec | csc | cotan | cot | sin | cos | tan | ln | log => cases hop

/-- An operation is another tree than its first operand. -/
theorem combine_ne_left (op : Symbol) (x y : Expr α) : op.combine x y ≠ x := by
  intro h
  have hsize := congrArg sizeOf h
  cases op <;> simp [combine] at hsize <;> omega

end Symbol

namespace Reading

open Formula.Bracket Formula.Literal

variable {α : Type} [Numeral α] {s l r m ds before rest : List Char} {x y : Expr α}
    {c mark sign : Char}

/-- An unsigned literal with an exponent. -/
structure IsScientific (s : List Char) : Prop where
  literal : isLiteral s = true
  unsigned : Decimal.splitSign s = (false, s)
  marked : ∃ c ∈ s, IsMark c

/-- Does the mantissa end in its point, with a sign behind the mark, as in `1.e-5`? -/
def HasBarePoint (s : List Char) : Prop :=
  ∃ m mark sign ds, s = m ++ '.' :: mark :: sign :: ds ∧ IsMark mark ∧ (sign = '+' ∨ sign = '-')

/-! ## Parts of the literal -/

/-- A scientific literal consists of a mantissa, the mark and an exponent. -/
theorem IsScientific.exists_parts (h : IsScientific s) (hascii : ∀ c ∈ s, c.toNat < 128) :
    ∃ m mark ds, s = m ++ mark :: ds ∧ IsMantissa m ∧ IsMark mark ∧ IsExponent ds := by
  obtain ⟨c, hc, hmark⟩ := h.marked
  have hliteral := h.literal
  rw [isLiteral, h.unsigned, Bool.or_eq_true] at hliteral
  rcases hliteral with hdigits | hword
  · cases isFigures_of_isDigits hascii hdigits with
    | plain hm =>
      rcases hm.isDigit_or_point c hc with hdigit | rfl
      · rw [not_isDigit_of_isMark hmark] at hdigit
        cases hdigit
      · rcases hmark with hmark | hmark <;> cases hmark
    | scientific hm hmark hds => exact ⟨_, _, _, rfl, hm, hmark, hds⟩
  · -- No word has the letter of the mark in it.
    have hlower : c.toLower = 'e' := by rcases hmark with rfl | rfl <;> rfl
    have hwords : ∀ w ∈ words, 'e' ∉ w := by decide
    simp only [isWord, List.contains_iff_mem] at hword
    exact absurd (hlower ▸ List.mem_map_of_mem hc) (hwords _ hword)

/-- The point is bare when it is the last character of the mantissa. -/
theorem hasBarePoint_iff (hm : IsMantissa m) (hds : ∀ c ∈ ds, c.isDigit = true)
    (hmark : IsMark mark) (hsign : sign = '+' ∨ sign = '-') :
    HasBarePoint (m ++ mark :: sign :: ds) ↔ m.getLast? = some '.' := by
  constructor
  · rintro ⟨w, mark', sign', ds', heq, hmark', -⟩
    have hleft : mark' ∉ m := by
      intro hmem
      rcases hm.isDigit_or_point mark' hmem with hdigit | rfl
      · rw [not_isDigit_of_isMark hmark'] at hdigit
        cases hdigit
      · rcases hmark' with h | h <;> cases h
    have hright : mark' ∉ sign :: ds := by
      intro hmem
      rcases List.mem_cons.1 hmem with rfl | hmem
      · rcases hmark' with rfl | rfl <;> rcases hsign with h | h <;> cases h
      · have hdigit := hds mark' hmem
        rw [not_isDigit_of_isMark hmark'] at hdigit
        cases hdigit
    have heq : m ++ mark :: sign :: ds = (w ++ ['.']) ++ mark' :: sign' :: ds' := by simpa using heq
    obtain ⟨rfl, -⟩ := (List.append_cons_inj_of_notMem hleft hright).1 heq
    simp
  · intro hlast
    obtain ⟨w, rfl⟩ := List.getLast?_eq_some_iff.1 hlast
    exact ⟨w, mark, sign, ds, by simp, hmark, hsign⟩

/-- The mark is a symbol. -/
theorem isSymbolChar_of_isMark (h : IsMark mark) : IsSymbolChar mark := by
  rcases h with rfl | rfl <;> exact .inl rfl

/-- Digits are symbols. -/
theorem symbolChars_of_digits (hds : ∀ c ∈ ds, c.isDigit = true) : ∀ c ∈ ds, IsSymbolChar c :=
  fun c hc => .inr (.inl (hds c hc))

/-- A mantissa with its mark is a row of symbols. -/
theorem symbolChars_marked (hm : IsMantissa m) (hmark : IsMark mark) :
    ∀ c ∈ m ++ [mark], IsSymbolChar c :=
  List.forall_mem_append.2 ⟨fun c hc => .inr (hm.isDigit_or_point c hc),
    List.forall_mem_singleton.2 (isSymbolChar_of_isMark hmark)⟩

/-- A literal with a bare point has a sign in its exponent. -/
theorem IsScientific.exists_of_hasBarePoint (h : IsScientific s) (hascii : ∀ c ∈ s, c.toNat < 128)
    (hbare : HasBarePoint s) :
    ∃ m mark sign ds, s = m ++ mark :: sign :: ds ∧ IsMantissa m ∧ IsMark mark ∧
      (sign = '+' ∨ sign = '-') ∧ ds ≠ [] ∧ (∀ c ∈ ds, c.isDigit = true) ∧
      m.getLast? = some '.' := by
  obtain ⟨m, mark, ds, rfl, hm, hmark, hds⟩ := h.exists_parts hascii
  cases hds with
  | unsigned _ hds =>
    obtain ⟨w, mark', sign, ds', heq, -, hsign⟩ := hbare
    have hchars : ∀ c ∈ m ++ mark :: ds, IsSymbolChar c := by
      simpa using List.forall_mem_append.2 ⟨symbolChars_marked hm hmark, symbolChars_of_digits hds⟩
    have hplain := (hchars sign (by simp [heq])).plain.2.1
    rw [isOperatorChar_of_sign hsign] at hplain
    cases hplain
  | @signed sign ds hsign hne hds =>
    exact ⟨m, mark, sign, ds, rfl, hm, hmark, hsign, hne, hds,
      (hasBarePoint_iff hm hds hmark hsign).1 hbare⟩

/-- A literal with an exponent ends in a digit. -/
theorem IsScientific.exists_last (h : IsScientific s) (hascii : ∀ c ∈ s, c.toNat < 128) :
    ∃ t d, s = t ++ [d] ∧ d.isDigit = true := by
  obtain ⟨m, mark, ds, rfl, -, -, hds⟩ := h.exists_parts hascii
  obtain ⟨t, d, rfl, hd⟩ := hds.exists_last
  exact ⟨m ++ mark :: t, d, by simp, hd⟩

/-! ## The sign of the exponent -/

/-- Behind a mantissa and a mark a sign is the sign of an exponent if the mantissa ends in a
digit. -/
theorem isExponentSign_eq (hm : IsMantissa m) (hmark : IsMark mark) (hb : AtSign before)
    (hrest : rest.head?.any Char.isDigit = true) :
    isExponentSign ⟨(before ++ (m ++ [mark])).reverse, 0, c, rest⟩ =
      !decide (m.getLast? = some '.') := by
  obtain ⟨w, d, rfl⟩ := (List.eq_nil_or_concat m).resolve_left hm.ne_nil
  have hchars : ∀ e ∈ (w ++ [d]).reverse, isMantissaChar e = true := by
    intro e he
    simpa [isMantissaChar] using hm.isDigit_or_point e (by simpa [or_comm] using he)
  have hstop : ∀ e ∈ before.reverse.head?, isMantissaChar e = false := by
    intro e he
    have hop := hb e (by simpa using he)
    simp only [Symbol.isOperatorChar, Bool.or_eq_true, beq_iff_eq] at hop
    rcases hop with (((rfl | rfl) | rfl) | rfl) | rfl <;> rfl
  have hdrop : (d :: (w.reverse ++ before.reverse)).dropWhile isMantissaChar = before.reverse := by
    simpa using dropWhile_append_of_stop hchars hstop
  have hmark : (mark == 'e' || mark == 'E') = true := by rcases hmark with rfl | rfl <;> rfl
  have hlast : d.isDigit = !decide ((w ++ [d]).getLast? = some '.') := by
    rcases hm.isDigit_or_point d (by simp) with hd | rfl
    · have hpoint : d ≠ '.' := by
        rintro rfl
        cases hd
      simp [hd, hpoint]
    · simp
  have hreverse : (before ++ ((w ++ [d]) ++ [mark])).reverse =
    mark :: d :: (w.reverse ++ before.reverse) := by simp
  simp only [List.concat_eq_append, hreverse, isExponentSign, hmark, hrest, hdrop, Bool.true_and,
    Bool.and_true, hlast]
  cases hbefore : before.reverse with
  | nil => simp
  | cons e _ =>
    have hop := hb e (by simp [← List.head?_reverse, hbefore])
    simp [hop]

/-- A sum is cut at the sign of an exponent only behind a bare point. -/
theorem separates_exponent (hm : IsMantissa m) (hmark : IsMark mark)
    (hsign : sign = '+' ∨ sign = '-') (hb : AtSign before)
    (hrest : rest.head?.any Char.isDigit = true) :
    separates [.plus, .minus] ⟨(before ++ (m ++ [mark])).reverse, 0, sign, rest⟩ =
      decide (m.getLast? = some '.') := by
  have hexponent := isExponentSign_eq (c := sign) hm hmark hb hrest
  have hnone : isSign ⟨(before ++ (m ++ [mark])).reverse, 0, sign, rest⟩ = false := by
    have hparen : mark ≠ '(' := by rcases hmark with rfl | rfl <;> decide
    simp [isSign, (isSymbolChar_of_isMark hmark).plain.2.1, hparen]
  generalize (before ++ (m ++ [mark])).reverse = b at hexponent hnone ⊢
  rcases hsign with rfl | rfl <;> simp [separates, hexponent, hnone, Cut.isOutside, Symbol.name]

/-- No sum is cut where there is no operator. -/
theorem Quiet.separates_sum (h : Quiet s) (before rest : List Char) :
    Outside (fun a d b => separates [.plus, .minus] ⟨(before ++ a).reverse, 0, d, b ++ rest⟩ =
      false) s :=
  h.imp fun a d b hd => separates_sum_eq_false fun hsign => by
    rw [isOperatorChar_of_sign hsign] at hd
    cases hd

/-- No sum is cut in a literal without a bare point. -/
theorem IsScientific.separates_sum (h : IsScientific s) (hascii : ∀ c ∈ s, c.toNat < 128)
    (hbare : ¬ HasBarePoint s) (hb : AtSign before) (rest : List Char) :
    Outside (fun a d b => separates [.plus, .minus] ⟨(before ++ a).reverse, 0, d, b ++ rest⟩ =
      false) s := by
  obtain ⟨m, mark, ds, rfl, hm, hmark, hds⟩ := h.exists_parts hascii
  have hmarked := symbolChars_marked hm hmark
  cases hds with
  | unsigned _ hds =>
    refine Quiet.separates_sum (quiet_of_symbolChars ?_) before rest
    simpa using List.forall_mem_append.2 ⟨hmarked, symbolChars_of_digits hds⟩
  | @signed sign ds hsign hne hds =>
    rw [hasBarePoint_iff hm hds hmark hsign] at hbare
    have hd := depth_of_balanced (balanced_of_plain (plain_of_symbolChars hmarked))
    have hfirst : (ds ++ rest).head?.any Char.isDigit = true := by
      obtain ⟨d, ds, rfl⟩ := List.exists_cons_of_ne_nil hne
      simpa using hds d List.mem_cons_self
    rw [List.append_cons m mark (sign :: ds), outside_append hd,
      outside_cons (rise_of_isOperatorChar (isOperatorChar_of_sign hsign))]
    refine ⟨?_, ?_, ?_⟩
    · simpa using (quiet_of_symbolChars hmarked).separates_sum before (sign :: (ds ++ rest))
    · have := separates_exponent hm hmark hsign hb hfirst
      simpa [hbare] using this
    · simpa using (quiet_of_symbolChars (symbolChars_of_digits hds)).separates_sum
        (before ++ (m ++ [mark]) ++ [sign]) rest

/-! ## Beside an operator -/

/-- A text that begins and ends as an operand does and has no other operators outside brackets than
plus and minus. -/
structure IsCompact (s : List Char) : Prop where
  balanced : balanced s = true
  starts : ∀ c ∈ s.head?, Symbol.isOperatorChar c = false
  ends : ¬ AtSign s
  unmarked : ¬ EndsInMark s
  onlySums : Outside (fun _ c _ => c ≠ '*' ∧ c ≠ '/' ∧ c ≠ '^') s

/-- A tame atom is compact. -/
theorem IsTame.isCompact (h : IsTame s x) : IsCompact s where
  balanced := h.toIsAtom.balanced
  starts := by
    intro c hc
    obtain ⟨t, rfl⟩ := List.head?_eq_some_iff.1 hc
    exact h.quiet [] c t rfl rfl
  ends := h.toIsAtom.not_atSign
  unmarked := h.unmarked
  onlySums := h.quiet.imp fun a c b hc => by
    refine ⟨?_, ?_, ?_⟩ <;>
      · rintro rfl
        cases hc

/-- A scientific literal is compact. -/
theorem IsScientific.isCompact (h : IsScientific s) (hascii : ∀ c ∈ s, c.toNat < 128) :
    IsCompact s where
  balanced := balanced_of_plain (plain_of_isLiteral h.literal)
  starts := by
    obtain ⟨m, mark, ds, rfl, hm, -, -⟩ := h.exists_parts hascii
    intro c hc
    obtain ⟨d, m, rfl⟩ := List.exists_cons_of_ne_nil hm.ne_nil
    obtain rfl : d = c := by simpa using hc
    have hchar : IsSymbolChar d := .inr (hm.isDigit_or_point d List.mem_cons_self)
    exact hchar.plain.2.1
  ends := by
    obtain ⟨t, d, rfl, hd⟩ := h.exists_last hascii
    intro hat
    have hop := hat d (by simp)
    rw [(plain_of_isDigit hd).2.1] at hop
    cases hop
  unmarked := by
    obtain ⟨t, d, rfl, hd⟩ := h.exists_last hascii
    exact not_endsInMark_of_last (plain_of_isDigit hd).2.2 t
  onlySums := by
    intro a c b hs _
    have hmem : c ∈ s := by simp [hs]
    refine ⟨?_, ?_, ?_⟩ <;>
      · rintro rfl
        exact not_mem_of_isLiteral_of_foreign (by decide) h.literal hmem

/-- A compact text is not empty. -/
theorem IsCompact.ne_nil (h : IsCompact s) : s ≠ [] :=
  ne_nil_of_not_atSign h.ends

/-- A compact text has no products outside brackets. -/
theorem IsCompact.noProducts (h : IsCompact s) : NoProducts s :=
  h.onlySums.imp fun _ _ _ hc => ⟨hc.1, hc.2.1⟩

/-- A compact text has no sign in front. -/
theorem IsCompact.signed?_eq_none (h : IsCompact s) (t : List Char) : signed? (s ++ t) = none := by
  obtain ⟨c, s, rfl⟩ := List.exists_cons_of_ne_nil h.ne_nil
  have hc := h.starts c rfl
  have hminus : c ≠ '-' := by
    rintro rfl
    cases hc
  have hplus : c ≠ '+' := by
    rintro rfl
    cases hc
  simp [signed?, hminus, hplus]

/-- An operator between compact texts is the topmost operation, if no sum is cut behind it, nor,
unless it is a plus or minus itself, before it. -/
theorem dissect_join {op : Symbol} (hop : op.name = [c]) (hc : Symbol.isOperatorChar c = true)
    (hl : IsCompact l) (hr : IsCompact r)
    (hleft : (c = '+' ∨ c = '-') ∨
      Outside (fun a d b => separates [.plus, .minus] ⟨a.reverse, 0, d, b ++ c :: r⟩ = false) l)
    (hright : Outside (fun a d b =>
      separates [.plus, .minus] ⟨(l ++ c :: a).reverse, 0, d, b⟩ = false) r) :
    dissect (l ++ c :: r) = .operation op l r := by
  have hd := depth_of_balanced hl.balanced
  have hrise := rise_of_isOperatorChar hc
  by_cases hsign : c = '+' ∨ c = '-'
  · have hcut : separates [.plus, .minus] ⟨l.reverse, 0, c, r⟩ = true := by
      have hnone := isSign_eq_false (b := r) (c := c) hl.balanced hl.ends
      have hexponent := isExponentSign_eq_false (b := r) hsign fun hcap => hl.unmarked hcap.2.1
      rcases hsign with rfl | rfl <;> simp [separates, hnone, hexponent, Cut.isOutside, Symbol.name]
    simp [dissect, lastOperation?_eq_some hop hd hrise hcut hright]
  -- Any other operator is the topmost one since no sum is cut.
  have hsum : lastOperation? [.plus, .minus] (l ++ c :: r) = none := by
    refine lastOperation?_eq_none ((outside_append hd).2 ⟨hleft.resolve_left hsign,
      (outside_cons hrise).2 ⟨?_, ?_⟩⟩)
    · exact separates_sum_eq_false fun h => absurd h hsign
    · exact hright
  by_cases hproduct : c = '*' ∨ c = '/'
  · have hcut : separates [.times, .divide] ⟨l.reverse, 0, c, r⟩ = true := by
      rcases hproduct with rfl | rfl <;> simp [separates, Cut.isOutside, Symbol.name]
    have hlast := lastOperation?_eq_some hop hd hrise hcut
      (hr.noProducts.imp fun a d b => separates_product_eq_false)
    simp [dissect, hsum, hlast]
  · obtain rfl : c = '^' := by
      simp only [Symbol.isOperatorChar, Bool.or_eq_true, beq_iff_eq] at hc
      tauto
    have hnone := lastOperation?_product_eq_none
      (NoProducts.join (c := '^') hd rfl hl.noProducts (by decide) hr.noProducts)
    have hpower : power? (l ++ '^' :: r) = some (.operation op l r) := by
      rw [power?, find?_cuts (a := l) (b := r) (c := '^') ?_ hd (by simp [Cut.isOutside])]
      · simp [operationAt, Cut.left, ← hop, ofName?_name]
      · exact hl.onlySums.imp fun a d b hd => by simp [hd.2.2]
      · intro k hk
        exact (Bool.and_eq_true_iff.1 hk).2
    simp [dissect, hsum, hnone, hl.signed?_eq_none, hpower]

/-- A literal with a bare point is cut at the sign of its exponent, if no sum is cut behind it. -/
theorem dissect_hasBarePoint {op : Symbol} (hop : op.name = [sign]) (hm : IsMantissa m)
    (hmark : IsMark mark) (hsign : sign = '+' ∨ sign = '-') (hne : ds ≠ [])
    (hds : ∀ c ∈ ds, c.isDigit = true) (hlast : m.getLast? = some '.') (hb : AtSign before)
    (hd : depth before = 0) (hrest : Outside (fun _ c _ => ¬ (c = '+' ∨ c = '-')) rest) :
    dissect (before ++ (m ++ mark :: sign :: ds) ++ rest) =
      .operation op (before ++ (m ++ [mark])) (ds ++ rest) := by
  have hmarked :=
    depth_of_balanced (balanced_of_plain (plain_of_symbolChars (symbolChars_marked hm hmark)))
  have hdigits := quiet_of_symbolChars (symbolChars_of_digits hds)
  have hdepth :=
    depth_of_balanced (balanced_of_plain (plain_of_symbolChars (symbolChars_of_digits hds)))
  have hfirst : (ds ++ rest).head?.any Char.isDigit = true := by
    obtain ⟨d, ds, rfl⟩ := List.exists_cons_of_ne_nil hne
    simpa using hds d List.mem_cons_self
  have hcut := (separates_exponent hm hmark hsign hb hfirst).trans (decide_eq_true hlast)
  have hquiet : Outside (fun _ c _ => ¬ (c = '+' ∨ c = '-')) (ds ++ rest) := by
    refine (outside_append hdepth).2 ⟨hdigits.imp fun a c b hc hsign => ?_, hrest⟩
    rw [isOperatorChar_of_sign hsign] at hc
    cases hc
  have hlastOperation := lastOperation?_eq_some hop (by rw [depth_append, hd, hmarked]; rfl)
    (rise_of_isOperatorChar (isOperatorChar_of_sign hsign)) hcut
    (hquiet.imp fun a d b hne => separates_sum_eq_false fun h => absurd h hne)
  have htext : before ++ (m ++ mark :: sign :: ds) ++ rest =
    (before ++ (m ++ [mark])) ++ sign :: (ds ++ rest) := by simp
  rw [htext, dissect, hlastOperation]
  rfl

/-! ## Reading -/

/-- The operands of an operation that reads have been read. -/
theorem exists_of_readBody_operation {op : Symbol} (hd : dissect s = .operation op l r)
    (h : readBody s = .ok x) :
    ∃ y z : Expr α, readPart l = .ok y ∧ readPart r = .ok z ∧ x = op.combine y z := by
  have hbuilds := builds_of_readBody h
  rw [hd] at hbuilds
  cases hbuilds with
  | operation hl hr => exact ⟨_, _, hl, hr, rfl⟩

/-- An operator between compact texts makes no literal of them, so that the text reads as its
topmost operation. -/
theorem IsCompact.readPart_join (hl : IsCompact l) (hc : Symbol.isOperatorChar c = true)
    (hr : IsCompact r) :
    (readPart (l ++ c :: r) : Except ParseError (Expr α)) = readBody (l ++ c :: r) :=
  Reading.readPart_join hl.balanced hl.ends hc hr.balanced
    (not_isLiteral_of_not_captured hc hl.ne_nil fun hcap => hl.unmarked hcap.2.1)

/-- Plus and minus are the names of symbols. -/
theorem exists_symbol_of_sign (hsign : sign = '+' ∨ sign = '-') :
    ∃ op : Symbol, op.name = [sign] ∧ (op = .plus ∨ op = .minus) := by
  rcases hsign with rfl | rfl
  · exact ⟨.plus, rfl, .inl rfl⟩
  · exact ⟨.minus, rfl, .inr rfl⟩

variable {op : Symbol}

/-- Behind an operand and an operator a literal is read as one number unless its point is bare. -/
theorem readPart_before_scientific (hop : op.isOperator = true) (hname : op.name = [c])
    (hc : Symbol.isOperatorChar c = true) (hl : IsTame l x) (hs : IsScientific s)
    (hascii : ∀ c ∈ s, c.toNat < 128) (hy : readPart s = .ok y) :
    readPart (l ++ c :: s) = .ok (op.combine x y) ↔ ¬ HasBarePoint s := by
  have hb : AtSign (l ++ [c]) := fun d hd => by
    obtain rfl : c = d := by simpa using hd
    exact hc
  have hcompact := hs.isCompact hascii
  rw [hl.isCompact.readPart_join hc hcompact]
  constructor
  · intro h hbare
    obtain ⟨m, mark, sign, ds, rfl, hm, hmark, hsign, hne, hds, hlast⟩ :=
      hs.exists_of_hasBarePoint hascii hbare
    obtain ⟨op', hname', hop'⟩ := exists_symbol_of_sign hsign
    have hd : depth (l ++ [c]) = 0 := by
      simp [depth_of_balanced hl.toIsAtom.balanced, rise_of_isOperatorChar hc]
    have hcut : dissect (l ++ c :: (m ++ mark :: sign :: ds)) =
      .operation op' (l ++ c :: (m ++ [mark])) ds := by
      simpa using dissect_hasBarePoint hname' hm hmark hsign hne hds hlast hb hd outside_nil
    obtain ⟨z, z', hz, -, heq⟩ := exists_of_readBody_operation hcut h
    obtain ⟨rfl, rfl⟩ := Symbol.combine_inj hop (by rcases hop' with rfl | rfl <;> rfl) heq
    -- The operator is the sign of the exponent, and the sum of the operand and the mantissa would
    -- be the operand.
    obtain rfl : c = sign := by simpa using hname.symm.trans hname'
    have hmarked := symbolChars_marked hm hmark
    have hsum := dissect_sum op hname hsign hl.toIsAtom.balanced hl.toIsAtom.not_atSign
      (fun hcap => hl.unmarked hcap.2.1) (quiet_of_symbolChars hmarked).onlySigns
    rw [Reading.readPart_join hl.toIsAtom.balanced hl.toIsAtom.not_atSign hc
      (balanced_of_plain (plain_of_symbolChars hmarked))
      (not_isLiteral_of_not_captured hc hl.ne_nil fun hcap => hl.unmarked hcap.2.1)] at hz
    obtain ⟨w, w', hw, -, heq⟩ := exists_of_readBody_operation hsum hz
    obtain rfl : x = w := Except.ok.inj (hl.reads.symm.trans hw)
    exact Symbol.combine_ne_left op x w' heq.symm
  · intro hbare
    have hleft := hl.quiet.separates_sum [] (c :: s)
    have hright := hs.separates_sum hascii hbare hb []
    exact readBody_operation (dissect_join hname hc hl.isCompact hcompact
      (.inr (by simpa using hleft)) (by simpa using hright)) hl.reads hy

/-- Before an operator and an operand a literal is read as one number, unless its point is bare and
the operator binds tighter than the sign of its exponent. -/
theorem readPart_behind_scientific (hop : op.isOperator = true) (hname : op.name = [c])
    (hc : Symbol.isOperatorChar c = true) (hr : IsTame r x) (hs : IsScientific s)
    (hascii : ∀ c ∈ s, c.toNat < 128) (hy : readPart s = .ok y) :
    readPart (s ++ c :: r) = .ok (op.combine y x) ↔
      (HasBarePoint s → op = .plus ∨ op = .minus) := by
  have hcompact := hs.isCompact hascii
  rw [hcompact.readPart_join hc hr.isCompact]
  have hright := hr.quiet.separates_sum (s ++ [c]) []
  have hjoin := fun hleft => dissect_join hname hc hcompact hr.isCompact hleft
    (by simpa using hright)
  constructor
  · intro h hbare
    by_contra hother
    have hnone : ¬ (c = '+' ∨ c = '-') := by
      rintro (rfl | rfl)
      · exact hother (.inl (by cases op <;> cases hname; rfl))
      · exact hother (.inr (by cases op <;> cases hname; rfl))
    obtain ⟨m, mark, sign, ds, rfl, hm, hmark, hsign, hne, hds, hlast⟩ :=
      hs.exists_of_hasBarePoint hascii hbare
    obtain ⟨op', hname', hop'⟩ := exists_symbol_of_sign hsign
    have hrest : Outside (fun _ d _ => ¬ (d = '+' ∨ d = '-')) (c :: r) := by
      refine (outside_cons (rise_of_isOperatorChar hc)).2 ⟨hnone,
        hr.quiet.imp fun a d b hd hsign => ?_⟩
      rw [isOperatorChar_of_sign hsign] at hd
      cases hd
    have hcut := dissect_hasBarePoint hname' hm hmark hsign hne hds hlast atSign_nil rfl hrest
    obtain ⟨z, z', -, -, heq⟩ := exists_of_readBody_operation hcut h
    obtain ⟨rfl, -⟩ := Symbol.combine_inj hop (by rcases hop' with rfl | rfl <;> rfl) heq
    exact hother hop'
  · intro hsum
    by_cases hbare : HasBarePoint s
    · have hsign : c = '+' ∨ c = '-' := by
        rcases hsum hbare with rfl | rfl
        · exact .inl (List.singleton_inj.1 hname).symm
        · exact .inr (List.singleton_inj.1 hname).symm
      exact readBody_operation (hjoin (.inl hsign)) hy hr.reads
    · have hleft := hs.separates_sum hascii hbare atSign_nil (c :: r)
      exact readBody_operation (hjoin (.inr (by simpa using hleft))) hy hr.reads

/-! ## Whole formulas -/

variable {restore : Bool} {w : List Char}

/-- A text reads as its restored form does. -/
theorem readsAs_iff_of_restores (h : Restores restore [] s r) :
    ReadsAs restore s x ↔ readPart r = .ok x := by
  simp [ReadsAs, restored?_of_restores h]

/-- There are no blanks in a literal. -/
theorem squeezed_of_isLiteral (h : isLiteral s = true) (hascii : ∀ c ∈ s, c.toNat < 128) :
    squeezed s = s := by
  refine squeezed_of_forall fun c hc => ?_
  rcases isAlpha_or_of_isLiteral h hc (hascii c hc) with h | h | rfl | rfl | rfl
  · exact not_isBlank_of_isAlpha h
  · exact not_isBlank_of_isDigit h
  · rfl
  · rfl
  · rfl

/-- A literal reads as its number. -/
theorem read_literal (h : isLiteral s = true) (hascii : ∀ c ∈ s, c.toNat < 128) :
    Expr.read restore s = .ok x ↔ readNumber s = .ok x := by
  rw [read_eq_ok_iff (foreignChar?_eq_none.2 hascii), squeezed_of_isLiteral h hascii,
    readsAs_iff_of_restores (restores_of_plain (plain_of_isLiteral h) []), readPart_literal h]

/-- Blanks are taken out on both sides of an operator. -/
theorem squeezed_join (hc : Symbol.isOperatorChar c = true) (s t : List Char) :
    squeezed (s ++ c :: t) = squeezed s ++ c :: squeezed t := by
  have hblank : Text.isBlank c = false := by
    simp only [Symbol.isOperatorChar, Bool.or_eq_true, beq_iff_eq] at hc
    rcases hc with (((rfl | rfl) | rfl) | rfl) | rfl <;> rfl
  rw [squeezed_append, squeezed_cons hblank]

/-- Which operators join an operand and a literal behind it. -/
theorem read_before_scientific (hop : op.isOperator = true) (hw : Operand restore w x)
    (hs : IsScientific s) (hy : Expr.read restore s = .ok y) :
    Expr.read restore (w ++ op.name ++ s) = .ok (op.combine x y) ↔ ¬ HasBarePoint s := by
  obtain ⟨c, hname, hc⟩ := exists_char_of_isOperator hop
  have hascii := toNat_lt_of_read hy
  obtain ⟨l, hl, htame⟩ := hw.restores front_nil
  have hrestores : Restores restore [] (squeezed (w ++ c :: s)) (l ++ c :: s) := by
    rw [squeezed_join hc, squeezed_of_isLiteral hs.literal hascii]
    exact hl.join hc (restores_of_plain (plain_of_isLiteral hs.literal) _)
  have hforeign : foreignChar? (w ++ c :: s) = none :=
    foreignChar?_eq_none.2 (List.forall_mem_append.2 ⟨hw.toNat_lt,
      List.forall_mem_cons.2 ⟨toNat_lt_of_isOperatorChar hc, hascii⟩⟩)
  rw [read_literal hs.literal hascii, ← readPart_literal hs.literal] at hy
  rw [hname, List.append_assoc, List.singleton_append, read_eq_ok_iff hforeign,
    readsAs_iff_of_restores hrestores, readPart_before_scientific hop hname hc htame hs hascii hy]

/-- Which operators join a literal and an operand behind it. -/
theorem read_behind_scientific (hop : op.isOperator = true) (hw : Operand restore w x)
    (hs : IsScientific s) (hy : Expr.read restore s = .ok y) :
    Expr.read restore (s ++ op.name ++ w) = .ok (op.combine y x) ↔
      (HasBarePoint s → op = .plus ∨ op = .minus) := by
  obtain ⟨c, hname, hc⟩ := exists_char_of_isOperator hop
  have hascii := toNat_lt_of_read hy
  obtain ⟨r, hr, htame⟩ := hw.restores (front_cons hc (s.reverse ++ []))
  have hrestores : Restores restore [] (squeezed (s ++ c :: w)) (s ++ c :: r) := by
    rw [squeezed_join hc, squeezed_of_isLiteral hs.literal hascii]
    exact (restores_of_plain (plain_of_isLiteral hs.literal) []).join hc hr
  have hforeign : foreignChar? (s ++ c :: w) = none :=
    foreignChar?_eq_none.2 (List.forall_mem_append.2 ⟨hascii,
      List.forall_mem_cons.2 ⟨toNat_lt_of_isOperatorChar hc, hw.toNat_lt⟩⟩)
  rw [read_literal hs.literal hascii, ← readPart_literal hs.literal] at hy
  rw [hname, List.append_assoc, List.singleton_append, read_eq_ok_iff hforeign,
    readsAs_iff_of_restores hrestores, readPart_behind_scientific hop hname hc htame hs hascii hy]

/-- A literal in ASCII is a number by itself. -/
theorem exists_read_num_iff (hs : IsScientific s) :
    (∃ v : α, Expr.read restore s = .ok (.num v)) ↔ ∀ c ∈ s, c.toNat < 128 := by
  constructor
  · rintro ⟨v, hv⟩
    exact toNat_lt_of_read hv
  · intro hascii
    obtain ⟨d, hd⟩ := Decimal.exists_read?_of_isLiteral hascii hs.literal
    exact ⟨Numeral.ofDecimal d, (read_literal hs.literal hascii).2 (by rw [readNumber, hd])⟩

/-- An unsigned literal with an exponent is a number by itself, if its digits are in ASCII. Behind a
group and an operator it is the same number exactly if it has no bare point, and so it is before an
operator and a group, save that there a plus or minus joins it with a bare point too. -/
theorem parse_scientific_iff {l : String} (hl : IsScientific l.toList) :
    ((∃ v : Float, Expr.parse l = .ok (.num v)) ↔ ∀ c ∈ l.toList, c.toNat < 128) ∧
      ∀ (v : Float) (a : String) (x : Expr Float) (op : Symbol), Expr.parse l = .ok (.num v) →
        Expr.parse a = .ok x → op.isOperator = true →
        (Expr.parse ("(" ++ a ++ ")" ++ String.ofList op.name ++ l) = .ok (op.combine x (.num v)) ↔
          ¬ HasBarePoint l.toList) ∧
        (Expr.parse (l ++ String.ofList op.name ++ "(" ++ a ++ ")") = .ok (op.combine (.num v) x) ↔
          (HasBarePoint l.toList → op = .plus ∨ op = .minus)) := by
  refine ⟨exists_read_num_iff hl, fun v a x op hv ha hop => ?_⟩
  have hgroup : Operand true (parenthesised a.toList) x := .group ha
  have hbefore := read_before_scientific hop hgroup hl hv
  have hbehind := read_behind_scientific hop hgroup hl hv
  exact ⟨by simpa [Expr.parse, Expr.parseWith, parenthesised] using hbefore,
    by simpa [Expr.parse, Expr.parseWith, parenthesised] using hbehind⟩

/-- The number `1.e-5` is no factor behind a group, but `1.5e-5` is. -/
theorem parse_scientific_iff_bare_point :
    Expr.parse "1.e-5" = .ok (.num (Numeral.ofDecimal (.finite false 1 (-5))) : Expr Float) ∧
      Expr.parse "(x)*1.e-5" ≠
        .ok (.mul (.var 'x') (.num (Numeral.ofDecimal (.finite false 1 (-5)))) : Expr Float) ∧
      Expr.parse "(x)*1.5e-5" =
        .ok (.mul (.var 'x') (.num (Numeral.ofDecimal (.finite false 15 (-6)))) : Expr Float) := by
  have hx : Expr.parse "x" = .ok (.var 'x' : Expr Float) :=
    Sum.read_eq (.term (.factor (.operand (.letter (c := 'x') rfl))))
  have hbare : IsScientific "1.e-5".toList := ⟨by decide, rfl, 'e', by decide, .inl rfl⟩
  have hnumber : Expr.parse "1.e-5" =
    .ok (.num (Numeral.ofDecimal (.finite false 1 (-5))) : Expr Float) :=
    (read_literal hbare.literal (foreignChar?_eq_none.1 rfl)).2 rfl
  have hother : IsScientific "1.5e-5".toList := ⟨by decide, rfl, 'e', by decide, .inl rfl⟩
  have hnumber' : Expr.parse "1.5e-5" =
    .ok (.num (Numeral.ofDecimal (.finite false 15 (-6))) : Expr Float) :=
    (read_literal hother.literal (foreignChar?_eq_none.1 rfl)).2 rfl
  refine ⟨hnumber, fun h => ?_, ?_⟩
  · have hpoint : HasBarePoint "1.e-5".toList := ⟨['1'], 'e', '-', ['5'], rfl, .inl rfl, .inr rfl⟩
    exact ((parse_scientific_iff hbare).2 _ "x" _ .times hnumber hx rfl).1.1 h hpoint
  · have hclosed : ¬ HasBarePoint "1.5e-5".toList := by
      have hmantissa : IsMantissa (['1'] ++ '.' :: ['5']) := .fraction (by simp) (by simp) (by simp)
      have hdigits : ∀ c ∈ ['5'], c.isDigit = true := by simp
      exact (hasBarePoint_iff hmantissa hdigits (.inl rfl) (.inr rfl)).not.2 (by simp)
    exact ((parse_scientific_iff hother).2 _ "x" _ .times hnumber' hx rfl).1.2 hclosed

end Reading

end Formula
