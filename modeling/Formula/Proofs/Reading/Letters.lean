import Formula.Proofs.Literal.Shape
import Formula.Proofs.Reading.Run

/-!
# Letters behind each other

A word of letters means the product of its letters, and behind a number the product of the number
and its letters, from left to right (`parse_letters`). The reader takes the last letter off and
reads the whole rest again, so a run grows by one letter at a time (`IsRun.letters`), and the shape
of its beginning decides what a letter may turn it into. Behind a number a letter makes neither a
longer literal, although `e` could begin an exponent, nor a word for a number. A word without a
number before it must not begin with a word for a number.
-/

namespace Formula.Reading

open Literal (IsMantissa isWord)

variable {α : Type} {s m n w : List Char} {x : Expr α} {c : Char}

/-- The product of an expression and letters, from left to right. -/
def row (x : Expr α) (w : List Char) : Expr α :=
  w.foldl (fun product c => .mul product (leaf c)) x

@[simp] theorem row_nil (x : Expr α) : row x [] = x := rfl

/-- A last letter is the last factor. -/
@[simp] theorem row_concat (x : Expr α) (w : List Char) (c : Char) :
    row x (w ++ [c]) = .mul (row x w) (leaf c) := by
  rw [row, List.foldl_append]
  rfl

variable [Numeral α]

/-! ## Letters behind a run -/

/-- A run goes on with letters as long as none of them ends a function name and no beginning is a
word for a number. -/
theorem IsRun.letters (h : IsRun s x) (hw : ∀ c ∈ w, c.isAlpha = true)
    (hnames : ∀ f ∈ Symbol.functions, ¬ f.name <:+: s ++ w)
    (hword : ∀ p, p ≠ [] → p <+: w → isWord (s ++ p) = false) : IsRun (s ++ w) (row x w) := by
  induction w using List.reverseRecOn with
  | nil => simpa using h
  | append_singleton w c ih =>
    have hbehind : s ++ w <+: s ++ (w ++ [c]) := ⟨[c], List.append_assoc s w [c]⟩
    have hrun : IsRun (s ++ w) (row x w) := by
      refine ih (fun d hd => hw d (List.mem_append_left _ hd)) (fun f hf hname => ?_)
        fun p hne hp => ?_
      · exact hnames f hf (hname.trans hbehind.isInfix)
      · exact hword p hne (hp.trans (List.prefix_append w [c]))
    have hwhole := hword (w ++ [c]) (by simp) (List.prefix_refl _)
    rw [← List.append_assoc] at hnames hwhole ⊢
    rw [row_concat]
    exact hrun.letter (hw c (by simp)) (fun f hf hname => hnames f hf hname.isInfix) hwhole

/-! ## Numbers -/

/-- Letters in a row behind characters that are no letters all stand behind them. -/
theorem infix_of_not_isAlpha (hm : ∀ c ∈ m, c.isAlpha = false) (hne : n ≠ [])
    (hn : ∀ c ∈ n, c.isAlpha = true) (h : n <:+: m ++ w) : n <:+: w := by
  induction m with
  | nil => exact h
  | cons c m ih =>
    rcases List.infix_cons_iff.1 h with hprefix | hinfix
    · -- A name cannot begin with the first character.
      obtain ⟨d, n, rfl⟩ := List.exists_cons_of_ne_nil hne
      obtain rfl := (List.cons_prefix_cons.1 hprefix).1
      have := hm d List.mem_cons_self
      rw [hn d List.mem_cons_self] at this
      cases this
    · exact ih (fun d hd => hm d (List.mem_cons_of_mem c hd)) hinfix

/-- Behind a number function names are those of the letters by themselves. -/
theorem not_infix_mantissa (hm : IsMantissa m) (hnames : ∀ f ∈ Symbol.functions, ¬ f.name <:+: w) :
    ∀ f ∈ Symbol.functions, ¬ f.name <:+: m ++ w := by
  intro f hf hname
  refine hnames f hf (infix_of_not_isAlpha (m := m) (fun c hc => ?_) ?_ ?_ hname)
  · exact not_isAlpha_of_digit_or_point (hm.isDigit_or_point c hc)
  · exact List.ne_nil_of_length_pos f.name_length_pos
  · exact isAlpha_of_mem_name (mem_functions.1 hf)

/-- No word for a number begins with digits. -/
theorem not_isWord_mantissa (hm : IsMantissa m) (w : List Char) : isWord (m ++ w) = false := by
  rw [Bool.eq_false_iff]
  intro hword
  obtain ⟨c, t, rfl⟩ := List.exists_cons_of_ne_nil hm.ne_nil
  obtain ⟨d, hd⟩ := (Decimal.exists_readWord?_iff false).2 hword
  rw [List.cons_append, Decimal.readWord?_eq_none (hm.isDigit_or_point c List.mem_cons_self)] at hd
  cases hd

/-- A mantissa is a number without a sign. -/
theorem isNumber_mantissa (hm : IsMantissa m) : Literal.IsNumber m :=
  .unsigned (.figures (.plain hm))

/-- A number without an exponent is a run. -/
theorem isRun_mantissa {d : Decimal} (hm : IsMantissa m) (hd : Decimal.read? m = some d) :
    IsRun m (.num (Numeral.ofDecimal d) : Expr α) where
  ne_nil := hm.ne_nil
  chars := fun c hc => .inr (hm.isDigit_or_point c hc)
  nameless := by
    have hempty : ∀ f ∈ Symbol.functions, ¬ f.name <:+: [] := by decide
    simpa using not_infix_mantissa hm hempty
  reads := by
    rw [readPart_literal (Literal.isLiteral_of_isNumber (isNumber_mantissa hm)), readNumber, hd]

/-! ## Whole texts -/

/-- A run reads by itself, since no sign is left out in it. -/
theorem IsRun.read (h : IsRun s x) (restore : Bool) : Expr.read restore s = .ok x := by
  have hascii := foreignChar?_eq_none.2 fun c hc => (h.chars c hc).toNat_lt
  have hblank : squeezed s = s := squeezed_of_forall fun c hc => (h.chars c hc).plain.2.2
  rw [read_eq_ok_iff hascii, hblank]
  exact ⟨s, restored?_of_plain restore (plain_of_symbolChars h.chars), h.reads⟩

/-- A nonempty word of letters in which no function name stands reads as the product of its letters
from left to right, with the number first that stands before it, if one does. Without a number it
must not begin with a word for one. -/
theorem parse_letters (hne : w ≠ []) (hw : ∀ c ∈ w, c.isAlpha = true)
    (hnames : ∀ f ∈ Symbol.functions, ¬ f.name <:+: w) :
    (∀ m, IsMantissa m → ∃ d, Decimal.read? m = some d ∧
      Expr.parse (String.ofList (m ++ w)) = .ok (row (.num (Numeral.ofDecimal d) : Expr α) w)) ∧
    ((∀ p, p <+: w → isWord p = false) →
      Expr.parse (String.ofList w) = .ok (row (leaf (w.head hne) : Expr α) w.tail)) := by
  have hparse : ∀ {s : List Char} {x : Expr α}, IsRun s x →
    Expr.parse (String.ofList s) = .ok x := by
    intro s x h
    rw [Expr.parse, Expr.parseWith, String.toList_ofList]
    exact h.read true
  constructor
  · intro m hm
    obtain ⟨d, hd⟩ := Decimal.exists_read?_iff_isNumber.2 (isNumber_mantissa hm)
    refine ⟨d, hd, hparse ((isRun_mantissa hm hd).letters hw (not_infix_mantissa hm hnames) ?_)⟩
    exact fun p _ _ => not_isWord_mantissa hm p
  · intro hword
    obtain ⟨c, w, rfl⟩ := List.exists_cons_of_ne_nil hne
    have hletter : IsRun [c] (leaf c : Expr α) := isRun_letter (hw c List.mem_cons_self)
    refine hparse (hletter.letters (fun d hd => hw d (List.mem_cons_of_mem c hd)) hnames ?_)
    exact fun p _ hp => hword (c :: p) (List.prefix_cons_inj c |>.2 hp)

/-- An `e` behind digits begins no exponent here. -/
theorem parse_letters_mark :
    (∃ d, Decimal.read? ['2', '.'] = some d ∧ Expr.parse "2.eEx" =
      .ok (.mul (.mul (.mul (.num (Numeral.ofDecimal d)) (.const 'e')) (.var 'E'))
        (.var 'x') : Expr Float)) ∧
    Expr.parse "eEx" = .ok (.mul (.mul (.const 'e') (.var 'E')) (.var 'x') : Expr Float) := by
  have hletters : ∀ c ∈ ['e', 'E', 'x'], c.isAlpha = true := by simp
  have hnames : ∀ f ∈ Symbol.functions, ¬ f.name <:+: ['e', 'E', 'x'] := by
    simp [Symbol.functions, Symbol.all, Symbol.isOperator, Symbol.name, List.infix_cons_iff]
  have hmantissa : IsMantissa (['2'] ++ '.' :: []) := .fraction (by simp) (by simp) (by simp)
  have hwords : ∀ p, p <+: ['e', 'E', 'x'] → isWord p = false := by
    intro p hp
    obtain rfl | ⟨t, rfl, -⟩ := List.prefix_cons_iff.1 hp <;> simp [isWord, Literal.words]
  obtain ⟨hnumber, hword⟩ := parse_letters (α := Float) (w := ['e', 'E', 'x']) (by simp)
    hletters hnames
  exact ⟨hnumber _ hmantissa, hword hwords⟩

end Formula.Reading
