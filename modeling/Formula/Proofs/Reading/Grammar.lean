import Formula.Proofs.Reading.Parse

/-!
# The grammar of operators

What operators mean between operands: `*` and `/` bind tighter than `+` and `-`, these four group to
the left, `^` binds tighter still and groups to the right, and a sign binds looser than a power but
tighter than a product. The grammar leaves open what an operand is. The reader keeps to it for all
operands that it reads by themselves and that show no operator outside brackets, `IsAtom`: no level
is cut anywhere but where the grammar joins it (`Sum.readPart_eq`), so long as no exponent captures
a sign.
-/

namespace Formula.Reading

open Formula.Bracket

variable {α : Type} [Numeral α]

section Grammar
variable (P : List Char → Expr α → Prop)

/-- A factor is an operand, an operand with a factor as its exponent, or a factor behind a sign. -/
inductive Factor : List Char → Expr α → Prop
  | negated {s x} : Factor s x → Factor ('-' :: s) (negate x)
  | affirmed {s x} : Factor s x → Factor ('+' :: s) x
  | operand {s x} : P s x → Factor s x
  | power {l r x y} : P l x → Factor r y → Factor (l ++ '^' :: r) (.pow x y)

/-- A term is a factor, or a shorter term times or over a factor. -/
inductive Term : List Char → Expr α → Prop
  | factor {s x} : Factor P s x → Term s x
  | times {l r x y} : Term l x → Factor P r y → Term (l ++ '*' :: r) (.mul x y)
  | divide {l r x y} : Term l x → Factor P r y → Term (l ++ '/' :: r) (.div x y)

/-- A sum is a term, or a shorter sum plus or minus a term. -/
inductive Sum : List Char → Expr α → Prop
  | term {s x} : Term P s x → Sum s x
  | plus {l r x y} : Sum l x → Term P r y → Sum (l ++ '+' :: r) (.add x y)
  | minus {l r x y} : Sum l x → Term P r y → Sum (l ++ '-' :: r) (.sub x y)

end Grammar

/-- An operand that is read by itself and shows no operator outside brackets. -/
structure IsAtom (s : List Char) (x : Expr α) : Prop where
  ne_nil : s ≠ []
  quiet : Quiet s
  reads : readPart s = .ok x

variable {P Q : List Char → Expr α → Prop} {s l r : List Char} {x y : Expr α}

/-! ## Growing at the end -/

/-- A factor raised to a factor is a factor: the exponent goes to its last operand. -/
theorem Factor.raise (h : Factor P s x) (hr : Factor P r y) : ∃ z, Factor P (s ++ '^' :: r) z := by
  induction h with
  | negated _ ih =>
    obtain ⟨z, hz⟩ := ih
    exact ⟨_, .negated hz⟩
  | affirmed _ ih =>
    obtain ⟨z, hz⟩ := ih
    exact ⟨_, .affirmed hz⟩
  | operand hs => exact ⟨_, .power hs hr⟩
  | power hl _ ih =>
    obtain ⟨z, hz⟩ := ih
    have h := Factor.power hl hz
    rw [← List.cons_append, ← List.append_assoc] at h
    exact ⟨_, h⟩

/-- Signs before a factor make a factor. -/
theorem Factor.signed {signs : List Char} (hsigns : ∀ c ∈ signs, c = '+' ∨ c = '-')
    (h : Factor P s x) :
    ∃ z, Factor P (signs ++ s) z := by
  induction signs with
  | nil => exact ⟨x, h⟩
  | cons c signs ih =>
    obtain ⟨z, hz⟩ := ih fun d hd => hsigns d (List.mem_cons_of_mem c hd)
    rcases hsigns c List.mem_cons_self with rfl | rfl
    · exact ⟨z, .affirmed hz⟩
    · exact ⟨_, .negated hz⟩

/-- A term goes on with a product, a quotient or a power. -/
theorem Term.extend (h : Term P s x) (hr : Factor P r y) {c : Char}
    (hc : c = '*' ∨ c = '/' ∨ c = '^') :
    ∃ z, Term P (s ++ c :: r) z := by
  rcases hc with rfl | rfl | rfl
  · exact ⟨_, .times h hr⟩
  · exact ⟨_, .divide h hr⟩
  · cases h with
    | factor hs =>
      obtain ⟨z, hz⟩ := hs.raise hr
      exact ⟨z, .factor hz⟩
    | times hl hs =>
      obtain ⟨z, hz⟩ := hs.raise hr
      have h := Term.times hl hz
      rw [← List.cons_append, ← List.append_assoc] at h
      exact ⟨_, h⟩
    | divide hl hs =>
      obtain ⟨z, hz⟩ := hs.raise hr
      have h := Term.divide hl hz
      rw [← List.cons_append, ← List.append_assoc] at h
      exact ⟨_, h⟩

/-- A sum goes on with any operator and a factor. -/
theorem Sum.extend (h : Sum P s x) (hr : Factor P r y) {c : Char}
    (hc : Symbol.isOperatorChar c = true) :
    ∃ z, Sum P (s ++ c :: r) z := by
  have hcases : c = '+' ∨ c = '-' ∨ c = '*' ∨ c = '/' ∨ c = '^' := by
    simpa [Symbol.isOperatorChar, or_assoc] using hc
  rcases hcases with rfl | rfl | hc
  · exact ⟨_, .plus h (.factor hr)⟩
  · exact ⟨_, .minus h (.factor hr)⟩
  · cases h with
    | term hs =>
      obtain ⟨z, hz⟩ := hs.extend hr hc
      exact ⟨z, .term hz⟩
    | plus hl hs =>
      obtain ⟨z, hz⟩ := hs.extend hr hc
      have h := Sum.plus hl hz
      rw [← List.cons_append, ← List.append_assoc] at h
      exact ⟨_, h⟩
    | minus hl hs =>
      obtain ⟨z, hz⟩ := hs.extend hr hc
      have h := Sum.minus hl hz
      rw [← List.cons_append, ← List.append_assoc] at h
      exact ⟨_, h⟩

/-! ## Other operands -/

/-- More operands make more factors. -/
theorem Factor.mono (h : Factor P s x) (hPQ : ∀ s x, P s x → Q s x) : Factor Q s x := by
  induction h with
  | negated _ ih => exact .negated ih
  | affirmed _ ih => exact .affirmed ih
  | operand hs => exact .operand (hPQ _ _ hs)
  | power hl _ ih => exact .power (hPQ _ _ hl) ih

/-- More operands make more terms. -/
theorem Term.mono (h : Term P s x) (hPQ : ∀ s x, P s x → Q s x) : Term Q s x := by
  induction h with
  | factor hs => exact .factor (hs.mono hPQ)
  | times _ hr ih => exact .times ih (hr.mono hPQ)
  | divide _ hr ih => exact .divide ih (hr.mono hPQ)

/-- More operands make more sums. -/
theorem Sum.mono (h : Sum P s x) (hPQ : ∀ s x, P s x → Q s x) : Sum Q s x := by
  induction h with
  | term hs => exact .term (hs.mono hPQ)
  | plus _ hr ih => exact .plus ih (hr.mono hPQ)
  | minus _ hr ih => exact .minus ih (hr.mono hPQ)

/-! ## The texts of factors, terms and sums -/

section Characters
variable {p : Char → Prop} (hp : ∀ c, Symbol.isOperatorChar c = true → p c)
include hp

/-- What holds of the characters of operands and operators holds of those of a factor. -/
theorem Factor.forall_mem (hP : ∀ s x, P s x → ∀ c ∈ s, p c) (h : Factor P s x) : ∀ c ∈ s, p c := by
  induction h with
  | negated _ ih => exact List.forall_mem_cons.2 ⟨hp '-' rfl, ih⟩
  | affirmed _ ih => exact List.forall_mem_cons.2 ⟨hp '+' rfl, ih⟩
  | operand hs => exact hP _ _ hs
  | power hl _ ih =>
    exact List.forall_mem_append.2 ⟨hP _ _ hl, List.forall_mem_cons.2 ⟨hp '^' rfl, ih⟩⟩

/-- What holds of the characters of operands and operators holds of those of a term. -/
theorem Term.forall_mem (hP : ∀ s x, P s x → ∀ c ∈ s, p c) (h : Term P s x) : ∀ c ∈ s, p c := by
  induction h with
  | factor hs => exact hs.forall_mem hp hP
  | times _ hr ih =>
    exact List.forall_mem_append.2 ⟨ih, List.forall_mem_cons.2 ⟨hp '*' rfl, hr.forall_mem hp hP⟩⟩
  | divide _ hr ih =>
    exact List.forall_mem_append.2 ⟨ih, List.forall_mem_cons.2 ⟨hp '/' rfl, hr.forall_mem hp hP⟩⟩

/-- What holds of the operators and of the characters of the operands holds of every character. -/
theorem Sum.forall_mem (hP : ∀ s x, P s x → ∀ c ∈ s, p c) (h : Sum P s x) : ∀ c ∈ s, p c := by
  induction h with
  | term hs => exact hs.forall_mem hp hP
  | plus _ hr ih =>
    exact List.forall_mem_append.2 ⟨ih, List.forall_mem_cons.2 ⟨hp '+' rfl, hr.forall_mem hp hP⟩⟩
  | minus _ hr ih =>
    exact List.forall_mem_append.2 ⟨ih, List.forall_mem_cons.2 ⟨hp '-' rfl, hr.forall_mem hp hP⟩⟩

end Characters

/-- In whatever text an operand has begun, what stands before it does not matter. -/
theorem not_atSign_append (h : ¬ AtSign r) (l : List Char) : ¬ AtSign (l ++ r) := by
  intro hl
  refine h fun c hc => hl c ?_
  rw [Option.mem_def] at hc ⊢
  rw [List.getLast?_append, hc, Option.some_or]

/-- Where an operand has begun behind an operator, what stands before the operator does not matter.
-/
theorem not_atSign_cons (h : ¬ AtSign r) (l : List Char) (c : Char) : ¬ AtSign (l ++ c :: r) := by
  simpa using not_atSign_append h (l ++ [c])

/-- Two balanced texts are balanced around an operator. -/
theorem balanced_join {c : Char} (hl : balanced l = true) (hc : Symbol.isOperatorChar c = true)
    (hr : balanced r = true) : balanced (l ++ c :: r) = true := by
  rw [balanced_append hl, balanced_cons_of_plain (plain_of_isOperatorChar hc).1
    (plain_of_isOperatorChar hc).2, hr]

/-- The brackets of an atom are balanced. -/
theorem IsAtom.balanced (h : IsAtom s x) : balanced s = true :=
  balanced_of_readPart h.reads

/-- No atom ends in an operator. -/
theorem IsAtom.not_atSign (h : IsAtom s x) : ¬ AtSign s := by
  intro hs
  rcases List.eq_nil_or_concat s with rfl | ⟨a, c, rfl⟩
  · exact h.ne_nil rfl
  · have hc : Symbol.isOperatorChar c = true := hs c (by simp)
    have hd := depth_of_balanced h.balanced
    simp only [List.concat_eq_append, depth_append, depth_cons, depth_nil,
      rise_of_isOperatorChar hc] at hd
    have hquiet : Symbol.isOperatorChar c = false := h.quiet a c [] (by simp) (by omega)
    rw [hc] at hquiet
    cases hquiet

/-- The brackets of a factor are balanced. -/
theorem Factor.balanced (h : Factor IsAtom s x) : balanced s = true := by
  induction h with
  | negated _ ih => exact balanced_join (l := []) rfl rfl ih
  | affirmed _ ih => exact balanced_join (l := []) rfl rfl ih
  | operand hs => exact hs.balanced
  | power hl _ ih => exact balanced_join hl.balanced rfl ih

/-- No operand is due behind a factor. -/
theorem Factor.not_atSign (h : Factor IsAtom s x) : ¬ AtSign s := by
  induction h with
  | negated _ ih => exact not_atSign_cons ih [] '-'
  | affirmed _ ih => exact not_atSign_cons ih [] '+'
  | operand hs => exact hs.not_atSign
  | power _ _ ih => exact not_atSign_cons ih _ '^'

/-- A factor has no plus or minus outside brackets but signs. -/
theorem Factor.onlySigns (h : Factor IsAtom s x) : OnlySigns s := by
  induction h with
  | negated _ ih => exact OnlySigns.join (l := []) rfl rfl outside_nil (fun _ => atSign_nil) ih
  | affirmed _ ih => exact OnlySigns.join (l := []) rfl rfl outside_nil (fun _ => atSign_nil) ih
  | operand hs => exact hs.quiet.onlySigns
  | power hl _ ih =>
    exact OnlySigns.join (depth_of_balanced hl.balanced) rfl hl.quiet.onlySigns (by simp) ih

/-- In a factor nothing is multiplied or divided outside brackets. -/
theorem Factor.noProducts (h : Factor IsAtom s x) : NoProducts s := by
  induction h with
  | negated _ ih => exact NoProducts.join (l := []) rfl rfl outside_nil (by decide) ih
  | affirmed _ ih => exact NoProducts.join (l := []) rfl rfl outside_nil (by decide) ih
  | operand hs => exact hs.quiet.noProducts
  | power hl _ ih =>
    exact NoProducts.join (depth_of_balanced hl.balanced) rfl hl.quiet.noProducts (by decide) ih

/-- The brackets of a term are balanced. -/
theorem Term.balanced (h : Term IsAtom s x) : balanced s = true := by
  induction h with
  | factor hs => exact hs.balanced
  | times _ hr ih => exact balanced_join ih rfl hr.balanced
  | divide _ hr ih => exact balanced_join ih rfl hr.balanced

/-- No operand is due behind a term. -/
theorem Term.not_atSign (h : Term IsAtom s x) : ¬ AtSign s := by
  cases h with
  | factor hs => exact hs.not_atSign
  | times _ hr => exact not_atSign_cons hr.not_atSign _ '*'
  | divide _ hr => exact not_atSign_cons hr.not_atSign _ '/'

/-- A term has no plus or minus outside brackets but signs. -/
theorem Term.onlySigns (h : Term IsAtom s x) : OnlySigns s := by
  induction h with
  | factor hs => exact hs.onlySigns
  | times hl hr ih => exact ih.join (depth_of_balanced hl.balanced) rfl (by simp) hr.onlySigns
  | divide hl hr ih => exact ih.join (depth_of_balanced hl.balanced) rfl (by simp) hr.onlySigns

/-- The brackets of a sum are balanced. -/
theorem Sum.balanced (h : Sum IsAtom s x) : balanced s = true := by
  induction h with
  | term hs => exact hs.balanced
  | plus _ hr ih => exact balanced_join ih rfl hr.balanced
  | minus _ hr ih => exact balanced_join ih rfl hr.balanced

/-- No operand is due behind a sum. -/
theorem Sum.not_atSign (h : Sum IsAtom s x) : ¬ AtSign s := by
  cases h with
  | term hs => exact hs.not_atSign
  | plus _ hr => exact not_atSign_cons hr.not_atSign _ '+'
  | minus _ hr => exact not_atSign_cons hr.not_atSign _ '-'

/-! ## Captured signs -/

/-- Around an operator no sign is captured if neither it nor one on either side is, with the whole
text in view. -/
theorem uncaptured_join {c : Char} (hd : depth l = 0) (hc : Symbol.isOperatorChar c = true) :
    Uncaptured (l ++ c :: r) ↔ Outside (fun a d b => ¬ Captured a d (b ++ c :: r)) l ∧
      ¬ Captured l c r ∧ Outside (fun a d b => ¬ Captured (l ++ c :: a) d b) r := by
  rw [Uncaptured, outside_append hd, outside_cons (rise_of_isOperatorChar hc)]
  simp only [List.append_nil]

/-- The operands of a text without captured signs have none. -/
theorem Uncaptured.split {c : Char} (h : Uncaptured (l ++ c :: r)) (hd : depth l = 0)
    (hc : Symbol.isOperatorChar c = true) : Uncaptured l ∧ ¬ Captured l c r ∧ Uncaptured r := by
  obtain ⟨hl, hcap, hr⟩ := (uncaptured_join hd hc).1 h
  refine ⟨hl.imp fun a d b hdb hcap => hdb ?_, hcap, hr.imp fun a d b hda hcap => hda ?_⟩
  · obtain ⟨hsign, hmark, e, he, hdigit⟩ := hcap
    refine ⟨hsign, hmark, e, ?_, hdigit⟩
    rw [Option.mem_def] at he ⊢
    rw [List.head?_append, he, Option.some_or]
  · obtain ⟨hsign, hmark, hdigit⟩ := hcap
    exact ⟨hsign, by simpa using hmark.append_left (l ++ [c]), hdigit⟩

/-! ## Reading -/

/-- A text in which an operand has begun is not empty. -/
theorem ne_nil_of_not_atSign (h : ¬ AtSign s) : s ≠ [] := by
  rintro rfl
  exact h atSign_nil

/-- An operator between operands is not enclosed, so that the text reads as its topmost
operation. -/
theorem readPart_join {c : Char} (hl : balanced l = true) (hend : ¬ AtSign l)
    (hc : Symbol.isOperatorChar c = true) (hr : balanced r = true)
    (hliteral : Literal.isLiteral (l ++ c :: r) = false) :
    (readPart (l ++ c :: r) : Except ParseError (Expr α)) = readBody (l ++ c :: r) := by
  have hbalanced := balanced_join hl hc hr
  exact readPart_eq_readBody hbalanced (by simp)
    (enclosed?_eq_none_of_depth hbalanced (ne_nil_of_not_atSign hend) (depth_of_balanced hl))
    hliteral

/-- Brackets and operators other than plus and minus stand in no literal. -/
theorem not_isLiteral_of_mem {c : Char} (hc : c ∈ ['(', ')', '[', ']', '*', '/', '^']) (h : c ∈ s) :
    Literal.isLiteral s = false := by
  rw [Bool.eq_false_iff]
  exact fun hs => Literal.not_mem_of_isLiteral_of_foreign hc hs h

/-- A factor reads as the grammar says. -/
theorem Factor.readPart_eq [Numeral.Signed α] (h : Factor IsAtom s x) (hs : Uncaptured s) :
    readPart s = .ok x := by
  induction h with
  | @negated s x h ih =>
    have hread := ih (hs.split (l := []) rfl rfl).2.2
    have hfactor : Factor IsAtom ('-' :: s) (negate x) := .negated h
    cases hliteral : Literal.isLiteral ('-' :: s) with
    | true =>
      -- The sign is part of the literal and negates its number.
      obtain ⟨hsign, hs⟩ := Literal.splitSign_of_isLiteral (Or.inr rfl) hliteral
      rw [readPart_literal hs] at hread
      rw [readPart_literal hliteral, readNumber_minus hsign hread]
    | false =>
      rw [readPart_eq_readBody hfactor.balanced (by simp)
        (enclosed?_eq_none_of_ne (by decide) s) hliteral]
      exact readBody_negated (dissect_minus hfactor.onlySigns hfactor.noProducts) hread
  | @affirmed s x h ih =>
    have hread := ih (hs.split (l := []) rfl rfl).2.2
    have hfactor : Factor IsAtom ('+' :: s) x := .affirmed h
    cases hliteral : Literal.isLiteral ('+' :: s) with
    | true =>
      obtain ⟨hsign, hs⟩ := Literal.splitSign_of_isLiteral (Or.inl rfl) hliteral
      rw [readPart_literal hs] at hread
      rw [readPart_literal hliteral, readNumber_plus hsign hread]
    | false =>
      rw [readPart_eq_readBody hfactor.balanced (by simp)
        (enclosed?_eq_none_of_ne (by decide) s) hliteral]
      exact readBody_affirmed (dissect_plus hfactor.onlySigns hfactor.noProducts) hread
  | operand h => exact h.reads
  | @power l r x y hl hr ih =>
    have hfactor : Factor IsAtom (l ++ '^' :: r) (.pow x y) := .power hl hr
    have hread := ih (hs.split (depth_of_balanced hl.balanced) rfl).2.2
    rw [readPart_join hl.balanced hl.not_atSign rfl hr.balanced
      (not_isLiteral_of_mem (c := '^') (by decide) (by simp))]
    exact readBody_operation
      (dissect_power hl.ne_nil hl.balanced hl.quiet hfactor.onlySigns hfactor.noProducts)
      hl.reads hread

/-- A term reads as the grammar says. -/
theorem Term.readPart_eq [Numeral.Signed α] (h : Term IsAtom s x) (hs : Uncaptured s) :
    readPart s = .ok x := by
  induction h with
  | factor h => exact h.readPart_eq hs
  | @times l r x y hl hr ih =>
    have hterm : Term IsAtom (l ++ '*' :: r) (.mul x y) := .times hl hr
    obtain ⟨hsl, -, hsr⟩ := hs.split (depth_of_balanced hl.balanced) rfl
    rw [readPart_join hl.balanced hl.not_atSign rfl hr.balanced
      (not_isLiteral_of_mem (c := '*') (by decide) (by simp))]
    exact readBody_operation (dissect_product .times rfl (Or.inl rfl) hl.balanced hterm.onlySigns
      hr.noProducts) (ih hsl) (hr.readPart_eq hsr)
  | @divide l r x y hl hr ih =>
    have hterm : Term IsAtom (l ++ '/' :: r) (.div x y) := .divide hl hr
    obtain ⟨hsl, -, hsr⟩ := hs.split (depth_of_balanced hl.balanced) rfl
    rw [readPart_join hl.balanced hl.not_atSign rfl hr.balanced
      (not_isLiteral_of_mem (c := '/') (by decide) (by simp))]
    exact readBody_operation (dissect_product .divide rfl (Or.inr rfl) hl.balanced hterm.onlySigns
      hr.noProducts) (ih hsl) (hr.readPart_eq hsr)

/-- A sign that no exponent captures makes no literal of the operands around it. -/
theorem not_isLiteral_of_not_captured {c : Char} (hc : Symbol.isOperatorChar c = true)
    (hne : l ≠ []) (h : ¬ Captured l c r) : Literal.isLiteral (l ++ c :: r) = false := by
  rw [Bool.eq_false_iff]
  intro hliteral
  rcases Literal.eq_nil_or_captured_of_isLiteral hliteral hc with hnil | hcap
  · exact hne hnil
  · exact h hcap

/-- A sum reads as the grammar says. -/
theorem Sum.readPart_eq [Numeral.Signed α] (h : Sum IsAtom s x) (hs : Uncaptured s) :
    readPart s = .ok x := by
  induction h with
  | term h => exact h.readPart_eq hs
  | @plus l r x y hl hr ih =>
    obtain ⟨hsl, hcap, hsr⟩ := hs.split (depth_of_balanced hl.balanced) rfl
    rw [readPart_join hl.balanced hl.not_atSign rfl hr.balanced
      (not_isLiteral_of_not_captured rfl (ne_nil_of_not_atSign hl.not_atSign) hcap)]
    exact readBody_operation (dissect_sum .plus rfl (Or.inl rfl) hl.balanced hl.not_atSign hcap
      hr.onlySigns) (ih hsl) (hr.readPart_eq hsr)
  | @minus l r x y hl hr ih =>
    obtain ⟨hsl, hcap, hsr⟩ := hs.split (depth_of_balanced hl.balanced) rfl
    rw [readPart_join hl.balanced hl.not_atSign rfl hr.balanced
      (not_isLiteral_of_not_captured rfl (ne_nil_of_not_atSign hl.not_atSign) hcap)]
    exact readBody_operation (dissect_sum .minus rfl (Or.inr rfl) hl.balanced hl.not_atSign hcap
      hr.onlySigns) (ih hsl) (hr.readPart_eq hsr)

end Formula.Reading
