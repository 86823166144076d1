import Formula.Proofs.Writing.Row

/-!
# Reading what was written

The text of a legible expression reads as `Expr.reread` says (`Expr.read_write`). The grammar
derives the text as tightly as the topmost operation binds, `Expr.grade`, and the writer puts
parentheses where the place of an operand asks for more (`restorable_operand`).
-/

namespace Formula.Expr

open Reading Formula.Bracket

variable {α : Type} [Numeral α] {s : List Char} {x y : Expr α} {n : Nat} {full : Bool}

/-! ## Texts without blanks -/

/-- Blanks are taken out of an operand within its parentheses. -/
theorem squeezed_operandText (parent operand : Expr α) (isRight : Bool) (s : List Char) :
    squeezed (operandText full parent operand isRight s) =
      operandText full parent operand isRight (squeezed s) := by
  unfold operandText
  split
  · rfl
  · split
    · exact squeezed_parenthesised s
    · rfl

/-- Blanks are taken out of both operands and around the sign between them. -/
theorem squeezed_operationText (parent l r : Expr α) {sign : List Char} {c : Char}
    (hsign : squeezed sign = [c]) (left right : List Char) :
    squeezed (operationText full parent l r sign left right) =
      operationText full parent l r [c] (squeezed left) (squeezed right) := by
  unfold operationText
  split
  · rw [show ∀ s, inParens s = parenthesised s from fun _ => rfl, squeezed_parenthesised,
      squeezed_append, squeezed_append, hsign, squeezed_operandText, squeezed_operandText]
    rfl
  · rw [squeezed_append, squeezed_append, hsign, squeezed_operandText, squeezed_operandText]

/-- The text of a number has no blanks. -/
theorem unspaced_num (value : α) : (num value).unspaced full = Numeral.text value := by
  have hmagnitude : squeezed (Numeral.toDecimal value).magnitude.text =
    (Numeral.toDecimal value).magnitude.text :=
    squeezed_of_forall fun c hc =>
      (Decimal.isSymbolChar_of_mem_text (Decimal.isNegative_magnitude _) c hc).plain.2.2
  have htext := Decimal.text_eq (Numeral.toDecimal value)
  simp only [unspaced, write, Numeral.text]
  rw [htext, squeezed_append, hmagnitude]
  cases (Numeral.toDecimal value).isNegative <;> rfl

/-- A letter has no blanks to take out. -/
theorem unspaced_letter {c : Char} (hc : c.isAlpha = true) : squeezed [c] = [c] := by
  rw [squeezed_cons (not_isBlank_of_isAlpha hc)]
  rfl

omit [Numeral α] in
/-- Blanks are taken out of both factors side by side. -/
theorem squeezed_sideBySide (first : List Char) (second : Expr α) (t : List Char) :
    squeezed (sideBySide first second t) = sideBySide (squeezed first) second (squeezed t) := by
  unfold sideBySide
  split
  · rw [squeezed_append, show inParens t = parenthesised t from rfl, squeezed_parenthesised]
    rfl
  · rw [squeezed_append]

/-- A product without blanks has its factors side by side or with the sign between them. -/
theorem unspaced_mul {l r : Expr α} : (mul l r).unspaced full = match juxtaposed? l r with
    | some false => sideBySide (l.unspaced full) r (r.unspaced full)
    | some true => sideBySide (r.unspaced full) l (l.unspaced full)
    | none => operationText full (mul l r) l r ['*'] (l.unspaced full) (r.unspaced full) := by
  rw [unspaced, write]
  cases juxtaposed? l r with
  | none => exact squeezed_operationText (mul l r) l r rfl _ _
  | some swapped =>
    cases swapped
    · exact squeezed_sideBySide _ r _
    · exact squeezed_sideBySide _ l _

/-! ## Operands of an operation -/

/-- How tightly the text of an expression is bound: as its topmost operation is, but a sign in front
of a number binds more loosely than the number, and parentheses bind the most tightly. -/
def grade (full : Bool) (e : Expr α) : Nat :=
  if full && e.parenthesizesItself then 4 else if e.isNegativeNumber then 3 else min e.precedence 4

/-- Negative numbers are leaves, which bind most tightly. -/
theorem isNegativeNumber_cases (e : Expr α) : e.isNegativeNumber = false ∨ e.precedence = 255 := by
  cases e with
  | num => exact Or.inr rfl
  | _ => exact Or.inl rfl

/-- The text of an expression is bound no less tightly than its operation, as far as sums, products
and powers go. -/
theorem le_grade {e : Expr α} (h : n ≤ e.precedence) (hn : n ≤ 3) : n ≤ e.grade false := by
  rcases isNegativeNumber_cases e with hneg | hprec
  · simp only [grade, hneg, Bool.false_and, Bool.false_eq_true, if_false]
    omega
  · simp only [grade, Bool.false_and, Bool.false_eq_true, if_false]
    split <;> omega

/-- An operand without parentheses binds as tightly as the operation above it, and more tightly on
the right. -/
theorem precedence_of_needsParens {parent e : Expr α} {isRight : Bool}
    (h : needsParens parent e isRight = false) :
    parent.precedence ≤ e.precedence ∧ (isRight = true → parent.precedence < e.precedence) := by
  simp only [needsParens, Bool.or_eq_false_iff, decide_eq_false_iff_not, Bool.and_eq_false_iff,
    beq_eq_false_iff_ne] at h
  obtain ⟨⟨hle, hright⟩, -⟩ := h
  refine ⟨by omega, fun htrue => ?_⟩
  rcases hright with hright | hright
  · rw [htrue] at hright
    cases hright
  · omega

/-- A base without parentheses is an atom. -/
theorem grade_of_base {base exponent : Expr α}
    (h : needsParens (pow base exponent) base false = false) :
    4 ≤ base.grade false := by
  have hle : 3 ≤ base.precedence := (precedence_of_needsParens h).1
  obtain ⟨hpower, hneg⟩ : base.isPower = false ∧ base.isNegativeNumber = false := by
    simp only [needsParens, Bool.or_eq_false_iff] at h
    simpa [show (pow base exponent).isPower = true from rfl] using h.2
  have hprec : base.precedence ≠ 3 := by
    intro hthree
    cases base with
    | pow => cases hpower
    | _ => cases hthree
  simp only [grade, hneg, Bool.false_and, Bool.false_eq_true, if_false]
  omega

/-- An operand is derived as tightly as its place asks for. -/
theorem restorable_operand [Numeral.Signed α] {parent e : Expr α} {isRight : Bool}
    (h : Restorable (e.grade full) (e.unspaced full) e.reread) (hn : n ≤ 4)
    (hplace : needsParens parent e isRight = false → n ≤ e.grade false) :
    Restorable n (operandText full parent e isRight (e.unspaced full)) e.reread := by
  unfold operandText
  by_cases hself : (full && e.parenthesizesItself) = true
  · rw [if_pos hself]
    rw [grade, if_pos hself] at h
    exact h.mono hn
  · rw [if_neg hself]
    have hgrade : e.grade full = e.grade false := by
      simp only [grade, hself, Bool.false_and]
    rw [hgrade] at h
    split
    · exact h.group.mono hn
    next hparens => exact h.mono (hplace (by simpa using hparens))

/-- An operation with its sign between the operands is derived at its level, or as an atom with full
parentheses. -/
theorem restorable_operation [Numeral.Signed α] {parent l r z : Expr α} {a b : Nat} {c : Char}
    (hl : Restorable (l.grade full) (l.unspaced full) l.reread)
    (hr : Restorable (r.grade full) (r.unspaced full) r.reread) (ha : a ≤ 4) (hb : b ≤ 4)
    (hleft : needsParens parent l false = false → a ≤ l.grade false)
    (hright : needsParens parent r true = false → b ≤ r.grade false)
    (hc : Symbol.isOperatorChar c = true) (hcap : ¬ CapturesSign full parent l r c)
    (hjoin : ∀ {u v}, Derives a u l.reread → Derives b v r.reread → Derives n (u ++ c :: v) z) :
    Restorable (if full then 4 else n) (operationText full parent l r [c] (l.unspaced full)
      (r.unspaced full)) z := by
  have hbody := (restorable_operand hl ha hleft).join hc hcap
    (restorable_operand hr hb hright) hjoin
  unfold operationText
  cases full with
  | false => simpa using hbody
  | true =>
    have hgroup := hbody.group
    simpa [inParens, parenthesised] using hgroup

/-! ## The ends of factors -/

/-- No function name ends in a parenthesis or in the last letter of a word for a number. -/
theorem end_of_last {c : Char} (hc : c = ')' ∨ c = 'f' ∨ c = 'N') (s : List Char) :
    EndsOperand (s ++ [c]) ∧ ∀ f ∈ Symbol.functions, ¬ f.name <:+ s ++ [c] := by
  have hnames : ∀ f ∈ Symbol.functions, f.name.getLast? ≠ some c := by
    rcases hc with rfl | rfl | rfl <;> decide
  refine ⟨⟨c, by simp, ?_⟩, not_name_suffix hnames s⟩
  rcases hc with rfl | rfl | rfl
  · exact Or.inr rfl
  · exact Or.inl (Or.inl rfl)
  · exact Or.inl (Or.inl rfl)

/-- A text that ends in a group ends an operand and not in a name. -/
theorem end_of_parenthesised (s t : List Char) :
    EndsOperand (s ++ parenthesised t) ∧
      ∀ f ∈ Symbol.functions, ¬ f.name <:+ s ++ parenthesised t := by
  have := end_of_last (c := ')') (Or.inl rfl) (s ++ '(' :: t)
  simpa [parenthesised] using this

/-- A run ends an operand and not in a name. -/
theorem end_of_isRun {w : List Char} (h : IsRun w x) :
    EndsOperand w ∧ ∀ f ∈ Symbol.functions, ¬ f.name <:+ w := by
  refine ⟨?_, fun f hf hsuffix => h.nameless f hf hsuffix.isInfix⟩
  obtain ⟨a, c, rfl⟩ := (List.eq_nil_or_concat w).resolve_left h.ne_nil
  rw [List.concat_eq_append]
  exact ⟨c, by simp, Or.inl (h.chars c (by simp))⟩

/-- A run behind a minus ends an operand and not in a name. -/
theorem end_of_minus {w : List Char} (h : IsRun w x) :
    EndsOperand ('-' :: w) ∧ ∀ f ∈ Symbol.functions, ¬ f.name <:+ '-' :: w := by
  obtain ⟨⟨c, hlast, hc⟩, hnames⟩ := end_of_isRun h
  refine ⟨⟨c, by simp [List.getLast?_cons, hlast], hc⟩, fun f hf hsuffix => ?_⟩
  rcases List.suffix_cons_iff.1 hsuffix with hname | hsuffix
  · exact not_mem_name (mem_functions.1 hf) (c := '-') rfl (by simp [hname])
  · exact hnames f hf hsuffix

/-- The number that a leaf is written as, without its sign. -/
theorem isRun_magnitude (value : α) : IsRun (Numeral.toDecimal value).magnitude.text
    (num (Numeral.ofDecimal (Numeral.toDecimal value).magnitude.reread : α)) :=
  Decimal.isRun_text (Decimal.isNegative_magnitude _)

/-- A number is written as its magnitude, behind a minus if it is negative. -/
theorem text_num (value : α) : Numeral.text value =
    if Numeral.isNegative value then '-' :: (Numeral.toDecimal value).magnitude.text
    else (Numeral.toDecimal value).magnitude.text := by
  rw [Numeral.text, Decimal.text_eq, Numeral.isNegative]
  cases (Numeral.toDecimal value).isNegative <;> rfl

/-- A number ends an operand and not in a name. -/
theorem end_of_num (value : α) :
    EndsOperand (Numeral.text value) ∧ ∀ f ∈ Symbol.functions, ¬ f.name <:+ Numeral.text value := by
  rw [text_num]
  split
  · exact end_of_minus (isRun_magnitude value)
  · exact end_of_isRun (isRun_magnitude value)

/-- Two factors are written side by side only if both are atomic and the one that comes second is no
constant. -/
theorem of_juxtaposed? {l r : Expr α} {swapped : Bool} (h : juxtaposed? l r = some swapped) :
    l.isAtomic = true ∧ r.isAtomic = true ∧ (if swapped then l else r).isConstant = false := by
  unfold juxtaposed? at h
  split at h
  · cases h
  next hatomic =>
    split at h
    · cases h
    · split at h
      · cases h
      next hconstant =>
        simp only [Option.ite_none_left_eq_some, Option.some.injEq] at h
        obtain ⟨-, rfl⟩ := h
        simp only [Bool.or_eq_true, Bool.not_eq_true', not_or, Bool.not_eq_false] at hatomic
        refine ⟨hatomic.1, hatomic.2, ?_⟩
        cases hr : r.isConstant with
        | false => simpa using hr
        | true => simpa [hr] using hconstant

/-- An atomic product with a sign in it ends in a number that is no fraction. -/
theorem of_juxtaposed?_eq_none {l r : Expr α} (h : juxtaposed? l r = none)
    (ha : (mul l r).isAtomic = true) (hl : l.Legible full) (hr : r.Legible full) :
    r.isUnwritable = true := by
  simp only [isAtomic, Bool.and_eq_true, Bool.not_eq_true'] at ha
  obtain ⟨⟨hlatomic, hratomic⟩, hconstant⟩ := ha
  have hnum : l.isUnwritable = false := by
    cases l with
    | num => cases hconstant
    | _ => rfl
  have hcontinues : ∀ e : Expr α, e.Legible full → e.continuesNumber = false := by
    intro e he
    cases e with
    | var id =>
      exact forall_ascii (P := fun c => c.isAlpha = true → (var c : Expr α).continuesNumber = false)
        (by simp only [continuesNumber]; decide) (toNat_lt_of_isAlpha he) he
    | _ => rfl
  rw [← Bool.not_eq_false]
  intro hwritable
  have hsecond : ∀ swapped : Bool, (if swapped then l else r).continuesNumber = false := by
    intro swapped
    cases swapped
    · exact hcontinues r hr
    · exact hcontinues l hl
  have := hsecond r.isConstant
  simp [juxtaposed?, hlatomic, hratomic, hnum, hwritable, hconstant, this] at h

/-- What is infinite or undefined ends in a letter of its word. -/
theorem text_of_isUnwritable {value : α} (h : (num value).isUnwritable = true) :
    ∃ a c, Numeral.text value = a ++ [c] ∧ (c = 'f' ∨ c = 'N') := by
  simp only [isUnwritable, Numeral.isFinite, Bool.not_eq_true'] at h
  rw [Numeral.text]
  cases hd : Numeral.toDecimal value with
  | finite =>
    rw [hd] at h
    cases h
  | infinite negative =>
    exact ⟨Decimal.sign negative ++ ['i', 'n'], 'f', by simp [Decimal.text], Or.inl rfl⟩
  | notANumber => exact ⟨['N', 'a'], 'N', rfl, Or.inr rfl⟩

/-- The text of a call without blanks is the name with the argument in parentheses. -/
theorem unspaced_call {f : Symbol} (hf : f.isOperator = false) (a : Expr α) :
    squeezed (f.name ++ inParens (a.write full)) = f.name ++ parenthesised (a.unspaced full) :=
  squeezed_call hf _

/-- A text that ends in a call ends an operand and not in a name. -/
theorem end_of_call {f : Symbol} (hf : f.isOperator = false) (s : List Char) (a : Expr α) :
    EndsOperand (s ++ squeezed (f.name ++ inParens (a.write full))) ∧
      ∀ g ∈ Symbol.functions, ¬ g.name <:+ s ++ squeezed (f.name ++ inParens (a.write full)) := by
  rw [unspaced_call hf, ← List.append_assoc]
  exact end_of_parenthesised _ _

/-- A variable behind another factor stands there without blanks. -/
theorem sideBySide_var {id : Char} (hid : id.isAlpha = true) (s : List Char) :
    sideBySide s (var id : Expr α) ((var id : Expr α).unspaced full) = s ++ [id] :=
  congrArg (s ++ ·) (unspaced_letter hid)

/-- Two factors side by side end an operand and not in a name. -/
theorem end_of_sideBySide {first second : Expr α} (ha : second.isAtomic = true)
    (hconst : second.isConstant = false) (hsecond : second.Legible full)
    (hmay : MayFollow full first second) :
    EndsOperand (sideBySide (first.unspaced full) second (second.unspaced full)) ∧
      ∀ f ∈ Symbol.functions, ¬ f.name <:+ sideBySide (first.unspaced full) second
      (second.unspaced full) := by
  cases second with
  | num | const => cases hconst
  | var id =>
    have hid : id.isAlpha = true := hsecond
    rw [sideBySide_var hid]
    exact ⟨⟨id, by simp, Or.inl (Or.inl hid)⟩, hmay.1⟩
  | sin a => exact end_of_call (f := .sin) rfl _ a
  | cos a => exact end_of_call (f := .cos) rfl _ a
  | tan a => exact end_of_call (f := .tan) rfl _ a
  | mul l r => exact end_of_parenthesised _ _
  | add | sub | div | pow | log | pending => cases ha

/-- The text of a factor ends an operand and no function name. -/
theorem Legible.end_of_isAtomic {e : Expr α} (h : e.Legible full) (ha : e.isAtomic = true) :
    EndsOperand (e.unspaced full) ∧ ∀ f ∈ Symbol.functions, ¬ f.name <:+ e.unspaced full := by
  have hletter : ∀ {c : Char}, c.isAlpha = true →
      EndsOperand (squeezed [c]) ∧ ∀ f ∈ Symbol.functions, ¬ f.name <:+ squeezed [c] := by
    intro c hc
    rw [unspaced_letter hc]
    exact end_of_isRun (isRun_letter (α := α) hc)
  cases e with
  | num value =>
    rw [unspaced_num]
    exact end_of_num value
  | var | const => exact hletter h
  | sin a => exact end_of_call (f := .sin) rfl [] a
  | cos a => exact end_of_call (f := .cos) rfl [] a
  | tan a => exact end_of_call (f := .tan) rfl [] a
  | mul l r =>
    obtain ⟨hl, hr, hmay⟩ := h
    rw [unspaced_mul]
    cases hj : juxtaposed? l r with
    | some swapped =>
      obtain ⟨hlatomic, hratomic, hconstant⟩ := of_juxtaposed? hj
      rw [hj] at hmay
      cases swapped
      · exact end_of_sideBySide hratomic hconstant hr hmay
      · exact end_of_sideBySide hlatomic hconstant hl hmay
    | none =>
      have hunwritable := of_juxtaposed?_eq_none hj ha hl hr
      cases r with
      | num value =>
        obtain ⟨a, c, htext, hc⟩ := text_of_isUnwritable hunwritable
        simp only [operationText, unspaced_num, htext]
        cases full with
        | true => exact end_of_parenthesised [] _
        | false =>
          rw [show operandText false (mul l (num value)) (num value) true (a ++ [c]) =
            a ++ [c] from rfl, ← List.append_assoc]
          exact end_of_last (Or.inr hc) _
      | _ => cases hunwritable
  | add | sub | div | pow | log | pending => cases ha

/-! ## Reading -/

/-- No text is bound more tightly than an atom. -/
theorem grade_le_four (e : Expr α) : e.grade full ≤ 4 := by
  unfold grade
  split
  · decide
  · split
    · decide
    · exact Nat.min_le_right _ _

/-- What is atomic is bound at least as tightly as a product. -/
theorem two_le_grade {e : Expr α} (h : e.isAtomic = true) : 2 ≤ e.grade full := by
  unfold grade
  split
  · decide
  · split
    · decide
    · cases e with
      | add | sub | div | pow | log | pending => cases h
      | num | var | const | mul | sin | cos | tan => simp [precedence]

section
variable [Numeral.Signed α]

/-- The text of an expression is spelled as said, and so is the argument of a trigonometric
function, which is needed where the function stands behind another factor. -/
structure Reads (full : Bool) (e : Expr α) : Prop where
  spells : Spells (e.grade full) (e.unspaced full) e.spelling
  argument : ∀ a, e = sin a ∨ e = cos a ∨ e = tan a → Restorable 0 (a.unspaced full) a.reread

omit [Numeral.Signed α] in
/-- An expression that reads as spelled is restored to its reread form. -/
theorem Reads.restorable {e : Expr α} (h : Reads full e) :
    Restorable (e.grade full) (e.unspaced full) e.reread :=
  h.spells.restorable

/-- Two factors that read as spelled also do so side by side. -/
theorem Reads.beside {first second : Expr α} (hfirst : Reads full first)
    (hsecond : Reads full second) (ha : first.isAtomic = true) (hb : second.isAtomic = true)
    (hconst : second.isConstant = false) (hl : first.Legible full) (hr : second.Legible full)
    (hmay : MayFollow full first second) :
    Spells 2 (sideBySide (first.unspaced full) second (second.unspaced full))
      (first.spelling.beside (spellingBehind second second.spelling)) := by
  have hspells := hfirst.spells.mono (two_le_grade ha)
  obtain ⟨hend, hnames⟩ := hl.end_of_isAtomic ha
  cases second with
  | num | const => cases hconst
  | var id =>
    have hid : id.isAlpha = true := hr
    rw [sideBySide_var hid]
    exact hspells.letter hid hmay.1 hmay.2
  | sin a =>
    have := hspells.call (f := .sin) (by simp) hend (by simp) (hsecond.argument a (by simp))
    rwa [← unspaced_call rfl] at this
  | cos a =>
    have := hspells.call (f := .cos) (by simp) hend (by simp) (hsecond.argument a (by simp))
    rwa [← unspaced_call rfl] at this
  | tan a =>
    have := hspells.call (f := .tan) (by simp) hend (fun _ => hmay) (hsecond.argument a (by simp))
    rwa [← unspaced_call rfl] at this
  | mul l r => exact hspells.group hend hnames hsecond.restorable
  | add | sub | div | pow | log | pending => cases hb

/-- An operation that is written with its sign reads as spelled when its operands do. -/
theorem Reads.operation {e l r z : Expr α} {a b : Nat} {c : Char} (hl : Reads full l)
    (hr : Reads full r) (hgrade : e.grade full = if full then 4 else n)
    (htext : e.unspaced full = operationText full e l r [c] (l.unspaced full) (r.unspaced full))
    (ha : a ≤ 4) (hb : b ≤ 4) (hleft : needsParens e l false = false → a ≤ l.grade false)
    (hright : needsParens e r true = false → b ≤ r.grade false)
    (hc : Symbol.isOperatorChar c = true) (hcap : ¬ CapturesSign full e l r c)
    (hjoin : ∀ {u v}, Derives a u l.reread → Derives b v r.reread → Derives n (u ++ c :: v) z) :
    Spells (e.grade full) (e.unspaced full) (.closed z) := by
  rw [hgrade, htext]
  exact .of_restorable
    (restorable_operation hl.restorable hr.restorable ha hb hleft hright hc hcap hjoin)

/-- An operation whose right operand has to bind more tightly than the operation itself. -/
theorem Reads.leftAssociative {e l r z : Expr α} {c : Char} (hl : Reads full l) (hr : Reads full r)
    (hn : n ≤ 2) (hprecedence : e.precedence = n) (hgrade : e.grade full = if full then 4 else n)
    (htext : e.unspaced full = operationText full e l r [c] (l.unspaced full) (r.unspaced full))
    (hc : Symbol.isOperatorChar c = true) (hcap : ¬ CapturesSign full e l r c)
    (hjoin : ∀ {u v}, Derives n u l.reread → Derives (n + 1) v r.reread →
      Derives n (u ++ c :: v) z) :
    Spells (e.grade full) (e.unspaced full) (.closed z) := by
  subst hprecedence
  refine hl.operation hr hgrade htext (by omega) (by omega) (fun hp => ?_) (fun hp => ?_)
    hc hcap hjoin
  · exact le_grade (precedence_of_needsParens hp).1 (by omega)
  · exact le_grade ((precedence_of_needsParens hp).2 rfl) (by omega)

/-- A call of a function reads as spelled when its argument does. -/
theorem Reads.function {f : Symbol} {e a : Expr α} (h : Reads full a) (hf : f.isOperator = false)
    (hgrade : e.grade full = 4) (htext : e.write full = f.name ++ inParens (a.write full))
    (hspelling : e.spelling = .closed (f.apply a.reread))
    (hargument : ∀ b, e = sin b ∨ e = cos b ∨ e = tan b → b = a) : Reads full e := by
  have hcall := h.restorable.call hf
  rw [← unspaced_call hf, ← htext] at hcall
  refine ⟨?_, fun b hb => ?_⟩
  · rw [hgrade, hspelling]
    exact .of_restorable hcall
  · rw [hargument b hb]
    exact h.restorable.mono (Nat.zero_le _)

/-- A product reads as spelled when its factors do, with its sign or without it. -/
theorem Reads.product {l r : Expr α} (hreadsl : Reads full l) (hreadsr : Reads full r)
    (h : (mul l r).Legible full) :
    Reads full (mul l r) := by
  obtain ⟨hl, hr, hmay⟩ := h
  refine ⟨?_, by simp⟩
  cases hj : juxtaposed? l r with
  | none =>
    have hspelling : (mul l r).spelling = .closed (mul l.reread r.reread) := by
      rw [spelling, hj]
      rfl
    rw [hspelling]
    refine hreadsl.leftAssociative hreadsr (n := 2) (c := '*') (by decide) rfl ?_
      (by rw [unspaced_mul, hj]) rfl (not_captured_of_ne (by decide)) .times
    simp [grade, parenthesizesItself, isNegativeNumber, precedence, hj]
  | some swapped =>
    have hgrade : (mul l r).grade full = 2 := by
      simp [grade, parenthesizesItself, isNegativeNumber, precedence, hj]
    obtain ⟨hlatomic, hratomic, hconst⟩ := of_juxtaposed? hj
    rw [hj] at hmay
    rw [hgrade, unspaced_mul, spelling, hj]
    cases swapped with
    | false => exact hreadsl.beside hreadsr hlatomic hratomic hconst hl hr hmay
    | true => exact hreadsr.beside hreadsl hratomic hlatomic hconst hr hl hmay

omit [Numeral.Signed α] in
/-- Every number reads as spelled. -/
theorem Reads.num (value : α) : Reads full (num value) := by
  refine ⟨?_, by simp⟩
  rw [unspaced_num, text_num, spelling]
  cases hneg : Numeral.isNegative value with
  | false =>
    have hgrade : (Expr.num value).grade full ≤ 4 := grade_le_four _
    exact (spells_run (isRun_magnitude value)).mono hgrade
  | true =>
    have hgrade : (Expr.num value).grade full = 3 := by
      simp [grade, parenthesizesItself, isNegativeNumber, hneg]
    rw [hgrade]
    exact spells_minus (isRun_magnitude value)

/-- Every legible tree reads as spelled. The induction takes one kind of node after the other. -/
theorem Legible.reads {e : Expr α} (h : e.Legible full) : Reads full e := by
  induction e with
  | num value => exact .num value
  | var id | const id =>
    have hid : id.isAlpha = true := h
    refine ⟨?_, by simp⟩
    rw [unspaced, write, unspaced_letter hid]
    exact (spells_run (isRun_letter hid)).mono (grade_le_four _)
  | add l r ihl ihr =>
    obtain ⟨hl, hr, hcap⟩ := h
    exact ⟨(ihl hl).leftAssociative (ihr hr) (n := 1) (c := '+') (by decide)
      rfl (by cases full <;> rfl) (squeezed_operationText _ l r rfl _ _) rfl hcap .plus, by simp⟩
  | sub l r ihl ihr =>
    obtain ⟨hl, hr, hcap⟩ := h
    exact ⟨(ihl hl).leftAssociative (ihr hr) (n := 1) (c := '-') (by decide)
      rfl (by cases full <;> rfl) (squeezed_operationText _ l r rfl _ _) rfl hcap .minus, by simp⟩
  | mul l r ihl ihr => exact (ihl h.1).product (ihr h.2.1) h
  | div l r ihl ihr =>
    exact ⟨(ihl h.1).leftAssociative (ihr h.2) (n := 2) (c := '/') (by decide)
      rfl (by cases full <;> rfl)
      (squeezed_operationText _ l r rfl _ _) rfl (not_captured_of_ne (by decide)) .divide, by simp⟩
  | pow l r ihl ihr =>
    -- The base has to be an atom, and the exponent may be a power itself.
    refine ⟨(ihl h.1).operation (ihr h.2) (n := 3) (a := 4) (b := 3) (c := '^')
      (by cases full <;> rfl) (squeezed_operationText _ l r rfl _ _) (by decide) (by decide)
      grade_of_base (fun hp => ?_) rfl (not_captured_of_ne (by decide)) .power, by simp⟩
    exact le_grade (Nat.le_of_lt ((precedence_of_needsParens hp).2 rfl)) (by decide)
  | log base argument kind ihb iha =>
    have hgrade : (log base argument kind).grade full = 4 := by cases full <;> rfl
    cases kind with
    | natural => exact (iha h.2).function (f := .ln) rfl hgrade rfl rfl (by simp)
    | ten => exact (iha h.2).function (f := .log) rfl hgrade rfl rfl (by simp)
    | general =>
      have hcall := (ihb h.1).restorable.logarithm (iha h.2).restorable
      rw [unspaced, unspaced, ← squeezed_logarithm] at hcall
      exact ⟨hgrade ▸ .of_restorable hcall, by simp⟩
  | pending => cases h
  | sin a ih => exact (ih h).function (f := .sin) rfl (by cases full <;> rfl) rfl rfl (by simp)
  | cos a ih => exact (ih h).function (f := .cos) rfl (by cases full <;> rfl) rfl rfl (by simp)
  | tan a ih => exact (ih h).function (f := .tan) rfl (by cases full <;> rfl) rfl rfl (by simp)

end

/-! ## Whole texts -/

/-- Does the text consist of characters of ASCII? -/
def IsAscii (s : List Char) : Prop :=
  ∀ c ∈ s, c.toNat < 128

/-- Two texts of ASCII are one side by side. -/
theorem IsAscii.append {s t : List Char} (hs : IsAscii s) (ht : IsAscii t) : IsAscii (s ++ t) :=
  List.forall_mem_append.2 ⟨hs, ht⟩

/-- Parentheses are ASCII. -/
theorem IsAscii.inParens {s : List Char} (hs : IsAscii s) : IsAscii (inParens s) :=
  List.forall_mem_cons.2 ⟨by decide, hs.append (List.forall_mem_singleton.2 (by decide))⟩

/-- Names of functions are ASCII. -/
theorem isAscii_name {f : Symbol} (hf : f.isOperator = false) : IsAscii f.name :=
  fun c hc => toNat_lt_of_isAlpha (isAlpha_of_mem_name hf c hc)

/-- An operand with its parentheses is ASCII. -/
theorem isAscii_operandText (parent e : Expr α) (isRight : Bool) (hs : IsAscii s) :
    IsAscii (operandText full parent e isRight s) := by
  unfold operandText
  split
  · exact hs
  · split
    · exact hs.inParens
    · exact hs

/-- An operation on texts of ASCII is ASCII. -/
theorem isAscii_operationText {parent l r : Expr α} {sign left right : List Char}
    (hsign : IsAscii sign) (hl : IsAscii left) (hr : IsAscii right) :
    IsAscii (operationText full parent l r sign left right) := by
  have hleft : IsAscii (operandText full parent l false left) :=
    isAscii_operandText parent l false hl
  have hright : IsAscii (operandText full parent r true right) :=
    isAscii_operandText parent r true hr
  have hbody := (hleft.append hsign).append hright
  unfold operationText
  split
  · exact hbody.inParens
  · exact hbody

omit [Numeral α] in
/-- Factors of ASCII side by side are ASCII. -/
theorem isAscii_sideBySide {first : List Char} {second : Expr α} (hs : IsAscii first)
    {t : List Char} (ht : IsAscii t) : IsAscii (sideBySide first second t) := by
  unfold sideBySide
  split
  · exact hs.append ht.inParens
  · exact hs.append ht

/-- Numbers are written in ASCII. -/
theorem isAscii_num (value : α) : IsAscii (Numeral.text value) := by
  have hmagnitude : IsAscii (Numeral.toDecimal value).magnitude.text := fun c hc =>
    (Decimal.isSymbolChar_of_mem_text (Decimal.isNegative_magnitude _) c hc).toNat_lt
  rw [text_num]
  split
  · exact List.forall_mem_cons.2 ⟨by decide, hmagnitude⟩
  · exact hmagnitude

/-- Legible trees are written in ASCII. -/
theorem Legible.isAscii_write {e : Expr α} (h : e.Legible full) : IsAscii (e.write full) := by
  have hsign : ∀ c : Char, c.toNat < 128 → IsAscii [' ', c, ' '] := by
    intro c hc d hd
    simp only [List.mem_cons, List.not_mem_nil, or_false] at hd
    rcases hd with rfl | rfl | rfl
    · decide
    · exact hc
    · decide
  induction e with
  | num value => exact isAscii_num value
  | var id | const id => exact List.forall_mem_singleton.2 (toNat_lt_of_isAlpha h)
  | add l r ihl ihr => exact isAscii_operationText (hsign '+' (by decide)) (ihl h.1) (ihr h.2.1)
  | sub l r ihl ihr => exact isAscii_operationText (hsign '-' (by decide)) (ihl h.1) (ihr h.2.1)
  | mul l r ihl ihr =>
    have hl := ihl h.1
    have hr := ihr h.2.1
    rw [write]
    split
    · exact isAscii_sideBySide hl hr
    · exact isAscii_sideBySide hr hl
    · exact isAscii_operationText (hsign '*' (by decide)) hl hr
  | div l r ihl ihr => exact isAscii_operationText (hsign '/' (by decide)) (ihl h.1) (ihr h.2)
  | pow l r ihl ihr =>
    exact isAscii_operationText (List.forall_mem_singleton.2 (by decide)) (ihl h.1) (ihr h.2)
  | log base argument kind ihb iha =>
    have hargument := (iha h.2).inParens
    cases kind with
    | natural => exact (isAscii_name (f := .ln) rfl).append hargument
    | ten => exact (isAscii_name (f := .log) rfl).append hargument
    | general =>
      have hopen : IsAscii ['l', 'o', 'g', '['] :=
        (isAscii_name (f := .log) rfl).append (List.forall_mem_singleton.2 (by decide))
      exact (hopen.append (ihb h.1)).append (List.forall_mem_cons.2 ⟨by decide, hargument⟩)
  | pending => cases h
  | sin a ih => exact (isAscii_name (f := .sin) rfl).append (ih h).inParens
  | cos a ih => exact (isAscii_name (f := .cos) rfl).append (ih h).inParens
  | tan a ih => exact (isAscii_name (f := .tan) rfl).append (ih h).inParens

/-- The text of a legible expression reads as said. -/
theorem Legible.read_write [Numeral.Signed α] {e : Expr α} (h : e.Legible full) :
    read true (e.write full) = .ok e.reread := by
  rw [read_eq_ok_iff (foreignChar?_eq_none.2 h.isAscii_write)]
  exact h.reads.restorable.readsAs

/-- The text of a legible tree reads as its reread form. -/
theorem Legible.parse_text [Numeral.Signed α] {e : Expr α} (h : e.Legible false) :
    parse e.text = .ok e.reread := by
  rw [parse, parseWith, text, String.toList_ofList]
  exact h.read_write

end Formula.Expr
