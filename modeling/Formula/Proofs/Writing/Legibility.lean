import Formula.Proofs.Expr.Everywhere
import Formula.Proofs.Writing.Rereading

/-!
# Formulas in three variables

A formula in `x`, `y` and `z` is legible whatever its shape (`legible_of_isSpatial`). Function names
end in other letters than these, and words for numbers hold other letters than these and `e`, so a
row of factors forms neither. No digits stand directly before an `e`, because a constant is written
before the letters that it is multiplied with, but with a sign between it and a number.
-/

namespace Formula.Expr

open Reading Formula.Bracket

variable {α : Type} [Numeral α] {e : Expr α} {s t : List Char} {c : Char} {full : Bool}

/-- Is the node one of a formula in space? Its variables are `x`, `y` and `z`, its constant is
Euler's number, its numbers are fractions, and no derivative is pending. -/
def IsSpatial : Expr α → Prop
  | num value => Numeral.isFinite value = true
  | var id => id = 'x' ∨ id = 'y' ∨ id = 'z'
  | const id => id = 'e'
  | pending .. => False
  | _ => True

instance : DecidablePred (IsSpatial : Expr α → Prop)
  | num value => inferInstanceAs (Decidable (Numeral.isFinite value = true))
  | var id => inferInstanceAs (Decidable (id = 'x' ∨ id = 'y' ∨ id = 'z'))
  | const id => inferInstanceAs (Decidable (id = 'e'))
  | pending .. => isFalse id
  | add _ _ | sub _ _ | mul _ _ | div _ _ | pow _ _ | log _ _ _ | sin _ | cos _ | tan _ =>
    isTrue trivial

/-! ## The ends of factors -/

/-- A digit or a point, or a letter of such a formula. -/
def IsRunChar (c : Char) : Prop :=
  c.isDigit = true ∨ c = '.' ∨ c = 'e' ∨ c = 'x' ∨ c = 'y' ∨ c = 'z'

/-- The three variables are letters. -/
theorem isAlpha_of_letter (h : c = 'x' ∨ c = 'y' ∨ c = 'z') : c.isAlpha = true := by
  rcases h with rfl | rfl | rfl <;> rfl

/-- The three variables may stand in a run. -/
theorem isRunChar_of_letter (h : c = 'x' ∨ c = 'y' ∨ c = 'z') : IsRunChar c :=
  .inr (.inr (.inr h))

/-- The text of a factor ends in the run that its spelling ends in, or in a parenthesis. -/
def Spelling.Ends (s : List Char) : Spelling α → Prop
  | run _ text _ => text ≠ [] ∧ text <:+ s ∧ ∀ c ∈ text, IsRunChar c
  | closed _ => s.getLast? = some ')'

omit [Numeral α] in
/-- A text with such an end ends in a character of a run or in a parenthesis. -/
theorem Spelling.Ends.exists_last {sp : Spelling α} (h : sp.Ends s) :
    ∃ a c, s = a ++ [c] ∧ (IsRunChar c ∨ c = ')') := by
  cases sp with
  | closed =>
    obtain ⟨a, rfl⟩ := List.getLast?_eq_some_iff.1 h
    exact ⟨a, ')', rfl, .inr rfl⟩
  | run =>
    obtain ⟨hne, ⟨a, rfl⟩, hchars⟩ := h
    obtain ⟨b, c, rfl⟩ := (List.eq_nil_or_concat _).resolve_left hne
    exact ⟨a ++ b, c, by simp, .inl (hchars c (by simp))⟩

/-- A word for a number holds an `n`, which no run does. -/
theorem not_isWord_of_run (h : ∀ c ∈ s, IsRunChar c) : Literal.isWord s = false := by
  have hlower : ∀ c, IsRunChar c → c.toLower ≠ 'n' := by
    rintro c (hc | rfl | rfl | rfl | rfl | rfl)
    · exact forall_ascii (P := fun c => c.isDigit = true → c.toLower ≠ 'n') (by decide)
        (toNat_lt_of_isDigit hc) hc
    all_goals decide
  have hwords : ∀ w ∈ Literal.words, 'n' ∈ w := by decide
  rw [← Bool.not_eq_true]
  intro hword
  obtain ⟨c, hc, hn⟩ := List.mem_map.1 (hwords _ (List.contains_iff_mem.1 hword))
  exact hlower c (h c hc) hn

/-- Behind the text of a factor a second one may stand without a sign. -/
theorem mayFollow {first second : Expr α} (hfirst : first.spelling.Ends (first.unspaced full))
    (hsecond : IsSpatial second) : MayFollow full first second := by
  obtain ⟨a, c, hs, hc⟩ := hfirst.exists_last
  cases second with
  | var id =>
    have hnames : ∀ f ∈ Symbol.functions, f.name.getLast? ≠ some id := by
      rcases hsecond with rfl | rfl | rfl <;> decide
    refine ⟨not_name_suffix hnames _, ?_⟩
    cases hsp : first.spelling with
    | closed =>
      rw [hsp] at hfirst
      exact hfirst
    | run =>
      rw [hsp] at hfirst
      refine not_isWord_of_run (List.forall_mem_append.2 ⟨hfirst.2.2,
        List.forall_mem_singleton.2 ?_⟩)
      exact isRunChar_of_letter hsecond
  | tan =>
    intro hco
    rw [hs] at hco
    obtain ⟨b, hb⟩ := hco
    have hb : (b ++ ['c']) ++ ['o'] = a ++ [c] := by simpa using hb
    obtain rfl : 'o' = c := by simpa using List.append_inj_right' hb rfl
    rcases hc with (hc | hc | hc | hc | hc | hc) | hc <;> cases hc
  | _ => trivial

omit [Numeral α] in
/-- A group ends a text as a closed spelling should. -/
theorem ends_parenthesised (x : Expr α) (s t : List Char) :
    (Spelling.closed x).Ends (s ++ parenthesised t) := by
  show (s ++ parenthesised t).getLast? = some ')'
  rw [parenthesised, ← List.append_assoc, List.getLast?_concat]

/-- The call of a function ends a text as a closed spelling should. -/
theorem ends_call (f : Symbol) (hf : f.isOperator = false) (a x : Expr α) (s : List Char) :
    (Spelling.closed x).Ends (s ++ squeezed (f.name ++ inParens (a.write full))) := by
  rw [unspaced_call hf, ← List.append_assoc]
  exact ends_parenthesised x _ _

/-- A fraction is written with digits and a point. -/
theorem isDigit_of_mem_magnitude {value : α} (h : Numeral.isFinite value = true) :
    ∀ c ∈ (Numeral.toDecimal value).magnitude.text, c.isDigit = true ∨ c = '.' := by
  intro c hc
  unfold Numeral.isFinite at h
  cases hd : Numeral.toDecimal value with
  | infinite | notANumber =>
    rw [hd] at h
    cases h
  | finite negative digits exponent =>
    have hc : c ∈ Decimal.positional digits exponent := by
      rw [hd] at hc
      exact hc
    rcases Decimal.positional_cases digits exponent with ⟨ws, -, hws, htext⟩ |
      ⟨ws, fs, -, hws, hfs, htext⟩
    · rw [htext] at hc
      exact .inl (hws c hc)
    · rw [htext, List.mem_append, List.mem_cons] at hc
      rcases hc with hc | rfl | hc
      · exact .inl (hws c hc)
      · exact .inr rfl
      · exact .inl (hfs c hc)

/-- A finite number ends in the run that it is. -/
theorem ends_num {value : α} (h : Numeral.isFinite value = true) :
    (num value).spelling.Ends ((num value).unspaced full) := by
  refine ⟨(isRun_magnitude value).ne_nil, ?_, fun c hc =>
    (isDigit_of_mem_magnitude h c hc).imp_right .inl⟩
  rw [unspaced_num, text_num]
  split
  · exact List.suffix_cons _ _
  · exact List.suffix_rfl

/-- A letter behind a text is the end of the run there. -/
theorem Spelling.Ends.letter {sp : Spelling α} {id : Char} {x : Expr α} (h : sp.Ends s)
    (hid : IsRunChar id) :
    (sp.beside (.run .start [id] x)).Ends (s ++ [id]) := by
  have hchar : ∀ c ∈ [id], IsRunChar c := List.forall_mem_singleton.2 hid
  cases sp with
  | closed => exact ⟨List.cons_ne_nil _ _, List.suffix_append _ _, hchar⟩
  | run =>
    obtain ⟨-, ⟨a, rfl⟩, hchars⟩ := h
    refine ⟨by simp, ?_, List.forall_mem_append.2 ⟨hchars, hchar⟩⟩
    rw [List.append_assoc]
    exact List.suffix_append a _

/-- A second factor takes over the end of the text. -/
theorem Spelling.Ends.beside {first second : Expr α}
    (hfirst : first.spelling.Ends (first.unspaced full)) (ha : second.isAtomic = true)
    (hconst : second.isConstant = false) (hsecond : IsSpatial second) :
    (first.spelling.beside (spellingBehind second second.spelling)).Ends
      (sideBySide (first.unspaced full) second (second.unspaced full)) := by
  have hcall : ∀ (f : Symbol) (a x : Expr α), f.isOperator = false →
      (first.spelling.beside (.closed x)).Ends
        (first.unspaced full ++ squeezed (f.name ++ inParens (a.write full))) := by
    intro f a x hf
    rw [Spelling.beside_closed]
    exact ends_call f hf a _ _
  cases second with
  | num | const => cases hconst
  | var id =>
    rw [sideBySide_var (isAlpha_of_letter hsecond)]
    exact hfirst.letter (isRunChar_of_letter hsecond)
  | sin a => exact hcall .sin a _ rfl
  | cos a => exact hcall .cos a _ rfl
  | tan a => exact hcall .tan a _ rfl
  | mul l r =>
    rw [show spellingBehind (mul l r) (mul l r).spelling = .closed (mul l r).spelling.expr from rfl,
      Spelling.beside_closed]
    exact ends_parenthesised _ _ _
  | add | sub | div | pow | log | pending => cases ha

/-- The text of a factor ends as its spelling says. -/
theorem Legible.ends {e : Expr α} (h : e.Legible full) (hs : e.Everywhere IsSpatial)
    (ha : e.isAtomic = true) :
    e.spelling.Ends (e.unspaced full) := by
  have hletter : ∀ {c : Char} {x : Expr α}, c.isAlpha = true → IsRunChar c →
      (Spelling.run .start [c] x).Ends (squeezed [c]) := by
    intro c x hc hrun
    rw [unspaced_letter hc]
    exact ⟨List.cons_ne_nil _ _, List.suffix_rfl, List.forall_mem_singleton.2 hrun⟩
  induction e with
  | num value => exact ends_num hs
  | var id => exact hletter h (isRunChar_of_letter hs)
  | const id => exact hletter h (.inr (.inr (.inl hs)))
  | sin a => exact ends_call .sin rfl a _ []
  | cos a => exact ends_call .cos rfl a _ []
  | tan a => exact ends_call .tan rfl a _ []
  | mul l r ihl ihr =>
    obtain ⟨hl, hr, -⟩ := h
    rw [unspaced_mul, spelling]
    cases hj : juxtaposed? l r with
    | some swapped =>
      obtain ⟨hlatomic, hratomic, hconst⟩ := of_juxtaposed? hj
      cases swapped with
      | false => exact (ihl hl hs.2.1 hlatomic).beside hratomic hconst hs.2.2.self
      | true => exact (ihr hr hs.2.2 hratomic).beside hlatomic hconst hs.2.1.self
    | none =>
      -- Only a number that is no fraction keeps two factors apart, of which one has a variable.
      have hunwritable := of_juxtaposed?_eq_none hj ha hl hr
      cases r with
      | num value =>
        have hfinite : Numeral.isFinite value = true := hs.2.2
        rw [isUnwritable, hfinite] at hunwritable
        cases hunwritable
      | _ => cases hunwritable
  | add | sub | div | pow | log | pending => cases ha

/-! ## Exponents -/

/-- Parentheses around an operand bring in no mark at the end. -/
theorem not_endsInMark_operandText {parent operand : Expr α} {isRight : Bool} (h : ¬ EndsInMark s) :
    ¬ EndsInMark (operandText full parent operand isRight s) := by
  unfold operandText
  split
  · exact h
  · split
    · exact not_endsInMark_parenthesised [] s
    · exact h

/-- The text of an operation ends as its right operand does, or in a parenthesis. -/
theorem not_endsInMark_operationText {parent l r : Expr α} (hc : Symbol.isOperatorChar c = true)
    (h : ¬ EndsInMark t) : ¬ EndsInMark (operationText full parent l r [c] s t) := by
  unfold operationText
  split
  · exact not_endsInMark_parenthesised [] _
  · rw [List.append_assoc, List.singleton_append]
    exact fun hmark => not_endsInMark_operandText h (hmark.of_join hc)

/-- One character is too short for digits and a mark. -/
theorem not_endsInMark_singleton (c : Char) : ¬ EndsInMark [c] := by
  rintro ⟨u, d, m, h, -⟩
  have := congrArg List.length h
  simp at this

/-- A finite number does not end in a mark. -/
theorem not_endsInMark_num {value : α} (h : Numeral.isFinite value = true) :
    ¬ EndsInMark ((num value).unspaced full) := by
  rintro ⟨u, d, m, htext, -, hm⟩
  rw [unspaced_num, text_num] at htext
  have hmem : m = '-' ∨ m ∈ (Numeral.toDecimal value).magnitude.text := by
    have hlast : m ∈ u ++ [d, m] := by simp
    rw [← htext] at hlast
    split at hlast
    · exact List.mem_cons.1 hlast
    · exact .inr hlast
  rcases hmem with rfl | hmem
  · rcases hm with hm | hm <;> cases hm
  · rcases isDigit_of_mem_magnitude h m hmem with hdigit | rfl
    · rcases hm with rfl | rfl <;> cases hdigit
    · rcases hm with hm | hm <;> cases hm

/-- The call of a function does not end in a mark. -/
theorem not_endsInMark_call (f : Symbol) (hf : f.isOperator = false) (a : Expr α) (s : List Char) :
    ¬ EndsInMark (s ++ squeezed (f.name ++ inParens (a.write full))) := by
  rw [unspaced_call hf, ← List.append_assoc]
  exact not_endsInMark_parenthesised _ _

/-- A second factor of a formula in space does not end in a mark. -/
theorem not_endsInMark_sideBySide {second : Expr α} (hs : second.Everywhere IsSpatial)
    (ha : second.isAtomic = true) (hconst : second.isConstant = false) (s : List Char) :
    ¬ EndsInMark (sideBySide s second (second.unspaced full)) := by
  cases second with
  | num | const => cases hconst
  | var id =>
    have htext : sideBySide s (var id : Expr α) ((var id : Expr α).unspaced full) = s ++ [id] :=
      congrArg (s ++ ·) (unspaced_letter (isAlpha_of_letter hs))
    rw [htext]
    refine not_endsInMark_of_last ?_ s
    rcases hs with rfl | rfl | rfl <;> decide
  | sin a => exact not_endsInMark_call .sin rfl a s
  | cos a => exact not_endsInMark_call .cos rfl a s
  | tan a => exact not_endsInMark_call .tan rfl a s
  | mul l r => exact not_endsInMark_parenthesised s _
  | add | sub | div | pow | log | pending => cases ha

/-- Digits and a mark for an exponent do not end a text. -/
theorem not_endsInMark_unspaced (hs : e.Everywhere IsSpatial) : ¬ EndsInMark (e.unspaced full) := by
  induction e with
  | num => exact not_endsInMark_num hs
  | var id =>
    rw [unspaced, write, unspaced_letter (isAlpha_of_letter hs)]
    exact not_endsInMark_singleton id
  | const id =>
    obtain rfl : id = 'e' := hs
    exact not_endsInMark_singleton 'e'
  | add l r _ ihr | sub l r _ ihr | div l r _ ihr | pow l r _ ihr =>
    rw [unspaced, write, squeezed_operationText _ l r rfl]
    exact not_endsInMark_operationText rfl (ihr hs.2.2)
  | mul l r _ ihr =>
    rw [unspaced_mul]
    cases hj : juxtaposed? l r with
    | none => exact not_endsInMark_operationText rfl (ihr hs.2.2)
    | some swapped =>
      obtain ⟨hlatomic, hratomic, hconst⟩ := of_juxtaposed? hj
      cases swapped with
      | false => exact not_endsInMark_sideBySide hs.2.2 hratomic hconst _
      | true => exact not_endsInMark_sideBySide hs.2.1 hlatomic hconst _
  | log base argument kind =>
    cases kind with
    | natural => exact not_endsInMark_call .ln rfl argument []
    | ten => exact not_endsInMark_call .log rfl argument []
    | general =>
      have hend :=
        not_endsInMark_parenthesised (Symbol.log.name ++ '[' :: base.unspaced full ++ [']'])
        (argument.unspaced full)
      have htext : (log base argument .general).unspaced full =
          Symbol.log.name ++ '[' :: base.unspaced full ++ [']'] ++
          parenthesised (argument.unspaced full) :=
        (squeezed_logarithm _ _).trans (by simp [unspaced])
      rwa [htext]
  | pending => cases hs.1
  | sin a => exact not_endsInMark_call .sin rfl a []
  | cos a => exact not_endsInMark_call .cos rfl a []
  | tan a => exact not_endsInMark_call .tan rfl a []

/-- A formula in space is legible. -/
theorem legible_of_isSpatial (hs : e.Everywhere IsSpatial) : e.Legible full := by
  have hsign : ∀ {parent l r : Expr α} {c : Char}, l.Everywhere IsSpatial →
    ¬ CapturesSign full parent l r c :=
    fun hl hcap => not_endsInMark_operandText (not_endsInMark_unspaced hl) hcap.2.1
  induction e with
  | num => trivial
  | var id => exact isAlpha_of_letter hs
  | const id =>
    obtain rfl : id = 'e' := hs
    rfl
  | add l r ihl ihr | sub l r ihl ihr => exact ⟨ihl hs.2.1, ihr hs.2.2, hsign hs.2.1⟩
  | mul l r ihl ihr =>
    have hl := ihl hs.2.1
    have hr := ihr hs.2.2
    refine ⟨hl, hr, ?_⟩
    cases hj : juxtaposed? l r with
    | none => trivial
    | some swapped =>
      obtain ⟨hlatomic, hratomic, -⟩ := of_juxtaposed? hj
      cases swapped with
      | false => exact mayFollow (hl.ends hs.2.1 hlatomic) hs.2.2.self
      | true => exact mayFollow (hr.ends hs.2.2 hratomic) hs.2.1.self
  | div l r ihl ihr | pow l r ihl ihr | log l r _ ihl ihr => exact ⟨ihl hs.2.1, ihr hs.2.2⟩
  | pending => cases hs.1
  | sin a ih | cos a ih | tan a ih => exact ih hs.2

end Formula.Expr
