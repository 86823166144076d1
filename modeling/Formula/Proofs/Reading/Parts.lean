import Formula.Proofs.Reading.Outcome
import Formula.Proofs.Reading.Parse

/-!
# The parts of a text

A dissection takes a text apart without losing any of it: put together again, `Dissection.written`,
its parts and the operator or name between them are the text. If the text is balanced and has no
square brackets, its parts are balanced too, so the brackets of a formula are wrong only where the
whole is first looked at (`splits_dissect`). What a text reads as comes from its dissection and its
parts alone, errors included (`failsOnly_readBody`, `exists_readPart_of_readBody`).
-/

namespace Formula.Reading

open Formula.Bracket

/-! ## Failures -/

section
variable {β γ : Type} {E E' : ParseError → Prop}

/-- If the reading fails, then with an error of the kind. -/
def FailsOnly (E : ParseError → Prop) (r : Except ParseError β) : Prop :=
  ∀ e, r = .error e → E e

/-- What succeeds fails with no error at all. -/
theorem failsOnly_ok (x : β) : FailsOnly E (.ok x) :=
  fun _ h => by cases h

/-- An error of some kind fails only with errors of the kind. -/
theorem failsOnly_error {e : ParseError} (h : E e) :
    FailsOnly E (.error e : Except ParseError β) := by
  rintro _ ⟨⟩
  exact h

/-- Errors of a kind are errors of a wider kind. -/
theorem FailsOnly.imp {r : Except ParseError β} (h : FailsOnly E r) (himp : ∀ e, E e → E' e) :
    FailsOnly E' r :=
  fun e he => himp e (h e he)

/-- Two steps in a row fail as one of them fails. -/
theorem FailsOnly.bind {r : Except ParseError β} {f : β → Except ParseError γ} (h : FailsOnly E r)
    (hf : ∀ x, FailsOnly E (f x)) : FailsOnly E (r >>= f) := by
  cases r with
  | ok x => exact hf x
  | error e => exact failsOnly_error (h e rfl)

/-- A function of a result fails as the result fails. -/
theorem FailsOnly.map {r : Except ParseError β} (h : FailsOnly E r) (f : β → γ) :
    FailsOnly E (r.map f) := by
  cases r with
  | ok x => exact failsOnly_ok (f x)
  | error e => exact failsOnly_error (h e rfl)

end

/-! ## Dissections -/

namespace Dissection

/-- What is wrong with a text that could not be dissected to the end. -/
def fault? : Dissection → Option ParseError
  | refused e | call _ _ _ (.error e) => some e
  | operation .. | negated _ | affirmed _ | call _ _ _ (.ok _) | product .. | letter _ => none

/-- The text of a dissection that went to the end. -/
def written : Dissection → List Char
  | operation op l r => l ++ op.name ++ r
  | negated s => '-' :: s
  | affirmed s => '+' :: s
  | call f base before tail =>
    before ++ f.name ++ (match base with | none => [] | some b => '[' :: b ++ [']']) ++
      match tail with
      | .ok (operand, after) => operand ++ after
      | .error _ => []
  | product l r => l ++ r
  | letter c => [c]
  | refused _ => []

/-- The dissection takes the text apart into balanced pieces and fails for want of an operand or of
a letter only. -/
structure Splits (s : List Char) (d : Dissection) : Prop where
  balanced : ∀ p ∈ d.parts, balanced p = true
  piece : ∀ p ∈ d.parts, p <:+: s
  written : d.fault? = none → d.written = s
  fault : ∀ e ∈ d.fault?, e = .empty ∨ ∃ c, s = [c] ∧ e = .unknownSymbol [c] ∧ c.isAlpha = false

end Dissection

variable {s : List Char}

/-- The text around a cut outside brackets is balanced. -/
theorem balanced_of_mem_cuts {k : Cut} (hs : balanced s = true) (hk : k ∈ cuts s)
    (hout : k.isOutside = true) :
    balanced k.left = true ∧ balanced (k.char :: k.after) = true := by
  obtain ⟨htext, hdepth⟩ := mem_cuts.1 hk
  have hzero : k.depth = 0 := by simpa [Cut.isOutside] using hout
  exact balanced_of_append (htext ▸ hs) (by rw [← hdepth, hzero])

/-- A balanced text cut at an operator outside brackets falls into balanced operands. -/
theorem splits_operationAt {k : Cut} (hs : balanced s = true) (hk : k ∈ cuts s)
    (hout : k.isOutside = true) (hchar : Symbol.isOperatorChar k.char = true) :
    (operationAt k).Splits s := by
  obtain ⟨hleft, hright⟩ := balanced_of_mem_cuts hs hk hout
  have htext := eq_of_mem_cuts hk
  have hplain := plain_of_isOperatorChar hchar
  rw [balanced_cons_of_plain hplain.1 hplain.2] at hright
  have hname : ((Symbol.ofName? [k.char]).getD .times).name = [k.char] := by
    simp only [Symbol.isOperatorChar, Bool.or_eq_true, beq_iff_eq] at hchar
    rcases hchar with (((h | h) | h) | h) | h <;> rw [h] <;> rfl
  refine ⟨?_, ?_, fun _ => ?_, fun e he => by cases he⟩
  · rintro p (_ | ⟨_, _ | ⟨_, ⟨⟩⟩⟩)
    · exact hleft
    · exact hright
  · rintro p (_ | ⟨_, _ | ⟨_, ⟨⟩⟩⟩)
    · exact ⟨[], k.char :: k.after, htext.symm⟩
    · exact ⟨k.left ++ [k.char], [], by simp [htext]⟩
  · rw [operationAt, Dissection.written, hname, htext]
    simp

/-- A balanced text stays balanced when the sign in front of it is taken off. -/
theorem balanced_of_cons {c : Char} {t : List Char} (hc : c = '+' ∨ c = '-')
    (hs : balanced (c :: t) = true) :
    balanced t = true := by
  have hplain := plain_of_isOperatorChar (isOperatorChar_of_sign hc)
  rwa [balanced_cons_of_plain hplain.1 hplain.2] at hs

/-- The operand of a function is a group or a single character, and it is found whenever something
stands behind the name. -/
theorem splitOperand_cases (whole : List Char) {t : List Char} (ht : balanced t = true) :
    (t = [] ∧ splitOperand whole t = .error .empty) ∨
      ∃ operand after, t = operand ++ after ∧ splitOperand whole t = .ok (operand, after) ∧
        ((balanced operand = true ∧ balanced after = true) ∨ ∃ c, c ≠ '(' ∧ operand = [c]) := by
  cases t with
  | nil => exact .inl ⟨rfl, rfl⟩
  | cons c t =>
    right
    by_cases hc : c = '('
    · subst hc
      have hopen : balancedAfter ['('] t = true := ht
      obtain ⟨m, after, rfl, hm, hafter⟩ := exists_closing hopen
      have hsplit := splitGroup?_group (o := '(') rfl hm after
      refine ⟨parenthesised m, after, by simp [parenthesised, closer], ?_,
        .inl ⟨balanced_parenthesised hm, hafter⟩⟩
      rw [splitOperand, if_pos rfl, ← List.cons_append, hsplit]
      rfl
    · exact ⟨[c], t, rfl, by rw [splitOperand, if_neg hc], .inr ⟨c, hc, rfl⟩⟩

/-- In a text without square brackets the operand and what stands behind it are balanced. -/
theorem exists_splitOperand (whole : List Char) {t : List Char} (ht : balanced t = true)
    (hsquare : '[' ∉ t) :
    splitOperand whole t = .error .empty ∨
      ∃ operand after, splitOperand whole t = .ok (operand, after) ∧
        t = operand ++ after ∧ balanced operand = true ∧ balanced after = true := by
  rcases splitOperand_cases whole ht with ⟨-, hsplit⟩ | ⟨operand, after, rfl, hsplit, hkind⟩
  · exact .inl hsplit
  · refine .inr ⟨operand, after, hsplit, rfl, ?_⟩
    rcases hkind with hbalanced | ⟨c, hc, rfl⟩
    · exact hbalanced
    · -- Neither does a balanced text begin with a closing bracket.
      rw [List.singleton_append] at ht hsquare
      have hopen : isOpening c = false := by
        simp only [isOpening, Bool.or_eq_false_iff, beq_eq_false_iff_ne]
        exact ⟨hc, fun h => hsquare (by simp [h])⟩
      have hclose : isClosing c = false := by
        rw [Bool.eq_false_iff]
        intro hclose
        simp [balanced, balancedAfter, hopen, hclose] at ht
      have hplain : Plain [c] := List.forall_mem_singleton.2 ⟨hopen, hclose⟩
      refine ⟨balanced_of_plain hplain, ?_⟩
      rwa [balanced_cons_of_plain hopen hclose] at ht

/-- A balanced text without square brackets cut at a function name falls into balanced pieces. -/
theorem splits_callAt {f : Symbol} {k : Cut} (hf : f.isOperator = false) (hs : balanced s = true)
    (hsquare : '[' ∉ s) (hk : k ∈ cuts s) (hout : k.isOutside = true)
    (hname : f.name <+: k.char :: k.after) : (callAt f k).Splits s := by
  obtain ⟨hleft, hright⟩ := balanced_of_mem_cuts hs hk hout
  obtain ⟨t, ht⟩ := hname
  have htext : s = k.left ++ (f.name ++ t) := by rw [ht, eq_of_mem_cuts hk]
  rw [← ht, balanced_append (balanced_of_plain (plain_name hf))] at hright
  have ht' : '[' ∉ t := fun h => hsquare (by simp [htext, h])
  have hbase : ¬ (f = .log ∧ t.head? = some '[') := fun h => ht' (List.mem_of_head? h.2)
  have hcall : callAt f k = .call f none k.left (splitOperand s t) := by
    simp only [callAt, ← ht, List.drop_left, if_neg hbase, ← htext]
  rw [hcall]
  rcases exists_splitOperand s hright ht' with hsplit |
    ⟨operand, after, hsplit, rfl, hoperand, hafter⟩
  · rw [hsplit]
    refine ⟨?_, ?_, (fun h => by cases h), fun e he => .inl (Option.some.inj he).symm⟩
    · rintro p (_ | ⟨_, ⟨⟩⟩)
      exact hleft
    · rintro p (_ | ⟨_, ⟨⟩⟩)
      exact ⟨[], f.name ++ t, htext.symm⟩
  · rw [hsplit]
    refine ⟨?_, ?_, fun _ => ?_, fun e he => by cases he⟩
    · rintro p (_ | ⟨_, _ | ⟨_, _ | ⟨_, ⟨⟩⟩⟩⟩)
      · exact hleft
      · exact hoperand
      · exact hafter
    · rintro p (_ | ⟨_, _ | ⟨_, _ | ⟨_, ⟨⟩⟩⟩⟩)
      · exact ⟨[], f.name ++ (operand ++ after), htext.symm⟩
      · exact ⟨k.left ++ f.name, after, by simp [htext]⟩
      · exact ⟨k.left ++ f.name ++ operand, [], by simp [htext]⟩
    · simp [Dissection.written, htext]

/-- The last character of a balanced text opens nothing. -/
theorem not_isOpening_of_last {w : List Char} {c : Char} (hs : balanced (w ++ [c]) = true) :
    isOpening c = false := by
  rw [Bool.eq_false_iff]
  intro ho
  have hle := depth_beginning_of_balanced hs
  have hzero := depth_of_balanced hs
  simp only [depth_append, depth_cons, depth_nil, rise_of_isOpening ho] at hzero
  omega

/-- A balanced text closes no square bracket that it does not open. -/
theorem not_mem_square (hs : balanced s = true) (hsquare : '[' ∉ s) : ']' ∉ s := by
  intro hmem
  obtain ⟨a, b, rfl⟩ := List.append_of_mem hmem
  obtain ⟨t, o, m, rfl, ho, hcloser, -⟩ := exists_opening hs rfl
  simp only [isOpening, Bool.or_eq_true, beq_iff_eq] at ho
  rcases ho with rfl | rfl
  · cases hcloser
  · exact hsquare (by simp)

/-- Two balanced texts side by side are balanced pieces of their whole. -/
theorem splits_product {l r : List Char} (hs : balanced (l ++ r) = true) (hr : balanced r = true) :
    (Dissection.product l r).Splits (l ++ r) := by
  have hdepth : depth l = 0 := by
    have := depth_of_balanced hs
    rwa [depth_append, depth_of_balanced hr, Int.add_zero] at this
  refine ⟨?_, ?_, fun _ => rfl, fun e he => by cases he⟩
  · rintro p (_ | ⟨_, _ | ⟨_, ⟨⟩⟩⟩)
    · exact (balanced_of_append hs hdepth).1
    · exact hr
  · rintro p (_ | ⟨_, _ | ⟨_, ⟨⟩⟩⟩)
    · exact (List.prefix_append l r).isInfix
    · exact (List.suffix_append l r).isInfix

/-- Nothing is taken apart where an operand is missing. -/
theorem splits_refused_empty (s : List Char) : (Dissection.refused .empty).Splits s :=
  ⟨List.forall_mem_nil _, List.forall_mem_nil _, (fun h => by cases h), fun _ he =>
    .inl (Option.some.inj he).symm⟩

/-- A row of symbols falls into balanced pieces. -/
theorem splits_symbols (hs : balanced s = true) (hsquare : '[' ∉ s) : (symbols s).Splits s := by
  rcases List.eq_nil_or_concat s with rfl | ⟨w, c, rfl⟩
  · exact splits_refused_empty []
  rw [List.concat_eq_append] at hs hsquare ⊢
  rcases List.eq_nil_or_concat w with rfl | ⟨w', d, rfl⟩
  · rw [List.nil_append, symbols]
    split
    · exact ⟨List.forall_mem_nil _, List.forall_mem_nil _, fun _ => rfl, fun e he => by cases he⟩
    next hc =>
      exact ⟨List.forall_mem_nil _, List.forall_mem_nil _, (fun h => by cases h),
        fun e he => .inr ⟨c, rfl, (Option.some.inj he).symm, by simpa using hc⟩⟩
  rw [List.concat_eq_append] at hs hsquare ⊢
  by_cases hc : c = ')'
  · subst hc
    obtain ⟨t, o, m, hw, ho, hcloser, hm⟩ := exists_opening (b := []) hs rfl
    obtain rfl : o = '(' := by
      simp only [isOpening, Bool.or_eq_true, beq_iff_eq] at ho
      exact ho.resolve_right fun h => by simp [h, closer] at hcloser
    have htext : w' ++ [d] ++ [')'] = t ++ parenthesised m := by simp [hw, parenthesised]
    rw [htext] at hs ⊢
    rw [symbols_group hm]
    split
    · exact splits_refused_empty _
    · exact splits_product hs (balanced_parenthesised hm)
  · rw [symbols_concat (by simp) hc]
    refine splits_product hs
      (balanced_of_plain (List.forall_mem_singleton.2 ⟨not_isOpening_of_last hs, ?_⟩))
    have hclose : c ≠ ']' := by
      rintro rfl
      exact not_mem_square hs hsquare (by simp)
    simp [isClosing, hc, hclose]

/-- Every balanced text without square brackets falls into balanced pieces. -/
theorem splits_dissect (hs : balanced s = true) (hsquare : '[' ∉ s) : (dissect s).Splits s := by
  refine dissect_induction (fun k => splits_operationAt hs) ?_ ?_
    (fun f hf k => splits_callAt hf hs hsquare) (splits_symbols hs hsquare)
  · rintro t rfl
    exact ⟨List.forall_mem_singleton.2 (balanced_of_cons (.inr rfl) hs),
      List.forall_mem_singleton.2 (List.suffix_cons _ t).isInfix, fun _ =>
      rfl, fun e he => by cases he⟩
  · rintro t rfl
    exact ⟨List.forall_mem_singleton.2 (balanced_of_cons (.inl rfl) hs),
      List.forall_mem_singleton.2 (List.suffix_cons _ t).isInfix, fun _ =>
      rfl, fun e he => by cases he⟩

/-! ## All parts -/

/-- No character is new between the parentheses around a text. -/
theorem mem_of_mem_strip {c : Char} (hs : balanced s = true) (hc : c ∈ strip s) : c ∈ s := by
  refine of_strip (P := fun s => c ∈ strip s → c ∈ s) ?_ hs ?_ hc
  · intro m hm ih hc
    rw [strip_parenthesised hm] at hc
    simp [parenthesised, ih hc]
  · rw [strip_of_enclosed?_eq_none (enclosed?_strip s)]
    exact id

/-- What the parts of a text hand on to the text, parentheses to what they enclose and literals have
by themselves, holds of every balanced text without square brackets. -/
theorem part_induction {P : List Char → Prop}
    (hparens : ∀ m, balanced m = true → P m → P (parenthesised m)) (hnil : P [])
    (hliteral : ∀ s, Literal.isLiteral s = true → P s)
    (hparts : ∀ s, balanced s = true → '[' ∉ s → s ≠ [] → enclosed? s = none →
      Literal.isLiteral s = false → (∀ p ∈ (dissect s).parts, P p) → P s)
    (hs : balanced s = true) (hsquare : '[' ∉ s) : P s := by
  induction hn : s.length using Nat.strongRecOn generalizing s with
  | ind n ih =>
    refine of_strip hparens hs ?_
    have hlength := length_strip_le s
    have hsquare : '[' ∉ strip s := fun h => hsquare (mem_of_mem_strip hs h)
    by_cases hne : strip s = []
    · rwa [hne]
    cases hlit : Literal.isLiteral (strip s) with
    | true => exact hliteral _ hlit
    | false =>
      have hsplits := splits_dissect (balanced_strip hs) hsquare
      refine hparts _ (balanced_strip hs) hsquare hne (enclosed?_strip s) hlit fun p hp => ?_
      have hshorter := length_lt_of_mem_parts hp
      exact ih p.length (by omega) (hsplits.balanced p hp)
        (fun h => hsquare ((hsplits.piece p hp).subset h)) rfl

/-! ## Readings -/

variable {α : Type} [Numeral α] {x : Expr α} {E : ParseError → Prop}

/-- Multiplying a call by the factors before and behind it fails only as the factors do. -/
theorem failsOnly_factors {before after : List Char}
    (hbefore : FailsOnly E (readPart before : Except ParseError (Expr α)))
    (hafter : FailsOnly E (readPart after : Except ParseError (Expr α))) (result : Expr α) :
    FailsOnly E (do
      let result ← if before.isEmpty then pure result else (readPart before).map (Expr.mul · result)
      if after.isEmpty then pure result else (readPart after).map (Expr.mul result ·)) := by
  have hlast : ∀ product : Expr α,
      FailsOnly E (if after.isEmpty then pure product else (readPart after).map
        (Expr.mul product ·)) := by
    intro product
    split
    · exact failsOnly_ok product
    · exact hafter.map _
  dsimp only
  split
  · exact hlast result
  · exact (hbefore.map _).bind hlast

/-- A text fails for what its dissection finds wrong or for what is wrong with a part. -/
theorem failsOnly_readBody (hfault : ∀ e ∈ (dissect s).fault?, E e)
    (hparts : ∀ p ∈ (dissect s).parts, FailsOnly E (readPart p : Except ParseError (Expr α))) :
    FailsOnly E (readBody s : Except ParseError (Expr α)) := by
  rw [readBody]
  split
  next op l r hd =>
    exact (hparts l (by simp [hd, Dissection.parts])).bind fun x =>
      (hparts r (by simp [hd, Dissection.parts])).bind fun y => failsOnly_ok _
  next t hd => exact (hparts t (by simp [hd, Dissection.parts])).map _
  next t hd => exact hparts t (by simp [hd, Dissection.parts])
  next l r hd =>
    exact (hparts l (by simp [hd, Dissection.parts])).bind fun x =>
      (hparts r (by simp [hd, Dissection.parts])).bind fun y => failsOnly_ok _
  next f base before tail hd =>
    cases tail with
    | error e =>
      have herror : ∀ {β : Type}, FailsOnly E (.error e : Except ParseError β) :=
        failsOnly_error (hfault e (by simp [hd, Dissection.fault?]))
      cases base with
      | none => exact (failsOnly_ok none).bind fun _ => herror
      | some b => exact ((hparts b (by simp [hd, Dissection.parts])).map some).bind fun _ => herror
    | ok tail =>
      obtain ⟨operand, after⟩ := tail
      have hoperand := hparts operand (by simp [hd, Dissection.parts])
      have hfactors := failsOnly_factors (hparts before (by simp [hd, Dissection.parts]))
        (hparts after (by simp [hd, Dissection.parts]))
      cases base with
      | none => exact (failsOnly_ok none).bind fun _ => hoperand.bind fun _ => hfactors _
      | some b =>
        exact ((hparts b (by simp [hd, Dissection.parts])).map some).bind fun _ =>
          hoperand.bind fun _ => hfactors _
  next c hd => exact failsOnly_ok _
  next e hd => exact failsOnly_error (hfault e (by simp [hd, Dissection.fault?]))

/-- A neighbour that is joined has been read. -/
theorem Joins.exists_readPart {join : Expr α → Expr α → Expr α} {t : List Char} {y : Expr α}
    (h : Joins join t x y) :
    t ≠ [] → ∃ z : Expr α, readPart t = .ok z := by
  intro hne
  cases h with
  | none hempty => exact absurd hempty hne
  | factor _ hz => exact ⟨_, hz⟩

/-- A text that reads was dissected to the end, and its parts read, empty ones beside a call left
aside. -/
theorem exists_readPart_of_readBody (h : readBody s = .ok x) :
    (dissect s).fault? = none ∧ ∀ p ∈ (dissect s).parts, p ≠ [] →
      ∃ y : Expr α, readPart p = .ok y := by
  have hbuilds := builds_of_readBody h
  generalize dissect s = d at hbuilds
  cases hbuilds with
  | operation hl hr | product hl hr =>
    simp only [Dissection.fault?, Dissection.parts, List.forall_mem_cons]
    exact ⟨trivial, fun _ => ⟨_, hl⟩, fun _ => ⟨_, hr⟩, by simp⟩
  | negated ht | affirmed ht =>
    simp only [Dissection.fault?, Dissection.parts, List.forall_mem_cons]
    exact ⟨trivial, fun _ => ⟨_, ht⟩, by simp⟩
  | call hoperand hbefore hafter =>
    simp only [Dissection.fault?, Dissection.parts, Option.toList_none, List.nil_append,
      List.forall_mem_cons]
    exact ⟨trivial, hbefore.exists_readPart, fun _ => ⟨_, hoperand⟩,
      hafter.exists_readPart, by simp⟩
  | logarithm hbase hoperand hbefore hafter =>
    simp only [Dissection.fault?, Dissection.parts, Option.toList_some, List.singleton_append,
      List.forall_mem_cons]
    exact ⟨trivial, fun _ => ⟨_, hbase⟩, hbefore.exists_readPart, fun _ =>
      ⟨_, hoperand⟩, hafter.exists_readPart, by simp⟩
  | letter c => simp [Dissection.fault?, Dissection.parts]

end Formula.Reading
