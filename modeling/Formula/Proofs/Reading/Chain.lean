import Formula.Proofs.Reading.Operand

/-!
# Chains of operators

A chain is a row of operands with operators between them and signs in front of them. Its operands
are groups, calls, letters and numbers without an exponent, and what a group or a call holds is any
text that reads by itself. Every chain reads as the grammar says (`parseWith_chain`), whether or not
omitted multiplication signs are restored: no sign is missing between the operands, and inside an
operand signs are restored as in the text that it holds (`Operand.restores`).
-/

namespace Formula.Reading

open Formula.Bracket

variable {α : Type} [Numeral α]

/-- A row of operands, each behind any number of signs, with operators between them. -/
inductive Chain (α : Type) [Numeral α] (restore : Bool) : List Char → Prop
  | single (signs) {w} {x : Expr α} : (∀ c ∈ signs, c = '+' ∨ c = '-') → Operand restore w x →
      Chain α restore (signs ++ w)
  | join (signs) {s c w} {x : Expr α} : Chain α restore s → Symbol.isOperatorChar c = true →
      (∀ c ∈ signs, c = '+' ∨ c = '-') → Operand restore w x →
      Chain α restore (s ++ c :: (signs ++ w))

variable {restore : Bool} {s t u v before : List Char} {x y : Expr α}

/-- The grammar derives every chain. -/
theorem Chain.exists_sum (h : Chain α restore s) : ∃ x : Expr α, Sum (Operand restore) s x := by
  induction h with
  | single _ hsigns hw =>
    obtain ⟨z, hz⟩ := Factor.signed hsigns (.operand hw)
    exact ⟨z, .term (.factor hz)⟩
  | join _ _ hc hsigns hw ih =>
    obtain ⟨x, hx⟩ := ih
    obtain ⟨z, hz⟩ := Factor.signed hsigns (.operand hw)
    exact hx.extend hz hc

/-! ## Restoring signs -/

/-- A factor of operands is restored to a factor of atoms. -/
theorem Factor.restores (h : Factor (Operand restore) s x) (hb : Front before) :
    ∃ u, Restores restore before (squeezed s) u ∧ Factor IsTame u x := by
  induction h generalizing before with
  | negated _ ih =>
    obtain ⟨u, hu, hx⟩ := ih (front_cons (c := '-') rfl before)
    exact ⟨'-' :: u, (restores_nil before).join rfl hu, .negated hx⟩
  | affirmed _ ih =>
    obtain ⟨u, hu, hx⟩ := ih (front_cons (c := '+') rfl before)
    exact ⟨'+' :: u, (restores_nil before).join rfl hu, .affirmed hx⟩
  | operand h =>
    obtain ⟨u, hu, hx⟩ := h.restores hb
    exact ⟨u, hu, .operand hx⟩
  | power hl _ ih =>
    obtain ⟨u, hu, hx⟩ := hl.restores hb
    obtain ⟨v, hv, hy⟩ := ih (front_cons (c := '^') rfl _)
    rw [squeezed_append, squeezed_cons rfl]
    exact ⟨u ++ '^' :: v, hu.join rfl hv, .power hx hy⟩

/-- A term of operands is restored to a term of tame atoms. -/
theorem Term.restores (h : Term (Operand restore) s x) (hb : Front before) :
    ∃ u, Restores restore before (squeezed s) u ∧ Term IsTame u x := by
  induction h with
  | factor h =>
    obtain ⟨u, hu, hx⟩ := h.restores hb
    exact ⟨u, hu, .factor hx⟩
  | times _ hr ih =>
    obtain ⟨u, hu, hx⟩ := ih
    obtain ⟨v, hv, hy⟩ := hr.restores (front_cons (c := '*') rfl _)
    rw [squeezed_append, squeezed_cons rfl]
    exact ⟨u ++ '*' :: v, hu.join rfl hv, .times hx hy⟩
  | divide _ hr ih =>
    obtain ⟨u, hu, hx⟩ := ih
    obtain ⟨v, hv, hy⟩ := hr.restores (front_cons (c := '/') rfl _)
    rw [squeezed_append, squeezed_cons rfl]
    exact ⟨u ++ '/' :: v, hu.join rfl hv, .divide hx hy⟩

/-- A sum of operands is restored to a sum of tame atoms. -/
theorem Sum.restores (h : Sum (Operand restore) s x) (hb : Front before) :
    ∃ u, Restores restore before (squeezed s) u ∧ Sum IsTame u x := by
  induction h with
  | term h =>
    obtain ⟨u, hu, hx⟩ := h.restores hb
    exact ⟨u, hu, .term hx⟩
  | plus _ hr ih =>
    obtain ⟨u, hu, hx⟩ := ih
    obtain ⟨v, hv, hy⟩ := hr.restores (front_cons (c := '+') rfl _)
    rw [squeezed_append, squeezed_cons rfl]
    exact ⟨u ++ '+' :: v, hu.join rfl hv, .plus hx hy⟩
  | minus _ hr ih =>
    obtain ⟨u, hu, hx⟩ := ih
    obtain ⟨v, hv, hy⟩ := hr.restores (front_cons (c := '-') rfl _)
    rw [squeezed_append, squeezed_cons rfl]
    exact ⟨u ++ '-' :: v, hu.join rfl hv, .minus hx hy⟩

/-! ## No captured signs -/

/-- Digits and a mark at the end of two operands stand in the second. -/
theorem EndsInMark.of_join {c : Char} (hc : Symbol.isOperatorChar c = true)
    (h : EndsInMark (s ++ c :: t)) :
    EndsInMark t := by
  obtain ⟨u, d, m, heq, hd, hm⟩ := h
  rcases List.eq_nil_or_concat t with rfl | ⟨t, m', rfl⟩
  · have heq : s ++ [c] = (u ++ [d]) ++ [m] := by simpa using heq
    obtain rfl : c = m := by simpa using List.append_inj_right' heq rfl
    rcases hm with rfl | rfl <;> cases hc
  · rw [List.concat_eq_append] at heq ⊢
    have heq : (s ++ c :: t) ++ [m'] = (u ++ [d]) ++ [m] := by simpa using heq
    obtain rfl : m' = m := by simpa using List.append_inj_right' heq rfl
    rcases List.eq_nil_or_concat t with rfl | ⟨t, d', rfl⟩
    · -- The operator is neither a digit nor a point.
      obtain rfl : c = d := by
        simpa using List.append_inj_right' (List.append_inj_left' heq rfl) rfl
      rcases hd with hd | rfl
      · rw [Literal.isDecimalDigit_of_isOperatorChar hc] at hd
        cases hd
      · cases hc
    · rw [List.concat_eq_append] at heq ⊢
      have heq : (s ++ c :: t) ++ [d'] = u ++ [d] := by
        simpa using List.append_inj_left' heq rfl
      obtain rfl : d' = d := by simpa using List.append_inj_right' heq rfl
      exact ⟨t, d', m', by simp, hd, hm⟩

/-- Does no sign outside brackets follow digits and a mark? -/
def Unmarked (s : List Char) : Prop :=
  Outside (fun a c _ => c = '+' ∨ c = '-' → ¬ EndsInMark a) s

/-- Where no sign follows a mark, no sign is captured. -/
theorem Unmarked.uncaptured (h : Unmarked s) : Uncaptured s :=
  h.imp fun _ _ _ hmark hcap => hmark hcap.1 hcap.2.1

/-- Two unmarked texts stay so around an operator, if the first does not end in a mark. -/
theorem Unmarked.join {c : Char} (hd : depth s = 0) (hc : Symbol.isOperatorChar c = true)
    (hs : Unmarked s) (hmark : ¬ EndsInMark s) (ht : Unmarked t) : Unmarked (s ++ c :: t) := by
  rw [Unmarked, outside_append hd, outside_cons (rise_of_isOperatorChar hc)]
  refine ⟨hs, fun _ => by simpa using hmark, ht.imp fun a d b ha hsign hmark => ?_⟩
  exact ha hsign (hmark.of_join hc)

/-- A text without operators outside brackets has no sign that could follow a mark. -/
theorem unmarked_of_quiet (h : Quiet s) : Unmarked s :=
  h.imp fun _ _ _ hc hsign => by
    rw [isOperatorChar_of_sign hsign] at hc
    cases hc

/-- A tame atom is an atom. -/
theorem IsTame.isAtom : ∀ s (x : Expr α), IsTame s x → IsAtom s x :=
  fun _ _ h => h.toIsAtom

/-- No sign in a factor of tame atoms follows a mark, nor would one behind it. -/
theorem Factor.unmarked (h : Factor IsTame s x) : Unmarked s ∧ ¬ EndsInMark s := by
  induction h with
  | negated _ ih =>
    exact ⟨Unmarked.join (s := []) rfl rfl outside_nil not_endsInMark_nil ih.1,
      fun h => ih.2 (EndsInMark.of_join (s := []) rfl h)⟩
  | affirmed _ ih =>
    exact ⟨Unmarked.join (s := []) rfl rfl outside_nil not_endsInMark_nil ih.1,
      fun h => ih.2 (EndsInMark.of_join (s := []) rfl h)⟩
  | operand h => exact ⟨unmarked_of_quiet h.quiet, h.unmarked⟩
  | power hl _ ih =>
    exact ⟨(unmarked_of_quiet hl.quiet).join (depth_of_balanced hl.balanced) rfl hl.unmarked ih.1,
      fun h => ih.2 (h.of_join rfl)⟩

/-- No sign in a term of tame atoms follows a mark, nor would one behind it. -/
theorem Term.unmarked (h : Term IsTame s x) : Unmarked s ∧ ¬ EndsInMark s := by
  induction h with
  | factor h => exact h.unmarked
  | times hl hr ih =>
    exact ⟨ih.1.join (depth_of_balanced (hl.mono IsTame.isAtom).balanced) rfl ih.2 hr.unmarked.1,
      fun h => hr.unmarked.2 (h.of_join rfl)⟩
  | divide hl hr ih =>
    exact ⟨ih.1.join (depth_of_balanced (hl.mono IsTame.isAtom).balanced) rfl ih.2 hr.unmarked.1,
      fun h => hr.unmarked.2 (h.of_join rfl)⟩

/-- No sign in a sum of tame atoms follows a mark, nor would one behind it. -/
theorem Sum.unmarked (h : Sum IsTame s x) : Unmarked s ∧ ¬ EndsInMark s := by
  induction h with
  | term h => exact h.unmarked
  | plus hl hr ih =>
    exact ⟨ih.1.join (depth_of_balanced (hl.mono IsTame.isAtom).balanced) rfl ih.2 hr.unmarked.1,
      fun h => hr.unmarked.2 (h.of_join rfl)⟩
  | minus hl hr ih =>
    exact ⟨ih.1.join (depth_of_balanced (hl.mono IsTame.isAtom).balanced) rfl ih.2 hr.unmarked.1,
      fun h => hr.unmarked.2 (h.of_join rfl)⟩

/-! ## Reading -/

/-- Restored atoms read as the grammar says, since none of them captures a sign. -/
theorem Sum.readPart_of_tame [Numeral.Signed α] (h : Sum IsTame s x) : readPart s = .ok x :=
  (h.mono IsTame.isAtom).readPart_eq h.unmarked.1.uncaptured

/-- Whatever the grammar derives from operands is read. -/
theorem Sum.read_eq [Numeral.Signed α] (h : Sum (Operand restore) s x) :
    Expr.read restore s = .ok x := by
  have hascii : foreignChar? s = none :=
    foreignChar?_eq_none.2 (h.forall_mem (fun _ => toNat_lt_of_isOperatorChar) fun _ _ h =>
      h.toNat_lt)
  rw [read_eq_ok_iff hascii]
  obtain ⟨u, hu, hx⟩ := h.restores (show Front [] by simp [Front])
  exact ⟨u, restored?_of_restores hu, hx.readPart_of_tame⟩

/-- A chain of operators reads as the one expression that the grammar gives it. -/
theorem parseWith_chain {restore : Bool} {text : String} (h : Chain Float restore text.toList) :
    ∃ x : Expr Float, (∀ y, Sum (Operand restore) text.toList y ↔ y = x) ∧
      Expr.parseWith restore text = .ok x := by
  obtain ⟨x, hx⟩ := h.exists_sum
  refine ⟨x, fun y => ⟨fun hy => ?_, ?_⟩, hx.read_eq⟩
  · have := hy.read_eq.symm.trans hx.read_eq
    exact Except.ok.inj this
  · rintro rfl
    exact hx

/-- A sign before a power before a product with a signed number, and a group for a base. -/
theorem parseWith_chain_signed_power : Expr.parseWith true "-(x)^y*+2" =
    .ok (.mul (negate (.pow (.var 'x') (.var 'y')))
      (.num (Numeral.ofDecimal (.finite false 2 0))) : Expr Float) := by
  have hx : Expr.read true ['x'] = .ok (.var 'x' : Expr Float) :=
    Sum.read_eq (.term (.factor (.operand (.letter (c := 'x') rfl))))
  have hbase : Operand true (parenthesised ['x']) (.var 'x' : Expr Float) := .group hx
  have hexponent : Operand true ['y'] (.var 'y' : Expr Float) := .letter (c := 'y') rfl
  have htwo : Operand true ['2'] (.num (Numeral.ofDecimal (.finite false 2 0)) : Expr Float) :=
    .whole (by simp) (by simp)
  have hchain : Chain Float true "-(x)^y*+2".toList :=
    .join ['+'] (.join [] (.single ['-'] (by simp) hbase) rfl (by simp) hexponent) (c := '*') rfl
      (by simp) htwo
  obtain ⟨x, hsum, hread⟩ := parseWith_chain hchain
  have hderived : Sum (Operand true) "-(x)^y*+2".toList
      (.mul (negate (.pow (.var 'x') (.var 'y')))
        (.num (Numeral.ofDecimal (.finite false 2 0))) : Expr Float) :=
    .term (.times (.factor (.negated (.power hbase (.operand hexponent))))
      (.affirmed (.operand htwo)))
  rw [hread, (hsum _).1 hderived]

end Formula.Reading
