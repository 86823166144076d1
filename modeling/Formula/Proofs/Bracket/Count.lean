import Mathlib.Data.List.Infix
import Formula.Proofs.Bracket.Balance

/-!
# Balance by counting

In a text without square brackets it takes no partners to tell whether the parentheses are balanced:
they are if and only if as many are closed as are opened, and never more up to any place
(`balanced_iff_matched`).
-/

namespace Formula.Bracket

/-- Are as many parentheses closed as opened, and never more on the way? -/
def Matched (s : List Char) : Prop :=
  (∀ t, t <+: s → t.count ')' ≤ t.count '(') ∧ s.count '(' = s.count ')'

/-- What holds of all beginnings of a text holds of the empty one and of those that take in the
first character. -/
theorem forall_prefix_cons {P : List Char → Prop} {c : Char} {s : List Char} :
    (∀ t, t <+: c :: s → P t) ↔ P [] ∧ ∀ t, t <+: s → P (c :: t) := by
  constructor
  · intro h
    exact ⟨h [] List.nil_prefix, fun t ht => h (c :: t) (List.cons_prefix_cons.2 ⟨rfl, ht⟩)⟩
  · rintro ⟨hnil, hcons⟩ t ht
    rcases List.prefix_cons_iff.1 ht with rfl | ⟨u, rfl, hu⟩
    · exact hnil
    · exact hcons u hu

/-- After some open parentheses a text closes them all and its own. -/
theorem balancedAfter_iff_count {s : List Char} (hsquare : ∀ c ∈ s, c ≠ '[' ∧ c ≠ ']') (n : Nat) :
    balancedAfter (List.replicate n '(') s = true ↔
      (∀ t, t <+: s → t.count ')' ≤ n + t.count '(') ∧ n + s.count '(' = s.count ')' := by
  induction s generalizing n with
  | nil => simp [balancedAfter]
  | cons c s ih =>
    have ih := ih fun d hd => hsquare d (List.mem_cons_of_mem c hd)
    obtain ⟨hopen, hclose⟩ := hsquare c List.mem_cons_self
    rw [forall_prefix_cons]
    by_cases ho : c = '('
    · subst ho
      have hstep : balancedAfter (List.replicate n '(') ('(' :: s) =
        balancedAfter (List.replicate (n + 1) '(') s := rfl
      rw [hstep, ih (n + 1)]
      simp [Nat.add_assoc, Nat.add_comm 1]
    · by_cases hc : c = ')'
      · subst hc
        cases n with
        | zero =>
          have hstep : balancedAfter (List.replicate 0 '(') (')' :: s) = false := rfl
          rw [hstep]
          refine iff_of_false (by simp) fun h => ?_
          have := h.1.2 [] List.nil_prefix
          simp at this
        | succ n =>
          have hstep : balancedAfter (List.replicate (n + 1) '(') (')' :: s) =
            balancedAfter (List.replicate n '(') s := rfl
          rw [hstep, ih n]
          simp [Nat.add_right_comm n 1]
      · have hplain : isOpening c = false ∧ isClosing c = false := by
          simp [isOpening, isClosing, ho, hc, hopen, hclose]
        have hstep : balancedAfter (List.replicate n '(') (c :: s) =
          balancedAfter (List.replicate n '(') s := by
          simp [balancedAfter, hplain]
        rw [hstep, ih n]
        simp [ho, hc]

/-- Without square brackets, the balance of a text is a matter of counting. -/
theorem balanced_iff_matched {s : List Char} (hsquare : ∀ c ∈ s, c ≠ '[' ∧ c ≠ ']') :
    balanced s = true ↔ Matched s := by
  have := balancedAfter_iff_count hsquare 0
  simp only [List.replicate_zero, Nat.zero_add] at this
  exact this

/-- Characters that are no brackets do not count. -/
theorem balancedAfter_filter {p : Char → Bool}
    (hp : ∀ c, p c = false → isOpening c = false ∧ isClosing c = false) (s opened : List Char) :
    balancedAfter opened (s.filter p) = balancedAfter opened s := by
  induction s generalizing opened with
  | nil => rfl
  | cons c s ih =>
    cases hc : p c with
    | true =>
      rw [List.filter_cons_of_pos hc]
      simp only [balancedAfter, ih]
    | false =>
      rw [List.filter_cons_of_neg (by simp [hc]), ih]
      simp [balancedAfter, hp c hc]

end Formula.Bracket
