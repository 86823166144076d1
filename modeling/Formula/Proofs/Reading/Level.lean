import Formula.Proofs.Reading.Adjacent
import Formula.Proofs.Reading.Chain

/-!
# Texts that are restored to a level of the grammar

A part of a formula has to be derived as tightly as its place asks for: a sum may stand alone or to
the left of a sign, but not in a product (`Derives`). `Restorable` says that of a text whose
multiplication signs are still to be restored, and of whatever stands before it. Parentheses make an
atom of any such text, and operators join two of them, unless an exponent captures the sign between
them.
-/

namespace Formula.Reading

open Formula.Bracket

variable {α : Type} [Numeral α] {s t l r u v w before : List Char} {x y : Expr α} {m n : Nat}

/-! ## Levels of the grammar -/

/-- The grammar derives the text as a sum, a term, a factor or an atom. The levels are the binding
strengths of the operations. -/
def Derives : Nat → List Char → Expr α → Prop
  | 0 | 1 => Sum IsAtom
  | 2 => Term IsAtom
  | 3 => Factor IsAtom
  | _ + 4 => IsAtom

/-- An atom is derived at every level. -/
theorem Derives.of_atom (h : IsAtom s x) : ∀ n, Derives n s x
  | 0 | 1 => .term (.factor (.operand h))
  | 2 => .factor (.operand h)
  | 3 => .operand h
  | _ + 4 => h

/-- A factor is derived at the levels up to its own. -/
theorem Derives.of_factor (h : Factor IsAtom s x) : n ≤ 3 → Derives n s x :=
  match n with
  | 0 | 1 => fun _ => .term (.factor h)
  | 2 => fun _ => .factor h
  | 3 => fun _ => h
  | _ + 4 => fun hn => absurd hn (by omega)

/-- A term is derived at the levels up to its own. -/
theorem Derives.of_term (h : Term IsAtom s x) : n ≤ 2 → Derives n s x :=
  match n with
  | 0 | 1 => fun _ => .term h
  | 2 => fun _ => h
  | _ + 3 => fun hn => absurd hn (by omega)

/-- What is derived at a level is derived at every looser one. -/
theorem Derives.mono (h : Derives n s x) (hmn : m ≤ n) : Derives m s x :=
  match n with
  | 0 | 1 =>
    match m with
    | 0 | 1 => h
    | _ + 2 => absurd hmn (by omega)
  | 2 => .of_term h hmn
  | 3 => .of_factor h hmn
  | _ + 4 => .of_atom h m

/-- What is derived at any level is a sum. -/
theorem Derives.sum (h : Derives n s x) : Sum IsAtom s x :=
  (h.mono (Nat.zero_le n) : Derives 0 s x)

/-- Nothing that is derived ends in a multiplication sign. -/
theorem Derives.getLast?_ne (h : Derives n s x) : s.getLast? ≠ some '*' := by
  intro hs
  refine h.sum.not_atSign fun c hc => ?_
  rw [hs, Option.mem_some] at hc
  rw [← hc]
  rfl

/-! ## Signs of exponents -/

/-- Unless it is a multiplication sign, a first character was first before signs were inserted. -/
theorem Starred.head?_eq (h : Starred s u) {c : Char} (hu : u.head? = some c) (hc : c ≠ '*') :
    s.head? = some c := by
  cases h with
  | nil => cases hu
  | star => exact absurd (Option.some.inj hu).symm hc
  | cons d h => exact hu

/-- Inserted signs make no exponent. -/
theorem Starred.endsInMark (h : Starred s u) (hu : EndsInMark u) : EndsInMark s := by
  obtain ⟨a, d, m, rfl, hd, hm⟩ := hu
  have hmstar : m ≠ '*' := by
    rintro rfl
    rcases hm with hm | hm <;> cases hm
  have hdstar : d ≠ '*' := by
    rintro rfl
    rcases hd with hd | hd <;> cases hd
  rw [show a ++ [d, m] = (a ++ [d]) ++ [m] by simp] at h
  obtain ⟨t, rfl, ht⟩ := h.exists_of_append hmstar
  obtain ⟨t, rfl, -⟩ := ht.exists_of_append hdstar
  exact ⟨t, d, m, by simp, hd, hm⟩

/-- A sign that is captured in the restored text was captured before. -/
theorem Starred.captured {c : Char} (hl : Starred l u) (hr : Starred r v) (h : Captured u c v) :
    Captured l c r := by
  obtain ⟨hsign, hmark, d, hd, hdigit⟩ := h
  refine ⟨hsign, hl.endsInMark hmark, d, hr.head?_eq hd ?_, hdigit⟩
  rintro rfl
  cases hdigit

/-- Only plus and minus can be captured. -/
theorem not_captured_of_ne {c : Char} (hc : c ≠ '+' ∧ c ≠ '-') : ¬ Captured l c r := by
  rintro ⟨rfl | rfl, -⟩
  · exact hc.1 rfl
  · exact hc.2 rfl

/-- Operands without captured signs, joined by an operator that is not captured either. -/
theorem Uncaptured.join {c : Char} (hd : depth l = 0) (hc : Symbol.isOperatorChar c = true)
    (hl : Uncaptured l) (hcap : ¬ Captured l c r) (hr : Uncaptured r) :
    Uncaptured (l ++ c :: r) := by
  refine (uncaptured_join hd hc).2 ⟨hl.imp fun a d b hdb h => ?_, hcap,
    hr.imp fun a d b hda h => ?_⟩
  · obtain ⟨hsign, hmark, e, he, hdigit⟩ := h
    refine hdb ⟨hsign, hmark, ?_⟩
    cases b with
    | nil =>
      obtain rfl : c = e := by simpa using he
      rw [Literal.isDecimalDigit_of_isOperatorChar hc] at hdigit
      cases hdigit
    | cons f b => exact ⟨e, he, hdigit⟩
  · exact hda ⟨h.1, h.2.1.of_join hc, h.2.2⟩

/-- Where no operator stands, no sign is captured. -/
theorem uncaptured_of_quiet (h : Quiet s) : Uncaptured s :=
  (unmarked_of_quiet h).uncaptured

/-- Restoring signs behind a text inserts multiplication signs only. -/
theorem starred_of_restores (h : Restores true before s u) : Starred s u := by
  obtain ⟨v, hv, rfl⟩ := restores_true_iff.1 h
  exact (starred_of_insertTimesAfter? hv.2).trans (starred_closed v)

/-! ## Restored texts -/

/-- Wherever an operand may begin, the text is restored to one that the grammar derives at a
level. -/
def Restorable (n : Nat) (s : List Char) (x : Expr α) : Prop :=
  ∀ before, Front before → ∃ u, Restores true before s u ∧ Derives n u x ∧ Uncaptured u

/-- A text restored to one that is derived at a level is restorable at the lower levels. -/
theorem Restorable.mono (h : Restorable n s x) (hmn : m ≤ n) : Restorable m s x := by
  intro before hb
  obtain ⟨u, hu, hx, hcap⟩ := h before hb
  exact ⟨u, hu, hx.mono hmn, hcap⟩

variable [Numeral.Signed α]

/-- A restorable text reads as what is derived. -/
theorem Restorable.readsAs (h : Restorable n s x) : ReadsAs true s x := by
  obtain ⟨u, hu, hx, hcap⟩ := h [] front_nil
  exact ⟨u, restored?_of_restores hu, hx.sum.readPart_eq hcap⟩

/-- A restorable text between parentheses is restored to an atom. -/
theorem Restorable.group (h : Restorable n s x) : Restorable 4 (parenthesised s) x := by
  intro before hb
  obtain ⟨u, hu, hx⟩ := h.readsAs
  have hatom := (IsTame.group hx).toIsAtom
  exact ⟨parenthesised u, restores_parenthesised hb (balanced_of_readsAs h.readsAs) hu, hatom,
    uncaptured_of_quiet hatom.quiet⟩

/-- A function applied to a restorable text is restored to an atom. -/
theorem Restorable.call {f : Symbol} (hf : f.isOperator = false) (h : Restorable n s x) :
    Restorable 4 (f.name ++ parenthesised s) (f.apply x) := by
  intro before hb
  obtain ⟨u, hu, hx⟩ := h.readsAs
  have hatom := (IsTame.call hf hx).toIsAtom
  exact ⟨_, restores_call hf hb (balanced_of_readsAs h.readsAs) hu, hatom,
    uncaptured_of_quiet hatom.quiet⟩

/-- A logarithm of restorable texts is restored to an atom. -/
theorem Restorable.logarithm (ht : Restorable m t x) (hs : Restorable n s y) :
    Restorable 4 (Symbol.log.name ++ ('[' :: t ++ ']' :: parenthesised s))
      (Expr.logarithm x y) := by
  intro before hb
  obtain ⟨v, hv, hx⟩ := ht.readsAs
  obtain ⟨u, hu, hy⟩ := hs.readsAs
  have hatom := (IsTame.logarithm hx hy).toIsAtom
  exact ⟨_, restores_logarithm hb (balanced_of_readsAs ht.readsAs) (balanced_of_readsAs hs.readsAs)
    hv hu, hatom, uncaptured_of_quiet hatom.quiet⟩

omit [Numeral.Signed α] in
/-- Operands joined by an operator are restored one by one. -/
theorem Restorable.join {a b : Nat} {z : Expr α} {c : Char} (hl : Restorable a l x)
    (hc : Symbol.isOperatorChar c = true) (hcap : ¬ Captured l c r) (hr : Restorable b r y)
    (hjoin : ∀ {u v}, Derives a u x → Derives b v y → Derives n (u ++ c :: v) z) :
    Restorable n (l ++ c :: r) z := by
  intro before hb
  obtain ⟨u, hu, hx, hul⟩ := hl before hb
  obtain ⟨v, hv, hy, hvr⟩ := hr _ (front_cons hc (l.reverse ++ before))
  have hcap : ¬ Captured u c v := fun h =>
    hcap ((starred_of_restores hu).captured (starred_of_restores hv) h)
  exact ⟨u ++ c :: v, hu.join hc hv, hjoin hx hy,
    hul.join (depth_of_balanced hx.sum.balanced) hc hcap hvr⟩

end Formula.Reading
