import Formula.Proofs.Reading.Level
import Formula.Proofs.Writing.Spelling

/-!
# Rows of factors

A product without signs is read factor by factor. `Spells` says of a text how it is restored and
where the letters behind it will go, and its lemmas put one more factor behind the text: a letter
joins the run at the end (`Spells.letter`), while groups and calls get a sign in front of them and
close the text (`Spells.group`, `Spells.call`).
-/

namespace Formula.Expr

open Reading Formula.Bracket

variable {α : Type} [Numeral α] {s t u w : List Char} {x y : Expr α} {n : Nat}

/-- The text is restored to another one, in which the run at the end stands apart. -/
inductive Realizes : List Char → List Char → Spelling α → Prop
  | closed {s u : List Char} {x : Expr α} : Realizes s u (.closed x)
  | start {w : List Char} {x : Expr α} : IsRun w x → Realizes w w (.run .start w x)
  | minus {w : List Char} {x : Expr α} : IsRun w x →
    Realizes ('-' :: w) ('-' :: w) (.run .minus w x)
  | times {s t w : List Char} {x y : Expr α} : Term IsAtom t y → Uncaptured t → IsRun w x →
      Realizes (s ++ w) (t ++ '*' :: w) (.run (.times y) w x)

/-- Wherever an operand may begin, the text is restored to one that the grammar derives at a level
and that is spelled in this way. -/
def Spells (n : Nat) (s : List Char) (spelling : Spelling α) : Prop :=
  ∀ before, Front before → ∃ u, Restores true before s u ∧ Derives n u spelling.expr ∧
    Uncaptured u ∧ Realizes s u spelling

/-- A text that is spelled is restored to what its spelling reads as. -/
theorem Spells.restorable {sp : Spelling α} (h : Spells n s sp) : Restorable n s sp.expr := by
  intro before hb
  obtain ⟨u, hu, hx, hcap, -⟩ := h before hb
  exact ⟨u, hu, hx, hcap⟩

/-- A text that is restored has a closed spelling. -/
theorem Spells.of_restorable (h : Restorable n s x) : Spells n s (.closed x) := by
  intro before hb
  obtain ⟨u, hu, hx, hcap⟩ := h before hb
  exact ⟨u, hu, hx, hcap, .closed⟩

/-- What is spelled at a level is spelled at the lower ones. -/
theorem Spells.mono {m : Nat} {sp : Spelling α} (h : Spells n s sp) (hmn : m ≤ n) :
    Spells m s sp := by
  intro before hb
  obtain ⟨u, hu, hx, hcap, hreal⟩ := h before hb
  exact ⟨u, hu, hx.mono hmn, hcap, hreal⟩

/-- A run is spelled as a run. -/
theorem spells_run (h : IsRun w x) : Spells 4 w (.run .start w x) := fun before _ =>
  ⟨w, restores_of_plain (plain_of_symbolChars h.chars) before, h.isAtom,
    uncaptured_of_quiet h.isAtom.quiet, .start h⟩

/-- The minus in front of a run is captured by no exponent. -/
theorem uncaptured_minus (h : IsRun w x) : Uncaptured ('-' :: w) :=
  Uncaptured.join (l := []) rfl rfl outside_nil (fun hcap => not_endsInMark_nil hcap.2.1)
    (uncaptured_of_quiet h.isAtom.quiet)

/-- A minus and a run derive the opposite of the run. -/
theorem derives_minus (h : IsRun w x) : Derives 3 ('-' :: w) (negate x) :=
  .negated (.operand h.isAtom)

/-- A minus and a run hold no brackets. -/
theorem plain_minus (h : IsRun w x) : Plain ('-' :: w) := by
  intro c hc
  rcases List.mem_cons.1 hc with rfl | hc
  · decide
  · exact plain_of_symbolChars h.chars c hc

/-- A run behind a minus is spelled as such. -/
theorem spells_minus (h : IsRun w x) : Spells 3 ('-' :: w) (.run .minus w x) := fun before _ =>
  ⟨'-' :: w, restores_of_plain (plain_minus h) before, derives_minus h,
    uncaptured_minus h, .minus h⟩

/-- No run ends in a parenthesis. -/
theorem getLast?_ne_of_isRun (h : IsRun w x) (s : List Char) : (s ++ w).getLast? ≠ some ')' := by
  intro hlast
  rcases List.eq_nil_or_concat w with rfl | ⟨w, c, rfl⟩
  · exact h.ne_nil rfl
  · obtain rfl : c = ')' := by simpa [List.concat_eq_append] using hlast
    have := (h.chars ')' (by simp)).plain.1.2
    cases this

/-- A letter behind a text joins the run at its end, or begins a new run behind a group. -/
theorem Spells.letter {sp : Spelling α} {c : Char} (h : Spells 2 s sp) (hc : c.isAlpha = true)
    (hnames : ∀ f ∈ Symbol.functions, ¬ f.name <:+ s ++ [c]) (hend : sp.Takes s c) :
    Spells 2 (s ++ [c]) (sp.beside (.run .start [c] (leaf c))) := by
  intro before hb
  obtain ⟨u, hu, hx, hcap, hreal⟩ := h before hb
  have hstar := hx.getLast?_ne
  have hletter := isRun_letter (α := α) hc
  have hsuffix : ∀ {a w : List Char}, s = a ++ w →
    ∀ f ∈ Symbol.functions, ¬ f.name <:+ w ++ [c] := by
    rintro a w rfl f hf hname
    refine hnames f hf (hname.trans ?_)
    rw [List.append_assoc]
    exact List.suffix_append a (w ++ [c])
  cases hreal with
  | closed =>
    refine ⟨u ++ ['*', c], hu.letter_behind_group hstar hend hc,
      .times hx (.operand hletter.isAtom), ?_, .times hx hcap hletter⟩
    exact hcap.join (depth_of_balanced hx.sum.balanced) rfl (not_captured_of_ne (by decide))
      (uncaptured_of_quiet hletter.isAtom.quiet)
  | start hw =>
    have hrun := hw.letter hc (hsuffix (a := []) rfl) hend
    exact ⟨_, hu.letter_behind hstar (getLast?_ne_of_isRun hw []) hc, .of_atom hrun.isAtom 2,
      uncaptured_of_quiet hrun.isAtom.quiet, .start hrun⟩
  | @minus w _ hw =>
    have hrun := hw.letter hc (hsuffix (a := ['-']) rfl) hend
    exact ⟨_, hu.letter_behind hstar (getLast?_ne_of_isRun hw ['-']) hc,
      (derives_minus hrun).mono (by decide), uncaptured_minus hrun, .minus hrun⟩
  | @times s t w _ _ ht htcap hw =>
    have hrun := hw.letter hc (hsuffix rfl) hend
    have hjoin := htcap.join (depth_of_balanced ht.balanced) (c := '*')
      rfl (not_captured_of_ne (by decide)) (uncaptured_of_quiet hrun.isAtom.quiet)
    refine ⟨(t ++ '*' :: w) ++ [c], hu.letter_behind hstar (getLast?_ne_of_isRun hw s) hc, ?_⟩
    rw [show (t ++ '*' :: w) ++ [c] = t ++ '*' :: (w ++ [c]) by simp, List.append_assoc s]
    exact ⟨.times ht (.operand hrun.isAtom), hjoin, .times ht htcap hrun⟩

/-- A factor that gets a sign in front of it stands behind a text of any spelling. -/
theorem Spells.times {sp : Spelling α} {t : List Char} (h : Spells 2 s sp)
    (ht : ∀ before u, Front before → Restores true before s u →
      ∃ v, Restores true before (s ++ t) (u ++ '*' :: v) ∧ IsAtom v y) :
    Spells 2 (s ++ t) (sp.beside (.closed y)) := by
  intro before hb
  obtain ⟨u, hu, hx, hcap, -⟩ := h before hb
  obtain ⟨v, hv, hy⟩ := ht before u hb hu
  rw [sp.beside_closed]
  refine ⟨u ++ '*' :: v, hv, .times hx (.operand hy), ?_, .closed⟩
  exact hcap.join (depth_of_balanced hx.sum.balanced) rfl (not_captured_of_ne (by decide))
    (uncaptured_of_quiet hy.quiet)

section
variable [Numeral.Signed α]

/-- A group stands beside the text before it. -/
theorem Spells.group {sp : Spelling α} {t : List Char} (h : Spells 2 s sp) (hend : EndsOperand s)
    (hnames : ∀ f ∈ Symbol.functions, ¬ f.name <:+ s) (ht : Restorable n t y) :
    Spells 2 (s ++ parenthesised t) (sp.beside (.closed y)) := by
  obtain ⟨v, hv, hy⟩ := ht.readsAs
  refine h.times fun before u hb hu => ⟨parenthesised v, ?_, (IsTame.group hy).toIsAtom⟩
  exact hu.group_behind hend hb hnames (balanced_of_readsAs ht.readsAs) hv

/-- The call of a trigonometric function stands beside the text before it. -/
theorem Spells.call {sp : Spelling α} {t : List Char} {f : Symbol}
    (hf : f = .sin ∨ f = .cos ∨ f = .tan) (h : Spells 2 s sp) (hend : EndsOperand s)
    (hco : f = .tan → ¬ ['c', 'o'] <:+ s) (ht : Restorable n t y) :
    Spells 2 (s ++ (f.name ++ parenthesised t)) (sp.beside (.closed (f.apply y))) := by
  have hop : f.isOperator = false := by
    rcases hf with rfl | rfl | rfl <;> rfl
  obtain ⟨v, hv, hy⟩ := ht.readsAs
  refine h.times fun before u hb hu =>
    ⟨f.name ++ parenthesised v, ?_, (IsTame.call hop hy).toIsAtom⟩
  exact hu.call_behind hf hend hb hco (balanced_of_readsAs ht.readsAs) hv

end

end Formula.Expr
