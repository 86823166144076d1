import Formula.Proofs.Reading.Run

/-!
# Operands side by side

What restoring signs does where a second operand stands directly behind a first one. In front of a
group or a call the first pass inserts the sign (`Restores.group_behind`, `Restores.call_behind`),
and behind a group the second pass does (`Restores.letter_behind_group`). A letter behind a symbol
is left where it is (`Restores.letter_behind`), so it belongs to the run of that symbol.
-/

namespace Formula.Reading

open Formula.Bracket

variable {s t u v before : List Char} {c : Char}

/-! ## The end of a text -/

/-- Does the text end in a symbol or a closing parenthesis? -/
def EndsOperand (s : List Char) : Prop :=
  ∃ c, s.getLast? = some c ∧ (IsSymbolChar c ∨ c = ')')

/-- A text that does not end in an inserted sign ends as it did before. -/
theorem Starred.getLast?_eq (h : Starred s u) (hu : u.getLast? ≠ some '*') :
    u.getLast? = s.getLast? := by
  rcases List.eq_nil_or_concat u with rfl | ⟨u, c, rfl⟩
  · cases h
    rfl
  · rw [List.concat_eq_append] at h hu ⊢
    have hc : c ≠ '*' := by simpa using hu
    obtain ⟨t, rfl, -⟩ := h.exists_of_append hc
    simp

/-- The second pass leaves the last character in place. -/
theorem getLast?_closed (s : List Char) : (closed s).getLast? = s.getLast? := by
  induction s with
  | nil => rfl
  | cons c s ih =>
    cases s with
    | nil => rfl
    | cons d s =>
      rw [closed]
      split <;> simp [List.getLast?_cons, ih]

/-- Behind a closing parenthesis the second pass puts a sign in front of an operand. -/
theorem closed_append_of_joint (hs : s.getLast? = some ')') (hclosing : isClosing c = false)
    (hop : Symbol.isOperatorChar c = false) (t : List Char) :
    closed (s ++ c :: t) = closed s ++ '*' :: closed (c :: t) := by
  induction s with
  | nil => cases hs
  | cons d s ih =>
    cases s with
    | nil =>
      obtain rfl : d = ')' := by simpa using hs
      have hjoint : (closeJoint? ⟨[], 0, ')', c :: t⟩).isSome = true := by
        simp only [isClosing, Bool.or_eq_false_iff] at hclosing
        simp [closeJoint?, hclosing, hop]
      rw [List.cons_append, List.nil_append, closed, if_pos hjoint]
      rfl
    | cons e s =>
      have hlast := ih (by simpa using hs)
      have hjoint : closeJoint? ⟨[], 0, d, (e :: s) ++ c :: t⟩ = closeJoint? ⟨[], 0, d, e :: s⟩ :=
        rfl
      rw [List.cons_append, closed, hjoint, hlast, closed.eq_2 d (e :: s)]
      split <;> rfl

/-- Behind any other character than a closing parenthesis the second pass inserts nothing where two
texts meet. -/
theorem closed_append_of_ne (hs : s.getLast? ≠ some ')') (t : List Char) :
    closed (s ++ t) = closed s ++ closed t := by
  induction s with
  | nil => rfl
  | cons d s ih =>
    cases s with
    | nil =>
      have hd : d ≠ ')' := by simpa using hs
      rw [List.singleton_append, closed_cons hd, closed_cons hd]
      rfl
    | cons e s =>
      have hlast := ih (by simpa using hs)
      have hjoint : closeJoint? ⟨[], 0, d, (e :: s) ++ t⟩ = closeJoint? ⟨[], 0, d, e :: s⟩ := rfl
      rw [List.cons_append, closed, hjoint, hlast, closed.eq_2 d (e :: s)]
      split <;> rfl

/-! ## In front of groups and calls -/

/-- A sign that the first pass finds missing in front of a group, or of the name before it, is
inserted there. -/
theorem opens_behind {a : List Char} (ha : '(' ∉ a)
    (hjoint : openJoint? ⟨a.reverse ++ before, 0, '(', []⟩ = some before.length)
    (ht : balanced t = true) (hv : opened? [] t = some v) :
    Opens before (a ++ parenthesised t) ('*' :: (a ++ parenthesised v)) := by
  have hname : jointsAfter before a = [] := jointsAfter_of_not_mem ha before
  have hlast : jointsAfter (t.reverse ++ ('(' :: (a.reverse ++ before))) [')'] = [] := by
    simp [jointsAfter, cutsAfter, openJoint?_eq_none]
  have hjoints : jointsAfter before (a ++ parenthesised t) =
      before.length :: jointsAfter ('(' :: (a.reverse ++ before)) t := by
    have hopen : jointsAfter (a.reverse ++ before) (parenthesised t) =
        before.length :: jointsAfter ('(' :: (a.reverse ++ before)) (t ++ [')']) := by
      rw [parenthesised, List.cons_append, jointsAfter, cutsAfter, List.filterMap_cons,
        filterMap_openJoint?, show openJoint? ⟨a.reverse ++ before, 0, '(', t ++ [')']⟩ =
        some before.length from hjoint]
    rw [jointsAfter_append, hname, List.nil_append, hopen, jointsAfter_append, hlast,
      List.append_nil]
  have hinside : opened? ('(' :: (a.reverse ++ before)) t = some v :=
    (opened?_inside rfl ht _).trans hv
  have hanchored : Anchored ('(' :: (a.reverse ++ before)) t := anchored_inside rfl ht _
  have hlen : ('(' :: (a.reverse ++ before)).length = before.length + (a ++ ['(']).length := by
    simp only [List.length_cons, List.length_append, List.length_reverse, List.length_nil]
    omega
  constructor
  · intro p hp
    rw [hjoints, List.mem_cons] at hp
    rcases hp with rfl | hp
    · exact Nat.le_refl _
    · have := hanchored p hp
      omega
  · -- Behind the joint nothing happens up to the parenthesis, nor behind the text inside.
    have hend := insertTimesAfter?_append (d := before.length + (a ++ ['(']).length) (s := t)
      (t := [')']) (jointsAfter ('(' :: (a.reverse ++ before)) t) []
      (fun p hp => hlen ▸ le_of_mem_jointsAfter hp) (by simp)
    have hstart := insertTimesAfter?_append (d := before.length) (s := a ++ ['('])
      (t := t ++ [')']) []
      (jointsAfter ('(' :: (a.reverse ++ before)) t) (by simp) (fun p hp => hlen ▸ hanchored p hp)
    rw [opened?, hlen] at hinside
    rw [List.append_nil, hinside] at hend
    simp only [List.nil_append, insertTimesAfter?, Option.bind_some, Option.map_some] at hstart hend
    rw [hend, Option.map_some] at hstart
    have htext : a ++ parenthesised t = a ++ ['('] ++ (t ++ [')']) := by simp [parenthesised]
    rw [opened?, hjoints, insertTimesAfter?, if_neg (by omega), Nat.sub_self, List.drop_zero,
      List.take_zero, htext, hstart]
    simp [parenthesised]

/-- The names of functions that a text ends in end it behind an operator, too. -/
theorem beforeName?_eq_none (hb : Front before) (hs : ∀ f ∈ Symbol.functions, ¬ f.name <:+ s) :
    beforeName? (s.reverse ++ before) = none := by
  rw [beforeName?, Option.map_eq_none_iff, List.find?_eq_none]
  intro f hf hprefix
  rw [List.isPrefixOf_iff_prefix] at hprefix
  refine hs f hf (List.reverse_prefix.1 ?_)
  cases before with
  | nil => simpa using hprefix
  | cons c before =>
    refine prefix_of_not_mem (fun hmem => ?_) hprefix
    have halpha := isAlpha_of_mem_name (mem_functions.1 hf) c (List.mem_reverse.1 hmem)
    have hop := hb c rfl
    rw [(plain_of_isAlpha halpha).2.2] at hop
    cases hop

/-- A text ends in no function name if its last character is the last one of none. -/
theorem not_name_suffix (hc : ∀ f ∈ Symbol.functions, f.name.getLast? ≠ some c) (s : List Char) :
    ∀ f ∈ Symbol.functions, ¬ f.name <:+ s ++ [c] := by
  intro f hf hsuffix
  obtain ⟨n, d, hname⟩ := (List.eq_nil_or_concat f.name).resolve_left
    (List.ne_nil_of_length_pos f.name_length_pos)
  rw [List.concat_eq_append] at hname
  obtain ⟨a, ha⟩ := hsuffix
  rw [hname, ← List.append_assoc] at ha
  obtain rfl : d = c := by simpa using List.append_inj_right' ha rfl
  exact hc f hf (by simp [hname])

/-- An operand ends in a character that is neither an operator nor a bracket after which none ends.
-/
theorem EndsOperand.exists_cons (h : EndsOperand s) (before : List Char) :
    ∃ p r, s.reverse ++ before = p :: r ∧ p ≠ '(' ∧ p ≠ '[' ∧ p ≠ ']' ∧
      Symbol.isOperatorChar p = false := by
  obtain ⟨p, hp, hchar⟩ := h
  obtain ⟨a, rfl⟩ := List.getLast?_eq_some_iff.1 hp
  refine ⟨p, a.reverse ++ before, by simp, ?_⟩
  rcases hchar with hchar | rfl
  · have hplain := hchar.plain
    refine ⟨?_, ?_, ?_, hplain.2.1⟩
    · rintro rfl
      cases hplain.1.1
    · rintro rfl
      cases hplain.1.1
    · rintro rfl
      cases hplain.1.2
  · decide

/-- Behind an operand there is a place for a sign. -/
theorem jointAfter?_of_endsOperand (h : EndsOperand s) (before : List Char) :
    jointAfter? (s.reverse ++ before) = some (s.reverse ++ before).length := by
  obtain ⟨p, r, hr, hround, hsquare, -, hop⟩ := h.exists_cons before
  simp [hr, jointAfter?, hround, hsquare, hop]

/-- A text that ends in an operand does not end in a square bracket. -/
theorem EndsOperand.head?_ne (h : EndsOperand s) (before : List Char) :
    (s.reverse ++ before).head? ≠ some ']' := by
  obtain ⟨p, r, hr, -, -, hsquare, -⟩ := h.exists_cons before
  rw [hr]
  simpa using hsquare

/-- Behind an operand that does not end in a function name a group has a joint in front of it. -/
theorem openJoint?_group (h : EndsOperand s) (hb : Front before)
    (hs : ∀ f ∈ Symbol.functions, ¬ f.name <:+ s) :
    openJoint? ⟨s.reverse ++ before, 0, '(', []⟩ = some (s.reverse ++ before).length := by
  rw [openJoint?_eq (h.head?_ne before), beforeName?_eq_none hb hs, Option.getD_none,
    jointAfter?_of_endsOperand h before]

/-- Behind an operand a call has a joint in front of its name, if that is the name found there. -/
theorem openJoint?_call {f : Symbol} (hf : f.isOperator = false) (h : EndsOperand s)
    (before : List Char)
    (hname : beforeName? (f.name.reverse ++ (s.reverse ++ before)) = some (s.reverse ++ before)) :
    openJoint? ⟨f.name.reverse ++ (s.reverse ++ before), 0, '(', []⟩ =
      some (s.reverse ++ before).length := by
  rw [openJoint?_eq ((IsCallee.name hf).head?_ne (h.head?_ne before)), hname, Option.getD_some,
    jointAfter?_of_endsOperand h before]

/-- The sines, cosines and tangents are found by their names, except for a tangent behind `co`. -/
theorem beforeName?_trigonometric {f : Symbol} (hf : f = .sin ∨ f = .cos ∨ f = .tan)
    (h : f = .tan → ¬ ['o', 'c'] <+: t) : beforeName? (f.name.reverse ++ t) = some t := by
  rcases hf with rfl | rfl | rfl
  · rfl
  · rfl
  · have hco : ['o', 'c'].isPrefixOf t = false := by
      rw [Bool.eq_false_iff, Ne, List.isPrefixOf_iff_prefix]
      exact h rfl
    simp [beforeName?, Symbol.functions, Symbol.all, Symbol.isOperator, Symbol.name, hco]

/-! ## Both passes -/

/-- Restoring signs behind a text is the first pass and then the second. -/
theorem restores_true_iff : Restores true before s u ↔ ∃ v, Opens before s v ∧ closed v = u :=
  Iff.rfl

/-- Behind an operand, what is restored is a sign and what is restored of the group by itself. -/
theorem Restores.behind {a : List Char} (h : Restores true before s u) (ha : '(' ∉ a)
    (hclose : ')' ∉ a)
    (hjoint : openJoint? ⟨a.reverse ++ (s.reverse ++ before), 0, '(', []⟩ =
      some (s.reverse ++ before).length)
    (ht : balanced t = true) (hv : restored? true t = some v) :
    Restores true before (s ++ (a ++ parenthesised t)) (u ++ '*' :: (a ++ parenthesised v)) := by
  obtain ⟨w, hw, rfl⟩ := exists_opened?_of_restored? hv
  obtain ⟨u, hu, rfl⟩ := restores_true_iff.1 h
  refine ⟨_, hu.append (opens_behind ha hjoint ht hw), ?_⟩
  rw [closed_append u (stops_cons (by decide) _), closed_cons (by decide),
    closed_append_of_not_mem hclose, closed_parenthesised]

/-- Behind an operand a group gets a sign in front. -/
theorem Restores.group_behind (h : Restores true before s u) (hend : EndsOperand s)
    (hb : Front before) (hs : ∀ f ∈ Symbol.functions, ¬ f.name <:+ s) (ht : balanced t = true)
    (hv : restored? true t = some v) :
    Restores true before (s ++ parenthesised t) (u ++ '*' :: parenthesised v) := by
  have hjoint := openJoint?_group hend hb hs
  exact h.behind (a := []) (by simp) (by simp) hjoint ht hv

/-- Behind an operand a call of a trigonometric function gets a sign in front. -/
theorem Restores.call_behind {f : Symbol} (hf : f = .sin ∨ f = .cos ∨ f = .tan)
    (h : Restores true before s u) (hend : EndsOperand s) (hb : Front before)
    (hs : f = .tan → ¬ ['c', 'o'] <:+ s) (ht : balanced t = true) (hv : restored? true t = some v) :
    Restores true before (s ++ (f.name ++ parenthesised t))
      (u ++ '*' :: (f.name ++ parenthesised v)) := by
  have hop : f.isOperator = false := by
    rcases hf with rfl | rfl | rfl <;> rfl
  have hco : f = .tan → ¬ ['o', 'c'] <+: s.reverse ++ before := by
    intro htan hprefix
    refine hs htan (List.reverse_prefix.1 ?_)
    cases before with
    | nil => simpa using hprefix
    | cons c before =>
      have hfront := hb c rfl
      have hmem : c ∉ ['o', 'c'] := by
        rintro hmem
        simp only [List.mem_cons, List.not_mem_nil, or_false] at hmem
        rcases hmem with rfl | rfl <;> cases hfront
      exact prefix_of_not_mem hmem hprefix
  exact h.behind (not_mem_name hop rfl) (not_mem_name hop rfl)
    (openJoint?_call hop hend before (beforeName?_trigonometric hf hco)) ht hv

/-- What comes out of the first pass ends as the text does, if what comes out of both does not end
in a sign. -/
theorem getLast?_of_opens (h : Opens before s v) (hv : v.getLast? ≠ some '*') :
    v.getLast? = s.getLast? :=
  (starred_of_insertTimesAfter? h.2).getLast?_eq hv

/-- Behind a symbol a letter is left where it is. -/
theorem Restores.letter_behind (h : Restores true before s u) (hu : u.getLast? ≠ some '*')
    (hs : s.getLast? ≠ some ')') (hc : c.isAlpha = true) :
    Restores true before (s ++ [c]) (u ++ [c]) := by
  obtain ⟨v, hv, rfl⟩ := restores_true_iff.1 h
  rw [getLast?_closed] at hu
  have hplain := plain_of_isAlpha hc
  have hlast : v.getLast? ≠ some ')' := by rwa [getLast?_of_opens hv hu]
  refine ⟨v ++ [c], hv.append (opens_of_not_mem ?_ _), ?_⟩
  · rw [List.mem_singleton]
    rintro rfl
    cases hc
  · rw [closed_append_of_ne hlast]
    rfl

/-- Behind a group a letter gets a sign in front. -/
theorem Restores.letter_behind_group (h : Restores true before s u) (hu : u.getLast? ≠ some '*')
    (hs : s.getLast? = some ')') (hc : c.isAlpha = true) :
    Restores true before (s ++ [c]) (u ++ ['*', c]) := by
  obtain ⟨v, hv, rfl⟩ := restores_true_iff.1 h
  rw [getLast?_closed] at hu
  have hplain := plain_of_isAlpha hc
  have hlast : v.getLast? = some ')' := by rwa [getLast?_of_opens hv hu]
  refine ⟨v ++ [c], hv.append (opens_of_not_mem ?_ _), ?_⟩
  · rw [List.mem_singleton]
    rintro rfl
    cases hc
  · rw [closed_append_of_joint hlast hplain.2.1 hplain.2.2]
    rfl

end Formula.Reading
