import Formula.Proofs.Reading.Entry

/-!
# Places in order

The first pass over a text finds the places of omitted multiplication signs by the parentheses
behind them. A place lies directly before its parenthesis or the name there, so that no other
parenthesis stands between, unless it belongs to a logarithm with a base in square brackets: then
the whole base lies between. So in a balanced text the places come in order if and only if no such
base leaves out a sign of its own (`restoreTimes?_eq_none_iff`). The places of the second pass
always come in order (`pairwise_closeJoints`).
-/

namespace Formula.Reading

open Formula.Bracket

variable {s t u before a b : List Char} {c : Char} {d : Nat}

/-! ## Insertion -/

/-- Signs can be inserted at places that are in order and within the text. -/
theorem isSome_insertTimesAfter? {ps : List Nat} : (insertTimesAfter? d ps s).isSome = true ↔
    (d :: ps).Pairwise (· ≤ ·) ∧ ∀ p ∈ ps, p ≤ d + s.length := by
  induction ps generalizing d s with
  | nil => simp [insertTimesAfter?]
  | cons p ps ih =>
    have hlength : ∀ q, d ≤ p → p ≤ d + s.length →
      (q ≤ p + (s.length - (p - d)) ↔ q ≤ d + s.length) := by
      intro q hd hp
      omega
    rw [insertTimesAfter?]
    split
    next hout =>
      refine iff_of_false Bool.false_ne_true ?_
      rintro ⟨hsorted, hbound⟩
      have hd := List.rel_of_pairwise_cons hsorted List.mem_cons_self
      have hp := hbound p List.mem_cons_self
      omega
    next hin =>
      have hd : d ≤ p := by omega
      have hp : p ≤ d + s.length := by omega
      rw [Option.isSome_map, ih, List.length_drop, List.forall_mem_cons,
        List.pairwise_cons (a := d), List.forall_mem_cons]
      constructor
      · rintro ⟨hsorted, hbound⟩
        refine ⟨⟨⟨hd, fun q hq => ?_⟩, hsorted⟩, hp, fun q hq => (hlength q hd hp).1 (hbound q hq)⟩
        exact Nat.le_trans hd (List.rel_of_pairwise_cons hsorted hq)
      · rintro ⟨⟨-, hsorted⟩, -, hbound⟩
        exact ⟨hsorted, fun q hq => (hlength q hd hp).2 (hbound q hq)⟩

/-- The places before groups and calls lie in the text. -/
theorem le_of_mem_openJoints {p : Nat} (h : p ∈ openJoints s) : p ≤ s.length := by
  have hle : p ≤ [].length + s.length := le_of_mem_jointsAfter h
  rwa [List.length_nil, Nat.zero_add] at hle

/-- The places behind groups lie in the text. -/
theorem le_of_mem_closeJoints {p : Nat} (h : p ∈ closeJoints s) : p ≤ s.length := by
  obtain ⟨k, hk, hp⟩ := List.mem_filterMap.1 h
  rw [closeJoint?_eq] at hp
  obtain ⟨-, -, rfl⟩ := Option.map_eq_some_iff.1 hp
  rw [eq_of_mem_cuts hk, Cut.left, List.length_append, List.length_reverse, List.length_cons]
  omega

/-- The cuts of a text come in the order of their places. -/
theorem pairwise_cutsAfter (before s : List Char) (d : Int) :
    (cutsAfter before d s).Pairwise fun k k' => k.before.length < k'.before.length := by
  induction s generalizing before d with
  | nil => exact .nil
  | cons c s ih =>
    refine .cons ?_ (ih (c :: before) (d + rise c))
    intro k hk
    obtain ⟨a, -, hbefore, -⟩ := mem_cutsAfter.1 hk
    show before.length < k.before.length
    rw [hbefore, List.length_append, List.length_cons]
    omega

/-- The places behind groups come strictly from left to right. -/
theorem pairwise_closeJoints (s : List Char) : (closeJoints s).Pairwise (· < ·) := by
  apply List.Pairwise.filterMap _ _ (pairwise_cutsAfter [] s 0)
  intro k k' hlt p hp q hq
  rw [closeJoint?_eq] at hp hq
  obtain ⟨-, -, rfl⟩ := Option.map_eq_some_iff.1 hp
  obtain ⟨-, -, rfl⟩ := Option.map_eq_some_iff.1 hq
  exact Nat.succ_lt_succ hlt

/-- Signs are restored in any text where the first pass finds its places in order. The second pass
always does. -/
theorem isSome_restoreTimes? :
    (restoreTimes? s).isSome = true ↔ (openJoints s).Pairwise (· ≤ ·) := by
  rw [restoreTimes?_eq, Option.isSome_map, opened?, List.length_nil, isSome_insertTimesAfter?,
    List.pairwise_cons]
  constructor
  · exact fun h => h.1.2
  · intro h
    refine ⟨⟨fun p _ => Nat.zero_le p, h⟩, fun p hp => ?_⟩
    rw [Nat.zero_add]
    exact le_of_mem_openJoints hp

/-! ## Where joints lie -/

/-- The name that is found is the name of a function. -/
theorem exists_of_beforeName? (h : beforeName? s = some u) :
    ∃ f ∈ Symbol.functions, s = f.name.reverse ++ u := by
  obtain ⟨f, hf, rfl⟩ := Option.map_eq_some_iff.1 h
  have hprefix := List.find?_some hf
  obtain ⟨t, rfl⟩ := List.isPrefixOf_iff_prefix.1 hprefix
  refine ⟨f, List.mem_of_find?_eq_some hf, ?_⟩
  rw [← List.length_reverse, List.drop_left]

/-- A joint lies before its parenthesis with at most a name between, unless a bracket stands before
the parenthesis. -/
theorem openJoint?_cases {k : Cut} {p : Nat} (h : openJoint? k = some p) : k.char = '(' ∧
    ((∃ w u, k.before = w ++ u ∧ '(' ∉ w ∧ p = u.length) ∨ ∃ rest, k.before = ']' :: rest) := by
  have hchar : k.char = '(' := Classical.byContradiction fun hne => by
    rw [openJoint?_eq_none hne] at h
    cases h
  refine ⟨hchar, ?_⟩
  obtain ⟨before, e, c, b⟩ := k
  obtain rfl : c = '(' := hchar
  by_cases hbracket : before.head? = some ']'
  · exact .inr (List.head?_eq_some_iff.1 hbracket)
  · rw [openJoint?_eq hbracket] at h
    have hp := le_of_jointAfter? h
    cases hname : beforeName? before with
    | none =>
      rw [hname, Option.getD_none] at hp
      exact .inl ⟨[], before, rfl, List.not_mem_nil, hp⟩
    | some u =>
      rw [hname, Option.getD_some] at hp
      obtain ⟨f, hf, hs⟩ := exists_of_beforeName? hname
      refine .inl ⟨_, u, hs, fun hmem => ?_, hp⟩
      exact not_mem_name (mem_functions.1 hf) (c := '(') rfl (List.mem_reverse.1 hmem)

/-- Whether a sign is missing before a group depends on the character and the text before. -/
theorem openJoint?_congr {k k' : Cut} (hbefore : k.before = k'.before) (hchar : k.char = k'.char) :
    openJoint? k = openJoint? k' := by
  cases k
  cases k'
  cases hbefore
  cases hchar
  rfl

/-- Behind a base in square brackets the joint lies before the name in front of the base. -/
theorem openJoint?_behind_base {base : List Char} (hbase : balanced base = true) (front : List Char)
    (e : Int) :
    openJoint? ⟨(front ++ '[' :: base ++ [']']).reverse, e, '(', b⟩ =
      (beforeName? front.reverse).bind jointAfter? := by
  have hgroup := groupStart?_group (o := '[') rfl hbase front.reverse
  have hdrop : (']' :: base.reverse ++ '[' :: front.reverse).drop (base.length + 1 + 1) =
    front.reverse := by
    rw [List.drop_append]
    simp
  have hreverse : (front ++ '[' :: base ++ [']']).reverse =
    ']' :: base.reverse ++ '[' :: front.reverse := by simp
  simp only [show closer '[' = ']' from rfl, List.cons_append] at hgroup hdrop
  simp only [openJoint?, hreverse, List.cons_append, hgroup, hdrop, Option.bind_eq_bind,
    Option.bind_some]
  simp

/-- A logarithm with a base that stands directly behind an operand, while its base leaves out a sign
in front of a group itself. Any function name may carry such a base. -/
def SplitsBase (s : List Char) : Prop :=
  ∃ (f : Symbol) (before base after : List Char), f ∈ Symbol.functions ∧
    s = before ++ (f.name ++ '[' :: base ++ [']']) ++ '(' :: after ∧ balanced base = true ∧
    beforeName? (before ++ f.name).reverse = some before.reverse ∧
    jointAfter? before.reverse = some before.length ∧ openJoints base ≠ []

/-- The partner of a closing square bracket is the opening one. -/
theorem eq_square {o : Char} (ho : isOpening o = true) (hcloser : closer o = ']') : o = '[' := by
  simp only [isOpening, Bool.or_eq_true, beq_iff_eq] at ho
  rcases ho with rfl | rfl
  · cases hcloser
  · rfl

/-- A parenthesis behind the text before a logarithm, but before the end of its base, stands in the
base. -/
theorem exists_in_base {f : Symbol} {base : List Char} (hf : f.isOperator = false)
    (h : a ++ '(' :: b = before ++ (f.name ++ '[' :: base ++ [']']))
    (hlength : before.length ≤ a.length) :
    ∃ l r, a = before ++ (f.name ++ '[' :: l) ∧ base = l ++ '(' :: r := by
  obtain ⟨a, rfl⟩ := List.prefix_of_prefix_length_le ⟨_, h.symm⟩
    (List.prefix_append a ('(' :: b)) hlength
  have h : a ++ '(' :: b = (f.name ++ ['[']) ++ (base ++ [']']) := by simpa using h
  have hname : '(' ∉ f.name ++ ['['] := by
    simpa using not_mem_name hf (c := '(') rfl
  obtain ⟨l, rfl⟩ := prefix_of_not_mem hname ⟨_, h.symm⟩
  have h : l ++ '(' :: b = base ++ [']'] := by simpa using h
  rcases List.eq_nil_or_concat b with rfl | ⟨r, e, rfl⟩
  · have := List.append_inj_right' h rfl
    simp at this
  · have h : (l ++ '(' :: r) ++ [e] = base ++ [']'] := by simpa using h
    exact ⟨l, r, by simp, (List.append_inj_left' h rfl).symm⟩

/-- A joint comes behind those before it, unless it belongs to a logarithm whose base has one. -/
theorem lt_of_joints {p q : Nat} (hs : balanced (a ++ c :: b) = true) (hp : p ∈ jointsAfter [] a)
    (hq : openJoint? ⟨a.reverse, 0, c, b⟩ = some q) : p < q ∨ SplitsBase (a ++ c :: b) := by
  obtain ⟨k, hk, hkp⟩ := List.mem_filterMap.1 hp
  obtain ⟨a₁, ha, hbefore, -⟩ := mem_cutsAfter.1 hk
  rw [List.append_nil] at hbefore
  have hple := openJoint?_le hkp
  rw [hbefore, List.length_reverse] at hple
  have hparen := (openJoint?_cases hkp).1
  rw [hparen] at ha
  obtain ⟨rfl, ⟨w, u, hwu, hw, rfl⟩ | ⟨rest, hrest⟩⟩ := openJoint?_cases hq
  · -- No parenthesis stands between the second place and its own one.
    left
    rw [ha] at hwu
    have hprefix : w <+: k.after.reverse :=
      prefix_of_not_mem hw (t := a₁.reverse) ⟨u, by simpa using hwu.symm⟩
    have hlength := congrArg List.length hwu
    have := hprefix.length_le
    simp only [List.length_reverse, List.length_append, List.length_cons] at hlength this
    omega
  · -- The second place lies before a name, a base and its brackets.
    obtain ⟨body, rfl⟩ : ∃ body, a = body ++ [']'] :=
      ⟨rest.reverse, by simpa using congrArg List.reverse hrest⟩
    obtain ⟨front, o, base, rfl, ho, hcloser, hbase⟩ :=
      exists_opening (a := body) (b := '(' :: b) (c := ']') (by simpa using hs) rfl
    obtain rfl := eq_square ho hcloser
    rw [openJoint?_behind_base hbase, Option.bind_eq_some_iff] at hq
    obtain ⟨u, hname, hjoint⟩ := hq
    obtain ⟨f, hf, hfront⟩ := exists_of_beforeName? hname
    obtain rfl : front = u.reverse ++ f.name := by simpa using congrArg List.reverse hfront
    obtain rfl := le_of_jointAfter? hjoint
    by_cases hlt : a₁.length < u.length
    · exact .inl (by omega)
    · -- The parenthesis of the first place stands behind the second place, so inside the base.
      right
      have htext : a₁ ++ '(' :: k.after = u.reverse ++ (f.name ++ '[' :: base ++ [']']) := by
        rw [← ha]
        simp
      obtain ⟨l, r, rfl, rfl⟩ :=
        exists_in_base (mem_functions.1 hf) htext (by simpa using Nat.not_lt.1 hlt)
      have hinside := openJoint?_inside (o := '[') (d := k.depth) (e := depth l) rfl hbase
        (f.name.reverse ++ u)
      have hsame : openJoint? k = openJoint? ⟨l.reverse ++ '[' :: (f.name.reverse ++ u),
        k.depth, '(', r⟩ :=
        openJoint?_congr (by rw [hbefore]; simp) hparen
      rw [← hsame, hkp] at hinside
      obtain ⟨place, hplace, -⟩ := Option.map_eq_some_iff.1 hinside.symm
      refine ⟨f, u.reverse, l ++ '(' :: r, b, hf, by simp,
        hbase, by simpa using hname, by simpa using hjoint, ?_⟩
      refine List.ne_nil_of_mem (a := place)
        (List.mem_filterMap.2 ⟨⟨l.reverse, depth l, '(', r⟩, ?_, hplace⟩)
      exact mem_cuts.2 ⟨by simp [Cut.left], by simp [Cut.left]⟩

/-- In a balanced text without such a logarithm the places come strictly from left to right. -/
theorem pairwise_openJoints (hs : balanced s = true) (hbase : ¬ SplitsBase s) :
    (openJoints s).Pairwise (· < ·) := by
  -- The text is taken character by character, and each joint is compared with those before it.
  have hstep : ∀ (b a : List Char), s = a ++ b → (jointsAfter [] a).Pairwise (· < ·) →
      (jointsAfter [] s).Pairwise (· < ·) := by
    intro b
    induction b with
    | nil =>
      intro a hab h
      rwa [hab, List.append_nil]
    | cons c b ih =>
      intro a hab h
      refine ih (a ++ [c]) (by simpa using hab) ?_
      rw [jointsAfter_append, List.append_nil, List.pairwise_append]
      have hlast : jointsAfter a.reverse [c] = (openJoint? ⟨a.reverse, 0, c, b⟩).toList := by
        have hafter : openJoint? ⟨a.reverse, 0, c, b⟩ = openJoint? ⟨a.reverse, 0, c, []⟩ :=
          openJoint?_congr rfl rfl
        rw [hafter, jointsAfter, cutsAfter, cutsAfter, List.filterMap_cons]
        cases openJoint? ⟨a.reverse, 0, c, []⟩ <;> rfl
      rw [hlast]
      refine ⟨h, ?_, fun p hp q hq => ?_⟩
      · cases openJoint? ⟨a.reverse, 0, c, b⟩ <;> simp
      · exact (lt_of_joints (hab ▸ hs) hp (Option.mem_toList.1 hq)).resolve_right (hab ▸ hbase)
  exact hstep s [] rfl .nil

/-- A logarithm behind an operand puts its place before those in its base. -/
theorem not_pairwise_openJoints (h : SplitsBase s) : ¬ (openJoints s).Pairwise (· ≤ ·) := by
  obtain ⟨f, before, base, after, hf, rfl, hbase, hname, hjoint, hne⟩ := h
  obtain ⟨p, hp⟩ := List.exists_mem_of_ne_nil _ hne
  have hinside : p + ((f.name.reverse ++ before.reverse).length + 1) ∈
      jointsAfter [] (before ++ (f.name ++ '[' :: base ++ [']'])) := by
    have hsplit : before ++ (f.name ++ '[' :: base ++ [']']) =
      before ++ f.name ++ ['['] ++ (base ++ [']']) := by simp
    have hreverse : (before ++ f.name ++ ['[']).reverse ++ [] =
      '[' :: (f.name.reverse ++ before.reverse) := by simp
    rw [hsplit, jointsAfter_append (s := before ++ f.name ++ ['[']), hreverse,
      jointsAfter_append (s := base), jointsAfter_inside (o := '[') rfl hbase]
    exact List.mem_append_right _ (List.mem_append_left _ (List.mem_map_of_mem hp))
  have hplace : before.length ∈ jointsAfter (before ++ (f.name ++ '[' :: base ++ [']'])).reverse
    ('(' :: after) := by
    refine List.mem_filterMap.2 ⟨_, List.mem_cons_self, ?_⟩
    have hbehind := openJoint?_behind_base (b := after) hbase (before ++ f.name) 0
    rw [hname, Option.bind_some, hjoint] at hbehind
    rw [← hbehind]
    exact openJoint?_congr (by simp) rfl
  intro hsorted
  rw [openJoints_append, List.pairwise_append] at hsorted
  have := hsorted.2.2 _ hinside _ hplace
  simp only [List.length_append, List.length_reverse] at this
  omega

/-- The places before groups and calls of a balanced text come strictly from left to right unless a
logarithm has left out signs before it and in its base. -/
theorem pairwise_openJoints_iff (hs : balanced s = true) :
    (openJoints s).Pairwise (· < ·) ↔ ¬ SplitsBase s := by
  constructor
  · intro hsorted hbase
    exact not_pairwise_openJoints hbase (hsorted.imp Nat.le_of_lt)
  · exact pairwise_openJoints hs

/-- Restoring signs fails on a balanced text when, and only when, a logarithm has left out signs
before it and in its base. -/
theorem restoreTimes?_eq_none_iff (hs : balanced s = true) :
    restoreTimes? s = none ↔ SplitsBase s := by
  rw [← Option.not_isSome_iff_eq_none, isSome_restoreTimes?]
  constructor
  · intro hsorted
    refine Classical.byContradiction fun hbase => hsorted ?_
    exact (pairwise_openJoints hs hbase).imp Nat.le_of_lt
  · exact not_pairwise_openJoints

/-- The sign inside the base is missing at the sixth place, and the one before the logarithm at the
first. -/
example : openJoints "2log[3(x)](y)".toList = [6, 1] := by decide

end Formula.Reading
