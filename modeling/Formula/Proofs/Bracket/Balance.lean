import Formula.Bracket

/-!
# Balanced texts

What the test `balanced` says about depth, partners and enclosing parentheses. The test runs on a
stack of open brackets, so the lemmas speak of a text that empties such a stack, and a balanced text
is the case of the empty stack: it leaves every stack as it was (`balancedAfter_append`), its depth
is zero and that of its beginnings is never negative, and both counts for partners run across it. A
bracket thus finds its partner at the other end of the balanced text between them, and `strip` takes
off one pair of parentheses after the other (`strip_parenthesised`).
-/

namespace Formula.Bracket

/-- Does the text hold no bracket? -/
def Plain (s : List Char) : Prop :=
  ∀ c ∈ s, isOpening c = false ∧ isClosing c = false

/-- No bracket opens and closes. -/
theorem isClosing_of_isOpening {c : Char} (h : isOpening c = true) : isClosing c = false := by
  simp only [isOpening, Bool.or_eq_true, beq_iff_eq] at h
  rcases h with rfl | rfl <;> decide

/-! ## Depth -/

@[simp] theorem depth_nil : depth [] = 0 := rfl

@[simp] theorem depth_cons (c : Char) (s : List Char) : depth (c :: s) = rise c + depth s := rfl

/-- Depths add up along a text. -/
@[simp] theorem depth_append (s t : List Char) : depth (s ++ t) = depth s + depth t := by
  induction s with
  | nil => simp
  | cons c s ih => simp only [List.cons_append, depth_cons, ih]; omega

/-- An opening bracket leads one level deeper. -/
theorem rise_of_isOpening {c : Char} (h : isOpening c = true) : rise c = 1 := by
  simp [rise, h]

/-- A closing bracket leads one level back. -/
theorem rise_of_isClosing {c : Char} (h : isClosing c = true) : rise c = -1 := by
  have hc : isOpening c = false := by
    cases ho : isOpening c with
    | false => rfl
    | true => rw [isClosing_of_isOpening ho] at h; cases h
  simp [rise, hc, h]

/-- What is no bracket leaves the depth as it is. -/
theorem rise_of_plain {c : Char} (ho : isOpening c = false) (hc : isClosing c = false) :
    rise c = 0 := by
  simp [rise, ho, hc]

/-! ## The run of the test -/

/-- A text that empties a stack of open brackets leaves the brackets below as they were. -/
theorem balancedAfter_append {opened s : List Char} (h : balancedAfter opened s = true)
    (outer t : List Char) : balancedAfter (opened ++ outer) (s ++ t) = balancedAfter outer t := by
  induction s generalizing opened with
  | nil =>
    obtain rfl := List.isEmpty_iff.1 h
    rfl
  | cons c s ih =>
    simp only [List.cons_append, balancedAfter] at h ⊢
    by_cases ho : isOpening c = true
    · simp only [ho, if_true] at h ⊢
      exact ih h
    · by_cases hc : isClosing c = true
      · simp only [ho, hc, if_true, Bool.false_eq_true, if_false] at h ⊢
        cases opened with
        | nil => simp at h
        | cons o opened =>
          simp only [Bool.and_eq_true] at h
          simp only [List.cons_append, h.1, Bool.true_and]
          exact ih h.2
      · simp only [ho, hc, Bool.false_eq_true, if_false] at h ⊢
        exact ih h

/-- A balanced text in front leaves the test on the rest as it is. -/
theorem balanced_append {s : List Char} (h : balanced s = true) (t : List Char) :
    balanced (s ++ t) = balanced t :=
  balancedAfter_append h [] t

/-- Without brackets in the text, only the brackets still open decide. -/
theorem balancedAfter_plain {s : List Char} (h : Plain s) (opened : List Char) :
    balancedAfter opened s = opened.isEmpty := by
  induction s with
  | nil => rfl
  | cons c s ih =>
    obtain ⟨ho, hc⟩ := h c List.mem_cons_self
    simp only [balancedAfter, ho, hc, Bool.false_eq_true, if_false]
    exact ih fun d hd => h d (List.mem_cons_of_mem c hd)

/-- A text without brackets is balanced. -/
theorem balanced_of_plain {s : List Char} (h : Plain s) : balanced s = true :=
  balancedAfter_plain h []

/-- A character that is no bracket does not matter for the balance. -/
theorem balanced_cons_of_plain {c : Char} (ho : isOpening c = false) (hc : isClosing c = false)
    (s : List Char) : balanced (c :: s) = balanced s := by
  simp [balanced, balancedAfter, ho, hc]

/-- The depth of a text that empties a stack is minus the height of the stack. -/
theorem depth_of_balancedAfter {opened s : List Char} (h : balancedAfter opened s = true) :
    depth s = -(opened.length : Int) := by
  induction s generalizing opened with
  | nil =>
    obtain rfl := List.isEmpty_iff.1 h
    rfl
  | cons c s ih =>
    simp only [balancedAfter] at h
    by_cases ho : isOpening c = true
    · simp only [ho, if_true] at h
      simp only [depth_cons, rise_of_isOpening ho, ih h, List.length_cons]
      omega
    · by_cases hc : isClosing c = true
      · simp only [ho, hc, if_true, Bool.false_eq_true, if_false] at h
        cases opened with
        | nil => simp at h
        | cons o opened =>
          simp only [Bool.and_eq_true] at h
          simp only [depth_cons, rise_of_isClosing hc, ih h.2, List.length_cons]
          omega
      · simp only [ho, hc, Bool.false_eq_true, if_false] at h
        simp only [depth_cons, rise_of_plain (by simpa using ho) (by simpa using hc), ih h]
        omega

/-- A balanced text closes as many brackets as it opens. -/
theorem depth_of_balanced {s : List Char} (h : balanced s = true) : depth s = 0 :=
  depth_of_balancedAfter h

/-- The brackets that a beginning of the text leaves open are closed by the rest. -/
theorem exists_left {opened s t : List Char} (h : balancedAfter opened (s ++ t) = true) :
    ∃ left : List Char, (left.length : Int) = opened.length + depth s ∧
      balancedAfter left t = true ∧ (left = [] → balancedAfter opened s = true) := by
  induction s generalizing opened with
  | nil => exact ⟨opened, by simp, h, by rintro rfl; rfl⟩
  | cons c s ih =>
    simp only [List.cons_append, balancedAfter, depth_cons] at h ⊢
    by_cases ho : isOpening c = true
    · simp only [ho, if_true] at h ⊢
      obtain ⟨left, hlength, hleft, hs⟩ := ih h
      rw [List.length_cons] at hlength
      exact ⟨left, by rw [rise_of_isOpening ho]; omega, hleft, hs⟩
    · by_cases hc : isClosing c = true
      · simp only [ho, hc, if_true, Bool.false_eq_true, if_false] at h ⊢
        cases opened with
        | nil => simp at h
        | cons o opened =>
          obtain ⟨hcloser, h⟩ := Bool.and_eq_true_iff.1 h
          obtain ⟨left, hlength, hleft, hs⟩ := ih h
          exact ⟨left, by rw [rise_of_isClosing hc, List.length_cons]; omega, hleft,
            fun hnil => by simp [hcloser, hs hnil]⟩
      · simp only [ho, hc, Bool.false_eq_true, if_false] at h ⊢
        obtain ⟨left, hlength, hleft, hs⟩ := ih h
        exact ⟨left, by rw [rise_of_plain (by simpa using ho) (by simpa using hc)]; omega, hleft,
          hs⟩

/-- No beginning of a text that empties a stack closes more than the stack holds. -/
theorem depth_beginning {opened s t : List Char} (h : balancedAfter opened (s ++ t) = true) :
    -(opened.length : Int) ≤ depth s := by
  obtain ⟨left, hlength, -, -⟩ := exists_left h
  omega

/-- A balanced text nowhere closes more brackets than it has opened. -/
theorem depth_beginning_of_balanced {s t : List Char} (h : balanced (s ++ t) = true) :
    0 ≤ depth s := by
  simpa using depth_beginning h

/-- A balanced text comes apart into balanced texts outside its brackets. -/
theorem balanced_of_append {s t : List Char} (h : balanced (s ++ t) = true) (hd : depth s = 0) :
    balanced s = true ∧ balanced t = true := by
  obtain ⟨left, hlength, hleft, hs⟩ := exists_left h
  obtain rfl : left = [] := List.eq_nil_of_length_eq_zero (by simpa [hd] using hlength)
  exact ⟨hs rfl, hleft⟩

/-! ## Groups -/

/-- The partner of an opening bracket closes and does not open. -/
theorem isOpening_closer {o : Char} (ho : isOpening o = true) :
    isOpening (closer o) = false ∧ isClosing (closer o) = true := by
  simp only [isOpening, Bool.or_eq_true, beq_iff_eq] at ho
  rcases ho with rfl | rfl <;> decide

/-- A group is balanced with what it encloses. -/
theorem balancedAfter_group {o : Char} {m : List Char} (ho : isOpening o = true)
    (hm : balanced m = true) (opened rest : List Char) :
    balancedAfter opened (o :: m ++ closer o :: rest) = balancedAfter opened rest := by
  have hc := isOpening_closer ho
  simp only [List.cons_append, balancedAfter, ho, if_true]
  rw [show balancedAfter (o :: opened) (m ++ closer o :: rest)
      = balancedAfter (o :: opened) (closer o :: rest) from balancedAfter_append hm (o :: opened) _]
  simp [balancedAfter, hc.1, hc.2]

/-- A group in front of a text does not matter for its balance. -/
theorem balanced_group {o : Char} {m : List Char} (ho : isOpening o = true) (hm : balanced m = true)
    (rest : List Char) : balanced (o :: m ++ closer o :: rest) = balanced rest :=
  balancedAfter_group ho hm [] rest

/-- A text that empties a stack closes its innermost bracket behind a balanced text. -/
theorem exists_closing {o : Char} {outer s : List Char} (h : balancedAfter (o :: outer) s = true) :
    ∃ m rest, s = m ++ closer o :: rest ∧ balanced m = true ∧ balancedAfter outer rest = true := by
  -- The stack shrinks and grows on the way, so the induction is on the length of the text.
  induction hn : s.length using Nat.strongRecOn generalizing o outer s with
  | ind n ih =>
    cases s with
    | nil => simp [balancedAfter] at h
    | cons c s =>
      simp only [balancedAfter] at h
      by_cases ho : isOpening c = true
      · simp only [ho, if_true] at h
        obtain ⟨m₁, r₁, rfl, hm₁, h₁⟩ := ih s.length (by simp at hn; omega) h rfl
        obtain ⟨m₂, r₂, rfl, hm₂, h₂⟩ := ih r₁.length (by simp at hn; omega) h₁ rfl
        refine ⟨c :: m₁ ++ closer c :: m₂, r₂, by simp, ?_, h₂⟩
        rw [balanced_group ho hm₁, hm₂]
      · by_cases hc : isClosing c = true
        · simp only [ho, hc, if_true, Bool.false_eq_true, if_false, Bool.and_eq_true,
            beq_iff_eq] at h
          obtain ⟨rfl, h⟩ := h
          exact ⟨[], s, rfl, rfl, h⟩
        · simp only [ho, hc, Bool.false_eq_true, if_false] at h
          obtain ⟨m, r, rfl, hm, h⟩ := ih s.length (by simp at hn; omega) h rfl
          refine ⟨c :: m, r, rfl, ?_, h⟩
          rwa [balanced_cons_of_plain (by simpa using ho) (by simpa using hc)]

/-- In a balanced text every closing bracket has its opening one before it, with a balanced text
between. -/
theorem exists_opening {a b : List Char} {c : Char} (h : balanced (a ++ c :: b) = true)
    (hc : isClosing c = true) :
    ∃ t o m, a = t ++ o :: m ∧ isOpening o = true ∧ closer o = c ∧ balanced m = true := by
  -- The first group is skipped or entered, so the induction is on the length of the text.
  induction hn : a.length using Nat.strongRecOn generalizing a b with
  | ind n ih =>
    cases a with
    | nil =>
      have hopening : isOpening c = false := by
        rw [Bool.eq_false_iff]
        intro ho
        rw [isClosing_of_isOpening ho] at hc
        cases hc
      simp [balanced, balancedAfter, hopening, hc] at h
    | cons x a =>
      rw [List.length_cons] at hn
      by_cases hx : isOpening x = true
      · have hopen : balancedAfter [x] (a ++ c :: b) = true := by
          simpa [balanced, balancedAfter, hx] using h
        obtain ⟨m, rest, hm, hbalanced, hrest⟩ := exists_closing hopen
        -- The group that opens here ends at the bracket, beyond it or before it.
        rcases List.append_eq_append_iff.1 hm with ⟨w, rfl, hw⟩ | ⟨w, rfl, hw⟩
        · cases w with
          | nil =>
            obtain ⟨hcloser, -⟩ := List.cons.inj hw
            exact ⟨[], x, a, rfl, hx, hcloser.symm, by simpa using hbalanced⟩
          | cons y w =>
            obtain ⟨rfl, -⟩ := List.cons.inj hw
            obtain ⟨t, o, m, rfl, ho⟩ := ih a.length (by omega) hbalanced rfl
            exact ⟨x :: t, o, m, rfl, ho⟩
        · cases w with
          | nil =>
            obtain ⟨hcloser, -⟩ := List.cons.inj hw
            exact ⟨[], x, m, by simp, hx, hcloser, hbalanced⟩
          | cons y w =>
            obtain ⟨-, rfl⟩ := List.cons.inj hw
            rw [List.length_append, List.length_cons] at hn
            obtain ⟨t, o, l, rfl, ho⟩ := ih w.length (by omega) hrest rfl
            exact ⟨x :: m ++ y :: t, o, l, by simp, ho⟩
      · by_cases hx' : isClosing x = true
        · simp [balanced, balancedAfter, hx, hx'] at h
        · have hplain : balanced (a ++ c :: b) = true := by
            rwa [List.cons_append, balanced_cons_of_plain (by simpa using hx)
              (by simpa using hx')] at h
          obtain ⟨t, o, m, rfl, ho⟩ := ih a.length (by omega) hplain rfl
          exact ⟨x :: t, o, m, rfl, ho⟩

/-! ## Partners -/

/-- The count for a closing partner runs across a text that empties a stack. -/
theorem fallsToZero_append {opened s : List Char} (h : balancedAfter opened s = true) {n : Nat}
    (hn : 1 ≤ n) (t : List Char) :
    fallsToZero isOpening isClosing (n + opened.length) (s ++ t)
      = (fallsToZero isOpening isClosing n t).map (· + s.length) := by
  induction s generalizing opened with
  | nil =>
    obtain rfl := List.isEmpty_iff.1 h
    simp
  | cons c s ih =>
    simp only [balancedAfter] at h
    simp only [List.cons_append, fallsToZero]
    by_cases ho : isOpening c = true
    · simp only [ho, if_true] at h ⊢
      have := ih h
      simp only [List.length_cons] at this ⊢
      rw [Nat.add_assoc, this, Option.map_map]
      rfl
    · by_cases hc : isClosing c = true
      · simp only [ho, hc, if_true, Bool.false_eq_true, if_false] at h ⊢
        cases opened with
        | nil => simp at h
        | cons o opened =>
          simp only [Bool.and_eq_true] at h
          have := ih h.2
          rw [if_neg (by simp; omega), List.length_cons, Nat.add_sub_assoc (by omega)]
          simp only [Nat.add_sub_cancel, this, Option.map_map]
          rfl
      · simp only [ho, hc, Bool.false_eq_true, if_false] at h ⊢
        rw [ih h, Option.map_map]
        rfl

/-- The count for an opening partner runs backward across a text that empties a stack, whose
brackets it then still waits for. -/
theorem fallsToZero_reverse_append {opened s : List Char} (h : balancedAfter opened s = true)
    {n : Nat} (hn : 1 ≤ n) (t : List Char) :
    fallsToZero isClosing isOpening n (s.reverse ++ t)
      = (fallsToZero isClosing isOpening (n + opened.length) t).map (· + s.length) := by
  induction s generalizing opened t with
  | nil =>
    obtain rfl := List.isEmpty_iff.1 h
    simp
  | cons c s ih =>
    simp only [balancedAfter] at h
    rw [List.reverse_cons, List.append_assoc, List.singleton_append]
    by_cases ho : isOpening c = true
    · simp only [ho, if_true] at h
      rw [ih h]
      simp only [fallsToZero, isClosing_of_isOpening ho, ho, if_true, Bool.false_eq_true, if_false]
      rw [if_neg (by simp; omega), List.length_cons, Nat.add_sub_assoc (by omega), Option.map_map]
      simp only [Nat.add_sub_cancel]
      congr 1
      funext i
      simp only [Function.comp, List.length_cons]
      omega
    · by_cases hc : isClosing c = true
      · simp only [ho, hc, if_true, Bool.false_eq_true, if_false] at h
        cases opened with
        | nil => simp at h
        | cons o opened =>
          simp only [Bool.and_eq_true] at h
          rw [ih h.2]
          simp only [fallsToZero, hc, if_true, Option.map_map, List.length_cons, Nat.add_assoc]
          congr 1
          funext i
          simp only [Function.comp]
          omega
      · simp only [ho, hc, Bool.false_eq_true, if_false] at h
        rw [ih h]
        simp only [fallsToZero, ho, hc, Bool.false_eq_true, if_false, Option.map_map]
        congr 1
        funext i
        simp only [Function.comp, List.length_cons]
        omega

/-- The partner of a bracket stands behind the balanced text between them. -/
theorem groupEnd?_group {o : Char} {m : List Char} (ho : isOpening o = true)
    (hm : balanced m = true) (rest : List Char) :
    groupEnd? (o :: m ++ closer o :: rest) = some (m.length + 1) := by
  have hc := isOpening_closer ho
  have hrun := fallsToZero_append hm (Nat.le_refl 1) (closer o :: rest)
  simp only [List.length_nil, Nat.add_zero] at hrun
  simp only [groupEnd?, List.cons_append, ho, if_true, fallsToZero, Nat.zero_add, hrun]
  simp [hc.1, hc.2]

/-- Read backward, the partner of a bracket stands behind the balanced text between them. -/
theorem groupStart?_group {o : Char} {m : List Char} (ho : isOpening o = true)
    (hm : balanced m = true) (t : List Char) :
    groupStart? (closer o :: m.reverse ++ o :: t) = some (m.length + 1) := by
  have hc := isOpening_closer ho
  have hrun := fallsToZero_reverse_append hm (Nat.le_refl 1) (o :: t)
  simp only [List.length_nil, Nat.add_zero] at hrun
  simp only [groupStart?, List.cons_append, hc.2, if_true, fallsToZero, Nat.zero_add, hrun]
  simp [isClosing_of_isOpening ho, ho]

/-- A group in front is split off whole. -/
theorem splitGroup?_group {o : Char} {m : List Char} (ho : isOpening o = true)
    (hm : balanced m = true) (rest : List Char) :
    splitGroup? (o :: m ++ closer o :: rest) = some (o :: m ++ [closer o], rest) := by
  have hs : o :: m ++ closer o :: rest = (o :: m ++ [closer o]) ++ rest := by simp
  rw [splitGroup?, groupEnd?_group ho hm, Option.map_some, hs, List.splitAt_eq]
  rw [List.take_left' (by simp), List.drop_left' (by simp)]

/-- A group at the end is split off whole. -/
theorem splitLastGroup?_group {o : Char} {m : List Char} (ho : isOpening o = true)
    (hm : balanced m = true) (t : List Char) :
    splitLastGroup? (t ++ (o :: m ++ [closer o])) = some (t, o :: m ++ [closer o]) := by
  have hreverse : (t ++ (o :: m ++ [closer o])).reverse =
    closer o :: m.reverse ++ o :: t.reverse := by simp
  have hplace : (t ++ (o :: m ++ [closer o])).length - 1 - (m.length + 1) = t.length := by
    simp only [List.length_append, List.length_cons, List.length_nil]
    omega
  rw [splitLastGroup?, hreverse, groupStart?_group ho hm, Option.map_some, hplace, List.splitAt_eq]
  rw [List.take_left' rfl, List.drop_left' rfl]

/-- More text behind does not move a partner that has been found. -/
theorem fallsToZero_append_right {up down : Char → Bool} {n i : Nat} {s : List Char}
    (h : fallsToZero up down n s = some i) (t : List Char) :
    fallsToZero up down n (s ++ t) = some i := by
  induction s generalizing n i with
  | nil => simp [fallsToZero] at h
  | cons c s ih =>
    simp only [List.cons_append, fallsToZero] at h ⊢
    split at h
    · obtain ⟨j, hj, rfl⟩ := Option.map_eq_some_iff.1 h
      simp_all
    · split at h
      · split at h
        · simp_all
        · obtain ⟨j, hj, rfl⟩ := Option.map_eq_some_iff.1 h
          simp_all
      · obtain ⟨j, hj, rfl⟩ := Option.map_eq_some_iff.1 h
        simp_all

/-- Where a last group opens does not depend on what stands before it. -/
theorem groupStart?_append_right {i : Nat} {s : List Char} (h : groupStart? s = some i)
    (t : List Char) : groupStart? (s ++ t) = some i := by
  cases s with
  | nil => simp [groupStart?] at h
  | cons c s =>
    simp only [groupStart?, Option.ite_none_right_eq_some] at h
    have := fallsToZero_append_right h.2 t
    simpa only [groupStart?, List.cons_append, h.1, if_true] using this

/-- A backward count that never falls to zero has passed fewer opening brackets than it waits
for. -/
theorem depth_lt_of_fallsToZero_eq_none {n : Nat} {s : List Char} (hn : 1 ≤ n)
    (h : fallsToZero isClosing isOpening n s = none) : depth s.reverse < n := by
  induction s generalizing n with
  | nil => simp; omega
  | cons c s ih =>
    simp only [fallsToZero] at h
    simp only [List.reverse_cons, depth_append, depth_cons, depth_nil]
    by_cases hc : isClosing c = true
    · simp only [hc, if_true, Option.map_eq_none_iff] at h
      have := ih (by omega) h
      rw [rise_of_isClosing hc]
      omega
    · by_cases ho : isOpening c = true
      · simp only [hc, ho, Bool.false_eq_true, if_false, if_true] at h
        split at h
        · simp at h
        · have := ih (by omega) (Option.map_eq_none_iff.1 h)
          rw [rise_of_isOpening ho]
          omega
      · simp only [hc, ho, Bool.false_eq_true, if_false, Option.map_eq_none_iff] at h
        have := ih hn h
        rw [rise_of_plain (by simpa using ho) (by simpa using hc)]
        omega

/-- In a balanced text every closing bracket has an opening one before it. -/
theorem exists_groupStart? {a b : List Char} {c : Char} (h : balanced (a ++ c :: b) = true)
    (hc : isClosing c = true) : ∃ i, groupStart? (c :: a.reverse) = some i := by
  rw [← Option.isSome_iff_exists, Option.isSome_iff_ne_none]
  intro hnone
  simp only [groupStart?, hc, if_true, fallsToZero, Nat.zero_add, Option.map_eq_none_iff] at hnone
  have hlt := depth_lt_of_fallsToZero_eq_none (Nat.le_refl 1) hnone
  have hle : 0 ≤ depth (a ++ [c]) := depth_beginning_of_balanced (t := b) (by simpa using h)
  simp only [List.reverse_reverse] at hlt
  simp only [depth_append, depth_cons, depth_nil, rise_of_isClosing hc] at hle
  omega

/-! ## Enclosing parentheses -/

/-- A text between parentheses. -/
def parenthesised (m : List Char) : List Char :=
  '(' :: m ++ [')']

/-- A balanced text stays so between parentheses. -/
theorem balanced_parenthesised {m : List Char} (h : balanced m = true) :
    balanced (parenthesised m) = true :=
  balanced_group (o := '(') rfl h []

/-- Parentheses around a balanced text enclose it. -/
theorem enclosed?_parenthesised {m : List Char} (h : balanced m = true) :
    enclosed? (parenthesised m) = some m := by
  have := groupEnd?_group (o := '(') rfl h []
  simp only [show closer '(' = ')' from rfl] at this
  simp only [enclosed?, parenthesised, List.cons_append] at this ⊢
  simp [this]

/-- A balanced text is enclosed only when it is a balanced text between parentheses. -/
theorem eq_parenthesised_of_enclosed? {s m : List Char} (hs : balanced s = true)
    (h : enclosed? s = some m) : s = parenthesised m ∧ balanced m = true := by
  cases s with
  | nil => simp [enclosed?] at h
  | cons c s =>
    simp only [enclosed?, Option.ite_none_right_eq_some, Option.some.injEq] at h
    obtain ⟨⟨rfl, hend⟩, hm⟩ := h
    have hopen : balancedAfter ['('] s = true := hs
    obtain ⟨n, rest, rfl, hn, -⟩ := exists_closing hopen
    have hgroup := groupEnd?_group (o := '(') rfl hn rest
    rw [List.cons_append, hend] at hgroup
    obtain rfl : rest = [] := by
      simp only [List.length_append, List.length_cons, Option.some.injEq] at hgroup
      exact List.eq_nil_of_length_eq_zero (by omega)
    obtain rfl : n = m := by simpa using hm
    exact ⟨rfl, hn⟩

/-- Where nothing is enclosed, nothing is taken off. -/
theorem strip_of_enclosed?_eq_none {s : List Char} (h : enclosed? s = none) : strip s = s := by
  rw [strip]
  split
  next t ht => rw [h] at ht; cases ht
  · rfl

/-- Parentheses around a balanced text are taken off first. -/
theorem strip_parenthesised {m : List Char} (h : balanced m = true) :
    strip (parenthesised m) = strip m := by
  rw [strip]
  split
  next t ht =>
    have hm := enclosed?_parenthesised h
    rw [ht, Option.some.injEq] at hm
    exact congrArg strip hm
  next hnone => rw [enclosed?_parenthesised h] at hnone; cases hnone

/-- What holds of a stripped text and passes on to texts between parentheses holds of the whole
text. -/
theorem of_strip {P : List Char → Prop} (step : ∀ m, balanced m = true → P m → P (parenthesised m))
    {s : List Char} (hs : balanced s = true) (h : P (strip s)) : P s := by
  fun_induction strip s with
  | case1 s m hm _ ih =>
    obtain ⟨rfl, hbal⟩ := eq_parenthesised_of_enclosed? hs hm
    exact step m hbal (ih hbal h)
  | case2 s _ => exact h

/-- Taking off enclosing parentheses keeps a text balanced. -/
theorem balanced_strip {s : List Char} (hs : balanced s = true) : balanced (strip s) = true := by
  fun_induction strip s with
  | case1 s m hm _ ih => exact ih (eq_parenthesised_of_enclosed? hs hm).2
  | case2 s _ => exact hs

/-- When the enclosing parentheses are off, nothing is enclosed any more. -/
theorem enclosed?_strip (s : List Char) : enclosed? (strip s) = none := by
  fun_induction strip s with
  | case1 s m _ _ ih => exact ih
  | case2 s h => exact h

/-- A text with a place outside brackets behind its beginning is not enclosed. -/
theorem enclosed?_eq_none_of_depth {a b : List Char} {c : Char} (h : balanced (a ++ c :: b) = true)
    (ha : a ≠ []) (hd : depth a = 0) : enclosed? (a ++ c :: b) = none := by
  rw [Option.eq_none_iff_forall_ne_some]
  intro m hm
  obtain ⟨hs, hbal⟩ := eq_parenthesised_of_enclosed? h hm
  obtain ⟨o, a, rfl⟩ := List.exists_cons_of_ne_nil ha
  -- What follows the parenthesis before the place is a beginning of the text inside.
  simp only [parenthesised, List.cons_append, List.cons.injEq] at hs
  obtain ⟨rfl, hs⟩ := hs
  obtain ⟨b', hb'⟩ : ∃ b', m = a ++ b' := by
    rcases List.eq_nil_or_concat b with rfl | ⟨b', d, rfl⟩
    · exact ⟨[], by simpa using (List.append_inj_left' hs rfl).symm⟩
    · have hlast : m ++ [')'] = (a ++ c :: b') ++ [d] := by simpa using hs.symm
      exact ⟨c :: b', List.append_inj_left' hlast rfl⟩
  have := depth_beginning_of_balanced (t := b') (hb' ▸ hbal)
  simp only [depth_cons, show rise '(' = 1 from rfl] at hd
  omega

/-- Only a text that begins with a parenthesis can enclose anything. -/
theorem enclosed?_eq_none_of_ne {c : Char} (h : c ≠ '(') (s : List Char) :
    enclosed? (c :: s) = none := by
  simp [enclosed?, h]

end Formula.Bracket
