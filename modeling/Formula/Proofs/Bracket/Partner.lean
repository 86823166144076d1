import Formula.Proofs.Bracket.Count

/-!
# Partners

The scans for partners count brackets of either kind alike, so what they find is told by counts too:
between a bracket and its partner as many brackets close as open, and never more on the way
(`Level`). This holds whichever bracket a scan starts from and on texts that are not balanced, so
both scans find the same pairs (`partner?_eq_some_iff`, `partnerBack?_eq_some_iff`). In a balanced
text partners are of one kind. In other texts they need not be, and `strip`, which looks for a
parenthesis at the beginning only, then takes off a closing square bracket as well
(`partners_and_strip`).
-/

namespace Formula.Bracket

variable {s t m : List Char} {i j n : Nat}

/-! ## Level texts -/

/-- Do as many brackets close as open, of whatever kinds, and never more on the way? -/
structure Level (m : List Char) : Prop where
  depth_eq : depth m = 0
  depth_nonneg : ∀ t, t <+: m → 0 ≤ depth t

/-- Read backward, a text opens and closes as many brackets. -/
theorem depth_reverse (s : List Char) : depth s.reverse = depth s := by
  induction s with
  | nil => rfl
  | cons c s ih =>
    rw [List.reverse_cons, depth_append, ih, depth_cons, depth_cons, depth_nil]
    omega

/-- Read backward, a level text never opens more brackets than it has closed. -/
theorem level_reverse_iff : Level m.reverse ↔ depth m = 0 ∧ ∀ t, t <+: m → depth t ≤ 0 := by
  constructor
  · rintro ⟨hsum, hnonneg⟩
    rw [depth_reverse] at hsum
    refine ⟨hsum, ?_⟩
    rintro t ⟨u, rfl⟩
    have hu := hnonneg u.reverse ⟨t.reverse, by rw [List.reverse_append]⟩
    rw [depth_reverse] at hu
    rw [depth_append] at hsum
    omega
  · rintro ⟨hsum, hnonpos⟩
    refine ⟨by rw [depth_reverse, hsum], ?_⟩
    rintro t ⟨u, htu⟩
    have hm : m = u.reverse ++ t.reverse := by rw [← List.reverse_append, htu, List.reverse_reverse]
    have hu := hnonpos u.reverse ⟨t.reverse, hm.symm⟩
    rw [hm, depth_append, depth_reverse t] at hsum
    omega

/-- A balanced text is level. -/
theorem level_of_balanced (h : balanced m = true) : Level m where
  depth_eq := depth_of_balanced h
  depth_nonneg := by
    rintro t ⟨u, rfl⟩
    exact depth_beginning_of_balanced h

/-! ## Counts -/

section
variable {up down : Char → Bool} {d : List Char → Int} {c : Char}

/-- Does a count that starts from `n` and rises by `d` over a text come to zero at the place, and
not before? -/
def FallsAt (up down : Char → Bool) (d : List Char → Int) (n : Int) (s : List Char) (i : Nat) :
    Prop :=
  ∃ m c rest, s = m ++ c :: rest ∧ m.length = i ∧ up c = false ∧ down c = true ∧ n + d m = 1 ∧
    ∀ t, t <+: m → 1 ≤ n + d t

/-- Whether a count falls to zero at a place is told by the first character, or else by the rest. -/
theorem fallsAt_cons {n : Int} (hnil : d [] = 0)
    (hcons : ∀ c t, d (c :: t) = (if up c then 1 else if down c then -1 else 0) + d t)
    (hn : 1 ≤ n) :
    FallsAt up down d n (c :: s) i ↔ (i = 0 ∧ n = 1 ∧ up c = false ∧ down c = true) ∨
      ∃ j, j + 1 = i ∧
      FallsAt up down d (n + if up c then 1 else if down c then -1 else 0) s j := by
  constructor
  · rintro ⟨m, e, rest, hs, rfl, hup, hdown, hsum, hlow⟩
    cases m with
    | nil =>
      obtain ⟨rfl, rfl⟩ := List.cons.inj hs
      exact .inl ⟨rfl, by rw [hnil] at hsum; omega, hup, hdown⟩
    | cons e' m =>
      obtain ⟨rfl, rfl⟩ := List.cons.inj hs
      rw [forall_prefix_cons] at hlow
      refine .inr ⟨m.length, rfl, m, e, rest, rfl, rfl, hup, hdown, ?_, fun t ht => ?_⟩
      · rw [hcons] at hsum
        omega
      · have := hlow.2 t ht
        rw [hcons] at this
        omega
  · rintro (⟨rfl, rfl, hup, hdown⟩ | ⟨j, rfl, m, e, rest, rfl, rfl, hup, hdown, hsum, hlow⟩)
    · refine ⟨[], c, s, rfl, rfl, hup, hdown, by rw [hnil]; omega, fun t ht => ?_⟩
      rw [List.prefix_nil.1 ht, hnil]
      omega
    · refine ⟨c :: m, e, rest, rfl, rfl, hup, hdown, by rw [hcons]; omega,
        forall_prefix_cons.2 ⟨?_, fun t ht => ?_⟩⟩
      · rw [hnil]
        omega
      · have := hlow t ht
        rw [hcons]
        omega

/-- The count of the scans ends where it comes to zero. -/
theorem fallsToZero_eq_some_iff (hnil : d [] = 0)
    (hcons : ∀ c t, d (c :: t) = (if up c then 1 else if down c then -1 else 0) + d t)
    (hn : 1 ≤ n) :
    fallsToZero up down n s = some i ↔ FallsAt up down d n s i := by
  induction s generalizing n i with
  | nil => simp [fallsToZero, FallsAt]
  | cons c s ih =>
    have hbehind : ∀ k : Nat, 1 ≤ k → ((fallsToZero up down k s).map (· + 1) = some i ↔
        ∃ j, j + 1 = i ∧ FallsAt up down d k s j) := by
      intro k hk
      simp only [Option.map_eq_some_iff, ih hk, and_comm]
    rw [fallsToZero, fallsAt_cons hnil hcons (by omega)]
    cases hup : up c with
    | true => simpa using hbehind (n + 1) (by omega)
    | false =>
      cases hdown : down c with
      | false => simpa using hbehind n hn
      | true =>
        simp only [Bool.false_eq_true, if_false, if_true, and_true]
        rcases Nat.eq_or_lt_of_le hn with rfl | hone
        · rw [if_pos (Nat.le_refl 1)]
          constructor
          · intro h
            exact .inl ⟨(Option.some.inj h).symm, rfl⟩
          · rintro (⟨rfl, -⟩ | ⟨j, -, m, e, rest, -, -, -, -, -, hlow⟩)
            · rfl
            · -- The count does not go on from zero.
              have := hlow [] List.nil_prefix
              rw [hnil] at this
              omega
        · have hcast : ((n - 1 : Nat) : Int) = n + -1 := by omega
          rw [if_neg (by omega), hbehind (n - 1) (by omega), hcast]
          exact ⟨.inr, fun h => h.resolve_left (by omega)⟩

end

/-! ## Groups of either kind -/

/-- No bracket both opens and closes. -/
theorem not_isOpening_of_isClosing {c : Char} (h : isClosing c = true) : isOpening c = false := by
  rw [Bool.eq_false_iff]
  intro ho
  rw [isClosing_of_isOpening ho] at h
  cases h

/-- The count of a scan backward rises where the depth falls. -/
theorem neg_depth_cons (c : Char) (t : List Char) :
    -depth (c :: t) = (if isClosing c then 1 else if isOpening c then -1 else 0) + -depth t := by
  rw [depth_cons, rise]
  cases ho : isOpening c with
  | true =>
    simp only [isClosing_of_isOpening ho, if_true, Bool.false_eq_true, if_false]
    omega
  | false =>
    cases hc : isClosing c with
    | true =>
      simp only [if_true, Bool.false_eq_true, if_false]
      omega
    | false =>
      simp only [Bool.false_eq_true, if_false]
      omega

/-- Behind an opening bracket the count forward ends at the closing bracket behind a level text. -/
theorem fallsToZero_opening_iff : fallsToZero isOpening isClosing 1 s = some i ↔
    ∃ m c rest, s = m ++ c :: rest ∧ isClosing c = true ∧ Level m ∧ i = m.length := by
  rw [fallsToZero_eq_some_iff (d := depth) rfl (fun _ _ => rfl) (Nat.le_refl 1)]
  constructor
  · rintro ⟨m, c, rest, rfl, rfl, -, hc, hsum, hlow⟩
    refine ⟨m, c, rest, rfl, hc, ⟨by omega, fun t ht => ?_⟩, rfl⟩
    have := hlow t ht
    omega
  · rintro ⟨m, c, rest, rfl, hc, hm, rfl⟩
    refine ⟨m, c, rest, rfl, rfl, not_isOpening_of_isClosing hc, hc, by rw [hm.depth_eq]; rfl,
      fun t ht => ?_⟩
    have := hm.depth_nonneg t ht
    omega

/-- Before a closing bracket the count backward ends at the opening bracket before a level text. -/
theorem fallsToZero_closing_iff : fallsToZero isClosing isOpening 1 s = some i ↔
    ∃ m o rest, s = m.reverse ++ o :: rest ∧ isOpening o = true ∧ Level m ∧ i = m.length := by
  rw [fallsToZero_eq_some_iff (d := fun t => -depth t) rfl neg_depth_cons (Nat.le_refl 1)]
  constructor
  · rintro ⟨m, o, rest, rfl, rfl, -, ho, hsum, hlow⟩
    refine ⟨m.reverse, o, rest, by simp, ho, level_reverse_iff.2 ⟨?_, fun t ht => ?_⟩, by simp⟩
    · dsimp only at hsum
      omega
    · have := hlow t ht
      dsimp only at this
      omega
  · rintro ⟨m, o, rest, rfl, ho, hm, rfl⟩
    rw [← List.reverse_reverse m, level_reverse_iff] at hm
    refine ⟨m.reverse, o, rest, rfl, by simp, isClosing_of_isOpening ho, ho, ?_, fun t ht => ?_⟩
    · dsimp only
      omega
    · have := hm.2 t ht
      dsimp only
      omega

/-! ## Places of partners -/

/-- Do brackets that open and close a level text stand at the two places? -/
def ArePartners (s : List Char) (i j : Nat) : Prop :=
  ∃ a o m c b, s = a ++ (o :: m ++ c :: b) ∧ isOpening o = true ∧ isClosing c = true ∧ Level m ∧
    i = a.length ∧ j = a.length + (m.length + 1)

/-- A group with which a text begins ends at the first closing bracket behind a level text. -/
theorem groupEnd?_eq_some_iff :
    groupEnd? s = some n ↔ ∃ o m c b, s = o :: m ++ c :: b ∧ isOpening o = true ∧
    isClosing c = true ∧ Level m ∧ n = m.length + 1 := by
  cases s with
  | nil => simp [groupEnd?]
  | cons o s =>
    rw [groupEnd?, Option.ite_none_right_eq_some]
    constructor
    · rintro ⟨ho, h⟩
      simp only [fallsToZero, ho, if_true, Nat.zero_add, Option.map_eq_some_iff,
        fallsToZero_opening_iff] at h
      obtain ⟨_, ⟨m, c, b, rfl, hc, hm, rfl⟩, rfl⟩ := h
      exact ⟨o, m, c, b, rfl, ho, hc, hm, rfl⟩
    · rintro ⟨o', m, c, b, hs, ho, hc, hm, rfl⟩
      rw [List.cons_append] at hs
      obtain ⟨rfl, rfl⟩ := List.cons.inj hs
      have hend := fallsToZero_opening_iff.2 ⟨m, c, b, rfl, hc, hm, rfl⟩
      refine ⟨ho, ?_⟩
      simp only [fallsToZero, ho, if_true, Nat.zero_add, hend, Option.map_some]

/-- A group with which a text ends begins at the last opening bracket before a level text. -/
theorem groupStart?_eq_some_iff : groupStart? s = some n ↔ ∃ c m o a, s = c :: m.reverse ++ o :: a ∧
    isOpening o = true ∧ isClosing c = true ∧ Level m ∧ n = m.length + 1 := by
  cases s with
  | nil => simp [groupStart?]
  | cons c s =>
    rw [groupStart?, Option.ite_none_right_eq_some]
    constructor
    · rintro ⟨hc, h⟩
      simp only [fallsToZero, hc, if_true, Nat.zero_add, Option.map_eq_some_iff,
        fallsToZero_closing_iff] at h
      obtain ⟨_, ⟨m, o, a, rfl, ho, hm, rfl⟩, rfl⟩ := h
      exact ⟨c, m, o, a, rfl, ho, hc, hm, rfl⟩
    · rintro ⟨c', m, o, a, hs, ho, hc, hm, rfl⟩
      rw [List.cons_append] at hs
      obtain ⟨rfl, rfl⟩ := List.cons.inj hs
      have hstart := fallsToZero_closing_iff.2 ⟨m, o, a, rfl, ho, hm, rfl⟩
      refine ⟨hc, ?_⟩
      simp only [fallsToZero, hc, if_true, Nat.zero_add, hstart, Option.map_some]

/-- The search forward from a place finds its partner and nothing else. -/
theorem partner?_eq_some_iff : partner? s i = some j ↔ ArePartners s i j := by
  rw [partner?, Option.map_eq_some_iff]
  constructor
  · rintro ⟨_, hn, rfl⟩
    obtain ⟨o, m, c, b, hdrop, ho, hc, hm, rfl⟩ := groupEnd?_eq_some_iff.1 hn
    have hlength := congrArg List.length hdrop
    rw [List.length_drop, List.cons_append, List.length_cons] at hlength
    refine ⟨s.take i, o, m, c, b, by rw [← hdrop, List.take_append_drop], ho, hc, hm, ?_, ?_⟩
    · rw [List.length_take]
      omega
    · rw [List.length_take]
      omega
  · rintro ⟨a, o, m, c, b, rfl, ho, hc, hm, rfl, rfl⟩
    exact ⟨m.length + 1, groupEnd?_eq_some_iff.2 ⟨o, m, c, b, List.drop_left, ho, hc, hm, rfl⟩, rfl⟩

/-- The search backward from a place finds its partner and nothing else. -/
theorem partnerBack?_eq_some_iff : partnerBack? s j = some i ↔ ArePartners s i j := by
  rw [partnerBack?, Option.ite_none_right_eq_some, Option.map_eq_some_iff]
  constructor
  · rintro ⟨hj, _, hn, rfl⟩
    obtain ⟨c, m, o, a, hback, ho, hc, hm, rfl⟩ := groupStart?_eq_some_iff.1 hn
    have htake : s.take (j + 1) = a.reverse ++ o :: m ++ [c] := by
      simpa using congrArg List.reverse hback
    have hlength := congrArg List.length htake
    simp only [List.length_take, List.length_append, List.length_reverse, List.length_cons,
      List.length_nil] at hlength
    refine ⟨a.reverse, o, m, c, s.drop (j + 1), ?_, ho, hc, hm, ?_, ?_⟩
    · have htext := List.take_append_drop (j + 1) s
      rw [htake] at htext
      simpa using htext.symm
    · rw [List.length_reverse]
      omega
    · rw [List.length_reverse]
      omega
  · rintro ⟨a, o, m, c, b, rfl, ho, hc, hm, rfl, rfl⟩
    have htake : (a ++ (o :: m ++ c :: b)).take (a.length + (m.length + 1) + 1) =
      a ++ o :: m ++ [c] := by
      rw [show a ++ (o :: m ++ c :: b) = a ++ o :: m ++ [c] ++ b by simp]
      exact List.take_left' (by simp; omega)
    refine ⟨by simp, m.length + 1, groupStart?_eq_some_iff.2 ⟨c, m, o, a.reverse, ?_, ho, hc, hm,
      rfl⟩, by omega⟩
    rw [htake]
    simp

/-- In a balanced text an opening bracket has a partner of its kind, with a balanced text
between. -/
theorem exists_partner {o : Char} (hs : balanced s = true) (hi : s[i]? = some o)
    (ho : isOpening o = true) :
    ∃ j, partner? s i = some j ∧ s[j]? = some (closer o) ∧
      balanced ((s.take j).drop (i + 1)) = true ∧ depth (s.take j) = depth (s.take i) + 1 := by
  obtain ⟨hlt, rfl⟩ := List.getElem?_eq_some_iff.1 hi
  obtain ⟨a, t, hat, rfl⟩ : ∃ a t, s = a ++ s[i] :: t ∧ a.length = i :=
    ⟨s.take i, s.drop (i + 1), by simp, by simp; omega⟩
  generalize s[a.length] = o at hat ho
  subst hat
  obtain ⟨left, -, hleft, -⟩ := exists_left (s := a) hs
  have hopen : balancedAfter (o :: left) t = true := by simpa [balancedAfter, ho] using hleft
  obtain ⟨m, b, rfl, hm, -⟩ := exists_closing hopen
  have htake : (a ++ o :: (m ++ closer o :: b)).take (a.length + (m.length + 1)) = a ++ o :: m := by
    rw [show a ++ o :: (m ++ closer o :: b) = a ++ o :: m ++ closer o :: b by simp]
    exact List.take_left' (by simp)
  refine ⟨a.length + (m.length + 1), partner?_eq_some_iff.2 ?_, ?_, ?_, ?_⟩
  · exact ⟨a, o, m, closer o, b, rfl, ho, (isOpening_closer ho).2, level_of_balanced hm, rfl, rfl⟩
  · simp
  · rw [htake, List.drop_append, List.drop_eq_nil_of_le (Nat.le_succ _)]
    simpa using hm
  · rw [htake, List.take_left, depth_append, depth_cons, rise_of_isOpening ho, depth_of_balanced hm]
    omega

/-! ## What is stripped -/

/-- A text counts as enclosed when it begins with a parenthesis and the partner of that, of whatever
kind, is its end. -/
theorem exists_of_enclosed? (h : enclosed? s = some t) :
    ∃ c, s = '(' :: t ++ [c] ∧ isClosing c = true := by
  cases s with
  | nil => cases h
  | cons p s =>
    simp only [enclosed?, Option.ite_none_right_eq_some, Option.some.injEq] at h
    obtain ⟨⟨rfl, hend⟩, rfl⟩ := h
    obtain ⟨o, m, c, b, hs, -, hc, -, hlength⟩ := groupEnd?_eq_some_iff.1 hend
    rw [List.cons_append] at hs
    obtain ⟨rfl, rfl⟩ := List.cons.inj hs
    obtain rfl : b = [] := by
      rw [List.length_append, List.length_cons] at hlength
      exact List.eq_nil_of_length_eq_zero (by omega)
    exact ⟨c, by simp, hc⟩

/-- Nothing is enclosed unless a parenthesis in front has its partner at the very end. -/
theorem enclosed?_eq_none_iff :
    enclosed? s = none ↔ ¬ (s.head? = some '(' ∧ partner? s 0 = some (s.length - 1)) := by
  cases s with
  | nil => simp [enclosed?]
  | cons c s => simp [enclosed?, partner?]

/-- As many closing brackets are stripped as parentheses at the beginning. -/
theorem exists_strip_eq (s : List Char) :
    ∃ closers, s = List.replicate closers.length '(' ++ strip s ++ closers ∧
      ∀ c ∈ closers, isClosing c = true := by
  fun_induction strip s with
  | case1 s t ht _ ih =>
    obtain ⟨closers, hclosers, hall⟩ := ih
    obtain ⟨c, rfl, hc⟩ := exists_of_enclosed? ht
    refine ⟨closers ++ [c], ?_, List.forall_mem_append.2 ⟨hall, List.forall_mem_singleton.2 hc⟩⟩
    rw [List.length_append, List.length_singleton, List.replicate_succ]
    conv_lhs => rw [hclosers]
    simp
  | case2 s _ => exact ⟨[], by simp, List.forall_mem_nil _⟩

/-- From a balanced text parentheses of both kinds are stripped, and nothing else. -/
theorem exists_strip_eq_of_balanced (hs : balanced s = true) :
    ∃ k, s = List.replicate k '(' ++ strip s ++ List.replicate k ')' := by
  fun_induction strip s with
  | case1 s t ht _ ih =>
    obtain ⟨rfl, hbalanced⟩ := eq_parenthesised_of_enclosed? hs ht
    obtain ⟨k, hk⟩ := ih hbalanced
    refine ⟨k + 1, ?_⟩
    rw [List.replicate_succ, List.replicate_succ']
    conv_lhs => rw [hk]
    simp [parenthesised]
  | case2 s _ => exact ⟨0, by simp⟩

/-- Only parentheses are stripped, as many at the beginning as at the end, unless there is a square
bracket among the closing ones. -/
theorem exists_strip_eq_iff {closers : List Char}
    (hs : s = List.replicate closers.length '(' ++ strip s ++ closers)
    (hclosers : ∀ c ∈ closers, isClosing c = true) :
    (∃ k, s = List.replicate k '(' ++ strip s ++ List.replicate k ')') ↔ ']' ∉ closers := by
  constructor
  · rintro ⟨k, hk⟩ hsquare
    have hlength := congrArg List.length hs
    have hlength' := congrArg List.length hk
    simp only [List.length_append, List.length_replicate] at hlength hlength'
    obtain rfl : k = closers.length := by omega
    have hend := List.append_cancel_left (hs.symm.trans hk)
    rw [hend] at hsquare
    cases (List.eq_of_mem_replicate hsquare)
  · intro hsquare
    have hend : closers = List.replicate closers.length ')' := by
      refine List.eq_replicate_of_mem fun c hc => ?_
      have hclosing := hclosers c hc
      simp only [isClosing, Bool.or_eq_true, beq_iff_eq] at hclosing
      exact hclosing.resolve_right fun h => hsquare (h ▸ hc)
    exact ⟨closers.length, by rw [← hend]; exact hs⟩

/-- In any text the scan forward and the scan backward find the same pairs. In a balanced text every
opening bracket has a partner of its kind, one deeper, with a balanced text between. Stripping takes
as many closing brackets off the end of a text as parentheses off its beginning, and leaves a text
that is not enclosed, and balanced if the whole was. The closing brackets are parentheses in a
balanced text, but not in every text. -/
theorem partners_and_strip (s : List Char) :
    (∀ i j, partner? s i = some j ↔ partnerBack? s j = some i) ∧
      (balanced s = true → ∀ (i : Nat) (o : Char), s[i]? = some o → isOpening o = true →
        ∃ j, partner? s i = some j ∧ s[j]? = some (closer o) ∧
          balanced ((s.take j).drop (i + 1)) = true ∧ depth (s.take j) = depth (s.take i) + 1) ∧
      (∃ closers, s = List.replicate closers.length '(' ++ strip s ++ closers ∧
        (∀ c ∈ closers, isClosing c = true) ∧
        ((∃ k, s = List.replicate k '(' ++ strip s ++ List.replicate k ')') ↔ ']' ∉ closers) ∧
        (balanced s = true → ']' ∉ closers)) ∧
      ¬ ((strip s).head? = some '(' ∧ partner? (strip s) 0 = some ((strip s).length - 1)) ∧
      (balanced s = true → balanced (strip s) = true) := by
  obtain ⟨closers, hs, hclosers⟩ := exists_strip_eq s
  have hiff := exists_strip_eq_iff hs hclosers
  refine ⟨fun i j => ?_, fun hbalanced i o => exists_partner hbalanced, ?_, ?_, balanced_strip⟩
  · rw [partner?_eq_some_iff, partnerBack?_eq_some_iff]
  · exact ⟨closers, hs, hclosers, hiff,
      fun hbalanced => hiff.1 (exists_strip_eq_of_balanced hbalanced)⟩
  · exact enclosed?_eq_none_iff.1 (enclosed?_strip s)

/-- A closing square bracket goes with the parenthesis at the beginning. In a balanced text a square
bracket has a partner of its kind. -/
theorem partners_and_strip_square_bracket :
    strip "(x]".toList = ['x'] ∧
      (¬ ∃ k, "(x]".toList = List.replicate k '(' ++ strip "(x]".toList ++ List.replicate k ')') ∧
      ∃ j, partner? "f(x[y])".toList 3 = some j ∧ partnerBack? "f(x[y])".toList j = some 3 ∧
        "f(x[y])".toList[j]? = some ']' := by
  have hstrip : strip "(x]".toList = ['x'] := by cbv
  obtain ⟨-, -, ⟨closers, htext, -, hparentheses, -⟩, -, -⟩ := partners_and_strip "(x]".toList
  have hsquare : ']' ∈ closers := by
    rw [hstrip] at htext
    obtain _ | ⟨c, _ | ⟨d, closers⟩⟩ := closers
    · cases htext
    · cases htext
      exact List.mem_cons_self
    · simp [List.replicate_succ] at htext
  obtain ⟨hscans, hpartner, -, -, -⟩ := partners_and_strip "f(x[y])".toList
  obtain ⟨j, hj, hkind, -⟩ := hpartner rfl 3 '[' rfl rfl
  exact ⟨hstrip, fun h => hparentheses.1 h hsquare, j, hj, (hscans 3 j).1 hj, hkind⟩

end Formula.Bracket
