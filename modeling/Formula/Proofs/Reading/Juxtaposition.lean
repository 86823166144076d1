import Formula.Proofs.Reading.Dissection
import Formula.Reading.Juxtaposition

/-!
# Restoring multiplication signs, part by part

The two passes of `restoreTimes?`, told for a text from its parts. `opened?` is the first pass on a
text with other text before it, and `closed` is the second. Where parts meet at an operator neither
pass inserts anything, and what stands between brackets is treated as it would be by itself
(`opened?_inside`): a joint is looked for backward from its parenthesis, and in a balanced text that
search does not leave the brackets around the text.
-/

namespace Formula.Reading

open Formula.Bracket

variable {s t before : List Char} {d : Nat}

/-! ## Insertion -/

/-- Places in a text and places behind it are filled one after the other. -/
theorem insertTimesAfter?_append (ps qs : List Nat) (hps : ∀ p ∈ ps, p ≤ d + s.length)
    (hqs : ∀ q ∈ qs, d + s.length ≤ q) :
    insertTimesAfter? d (ps ++ qs) (s ++ t) = (insertTimesAfter? d ps s).bind fun u =>
      (insertTimesAfter? (d + s.length) qs t).map (u ++ ·) := by
  induction ps generalizing d s with
  | nil =>
    cases qs with
    | nil => simp [insertTimesAfter?]
    | cons q qs =>
      -- The first place behind the joint skips all that is left of the first text.
      have hq : d + s.length ≤ q := hqs q List.mem_cons_self
      have hskip : q - d = s.length + (q - (d + s.length)) := by omega
      simp only [List.nil_append, insertTimesAfter?, Option.bind_some, List.length_append]
      by_cases hlong : t.length < q - (d + s.length)
      · rw [if_pos (by omega), if_pos (by omega), Option.map_none]
      · rw [if_neg (by omega), if_neg (by omega), hskip, List.drop_length_add_append,
          List.take_length_add_append, Option.map_map]
        congr 1
        funext u
        simp
  | cons p ps ih =>
    have hp : p ≤ d + s.length := hps p List.mem_cons_self
    simp only [List.cons_append, insertTimesAfter?, List.length_append]
    by_cases hd : p < d
    · rw [if_pos (Or.inl hd), if_pos (Or.inl hd), Option.bind_none]
    · have hlen : p + (s.drop (p - d)).length = d + s.length := by
        rw [List.length_drop]
        omega
      rw [if_neg (by omega), if_neg (by omega), List.drop_append_of_le_length (by omega),
        List.take_append_of_le_length (by omega), ih ?_ ?_, hlen]
      · cases insertTimesAfter? p ps (s.drop (p - d)) with
        | none => rfl
        | some u =>
          cases insertTimesAfter? (d + s.length) qs t with
          | none => rfl
          | some v => simp
      · intro q hq
        rw [hlen]
        exact hps q (List.mem_cons_of_mem p hq)
      · intro q hq
        rw [hlen]
        exact hqs q hq

/-- Places count from where the text begins. -/
theorem insertTimesAfter?_shift (n : Nat) (ps : List Nat) :
    insertTimesAfter? (d + n) (ps.map (· + n)) s = insertTimesAfter? d ps s := by
  induction ps generalizing d s with
  | nil => rfl
  | cons p ps ih =>
    simp only [List.map_cons, insertTimesAfter?, Nat.add_sub_add_right,
      Nat.add_lt_add_iff_right, ih]

/-! ## The first pass -/

/-- The places in front of which the first pass inserts a sign, in a text behind the text
`before`. -/
def jointsAfter (before s : List Char) : List Nat :=
  (cutsAfter before 0 s).filterMap openJoint?

/-- The first pass on a text behind the text `before`, which is given nearest character first. -/
def opened? (before s : List Char) : Option (List Char) :=
  insertTimesAfter? before.length (jointsAfter before s) s

/-- Do all joints of the text fall into it, none into the text before? -/
def Anchored (before s : List Char) : Prop :=
  ∀ p ∈ jointsAfter before s, before.length ≤ p

/-- The joints before groups are those of the characters one by one, with the text before each. -/
theorem filterMap_openJoint? (before s : List Char) (d : Int) :
    (cutsAfter before d s).filterMap openJoint? = jointsAfter before s := by
  rw [jointsAfter]
  generalize (0 : Int) = d'
  induction s generalizing before d d' with
  | nil => rfl
  | cons c s ih =>
    simp only [cutsAfter, List.filterMap_cons]
    rw [ih (c :: before) (d + rise c) (d' + rise c)]
    rfl

/-- The joints of two texts side by side are those of the first and, behind it, those of the second.
-/
theorem jointsAfter_append (before s t : List Char) :
    jointsAfter before (s ++ t) = jointsAfter before s ++ jointsAfter (s.reverse ++ before) t := by
  rw [jointsAfter, cutsAfter_append, List.filterMap_append, filterMap_openJoint?,
    List.filterMap_map]
  rfl

/-- The joints of a whole text are those of its beginning and then those of the rest. -/
theorem openJoints_append (s t : List Char) :
    openJoints (s ++ t) = openJoints s ++ jointsAfter s.reverse t := by
  have hjoints := jointsAfter_append [] s t
  rwa [List.append_nil] at hjoints

/-- The text before a name is no longer than the whole. -/
theorem length_beforeName? {u : List Char} (h : beforeName? s = some u) : u.length ≤ s.length := by
  obtain ⟨f, -, rfl⟩ := Option.map_eq_some_iff.1 h
  simp

/-- A joint behind a text is at its end. -/
theorem le_of_jointAfter? {p : Nat} (h : jointAfter? s = some p) : p = s.length := by
  cases s with
  | nil => cases h
  | cons c s =>
    simp only [jointAfter?, Option.ite_none_left_eq_some, Option.some.injEq] at h
    exact h.2.symm

/-- A joint lies before its parenthesis. -/
theorem openJoint?_le {k : Cut} {p : Nat} (h : openJoint? k = some p) : p ≤ k.before.length := by
  unfold openJoint? at h
  split at h
  · cases h
  · split at h
    · cases h
    · split at h
      · simp only [Option.bind_eq_bind, Option.bind_eq_some_iff] at h
        obtain ⟨back, -, u, hu, hp⟩ := h
        have hlen := length_beforeName? hu
        have := le_of_jointAfter? hp
        rw [List.length_drop] at hlen
        omega
      · split at h
        · cases h
        · have := le_of_jointAfter? h
          cases hname : beforeName? k.before with
          | none =>
            rw [hname, Option.getD_none] at this
            omega
          | some u =>
            rw [hname, Option.getD_some] at this
            have := length_beforeName? hname
            omega

/-- No joint is beyond the end of the text. -/
theorem le_of_mem_jointsAfter {p : Nat} (h : p ∈ jointsAfter before s) :
    p ≤ before.length + s.length := by
  obtain ⟨k, hk, hp⟩ := List.mem_filterMap.1 h
  obtain ⟨a, hs, hb, -⟩ := mem_cutsAfter.1 hk
  have := openJoint?_le hp
  simp only [hs, hb, List.length_append, List.length_reverse, List.length_cons] at this ⊢
  omega

/-- The first pass on two texts, of which the second keeps its joints to itself. -/
theorem opened?_append (h : Anchored (s.reverse ++ before) t) :
    opened? before (s ++ t) =
      (opened? before s).bind fun u => (opened? (s.reverse ++ before) t).map (u ++ ·) := by
  have hlen : (s.reverse ++ before).length = before.length + s.length := by simp [Nat.add_comm]
  rw [opened?, opened?, opened?, jointsAfter_append, hlen]
  exact insertTimesAfter?_append _ _ (fun p => le_of_mem_jointsAfter) (fun p hp => hlen ▸ h p hp)

/-- Texts side by side are anchored together. -/
theorem Anchored.append (hs : Anchored before s) (ht : Anchored (s.reverse ++ before) t) :
    Anchored before (s ++ t) := by
  intro p hp
  rw [jointsAfter_append, List.mem_append] at hp
  rcases hp with hp | hp
  · exact hs p hp
  · have := ht p hp
    simp only [List.length_append] at this
    omega

/-- The first pass turns the text into another one and leaves the text before alone. -/
def Opens (before s u : List Char) : Prop :=
  Anchored before s ∧ opened? before s = some u

/-- The first pass works on texts side by side one after the other. -/
theorem Opens.append {u v : List Char} (hs : Opens before s u)
    (ht : Opens (s.reverse ++ before) t v) :
    Opens before (s ++ t) (u ++ v) := by
  refine ⟨hs.1.append ht.1, ?_⟩
  rw [opened?_append ht.1, hs.2, ht.2, Option.bind_some, Option.map_some]

/-- A text whose places are no joints is left as it is. -/
theorem opens_of_jointsAfter_eq_nil (h : jointsAfter before s = []) : Opens before s s := by
  constructor
  · intro p hp
    rw [h] at hp
    cases hp
  · rw [opened?, h]
    rfl

/-- Only an opening parenthesis can make a joint before it. -/
theorem openJoint?_eq_none {k : Cut} (h : k.char ≠ '(') : openJoint? k = none := by
  unfold openJoint?
  split
  · rfl
  · simp [h]

/-- Without a parenthesis there is no joint. -/
theorem jointsAfter_of_not_mem (h : '(' ∉ s) (before : List Char) : jointsAfter before s = [] := by
  refine List.filterMap_eq_nil_iff.2 fun k hk => openJoint?_eq_none ?_
  obtain ⟨a, hs, -⟩ := mem_cutsAfter.1 hk
  intro hchar
  exact h (by simp [hs, hchar])

/-- The first pass leaves a text without opening parentheses as it is. -/
theorem opens_of_not_mem (h : '(' ∉ s) (before : List Char) : Opens before s s :=
  opens_of_jointsAfter_eq_nil (jointsAfter_of_not_mem h before)

/-! ## Between brackets -/

/-- Behind a character that stands in no name, the search for a name does not go on. -/
theorem beforeName?_append {o : Char} (ho : o.isAlpha = false) (s t : List Char) :
    beforeName? (s ++ o :: t) = (beforeName? s).map (· ++ o :: t) := by
  have hname : ∀ f ∈ Symbol.functions, o ∉ f.name.reverse := by
    intro f hf hmem
    have := isAlpha_of_mem_name (mem_functions.1 hf) o (List.mem_reverse.1 hmem)
    rw [ho] at this
    cases this
  have hfind : Symbol.functions.find? (fun f => f.name.reverse.isPrefixOf (s ++ o :: t))
      = Symbol.functions.find? (fun f => f.name.reverse.isPrefixOf s) := by
    rw [← List.head?_filter, ← List.head?_filter]
    refine congrArg List.head? (List.filter_congr fun f hf => ?_)
    rw [Bool.eq_iff_iff, List.isPrefixOf_iff_prefix, List.isPrefixOf_iff_prefix]
    exact ⟨prefix_of_not_mem (hname f hf), fun h => h.trans (List.prefix_append s _)⟩
  rw [beforeName?, beforeName?, hfind, Option.map_map]
  cases hs : Symbol.functions.find? (fun f => f.name.reverse.isPrefixOf s) with
  | none => rfl
  | some f =>
    have hprefix := List.find?_some hs
    have hlen := (List.isPrefixOf_iff_prefix.1 hprefix).length_le
    rw [List.length_reverse] at hlen
    simp [List.drop_append_of_le_length hlen]

/-- Whether an operand ends does not depend on what stands before an open bracket; only the place
moves. -/
theorem jointAfter?_append {o : Char} (ho : isOpening o = true) (s t : List Char) :
    jointAfter? (s ++ o :: t) = (jointAfter? s).map (· + (t.length + 1)) := by
  cases s with
  | nil =>
    simp only [isOpening, Bool.or_eq_true, beq_iff_eq] at ho
    rcases ho with rfl | rfl <;> rfl
  | cons c s =>
    simp only [List.cons_append, jointAfter?, List.length_cons, List.length_append]
    split
    · rfl
    · simp only [Option.map_some, Option.some.injEq]
      omega

/-- No bracket is a letter. -/
theorem not_isAlpha_of_isOpening {o : Char} (ho : isOpening o = true) : o.isAlpha = false := by
  simp only [isOpening, Bool.or_eq_true, beq_iff_eq] at ho
  rcases ho with rfl | rfl <;> rfl

/-- How far before its closing bracket a group opens is less than the length of the text. -/
theorem fallsToZero_lt_length {up down : Char → Bool} {n i : Nat}
    (h : fallsToZero up down n s = some i) :
    i < s.length := by
  induction s generalizing n i with
  | nil => cases h
  | cons c s ih =>
    simp only [fallsToZero] at h
    rw [List.length_cons]
    split at h
    · obtain ⟨j, hj, rfl⟩ := Option.map_eq_some_iff.1 h
      have := ih hj
      omega
    · split at h
      · split at h
        · obtain rfl := Option.some.inj h
          omega
        · obtain ⟨j, hj, rfl⟩ := Option.map_eq_some_iff.1 h
          have := ih hj
          omega
      · obtain ⟨j, hj, rfl⟩ := Option.map_eq_some_iff.1 h
        have := ih hj
        omega

/-- A group opens within the text. -/
theorem groupStart?_lt_length {i : Nat} (h : groupStart? s = some i) : i < s.length := by
  cases s with
  | nil => cases h
  | cons c s =>
    simp only [groupStart?, Option.ite_none_right_eq_some] at h
    exact fallsToZero_lt_length h.2

/-- At a place of a balanced text between brackets there is the joint that is there in the text by
itself. -/
theorem openJoint?_inside {o c : Char} {a b : List Char} {d e : Int} (ho : isOpening o = true)
    (h : balanced (a ++ c :: b) = true) (before : List Char) :
    openJoint? ⟨a.reverse ++ o :: before, d, c, b⟩ =
      (openJoint? ⟨a.reverse, e, c, b⟩).map (· + (before.length + 1)) := by
  have halpha := not_isAlpha_of_isOpening ho
  rcases List.eq_nil_or_concat a with rfl | ⟨a, p, rfl⟩
  · have hname : beforeName? (o :: before) = none := by
      rw [← List.nil_append (o :: before), beforeName?_append halpha]
      rfl
    simp only [isOpening, Bool.or_eq_true, beq_iff_eq] at ho
    rcases ho with rfl | rfl <;> simp [openJoint?, hname, jointAfter?, Symbol.isOperatorChar]
  · simp only [List.concat_eq_append, List.reverse_append, List.reverse_cons, List.reverse_nil,
      List.nil_append, List.cons_append, openJoint?]
    split
    · rfl
    · split
      next hp =>
        -- The base in square brackets lies inside the text, and so does the name before it.
        obtain rfl : p = ']' := by simpa using hp
        obtain ⟨back, hback⟩ :=
          exists_groupStart? (a := a) (b := c :: b) (c := ']') (by simpa using h) rfl
        have hlen := groupStart?_lt_length hback
        have hright := groupStart?_append_right hback (o :: before)
        simp only [List.cons_append] at hright
        simp only [hback, hright, Option.bind_eq_bind, Option.bind_some]
        rw [← List.cons_append, List.drop_append_of_le_length (by omega), beforeName?_append halpha]
        cases beforeName? ((']' :: a.reverse).drop (back + 1)) with
        | none => rfl
        | some u => exact jointAfter?_append ho u before
      · split
        · rfl
        · rw [← List.cons_append, beforeName?_append halpha]
          cases beforeName? (p :: a.reverse) with
          | none => exact jointAfter?_append ho (p :: a.reverse) before
          | some u => exact jointAfter?_append ho u before

/-- The joints of a balanced text between brackets are those of the text by itself. -/
theorem jointsAfter_inside {o : Char} (ho : isOpening o = true) (hs : balanced s = true)
    (before : List Char) :
    jointsAfter (o :: before) s = (openJoints s).map (· + (before.length + 1)) := by
  have hcuts : ∀ (a b : List Char) (d : Int), s = a ++ b →
      (cutsAfter (a.reverse ++ o :: before) d b).filterMap openJoint?
        = ((cutsAfter a.reverse d b).filterMap openJoint?).map (· + (before.length + 1)) := by
    intro a b d hab
    induction b generalizing a d with
    | nil => rfl
    | cons c b ih =>
      have hjoint := openJoint?_inside (a := a) (c := c) (b := b) (d := d) (e := d) ho
        (hab ▸ hs) before
      have := ih (a ++ [c]) (d + rise c) (by simp [hab])
      simp only [List.reverse_append, List.reverse_cons, List.reverse_nil, List.nil_append,
        List.cons_append] at this
      simp only [cutsAfter, List.filterMap_cons, hjoint, this]
      cases openJoint? ⟨a.reverse, d, c, b⟩ <;> rfl
  exact hcuts [] s 0 rfl

/-- The joints of a balanced text between brackets fall between them. -/
theorem anchored_inside {o : Char} (ho : isOpening o = true) (hs : balanced s = true)
    (before : List Char) : Anchored (o :: before) s := by
  intro p hp
  rw [jointsAfter_inside ho hs] at hp
  obtain ⟨q, -, rfl⟩ := List.mem_map.1 hp
  simp only [List.length_cons]
  omega

/-- Between brackets the first pass does what it does to the text by itself. -/
theorem opened?_inside {o : Char} (ho : isOpening o = true) (hs : balanced s = true)
    (before : List Char) : opened? (o :: before) s = opened? [] s := by
  have := insertTimesAfter?_shift (d := 0) (s := s) (before.length + 1) (openJoints s)
  rw [Nat.zero_add] at this
  rw [opened?, jointsAfter_inside ho hs, List.length_cons, this]
  rfl

/-! ## Before an operand -/

/-- Does the text before, nearest character first, end before an operand? -/
def Front (before : List Char) : Prop :=
  ∀ c ∈ before.head?, Symbol.isOperatorChar c = true

/-- At the start an operand is due. -/
theorem front_nil : Front [] := by
  simp [Front]

/-- Behind an operator an operand is due. -/
theorem front_cons {c : Char} (hc : Symbol.isOperatorChar c = true) (before : List Char) :
    Front (c :: before) := by
  intro d hd
  obtain rfl : c = d := by simpa using hd
  exact hc

/-- Where an operand is due, no sign is missing. -/
theorem jointAfter?_of_front (h : Front before) : jointAfter? before = none := by
  cases before with
  | nil => rfl
  | cons c before => simp [jointAfter?, h c rfl]

/-- No operand ends at the start of a text, in an operator or in an opening bracket. -/
theorem jointAfter?_eq_none_iff : jointAfter? before = none ↔
    ∀ c ∈ before.head?, Symbol.isOperatorChar c = true ∨ c = '(' ∨ c = '[' := by
  cases before with
  | nil => simp [jointAfter?]
  | cons c before =>
    simp only [jointAfter?, ite_eq_left_iff, Bool.or_eq_true, beq_iff_eq, reduceCtorEq, imp_false,
      not_not, List.head?_cons, Option.mem_def, Option.some.injEq, forall_eq', or_assoc]

/-- Behind a letter a sign could be missing. -/
theorem not_isAlpha_of_jointAfter? (h : jointAfter? before = none) :
    ∀ c ∈ before.head?, c.isAlpha = false := by
  intro c hc
  rw [Bool.eq_false_iff]
  intro halpha
  rcases jointAfter?_eq_none_iff.1 h c hc with hop | rfl | rfl
  · rw [(plain_of_isAlpha halpha).2.2] at hop
    cases hop
  · cases halpha
  · cases halpha

/-- A text that does not end in a letter does not end in a name. -/
theorem beforeName?_of_head (h : ∀ c ∈ before.head?, c.isAlpha = false) :
    beforeName? before = none := by
  cases before with
  | nil => rfl
  | cons c before => exact beforeName?_append (h c rfl) [] before

/-- Without a base in square brackets the joint lies in front of the name before the parenthesis, or
of the parenthesis itself if no name stands there. -/
theorem openJoint?_eq (h : before.head? ≠ some ']') (e : Int) (b : List Char) :
    openJoint? ⟨before, e, '(', b⟩ = jointAfter? ((beforeName? before).getD before) := by
  cases before with
  | nil => rfl
  | cons p before =>
    have hbracket : p ≠ ']' := by simpa using h
    by_cases hnone : jointAfter? (p :: before) = none
    · have hname := beforeName?_of_head (not_isAlpha_of_jointAfter? hnone)
      simp [openJoint?, hbracket, hname, hnone]
    · have hp : p ≠ '(' ∧ Symbol.isOperatorChar p = false := by
        rw [jointAfter?_eq_none_iff] at hnone
        simp_all
      simp [openJoint?, hbracket, hp]

/-! ## Groups and calls -/

/-- Names of functions consist of letters. -/
theorem not_mem_name {f : Symbol} (hf : f.isOperator = false) {c : Char} (hc : c.isAlpha = false) :
    c ∉ f.name := by
  intro hmem
  rw [isAlpha_of_mem_name hf c hmem] at hc
  cases hc

/-- Of the names with which the name of a function ends its own comes first in the order of the
search. -/
theorem beforeName?_name {f : Symbol} (hf : f.isOperator = false) :
    beforeName? f.name.reverse = some [] := by
  cases f with
  | plus | minus | times | divide | power => cases hf
  | sinc | cosec | sec | csc | cotan | cot | sin | cos | tan | ln | log => decide

/-- A name behind something that is no letter is found whole. -/
theorem beforeName?_name_append {f : Symbol} (hf : f.isOperator = false)
    (hb : ∀ c ∈ before.head?, c.isAlpha = false) :
    beforeName? (f.name.reverse ++ before) = some before := by
  cases before with
  | nil => rw [List.append_nil, beforeName?_name hf]
  | cons c before =>
    rw [beforeName?_append (hb c rfl), beforeName?_name hf, Option.map_some, List.nil_append]

/-- Is the text what stands between a joint and its parenthesis: nothing, or the name of a
function? -/
def IsCallee (w : List Char) : Prop :=
  w = [] ∨ ∃ f ∈ Symbol.functions, w = f.name

namespace IsCallee

variable {w : List Char}

/-- Nothing may stand between a joint and its parenthesis. -/
theorem nil : IsCallee [] :=
  .inl rfl

/-- The name of a function may stand between a joint and its parenthesis. -/
theorem name {f : Symbol} (hf : f.isOperator = false) : IsCallee f.name :=
  .inr ⟨f, mem_functions.2 hf, rfl⟩

/-- What stands between a joint and its parenthesis consists of letters. -/
theorem isAlpha (h : IsCallee w) : ∀ c ∈ w, c.isAlpha = true := by
  rcases h with rfl | ⟨f, hf, rfl⟩
  · simp
  · exact isAlpha_of_mem_name (mem_functions.1 hf)

/-- Only letters stand between a joint and its parenthesis. -/
theorem not_mem (h : IsCallee w) {c : Char} (hc : c.isAlpha = false) : c ∉ w := by
  intro hmem
  rw [h.isAlpha c hmem] at hc
  cases hc

/-- A callee behind a text that does not end in a square bracket does not end in one either. -/
theorem head?_ne (h : IsCallee w) (hb : before.head? ≠ some ']') :
    (w.reverse ++ before).head? ≠ some ']' := by
  intro hhead
  rw [List.head?_append, Option.or_eq_some_iff] at hhead
  rcases hhead with hw | ⟨-, hbefore⟩
  · exact h.not_mem (c := ']') rfl (List.mem_reverse.1 (List.mem_of_mem_head? hw))
  · exact hb hbefore

/-- Behind a character of no name, the name found before a parenthesis is the one that stands
there. -/
theorem beforeName?_getD (h : IsCallee w) (hb : ∀ c ∈ before.head?, c.isAlpha = false) :
    (beforeName? (w.reverse ++ before)).getD (w.reverse ++ before) = before := by
  rcases h with rfl | ⟨f, hf, rfl⟩
  · rw [List.reverse_nil, List.nil_append, beforeName?_of_head hb, Option.getD_none]
  · rw [beforeName?_name_append (mem_functions.1 hf) hb, Option.getD_some]

/-- Behind no operand no sign is missing in front of a group or a call. -/
theorem openJoint?_eq_none (h : IsCallee w) (hb : jointAfter? before = none) (e : Int)
    (b : List Char) :
    openJoint? ⟨w.reverse ++ before, e, '(', b⟩ = none := by
  have hbracket : before.head? ≠ some ']' := by
    intro hhead
    have := jointAfter?_eq_none_iff.1 hb ']' hhead
    simp [Symbol.isOperatorChar] at this
  rw [openJoint?_eq (h.head?_ne hbracket), h.beforeName?_getD (not_isAlpha_of_jointAfter? hb), hb]

end IsCallee

/-- A group without a joint in front keeps its inside to itself. -/
theorem opens_group {o : Char} {u : List Char} (ho : isOpening o = true) (hs : balanced s = true)
    (hjoint : openJoint? ⟨before, 0, o, []⟩ = none) (hu : opened? [] s = some u) :
    Opens before (o :: s ++ [closer o]) (o :: u ++ [closer o]) := by
  have hcloser : '(' ∉ [closer o] := by
    simp only [isOpening, Bool.or_eq_true, beq_iff_eq] at ho
    rcases ho with rfl | rfl <;> decide
  have hopen : Opens before [o] [o] := by
    refine opens_of_jointsAfter_eq_nil ?_
    simp only [jointsAfter, cutsAfter, List.filterMap_cons, hjoint, List.filterMap_nil]
  have hinside : Opens ([o].reverse ++ before) s u :=
    ⟨anchored_inside ho hs before, (opened?_inside ho hs before).trans hu⟩
  have := hopen.append (hinside.append (opens_of_not_mem hcloser _))
  simpa using this

/-- In front of a call or a group before which no operand ends no sign is missing. -/
theorem IsCallee.opens {w u : List Char} (h : IsCallee w) (hb : Front before)
    (hs : balanced s = true) (hu : opened? [] s = some u) :
    Opens before (w ++ parenthesised s) (w ++ parenthesised u) := by
  refine (opens_of_not_mem (h.not_mem rfl) before).append (opens_group (o := '(') rfl hs ?_ hu)
  exact h.openJoint?_eq_none (jointAfter?_of_front hb) 0 []

/-- Where an operand is due, the first pass works inside a group. -/
theorem opens_parenthesised {u : List Char} (h : Front before) (hs : balanced s = true)
    (hu : opened? [] s = some u) : Opens before (parenthesised s) (parenthesised u) :=
  IsCallee.nil.opens h hs hu

/-- Where an operand is due, the first pass works inside the argument of a call. -/
theorem opens_call {f : Symbol} (hf : f.isOperator = false) {u : List Char} (h : Front before)
    (hs : balanced s = true) (hu : opened? [] s = some u) :
    Opens before (f.name ++ parenthesised s) (f.name ++ parenthesised u) :=
  (IsCallee.name hf).opens h hs hu

/-- In front of a general logarithm before which no operand ends no sign is missing. -/
theorem opens_logarithm {b u v : List Char} (h : Front before) (hb : balanced b = true)
    (hs : balanced s = true) (hu : opened? [] b = some u) (hv : opened? [] s = some v) :
    Opens before (Symbol.log.name ++ ('[' :: b ++ ']' :: parenthesised s))
      (Symbol.log.name ++ ('[' :: u ++ ']' :: parenthesised v)) := by
  have hbase : Opens (Symbol.log.name.reverse ++ before) ('[' :: b ++ [']'])
    ('[' :: u ++ [']']) := by
    refine opens_group (o := '[') rfl hb ?_ hu
    exact openJoint?_eq_none (by simp)
  have hcall : Opens (('[' :: b ++ [']']).reverse ++ (Symbol.log.name.reverse ++ before))
    (parenthesised s)
      (parenthesised v) := by
    refine opens_group (o := '(') rfl hs ?_ hv
    have hstart := groupStart?_group (o := '[') rfl hb (Symbol.log.name.reverse ++ before)
    have hjoint := jointAfter?_of_front h
    have hname := beforeName?_name_append (f := .log) rfl (not_isAlpha_of_jointAfter? hjoint)
    simp only [show closer '[' = ']' from rfl, List.cons_append] at hstart
    have hdrop : (']' :: (b.reverse ++ '[' :: (Symbol.log.name.reverse ++ before))).drop
      (b.length + 1 + 1)
        = Symbol.log.name.reverse ++ before := by
      rw [← List.cons_append, List.drop_append]
      simp
    simp only [openJoint?, List.reverse_append, List.reverse_cons, List.reverse_nil,
      List.nil_append, List.cons_append, List.append_assoc, hstart, hdrop, Option.bind_eq_bind,
      Option.bind_some, hname, hjoint]
    simp
  have := (opens_of_not_mem (s := Symbol.log.name) (by decide) before).append
    (hbase.append hcall)
  simpa using this

/-! ## The second pass -/

/-- A text with the signs of the second pass inserted. -/
def closed : List Char → List Char
  | [] => []
  | c :: s => if (closeJoint? ⟨[], 0, c, s⟩).isSome then c :: '*' :: closed s else c :: closed s

/-- Whether a sign is missing behind a group is told by the text after it. -/
theorem closeJoint?_eq (k : Cut) :
    closeJoint? k = (closeJoint? ⟨[], 0, k.char, k.after⟩).map fun _ => k.before.length + 1 := by
  simp only [closeJoint?, Cut.place]
  split
  · rfl
  · split <;> rfl

/-- The second pass finds its places in order. -/
theorem insertTimesAfter?_closeJoint? (before s : List Char) (d : Int) :
    insertTimesAfter? before.length ((cutsAfter before d s).filterMap closeJoint?) s =
      some (closed s) := by
  induction s generalizing before d with
  | nil => rfl
  | cons c s ih =>
    have hrest := ih (c :: before) (d + rise c)
    rw [List.length_cons] at hrest
    have hplaces : ∀ p ∈ (cutsAfter (c :: before) (d + rise c) s).filterMap closeJoint?,
        before.length + [c].length ≤ p := by
      intro p hp
      obtain ⟨k, hk, hp⟩ := List.mem_filterMap.1 hp
      obtain ⟨a, -, hb, -⟩ := mem_cutsAfter.1 hk
      rw [closeJoint?_eq] at hp
      obtain ⟨-, -, rfl⟩ := Option.map_eq_some_iff.1 hp
      simp only [hb, List.length_append, List.length_reverse, List.length_cons, List.length_nil]
      omega
    rw [cutsAfter, List.filterMap_cons, closeJoint?_eq, closed]
    cases closeJoint? ⟨[], 0, c, s⟩ with
    | none =>
      -- The next place comes after the character.
      have := insertTimesAfter?_append [] _ (s := [c]) (t := s) (by simp) hplaces
      simpa [insertTimesAfter?, hrest] using this
    | some n => simp [insertTimesAfter?, hrest]

/-- Multiplication signs are restored by both passes, the second one on what the first one left. -/
theorem restoreTimes?_eq (s : List Char) : restoreTimes? s = (opened? [] s).map closed := by
  have hclosed : ∀ u, insertTimes? (closeJoints u) u = some (closed u) := fun u =>
    insertTimesAfter?_closeJoint? [] u 0
  rw [restoreTimes?, show insertTimes? (openJoints s) s = opened? [] s from rfl]
  cases opened? [] s with
  | none => rfl
  | some u => exact hclosed u

/-- Behind a closing parenthesis, does nothing, another bracket's end or an operator follow? -/
def Stops (t : List Char) : Prop :=
  ∀ c ∈ t.head?, isClosing c = true ∨ Symbol.isOperatorChar c = true

/-- The second pass does not insert where texts meet and the second one stops the first. -/
theorem closed_append (s : List Char) (ht : Stops t) : closed (s ++ t) = closed s ++ closed t := by
  induction s with
  | nil => rfl
  | cons c s ih =>
    have hjoint : closeJoint? ⟨[], 0, c, s ++ t⟩ = closeJoint? ⟨[], 0, c, s⟩ := by
      cases s with
      | cons e s => rfl
      | nil =>
        cases t with
        | nil => rfl
        | cons e t =>
          have he := ht e rfl
          simp only [isClosing, Bool.or_eq_true, beq_iff_eq] at he
          rcases he with (rfl | rfl) | he
          · simp [closeJoint?]
          · simp [closeJoint?]
          · simp [closeJoint?, he]
    simp only [List.cons_append, closed, hjoint, ih]
    split <;> rfl

/-- Only a closing parenthesis can make a joint behind it. -/
theorem closeJoint?_eq_none {k : Cut} (h : k.char ≠ ')') : closeJoint? k = none := by
  unfold closeJoint?
  split
  · rfl
  · simp [h]

/-- A text without closing parentheses does not matter to the second pass. -/
theorem closed_append_of_not_mem (hs : ')' ∉ s) (t : List Char) :
    closed (s ++ t) = s ++ closed t := by
  induction s with
  | nil => rfl
  | cons c s ih =>
    simp only [List.mem_cons, not_or] at hs
    rw [List.cons_append, closed, closeJoint?_eq_none (Ne.symm hs.1), ih hs.2]
    rfl

/-- The second pass leaves a text without closing parentheses as it is. -/
theorem closed_of_not_mem (hs : ')' ∉ s) : closed s = s := by
  have := closed_append_of_not_mem hs []
  rwa [List.append_nil, closed, List.append_nil] at this

/-- The second pass leaves every other character as it is. -/
theorem closed_cons {c : Char} (hc : c ≠ ')') (s : List Char) : closed (c :: s) = c :: closed s :=
  closed_append_of_not_mem (s := [c]) (by simpa using Ne.symm hc) s

/-- A closing bracket between two texts stops the first, and the second one goes on from it if an
operator or another group follows. -/
theorem closed_group {o : Char} (ho : isOpening o = true) (s t : List Char)
    (ht : Stops t ∨ o = '[') :
    closed (o :: s ++ closer o :: t) = o :: closed s ++ closer o :: closed t := by
  have hparen : o ≠ ')' := by
    rintro rfl
    cases ho
  have hstops : Stops (closer o :: t) := by
    intro c hc
    obtain rfl : closer o = c := by simpa using hc
    exact Or.inl (isOpening_closer ho).2
  have hcloser : closed (closer o :: t) = closer o :: closed t := by
    rcases ht with ht | rfl
    · have := closed_append [closer o] ht
      rwa [show closed [closer o] = [closer o] from rfl] at this
    · exact closed_cons (by decide) t
  rw [List.cons_append, closed_cons hparen, closed_append s hstops, hcloser]
  rfl

/-- Nothing is missing at the end of a text. -/
theorem stops_nil : Stops [] := by
  intro c hc
  cases hc

/-- Nothing is missing before an operator. -/
theorem stops_cons {c : Char} (hc : Symbol.isOperatorChar c = true) (t : List Char) :
    Stops (c :: t) := by
  intro d hd
  obtain rfl : c = d := by simpa using hd
  exact Or.inr hc

/-- The second pass works inside a group. -/
theorem closed_parenthesised (s : List Char) :
    closed (parenthesised s) = parenthesised (closed s) :=
  closed_group (o := '(') rfl s [] (Or.inl stops_nil)

/-- The second pass works inside the argument of a call. -/
theorem closed_call {f : Symbol} (hf : f.isOperator = false) (s : List Char) :
    closed (f.name ++ parenthesised s) = f.name ++ parenthesised (closed s) := by
  rw [closed_append_of_not_mem (not_mem_name hf rfl), closed_parenthesised]

/-- The second pass works inside the base and the argument of a logarithm. -/
theorem closed_logarithm (b s : List Char) :
    closed (Symbol.log.name ++ ('[' :: b ++ ']' :: parenthesised s))
      = Symbol.log.name ++ ('[' :: closed b ++ ']' :: parenthesised (closed s)) := by
  have := closed_group (o := '[') rfl b (parenthesised s) (Or.inr rfl)
  rw [closed_append_of_not_mem (by decide), ← closed_parenthesised]
  exact congrArg (Symbol.log.name ++ ·) this

end Formula.Reading
