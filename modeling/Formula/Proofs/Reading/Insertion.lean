import Formula.Proofs.Reading.Adjacent
import Formula.Proofs.Reading.Places

/-!
# What restoring signs does to any text

Restoring signs only inserts them, each between two characters that were neighbours and no
operators, and a second time it finds nothing to insert (`restoreTimes?_settles`). The text may have
any other characters, and its parentheses need not be balanced; only a base in square brackets could
bring the places out of order. Without one the search for a joint goes back from its parenthesis
over at most one function name (`openJoint?_eq`). So the first pass is followed from left to right,
parenthesis by parenthesis, and at each step the text that comes out of both passes has no joint in
front of a parenthesis (`FirstPass`): where one was found there is a sign now, and a sign inserted
further left does not reach into the name.
-/

namespace Formula.Reading

open Formula.Bracket

variable {s t u v w r before : List Char} {c d : Char}

/-! ## Signs between neighbours -/

/-- The second text is the first with multiplication signs inserted, each between two neighbours
that are no operators. So no sign is inserted at an end, next to an operator or next to another
inserted one. -/
inductive Interspersed : List Char → List Char → Prop
  | nil : Interspersed [] []
  | cons {s r : List Char} (c : Char) : Interspersed s r → Interspersed (c :: s) (c :: r)
  | star {s r : List Char} {c d : Char} : Symbol.isOperatorChar c = false →
    Symbol.isOperatorChar d = false →
      Interspersed (d :: s) r → Interspersed (c :: d :: s) (c :: '*' :: r)

namespace Interspersed

/-- Every text is itself with no signs inserted between neighbours. -/
theorem refl (s : List Char) : Interspersed s s := by
  induction s with
  | nil => exact .nil
  | cons c s ih => exact .cons c ih

/-- No sign is inserted at the start. -/
theorem head?_eq (h : Interspersed s r) : r.head? = s.head? := by
  cases h <;> rfl

/-- No sign is inserted at the end. -/
theorem getLast?_eq (h : Interspersed s r) : r.getLast? = s.getLast? := by
  induction h with
  | nil => rfl
  | cons c _ ih => rw [List.getLast?_cons, List.getLast?_cons, ih]
  | star _ _ _ ih => simp [List.getLast?_cons, ih]

/-- Signs inserted between neighbours of two texts are inserted into the two side by side. -/
theorem append (hs : Interspersed s u) (ht : Interspersed t v) :
    Interspersed (s ++ t) (u ++ v) := by
  induction hs with
  | nil => exact ht
  | cons c _ ih => exact .cons c ih
  | star hc hd _ ih => exact .star hc hd ih

/-- A sign may stand where two texts meet. -/
theorem join (hs : Interspersed s u) (hlast : s.getLast? = some c)
    (hc : Symbol.isOperatorChar c = false) (ht : Interspersed (d :: t) v)
    (hd : Symbol.isOperatorChar d = false) :
    Interspersed (s ++ d :: t) (u ++ '*' :: v) := by
  induction hs with
  | nil => cases hlast
  | @cons s u e hs ih =>
    cases s with
    | nil =>
      cases hs
      obtain rfl : e = c := by simpa using hlast
      exact .star hc hd ht
    | cons f s => exact .cons e (ih (by simpa using hlast))
  | star he hf _ ih => exact .star he hf (ih (by simpa using hlast))

/-- Signs that are inserted later do not come next to those inserted before, which are operators
themselves. -/
theorem trans (h : Interspersed s t) (h' : Interspersed t r) : Interspersed s r := by
  induction h generalizing r with
  | nil => exact h'
  | @cons s t c h ih =>
    cases h' with
    | cons _ h' => exact .cons c (ih h')
    | star hc hd h' =>
      obtain ⟨s, rfl⟩ : ∃ s', s = _ :: s' := List.head?_eq_some_iff.1 h.head?_eq.symm
      exact .star hc hd (ih h')
  | star hc hd h ih =>
    cases h' with
    | cons _ h' =>
      cases h' with
      | cons _ h' => exact .star hc hd (ih h')
      | star hstar => cases hstar
    | star _ hstar => cases hstar

end Interspersed

/-! ## The second pass -/

/-- Behind a group a sign is missing in front of a character that is no operator. -/
theorem exists_of_closeJoint? (h : (closeJoint? ⟨[], 0, c, s⟩).isSome = true) :
    c = ')' ∧ ∃ d t, s = d :: t ∧ Symbol.isOperatorChar d = false := by
  cases s with
  | nil => cases h
  | cons d s =>
    simp only [closeJoint?, bne_iff_ne, Option.isSome_iff_exists, Option.ite_none_left_eq_some,
      Bool.or_eq_true, not_or, not_not, Bool.not_eq_true] at h
    obtain ⟨-, ⟨⟨⟨hc, -⟩, -⟩, hd⟩, -⟩ := h
    exact ⟨hc, d, s, rfl, hd⟩

/-- Only the next character tells whether a sign is missing. -/
theorem closeJoint?_congr (h : s.head? = t.head?) :
    closeJoint? ⟨[], 0, c, s⟩ = closeJoint? ⟨[], 0, c, t⟩ := by
  cases s with
  | nil =>
    cases t with
    | nil => rfl
    | cons e t => cases h
  | cons d s =>
    cases t with
    | nil => cases h
    | cons e t =>
      obtain rfl : d = e := by simpa using h
      rfl

/-- The second pass inserts behind closing parentheses, where no operator follows. -/
theorem interspersed_closed (s : List Char) : Interspersed s (closed s) := by
  induction s with
  | nil => exact .nil
  | cons c s ih =>
    rw [closed]
    split
    next hjoint =>
      obtain ⟨rfl, d, t, rfl, hd⟩ := exists_of_closeJoint? hjoint
      exact .star rfl hd ih
    · exact .cons c ih

/-- Where the second pass has inserted a sign it does not insert another one. -/
theorem closed_closed (s : List Char) : closed (closed s) = closed s := by
  induction s with
  | nil => rfl
  | cons c s ih =>
    rw [closed]
    split
    next hjoint =>
      obtain ⟨rfl, -⟩ := exists_of_closeJoint? hjoint
      have hsign : closeJoint? ⟨[], 0, ')', '*' :: closed s⟩ = none := rfl
      rw [closed, hsign, closed_cons (by decide), ih]
      rfl
    next hjoint =>
      rw [closed, closeJoint?_congr (interspersed_closed s).head?_eq, if_neg hjoint, ih]

/-- In front of a last character the second pass inserts at most a sign. -/
theorem closed_concat (u : List Char) (c : Char) :
    closed (u ++ [c]) = closed u ++ [c] ∨ closed (u ++ [c]) = closed u ++ ['*', c] := by
  by_cases hlast : u.getLast? = some ')'
  · by_cases hstops : isClosing c = true ∨ Symbol.isOperatorChar c = true
    · have hstop : Stops [c] := by
        intro d hd
        obtain rfl : c = d := by simpa using hd
        exact hstops
      exact .inl (closed_append u hstop)
    · simp only [not_or, Bool.not_eq_true] at hstops
      exact .inr (closed_append_of_joint hlast hstops.1 hstops.2 [])
  · exact .inl (closed_append_of_ne hlast [c])

/-! ## The joint in front of a parenthesis -/

/-- An operand does not end in an operator. -/
theorem exists_of_jointAfter? {p : Nat} (h : jointAfter? before = some p) :
    ∃ c, before.head? = some c ∧ Symbol.isOperatorChar c = false := by
  cases before with
  | nil => cases h
  | cons c before =>
    simp only [jointAfter?, Option.ite_none_left_eq_some, Bool.or_eq_true, not_or,
      Bool.not_eq_true] at h
    exact ⟨c, rfl, h.1.1.1⟩

/-- In front of every parenthesis that no base in square brackets precedes there is a text with a
name or nothing behind it, and a sign is missing there if an operand ends with that text. -/
theorem exists_callee (h : s.getLast? ≠ some ']') (e : Int) (b : List Char) :
    ∃ x w, s = x ++ w ∧ IsCallee w ∧ openJoint? ⟨s.reverse, e, '(', b⟩ = jointAfter? x.reverse := by
  rw [openJoint?_eq (by rwa [List.head?_reverse])]
  cases hname : beforeName? s.reverse with
  | none => exact ⟨s, [], by simp, .nil, rfl⟩
  | some y =>
    obtain ⟨f, hf, hs⟩ := exists_of_beforeName? hname
    refine ⟨y.reverse, f.name, ?_, .name (mem_functions.1 hf), by simp⟩
    rw [← List.reverse_inj, hs]
    simp

/-! ## The first pass, parenthesis by parenthesis -/

/-- The only joint of a call or group can be the one in front of it. -/
theorem IsCallee.jointsAfter_eq (h : IsCallee w) (before : List Char) :
    jointsAfter before (w ++ ['(']) = (openJoint? ⟨w.reverse ++ before, 0, '(', []⟩).toList := by
  rw [jointsAfter_append, jointsAfter_of_not_mem (h.not_mem rfl), List.nil_append, jointsAfter,
    cutsAfter, cutsAfter, List.filterMap_cons]
  cases openJoint? ⟨w.reverse ++ before, 0, '(', []⟩ <;> rfl

/-- What the first pass makes of a text, when behind both passes no sign is missing in front of a
parenthesis. -/
structure FirstPass (s u : List Char) : Prop where
  opens : Opens [] s u
  interspersed : Interspersed s u
  settled : openJoints (closed u) = []

/-- The first pass makes nothing of the empty text. -/
theorem FirstPass.nil : FirstPass [] [] where
  opens := opens_of_not_mem (by simp) []
  interspersed := .nil
  settled := rfl

/-- Another character than an opening parenthesis is left where it is. -/
theorem FirstPass.char (h : FirstPass s u) (hc : c ≠ '(') : FirstPass (s ++ [c]) (u ++ [c]) where
  opens := h.opens.append (opens_of_not_mem (by simpa using hc.symm) _)
  interspersed := h.interspersed.append (.refl [c])
  settled := by
    have hjoints : ∀ {t}, '(' ∉ t → openJoints (closed u ++ t) = [] := by
      intro t ht
      rw [openJoints_append, h.settled, jointsAfter_of_not_mem ht, List.nil_append]
    rcases closed_concat u c with hclosed | hclosed
    · exact hclosed ▸ hjoints (by simpa using hc.symm)
    · exact hclosed ▸ hjoints (by simpa using hc.symm)

/-- In front of a group or a call behind no operand nothing is inserted. -/
theorem FirstPass.start (h : FirstPass s u) (hw : IsCallee w) (hs : jointAfter? s.reverse = none) :
    FirstPass (s ++ (w ++ ['('])) (u ++ (w ++ ['('])) where
  opens := by
    refine h.opens.append (opens_of_jointsAfter_eq_nil ?_)
    rw [hw.jointsAfter_eq, List.append_nil, hw.openJoint?_eq_none hs]
    rfl
  interspersed := h.interspersed.append (.refl _)
  settled := by
    -- Neither pass changes how a text ends, so the search stops where it stopped before.
    have hlast : (closed u).reverse.head? = s.reverse.head? := by
      rw [List.head?_reverse, List.head?_reverse, getLast?_closed, h.interspersed.getLast?_eq]
    have hjoint : jointAfter? (closed u).reverse = none := by
      rwa [jointAfter?_eq_none_iff, hlast, ← jointAfter?_eq_none_iff]
    have hparen : u.getLast? ≠ some ')' := by
      rw [h.interspersed.getLast?_eq, ← List.head?_reverse]
      intro hparen
      have := jointAfter?_eq_none_iff.1 hs ')' hparen
      simp [Symbol.isOperatorChar] at this
    have hclose : ')' ∉ w ++ ['('] := by simpa using hw.not_mem rfl
    rw [closed_append_of_ne hparen, closed_of_not_mem hclose, openJoints_append, h.settled,
      hw.jointsAfter_eq, hw.openJoint?_eq_none hjoint]
    rfl

/-- Behind an operand a group or a call gets a sign in front. -/
theorem FirstPass.joint (h : FirstPass s u) (hw : IsCallee w)
    (hs : jointAfter? s.reverse = some s.length)
    (hjoint : openJoint? ⟨(s ++ w).reverse, 0, '(', []⟩ = some s.length) :
    FirstPass (s ++ (w ++ ['('])) (u ++ '*' :: (w ++ ['('])) where
  opens := by
    have hjoints : jointsAfter s.reverse (w ++ ['(']) = [s.length] := by
      rw [hw.jointsAfter_eq, ← List.reverse_append, hjoint]
      rfl
    refine h.opens.append ⟨?_, ?_⟩
    · rw [Anchored, List.append_nil, hjoints]
      simp
    · rw [opened?, List.append_nil, hjoints, List.length_reverse]
      simp [insertTimesAfter?]
  interspersed := by
    obtain ⟨c, hlast, hc⟩ := exists_of_jointAfter? hs
    obtain ⟨d, t, hcall, hd⟩ : ∃ d t, w ++ ['('] = d :: t ∧ Symbol.isOperatorChar d = false := by
      cases w with
      | nil => exact ⟨'(', [], rfl, rfl⟩
      | cons d w =>
        exact ⟨d, w ++ ['('], rfl, (plain_of_isAlpha (hw.isAlpha d List.mem_cons_self)).2.2⟩
    rw [List.head?_reverse] at hlast
    rw [hcall]
    exact h.interspersed.join hlast hc (.refl _) hd
  settled := by
    have hclose : ')' ∉ w ++ ['('] := by simpa using hw.not_mem rfl
    -- The search stops at the sign that has been inserted.
    have hsign : jointsAfter (closed u).reverse ['*'] = [] := jointsAfter_of_not_mem (by decide) _
    have hbehind : openJoint? ⟨w.reverse ++ '*' :: (closed u).reverse, 0, '(', []⟩ = none :=
      hw.openJoint?_eq_none (by simp [jointAfter?, Symbol.isOperatorChar]) 0 []
    rw [closed_append u (stops_cons rfl _), closed_cons (by decide), closed_of_not_mem hclose,
      openJoints_append,
      h.settled, ← List.singleton_append, jointsAfter_append, hsign, hw.jointsAfter_eq]
    simpa using hbehind

/-- In a text without a closing square bracket the first pass finds its places in order. -/
theorem exists_firstPass (h : ']' ∉ s) : ∃ u, FirstPass s u := by
  -- A parenthesis leads back to the text before the name that it calls, so the induction is on the
  -- length.
  induction hn : s.length using Nat.strongRecOn generalizing s with
  | ind n ih =>
    rcases List.eq_nil_or_concat s with rfl | ⟨s, c, rfl⟩
    · exact ⟨[], .nil⟩
    · simp only [List.concat_eq_append, List.mem_append, List.mem_singleton, not_or,
        List.length_append, List.length_singleton] at h hn ⊢
      by_cases hc : c = '('
      · have hlast : s.getLast? ≠ some ']' := fun hlast => h.1 (List.mem_of_getLast? hlast)
        obtain ⟨x, w, rfl, hw, hjoint⟩ := exists_callee hlast 0 []
        rw [List.length_append] at hn
        obtain ⟨u, hu⟩ := ih x.length (by omega) (fun hx => h.1 (List.mem_append_left w hx)) rfl
        rw [hc, List.append_assoc]
        cases hx : jointAfter? x.reverse with
        | none => exact ⟨_, hu.start hw hx⟩
        | some p =>
          obtain rfl : p = x.length := by simpa using le_of_jointAfter? hx
          exact ⟨_, hu.joint hw hx (hjoint.trans hx)⟩
      · obtain ⟨u, hu⟩ := ih s.length (by omega) h.1 rfl
        exact ⟨_, hu.char hc⟩

/-- In a text without a closing square bracket signs are restored only between neighbours that are
no operators, and restoring them again changes nothing. -/
theorem restoreTimes?_settles (h : ']' ∉ s) :
    ∃ r, restoreTimes? s = some r ∧ Interspersed s r ∧ restoreTimes? r = some r := by
  obtain ⟨u, hu⟩ := exists_firstPass h
  have hopened : opened? [] (closed u) = some (closed u) :=
    (opens_of_jointsAfter_eq_nil hu.settled).2
  refine ⟨closed u, ?_, hu.interspersed.trans (interspersed_closed u), ?_⟩
  · rw [restoreTimes?_eq, hu.opens.2, Option.map_some]
  · rw [restoreTimes?_eq, hopened, Option.map_some, closed_closed]

/-- The first parenthesis closes nothing, and the last one is never closed. -/
theorem restoreTimes?_settles_unbalanced : ']' ∉ ")2cosec(x)(y".toList ∧
    restoreTimes? ")2cosec(x)(y".toList = some ")*2*cosec(x)*(y".toList ∧
    Interspersed ")2cosec(x)(y".toList ")*2*cosec(x)*(y".toList ∧
    restoreTimes? ")*2*cosec(x)*(y".toList = some ")*2*cosec(x)*(y".toList := by
  have hsquare : ']' ∉ ")2cosec(x)(y".toList := by decide
  have hrestored : restoreTimes? ")2cosec(x)(y".toList = some ")*2*cosec(x)*(y".toList := by decide
  obtain ⟨r, hr, hspread, hsettled⟩ := restoreTimes?_settles hsquare
  obtain rfl := Option.some.inj (hrestored.symm.trans hr)
  exact ⟨hsquare, hrestored, hspread, hsettled⟩

end Formula.Reading
