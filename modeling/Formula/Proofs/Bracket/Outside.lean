import Formula.Bracket.Cut
import Formula.Proofs.Bracket.Balance

/-!
# Places outside brackets

`Outside P s` says that `P` holds of every place of `s` outside brackets. It is told for a text from
the parts of the text: of a group only the opening bracket is outside (`outside_group`). The
searches through the cuts of a text that only stop outside brackets are then told by the places
outside brackets, the first of them by `find?_cuts` and the last by `find?_reverse_cuts`.
-/

namespace Formula.Bracket

/-- Does `P` hold of every place outside brackets? A place is given by the text before it, in
reading order, its character and the text after it. -/
def Outside (P : List Char → Char → List Char → Prop) (s : List Char) : Prop :=
  ∀ a c b, s = a ++ c :: b → depth a = 0 → P a c b

variable {P Q : List Char → Char → List Char → Prop} {s t : List Char}

/-- A weaker property holds of the places outside brackets too. -/
theorem Outside.imp (h : Outside P s) (hPQ : ∀ a c b, P a c b → Q a c b) : Outside Q s :=
  fun a c b hs hd => hPQ a c b (h a c b hs hd)

/-- The empty text has no places. -/
theorem outside_nil : Outside P [] := by
  intro a c b hs
  simp at hs

/-- The places outside brackets of two texts, of which the first leaves no group open. -/
theorem outside_append (hd : depth s = 0) : Outside P (s ++ t) ↔
    Outside (fun a c b => P a c (b ++ t)) s ∧ Outside (fun a c b => P (s ++ a) c b) t := by
  constructor
  · intro h
    refine ⟨fun a c b hs ha => h a c (b ++ t) (by simp [hs]) ha, fun a c b ht ha => ?_⟩
    exact h (s ++ a) c b (by simp [ht]) (by simp [hd, ha])
  · rintro ⟨hs, ht⟩ a c b hst ha
    rcases List.append_eq_append_iff.1 hst with ⟨a', rfl, ha'⟩ | ⟨b', rfl, hb'⟩
    · exact ht a' c b ha' (by simpa [hd] using ha)
    · cases b' with
      | nil =>
        obtain rfl : c :: b = t := hb'
        simpa using ht [] c b rfl rfl
      | cons d b' =>
        simp only [List.cons_append, List.cons.injEq] at hb'
        obtain ⟨rfl, rfl⟩ := hb'
        exact hs a c b' rfl ha

/-- A first character that is no bracket stands outside, and the rest is looked at with it before.
-/
theorem outside_cons {c : Char} (hc : rise c = 0) : Outside P (c :: s) ↔
    P [] c s ∧ Outside (fun a d b => P (c :: a) d b) s := by
  have hone : Outside (fun a d b => P a d (b ++ s)) [c] ↔ P [] c s := by
    constructor
    · intro h
      exact h [] c [] rfl rfl
    · intro h a d b hs _
      cases a with
      | nil =>
        simp only [List.nil_append, List.cons.injEq] at hs
        obtain ⟨rfl, rfl⟩ := hs
        exact h
      | cons => simp at hs
  have := outside_append (P := P) (s := [c]) (t := s) (by simp [hc])
  rwa [hone] at this

/-- Of a group only the opening bracket stands outside. -/
theorem outside_group {o : Char} {m : List Char} (ho : isOpening o = true)
    (hm : balanced m = true) :
    Outside P (o :: m ++ closer o :: t) ↔
      P [] o (m ++ closer o :: t) ∧ Outside (fun a c b => P (o :: m ++ closer o :: a) c b) t := by
  have hd : depth (o :: m ++ [closer o]) = 0 := by
    simp [rise_of_isOpening ho, depth_of_balanced hm, rise_of_isClosing (isOpening_closer ho).2]
  have hgroup : Outside (fun a c b => P a c (b ++ t)) (o :: m ++ [closer o]) ↔
      P [] o (m ++ closer o :: t) := by
    constructor
    · intro h
      simpa using h [] o (m ++ [closer o]) rfl rfl
    · intro h a c b hs ha
      cases a with
      | nil =>
        simp only [List.nil_append, List.cons_append, List.cons.injEq] at hs
        obtain ⟨rfl, rfl⟩ := hs
        simpa using h
      | cons d a =>
        -- What follows the opening bracket before the place is a beginning of the text inside.
        simp only [List.cons_append, List.cons.injEq] at hs
        obtain ⟨rfl, hs⟩ := hs
        have hle : 0 ≤ depth a := by
          rcases List.eq_nil_or_concat b with rfl | ⟨b', d, rfl⟩
          · obtain rfl : m = a := List.append_inj_left' hs rfl
            exact Int.le_of_eq (depth_of_balanced hm).symm
          · have hlast : m ++ [closer o] = (a ++ c :: b') ++ [d] := by simpa using hs
            obtain rfl := List.append_inj_left' hlast rfl
            exact depth_beginning_of_balanced hm
        simp only [depth_cons, rise_of_isOpening ho] at ha
        omega
  have := outside_append (P := P) (t := t) hd
  rw [hgroup] at this
  simpa using this

/-! ## Cuts -/

/-- The cuts of a text are its places. -/
theorem mem_cutsAfter {k : Cut} {before : List Char} {d : Int} : k ∈ cutsAfter before d s ↔
    ∃ a, s = a ++ k.char :: k.after ∧ k.before = a.reverse ++ before ∧ k.depth = d + depth a := by
  induction s generalizing before d with
  | nil => simp [cutsAfter]
  | cons c s ih =>
    simp only [cutsAfter, List.mem_cons, ih]
    constructor
    · rintro (rfl | ⟨a, rfl, hb, hd⟩)
      · exact ⟨[], rfl, rfl, by simp⟩
      · exact ⟨c :: a, rfl, by simp [hb], by simp [hd, Int.add_assoc]⟩
    · rintro ⟨a, hs, hb, hd⟩
      cases a with
      | nil =>
        simp only [List.nil_append, List.cons.injEq] at hs
        left
        cases k
        simp_all
      | cons c' a =>
        simp only [List.cons_append, List.cons.injEq] at hs
        obtain ⟨rfl, hs⟩ := hs
        exact Or.inr ⟨a, hs, by simp [hb], by simp [hd, Int.add_assoc]⟩

/-- The cuts of a text are its characters, with the text before and after each and its depth there.
-/
theorem mem_cuts {k : Cut} :
    k ∈ cuts s ↔ s = k.left ++ k.char :: k.after ∧ k.depth = depth k.left := by
  rw [cuts, mem_cutsAfter]
  constructor
  · rintro ⟨a, hs, hb, hd⟩
    have ha : k.left = a := by simp [Cut.left, hb]
    exact ⟨ha ▸ hs, by rw [ha, hd, Int.zero_add]⟩
  · rintro ⟨hs, hd⟩
    exact ⟨k.left, hs, by simp [Cut.left], by rw [hd, Int.zero_add]⟩

/-- The cuts of two texts in a row are those of the first, each with the second text behind it, and
those of the second, which begin at the depth where the first ends. -/
theorem cutsAfter_append (before : List Char) (d : Int) (s t : List Char) :
    cutsAfter before d (s ++ t) =
      (cutsAfter before d s).map (fun k => { k with after := k.after ++ t })
        ++ cutsAfter (s.reverse ++ before) (d + depth s) t := by
  induction s generalizing before d with
  | nil => simp [cutsAfter]
  | cons c s ih => simp [cutsAfter, ih, Int.add_assoc]

variable {p : Cut → Bool}

/-- A search that only stops outside brackets does not stop where it stops at no place outside
brackets. -/
theorem find?_cuts_eq_none (hp : ∀ k, p k = true → k.isOutside = true)
    (h : Outside (fun a c b => p ⟨a.reverse, 0, c, b⟩ = false) s) : (cuts s).find? p = none := by
  rw [List.find?_eq_none]
  intro k hk hpk
  obtain ⟨hs, hd⟩ := mem_cuts.1 hk
  have hzero : k.depth = 0 := by simpa [Cut.isOutside] using hp k hpk
  have hk' : (⟨k.left.reverse, 0, k.char, k.after⟩ : Cut) = k := by
    cases k
    simp_all [Cut.left]
  have : p ⟨k.left.reverse, 0, k.char, k.after⟩ = false :=
    h k.left k.char k.after hs (by rw [← hd, hzero])
  rw [hk', hpk] at this
  cases this

/-- No cut is found from behind if no place outside brackets satisfies the test. -/
theorem find?_reverse_cuts_eq_none (hp : ∀ k, p k = true → k.isOutside = true)
    (h : Outside (fun a c b => p ⟨a.reverse, 0, c, b⟩ = false) s) :
    (cuts s).reverse.find? p = none := by
  have := List.find?_eq_none.1 (find?_cuts_eq_none hp h)
  exact List.find?_eq_none.2 fun k hk => this k (List.mem_reverse.1 hk)

/-- A search from the left stops at a place that passes, if no place before it does. -/
theorem find?_cuts {a b : List Char} {c : Char} (hp : ∀ k, p k = true → k.isOutside = true)
    (hd : depth a = 0) (hc : p ⟨a.reverse, 0, c, b⟩ = true)
    (h : Outside (fun a' c' b' => p ⟨a'.reverse, 0, c', b' ++ c :: b⟩ = false) a) :
    (cuts (a ++ c :: b)).find? p = some ⟨a.reverse, 0, c, b⟩ := by
  have hnone : (cuts a).find? (fun k => p { k with after := k.after ++ c :: b }) = none :=
    find?_cuts_eq_none (fun k hk => (hp { k with after := k.after ++ c :: b } hk :)) h
  rw [cuts, cutsAfter_append, List.find?_append, List.find?_map]
  rw [show (cutsAfter [] 0 a).find? (p ∘ fun k => { k with after := k.after ++ c :: b }) =
    none from hnone]
  simp [cutsAfter, hd, hc]

/-- A search from the right stops at a place that passes, if no place behind it does. -/
theorem find?_reverse_cuts {a b : List Char} {c : Char} (hp : ∀ k, p k = true → k.isOutside = true)
    (hd : depth a = 0) (hr : rise c = 0) (hc : p ⟨a.reverse, 0, c, b⟩ = true)
    (h : Outside (fun a' c' b' => p ⟨(a ++ c :: a').reverse, 0, c', b'⟩ = false) b) :
    (cuts (a ++ c :: b)).reverse.find? p = some ⟨a.reverse, 0, c, b⟩ := by
  rw [cuts, cutsAfter_append, List.reverse_append, List.find?_append]
  simp only [cutsAfter, List.reverse_cons, List.find?_append, List.append_nil, hd, hr, Int.add_zero]
  have hnone : (cutsAfter (c :: a.reverse) 0 b).reverse.find? p = none := by
    rw [List.find?_eq_none]
    intro k hk hpk
    obtain ⟨a', hb, hbefore, hdepth⟩ := mem_cutsAfter.1 (List.mem_reverse.1 hk)
    have hzero : k.depth = 0 := by simpa [Cut.isOutside] using hp k hpk
    have hk' : (⟨(a ++ c :: a').reverse, 0, k.char, k.after⟩ : Cut) = k := by
      cases k
      simp_all
    have : p ⟨(a ++ c :: a').reverse, 0, k.char, k.after⟩ = false :=
      h a' k.char k.after hb (by omega)
    rw [hk', hpk] at this
    cases this
  simp [hnone, hc]

end Formula.Bracket
