import Formula.Proofs.Reading.Juxtaposition
import Formula.Proofs.Reading.Parse

/-!
# From a whole text to its parts

A formula enters the reader through `Expr.read`, which takes parentheses and literals off before it
restores signs, and its parts enter through `readPart`, which finds the signs restored. Both read
the same: restored signs neither balance brackets nor enclose a text nor make it a literal
(`Starred`), and what is restored between the parentheses around a text is what is restored in the
text. So a text reads as the part that it is after its signs have been restored (`read_eq`,
`read_eq_ok_iff`).
-/

namespace Formula.Reading

open Formula.Bracket

/-! ## Texts with more multiplication signs -/

/-- The second text is the first with multiplication signs inserted. -/
inductive Starred : List Char → List Char → Prop
  | nil : Starred [] []
  | star {s u} : Starred s u → Starred s ('*' :: u)
  | cons {s u} (c : Char) : Starred s u → Starred (c :: s) (c :: u)

variable {restore : Bool} {s t u v before : List Char}

/-- Every text is itself with no signs inserted. -/
theorem Starred.refl (s : List Char) : Starred s s := by
  induction s with
  | nil => exact .nil
  | cons c s ih => exact .cons c ih

/-- Signs inserted into two texts are inserted into the two side by side. -/
theorem Starred.append (hs : Starred s u) (ht : Starred t v) : Starred (s ++ t) (u ++ v) := by
  induction hs with
  | nil => exact ht
  | star _ ih => exact .star ih
  | cons c _ ih => exact .cons c ih

/-- Signs inserted one time after another are inserted signs. -/
theorem Starred.trans (h : Starred s t) (h' : Starred t u) : Starred s u := by
  induction h' generalizing s with
  | nil => exact h
  | star _ ih => exact .star (ih h)
  | cons c _ ih =>
    cases h with
    | star h => exact .star (ih h)
    | cons _ h => exact .cons c (ih h)

/-- Inserting at given places inserts multiplication signs only. -/
theorem starred_of_insertTimesAfter? {d : Nat} {ps : List Nat}
    (h : insertTimesAfter? d ps s = some u) :
    Starred s u := by
  induction ps generalizing d s u with
  | nil =>
    obtain rfl := Option.some.inj h
    exact .refl s
  | cons p ps ih =>
    simp only [insertTimesAfter?, Option.ite_none_left_eq_some, Option.map_eq_some_iff] at h
    obtain ⟨-, v, hv, rfl⟩ := h
    have := (Starred.refl (s.take (p - d))).append (.star (ih hv))
    rwa [List.take_append_drop] at this

/-- The second pass inserts multiplication signs only. -/
theorem starred_closed (s : List Char) : Starred s (closed s) := by
  induction s with
  | nil => exact .nil
  | cons c s ih =>
    rw [closed]
    split
    · exact .cons c (.star ih)
    · exact .cons c ih

/-- Restoring signs inserts multiplication signs only. -/
theorem starred_of_restoreTimes? (h : restoreTimes? s = some u) : Starred s u := by
  rw [restoreTimes?_eq] at h
  obtain ⟨v, hv, rfl⟩ := Option.map_eq_some_iff.1 h
  exact (starred_of_insertTimesAfter? hv).trans (starred_closed v)

/-- Multiplication signs do not balance brackets. -/
theorem Starred.balancedAfter_eq (h : Starred s u) (opened : List Char) :
    balancedAfter opened u = balancedAfter opened s := by
  induction h generalizing opened with
  | nil => rfl
  | star _ ih => exact ih opened
  | cons c _ ih =>
    simp only [balancedAfter]
    split
    · exact ih _
    · split
      · cases opened with
        | nil => rfl
        | cons o opened => simp only [ih]
      · exact ih _

/-- Inserted signs do not matter for the balance of brackets. -/
theorem Starred.balanced_eq (h : Starred s u) : balanced u = balanced s :=
  h.balancedAfter_eq []

/-- Inserting signs loses no character. -/
theorem Starred.subset (h : Starred s u) : s ⊆ u := by
  induction h with
  | nil => exact List.Subset.refl []
  | star _ ih => exact List.subset_cons_of_subset '*' ih
  | cons c _ ih => exact List.cons_subset_cons c ih

/-- A character of a text with signs inserted was there before or is such a sign. -/
theorem Starred.mem_or {c : Char} (h : Starred s u) (hc : c ∈ u) : c = '*' ∨ c ∈ s := by
  induction h with
  | nil => exact .inr hc
  | star _ ih =>
    rcases List.mem_cons.1 hc with rfl | hc
    · exact .inl rfl
    · exact ih hc
  | cons d _ ih =>
    rcases List.mem_cons.1 hc with rfl | hc
    · exact .inr List.mem_cons_self
    · exact (ih hc).imp_right (List.mem_cons_of_mem d)

/-- A text without multiplication signs is only itself with signs inserted. -/
theorem Starred.eq_of_not_mem (h : Starred s u) (hu : '*' ∉ u) : u = s := by
  induction h with
  | nil => rfl
  | star _ _ => simp at hu
  | cons c _ ih =>
    simp only [List.mem_cons, not_or] at hu
    rw [ih hu.2]

/-- Unless it is a multiplication sign, a last character was last before signs were inserted. -/
theorem Starred.exists_of_append {c : Char} (hc : c ≠ '*') (h : Starred s (u ++ [c])) :
    ∃ t, s = t ++ [c] ∧ Starred t u := by
  induction u generalizing s with
  | nil =>
    cases h with
    | star h => exact absurd rfl hc
    | cons _ h =>
      cases h
      exact ⟨[], rfl, .nil⟩
  | cons d u ih =>
    cases h with
    | star h =>
      obtain ⟨t, rfl, ht⟩ := ih h
      exact ⟨t, rfl, .star ht⟩
    | cons _ h =>
      obtain ⟨t, rfl, ht⟩ := ih h
      exact ⟨d :: t, rfl, .cons d ht⟩

/-- Multiplication signs do not enclose a text. -/
theorem Starred.enclosed?_eq_none (h : Starred s u) (hs : balanced s = true)
    (hnone : enclosed? s = none) :
    enclosed? u = none := by
  rw [Option.eq_none_iff_forall_ne_some]
  intro m hm
  obtain ⟨rfl, hbalanced⟩ := eq_parenthesised_of_enclosed? (h.balanced_eq.trans hs) hm
  cases h with
  | cons _ h =>
    obtain ⟨t, rfl, ht⟩ := Starred.exists_of_append (by decide) h
    have := enclosed?_parenthesised (m := t) (by rw [← ht.balanced_eq, hbalanced])
    rw [show '(' :: (t ++ [')']) = parenthesised t from rfl, this] at hnone
    cases hnone

/-- Multiplication signs make no literal. -/
theorem Starred.eq_of_isLiteral (h : Starred s u) (hu : Literal.isLiteral u = true) : u = s :=
  h.eq_of_not_mem (Literal.not_mem_of_isLiteral_of_foreign (by decide) hu)

/-! ## Restoring signs around and inside parentheses -/

/-- A text with its signs restored, if they are to be restored. -/
def restored? (restore : Bool) (s : List Char) : Option (List Char) :=
  if restore then restoreTimes? s else some s

/-- Whether signs are restored or not, only multiplication signs come in. -/
theorem starred_of_restored? (h : restored? restore s = some u) : Starred s u := by
  cases restore with
  | true => exact starred_of_restoreTimes? h
  | false =>
    obtain rfl := Option.some.inj h
    exact .refl s

/-- What is restored between the parentheses around a text is what is restored in the text. -/
theorem restored?_parenthesised (restore : Bool) (hs : balanced s = true) :
    restored? restore (parenthesised s) = (restored? restore s).map parenthesised := by
  cases restore with
  | false => rfl
  | true =>
    have hlast : Opens (s.reverse ++ ['(']) [')'] [')'] := opens_of_not_mem (by decide) _
    have hinside : Anchored ['('] (s ++ [')']) := (anchored_inside rfl hs []).append hlast.1
    have hopen : opened? [] ['('] = some ['('] := rfl
    simp only [restored?, if_true, restoreTimes?_eq]
    rw [show parenthesised s = ['('] ++ (s ++ [')']) from rfl,
      opened?_append (by simpa using hinside), hopen, Option.bind_some]
    rw [show ['('].reverse ++ [] = ['('] from rfl, opened?_append hlast.1, hlast.2,
      opened?_inside rfl hs []]
    cases opened? [] s with
    | none => rfl
    | some u => exact congrArg some (closed_parenthesised u)

/-- A text without parentheses has no signs to restore. -/
theorem restored?_of_plain (restore : Bool) (hs : Plain s) : restored? restore s = some s := by
  cases restore with
  | false => rfl
  | true =>
    have hopen : '(' ∉ s := fun h => by cases (hs _ h).1
    have hclose : ')' ∉ s := fun h => by cases (hs _ h).2
    simp only [restored?, if_true, restoreTimes?_eq, (opens_of_not_mem hopen []).2,
      Option.map_some, closed_of_not_mem hclose]

/-! ## Restoring signs behind a text -/

/-- Restoring signs turns a text behind the text `before`, without a trace in that text, into
another one. -/
def Restores (restore : Bool) (before s u : List Char) : Prop :=
  if restore then ∃ v, Opens before s v ∧ closed v = u else u = s

/-- Signs are restored on both sides of an operator separately. -/
theorem Restores.join {c : Char} (hl : Restores restore before s u)
    (hc : Symbol.isOperatorChar c = true) (hr : Restores restore (c :: (s.reverse ++ before)) t v) :
    Restores restore before (s ++ c :: t) (u ++ c :: v) := by
  cases restore with
  | false => simp_all [Restores]
  | true =>
    simp only [Restores, if_true] at hl hr ⊢
    obtain ⟨u, hu, rfl⟩ := hl
    obtain ⟨v, hv, rfl⟩ := hr
    have hparen : '(' ∉ [c] := by
      rw [List.mem_singleton]
      rintro rfl
      cases hc
    have hop : Opens (s.reverse ++ before) [c] [c] := opens_of_not_mem hparen _
    refine ⟨u ++ c :: v, by simpa using hu.append (hop.append (by simpa using hv)), ?_⟩
    rw [closed_append u (stops_cons hc v), closed_cons]
    rintro rfl
    cases hc

/-- There is nothing to restore in the empty text. -/
theorem restores_nil (before : List Char) : Restores restore before [] [] := by
  cases restore with
  | false => rfl
  | true => exact ⟨[], opens_of_not_mem (by simp) before, rfl⟩

/-- A text without parentheses is restored as it is. -/
theorem restores_of_plain (h : Plain s) (before : List Char) : Restores restore before s s := by
  have hopen : '(' ∉ s := fun hs => by cases (h _ hs).1
  have hclose : ')' ∉ s := fun hs => by cases (h _ hs).2
  cases restore with
  | false => rfl
  | true => exact ⟨s, opens_of_not_mem hopen before, closed_of_not_mem hclose⟩

/-- What a text is restored to behind nothing is its restored form. -/
theorem restored?_of_restores (h : Restores restore [] s u) : restored? restore s = some u := by
  cases restore with
  | false => exact congrArg some (Eq.symm h)
  | true =>
    simp only [Restores, if_true] at h
    obtain ⟨v, hv, rfl⟩ := h
    rw [restored?, if_pos rfl, restoreTimes?_eq, hv.2, Option.map_some]

/-- A text that has been restored by itself came out of the first pass before. -/
theorem exists_opened?_of_restored? (h : restored? true s = some u) :
    ∃ v, opened? [] s = some v ∧ closed v = u := by
  rw [restored?, if_pos rfl, restoreTimes?_eq] at h
  exact Option.map_eq_some_iff.1 h

/-- Between the parentheses of an operand signs are restored as in the text by itself. -/
theorem restores_parenthesised (hb : Front before) (hs : balanced s = true)
    (h : restored? restore s = some u) :
    Restores restore before (parenthesised s) (parenthesised u) := by
  cases restore with
  | false =>
    obtain rfl := Option.some.inj h
    rfl
  | true =>
    obtain ⟨v, hv, rfl⟩ := exists_opened?_of_restored? h
    exact ⟨_, opens_parenthesised hb hs hv, closed_parenthesised v⟩

/-- In a call signs are restored in the argument only. -/
theorem restores_call {f : Symbol} (hf : f.isOperator = false) (hb : Front before)
    (hs : balanced s = true) (h : restored? restore s = some u) :
    Restores restore before (f.name ++ parenthesised s) (f.name ++ parenthesised u) := by
  cases restore with
  | false =>
    obtain rfl := Option.some.inj h
    rfl
  | true =>
    obtain ⟨v, hv, rfl⟩ := exists_opened?_of_restored? h
    exact ⟨_, opens_call hf hb hs hv, closed_call hf v⟩

/-- In a logarithm signs are restored in the base and in the argument. -/
theorem restores_logarithm (hb : Front before) (ht : balanced t = true) (hs : balanced s = true)
    (hv : restored? restore t = some v) (hu : restored? restore s = some u) :
    Restores restore before (Symbol.log.name ++ ('[' :: t ++ ']' :: parenthesised s))
      (Symbol.log.name ++ ('[' :: v ++ ']' :: parenthesised u)) := by
  cases restore with
  | false =>
    obtain rfl := Option.some.inj hv
    obtain rfl := Option.some.inj hu
    rfl
  | true =>
    obtain ⟨v', hv', rfl⟩ := exists_opened?_of_restored? hv
    obtain ⟨u', hu', rfl⟩ := exists_opened?_of_restored? hu
    exact ⟨_, opens_logarithm hb ht hs hv' hu', closed_logarithm v' u'⟩

/-! ## Blanks and foreign characters -/

/-- The text without blanks. -/
def squeezed (s : List Char) : List Char :=
  s.filter (!Text.isBlank ·)

/-- Blanks are taken out of two texts side by side. -/
theorem squeezed_append (s t : List Char) : squeezed (s ++ t) = squeezed s ++ squeezed t :=
  List.filter_append s t

/-- A first character that is no blank stays in front. -/
theorem squeezed_cons {c : Char} (hc : Text.isBlank c = false) (s : List Char) :
    squeezed (c :: s) = c :: squeezed s := by
  simp [squeezed, hc]

/-- A text without blanks stays as it is. -/
theorem squeezed_of_forall (h : ∀ c ∈ s, Text.isBlank c = false) : squeezed s = s := by
  rw [squeezed, List.filter_eq_self]
  intro c hc
  simp [h c hc]

/-- No letter is a blank. -/
theorem not_isBlank_of_isAlpha {c : Char} (h : c.isAlpha = true) : Text.isBlank c = false :=
  forall_ascii (P := fun c => c.isAlpha = true → Text.isBlank c = false) (by decide)
    (toNat_lt_of_isAlpha h) h

/-- No digit is a blank. -/
theorem not_isBlank_of_isDigit {c : Char} (h : c.isDigit = true) : Text.isBlank c = false :=
  forall_ascii (P := fun c => c.isDigit = true → Text.isBlank c = false) (by decide)
    (toNat_lt_of_isDigit h) h

/-- Blanks are taken out between parentheses. -/
theorem squeezed_parenthesised (s : List Char) :
    squeezed (parenthesised s) = parenthesised (squeezed s) := by
  rw [parenthesised, List.cons_append, squeezed_cons rfl, squeezed_append]
  rfl

/-- There are no blanks in the name of a function. -/
theorem squeezed_name {f : Symbol} (hf : f.isOperator = false) : squeezed f.name = f.name :=
  squeezed_of_forall fun c hc => not_isBlank_of_isAlpha (isAlpha_of_mem_name hf c hc)

/-- No foreign character is found in a text of ASCII, and only there. -/
theorem foreignChar?_eq_none : foreignChar? s = none ↔ ∀ c ∈ s, c.toNat < 128 := by
  simp only [foreignChar?, List.find?_eq_none, decide_eq_true_eq, Nat.not_lt]
  exact forall₂_congr fun c _ => by omega

/-! ## Reading -/

variable {α : Type} [Numeral α] {x : Expr α}

/-- The text reads as the expression after its signs have been restored. -/
def ReadsAs (restore : Bool) (s : List Char) (x : Expr α) : Prop :=
  ∃ u, restored? restore s = some u ∧ readPart u = .ok x

/-- A text that reads has balanced brackets. -/
theorem balanced_of_readsAs (h : ReadsAs restore s x) : balanced s = true := by
  obtain ⟨u, hu, hread⟩ := h
  rw [← (starred_of_restored? hu).balanced_eq, balanced_of_readPart hread]

/-- The reading of a text after its signs have been restored. -/
def readRestored (restore : Bool) (s : List Char) : Except ParseError (Expr α) :=
  match restored? restore s with
  | some u => readPart u
  | none => .error (.outOfOrder (strip s))

/-- Reading with signs restored gives what the text reads as. -/
theorem readRestored_eq_ok_iff : readRestored restore s = .ok x ↔ ReadsAs restore s x := by
  unfold readRestored ReadsAs
  cases restored? restore s with
  | some u => simp
  | none => simp

/-- Parentheses around a balanced text make no difference to the reading. -/
theorem readRestored_parenthesised (hs : balanced s = true) :
    (readRestored restore (parenthesised s) : Except ParseError (Expr α)) =
      readRestored restore s := by
  unfold readRestored
  rw [restored?_parenthesised restore hs]
  cases hu : restored? restore s with
  | some u => exact readPart_parenthesised ((starred_of_restored? hu).balanced_eq.trans hs)
  | none => simp only [Option.map_none, strip_parenthesised hs]

/-- Is the text one to take apart? It is balanced and not empty, has no parentheses around it and is
no literal. -/
structure IsBody (s : List Char) : Prop where
  balanced : balanced s = true
  ne_nil : s ≠ []
  bare : enclosed? s = none
  not_isLiteral : Literal.isLiteral s = false

/-- A restored text is as little enclosed and as little a literal as the text itself. -/
theorem IsBody.restored (h : IsBody s) (hu : restored? restore s = some u) : IsBody u := by
  have hstarred := starred_of_restored? hu
  refine ⟨hstarred.balanced_eq.trans h.balanced, ?_,
    hstarred.enclosed?_eq_none h.balanced h.bare, ?_⟩
  · rintro rfl
    cases hstarred
    exact h.ne_nil rfl
  · rw [Bool.eq_false_iff]
    intro hliteral
    rw [hstarred.eq_of_isLiteral hliteral, h.not_isLiteral] at hliteral
    cases hliteral

/-- A body with its signs restored is read as one that is to be taken apart. -/
theorem readPart_restored (h : IsBody s) (hu : restored? restore s = some u) :
    (readPart u : Except ParseError (Expr α)) = readBody u :=
  have hbody := h.restored hu
  readPart_eq_readBody hbody.balanced hbody.ne_nil hbody.bare hbody.not_isLiteral

/-- Signs are restored in what is left of a text when the parentheses around it are taken off. -/
theorem readRestored_eq (hs : balanced s = true) :
    (readRestored restore s : Except ParseError (Expr α)) =
      if (strip s).isEmpty then .error .empty
      else if Literal.isLiteral (strip s) then readNumber (strip s)
      else match restored? restore (strip s) with
        | some u => readBody u
        | none => .error (.outOfOrder (strip s)) := by
  refine of_strip (P := fun s => (readRestored restore s : Except ParseError (Expr α)) =
    if (strip s).isEmpty then .error .empty
    else if Literal.isLiteral (strip s) then readNumber (strip s)
    else match restored? restore (strip s) with
      | some u => readBody u
      | none => .error (.outOfOrder (strip s))) ?_ hs ?_
  · intro m hm ih
    rw [readRestored_parenthesised hm, ih, strip_parenthesised hm]
  · have hnone := enclosed?_strip s
    have hs := balanced_strip hs
    generalize strip s = t at hnone hs ⊢
    rw [strip_of_enclosed?_eq_none hnone, readRestored]
    cases hempty : t.isEmpty with
    | true =>
      obtain rfl := List.isEmpty_iff.1 hempty
      rw [restored?_of_plain restore (by simp [Plain])]
      exact readPart_nil
    | false =>
      cases hliteral : Literal.isLiteral t with
      | true =>
        simp [restored?_of_plain restore (plain_of_isLiteral hliteral), readPart_literal hliteral]
      | false =>
        cases hu : restored? restore t with
        | some u => simp [readPart_restored ⟨hs, by simpa using hempty, hnone, hliteral⟩ hu]
        | none => simp [strip_of_enclosed?_eq_none hnone]

/-- A formula in ASCII with balanced brackets reads as it does after its blanks are gone and its
signs have been restored. -/
theorem read_eq (hascii : foreignChar? s = none) (hs : balanced (squeezed s) = true) :
    (Expr.read restore s : Except ParseError (Expr α)) = readRestored restore (squeezed s) := by
  rw [readRestored_eq hs]
  generalize hw : squeezed s = w at hs ⊢
  rw [squeezed] at hw
  simp only [Expr.read, hascii, enter, hw, hs, Bool.not_true, Bool.false_eq_true, if_false]
  cases hempty : (strip w).isEmpty with
  | true => rfl
  | false => cases restore <;> rfl

/-- Unbalanced brackets are reported with the trimmed text. -/
theorem read_eq_unbalanced (hascii : foreignChar? s = none) (hs : balanced (squeezed s) = false) :
    (Expr.read restore s : Except ParseError (Expr α)) = .error (.unbalanced (Text.trim s)) := by
  rw [squeezed] at hs
  simp [Expr.read, hascii, enter, hs]

/-- A text of ASCII reads as its form without blanks does. -/
theorem read_eq_ok_iff (hascii : foreignChar? s = none) :
    Expr.read restore s = .ok x ↔ ReadsAs restore (squeezed s) x := by
  cases hs : balanced (squeezed s) with
  | true => rw [read_eq hascii hs, readRestored_eq_ok_iff]
  | false =>
    rw [read_eq_unbalanced hascii hs]
    refine iff_of_false (fun h => by cases h) fun h => ?_
    rw [balanced_of_readsAs h] at hs
    cases hs

/-- Only texts of ASCII read. -/
theorem toNat_lt_of_read (h : Expr.read restore s = .ok x) : ∀ c ∈ s, c.toNat < 128 := by
  rw [← foreignChar?_eq_none]
  cases hc : foreignChar? s with
  | none => rfl
  | some c => simp [Expr.read, hc] at h

end Formula.Reading
