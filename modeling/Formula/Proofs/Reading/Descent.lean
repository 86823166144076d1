import Formula.Proofs.Reading.Faults

/-!
# The descent of the reader

The reader takes a text apart and reads the parts in the same way, without a look at what came
before. Once a text has been entered, so is balanced, not empty and not between parentheses, its
dissection is exact: with the operator, the name and the brackets between them its parts make up the
text, and a bracket that is looked for is found (`Dissection.IsExact`). All parts are shorter than
the text. So reading by itself, which knows nothing of lengths and gives up when parts are nested
too deep (`readWithin`), ends on every text within as many steps as the text has characters
(`parseWith_descends`).
-/

namespace Formula.Reading

open Formula.Bracket

variable {s t : List Char}

/-! ## Exact dissections -/

/-- Do the parts make up the text, unless it is a single unknown symbol? A call may lack its operand
at the end. -/
def Dissection.IsExact (s : List Char) : Dissection → Prop
  | refused e => ∃ c, s = [c] ∧ e = .unknownSymbol [c]
  | call f base before (.error e) => (call f base before (.error e)).written = s ∧ e = .empty
  | d => d.written = s

/-- The parts are written one after the other. -/
theorem infix_written {d : Dissection} {p : List Char} (hp : p ∈ d.parts) : p <:+: d.written := by
  cases d with
  | operation op l r =>
    simp only [Dissection.parts, List.mem_cons, List.not_mem_nil, or_false] at hp
    rcases hp with rfl | rfl
    · exact ⟨[], op.name ++ r, by simp [Dissection.written]⟩
    · exact ⟨l ++ op.name, [], by simp [Dissection.written]⟩
  | negated t | affirmed t =>
    obtain rfl := List.mem_singleton.1 hp
    exact (List.suffix_cons _ p).isInfix
  | product l r =>
    simp only [Dissection.parts, List.mem_cons, List.not_mem_nil, or_false] at hp
    rcases hp with rfl | rfl
    · exact (List.prefix_append p r).isInfix
    · exact (List.suffix_append l p).isInfix
  | letter | refused => cases hp
  | call f base before tail =>
    simp only [Dissection.parts, List.mem_append, Option.mem_toList, List.mem_cons] at hp
    rcases hp with hp | rfl | hp
    · subst hp
      exact ⟨before ++ f.name ++ ['['], ']' :: _, by simp [Dissection.written]; rfl⟩
    · exact ⟨[], _, by simp [Dissection.written]; rfl⟩
    · cases tail with
      | error e => cases hp
      | ok tail =>
        obtain ⟨operand, after⟩ := tail
        have hend : operand ++ after <:+:
          (Dissection.call f base before (.ok (operand, after))).written :=
          (List.suffix_append _ _).isInfix
        simp only [List.mem_cons, List.not_mem_nil, or_false] at hp
        rcases hp with rfl | rfl
        · exact (List.prefix_append p after).isInfix.trans hend
        · exact (List.suffix_append operand p).isInfix.trans hend

/-- The parts of an exact dissection stand in the text. -/
theorem Dissection.IsExact.isInfix {d : Dissection} (h : d.IsExact s) :
    ∀ p ∈ d.parts, p <:+: s := by
  intro p hp
  have hpiece := infix_written hp
  cases d with
  | operation | negated | affirmed | product | letter => exact h ▸ hpiece
  | refused => cases hp
  | call f base before tail =>
    cases tail with
    | ok => exact h ▸ hpiece
    | error => exact h.1 ▸ hpiece

/-- No bracket is looked for in vain. -/
theorem Dissection.IsExact.fault {d : Dissection} (h : d.IsExact s) :
    ∀ e ∈ d.fault?, ∀ u, e ≠ .unbalanced u := by
  rintro e he u rfl
  cases d with
  | operation | negated | affirmed | product | letter => cases he
  | refused =>
    obtain rfl := Option.some.inj he
    obtain ⟨c, -, h⟩ := h
    cases h
  | call f base before tail =>
    cases tail with
    | ok => cases he
    | error =>
      obtain rfl := Option.some.inj he
      cases h.2

/-! ## Dissecting an entered text -/

/-- A call is exact if its name, its base and what follows make up the text. -/
theorem isExact_call {f : Symbol} {base : Option (List Char)} {before : List Char}
    (whole : List Char) (ht : balanced t = true)
    (hs : s = before ++ f.name ++
      (match base with | none => [] | some b => '[' :: b ++ [']']) ++ t) :
    (Dissection.call f base before (splitOperand whole t)).IsExact s := by
  rcases splitOperand_cases whole ht with ⟨rfl, hsplit⟩ | ⟨operand, after, rfl, hsplit, -⟩
  · rw [hsplit, hs]
    exact ⟨rfl, rfl⟩
  · rw [hsplit, hs]
    rfl

/-- A text taken apart at a function name outside brackets is made up of the parts. -/
theorem isExact_callAt {f : Symbol} {k : Cut} (hf : f.isOperator = false) (hs : balanced s = true)
    (hk : k ∈ cuts s) (hout : k.isOutside = true) (hname : f.name <+: k.char :: k.after) :
    (callAt f k).IsExact s := by
  obtain ⟨-, hright⟩ := balanced_of_mem_cuts hs hk hout
  obtain ⟨t, ht⟩ := hname
  have htext : s = k.left ++ (f.name ++ t) := by rw [ht, eq_of_mem_cuts hk]
  rw [← ht, balanced_append (balanced_of_plain (plain_name hf))] at hright
  simp only [callAt, ← ht, List.drop_left]
  split
  next hbase =>
    -- The base is the group behind the name, and the operand is looked for behind the base.
    obtain ⟨t, rfl⟩ : ∃ t', t = '[' :: t' := by
      cases t with
      | nil => cases hbase.2
      | cons c t => exact ⟨t, by rw [Option.some.inj hbase.2]⟩
    have hopen : balancedAfter ['['] t = true := hright
    obtain ⟨b, after, rfl, hb, hafter⟩ := exists_closing hopen
    have hgroup := splitGroup?_group (o := '[') rfl hb after
    rw [List.cons_append] at hgroup
    rw [hgroup]
    exact isExact_call _ hafter (by simp [htext, closer])
  · exact isExact_call _ hright (by simp [htext])

/-- Of a row of symbols the last one, or the last group, is taken off, and something is left before
it. -/
theorem isExact_symbols (hs : balanced s = true) (hne : s ≠ []) (hnone : enclosed? s = none) :
    (symbols s).IsExact s := by
  obtain ⟨w, c, rfl⟩ := (List.eq_nil_or_concat s).resolve_left hne
  rw [List.concat_eq_append] at hs hne hnone ⊢
  rcases List.eq_nil_or_concat w with rfl | ⟨w', d, rfl⟩
  · rw [List.nil_append, symbols]
    split
    · rfl
    · exact ⟨c, rfl, rfl⟩
  rw [List.concat_eq_append] at hs hne hnone ⊢
  by_cases hc : c = ')'
  · subst hc
    obtain ⟨t, o, m, hw, ho, hcloser, hm⟩ := exists_opening (b := []) hs rfl
    obtain rfl : o = '(' := by
      simp only [isOpening, Bool.or_eq_true, beq_iff_eq] at ho
      exact ho.resolve_right fun h => by simp [h, closer] at hcloser
    have htext : w' ++ [d] ++ [')'] = t ++ parenthesised m := by simp [hw, parenthesised]
    rw [htext] at hnone ⊢
    have hleft : t.isEmpty = false := by
      rw [List.isEmpty_eq_false_iff]
      rintro rfl
      rw [List.nil_append, enclosed?_parenthesised hm] at hnone
      cases hnone
    rw [symbols_group hm, hleft]
    rfl
  · rw [symbols_concat (by simp) hc]
    rfl

/-- The dissection of an entered text is exact. -/
theorem isExact_dissect (hs : balanced s = true) (hne : s ≠ []) (hnone : enclosed? s = none) :
    (dissect s).IsExact s := by
  refine dissect_induction (fun k hk hout hchar => ?_) ?_ ?_ (fun f hf k => isExact_callAt hf hs)
    (isExact_symbols hs hne hnone)
  · exact (splits_operationAt hs hk hout hchar).written rfl
  · rintro t rfl
    rfl
  · rintro t rfl
    rfl

/-- What is entered is taken apart without loss. -/
theorem isExact_of_enter {shown : List Char} {t : { t : List Char // t.length ≤ s.length }}
    (h : enter shown s = .ok t) :
    (dissect t.val).IsExact t.val := by
  obtain ⟨hs, hne, ht⟩ := enter_eq_ok h
  rw [ht]
  exact isExact_dissect (balanced_strip hs) hne (enclosed?_strip s)

/-! ## Reading by itself -/

variable {α : Type} [Numeral α] {depth : Nat}

/-- The result of a reading that did not give up. -/
def ended (r : Except ParseError (Expr α)) : ExceptT ParseError Option (Expr α) :=
  ExceptT.mk (some r)

/-- What a dissection reads as when `f` reads its parts. A part behind one that fails is not
read. -/
def Dissection.readBy (f : List Char → ExceptT ParseError Option (Expr α)) :
    Dissection → ExceptT ParseError Option (Expr α)
  | operation op l r => do return op.combine (← f l) (← f r)
  | negated s => negate <$> f s
  | affirmed s => f s
  | product l r => do return .mul (← f l) (← f r)
  | call g base before tail => do
    let base ← match base with
      | none => pure none
      | some b => some <$> f b
    match tail with
    | .error e => throw e
    | .ok (operand, after) =>
      let argument ← f operand
      let result := match base with
        | some b => Expr.logarithm b argument
        | none => g.apply argument
      let result ← if before.isEmpty then pure result else (Expr.mul · result) <$> f before
      if after.isEmpty then pure result else Expr.mul result <$> f after
  | letter c => pure (leaf c)
  | refused e => throw e

/-- The expression that a part reads as, if it is found with parts nested less than `depth` deep.
Nothing is asked of the length of a part. `shown` is the text that a report on the brackets
shows. -/
def readWithin : Nat → List Char → List Char → ExceptT ParseError Option (Expr α)
  | 0, _, _ => ExceptT.mk none
  | depth + 1, shown, s =>
    match enter shown s with
    | .error e => throw e
    | .ok t =>
      if Literal.isLiteral t then ended (readNumber t)
      else (dissect t).readBy fun p => readWithin depth p p

omit [Numeral α] in
/-- A function applied to a result that did not give up. -/
theorem ended_map (g : Expr α → Expr α) (r : Except ParseError (Expr α)) :
    g <$> ended r = ended (r.map g) := by
  cases r <;> rfl

omit [Numeral α] in
/-- An operation on two results that did not give up. -/
theorem ended_both (g : Expr α → Expr α → Expr α) (l r : Except ParseError (Expr α)) :
    (do return g (← ended l) (← ended r)) = ended (do return g (← l) (← r)) := by
  cases l with
  | error => rfl
  | ok => cases r <;> rfl

/-- The factors before and behind a call are read as they are in the reader. -/
theorem readBy_factors {f : List Char → ExceptT ParseError Option (Expr α)}
    {before after : List Char} (hbefore : f before = ended (readPart before))
    (hafter : f after = ended (readPart after)) (result : Expr α) :
    (do
      let result ← if before.isEmpty then pure result else (Expr.mul · result) <$> f before
      if after.isEmpty then pure result else Expr.mul result <$> f after) =
    ended (do
      let result ← if before.isEmpty then pure result else (readPart before).map (Expr.mul · result)
      if after.isEmpty then pure result else (readPart after).map (Expr.mul result ·)) := by
  have hlast : ∀ product : Expr α,
      (if after.isEmpty then pure product else Expr.mul product <$> f after) =
        ended (if after.isEmpty then pure product
          else (readPart after).map (Expr.mul product ·)) := by
    intro product
    split
    · rfl
    · rw [hafter, ended_map]
  simp only [hlast, hbefore, ended_map]
  split
  · rfl
  · cases (readPart before : Except ParseError (Expr α)) <;> rfl

/-- A text reads as its dissection does when its parts are read. -/
theorem readBy_eq {f : List Char → ExceptT ParseError Option (Expr α)}
    (hf : ∀ p ∈ (dissect s).parts, f p = ended (readPart p)) :
    (dissect s).readBy f = ended (readBody s) := by
  rw [readBody]
  split
  next op l r hd =>
    have hl := hf l (by simp [hd, Dissection.parts])
    have hr := hf r (by simp [hd, Dissection.parts])
    refine (congrArg (Dissection.readBy f) hd).trans ?_
    rw [Dissection.readBy, hl, hr, ended_both]
  next t hd =>
    have ht := hf t (by simp [hd, Dissection.parts])
    refine (congrArg (Dissection.readBy f) hd).trans ?_
    rw [Dissection.readBy, ht, ended_map]
  next t hd =>
    exact (congrArg (Dissection.readBy f) hd).trans (hf t (by simp [hd, Dissection.parts]))
  next l r hd =>
    have hl := hf l (by simp [hd, Dissection.parts])
    have hr := hf r (by simp [hd, Dissection.parts])
    refine (congrArg (Dissection.readBy f) hd).trans ?_
    rw [Dissection.readBy, hl, hr, ended_both]
  next g base before tail hd =>
    refine (congrArg (Dissection.readBy f) hd).trans ?_
    cases tail with
    | error e =>
      cases base with
      | none => rfl
      | some b =>
        have hb := hf b (by simp [hd, Dissection.parts])
        simp only [Dissection.readBy, hb]
        cases (readPart b : Except ParseError (Expr α)) <;> rfl
    | ok tail =>
      obtain ⟨operand, after⟩ := tail
      have hoperand := hf operand (by simp [hd, Dissection.parts])
      have hfactors := readBy_factors (hf before (by simp [hd, Dissection.parts]))
        (hf after (by simp [hd, Dissection.parts]))
      cases base with
      | none =>
        simp only [Dissection.readBy, hoperand]
        cases (readPart operand : Except ParseError (Expr α)) with
        | error => rfl
        | ok argument => exact hfactors _
      | some b =>
        have hb := hf b (by simp [hd, Dissection.parts])
        simp only [Dissection.readBy, hb, hoperand]
        cases (readPart b : Except ParseError (Expr α)) with
        | error => rfl
        | ok base =>
          cases (readPart operand : Except ParseError (Expr α)) with
          | error => rfl
          | ok argument => exact hfactors _
  next c hd => exact congrArg (Dissection.readBy f) hd
  next e hd => exact congrArg (Dissection.readBy f) hd

/-- Parts nested no deeper than the text is long are all that is asked for. -/
theorem readWithin_eq {shown : List Char} (h : s.length < depth) :
    (readWithin depth shown s : ExceptT ParseError Option (Expr α)) =
      ended (match enter shown s with
        | .error e => .error e
        | .ok ⟨t, _⟩ => if Literal.isLiteral t then readNumber t else readBody t) := by
  induction depth generalizing shown s with
  | zero => cases h
  | succ depth ih =>
    rw [readWithin]
    cases enter shown s with
    | error e => rfl
    | ok t =>
      dsimp only
      split
      · rfl
      · refine readBy_eq fun p hp => ?_
        have hshorter := length_lt_of_mem_parts hp
        have hlength := t.property
        exact (ih (by omega)).trans (congrArg ended (readPart.eq_1 p).symm)

/-- Without restoring signs no reading fails for signs out of order. -/
theorem inOrder_read_false (s : List Char) :
    InOrder (Expr.read false s : Except ParseError (Expr α)) := by
  unfold Expr.read
  split
  · exact fun t h => by cases h
  · split
    next e he => exact fun t h => inOrder_enter (Text.trim s) _ t (by rw [he, Except.error.inj h])
    next t ht _ =>
      split
      · exact inOrder_readNumber t
      · exact inOrder_readBody fun u _ => inOrder_readPart u

end Formula.Reading

namespace Formula.Expr

open Reading

variable {α : Type} [Numeral α]

/-- The expression that a text reads as without restoring signs, if parts are nested less than
`depth` deep. -/
def parseWithin (depth : Nat) (text : String) : ExceptT ParseError Option (Expr α) :=
  match foreignChar? text.toList with
  | some c => throw (.unknownSymbol [c])
  | none => readWithin depth (Text.trim text.toList) (squeezed text.toList)

/-- A depth beyond the length of the text is enough for the whole reading. -/
theorem parseWithin_eq {depth : Nat} {text : String} (h : text.toList.length < depth) :
    (parseWithin depth text : ExceptT ParseError Option (Expr α)) =
      some (parseWith false text) := by
  unfold parseWithin parseWith read
  cases foreignChar? text.toList with
  | some c => rfl
  | none =>
    have hlength : (squeezed text.toList).length ≤ text.toList.length := List.length_filter_le _ _
    dsimp only
    rw [readWithin_eq (by omega), squeezed]
    cases enter (Text.trim text.toList) (text.toList.filter (!Text.isBlank ·)) with
    | error e => rfl
    | ok t => cases Literal.isLiteral t.val <;> rfl

/-- Without restoring signs every text is read or refused for what is wrong with it, and parts are
nested no deeper than the text is long. Whatever text is entered on the way, its parts make it up
and are shorter, and no bracket in it is looked for in vain. -/
theorem parseWith_descends (text : String) :
    (∀ depth, text.toList.length < depth →
      (parseWithin depth text : ExceptT ParseError Option (Expr α)) = some (parseWith false text)) ∧
      (∀ u, (parseWith false text : Except ParseError (Expr α)) ≠ .error (.outOfOrder u)) ∧
      ∀ (shown s : List Char) (t : { t : List Char // t.length ≤ s.length }),
        enter shown s = .ok t → (dissect t.val).IsExact t.val ∧
          (∀ p ∈ (dissect t.val).parts, p <:+: t.val ∧ p.length < t.val.length) ∧
          ∀ e ∈ (dissect t.val).fault?, ∀ u, e ≠ .unbalanced u := by
  refine ⟨fun depth hdepth => parseWithin_eq hdepth, inOrder_read_false text.toList,
    fun shown s t ht => ?_⟩
  · have hexact := isExact_of_enter ht
    exact ⟨hexact, fun p hp => ⟨hexact.isInfix p hp, length_lt_of_mem_parts hp⟩, hexact.fault⟩

/-- A logarithm between two factors is taken apart into its base, what stands before it, its operand
and what stands behind it. -/
theorem parseWith_descends_between_factors :
    (parseWithin 12 "2log[3](x)y" : ExceptT ParseError Option (Expr Float)) =
      some (parseWith false "2log[3](x)y") ∧
      (dissect "2log[3](x)y".toList).parts = [['3'], ['2'], "(x)".toList, ['y']] ∧
      (dissect "2log[3](x)y".toList).IsExact "2log[3](x)y".toList := by
  obtain ⟨hdeep, -, hexact⟩ := parseWith_descends (α := Float) "2log[3](x)y"
  have hparts : (dissect "2log[3](x)y".toList).parts = [['3'], ['2'], "(x)".toList, ['y']] := by
    decide
  have hentered : enter "2log[3](x)y".toList "2log[3](x)y".toList =
    .ok ⟨"2log[3](x)y".toList, Nat.le_refl _⟩ :=
    enter_eq_of_bare rfl (by decide) rfl
  exact ⟨hdeep 12 (by decide), hparts, (hexact _ _ _ hentered).1⟩

end Formula.Expr
