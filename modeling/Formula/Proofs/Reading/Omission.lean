import Formula.Proofs.Reading.Adjacent
import Formula.Proofs.Reading.Chain

/-!
# Leaving multiplication signs out

In a row of groups and calls any multiplication sign between two of them may be left out, whatever
operators stand around it: the text that is left reads as the whole row does (`parse_thinned`). The
reason is that both texts are restored to the same one (`Thinned.restores`): where a sign is left
out the text before ends in a closing parenthesis, so the first pass finds an operand in front of
the group or of the name that calls it, and the second pass finds the sign there already.
-/

namespace Formula.Reading

open Formula.Bracket

variable {α : Type} [Numeral α]

/-! ## Rows -/

/-- The members of a row: groups, and calls of functions, around texts that read. -/
inductive Block : List Char → Expr α → Prop
  | group {s x} : Expr.read true s = .ok x → Block (parenthesised s) x
  | call {f s x} : f ∈ Symbol.functions → Expr.read true s = .ok x →
    Block (f.name ++ parenthesised s) (f.apply x)

/-- The first text is a row of blocks with operators between them and at most one sign in front. The
second is the first with some of the multiplication signs between blocks left out. -/
inductive Thinned (α : Type) [Numeral α] : List Char → List Char → Prop
  | single (sign) {w} {x : Expr α} : sign = [] ∨ sign = ['+'] ∨ sign = ['-'] → Block w x →
      Thinned α (sign ++ w) (sign ++ w)
  | join {s t c w} {x : Expr α} : Thinned α s t → Symbol.isOperatorChar c = true → Block w x →
      Thinned α (s ++ c :: w) (t ++ c :: w)
  | leave {s t w} {x : Expr α} : Thinned α s t → Block w x → Thinned α (s ++ '*' :: w) (t ++ w)

/-- Blocks side by side, and their product, in which the first factors are multiplied first. -/
inductive Juxtaposition : List Char → Expr α → Prop
  | single {w x} : Block w x → Juxtaposition w x
  | beside {s w x y} : Juxtaposition s x → Block w y → Juxtaposition (s ++ w) (.mul x y)

variable {s t u v w before : List Char} {x y : Expr α}

/-- A block is an operand. -/
theorem Block.operand (h : Block w x) : Operand true w x := by
  cases h with
  | group h => exact .group h
  | call hf h => exact .call hf h

/-- The whole row is a chain of operators. -/
theorem Thinned.chain (h : Thinned α s t) : Chain α true s := by
  induction h with
  | single sign hsign hw =>
    refine .single sign (fun c hc => ?_) hw.operand
    rcases hsign with rfl | rfl | rfl
    · cases hc
    · exact .inl (List.mem_singleton.1 hc)
    · exact .inr (List.mem_singleton.1 hc)
  | join _ hc hw ih => exact .join [] ih hc (by simp) hw.operand
  | leave _ hw ih => exact .join [] ih (c := '*') rfl (by simp) hw.operand

/-- A juxtaposition is what is left of the product of its blocks. -/
theorem Juxtaposition.exists_thinned (h : Juxtaposition s x) :
    ∃ t, Thinned α t s ∧ Term (Operand true) t x := by
  induction h with
  | single hw => exact ⟨_, .single [] (.inl rfl) hw, .factor (.operand hw.operand)⟩
  | beside _ hw ih =>
    obtain ⟨t, ht, hx⟩ := ih
    exact ⟨_, ht.leave hw, .times hx (.operand hw.operand)⟩

/-! ## Restoring signs -/

/-- Behind a closing parenthesis the name before a group is found whole. -/
theorem Restores.call_behind_group {f : Symbol} (hf : f.isOperator = false)
    (h : Restores true before s u) (hs : s.getLast? = some ')') (ht : balanced t = true)
    (hv : restored? true t = some v) :
    Restores true before (s ++ (f.name ++ parenthesised t))
      (u ++ '*' :: (f.name ++ parenthesised v)) := by
  have hname : beforeName? (f.name.reverse ++ (s.reverse ++ before)) =
    some (s.reverse ++ before) := by
    obtain ⟨a, rfl⟩ := List.getLast?_eq_some_iff.1 hs
    rw [List.reverse_append, List.reverse_singleton, List.singleton_append, List.cons_append,
      beforeName?_append (o := ')') rfl, beforeName?_name hf]
    rfl
  exact h.behind (not_mem_name hf rfl) (not_mem_name hf rfl)
    (openJoint?_call hf ⟨')', hs, .inr rfl⟩ before hname) ht hv

/-- A block is restored in one way, where an operand may begin and, with a sign in front, behind a
closing parenthesis. -/
theorem Block.restores (h : Block w x) : ∃ v,
    (∀ before, Front before → Restores true before (squeezed w) v) ∧
      ∀ before s u, Front before → s.getLast? = some ')' → Restores true before s u →
        Restores true before (s ++ squeezed w) (u ++ '*' :: v) := by
  cases h with
  | group h =>
    have hbalanced := balanced_of_readsAs (readsAs_of_read h)
    obtain ⟨v, hv, -⟩ := readsAs_of_read h
    rw [squeezed_parenthesised]
    refine ⟨parenthesised v, fun before hb => restores_parenthesised hb hbalanced hv,
      fun before s u hb hs hu => ?_⟩
    have hnames : ∀ f ∈ Symbol.functions, ¬ f.name <:+ s := by
      obtain ⟨a, rfl⟩ := List.getLast?_eq_some_iff.1 hs
      exact not_name_suffix (by decide) a
    exact hu.group_behind ⟨')', hs, .inr rfl⟩ hb hnames hbalanced hv
  | call hf h =>
    have hf := mem_functions.1 hf
    have hbalanced := balanced_of_readsAs (readsAs_of_read h)
    obtain ⟨v, hv, -⟩ := readsAs_of_read h
    rw [squeezed_call hf]
    exact ⟨_, fun before hb => restores_call hf hb hbalanced hv, fun before s u hb hs hu =>
      hu.call_behind_group hf hs hbalanced hv⟩

/-- A block ends in a parenthesis. -/
theorem Block.getLast?_squeezed (h : Block w x) (s : List Char) :
    (s ++ squeezed w).getLast? = some ')' := by
  cases h with
  | group =>
    rw [squeezed_parenthesised, parenthesised, ← List.append_assoc, List.getLast?_concat]
  | call hf =>
    rw [squeezed_call (mem_functions.1 hf), parenthesised, ← List.append_assoc, ← List.append_assoc,
      List.getLast?_concat]

/-- The row and what is left of it are restored to the same text. -/
theorem Thinned.restores (h : Thinned α s t) (hb : Front before) :
    ∃ u, Restores true before (squeezed s) u ∧ Restores true before (squeezed t) u ∧
      (squeezed t).getLast? = some ')' := by
  induction h with
  | single sign hsign hw =>
    obtain ⟨v, hv, -⟩ := hw.restores
    have hsigned : ∀ c, Symbol.isOperatorChar c = true →
      Restores true before (c :: squeezed _) (c :: v) :=
      fun c hc => (restores_nil before).join hc (hv _ (front_cons hc before))
    rw [squeezed_append]
    rcases hsign with rfl | rfl | rfl
    · exact ⟨v, hv before hb, hv before hb, hw.getLast?_squeezed []⟩
    · exact ⟨_, hsigned '+' rfl, hsigned '+' rfl, hw.getLast?_squeezed ['+']⟩
    · exact ⟨_, hsigned '-' rfl, hsigned '-' rfl, hw.getLast?_squeezed ['-']⟩
  | @join s t c w x _ hc hw ih =>
    obtain ⟨u, hs, ht, -⟩ := ih
    obtain ⟨v, hv, -⟩ := hw.restores
    have hblank : Text.isBlank c = false :=
      forall_ascii (P := fun c => Symbol.isOperatorChar c = true → Text.isBlank c = false)
        (by decide) (toNat_lt_of_isOperatorChar hc) hc
    rw [squeezed_append, squeezed_append, squeezed_cons hblank]
    refine ⟨u ++ c :: v, hs.join hc (hv _ (front_cons hc _)),
      ht.join hc (hv _ (front_cons hc _)), ?_⟩
    have := hw.getLast?_squeezed (squeezed t ++ [c])
    simpa using this
  | @leave s t w x _ hw ih =>
    obtain ⟨u, hs, ht, hlast⟩ := ih
    obtain ⟨v, hv, hbehind⟩ := hw.restores
    rw [squeezed_append, squeezed_append, squeezed_cons rfl]
    exact ⟨u ++ '*' :: v, hs.join rfl (hv _ (front_cons rfl _)), hbehind before _ u hb hlast ht,
      hw.getLast?_squeezed _⟩

/-! ## Reading -/

/-- A row with signs left out is in ASCII. -/
theorem Thinned.toNat_lt (h : Thinned α s t) : ∀ c ∈ t, c.toNat < 128 := by
  induction h with
  | single sign hsign hw =>
    refine List.forall_mem_append.2 ⟨?_, hw.operand.toNat_lt⟩
    rcases hsign with rfl | rfl | rfl
    · exact List.forall_mem_nil _
    · exact List.forall_mem_singleton.2 (by decide)
    · exact List.forall_mem_singleton.2 (by decide)
  | join _ hc hw ih =>
    exact List.forall_mem_append.2 ⟨ih, List.forall_mem_cons.2 ⟨toNat_lt_of_isOperatorChar hc,
      hw.operand.toNat_lt⟩⟩
  | leave _ hw ih => exact List.forall_mem_append.2 ⟨ih, hw.operand.toNat_lt⟩

/-- What is left of a row reads as the row. -/
theorem Thinned.read_eq [Numeral.Signed α] (h : Thinned α s t) :
    ∃ x : Expr α, Expr.read true s = .ok x ∧ Expr.read true t = .ok x := by
  obtain ⟨x, hx⟩ := h.chain.exists_sum
  obtain ⟨u, hs, ht, -⟩ := h.restores (show Front [] by simp [Front])
  have hread := hx.read_eq
  refine ⟨x, hread, ?_⟩
  rw [read_eq_ok_iff (foreignChar?_eq_none.2 h.toNat_lt)]
  -- What the row was restored to is the one text that both are restored to.
  obtain ⟨u', hu', hpart⟩ := readsAs_of_read hread
  rw [restored?_of_restores hs] at hu'
  obtain rfl := Option.some.inj hu'
  exact ⟨u, restored?_of_restores ht, hpart⟩

/-- A juxtaposition reads as its product. -/
theorem Juxtaposition.read_eq [Numeral.Signed α] (h : Juxtaposition s x) :
    Expr.read true s = .ok x := by
  obtain ⟨t, ht, hx⟩ := h.exists_thinned
  obtain ⟨y, hy, hs⟩ := ht.read_eq
  have := hy.symm.trans (Sum.term hx).read_eq
  rw [hs, Except.ok.inj this]

/-- A row of blocks reads the same after any of its multiplication signs are left out, and what is
then a juxtaposition reads as its product. -/
theorem parse_thinned {full text : String} (h : Thinned Float full.toList text.toList) :
    ∃ x : Expr Float, Expr.parse full = .ok x ∧ Expr.parse text = .ok x ∧
      ∀ y, Juxtaposition text.toList y → y = x := by
  obtain ⟨x, hfull, htext⟩ := h.read_eq
  exact ⟨x, hfull, htext, fun y hy => Except.ok.inj (hy.read_eq.symm.trans htext)⟩

/-- Signs left out before a name that ends in another one and between groups, with a quotient in the
middle and a sign missing inside the call as well. -/
theorem parse_thinned_around_quotient :
    Thinned Float "-(x)*cosec(2(y))/(z)*(x)".toList "-(x)cosec(2(y))/(z)(x)".toList ∧
      ∃ x : Expr Float, Expr.parse "-(x)*cosec(2(y))/(z)*(x)" = .ok x ∧
        Expr.parse "-(x)cosec(2(y))/(z)(x)" = .ok x := by
  have hx : Expr.read true ['x'] = .ok (.var 'x' : Expr Float) := by decide +kernel
  have hy : Expr.read true "2(y)".toList = .ok (.mul (.num 2) (.var 'y') : Expr Float) := by
    decide +kernel
  have hz : Expr.read true ['z'] = .ok (.var 'z' : Expr Float) := by decide +kernel
  have hfirst : Thinned Float "-(x)".toList "-(x)".toList :=
    .single ['-'] (.inr (.inr rfl)) (.group hx)
  have hcall : Block (Symbol.cosec.name ++ parenthesised "2(y)".toList) (Symbol.cosec.apply _) :=
    .call (by decide) hy
  have hrow : Thinned Float "-(x)*cosec(2(y))/(z)*(x)".toList "-(x)cosec(2(y))/(z)(x)".toList :=
    ((hfirst.leave hcall).join (c := '/') rfl (.group hz)).leave (.group hx)
  obtain ⟨x, hfull, htext, -⟩ := parse_thinned hrow
  exact ⟨hrow, x, hfull, htext⟩

end Formula.Reading
