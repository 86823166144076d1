import Formula.Proofs.Machine.ReadBack
import Formula.Proofs.Reading.Outcome
import Formula.Proofs.Scalar
import Formula.Proofs.Simplification.Preservation
import Formula.Proofs.Writing.Rereading

/-!
# From text to tree and back

When does the text of a simplified formula read as the same tree? Two things change a tree on its
way through a text: letters are taken together that the tree has apart, and a number that is close
to Euler's goes lost as the base of a natural logarithm. `IsKept` says of a node that neither
happens to it. Where it holds of every node, the tree comes back up to the order of factors
(`same_reread`), and where it fails the tree does not, since a regrouped tree is bulkier than the
tree it was made from (`swells_spelling`).
-/

namespace Formula.Expr

open Reading

variable {α : Type} [Numeral α] {e : Expr α}

/-! ## Nodes that come back -/

/-- Does a letter behind a text of this spelling become the last factor of the whole? -/
def Spelling.Keeps : Spelling α → Prop
  | closed _ => True
  | run .start _ _ => True
  | run .minus _ x => ∃ value, x = num value
  | run (.times _) _ _ => False

instance : (s : Spelling α) → Decidable s.Keeps
  | .closed _ | .run .start _ _ => isTrue trivial
  | .run .minus _ x =>
    match x with
    | num value => isTrue ⟨value, rfl⟩
    | var _ | const _ | add _ _ | sub _ _ | mul _ _ | div _ _ | pow _ _ | log _ _ _
    | pending _ _ _ | sin _ | cos _
    | tan _ => isFalse nofun
  | .run (.times _) _ _ => isFalse id

/-- Does a factor behind a text of this spelling become the last factor of the whole? Only letters
may fail to. -/
def Spelling.KeepsFactor (s : Spelling α) : Expr α → Prop
  | var _ => s.Keeps
  | _ => True

instance (s : Spelling α) : (second : Expr α) → Decidable (s.KeepsFactor second)
  | var _ => inferInstanceAs (Decidable s.Keeps)
  | num _ | const _ | add _ _ | sub _ _ | mul _ _ | div _ _ | pow _ _ | log _ _ _ | pending _ _ _
  | sin _ | cos _
  | tan _ => isTrue trivial

/-- Does the node come back from its text? A letter has to become the last factor of the whole row,
and the base of a natural logarithm, which is not written, has to be the constant. -/
def IsKept : Expr α → Prop
  | mul l r =>
    match juxtaposed? l r with
    | some false => l.spelling.KeepsFactor r
    | some true => r.spelling.KeepsFactor l
    | none => True
  | log base _ .natural => base = const 'e'
  | _ => True

instance [DecidableEq α] : DecidablePred (IsKept : Expr α → Prop)
  | mul l r =>
    match h : juxtaposed? l r with
    | some false => decidable_of_iff (l.spelling.KeepsFactor r) (by rw [IsKept, h])
    | some true => decidable_of_iff (r.spelling.KeepsFactor l) (by rw [IsKept, h])
    | none => isTrue (by rw [IsKept, h]; trivial)
  | log base _ .natural => decEq base (const 'e')
  | log _ _ .ten | log _ _ .general | num _ | var _ | const _ | add _ _ | sub _ _ | div _ _
  | pow _ _ | pending _ _ _
  | sin _ | cos _ | tan _ => isTrue trivial

/-- Does a number come back from its digits? Nodes of other kinds qualify. -/
def NumberReadsBack : Expr α → Prop
  | num value => Scalar.same (Numeral.ofDecimal (Numeral.toDecimal value).reread) value = true
  | _ => True

/-- A number reads back as its digits say. -/
theorem reread_num [Numeral.Signed α] (value : α) :
    (num value).reread = num (Numeral.ofDecimal (Numeral.toDecimal value).reread) := by
  rw [reread, spelling]
  cases hneg : Numeral.isNegative value with
  | true => simp [Spelling.expr, Lead.apply, negate, Numeral.ofDecimal_reread hneg]
  | false => simp [Spelling.expr, Lead.apply, Decimal.magnitude_of_not_isNegative hneg]

/-- A product with its sign reads back as the product of what its factors read as. -/
theorem reread_mul_of_none {l r : Expr α} (h : juxtaposed? l r = none) :
    (mul l r).reread = mul l.reread r.reread := by
  rw [reread, spelling, h]
  rfl

/-- A product without a sign reads back as its factors side by side, in the order in which they are
written. -/
theorem reread_mul_of_some {l r : Expr α} {swapped : Bool} (h : juxtaposed? l r = some swapped) :
    (mul l r).reread = if swapped then (r.spelling.beside (spellingBehind l l.spelling)).expr
      else (l.spelling.beside (spellingBehind r r.spelling)).expr := by
  rw [reread, spelling, h]
  cases swapped <;> rfl

/-- A letter that is kept is multiplied with what stands before it. -/
theorem Spelling.Keeps.expr_beside {s : Spelling α} (h : s.Keeps) (c : List Char) (y : Expr α) :
    (s.beside (.run .start c y)).expr = mul s.expr y := by
  cases s with
  | closed => rfl
  | run lead text x =>
    cases lead with
    | start => rfl
    | minus =>
      obtain ⟨value, rfl⟩ := h
      rfl
    | times => cases h

/-- A kept second factor is the last factor of what the row reads as. -/
theorem expr_beside {first second : Expr α} (ha : second.isAtomic = true)
    (hconst : second.isConstant = false) (h : first.spelling.KeepsFactor second) :
    (first.spelling.beside (spellingBehind second second.spelling)).expr =
      mul first.reread second.reread := by
  by_cases hvar : ∃ id, second = var id
  · obtain ⟨id, rfl⟩ := hvar
    exact Spelling.Keeps.expr_beside h [id] (leaf id)
  · rw [spellingBehind_of_ne ha hconst fun id hid => hvar ⟨id, hid⟩, Spelling.beside_closed]
    rfl

/-- The base of a logarithm to the base ten is a number that is ten. -/
theorem exists_of_baseKind_eq_ten {base : Expr α} (h : base.baseKind = .ten) :
    ∃ value, base = num value ∧ Scalar.same value (Scalar.ofInt 10) = true := by
  cases base with
  | num value =>
    simp only [baseKind] at h
    split at h
    next hten => exact ⟨value, rfl, hten⟩
    · split at h <;> cases h
  | const id =>
    simp only [baseKind] at h
    split at h <;> cases h
  | _ => cases h

/-- A kept product whose factors come back comes back. -/
theorem same_reread_mul {l r : Expr α} (hk : IsKept (mul l r)) (hl : l.reread.same l = true)
    (hr : r.reread.same r = true) : (mul l r).reread.same (mul l r) = true := by
  rw [IsKept] at hk
  cases hj : juxtaposed? l r with
  | none =>
    rw [reread_mul_of_none hj]
    simp [same, hl, hr]
  | some swapped =>
    obtain ⟨hlatomic, hratomic, hconst⟩ := of_juxtaposed? hj
    rw [reread_mul_of_some hj]
    rw [hj] at hk
    cases swapped with
    | false => simp [expr_beside hratomic hconst hk, same, hl, hr]
    | true => simp [expr_beside hlatomic hconst hk, same, hl, hr]

/-- A kept logarithm whose base and argument come back comes back. -/
theorem same_reread_log [Scalar.Symmetric α] {base argument : Expr α} {kind : LogBase}
    (ho : IsOrdinary (log base argument kind)) (hk : IsKept (log base argument kind))
    (hb : base.reread.same base = true) (ha : argument.reread.same argument = true) :
    (log base argument kind).reread.same (log base argument kind) = true := by
  have hkind : kind = base.baseKind := ho
  cases kind with
  | natural =>
    obtain rfl : base = const 'e' := hk
    simpa [reread, spelling, Spelling.expr, ln, logarithm, same] using ha
  | ten =>
    obtain ⟨value, rfl, hten⟩ := exists_of_baseKind_eq_ten hkind.symm
    rw [Scalar.Symmetric.same_comm] at hten
    simpa [reread, spelling, Spelling.expr, log10, logarithm, same, ofInt, hten] using ha
  | general =>
    simp only [reread, spelling, Spelling.expr, logarithm, same] at ha hb ⊢
    simp [ha, hb]

/-- A tree whose nodes are all kept comes back as it was, up to the order of factors. -/
theorem same_reread [Numeral.Signed α] [Scalar.Symmetric α] (ho : e.Everywhere IsOrdinary)
    (hk : e.Everywhere IsKept) (hn : e.Everywhere NumberReadsBack) : e.reread.same e = true := by
  induction e with
  | num value =>
    rw [reread_num]
    exact hn
  | var id =>
    have hleaf : (var id : Expr α).reread = var id := if_neg ho.2
    rw [hleaf]
    exact beq_self_eq_true id
  | const id =>
    obtain rfl : id = 'e' := ho
    rfl
  | add l r ihl ihr | sub l r ihl ihr | div l r ihl ihr | pow l r ihl ihr =>
    have hl := ihl ho.2.1 hk.2.1 hn.2.1
    have hr := ihr ho.2.2 hk.2.2 hn.2.2
    simp only [reread, spelling, Spelling.expr, same] at hl hr ⊢
    simp [hl, hr]
  | mul l r ihl ihr =>
    exact same_reread_mul hk.1 (ihl ho.2.1 hk.2.1 hn.2.1) (ihr ho.2.2 hk.2.2 hn.2.2)
  | log base argument kind ihb iha =>
    exact same_reread_log ho.1 hk.1 (ihb ho.2.1 hk.2.1 hn.2.1) (iha ho.2.2 hk.2.2 hn.2.2)
  | pending => cases ho.1
  | sin a ih | cos a ih | tan a ih =>
    have ha := ih ho.2 hk.2 hn.2
    simpa only [reread, spelling, Spelling.expr, same] using ha

/-! ## Nodes that do not come back -/

/-- A size of the tree that does not tell sums and products from those with their operands swapped,
and that grows when three factors are grouped to the right. Constants count twice, so that they are
told from numbers. -/
def bulk : Expr α → Nat
  | num _ | var _ => 1
  | const _ => 2
  | mul l r => l.bulk * r.bulk + l.bulk + r.bulk + 1
  | add l r | sub l r | div l r | pow l r | log l r _ | pending l r _ => l.bulk + r.bulk + 1
  | sin a | cos a | tan a => a.bulk + 1

omit [Numeral α] in
/-- The bulk of a tree is positive. -/
theorem bulk_pos (e : Expr α) : 0 < e.bulk := by
  cases e <;> simp [bulk]

/-- Trees that are the same are equally bulky. -/
theorem bulk_of_same {a b : Expr α} (h : a.same b = true) : a.bulk = b.bulk := by
  replace h := matches_of_same h
  induction h with
  | num | var | const => rfl
  | add _ _ ihl ihr | sub _ _ ihl ihr | mul _ _ ihl ihr | div _ _ ihl ihr | pow _ _ ihl ihr
  | log _ _ _ _ ihl ihr
  | pending _ _ _ ihl ihr => simp only [bulk, ihl, ihr]
  | @addSwap l l' r r' _ _ ihl ihr => simp only [bulk, ihl, ihr, Nat.add_comm r'.bulk]
  | @mulSwap l l' r r' _ _ ihl ihr =>
    simp only [bulk, ihl, ihr, Nat.mul_comm l'.bulk, Nat.add_right_comm _ l'.bulk]
  | sin _ ih | cos _ ih | tan _ ih => simp only [bulk, ih]

/-- Is a spelling at least as bulky as the tree it spells, and are all nodes of the tree kept when
it is not bulkier? A letter behind a closed spelling, or behind what a run multiplies, has to make
it bulkier when it is taken away from there, so neither is a single letter. -/
structure Spelling.Swells (s : Spelling α) (size : Nat) (kept : Prop) : Prop where
  le : size ≤ s.expr.bulk
  kept : s.expr.bulk = size → kept
  closed : ∀ {x}, s = .closed x → 2 ≤ x.bulk
  times : ∀ {l c x}, s = .run (.times l) c x → 2 ≤ l.bulk
  minus : ∀ {c x}, s = .run .minus c x → s.expr.bulk = size →
    (∃ value, x = num value) ∨ ∃ value r, x = mul (num value) r

/-- A closed spelling swells when what it reads as is bulky enough, and more than a letter. -/
theorem Spelling.Swells.of_closed {x : Expr α} {size : Nat} {kept : Prop} (hle : size ≤ x.bulk)
    (hkept : x.bulk = size → kept) (h : 2 ≤ x.bulk) : (Spelling.closed x).Swells size kept :=
  ⟨hle, hkept, fun hx => by cases hx; exact h, nofun, nofun⟩

/-- A run at the start swells when what it reads as is bulky enough. -/
theorem Spelling.Swells.of_start {c : List Char} {x : Expr α} {size : Nat} {kept : Prop}
    (hle : size ≤ x.bulk) (hkept : x.bulk = size → kept) :
    (Spelling.run .start c x).Swells size kept :=
  ⟨hle, hkept, nofun, nofun, nofun⟩

/-- Minus in front of a tree makes a product of it. -/
theorem bulk_opposite (x : Expr α) : x.opposite.bulk = 2 * x.bulk + 2 := by
  simp only [opposite, ofInt, bulk]
  omega

/-- A minus sign is given to a number, or to the number a product begins with, or else it becomes a
factor. -/
theorem negate_cases (x : Expr α) :
    (∃ value, x = num value ∧ negate x = num (Scalar.neg value)) ∨
      (∃ value r, x = mul (num value) r ∧ negate x = mul (num (Scalar.neg value)) r) ∨
      negate x = x.opposite := by
  unfold negate
  split
  · exact .inl ⟨_, rfl, rfl⟩
  · exact .inr (.inl ⟨_, _, rfl, rfl⟩)
  · exact .inr (.inr rfl)

/-- Unless a product begins with a number, a sign in front of it stays outside. -/
theorem negate_mul_of_ne {x : Expr α} (h : ∀ value, x ≠ num value) (y : Expr α) :
    negate (mul x y) = (mul x y).opposite := by
  cases x with
  | num value => exact absurd rfl (h value)
  | _ => rfl

variable {s : Spelling α} {size : Nat} {kept : Prop}

/-- With a sign between them, two factors swell to at least the product of their sizes, and if
exactly to it, all nodes of both factors are kept. -/
theorem Spelling.Swells.product {y : Expr α} {size' : Nat} {kept' : Prop} (h : s.Swells size kept)
    (hle : size' ≤ y.bulk) (hkept : y.bulk = size' → kept') :
    (Spelling.closed (mul s.expr y)).Swells (size * size' + size + size' + 1) (kept ∧ kept') := by
  have hmul : size * size' ≤ s.expr.bulk * y.bulk := Nat.mul_le_mul h.le hle
  have hle' := h.le
  refine .of_closed ?_ (fun heq => ?_) ?_
  · simp only [bulk]
    omega
  · simp only [bulk] at heq
    exact ⟨h.kept (by omega), hkept (by omega)⟩
  · have := bulk_pos y
    simp only [bulk]
    omega

/-- A letter that a run behind a factor takes up makes the product bulkier. -/
theorem Spelling.Swells.times_lt {l x : Expr α} {c : List Char}
    (h : (run (.times l) c x).Swells size kept) (id : Char) :
    2 * size + 2 < (mul l (mul x (var id))).bulk := by
  have hle := h.le
  have hl := h.times rfl
  simp only [expr, Lead.apply, bulk] at hle ⊢
  have hgrouped : l.bulk * (x.bulk * 1 + x.bulk + 1 + 1) = 2 * (l.bulk * x.bulk) + 2 * l.bulk := by
    rw [Nat.mul_one, Nat.add_assoc, ← Nat.two_mul, Nat.mul_add, Nat.mul_left_comm,
      Nat.mul_comm l.bulk 2]
  omega

/-- A letter that a run behind a minus sign takes up makes the product bulkier, unless a number
takes the sign. -/
theorem Spelling.Swells.minus_lt {x : Expr α} {c : List Char}
    (h : (run .minus c x).Swells size kept) (hnum : ∀ value, x ≠ num value) (id : Char) :
    2 * size + 2 < (negate (mul x (var id))).bulk := by
  have hle := h.le
  have hminus := h.minus rfl
  rw [negate_mul_of_ne hnum, bulk_opposite]
  simp only [expr, Lead.apply, bulk] at hle hminus ⊢
  rcases negate_cases x with ⟨value, hx, -⟩ | ⟨value, r, rfl, hx⟩ | hx
  · exact absurd hx (hnum value)
  · rw [hx] at hle
    simp only [bulk] at hle ⊢
    omega
  · rw [hx, bulk_opposite] at hle hminus
    have hne : 2 * x.bulk + 2 ≠ size := by
      intro heq
      rcases hminus heq with ⟨value, hx⟩ | ⟨value, r, rfl⟩
      · exact hnum value hx
      · have hbulk := congrArg bulk hx
        simp only [negate, bulk_opposite, bulk] at hbulk
        omega
    omega

/-- A letter that is taken away from what stands before it makes the whole bulkier. -/
theorem Spelling.Swells.beside_letter (h : s.Swells size kept) (c : List Char) (id : Char) :
    (s.beside (.run .start c (var id))).Swells (2 * size + 2) (kept ∧ s.Keeps) := by
  have hle := h.le
  cases s with
  | closed x =>
    have hx := h.closed rfl
    refine ⟨?_, fun heq => ⟨h.kept ?_, trivial⟩, nofun, fun hs => ?_, nofun⟩
    · simp only [beside, expr, Lead.apply, bulk] at hle ⊢
      omega
    · simp only [beside, expr, Lead.apply, bulk] at heq ⊢
      omega
    · cases hs
      exact hx
  | run lead text x =>
    cases lead with
    | start =>
      refine .of_start ?_ fun heq => ⟨h.kept ?_, trivial⟩
      · simp only [expr, Lead.apply, bulk] at hle ⊢
        omega
      · simp only [expr, Lead.apply, bulk] at heq ⊢
        omega
    | times l =>
      have hgrown := h.times_lt id
      exact ⟨hgrown.le, fun heq => absurd heq hgrown.ne', nofun,
        fun hs => by cases hs; exact h.times rfl, nofun⟩
    | minus =>
      by_cases hnum : ∃ value, x = num value
      · obtain ⟨value, rfl⟩ := hnum
        refine ⟨?_, fun heq => ⟨h.kept ?_, value, rfl⟩, nofun, nofun, fun hs _ => ?_⟩
        · simp only [beside, expr, Lead.apply, negate, bulk] at hle ⊢
          omega
        · simp only [beside, expr, Lead.apply, negate, bulk] at heq ⊢
          omega
        · cases hs
          exact .inr ⟨value, _, rfl⟩
      · have hgrown := h.minus_lt (fun value hx => hnum ⟨value, hx⟩) id
        exact ⟨hgrown.le, fun heq => absurd heq hgrown.ne', nofun, nofun, fun _ heq =>
          absurd heq hgrown.ne'⟩

/-- A spelling that swells swells with a weaker demand on what is kept. -/
theorem Spelling.Swells.imp {kept' : Prop} (h : s.Swells size kept) (himp : kept → kept') :
    s.Swells size kept' :=
  ⟨h.le, fun heq => himp (h.kept heq), h.closed, h.times, h.minus⟩

/-- Two operands, of which each is as bulky as what it spells. -/
theorem Spelling.Swells.pair {t : Spelling α} {size' : Nat} {kept' : Prop} {x : Expr α}
    (hs : s.Swells size kept) (ht : t.Swells size' kept')
    (hx : x.bulk = s.expr.bulk + t.expr.bulk + 1) :
    (Spelling.closed x).Swells (size + size' + 1) (kept ∧ kept') := by
  have hsle := hs.le
  have htle := ht.le
  have hpos := bulk_pos t.expr
  refine .of_closed (by omega) (fun heq => ⟨hs.kept ?_, ht.kept ?_⟩) (by omega) <;> omega

/-- A function of one argument swells with its argument. -/
theorem Spelling.Swells.single {x : Expr α} (hs : s.Swells size kept)
    (hx : x.bulk = s.expr.bulk + 1) :
    (Spelling.closed x).Swells (size + 1) kept := by
  have hsle := hs.le
  have hpos := bulk_pos s.expr
  exact .of_closed (by omega) (fun heq => hs.kept (by omega)) (by omega)

/-- The base of a natural logarithm is the constant or a single leaf that is less bulky. -/
theorem bulk_of_baseKind_eq_natural {base : Expr α} (ho : IsOrdinary base)
    (h : base.baseKind = .natural) :
    base = const 'e' ∨ base.bulk = 1 := by
  cases base with
  | const id => exact .inl (congrArg const ho)
  | num | var => exact .inr rfl
  | _ => cases h

/-- Without a sign between them, two factors swell as a product does, and if exactly to that size,
all nodes are kept and the first factor keeps the second one as a factor. -/
theorem Spelling.Swells.beside {second : Expr α} (ho : IsOrdinary second)
    (ha : second.isAtomic = true) (hconst : second.isConstant = false) {kept' : Prop}
    (h : s.Swells size kept) (hsecond : second.spelling.Swells second.bulk kept') :
    (s.beside (spellingBehind second second.spelling)).Swells
      (size * second.bulk + size + second.bulk + 1)
      (kept ∧ kept' ∧ s.KeepsFactor second) := by
  by_cases hvar : ∃ id, second = var id
  · obtain ⟨id, rfl⟩ := hvar
    have hleaf : (leaf id : Expr α) = var id := if_neg ho.2
    have hkept : kept' := hsecond.kept (by rw [spelling, hleaf]; rfl)
    rw [spelling, spellingBehind, hleaf]
    have hsize : size * (var id : Expr α).bulk + size + (var id : Expr α).bulk + 1 =
      2 * size + 2 := by
      simp only [bulk]
      omega
    rw [hsize]
    exact (h.beside_letter [id] id).imp fun hk => ⟨hk.1, hkept, hk.2⟩
  · rw [spellingBehind_of_ne ha hconst fun id hid => hvar ⟨id, hid⟩, Spelling.beside_closed]
    have hkeeps : s.KeepsFactor second := by
      cases second with
      | var id => exact absurd ⟨id, rfl⟩ hvar
      | _ => trivial
    exact (h.product hsecond.le hsecond.kept).imp fun hk => ⟨hk.1, hk.2, hkeeps⟩

/-- A number reads back as a single number. -/
theorem bulk_expr_num (value : α) : (num value : Expr α).spelling.expr.bulk = 1 := by
  rw [spelling]
  cases Numeral.isNegative value <;> rfl

/-- A product swells with its factors. -/
theorem swells_mul {l r : Expr α} {keptLeft keptRight : Prop} (hol : IsOrdinary l)
    (hor : IsOrdinary r) (hl : l.spelling.Swells l.bulk keptLeft)
    (hr : r.spelling.Swells r.bulk keptRight) :
    (mul l r).spelling.Swells (mul l r).bulk (IsKept (mul l r) ∧ keptLeft ∧ keptRight) := by
  cases hj : juxtaposed? l r with
  | none =>
    rw [spelling, hj]
    exact (hl.product hr.le hr.kept).imp fun hk => ⟨by rw [IsKept, hj]; trivial, hk⟩
  | some swapped =>
    obtain ⟨hlatomic, hratomic, hconst⟩ := of_juxtaposed? hj
    rw [spelling, IsKept, hj]
    cases swapped with
    | false => exact (hl.beside hor hratomic hconst hr).imp fun hk => ⟨hk.2.2, hk.1, hk.2.1⟩
    | true =>
      have hswap : (mul l r).bulk = (mul r l).bulk := by
        simp only [bulk, Nat.mul_comm l.bulk, Nat.add_right_comm _ l.bulk]
      rw [hswap]
      exact (hr.beside hol hlatomic hconst hl).imp fun hk => ⟨hk.2.2, hk.2.1, hk.1⟩

/-- A logarithm swells with its base and argument. -/
theorem swells_log {base argument : Expr α} {kind : LogBase} {keptBase keptArgument : Prop}
    (ho : IsOrdinary (log base argument kind)) (hob : IsOrdinary base)
    (hb : base.spelling.Swells base.bulk keptBase)
    (ha : argument.spelling.Swells argument.bulk keptArgument) :
    (log base argument kind).spelling.Swells (log base argument kind).bulk
      (IsKept (log base argument kind) ∧ keptBase ∧ keptArgument) := by
  have hkind : kind = base.baseKind := ho
  cases kind with
  | general => exact (hb.pair ha rfl).imp fun hk => ⟨trivial, hk⟩
  | natural =>
    rcases bulk_of_baseKind_eq_natural hob hkind.symm with rfl | hone
    · exact (hb.pair ha rfl).imp fun hk => ⟨rfl, hk⟩
    · have hale := ha.le
      have hln : argument.spelling.expr.ln.bulk = argument.spelling.expr.bulk + 3 := by
        simp only [ln, logarithm, bulk]
        omega
      rw [spelling]
      simp only [bulk, hone]
      exact .of_closed (by omega) (fun heq => absurd heq (by omega)) (by omega)
  | ten =>
    obtain ⟨value, rfl, -⟩ := exists_of_baseKind_eq_ten hkind.symm
    rw [spelling]
    refine (hb.pair ha ?_).imp fun hk => ⟨trivial, hk⟩
    rw [bulk_expr_num]
    rfl

/-- No tree shrinks when its text is read, and it keeps its size only where every node is kept. -/
theorem swells_spelling (ho : e.Everywhere IsOrdinary) :
    e.spelling.Swells e.bulk (e.Everywhere IsKept) := by
  induction e with
  | num value =>
    rw [spelling]
    cases Numeral.isNegative value with
    | true =>
      refine ⟨le_refl _, fun _ => trivial, fun hs => ?_, fun hs => ?_, fun hs _ => ?_⟩ <;> cases hs
      exact .inl ⟨_, rfl⟩
    | false => exact .of_start (le_refl _) fun _ => trivial
  | var id =>
    have hleaf : (leaf id : Expr α) = var id := if_neg ho.2
    rw [spelling, hleaf]
    exact .of_start (le_refl _) fun _ => trivial
  | const id =>
    obtain rfl : id = 'e' := ho
    exact .of_start (le_refl _) fun _ => trivial
  | add l r ihl ihr | sub l r ihl ihr | div l r ihl ihr | pow l r ihl ihr =>
    exact ((ihl ho.2.1).pair (ihr ho.2.2) rfl).imp fun hk => ⟨trivial, hk⟩
  | mul l r ihl ihr => exact swells_mul ho.2.1.self ho.2.2.self (ihl ho.2.1) (ihr ho.2.2)
  | log base argument kind ihb iha =>
    exact swells_log ho.1 ho.2.1.self (ihb ho.2.1) (iha ho.2.2)
  | pending => cases ho.1
  | sin a ih | cos a ih | tan a ih => exact ((ih ho.2).single rfl).imp fun hk => ⟨trivial, hk⟩

/-! ## Simplified formulas -/

/-- A tree comes back, up to the order of factors, exactly when every node of it is kept. -/
theorem same_reread_iff [Numeral.Signed α] [Scalar.Symmetric α] (ho : e.Everywhere IsOrdinary)
    (hn : e.Everywhere NumberReadsBack) : e.reread.same e = true ↔ e.Everywhere IsKept :=
  ⟨fun h => (swells_spelling ho).kept (bulk_of_same h), fun hk => same_reread ho hk hn⟩

/-- Machine numbers come back from their digits. -/
theorem IsNotNaN.numberReadsBack {e : Expr Float} (h : e.IsNotNaN) : e.NumberReadsBack := by
  cases e with
  | num value => exact Machine.same_toFloat_reread h
  | _ => trivial

/-- The text of a simplified formula reads as the same tree, up to the order of factors, exactly
when every node of the tree is kept. -/
theorem parse_text_simplify_iff {s : String} {t : Expr Float} (ht : Expr.parse s = .ok t)
    (hnumbers : t.simplify.Everywhere IsNotNaN) (hlegible : t.simplify.Legible false) :
    (∃ u : Expr Float, Expr.parse t.simplify.text = .ok u ∧ u.same t.simplify = true) ↔
      t.simplify.Everywhere IsKept := by
  have hordinary : t.simplify.Everywhere IsOrdinary :=
    Everywhere.simplify holdsOfBuilt_isOrdinary (everywhere_isOrdinary_of_read ht)
  have hread : Expr.parse t.simplify.text = .ok t.simplify.reread := hlegible.parse_text
  rw [← same_reread_iff hordinary (hnumbers.imp fun _ => IsNotNaN.numberReadsBack)]
  constructor
  · rintro ⟨u, hu, hsame⟩
    obtain rfl : t.simplify.reread = u := Except.ok.inj (hread.symm.trans hu)
    exact hsame
  · intro hsame
    exact ⟨_, hread, hsame⟩

/-- The letters behind a call are read as one factor, so a formula that has them apart does not come
back. -/
theorem parse_text_simplify_iff_letters :
    let t : Expr Float := add (mul (mul (sin (var 'x')) (var 'y')) (var 'z')) (num 0.5)
    Expr.parse "sin(x)*y*z+0.5" = .ok t ∧ t.simplify.Everywhere IsNotNaN ∧
      t.simplify.Legible false ∧
      ¬ ∃ u : Expr Float, Expr.parse t.simplify.text = .ok u ∧ u.same t.simplify = true := by
  intro t
  have hparse : Expr.parse "sin(x)*y*z+0.5" = .ok t := by decide +kernel
  have hnumbers : t.simplify.Everywhere IsNotNaN := by decide +kernel
  have hlegible : t.simplify.Legible false := by decide +kernel
  have hkept : ¬ t.simplify.Everywhere IsKept := by decide +kernel
  exact ⟨hparse, hnumbers, hlegible, fun hback =>
    hkept ((parse_text_simplify_iff hparse hnumbers hlegible).1 hback)⟩

end Formula.Expr
