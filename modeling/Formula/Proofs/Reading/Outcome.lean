import Formula.Proofs.Expr.Operations
import Formula.Proofs.Reading.Dissection
import Formula.Reading.Parse

/-!
# What the reader builds

A text that reads was taken apart to the end, and what its parts read as was put together again
(`Builds`). So trees that were read hold no pending derivative, their constants are Euler's number,
their variables are other letters, and their logarithms have the kinds of their bases: every node is
ordinary (`Expr.everywhere_isOrdinary_of_read`).
-/

namespace Formula

variable {α : Type}

namespace Expr

section
variable [Scalar α]

/-- Could the node have been read? A variable is a letter, but not `e`, which is the only constant;
a logarithm has the kind of its base. -/
def IsOrdinary : Expr α → Prop
  | var id => id.isAlpha = true ∧ id ≠ 'e'
  | const id => id = 'e'
  | pending .. => False
  | log base _ kind => kind = base.baseKind
  | _ => True

/-- What is built could have been read. -/
theorem holdsOfBuilt_isOrdinary : HoldsOfBuilt (IsOrdinary : Expr α → Prop) where
  ofInt _ _ := trivial
  euler := rfl
  folded _ _ := trivial
  add _ _ := trivial
  sub _ _ := trivial
  mul _ _ := trivial
  div _ _ := trivial
  pow _ _ := trivial
  logarithm _ _ := rfl
  sin _ := trivial
  cos _ := trivial
  tan _ := trivial

end

end Expr

namespace Reading

open Formula.Expr

variable [Numeral α]

/-! ## What is put together -/

/-- A factor beside a call is joined to what stands next to it, if there is one. -/
inductive Joins (join : Expr α → Expr α → Expr α) (t : List Char) (x : Expr α) : Expr α → Prop
  | none : t = [] → Joins join t x x
  | factor {y} : t ≠ [] → readPart t = .ok y → Joins join t x (join y x)

/-- The expression is put together from what the parts of the dissection read as. -/
inductive Builds : Dissection → Expr α → Prop
  | operation {op l r x y} : readPart l = .ok x → readPart r = .ok y →
    Builds (.operation op l r) (op.combine x y)
  | negated {t x} : readPart t = .ok x → Builds (.negated t) (negate x)
  | affirmed {t x} : readPart t = .ok x → Builds (.affirmed t) x
  | product {l r x y} : readPart l = .ok x → readPart r = .ok y → Builds (.product l r) (.mul x y)
  | call {f before operand after x y z} : readPart operand = .ok x →
    Joins .mul before (f.apply x) y →
      Joins (fun r l => .mul l r) after y z → Builds (.call f none before (.ok (operand, after))) z
  | logarithm {f base before operand after b x y z} : readPart base = .ok b →
    readPart operand = .ok x →
      Joins .mul before (Expr.logarithm b x) y → Joins (fun r l => .mul l r) after y z →
      Builds (.call f (some base) before (.ok (operand, after))) z
  | letter (c) : Builds (.letter c) (leaf c)

variable {s : List Char} {x y : Expr α}

/-- Two steps in a row succeed when the first does and then the second. -/
theorem exists_of_bind_eq_ok {ε β γ : Type} {e : Except ε β} {f : β → Except ε γ} {r : γ}
    (h : e >>= f = .ok r) : ∃ a, e = .ok a ∧ f a = .ok r := by
  cases e with
  | error => cases h
  | ok a => exact ⟨a, rfl, h⟩

/-- A function of a result succeeds when the result does. -/
theorem exists_of_map_eq_ok {ε β γ : Type} {e : Except ε β} {f : β → γ} {r : γ}
    (h : e.map f = .ok r) :
    ∃ a, e = .ok a ∧ f a = r := by
  cases e with
  | error => cases h
  | ok a => exact ⟨a, rfl, Except.ok.inj h⟩

/-- A call is joined to what its neighbour reads as, or stands alone. -/
theorem joins_of_map_eq_ok {join : Expr α → Expr α → Expr α} {t : List Char}
    (h : (if t.isEmpty then pure x else (readPart t).map (join · x) : Except ParseError (Expr α)) =
      .ok y) :
    Joins join t x y := by
  split at h
  next hempty =>
    obtain rfl := Except.ok.inj h
    exact .none (List.isEmpty_iff.1 hempty)
  next hne =>
    obtain ⟨z, hz, rfl⟩ := exists_of_map_eq_ok h
    exact .factor (fun h => hne (List.isEmpty_iff.2 h)) hz

/-- A call is joined to what stands before it and then to what stands behind. -/
theorem exists_joins {before after : List Char} {result : Expr α}
    (h : (do
      let result ← if before.isEmpty then pure result else (readPart before).map (Expr.mul · result)
      if after.isEmpty then pure result else (readPart after).map (Expr.mul result ·)) = .ok x) :
    ∃ y, Joins .mul before result y ∧ Joins (fun r l => .mul l r) after y x := by
  dsimp only at h
  split at h
  next hempty => exact ⟨result, .none (List.isEmpty_iff.1 hempty), joins_of_map_eq_ok h⟩
  next hne =>
    obtain ⟨y, hy, h⟩ := exists_of_bind_eq_ok h
    obtain ⟨z, hz, rfl⟩ := exists_of_map_eq_ok hy
    exact ⟨.mul z result, .factor (fun h => hne (List.isEmpty_iff.2 h)) hz, joins_of_map_eq_ok h⟩

/-- What a text reads as is put together from what its parts read as. -/
theorem builds_of_readBody (h : readBody s = .ok x) : Builds (dissect s) x := by
  rw [readBody] at h
  split at h
  next op l r hd =>
    obtain ⟨y, hy, h⟩ := exists_of_bind_eq_ok h
    obtain ⟨z, hz, h⟩ := exists_of_bind_eq_ok h
    obtain rfl := Except.ok.inj h
    exact hd ▸ .operation hy hz
  next t hd =>
    obtain ⟨y, hy, rfl⟩ := exists_of_map_eq_ok h
    exact hd ▸ .negated hy
  next t hd => exact hd ▸ .affirmed h
  next l r hd =>
    obtain ⟨y, hy, h⟩ := exists_of_bind_eq_ok h
    obtain ⟨z, hz, h⟩ := exists_of_bind_eq_ok h
    obtain rfl := Except.ok.inj h
    exact hd ▸ .product hy hz
  next f base before tail hd =>
    cases base with
    | none =>
      obtain ⟨_, hbase, h⟩ := exists_of_bind_eq_ok h
      obtain rfl := Except.ok.inj hbase
      cases tail with
      | error e => cases h
      | ok tail =>
        obtain ⟨operand, after⟩ := tail
        obtain ⟨y, hy, h⟩ := exists_of_bind_eq_ok h
        obtain ⟨z, hbefore, hafter⟩ := exists_joins h
        exact hd ▸ .call hy hbefore hafter
    | some base =>
      obtain ⟨_, hbase, h⟩ := exists_of_bind_eq_ok h
      obtain ⟨b, hb, rfl⟩ := exists_of_map_eq_ok hbase
      cases tail with
      | error e => cases h
      | ok tail =>
        obtain ⟨operand, after⟩ := tail
        obtain ⟨y, hy, h⟩ := exists_of_bind_eq_ok h
        obtain ⟨z, hbefore, hafter⟩ := exists_joins h
        exact hd ▸ .logarithm hb hy hbefore hafter
  next c hd =>
    obtain rfl := Except.ok.inj h
    exact hd ▸ .letter c
  next e hd => cases h

/-! ## Ordinary nodes -/

/-- The leaf of a letter is made of nodes that could have been read. -/
theorem isOrdinary_leaf {c : Char} (hc : c.isAlpha = true) :
    (leaf c : Expr α).Everywhere IsOrdinary := by
  unfold leaf
  split
  next h => exact h
  next h => exact ⟨hc, h⟩

/-- A sign in front brings in no node that could not have been read. -/
theorem isOrdinary_negate (h : x.Everywhere IsOrdinary) : (negate x).Everywhere IsOrdinary := by
  unfold negate
  split
  · trivial
  · exact ⟨trivial, trivial, h.2.2⟩
  · exact ⟨trivial, trivial, h⟩

/-- An operator brings in no node that could not have been read. -/
theorem isOrdinary_combine (op : Symbol) (hx : x.Everywhere IsOrdinary)
    (hy : y.Everywhere IsOrdinary) :
    (op.combine x y).Everywhere IsOrdinary := by
  cases op <;> exact ⟨trivial, hx, hy⟩

/-- A number that is read could have been read. -/
theorem isOrdinary_readNumber (h : readNumber s = .ok x) : x.Everywhere IsOrdinary := by
  unfold readNumber at h
  split at h
  · obtain rfl := Except.ok.inj h
    trivial
  · cases h

/-- Only letters are dissected as letters. -/
theorem isAlpha_of_dissect {c : Char} (h : dissect s = .letter c) : c.isAlpha = true := by
  refine dissect_induction (s := s) (P := fun d => d = .letter c →
    c.isAlpha = true) ?_ ?_ ?_ ?_ ?_ h
  · exact fun k _ _ _ h => by cases h
  · exact fun t _ h => by cases h
  · exact fun t _ h => by cases h
  · intro f _ k _ _ _ h
    rw [callAt] at h
    repeat' split at h
    all_goals cases h
  · intro h
    unfold symbols at h
    repeat' split at h
    all_goals simp_all

/-- Joining a call to its neighbour brings in no node that could not have been read. -/
theorem Joins.isOrdinary {join : Expr α → Expr α → Expr α} {t : List Char} (h : Joins join t x y)
    (hjoin : ∀ a b : Expr α, a.Everywhere IsOrdinary → b.Everywhere IsOrdinary →
      (join a b).Everywhere IsOrdinary)
    (ht : ∀ z : Expr α, readPart t = .ok z → z.Everywhere IsOrdinary)
    (hx : x.Everywhere IsOrdinary) :
    y.Everywhere IsOrdinary := by
  cases h with
  | none => exact hx
  | factor _ hy => exact hjoin _ _ (ht _ hy) hx

/-- What a text reads as is ordinary if what its parts read as is. -/
theorem isOrdinary_readBody
    (ih : ∀ t : List Char, t.length < s.length → ∀ y : Expr α, readPart t = .ok y →
      y.Everywhere IsOrdinary)
    (h : readBody s = .ok x) : x.Everywhere IsOrdinary := by
  have hpart : ∀ t ∈ (dissect s).parts, ∀ y : Expr α, readPart t = .ok y →
    y.Everywhere IsOrdinary :=
    fun t ht => ih t (length_lt_of_mem_parts ht)
  have hbuilt : HoldsOfOperations (IsOrdinary : Expr α → Prop) :=
    holdsOfBuilt_isOrdinary.toHoldsOfOperations
  have hbuilds := builds_of_readBody h
  generalize hd : dissect s = d at hbuilds hpart
  cases hbuilds with
  | operation hl hr =>
    exact isOrdinary_combine _ (hpart _ (by simp [Dissection.parts]) _ hl)
      (hpart _ (by simp [Dissection.parts]) _ hr)
  | negated ht => exact isOrdinary_negate (hpart _ (by simp [Dissection.parts]) _ ht)
  | affirmed ht => exact hpart _ (by simp [Dissection.parts]) _ ht
  | product hl hr =>
    exact ⟨trivial, hpart _ (by simp [Dissection.parts]) _ hl,
      hpart _ (by simp [Dissection.parts]) _ hr⟩
  | call hoperand hbefore hafter =>
    have hresult := hbefore.isOrdinary (fun _ _ ha hb => ⟨trivial, ha, hb⟩)
      (hpart _ (by simp [Dissection.parts]))
      (.apply hbuilt _ (hpart _ (by simp [Dissection.parts]) _ hoperand))
    exact hafter.isOrdinary (fun _ _ ha hb => ⟨trivial, hb, ha⟩)
      (hpart _ (by simp [Dissection.parts])) hresult
  | logarithm hbase hoperand hbefore hafter =>
    have hresult := hbefore.isOrdinary (fun _ _ ha hb => ⟨trivial, ha, hb⟩)
      (hpart _ (by simp [Dissection.parts]))
      (.logarithm hbuilt (hpart _ (by simp [Dissection.parts]) _ hbase)
        (hpart _ (by simp [Dissection.parts]) _ hoperand))
    exact hafter.isOrdinary (fun _ _ ha hb => ⟨trivial, hb, ha⟩)
      (hpart _ (by simp [Dissection.parts])) hresult
  | letter c => exact isOrdinary_leaf (isAlpha_of_dissect hd)

/-- Every node of what a part reads as could have been read. -/
theorem isOrdinary_readPart (h : readPart s = .ok x) : x.Everywhere IsOrdinary := by
  induction hn : s.length using Nat.strongRecOn generalizing s x with
  | ind n ih =>
    have ihBody : ∀ t : List Char, t.length ≤ s.length → ∀ y : Expr α, readBody t = .ok y →
        y.Everywhere IsOrdinary := fun t ht y hy =>
      isOrdinary_readBody (fun u hu z hz => ih u.length (by omega) hz rfl) hy
    rw [readPart] at h
    split at h
    · cases h
    next t ht _ =>
      split at h
      · exact isOrdinary_readNumber h
      · exact ihBody t ht x h

end Reading

namespace Expr

open Reading

variable [Numeral α]

/-- Every node of a tree that was read is ordinary. -/
theorem everywhere_isOrdinary_of_read {restore : Bool} {s : List Char} {x : Expr α}
    (h : read restore s = .ok x) :
    x.Everywhere IsOrdinary := by
  have hbody : ∀ {t : List Char}, readBody t = .ok x → x.Everywhere IsOrdinary := fun h =>
    isOrdinary_readBody (fun _ _ _ h => isOrdinary_readPart h) h
  unfold read at h
  split at h
  · cases h
  · split at h
    · cases h
    · split at h
      · exact isOrdinary_readNumber h
      · split at h
        · exact hbody h
        · split at h
          · exact hbody h
          · cases h

end Expr

end Formula
