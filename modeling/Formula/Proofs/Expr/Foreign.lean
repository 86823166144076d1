import Formula.FiniteDifference
import Formula.Proofs.Expr.Operations
import Formula.Proofs.Simplification.Preservation

/-!
# Foreign variables

A variable other than the one that a tree is differentiated by has a derivative that is not known,
and a pending derivative has no value. Evaluation fails only over a pending derivative that stands
in the tree (`Everywhere.of_evaluate_error`), and those of a derivative belong to the foreign
variables of the tree. The other way round no rule loses one of them: a rule that drops the
derivative of an operand has looked whether it has a value without any variables, and then the
operand has no foreign variables (`HasValue.not_mentions`).

A tree without foreign variables keeps to its own under differentiation and simplification
(`IsOwn`), so nothing is ever pending in its derivatives, and they can be checked by numbers.
-/

namespace Formula

/-- Where a function succeeds on every member of a list it succeeds on the list. -/
theorem exists_mapM_eq_ok {ε β γ : Type} {f : β → Except ε γ} {xs : List β}
    (h : ∀ x ∈ xs, ∃ y, f x = .ok y) :
    ∃ ys, xs.mapM f = .ok ys := by
  induction xs with
  | nil => exact ⟨[], rfl⟩
  | cons x xs ih =>
    rw [List.forall_mem_cons] at h
    obtain ⟨y, hy⟩ := h.1
    obtain ⟨ys, hys⟩ := ih h.2
    exact ⟨y :: ys, by rw [List.mapM_cons, hy, hys]; rfl⟩

namespace Expr

variable {α : Type} [Scalar α] {b : Bindings α} {e l r : Expr α} {v w : Char}

/-! ## Values -/

/-- Evaluation under bindings succeeds. -/
def HasValue (b : Bindings α) (e : Expr α) : Prop :=
  ∃ x, e.evaluate b = .ok x

section
variable {ε β : Type} {f : β → β → β} {g : β → β} {x y : Except ε β}

/-- An operation that succeeds has two operands that succeed. -/
theorem exists_of_both (h : ∃ z, (do return f (← x) (← y)) = Except.ok z) :
    (∃ a, x = .ok a) ∧ ∃ a, y = .ok a := by
  obtain ⟨z, h⟩ := h
  cases x with
  | error => cases h
  | ok a =>
    cases y with
    | error => cases h
    | ok c => exact ⟨⟨a, rfl⟩, c, rfl⟩

/-- The error of an operation is that of one of its operands. -/
theorem error_of_both {err : ε} (h : (do return f (← x) (← y)) = Except.error err) :
    x = .error err ∨ y = .error err := by
  cases x with
  | error => exact .inl h
  | ok a =>
    cases y with
    | error => exact .inr h
    | ok c => cases h

/-- The error of a function is that of its argument. -/
theorem error_of_one {err : ε} (h : (do return g (← x)) = Except.error err) : x = .error err := by
  cases x with
  | error => exact h
  | ok a => cases h

end

/-- Evaluation fails only over a pending derivative of the tree. -/
theorem Everywhere.of_evaluate_error {P : Expr α → Prop} {n d : Expr α} {order : Nat}
    (h : e.evaluate b = .error (.unresolvedDerivative n d order)) (hP : e.Everywhere P) :
    P (pending n d order) := by
  induction e with
  | num | var | const => cases h
  | add l r ihl ihr | sub l r ihl ihr | mul l r ihl ihr | div l r ihl ihr | pow l r ihl ihr =>
    rcases error_of_both h with h | h
    · exact ihl h hP.2.1
    · exact ihr h hP.2.2
  | log base argument kind ihb iha =>
    rw [evaluate] at h
    cases hargument : argument.evaluate b with
    | error err =>
      rw [hargument] at h
      cases h
      exact iha hargument hP.2.2
    | ok x =>
      rw [hargument] at h
      cases kind with
      | natural | ten => cases h
      | general => exact ihb (error_of_one h) hP.2.1
  | pending n' d' order' =>
    cases h
    exact hP.1
  | sin a ih | cos a ih | tan a ih => exact ih (error_of_one h) hP.2

/-- A tree in which nothing is pending has a value under all bindings. -/
theorem MarkerFree.hasValue (h : e.MarkerFree) (b : Bindings α) : e.HasValue b := by
  cases hvalue : e.evaluate b with
  | ok x => exact ⟨x, hvalue⟩
  | error err =>
    obtain ⟨n, d, order⟩ := err
    exact Bool.noConfusion (Everywhere.of_evaluate_error hvalue h)

/-! ## Where a derivative has a value -/

omit [Scalar α] in
/-- No variable occurs in an expression that is free of them. -/
theorem not_mentions_of_isConstant (h : e.isConstant = true) (w : Char) : e.mentions w = false := by
  induction e with
  | num | const => rfl
  | var | pending => cases h
  | add _ _ ihl ihr | sub _ _ ihl ihr | mul _ _ ihl ihr | div _ _ ihl ihr | pow _ _ ihl ihr
  | log _ _ _ ihl ihr =>
    rw [isConstant, Bool.and_eq_true] at h
    rw [mentions, ihl h.1, ihr h.2, Bool.or_self]
  | sin _ ih | cos _ ih | tan _ ih => exact ih h

/-- What is found to be a constant zero has a value under all bindings. -/
theorem hasValue_of_isConstantZero (h : e.isConstantZero = true) (b : Bindings α) : e.HasValue b :=
  exists_evaluate_of_isConstant (Bool.and_eq_true_iff.1 h).1 b

/-- A derivative of a power with a value takes values of the derivatives of base and exponent,
unless the exponent has no variables. -/
theorem hasValue_of_powDerivative {dl dr : Expr α} (h : (powDerivative l r dl dr).HasValue b) :
    dl.HasValue b ∧ (r.isConstant = true ∨ dr.HasValue b) := by
  unfold powDerivative at h
  split at h
  next hexponent =>
    have hdl := (exists_of_both (exists_of_both h).1).2
    rw [Bool.or_eq_true] at hexponent
    exact ⟨hdl, hexponent.imp id fun hzero => hasValue_of_isConstantZero hzero b⟩
  · split at h
    next hbase =>
      exact ⟨hasValue_of_isConstantZero hbase b, .inr (exists_of_both (exists_of_both h).1).2⟩
    · obtain ⟨hdr, hquotient⟩ := exists_of_both (exists_of_both h).2
      exact ⟨(exists_of_both (exists_of_both hquotient).1).2, .inr (exists_of_both hdr).1⟩

/-- A derivative of a logarithm with a value takes values of the derivatives of argument and base,
unless the base is Euler's number. -/
theorem hasValue_of_logDerivative {kind : LogBase} {dl dr : Expr α}
    (h : (logDerivative l r kind dl dr).HasValue b) :
    dr.HasValue b ∧ (kind = .natural ∨ dl.HasValue b) := by
  unfold logDerivative at h
  split at h
  next hkind => exact ⟨(exists_of_both h).1, .inl hkind⟩
  · split at h
    next hbase => exact ⟨(exists_of_both h).1, .inr (hasValue_of_isConstantZero hbase b)⟩
    · obtain ⟨hargument, hbase⟩ := exists_of_both (exists_of_both h).1
      exact ⟨(exists_of_both (exists_of_both hargument).1).1,
        .inr (exists_of_both (exists_of_both hbase).2).1⟩

/-- The base of a natural logarithm is free of variables. -/
theorem isConstant_of_baseKind_eq_natural (h : e.baseKind = .natural) : e.isConstant = true := by
  cases e with
  | num | const => rfl
  | _ => cases h

/-- A tree whose derivative has a value has no variables but the one that it was differentiated
by. -/
theorem HasValue.not_mentions (h : (e.derivative v).HasValue b) (hk : e.KindsAgree) (hw : w ≠ v) :
    e.mentions w = false := by
  induction e with
  | num | const => rfl
  | var id =>
    unfold derivative at h
    split at h
    next hid => exact beq_false_of_ne (hid ▸ hw.symm)
    · obtain ⟨x, hx⟩ := h
      cases hx
  | pending n d order =>
    simp only [derivative] at h
    split at h
    · obtain ⟨x, hx⟩ := h
      cases hx
    · obtain ⟨x, hx⟩ := (exists_of_both h).1
      cases hx
  | add l r ihl ihr | sub l r ihl ihr =>
    obtain ⟨hl, hr⟩ := exists_of_both h
    rw [mentions, ihl hl hk.2.1, ihr hr hk.2.2, Bool.or_self]
  | mul l r ihl ihr =>
    obtain ⟨hl, hr⟩ := exists_of_both h
    rw [mentions, ihl (exists_of_both hl).1 hk.2.1, ihr (exists_of_both hr).2 hk.2.2, Bool.or_self]
  | div l r ihl ihr =>
    obtain ⟨hl, hr⟩ := exists_of_both (exists_of_both h).1
    rw [mentions, ihl (exists_of_both hl).1 hk.2.1, ihr (exists_of_both hr).2 hk.2.2, Bool.or_self]
  | pow l r ihl ihr =>
    obtain ⟨hl, hr⟩ := hasValue_of_powDerivative h
    have hexponent : r.mentions w = false :=
      hr.elim (not_mentions_of_isConstant · w) fun hr => ihr hr hk.2.2
    rw [mentions, ihl hl hk.2.1, hexponent, Bool.or_self]
  | log l r kind ihl ihr =>
    have hkind : kind = l.baseKind := hk.1
    obtain ⟨hr, hl⟩ := hasValue_of_logDerivative h
    have hbase : l.mentions w = false := by
      rcases hl with hnatural | hl
      · exact not_mentions_of_isConstant (isConstant_of_baseKind_eq_natural (hkind ▸ hnatural)) w
      · exact ihl hl hk.2.1
    rw [mentions, hbase, ihr hr hk.2.2, Bool.or_self]
  | sin a ih | cos a ih | tan a ih => exact ih (exists_of_both h).2 hk.2

/-! ## What is pending in a derivative -/

/-- If the node is a variable, its name has a property. -/
def VarIs (Q : Char → Prop) : Expr α → Prop
  | var w => Q w
  | _ => True

omit [Scalar α] in
/-- If a property holds of all names that occur, every variable in the tree has it. -/
theorem everywhere_varIs {Q : Char → Prop} (h : ∀ w, e.mentions w = true → Q w) :
    e.Everywhere (VarIs Q) := by
  induction e with
  | num | const => trivial
  | var id => exact h id (beq_self_eq_true id)
  | add _ _ ihl ihr | sub _ _ ihl ihr | mul _ _ ihl ihr | div _ _ ihl ihr | pow _ _ ihl ihr
  | log _ _ _ ihl ihr
  | pending _ _ _ ihl ihr =>
    have hl := ihl fun w hw => h w (Bool.or_eq_true_iff.2 (.inl hw))
    have hr := ihr fun w hw => h w (Bool.or_eq_true_iff.2 (.inr hw))
    exact ⟨trivial, hl, hr⟩
  | sin _ ih | cos _ ih | tan _ ih => exact ⟨trivial, ih h⟩

/-- If the node is a pending derivative, it is the first one of a foreign variable of the tree. -/
def IsForeignMarkerOf (e : Expr α) (v : Char) : Expr α → Prop
  | pending n d order => ∃ w, w ≠ v ∧ e.mentions w = true ∧ n = var w ∧ d = var v ∧ order = 1
  | _ => True

/-- The nodes that are built are no pending derivatives, so nothing is asked of them. -/
theorem holdsOfBuilt_isForeignMarkerOf (e : Expr α) (v : Char) :
    HoldsOfBuilt (IsForeignMarkerOf e v) :=
  .of_forall fun s _ hs => by
    cases s with
    | pending => cases hs
    | _ => trivial

/-- What the derivative of a tree without pending derivatives leaves pending are the first
derivatives of its foreign variables. -/
theorem MarkerFree.derivative (h : e.MarkerFree) (v : Char) :
    (e.derivative v).Everywhere (IsForeignMarkerOf e v) := by
  have hnodes := Everywhere.and h (everywhere_varIs (e := e) fun w hw => hw)
  refine Everywhere.derivative_of (holdsOfBuilt_isForeignMarkerOf e v).toHoldsOfOperations ?_
    trivial ?_ ?_ hnodes
  · rintro s ⟨hs, -⟩
    cases s with
    | pending => cases hs
    | _ => trivial
  · exact fun w hw hvar => ⟨w, hw, hvar.2, rfl, rfl, rfl⟩
  · exact fun n d order hpending => Bool.noConfusion hpending.1

/-- If the derivative has no value under bindings, evaluation fails over a foreign variable. -/
theorem MarkerFree.of_evaluate_derivative_error {err : EvaluationError α} (h : e.MarkerFree)
    (herr : (e.derivative v).evaluate b = .error err) :
    ∃ w, w ≠ v ∧ e.mentions w = true ∧ err = .unresolvedDerivative (var w) (var v) 1 := by
  obtain ⟨n, d, order⟩ := err
  obtain ⟨w, hw, hmentions, rfl, rfl, rfl⟩ := Everywhere.of_evaluate_error herr (h.derivative v)
  exact ⟨w, hw, hmentions, rfl⟩

/-! ## Trees without foreign variables -/

/-- The node is neither a pending derivative nor another variable. -/
def IsOwn (v : Char) : Expr α → Prop
  | pending .. => False
  | var w => w = v
  | _ => True

/-- The nodes that are built are neither pending derivatives nor variables. -/
theorem holdsOfBuilt_isOwn (v : Char) : HoldsOfBuilt (IsOwn v : Expr α → Prop) :=
  .of_forall fun s hvar hs => by
    cases s with
    | pending => cases hs
    | var w => exact absurd rfl (hvar w)
    | _ => trivial

omit [Scalar α] in
/-- A tree without pending derivatives and with one variable at most is all its own. -/
theorem MarkerFree.everywhere_isOwn (h : e.MarkerFree) (hv : ∀ w, e.mentions w = true → w = v) :
    e.Everywhere (IsOwn v) := by
  refine (Everywhere.and h (everywhere_varIs hv)).imp ?_
  rintro s ⟨hs, hvar⟩
  cases s with
  | pending => cases hs
  | var w => exact hvar
  | _ => trivial

omit [Scalar α] in
/-- A tree that is all its own has no pending derivatives. -/
theorem Everywhere.markerFree (h : e.Everywhere (IsOwn v)) : e.MarkerFree := by
  refine h.imp fun s hs => ?_
  cases s with
  | pending => exact hs.elim
  | _ => rfl

/-- Differentiating by the only variable leaves a tree all its own. -/
theorem everywhere_isOwn_derivative (h : e.Everywhere (IsOwn v)) :
    (e.derivative v).Everywhere (IsOwn v) :=
  Everywhere.derivative_of (holdsOfBuilt_isOwn v).toHoldsOfOperations (fun _ h => h) rfl
    (fun _ hw hvar => absurd hvar hw) (fun _ _ _ h => h.elim) h

/-- Derivatives of every order by the only variable leave a tree all its own. -/
theorem everywhere_isOwn_nthDerivative (h : e.Everywhere (IsOwn v)) (n : Nat) :
    (e.nthDerivative v n).Everywhere (IsOwn v) := by
  induction n with
  | zero => exact Everywhere.simplify (holdsOfBuilt_isOwn v) h
  | succ n ih => exact Everywhere.simplify (holdsOfBuilt_isOwn v) (everywhere_isOwn_derivative ih)

/-- A tree without foreign variables is compared with its difference quotients, on whatever
points. -/
theorem exists_checkDerivative {e : Expr Float} (h : e.Everywhere (IsOwn v)) (start stop : Float)
    (count : Nat) (limit : Float) : ∃ r, e.checkDerivative v start stop count limit = .ok r := by
  have hslope := Everywhere.simplify (holdsOfBuilt_isOwn v) (everywhere_isOwn_derivative h)
  have hpoints : ∀ x ∈ grid start stop count, ∃ y, (do
      let value ← (e.derivative v).simplify.evaluate (.ofList [(v, x)])
      let _ ← e.evaluate (.ofList [(v, x)])
      return value) = Except.ok y := by
    intro x _
    obtain ⟨y, hy⟩ := hslope.markerFree.hasValue (.ofList [(v, x)])
    obtain ⟨z, hz⟩ := h.markerFree.hasValue (.ofList [(v, x)])
    exact ⟨y, by rw [hy, hz]; rfl⟩
  obtain ⟨slopes, hslopes⟩ := exists_mapM_eq_ok hpoints
  rw [checkDerivative, derivativeDistance, hslopes]
  exact ⟨_, rfl⟩

/-- The derivative of a tree in which nothing is pending has no value, under whatever bindings,
exactly when the tree has a foreign variable, and evaluation fails over one of them. Without foreign
variables all derivatives have values and can be checked by numbers. -/
theorem derivative_hasValue_iff (e : Expr Float) (v : Char) (hm : e.MarkerFree)
    (hk : e.KindsAgree) :
    (∀ b, ((∃ err, (e.derivative v).evaluate b = .error err) ↔ ∃ w, w ≠ v ∧ e.mentions w = true) ∧
      ∀ err, (e.derivative v).evaluate b = .error err →
        ∃ w, w ≠ v ∧ e.mentions w = true ∧ err = .unresolvedDerivative (var w) (var v) 1) ∧
    ((∀ w, e.mentions w = true → w = v) →
      (∀ n, (e.nthDerivative v n).MarkerFree ∧ ∀ b, ∃ x, (e.nthDerivative v n).evaluate b = .ok x) ∧
        ∀ start stop count limit, ∃ r, e.checkDerivative v start stop count limit = .ok r) := by
  refine ⟨fun b => ⟨⟨?_, ?_⟩, fun err herr => hm.of_evaluate_derivative_error herr⟩, fun hv => ?_⟩
  · rintro ⟨err, herr⟩
    obtain ⟨w, hw, hmentions, -⟩ := hm.of_evaluate_derivative_error herr
    exact ⟨w, hw, hmentions⟩
  · rintro ⟨w, hw, hmentions⟩
    cases hvalue : (e.derivative v).evaluate b with
    | error err => exact ⟨err, rfl⟩
    | ok x =>
      have hnot : e.mentions w = false := HasValue.not_mentions ⟨x, hvalue⟩ hk hw
      exact absurd hmentions (Bool.eq_false_iff.1 hnot)
  · have hown := hm.everywhere_isOwn hv
    refine ⟨fun n => ?_, exists_checkDerivative hown⟩
    have hfree := (everywhere_isOwn_nthDerivative hown n).markerFree
    exact ⟨hfree, hfree.hasValue⟩

/-- An exponent that is one whatever the foreign variable is, and an exponent that is zero but not
constant. -/
theorem derivative_hasValue_iff_exponents :
    let foreign : Expr Float := pow (var 'x') (div (var 'y') (var 'y'))
    let own : Expr Float := logarithm (var 'x') (pow (var 'x') (sub (var 'x') (var 'x')))
    (foreign.MarkerFree ∧ foreign.KindsAgree ∧ own.MarkerFree ∧ own.KindsAgree) ∧
      (∀ b, (foreign.derivative 'x').evaluate b =
        .error (.unresolvedDerivative (var 'y') (var 'x') 1)) ∧
        (∀ w, own.mentions w = true → w = 'x') ∧ (own.nthDerivative 'x' 3).MarkerFree ∧
          ∃ r, own.checkDerivative 'x' 1 2 5 1e-4 = .ok r := by
  intro foreign own
  have hforeign : foreign.MarkerFree ∧ foreign.KindsAgree :=
    ⟨⟨rfl, rfl, rfl, rfl, rfl⟩, trivial, trivial, trivial, trivial, trivial⟩
  have hown : own.MarkerFree ∧ own.KindsAgree :=
    ⟨⟨rfl, rfl, rfl, rfl, rfl, rfl, rfl⟩, rfl, trivial, trivial, trivial, trivial, trivial, trivial⟩
  have hv : ∀ w, own.mentions w = true → w = 'x' := by
    intro w hw
    simp only [own, logarithm, mentions, Bool.or_self, beq_iff_eq] at hw
    exact hw.symm
  obtain ⟨hfails, -⟩ := derivative_hasValue_iff foreign 'x' hforeign.1 hforeign.2
  obtain ⟨-, hsucceeds⟩ := derivative_hasValue_iff own 'x' hown.1 hown.2
  refine ⟨⟨hforeign.1, hforeign.2, hown⟩, fun b => ?_, hv, ((hsucceeds hv).1 3).1,
    (hsucceeds hv).2 1 2 5 1e-4⟩
  obtain ⟨err, herr⟩ := (hfails b).1.2 ⟨'y', by decide, rfl⟩
  obtain ⟨w, hw, hmentions, rfl⟩ := (hfails b).2 err herr
  simp only [foreign, mentions, Bool.or_self, Bool.or_eq_true, beq_iff_eq] at hmentions
  rcases hmentions with rfl | rfl
  · exact absurd rfl hw
  · exact herr

end Expr

end Formula
