import Formula.Expr.Derivative
import Formula.Proofs.Expr.Everywhere
import Formula.Reading.Symbol

/-!
# What operations preserve of every node

Derivatives and applied functions are put together from operations, logarithms of the kind of their
base, Euler's number, small integers and parts of the trees that they are of. So what holds of every
node of these trees holds of every node of the derivative (`Expr.Everywhere.derivative`) and of the
applied function (`Expr.Everywhere.apply`), if it holds of operations.
-/

namespace Formula.Expr

variable {α : Type} [Scalar α] {P : Expr α → Prop} {e l r dl dr : Expr α}

section
variable (hP : HoldsOfOperations P)
include hP

/-- What holds of the nodes that are built and throughout two trees holds throughout their
logarithm. -/
theorem Everywhere.logarithm (hl : l.Everywhere P) (hr : r.Everywhere P) :
    (logarithm l r).Everywhere P :=
  ⟨hP.logarithm l r, hl, hr⟩

/-- What holds of the nodes that are built and throughout a tree holds throughout its natural
logarithm. -/
theorem Everywhere.ln (h : e.Everywhere P) : e.ln.Everywhere P :=
  Everywhere.logarithm hP hP.euler h

/-- What holds of the nodes that are built and throughout a tree holds throughout its opposite. -/
theorem Everywhere.opposite (h : e.Everywhere P) : e.opposite.Everywhere P :=
  ⟨hP.mul _ _, hP.ofInt (-1) (by decide), h⟩

/-! ## Derivatives -/

/-- What holds of the nodes that are built and throughout the parts holds throughout the derivative
of a power. -/
theorem everywhere_powDerivative (hl : l.Everywhere P) (hr : r.Everywhere P) (hdl : dl.Everywhere P)
    (hdr : dr.Everywhere P) : (powDerivative l r dl dr).Everywhere P := by
  have hpow : (pow l r).Everywhere P := ⟨hP.pow l r, hl, hr⟩
  unfold powDerivative
  split
  · have hexponent : (sub r (ofInt 1)).Everywhere P := ⟨hP.sub _ _, hr, hP.ofInt 1 (by decide)⟩
    exact ⟨hP.mul _ _, ⟨hP.mul _ _, hr, hdl⟩, hP.pow _ _, hl, hexponent⟩
  · split
    · exact ⟨hP.mul _ _, ⟨hP.mul _ _, .ln hP hl, hdr⟩, hpow⟩
    · have hquotient : (div (mul r dl) l).Everywhere P := ⟨hP.div _ _, ⟨hP.mul _ _, hr, hdl⟩, hl⟩
      exact ⟨hP.mul _ _, hpow, hP.add _ _, ⟨hP.mul _ _, hdr, .ln hP hl⟩, hquotient⟩

/-- What holds of the nodes that are built and throughout the parts holds throughout the derivative
of a logarithm. -/
theorem everywhere_logDerivative (kind : LogBase) (hl : l.Everywhere P) (hr : r.Everywhere P)
    (hdl : dl.Everywhere P) (hdr : dr.Everywhere P) :
    (logDerivative l r kind dl dr).Everywhere P := by
  unfold logDerivative
  split
  · exact ⟨hP.div _ _, hdr, hr⟩
  · split
    · exact ⟨hP.div _ _, hdr, hP.mul _ _, hr, .ln hP hl⟩
    · have hnumerator : (sub (mul (div dr r) l.ln) (mul r.ln (div dl l))).Everywhere P :=
        ⟨hP.sub _ _, ⟨hP.mul _ _, ⟨hP.div _ _, hdr, hr⟩, .ln hP hl⟩,
          hP.mul _ _, .ln hP hr, hP.div _ _, hdl, hl⟩
      exact ⟨hP.div _ _, hnumerator, hP.pow _ _, .ln hP hl, hP.ofInt 2 (by decide)⟩

/-- Every node of a derivative is put there by the rules, is a node of the tree, or is a pending
derivative: of another variable of the tree, or what the tree has pending, raised or differentiated.
`Q` is what is known of the nodes of the tree, which may be more than holds of those of the
derivative. -/
theorem Everywhere.derivative_of {Q : Expr α → Prop} {v : Char} (himp : ∀ s, Q s → P s)
    (hv : P (var v)) (hforeign : ∀ w, w ≠ v → Q (var w) → P (pending (var w) (var v) 1))
    (hraised : ∀ n d order, Q (pending n d order) → P (pending n d (order + 1)) ∧
      P (pending d (var v) 1))
    (h : e.Everywhere Q) : (e.derivative v).Everywhere P := by
  induction e with
  | num | const => exact hP.ofInt 0 (by decide)
  | var id =>
    unfold Expr.derivative
    split
    · exact hP.ofInt 1 (by decide)
    next hid => exact ⟨hforeign id hid h, himp _ h, hv⟩
  | add l r ihl ihr => exact ⟨hP.add _ _, ihl h.2.1, ihr h.2.2⟩
  | sub l r ihl ihr => exact ⟨hP.sub _ _, ihl h.2.1, ihr h.2.2⟩
  | mul l r ihl ihr =>
    obtain ⟨-, hl, hr⟩ := h.imp himp
    exact ⟨hP.add _ _, ⟨hP.mul _ _, ihl h.2.1, hr⟩, hP.mul _ _, hl, ihr h.2.2⟩
  | div l r ihl ihr =>
    obtain ⟨-, hl, hr⟩ := h.imp himp
    have hnumerator : (sub (mul (l.derivative v) r) (mul l (r.derivative v))).Everywhere P :=
      ⟨hP.sub _ _, ⟨hP.mul _ _, ihl h.2.1, hr⟩, hP.mul _ _, hl, ihr h.2.2⟩
    exact ⟨hP.div _ _, hnumerator, hP.pow _ _, hr, hP.ofInt 2 (by decide)⟩
  | pow l r ihl ihr =>
    obtain ⟨-, hl, hr⟩ := h.imp himp
    exact everywhere_powDerivative hP hl hr (ihl h.2.1) (ihr h.2.2)
  | log l r kind ihl ihr =>
    obtain ⟨-, hl, hr⟩ := h.imp himp
    exact everywhere_logDerivative hP kind hl hr (ihl h.2.1) (ihr h.2.2)
  | pending n d order =>
    obtain ⟨hpending, hfactor⟩ := hraised n d order h.1
    obtain ⟨-, hn, hd⟩ := h.imp himp
    have hsame : (pending n d (order + 1)).Everywhere P := ⟨hpending, hn, hd⟩
    simp only [Expr.derivative]
    split
    · exact hsame
    · exact ⟨hP.mul _ _, hsame, hfactor, hd, hv⟩
  | sin a ih =>
    obtain ⟨-, ha⟩ := h.imp himp
    exact ⟨hP.mul _ _, ⟨hP.cos _, ha⟩, ih h.2⟩
  | cos a ih =>
    obtain ⟨-, ha⟩ := h.imp himp
    exact ⟨hP.mul _ _, ⟨hP.mul _ _, hP.ofInt (-1) (by decide), hP.sin _, ha⟩, ih h.2⟩
  | tan a ih =>
    obtain ⟨-, ha⟩ := h.imp himp
    exact ⟨hP.mul _ _, ⟨hP.pow _ _, ⟨hP.cos _, ha⟩, hP.ofInt (-2) (by decide)⟩, ih h.2⟩

/-- What holds of every node of a tree, of operations and of what a derivative leaves pending holds
of every node of the derivative. -/
theorem Everywhere.derivative {v : Char} (hv : P (var v))
    (hpending : ∀ n d order, P (pending n d order)) (h : e.Everywhere P) :
    (e.derivative v).Everywhere P :=
  Everywhere.derivative_of hP (fun _ h => h) hv (fun _ _ _ => hpending _ _ _)
    (fun _ _ _ _ => ⟨hpending _ _ _, hpending _ _ _⟩) h

/-! ## Functions -/

/-- What holds of the nodes that are built and throughout a tree holds throughout its reciprocal. -/
theorem Everywhere.reciprocal (h : e.Everywhere P) : (Symbol.reciprocal e).Everywhere P :=
  ⟨hP.pow _ _, h, hP.ofInt (-1) (by decide)⟩

/-- What holds of every node of an operand and of operations holds of every node of a function
applied to it. -/
theorem Everywhere.apply (f : Symbol) (h : e.Everywhere P) : (f.apply e).Everywhere P := by
  cases f with
  | plus | minus | times | divide | power => exact h
  | sin => exact ⟨hP.sin _, h⟩
  | cos => exact ⟨hP.cos _, h⟩
  | tan => exact ⟨hP.tan _, h⟩
  | sec => exact .reciprocal hP ⟨hP.cos _, h⟩
  | cosec | csc => exact .reciprocal hP ⟨hP.sin _, h⟩
  | cotan | cot => exact .reciprocal hP ⟨hP.tan _, h⟩
  | sinc => exact ⟨hP.div _ _, ⟨hP.sin _, h⟩, h⟩
  | ln => exact .ln hP h
  | log => exact .logarithm hP (hP.ofInt 10 (by decide)) h

end

/-! ## Machine numbers -/

/-- What is true of the twenty-one integers up to ten, one by one, is true of all of them. -/
theorem forall_natAbs_le_ten {p : Int → Prop} (h : ∀ i : Fin 21, p (i - 10)) (n : Int)
    (hn : n.natAbs ≤ 10) : p n := by
  have hi := h ⟨(n + 10).toNat, by omega⟩
  rwa [show ((n + 10).toNat : Int) - 10 = n by omega] at hi

/-- No operation brings in something that is not a number. -/
theorem holdsOfOperations_isNotNaN : HoldsOfOperations IsNotNaN where
  ofInt := forall_natAbs_le_ten (by decide +kernel)
  euler := trivial
  add _ _ := trivial
  sub _ _ := trivial
  mul _ _ := trivial
  div _ _ := trivial
  pow _ _ := trivial
  logarithm _ _ := trivial
  sin _ := trivial
  cos _ := trivial
  tan _ := trivial

/-- Nothing that is built is zero with a minus sign. -/
theorem holdsOfBuilt_isNotNegativeZero : HoldsOfBuilt IsNotNegativeZero where
  ofInt := forall_natAbs_le_ten (by decide +kernel)
  euler := trivial
  folded value hzero := by
    rintro rfl
    exact Bool.false_ne_true (hzero.symm.trans (by decide +kernel))
  add _ _ := trivial
  sub _ _ := trivial
  mul _ _ := trivial
  div _ _ := trivial
  pow _ _ := trivial
  logarithm _ _ := trivial
  sin _ := trivial
  cos _ := trivial
  tan _ := trivial

end Formula.Expr
