import Mathlib.Logic.Relation
import Formula.Proofs.Simplification.Steps

/-!
# The calls of simplification

Simplifying a tree simplifies other trees: its operands, and what a rule leaves to do with the node
over the simplified operands. The latter are built on the way and are no parts of the tree.
`Expr.Calls` is this relation, and `Expr.simplifyWithin` is the recursion by itself, which knows
nothing of sizes and gives up when calls are nested deeper than it may go. No call grows
(`Calls.size_le`), and one that does not shrink has a topmost operation of lower rank
(`Calls.weight_lt`). So no tree starts an endless chain of calls, three calls for each node are deep
enough, and what comes out is no larger than the tree (`simplify_terminates`).
-/

namespace Formula

variable {α : Type}

namespace Expr

/-- The operands that simplification works on, from left to right. -/
def operands : Expr α → List (Expr α)
  | add l r | sub l r | mul l r | div l r | pow l r | log l r _ => [l, r]
  | sin a | cos a | tan a => [a]
  | num _ | var _ | const _ | pending .. => []

/-- Operands are smaller than the node. -/
theorem size_lt_of_mem_operands {e c : Expr α} (h : c ∈ e.operands) : c.size < e.size := by
  cases e with
  | num | var | const | pending => cases h
  | add l r | sub l r | mul l r | div l r | pow l r | log l r =>
    simp only [operands, List.mem_cons, List.not_mem_nil, or_false] at h
    rcases h with rfl | rfl
    · exact size_left_lt _ _
    · exact size_right_lt _ _
  | sin a | cos a | tan a =>
    obtain rfl := List.mem_singleton.1 h
    exact Nat.lt_succ_self _

end Expr

/-- The expressions that a rule leaves to simplify, in their order. -/
def Rewriting.requests [Scalar α] : Rewriting α → List (Expr α)
  | settled _ => []
  | again e => [e]
  | factored rest factor => [rest, .mul rest.simplify factor]
  | powered base exponent => [exponent, .pow base exponent.simplify]

namespace Expr

variable [Scalar α]

/-- Simplifying the first expression simplifies the second. Leaves, pending derivatives and what is
folded into a number call nothing. -/
inductive Calls : Expr α → Expr α → Prop
  | operand {e c} : e.isInert = false → e.IsFolded → c ∈ e.operands → Calls e c
  | request {e c} : e.isInert = false → e.IsFolded →
    c ∈ e.simplifiedOperands.rewrite.requests → Calls e c

/-- What a rule leaves to do is no larger than the node, and weighs less. -/
theorem fits_of_mem_requests {node c : Expr α} {w : Rewriting α} (hw : w.Fits node)
    (hc : c ∈ w.requests) :
    c.size ≤ node.size ∧ c.weight < node.weight := by
  cases w with
  | settled => cases hc
  | again r =>
    obtain rfl := List.mem_singleton.1 hc
    exact ⟨hw.1, weight_lt_of_rank_lt hw.1 hw.2⟩
  | factored rest factor =>
    simp only [Rewriting.requests, List.mem_cons, List.not_mem_nil, or_false] at hc
    rcases hc with rfl | rfl
    · exact ⟨Nat.le_of_lt hw.1, weight_lt_of_size_lt hw.1⟩
    · have hsize := size_mul_le_of_fits hw rest.size_simplify_le
      exact ⟨hsize, weight_lt_of_rank_lt hsize hw.2.2⟩
  | powered base exponent =>
    simp only [Rewriting.requests, List.mem_cons, List.not_mem_nil, or_false] at hc
    rcases hc with rfl | rfl
    · exact ⟨Nat.le_of_lt hw.1, weight_lt_of_size_lt hw.1⟩
    · have hsize := size_pow_le_of_fits hw exponent.size_simplify_le
      exact ⟨hsize, weight_lt_of_rank_lt hsize hw.2.2⟩

/-- Simplified operands make no node heavier. -/
theorem weight_simplifiedOperands_le (e : Expr α) : e.simplifiedOperands.weight ≤ e.weight := by
  have hsize := e.size_simplifiedOperands_le
  have hrank := e.rank_simplifiedOperands
  unfold weight
  omega

/-- No call grows. -/
theorem Calls.size_le {e c : Expr α} (h : Calls e c) : c.size ≤ e.size := by
  cases h with
  | operand _ _ hc => exact Nat.le_of_lt (size_lt_of_mem_operands hc)
  | request _ _ hc =>
    have hfits := fits_of_mem_requests (fits_rewrite e.simplifiedOperands) hc
    exact Nat.le_trans hfits.1 e.size_simplifiedOperands_le

/-- Every call is about a lighter expression. -/
theorem Calls.weight_lt {e c : Expr α} (h : Calls e c) : c.weight < e.weight := by
  cases h with
  | operand _ _ hc => exact weight_lt_of_size_lt (size_lt_of_mem_operands hc)
  | request _ _ hc =>
    have hfits := fits_of_mem_requests (fits_rewrite e.simplifiedOperands) hc
    exact Nat.lt_of_lt_of_le hfits.2 e.weight_simplifiedOperands_le

/-- There is no endless chain of calls. -/
theorem wellFounded_calls : WellFounded fun c e : Expr α => Calls e c :=
  Subrelation.wf (fun h => h.weight_lt) (measure weight).wf

/-- No chain of calls grows: what simplification simplifies on the way is no larger than the
tree. -/
theorem size_le_of_calls {e c : Expr α} (h : Relation.ReflTransGen Calls e c) :
    c.size ≤ e.size := by
  induction h with
  | refl => exact Nat.le_refl _
  | tail _ hc ih => exact Nat.le_trans hc.size_le ih

/-! ## The recursion by itself -/

/-- The node with what a function makes of its operands. -/
def replaceOperands? (f : Expr α → Option (Expr α)) : Expr α → Option (Expr α)
  | add l r => do return add (← f l) (← f r)
  | sub l r => do return sub (← f l) (← f r)
  | mul l r => do return mul (← f l) (← f r)
  | div l r => do return div (← f l) (← f r)
  | pow l r => do return pow (← f l) (← f r)
  | log l r _ => do return logarithm (← f l) (← f r)
  | sin a => do return sin (← f a)
  | cos a => do return cos (← f a)
  | tan a => do return tan (← f a)
  | e => some e

end Expr

/-- What becomes of a node for which a rule has left something to do, when a function simplifies. -/
def Rewriting.finishBy? [Scalar α] (f : Expr α → Option (Expr α)) : Rewriting α → Option (Expr α)
  | settled e => some e.fold
  | again e => do return (← f e).fold
  | factored rest factor => do return (← f (.mul (← f rest) factor)).fold
  | powered base exponent => do return (← f (.pow base (← f exponent))).fold

namespace Expr

variable [Scalar α]

/-- The simplified form, if it is found with calls nested at most `depth` deep. -/
def simplifyWithin : Nat → Expr α → Option (Expr α)
  | 0, _ => none
  | depth + 1, e =>
    if e.isInert then some e
    else match e.folded? with
      | some r => some r
      | none =>
        do (← e.replaceOperands? (simplifyWithin depth)).rewrite.finishBy? (simplifyWithin depth)

/-- A function that simplifies all operands gives the node over the simplified operands. -/
theorem replaceOperands?_eq_some {e : Expr α} {f : Expr α → Option (Expr α)}
    (hf : ∀ c ∈ e.operands, f c = some c.simplify) :
    e.replaceOperands? f = some e.simplifiedOperands := by
  cases e with
  | num | var | const | pending => rfl
  | add l r | sub l r | mul l r | div l r | pow l r | log l r =>
    have hl := hf l List.mem_cons_self
    have hr := hf r (List.mem_cons_of_mem l List.mem_cons_self)
    simp only [replaceOperands?, hl, hr]
    rfl
  | sin a | cos a | tan a =>
    have ha := hf a List.mem_cons_self
    simp only [replaceOperands?, ha]
    rfl

/-- A function that simplifies all that is left to do finishes the node. -/
theorem finishBy?_eq_some {w : Rewriting α} {f : Expr α → Option (Expr α)}
    (hf : ∀ c ∈ w.requests, f c = some c.simplify) : w.finishBy? f = some w.finish := by
  cases w with
  | settled => rfl
  | again e =>
    have he := hf e List.mem_cons_self
    simp only [Rewriting.finishBy?, he]
    rfl
  | factored rest factor =>
    have hrest := hf rest List.mem_cons_self
    have hproduct := hf (.mul rest.simplify factor) (List.mem_cons_of_mem _ List.mem_cons_self)
    simp only [Rewriting.finishBy?, hrest, Option.bind_eq_bind, Option.bind_some, hproduct]
    rfl
  | powered base exponent =>
    have hexponent := hf exponent List.mem_cons_self
    have hpower := hf (.pow base exponent.simplify) (List.mem_cons_of_mem _ List.mem_cons_self)
    simp only [Rewriting.finishBy?, hexponent, Option.bind_eq_bind, Option.bind_some, hpower]
    rfl

/-- The recursion asks for nothing but its calls. -/
theorem simplifyWithin_succ {depth : Nat} {e : Expr α}
    (h : ∀ c, Calls e c → simplifyWithin depth c = some c.simplify) :
    simplifyWithin (depth + 1) e = some e.simplify := by
  rw [simplifyWithin, simplify_eq]
  cases hinert : e.isInert with
  | true => rfl
  | false =>
    cases hfold : e.folded? with
    | some r => rfl
    | none =>
      have hoperands : e.replaceOperands? (simplifyWithin depth) = some e.simplifiedOperands :=
        replaceOperands?_eq_some fun c hc => h c (.operand hinert hfold hc)
      have hfinish : e.simplifiedOperands.rewrite.finishBy? (simplifyWithin depth) =
          some e.simplifiedOperands.rewrite.finish :=
        finishBy?_eq_some fun c hc => h c (.request hinert hfold hc)
      simp only [hoperands, Option.bind_eq_bind, Option.bind_some, hfinish]
      rfl

/-- A depth beyond the weight of the expression is enough. -/
theorem simplifyWithin_of_weight_lt {depth : Nat} {e : Expr α} (h : e.weight < depth) :
    simplifyWithin depth e = some e.simplify := by
  induction depth generalizing e with
  | zero => cases h
  | succ depth ih =>
    exact simplifyWithin_succ fun c hc => ih (Nat.lt_of_lt_of_le hc.weight_lt (Nat.le_of_lt_succ h))

/-- Simplification ends on every tree: its calls form no endless chain, and they are nested no
deeper than three times the number of nodes and three more. No tree that is simplified on the way,
and no result, is larger than the tree. -/
theorem simplify_terminates (α : Type) [Scalar α] :
    WellFounded (fun c e : Expr α => Calls e c) ∧
      (∀ (e : Expr α) (depth : Nat), 3 * (e.size + 1) ≤ depth →
        simplifyWithin depth e = some e.simplify) ∧
      (∀ e c : Expr α, Relation.ReflTransGen Calls e c → c.size ≤ e.size) ∧
      ∀ e : Expr α, e.simplify.size ≤ e.size := by
  refine ⟨wellFounded_calls, fun e depth hdepth => ?_, fun e c =>
    size_le_of_calls, size_simplify_le⟩
  have hrank := e.rank_le_two
  exact simplifyWithin_of_weight_lt (by unfold weight; omega)

/-- A factor that two terms share is taken out, and what remains of them is simplified on the
way. -/
theorem simplify_terminates_shared_factor :
    let e : Expr Float := add (mul (var 'x') (var 'y')) (var 'x')
    let rest : Expr Float := add (var 'y') (ofInt 1)
    Calls e rest ∧ rest.size ≤ e.size ∧ simplifyWithin 18 e = some (mul rest (var 'x')) := by
  intro e rest
  have hcall : Calls e rest := .request rfl rfl (by decide +kernel)
  have hform : e.simplify = mul rest (var 'x') := by decide +kernel
  obtain ⟨-, hdeep, hsize, -⟩ := simplify_terminates Float
  exact ⟨hcall, hsize e rest (.single hcall), hform ▸ hdeep e 18 (by decide)⟩

end Expr

end Formula
