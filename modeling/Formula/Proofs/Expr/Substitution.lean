import Formula.Proofs.Expr.Kinds
import Formula.Proofs.Lookup

/-!
# Substitution and bindings

Numbers reach the variables of a tree in three ways: put in their places one after the other, put
there all at once, or bound when the tree is evaluated. Put there one after the other in any order
they give the tree that they give at once (`foldl_setVariable`). The tree with the numbers in it has
the value that the tree has under the bindings (`evaluate_substitute`), as long as substitution
changes nothing that evaluation reads off a name: it leaves constants alone, although they are
looked up in the bindings, and a variable that is the base of a logarithm may become a number that
gives the logarithm another kind.
-/

namespace Formula

variable {α : Type}

/-! ## Lookups in bindings -/

namespace Bindings

/-- A variable has the value that was bound to it last. -/
theorem get?_bind (b : Bindings α) (v : Char) (value : α) (w : Char) :
    (b.bind v value).get? w = if v = w then some value else b.get? w := by
  rw [get?, bind, lookup_cons]
  split
  · rfl
  next h =>
    refine Option.ext fun other => ?_
    have hfiltered : ((b.entries.filter fun entry => entry.1 != v).map (·.1)).Nodup :=
      (List.filter_sublist.map _).nodup b.nodup
    rw [get?, lookup_eq_some_iff hfiltered, lookup_eq_some_iff b.nodup, List.mem_filter]
    exact and_iff_left (bne_iff_ne.2 (Ne.symm h))

/-- Of several values that are bound one after the other the last one of a variable is found. -/
theorem get?_bindAll (b : Bindings α) (values : List (Char × α)) (w : Char) :
    (b.bindAll values).get? w = (values.reverse.lookup w).or (b.get? w) := by
  unfold bindAll
  induction values generalizing b with
  | nil => rfl
  | cons entry values ih =>
    rw [List.foldl_cons, ih, get?_bind, List.reverse_cons, List.lookup_append, lookup_cons,
      Option.or_assoc]
    split <;> rfl

/-- The order of bindings does not count. -/
theorem lookup_eq_get? {b : Bindings α} {values : List (Char × α)} (h : values.Perm b.entries)
    (w : Char) : values.lookup w = b.get? w :=
  lookup_eq_of_perm b.nodup h

end Bindings

namespace Expr

variable [Scalar α] {e : Expr α} {f : Char → Option α}

/-! ## One after the other -/

/-- Substitution goes into a logarithm that is built, which keeps the kind of its base. -/
theorem substitute_logarithm (base argument : Expr α) :
    (logarithm base argument).substitute f =
      logarithm (base.substitute f) (argument.substitute f) :=
  rfl

/-- What one substitution puts into a tree the next one leaves there. -/
theorem substitute_substitute (e : Expr α) (f g : Char → Option α) :
    (e.substitute f).substitute g = e.substitute fun id => (f id).or (g id) := by
  induction e with
  | num | const => rfl
  | var id =>
    simp only [substitute]
    cases f id <;> rfl
  | add _ _ ihl ihr | sub _ _ ihl ihr | mul _ _ ihl ihr | div _ _ ihl ihr | pow _ _ ihl ihr
  | pending _ _ _ ihl ihr => simp only [substitute, ihl, ihr]
  | log _ _ _ ihl ihr => simp only [substitute, substitute_logarithm, ihl, ihr]
  | sin _ ih | cos _ ih | tan _ ih => simp only [substitute, ih]

/-- Even where no variable has a value logarithms are built anew, and get the kinds that they
had. -/
theorem KindsAgree.substitute_none (h : e.KindsAgree) : (e.substitute fun _ => none) = e := by
  induction e with
  | num | const | var => rfl
  | add _ _ ihl ihr | sub _ _ ihl ihr | mul _ _ ihl ihr | div _ _ ihl ihr | pow _ _ ihl ihr
  | pending _ _ _ ihl ihr => rw [Expr.substitute, ihl h.2.1, ihr h.2.2]
  | log base argument kind ihl ihr =>
    have hkind : kind = base.baseKind := h.1
    rw [Expr.substitute, ihl h.2.1, ihr h.2.2, logarithm, hkind]
  | sin _ ih | cos _ ih | tan _ ih => rw [Expr.substitute, ih h.2]

/-- Numbers put into a tree one after the other are all there in the end, the first of several for a
variable. -/
theorem foldl_setVariable (h : e.KindsAgree) (values : List (Char × α)) :
    values.foldl (fun e entry => e.setVariable entry.1 entry.2) e =
      e.substitute fun id => values.lookup id := by
  induction values generalizing e with
  | nil => exact h.substitute_none.symm
  | cons entry values ih =>
    have hset : (e.setVariable entry.1 entry.2).KindsAgree := h.substitute _
    rw [List.foldl_cons, ih hset, setVariable, substitute_substitute]
    congr 1
    funext id
    rw [lookup_cons]
    by_cases hid : id = entry.1
    · rw [if_pos hid, if_pos hid.symm, Option.some_or]
    · rw [if_neg hid, if_neg (Ne.symm hid), Option.none_or]

/-! ## Under bindings -/

/-- A substitution leaves the kind of a logarithm alone: it puts nothing in the place of a base that
is a variable, and constants do not share their names with what it replaces. Nodes of other kinds
qualify. -/
def IsUntouched (f : Char → Option α) : Expr α → Prop
  | const id => f id = none
  | log (var id) _ _ => f id = none
  | _ => True

/-- Where a substitution leaves kinds alone, the base tells the same kind as before. -/
theorem baseKind_substitute {base argument : Expr α} {kind : LogBase}
    (h : (log base argument kind).IsUntouched f) :
    (base.substitute f).baseKind = base.baseKind := by
  cases base with
  | var id =>
    have hid : f id = none := h
    simp only [substitute, hid]
  | _ => rfl

end Expr

/-- The failure of a tree with numbers in place of its variables: they stand in the pending
derivative, too. -/
def EvaluationError.substitute [Scalar α] (f : Char → Option α) :
    EvaluationError α → EvaluationError α
  | unresolvedDerivative n d order => unresolvedDerivative (n.substitute f) (d.substitute f) order

namespace Expr

variable [Scalar α] {e : Expr α} {f : Char → Option α}

/-- A tree with numbers in place of variables is evaluated as the tree is where the variables are
bound to the numbers: to the same value, or with a failure over the same pending derivative. -/
theorem evaluate_substitute {b b' : Bindings α} (hb : ∀ id, b'.get? id = (f id).or (b.get? id))
    (hk : e.KindsAgree) (hf : e.Everywhere (IsUntouched f)) :
    (e.substitute f).evaluate b = (e.evaluate b').mapError (·.substitute f) := by
  induction e with
  | num => rfl
  | const id =>
    have hid : f id = none := hf
    simp only [substitute, evaluate, hb, hid, Option.none_or]
    rfl
  | var id =>
    simp only [substitute, evaluate, hb]
    cases f id <;> rfl
  | add l r ihl ihr | sub l r ihl ihr | mul l r ihl ihr | div l r ihl ihr | pow l r ihl ihr =>
    simp only [substitute, evaluate, ihl hk.2.1 hf.2.1, ihr hk.2.2 hf.2.2]
    cases l.evaluate b' <;> cases r.evaluate b' <;> rfl
  | log base argument kind ihb iha =>
    have hkind : (base.substitute f).baseKind = kind := (baseKind_substitute hf.1).trans hk.1.symm
    simp only [substitute, logarithm, hkind, evaluate, ihb hk.2.1 hf.2.1, iha hk.2.2 hf.2.2]
    cases kind <;> cases argument.evaluate b' <;> cases base.evaluate b' <;> rfl
  | pending => rfl
  | sin a ih | cos a ih | tan a ih =>
    simp only [substitute, evaluate, ih hk.2 hf.2]
    cases a.evaluate b' <;> rfl

/-- Numbers are put into a tree in any order, or all at once. If constants and bases of logarithms
are left alone, the tree is then evaluated as it is, without the numbers in it, where they are bound
as well, in any order. -/
theorem evaluate_setVariables (e : Expr α) (m b : Bindings α) (values : List (Char × α))
    (hvalues : values.Perm m.entries) (hk : e.KindsAgree) :
    values.foldl (fun e entry => e.setVariable entry.1 entry.2) e = e.setVariables m ∧
      (e.Everywhere (IsUntouched m.get?) →
        (e.setVariables m).evaluate b =
          (e.evaluate (b.bindAll values)).mapError (·.substitute m.get?)) := by
  refine ⟨?_, fun hf => evaluate_substitute (fun id => ?_) hk hf⟩
  · rw [foldl_setVariable hk, setVariables, funext (Bindings.lookup_eq_get? hvalues)]
  · rw [Bindings.get?_bindAll, Bindings.lookup_eq_get? ((List.reverse_perm values).trans hvalues)]

/-- A variable that is given two numbers and is bound before, beside Euler's number and a base that
keeps its name. -/
theorem evaluate_setVariables_rebound :
    let e : Expr Float := add (logarithm (var 'z') (var 'x')) (mul (const 'e') (var 'y'))
    let m : Bindings Float := .ofList [('x', 10), ('y', -0), ('x', 2)]
    let b : Bindings Float := .ofList [('z', 10), ('x', 3)]
    let values : List (Char × Float) := [('y', -0), ('x', 2)]
    let value : Float := Float.log 2 / Float.log 10 + Scalar.euler * -0
    (values.Perm m.entries ∧ e.KindsAgree ∧ e.Everywhere (IsUntouched m.get?)) ∧
      (e.setVariable 'y' (-0)).setVariable 'x' 2 = e.setVariables m ∧
        e.evaluate (b.bindAll values) = .ok value ∧ (e.setVariables m).evaluate b = .ok value := by
  intro e m b values value
  have hvalues : values.Perm m.entries := .swap _ _ _
  have hk : e.KindsAgree := ⟨trivial, ⟨rfl, trivial, trivial⟩, trivial, trivial, trivial⟩
  have hf : e.Everywhere (IsUntouched m.get?) :=
    ⟨trivial, ⟨rfl, trivial, trivial⟩, trivial, rfl, trivial⟩
  obtain ⟨horder, hsame⟩ := evaluate_setVariables e m b values hvalues hk
  have hvalue : e.evaluate (b.bindAll values) = .ok value := rfl
  refine ⟨⟨hvalues, hk, hf⟩, horder, hvalue, ?_⟩
  rw [hsame hf, hvalue]
  rfl

end Expr

end Formula
