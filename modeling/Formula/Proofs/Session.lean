import Formula.Proofs.Expr.Kinds
import Formula.Session

/-!
# Sessions

A command that fails leaves the session as it was (`advance_eq_self`), so a run in which some
commands fail is the run of the others with reports of the failures in between (`run_carriedOut`).
Whatever stands on the stack at any point of a run was formed by the operations of the library from
what stood there at the start and from what was pushed (`formed_of_mem_run`), and what is pushed is
formed from leaves, unless its draft says otherwise (`Draft.formed_of_build`).
-/

namespace Formula

variable {α : Type} [Numeral α]

/-! ## Drafts -/

namespace Draft

/-- The texts of a draft from left to right, and whether omitted signs are restored in them. -/
def texts : Draft α → List (String × Bool)
  | written text restore => [(text, restore)]
  | num _ | var _ | const _ => []
  | add l r | sub l r | mul l r | div l r | pow l r | log l r _ | pending l r _ =>
    l.texts ++ r.texts
  | sin a | cos a | tan a => a.texts

/-- What is wrong with a text that is no formula. -/
def fault? (α : Type) [Numeral α] (written : String × Bool) : Option ParseError :=
  match (Expr.parseWith written.2 written.1 : Except ParseError (Expr α)) with
  | .ok _ => none
  | .error e => some e

/-- A draft is built unless one of its texts is no formula, and the fault of the first such text is
reported. -/
theorem build_eq_error_iff (d : Draft α) (e : ParseError) :
    d.build = .error e ↔ d.texts.findSome? (fault? α) = some e := by
  induction d generalizing e with
  | written text restore =>
    simp only [build, texts, fault?, List.findSome?_cons, List.findSome?_nil]
    cases (Expr.parseWith restore text : Except ParseError (Expr α)) <;> simp
  | num | var | const => simp [build, texts]
  | add l r ihl ihr | sub l r ihl ihr | mul l r ihl ihr | div l r ihl ihr | pow l r ihl ihr
  | log l r _ ihl ihr | pending l r _ ihl ihr =>
    rw [texts, List.findSome?_append, build]
    cases hl : l.build with
    | error e' => simp [(ihl e').1 hl, bind, Except.bind]
    | ok =>
      have hnone : l.texts.findSome? (fault? α) = none := by
        refine Option.eq_none_iff_forall_ne_some.2 fun e' he' => ?_
        rw [(ihl e').2 he'] at hl
        cases hl
      rw [hnone, Option.none_or, ← ihr]
      cases r.build <;> simp [bind, Except.bind, pure, Except.pure]
  | sin a ih | cos a ih | tan a ih =>
    rw [texts, ← ih, build]
    cases a.build <;> simp [bind, Except.bind, pure, Except.pure]

/-- No logarithm of the draft is given a kind of its own. -/
def IsUnmarked : Draft α → Prop
  | written .. | num _ | var _ | const _ => True
  | add l r | sub l r | mul l r | div l r | pow l r | pending l r _ => l.IsUnmarked ∧ r.IsUnmarked
  | log l r kind => kind = none ∧ l.IsUnmarked ∧ r.IsUnmarked
  | sin a | cos a | tan a => a.IsUnmarked

/-- Both parts of a draft with two parts are built. -/
theorem exists_of_both {f : Expr α → Expr α → Expr α} {l r : Draft α} {e : Expr α}
    (h : (do return f (← l.build) (← r.build)) = (.ok e : Except ParseError (Expr α))) :
    ∃ x y, l.build = .ok x ∧ r.build = .ok y ∧ e = f x y := by
  cases hl : l.build with
  | error => simp [hl, bind, Except.bind] at h
  | ok x =>
    cases hr : r.build with
    | error => simp [hl, hr, bind, Except.bind] at h
    | ok y =>
      simp only [hl, hr, bind, Except.bind, pure, Except.pure, Except.ok.injEq] at h
      exact ⟨x, y, rfl, rfl, h.symm⟩

/-- The part of a draft with one part is built. -/
theorem exists_of_one {f : Expr α → Expr α} {a : Draft α} {e : Expr α}
    (h : (do return f (← a.build)) = (.ok e : Except ParseError (Expr α))) :
    ∃ x, a.build = .ok x ∧ e = f x := by
  cases ha : a.build with
  | error => simp [ha, bind, Except.bind] at h
  | ok x =>
    simp only [ha, bind, Except.bind, pure, Except.pure, Except.ok.injEq] at h
    exact ⟨x, rfl, h.symm⟩

/-- A draft without kinds of its own is formed from its leaves and texts. -/
theorem formed_of_build {given : Expr α → Prop} (hnum : ∀ value, given (.num value))
    (hvar : ∀ id, given (.var id)) (hconst : ∀ id, given (.const id)) {d : Draft α} {e : Expr α}
    (hd : d.IsUnmarked) (h : d.build = .ok e) : Expr.Formed given e := by
  induction d generalizing e with
  | written text restore => exact .parsed h
  | num value =>
    cases h
    exact .given (hnum value)
  | var id =>
    cases h
    exact .given (hvar id)
  | const id =>
    cases h
    exact .given (hconst id)
  | add l r ihl ihr =>
    obtain ⟨x, y, hx, hy, rfl⟩ := exists_of_both h
    exact .add (ihl hd.1 hx) (ihr hd.2 hy)
  | sub l r ihl ihr =>
    obtain ⟨x, y, hx, hy, rfl⟩ := exists_of_both h
    exact .sub (ihl hd.1 hx) (ihr hd.2 hy)
  | mul l r ihl ihr =>
    obtain ⟨x, y, hx, hy, rfl⟩ := exists_of_both h
    exact .mul (ihl hd.1 hx) (ihr hd.2 hy)
  | div l r ihl ihr =>
    obtain ⟨x, y, hx, hy, rfl⟩ := exists_of_both h
    exact .div (ihl hd.1 hx) (ihr hd.2 hy)
  | pow l r ihl ihr =>
    obtain ⟨x, y, hx, hy, rfl⟩ := exists_of_both h
    exact .pow (ihl hd.1 hx) (ihr hd.2 hy)
  | log l r kind ihl ihr =>
    obtain ⟨rfl, hl, hr⟩ := hd
    obtain ⟨x, y, hx, hy, rfl⟩ := exists_of_both (f := Expr.logarithm) h
    exact .logarithm (ihl hl hx) (ihr hr hy)
  | pending l r order ihl ihr =>
    obtain ⟨x, y, hx, hy, rfl⟩ := exists_of_both (f := (Expr.pending · · order)) h
    exact .pending order (ihl hd.1 hx) (ihr hd.2 hy)
  | sin a ih =>
    obtain ⟨x, hx, rfl⟩ := exists_of_one h
    exact .apply .sin (ih hd hx)
  | cos a ih =>
    obtain ⟨x, hx, rfl⟩ := exists_of_one h
    exact .apply .cos (ih hd hx)
  | tan a ih =>
    obtain ⟨x, hx, rfl⟩ := exists_of_one h
    exact .apply .tan (ih hd hx)

end Draft

/-! ## Runs -/

namespace Session

variable {s next : Session α} {c : Command α} {answer : Answer α} {given : Expr α → Prop}

/-- A command that fails leaves everything as it was. -/
theorem advance_eq_self {e : Error α} (h : (s.advance c).2 = .error e) : (s.advance c).1 = s := by
  unfold advance at h ⊢
  cases hstep : s.step c with
  | error => rfl
  | ok =>
    rw [hstep] at h
    cases h

/-- The commands of a row that do not fail when the row is run. -/
def carriedOut (s : Session α) : List (Command α) → List (Command α)
  | [] => []
  | c :: rest =>
    match s.step c with
    | .ok (next, _) => c :: next.carriedOut rest
    | .error _ => s.carriedOut rest

/-- Without the commands that fail a run is the same, but for the reports of the failures. -/
theorem run_carriedOut (s : Session α) (cs : List (Command α)) :
    s.run (s.carriedOut cs) = (s.run cs).filter fun report => report.2.isOk := by
  induction cs generalizing s with
  | nil => rfl
  | cons c cs ih =>
    cases hstep : s.step c with
    | error e =>
      have hadvance : s.advance c = (s, .error e) := by rw [advance, hstep]
      rw [carriedOut, hstep, run, hadvance, ih]
      rfl
    | ok result =>
      obtain ⟨next, answer⟩ := result
      have hadvance : s.advance c = (next, .ok answer) := by rw [advance, hstep]
      rw [carriedOut, hstep, run, run, hadvance, ih]
      rfl

/-! ## What stands on the stack -/

/-- Everything on the stack is formed from given expressions. -/
def IsFormed (given : Expr α → Prop) (s : Session α) : Prop :=
  ∀ e ∈ s.stack, Expr.Formed given e

/-- If the command pushes something, it is formed from given expressions. -/
def Command.PushesFormed (given : Expr α → Prop) : Command α → Prop
  | push draft => ∀ e, draft.build = .ok e → Expr.Formed given e
  | _ => True

/-- A formed expression pushed onto formed ones leaves a formed session. -/
theorem isFormed_of_pushing {stack : List (Expr α)} {read : Except ParseError (Expr α)}
    (hstack : ∀ e ∈ stack, Expr.Formed given e) (hread : ∀ e, read = .ok e → Expr.Formed given e)
    (h : s.pushing stack read = .ok (next, answer)) : next.IsFormed given := by
  cases read with
  | error => cases h
  | ok e =>
    cases h
    exact List.forall_mem_cons.2 ⟨hread e rfl, hstack⟩

/-- Changing the topmost expression by an operation leaves a formed session. -/
theorem IsFormed.onTop (hs : s.IsFormed given) {f : Expr α → Expr α}
    (hf : ∀ {e}, Expr.Formed given e → Expr.Formed given (f e))
    (h : s.onTop f = .ok (next, answer)) : next.IsFormed given := by
  unfold Session.onTop at h
  split at h
  next e rest hstack =>
    cases h
    rw [IsFormed, hstack, List.forall_mem_cons] at hs
    exact List.forall_mem_cons.2 ⟨hf hs.1, hs.2⟩
  · cases h

/-- Joining the two topmost expressions by an operation leaves a formed session. -/
theorem IsFormed.onTopTwo (hs : s.IsFormed given) {f : Expr α → Expr α → Expr α}
    (hf : ∀ {l r}, Expr.Formed given l → Expr.Formed given r → Expr.Formed given (f l r))
    (h : s.onTopTwo f = .ok (next, answer)) : next.IsFormed given := by
  unfold Session.onTopTwo at h
  split at h
  next r l rest hstack =>
    cases h
    rw [IsFormed, hstack, List.forall_mem_cons, List.forall_mem_cons] at hs
    exact List.forall_mem_cons.2 ⟨hf hs.2.1 hs.1, hs.2.2⟩
  · cases h

/-- Every joint of formed expressions is formed. -/
theorem formed_joint (joint : Joint) {l r : Expr α} (hl : Expr.Formed given l)
    (hr : Expr.Formed given r) : Expr.Formed given (joint.apply l r) := by
  cases joint with
  | add => exact .add hl hr
  | sub => exact .sub hl hr
  | mul => exact .mul hl hr
  | div => exact .div hl hr
  | pow => exact .pow hl hr
  | log => exact .logarithm hl hr

/-- Every change of a formed expression is formed. -/
theorem formed_change (change : Change) {e : Expr α} (h : Expr.Formed given e) :
    Expr.Formed given (change.apply e) := by
  cases change with
  | opposite => exact .opposite h
  | ln => exact .ln h
  | log10 => exact .log10 h

/-- The derivative that the settings ask for is formed. -/
theorem formed_derivative (settings : Settings) {e : Expr α} (h : Expr.Formed given e) :
    Expr.Formed given (settings.derivative e) := by
  unfold Settings.derivative
  cases settings.simplifyResults with
  | true => exact .simplify (.derivative _ h)
  | false => exact .derivative _ h

/-- One command forms what it puts on the stack from what stood there, from what is read and from
what is pushed. -/
theorem IsFormed.step (hs : s.IsFormed given) (hc : c.PushesFormed given)
    (h : s.step c = .ok (next, answer)) : next.IsFormed given := by
  cases c with
  | parse text => exact isFormed_of_pushing hs (fun e he => .parsed he) h
  | push draft => exact isFormed_of_pushing hs hc h
  | join joint => exact hs.onTopTwo (formed_joint joint) h
  | change change => exact hs.onTop (formed_change change) h
  | apply f => exact hs.onTop (.apply f) h
  | pend order => exact hs.onTopTwo (.pending order) h
  | differentiate v => exact hs.onTop (.derivative v) h
  | derive => exact hs.onTop (formed_derivative s.settings) h
  | simplify => exact hs.onTop .simplify h
  | set v value => exact hs.onTop (.setVariable v value) h
  | setAll values => exact hs.onTop (.setVariables _) h
  | bind | bindAll | get =>
    cases h
    exact hs
  | evaluate =>
    simp only [Session.step] at h
    repeat' split at h
    all_goals cases h
    exact hs
  | compare =>
    simp only [Session.step] at h
    split at h <;> cases h
    exact hs
  | reparse =>
    simp only [Session.step] at h
    split at h
    next e rest hstack =>
      rw [IsFormed, hstack, List.forall_mem_cons] at hs
      exact isFormed_of_pushing hs.2 (fun e he => .parsed he) h
    · cases h
  | duplicate =>
    simp only [Session.step] at h
    split at h
    next e rest hstack =>
      cases h
      rw [IsFormed, hstack] at hs
      exact List.forall_mem_cons.2 ⟨hs e List.mem_cons_self, hs⟩
    · cases h
  | swap =>
    simp only [Session.step] at h
    split at h
    next r l rest hstack =>
      cases h
      rw [IsFormed, hstack, List.forall_mem_cons, List.forall_mem_cons] at hs
      exact List.forall_mem_cons.2 ⟨hs.2.1, List.forall_mem_cons.2 ⟨hs.1, hs.2.2⟩⟩
    · cases h
  | pop =>
    simp only [Session.step] at h
    split at h
    next e rest hstack =>
      cases h
      rw [IsFormed, hstack, List.forall_mem_cons] at hs
      exact hs.2
    · cases h
  | configure document =>
    simp only [Session.step] at h
    split at h <;> cases h
    exact hs

/-- A command, whether it succeeds or fails, leaves a formed session. -/
theorem IsFormed.advance (hs : s.IsFormed given) (hc : c.PushesFormed given) :
    (s.advance c).1.IsFormed given := by
  unfold Session.advance
  split
  next next answer h => exact hs.step hc h
  · exact hs

/-- Whatever stands on the stack at some point of a run was formed from what stood there at the
start, from what was read and from what was pushed. -/
theorem formed_of_mem_run {cs : List (Command α)} (hs : s.IsFormed given)
    (hcs : ∀ c ∈ cs, c.PushesFormed given) : ∀ report ∈ s.run cs, report.1.IsFormed given := by
  induction cs generalizing s with
  | nil => exact nofun
  | cons c cs ih =>
    rw [List.forall_mem_cons] at hcs
    have hnext := hs.advance hcs.1
    exact List.forall_mem_cons.2 ⟨hnext, ih hnext hcs.2⟩

end Session

end Formula
