import Formula.Bracket.Cut
import Formula.Reading.Symbol

/-!
# Dissection

One step of reading a formula: what the topmost operation of a text is and which parts of the text
are its operands. The loosest operation wins. Sums and differences are cut at their last sign,
products and quotients at their last one, powers at their first; then come function calls, and then
rows of symbols, of which the last is taken off. Every part is shorter than the text,
`length_lt_of_mem_parts`.
-/

namespace Formula

/-- Why a text is no formula. -/
inductive ParseError
  /-- The brackets of this text are not balanced. -/
  | unbalanced (text : List Char)
  /-- This text stands where a number or a symbol should. -/
  | unknownSymbol (text : List Char)
  /-- The formula or one of its operands is empty. -/
  | empty
  /-- The places of the multiplication signs that this text leaves out are not found in order. -/
  | outOfOrder (text : List Char)
deriving DecidableEq, Repr

/-- The report of a failed reading. -/
def ParseError.message : ParseError → String
  | unbalanced text => "Unbalanced parentheses in '" ++ String.ofList text ++ "'"
  | unknownSymbol text => "Unknown symbol '" ++ String.ofList text ++ "'"
  | empty => "Empty expression or missing operand"
  | outOfOrder text => "Omitted multiplication signs out of order in '" ++ String.ofList text ++ "'"

namespace Reading

open Formula.Bracket

/-- The topmost operation of a text with its operands still unread. -/
inductive Dissection
  /-- An operator between two operands. -/
  | operation (op : Symbol) (left right : List Char)
  /-- A minus sign before an operand. -/
  | negated (operand : List Char)
  /-- A plus sign before an operand. -/
  | affirmed (operand : List Char)
  /-- A function call among other factors: the base of a general logarithm, what comes before the
  call, and the operand with what comes after it. -/
  | call (f : Symbol) (base : Option (List Char)) (before : List Char)
      (tail : Except ParseError (List Char × List Char))
  /-- Two factors side by side. -/
  | product (left right : List Char)
  /-- A letter by itself. -/
  | letter (c : Char)
  /-- Nothing that could be read. -/
  | refused (e : ParseError)

/-- The unread texts of a dissection. -/
def Dissection.parts : Dissection → List (List Char)
  | operation _ l r | product l r => [l, r]
  | negated s | affirmed s => [s]
  | call _ base before tail =>
    base.toList ++ before :: match tail with
      | .ok (operand, after) => [operand, after]
      | .error _ => []
  | letter _ | refused _ => []

/-! ## Operators -/

/-- Is a plus or minus at the cut a sign, for want of an operand before it? -/
def isSign (k : Cut) : Bool :=
  match k.before with
  | [] => true
  | c :: _ => Symbol.isOperatorChar c || c == '('

/-- Is a character a digit or a point? -/
def isMantissaChar (c : Char) : Bool :=
  c.isDigit || c == '.'

/-- Is a plus or minus at the cut the sign of an exponent, as in `1e-5`? The digits before the mark
have to start a literal; in `x2e-5` they do not. -/
def isExponentSign (k : Cut) : Bool :=
  match k.before with
  | mark :: digit :: rest =>
    (mark == 'e' || mark == 'E') && digit.isDigit && k.after.head?.any Char.isDigit &&
      match (digit :: rest).dropWhile isMantissaChar with
      | [] => true
      | c :: _ => Symbol.isOperatorChar c || c == '('
  | _ => false

/-- Does one of the given operators stand at the cut, outside brackets and between two operands? -/
def separates (ops : List Symbol) (k : Cut) : Bool :=
  k.isOutside && ops.any (·.name == [k.char]) &&
    !((k.char == '+' || k.char == '-') && (isSign k || isExponentSign k))

/-- A text cut at an operator. -/
def operationAt (k : Cut) : Dissection :=
  .operation ((Symbol.ofName? [k.char]).getD .times) k.left k.after

/-- A text cut at the last of the given operators. -/
def lastOperation? (ops : List Symbol) (s : List Char) : Option Dissection :=
  ((cuts s).reverse.find? (separates ops)).map operationAt

/-- A text with a sign in front. -/
def signed? : List Char → Option Dissection
  | [] => none
  | c :: rest =>
    if c = '-' then some (.negated rest) else if c = '+' then some (.affirmed rest) else none

/-- A text cut at the first power sign outside brackets. -/
def power? (s : List Char) : Option Dissection :=
  ((cuts s).find? fun k => k.char == '^' && k.isOutside).map operationAt

/-! ## Calls -/

/-- The operand of a function, which is the group after its name or else the next character, and the
text after the operand. `whole` is the text under dissection. -/
def splitOperand (whole s : List Char) : Except ParseError (List Char × List Char) :=
  match s with
  | [] => .error .empty
  | c :: rest =>
    if c = '(' then
      match splitGroup? s with
      | some split => .ok split
      | none => .error (.unbalanced whole)
    else .ok ([c], rest)

/-- The call of a function whose name begins at a cut. -/
def callAt (f : Symbol) (k : Cut) : Dissection :=
  let s := k.char :: k.after
  let whole := k.left ++ s
  let rest := s.drop f.name.length
  if f = .log ∧ rest.head? = some '[' then
    match splitGroup? rest with
    | some (group, rest) =>
      .call f (some (group.drop 1).dropLast) k.left (splitOperand whole rest)
    | none => .refused (.unbalanced whole)
  else .call f none k.left (splitOperand whole rest)

/-- The first place outside brackets where the name of a function begins. -/
def nameCut? (s : List Char) (f : Symbol) : Option Cut :=
  (cuts s).find? fun k => k.isOutside && k.begins f.name

/-- The call of the first function, in the order of the names, that the text holds outside
brackets. -/
def call? (s : List Char) : Option Dissection :=
  Symbol.functions.findSome? fun f => (nameCut? s f).map (callAt f)

/-! ## Symbols -/

/-- The last group or the last character of a text taken off as a factor. A single character is a
letter or nothing known. -/
def symbols (s : List Char) : Dissection :=
  match s with
  | [] => .refused .empty
  | [c] => if c.isAlpha then .letter c else .refused (.unknownSymbol [c])
  | _ :: _ :: _ =>
    if s.getLast? = some ')' then
      match splitLastGroup? s with
      | some (left, right) => if left.isEmpty then .refused .empty else .product left right
      | none => .refused (.unbalanced s)
    else .product s.dropLast (s.drop (s.length - 1))

/-- The topmost operation of a text. -/
def dissect (s : List Char) : Dissection :=
  (lastOperation? [.plus, .minus] s <|> lastOperation? [.times, .divide] s <|> signed? s <|>
    power? s <|> call? s).getD (symbols s)

/-! ## Parts are shorter -/

/-- The operands at an operator are shorter than the text. -/
theorem length_lt_of_mem_parts_operationAt {k : Cut} {s p : List Char} (hk : k ∈ cuts s)
    (hp : p ∈ (operationAt k).parts) : p.length < s.length := by
  rw [eq_of_mem_cuts hk]
  simp only [operationAt, Dissection.parts, List.mem_cons, List.not_mem_nil, or_false] at hp
  rcases hp with rfl | rfl
  · simp only [List.length_append, List.length_cons]
    omega
  · simp only [List.length_append, List.length_cons]
    omega

/-- The operands of the last operation are shorter than the text. -/
theorem length_lt_of_mem_parts_lastOperation? {ops : List Symbol} {s p : List Char} {d : Dissection}
    (h : lastOperation? ops s = some d) (hp : p ∈ d.parts) : p.length < s.length := by
  obtain ⟨k, hk, rfl⟩ := Option.map_eq_some_iff.1 h
  exact length_lt_of_mem_parts_operationAt (List.mem_reverse.1 (List.mem_of_find?_eq_some hk)) hp

/-- What stands behind a sign is shorter than the text. -/
theorem length_lt_of_mem_parts_signed? {s p : List Char} {d : Dissection} (h : signed? s = some d)
    (hp : p ∈ d.parts) : p.length < s.length := by
  cases s with
  | nil => simp [signed?] at h
  | cons c rest =>
    simp only [signed?] at h
    split at h
    · obtain rfl := Option.some.inj h
      simp_all [Dissection.parts]
    · split at h
      · obtain rfl := Option.some.inj h
        simp_all [Dissection.parts]
      · simp at h

/-- Base and exponent of a power are shorter than the text. -/
theorem length_lt_of_mem_parts_power? {s p : List Char} {d : Dissection} (h : power? s = some d)
    (hp : p ∈ d.parts) : p.length < s.length := by
  obtain ⟨k, hk, rfl⟩ := Option.map_eq_some_iff.1 h
  exact length_lt_of_mem_parts_operationAt (List.mem_of_find?_eq_some hk) hp

/-- Neither a group nor the text behind it is longer than both together. -/
theorem length_le_of_splitGroup? {s group rest : List Char}
    (h : splitGroup? s = some (group, rest)) :
    group.length ≤ s.length ∧ rest.length ≤ s.length := by
  obtain ⟨n, -, hs⟩ := Option.map_eq_some_iff.1 h
  simp only [List.splitAt_eq, Prod.mk.injEq] at hs
  obtain ⟨rfl, rfl⟩ := hs
  simp only [List.length_take, List.length_drop]
  omega

/-- Neither an operand nor the text behind it is longer than both together. -/
theorem length_le_of_splitOperand {whole s operand rest : List Char}
    (h : splitOperand whole s = .ok (operand, rest)) :
    operand.length ≤ s.length ∧ rest.length ≤ s.length := by
  cases s with
  | nil => simp [splitOperand] at h
  | cons c s =>
    simp only [splitOperand] at h
    split at h
    · split at h
      next split hs =>
        obtain rfl := Except.ok.inj h
        exact length_le_of_splitGroup? hs
      · simp at h
    · simp only [Except.ok.injEq, Prod.mk.injEq] at h
      obtain ⟨rfl, rfl⟩ := h
      simp

/-- The parts of a call are as short as its base, the text before it and the text behind its name.
-/
theorem length_lt_of_mem_parts_call {f : Symbol} {base : Option (List Char)}
    {before whole s p : List Char} {n : Nat} (hbase : ∀ b ∈ base, b.length < n)
    (hbefore : before.length < n) (hs : s.length < n)
    (hp : p ∈ (Dissection.call f base before (splitOperand whole s)).parts) : p.length < n := by
  simp only [Dissection.parts, List.mem_append, Option.mem_toList, List.mem_cons] at hp
  rcases hp with hp | rfl | hp
  · exact hbase p hp
  · exact hbefore
  · split at hp
    next operand after h =>
      have := length_le_of_splitOperand h
      simp only [List.mem_cons, List.not_mem_nil, or_false] at hp
      rcases hp with rfl | rfl <;> omega
    · simp at hp

/-- The parts of a text cut at a function name are shorter than the text. -/
theorem length_lt_of_mem_parts_callAt {f : Symbol} {k : Cut} {s p : List Char} (hk : k ∈ cuts s)
    (hp : p ∈ (callAt f k).parts) : p.length < s.length := by
  have hf := f.name_length_pos
  have hs : s.length = k.left.length + (k.char :: k.after).length := by
    rw [eq_of_mem_cuts hk, List.length_append]
  simp only [callAt] at hp
  have hrest : ((k.char :: k.after).drop f.name.length).length < s.length := by
    simp only [List.length_drop, List.length_cons] at hs ⊢
    omega
  have hleft : k.left.length < s.length := by
    simp only [List.length_cons] at hs
    omega
  split at hp
  · split at hp
    next group rest h =>
      have := length_le_of_splitGroup? h
      refine length_lt_of_mem_parts_call ?_ hleft (by omega) hp
      intro b hb
      obtain rfl := Option.mem_some.1 hb
      simp only [List.length_dropLast, List.length_drop]
      omega
    · simp [Dissection.parts] at hp
  · exact length_lt_of_mem_parts_call (by simp) hleft hrest hp

/-- The parts of a text with a call are shorter than the text. -/
theorem length_lt_of_mem_parts_call? {s p : List Char} {d : Dissection} (h : call? s = some d)
    (hp : p ∈ d.parts) : p.length < s.length := by
  obtain ⟨f, -, hf⟩ := List.exists_of_findSome?_eq_some h
  obtain ⟨k, hk, rfl⟩ := Option.map_eq_some_iff.1 hf
  exact length_lt_of_mem_parts_callAt (List.mem_of_find?_eq_some hk) hp

/-- The parts of a row of symbols are shorter than the row. -/
theorem length_lt_of_mem_parts_symbols {s p : List Char} (hp : p ∈ (symbols s).parts) :
    p.length < s.length := by
  unfold symbols at hp
  split at hp
  · simp [Dissection.parts] at hp
  · split at hp <;> simp [Dissection.parts] at hp
  · split at hp
    · split at hp
      next left right h =>
        obtain ⟨n, -, hs⟩ := Option.map_eq_some_iff.1 h
        simp only [List.splitAt_eq, Prod.mk.injEq] at hs
        obtain ⟨rfl, rfl⟩ := hs
        split at hp
        · simp [Dissection.parts] at hp
        next hleft =>
          simp only [List.isEmpty_iff, List.take_eq_nil_iff, not_or] at hleft
          simp only [Dissection.parts, List.mem_cons, List.not_mem_nil, or_false] at hp
          rcases hp with rfl | rfl
          · simp only [List.length_take, List.length_cons]
            simp only [List.length_cons] at hleft
            omega
          · simp only [List.length_drop, List.length_cons] at hleft ⊢
            omega
      · simp [Dissection.parts] at hp
    · simp only [Dissection.parts, List.mem_cons, List.not_mem_nil, or_false] at hp
      rcases hp with rfl | rfl
      · simp
      · simp only [List.length_drop, List.length_cons]
        omega

/-- All parts of a text that is taken apart are shorter than the text. -/
theorem length_lt_of_mem_parts {s p : List Char} (hp : p ∈ (dissect s).parts) :
    p.length < s.length := by
  unfold dissect at hp
  cases hsum : lastOperation? [.plus, .minus] s with
  | some d => exact length_lt_of_mem_parts_lastOperation? hsum (by simpa [hsum] using hp)
  | none =>
    cases hproduct : lastOperation? [.times, .divide] s with
    | some d =>
      exact length_lt_of_mem_parts_lastOperation? hproduct (by simpa [hsum, hproduct] using hp)
    | none =>
      cases hsign : signed? s with
      | some d =>
        exact length_lt_of_mem_parts_signed? hsign (by simpa [hsum, hproduct, hsign] using hp)
      | none =>
        cases hpower : power? s with
        | some d =>
          exact length_lt_of_mem_parts_power? hpower
            (by simpa [hsum, hproduct, hsign, hpower] using hp)
        | none =>
          cases hcall : call? s with
          | some d =>
            exact length_lt_of_mem_parts_call? hcall
              (by simpa [hsum, hproduct, hsign, hpower, hcall] using hp)
          | none =>
            exact length_lt_of_mem_parts_symbols
              (by simpa [hsum, hproduct, hsign, hpower, hcall] using hp)

end Reading

end Formula
