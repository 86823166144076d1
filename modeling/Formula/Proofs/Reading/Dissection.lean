import Formula.Proofs.Literal
import Formula.Reading.Dissection

/-!
# Where a text is dissected

The topmost operation of a text, told from the operators outside its brackets. `OnlySigns`,
`NoProducts` and `Quiet` are what a text has to keep from to be an operand of a sum, of a product
and of a power: every search of `dissect` for a looser operation then passes over it, and the
operator that joins such operands is found (`dissect_sum`, `dissect_product`, `dissect_power`). Of
the texts without operators, calls of functions (`dissect_call`, `dissect_logarithm`) and single
letters are told here.
-/

namespace Formula.Reading

open Formula.Bracket

/-! ## Operators outside brackets -/

/-- Does the text end before an operand: at its start or behind an operator? -/
def AtSign (a : List Char) : Prop :=
  ∀ c ∈ a.getLast?, Symbol.isOperatorChar c = true

/-- Is every plus and minus outside brackets a sign? -/
def OnlySigns (s : List Char) : Prop :=
  Outside (fun a c _ => c = '+' ∨ c = '-' → AtSign a) s

/-- Is no factor or divisor joined outside brackets? -/
def NoProducts (s : List Char) : Prop :=
  Outside (fun _ c _ => c ≠ '*' ∧ c ≠ '/') s

/-- Is there no operator outside brackets? -/
def Quiet (s : List Char) : Prop :=
  Outside (fun _ c _ => Symbol.isOperatorChar c = false) s

/-- Plus and minus are operators. -/
theorem isOperatorChar_of_sign {c : Char} (h : c = '+' ∨ c = '-') :
    Symbol.isOperatorChar c = true := by
  rcases h with rfl | rfl <;> rfl

/-- Operators are no brackets. -/
theorem plain_of_isOperatorChar {c : Char} (h : Symbol.isOperatorChar c = true) :
    isOpening c = false ∧ isClosing c = false := by
  simp only [Symbol.isOperatorChar, Bool.or_eq_true, beq_iff_eq] at h
  rcases h with (((rfl | rfl) | rfl) | rfl) | rfl <;> decide

/-- Operators leave the depth as it is. -/
theorem rise_of_isOperatorChar {c : Char} (h : Symbol.isOperatorChar c = true) : rise c = 0 :=
  rise_of_plain (plain_of_isOperatorChar h).1 (plain_of_isOperatorChar h).2

/-- An operand is due at the start of a text. -/
theorem atSign_nil : AtSign [] := by
  intro c hc
  simp at hc

/-- What stands before an operand after an operator stands before an operand of the whole. -/
theorem AtSign.append {a : List Char} {c : Char} (h : AtSign a)
    (hc : Symbol.isOperatorChar c = true) (l : List Char) : AtSign (l ++ c :: a) := by
  intro d hd
  cases a with
  | nil =>
    obtain rfl : c = d := by simpa using hd
    exact hc
  | cons e a => exact h d (by simpa [List.getLast?_append, List.getLast?_cons_cons] using hd)

/-- Where no operator stands, all signs are signs of operands. -/
theorem Quiet.onlySigns {s : List Char} (h : Quiet s) : OnlySigns s :=
  h.imp fun _ c _ hc hsign => by
    rw [isOperatorChar_of_sign hsign] at hc
    cases hc

/-- Where no operator stands, nothing is multiplied or divided. -/
theorem Quiet.noProducts {s : List Char} (h : Quiet s) : NoProducts s :=
  h.imp fun _ c _ hc => by
    constructor
    · rintro rfl
      cases hc
    · rintro rfl
      cases hc

/-- Two texts in which plus and minus are only signs may be joined by an operator, a plus or minus
only where an operand is due. -/
theorem OnlySigns.join {l r : List Char} {c : Char} (hd : depth l = 0)
    (hc : Symbol.isOperatorChar c = true) (hl : OnlySigns l) (hsign : c = '+' ∨ c = '-' → AtSign l)
    (hr : OnlySigns r) : OnlySigns (l ++ c :: r) := by
  rw [OnlySigns, outside_append hd, outside_cons (rise_of_isOperatorChar hc)]
  refine ⟨hl, by simpa using hsign, hr.imp fun a d b ha hd => ?_⟩
  exact (ha hd).append hc l

/-- Joining by a plus, a minus or a power brings in no product. -/
theorem NoProducts.join {l r : List Char} {c : Char} (hd : depth l = 0)
    (hc : Symbol.isOperatorChar c = true) (hl : NoProducts l) (hne : c ≠ '*' ∧ c ≠ '/')
    (hr : NoProducts r) : NoProducts (l ++ c :: r) := by
  rw [NoProducts, outside_append hd, outside_cons (rise_of_isOperatorChar hc)]
  exact ⟨hl, hne, hr⟩

/-! ## Signs -/

/-- Where an operand is due, plus and minus are signs. -/
theorem isSign_of_atSign {a b : List Char} {c : Char} (h : AtSign a) :
    isSign ⟨a.reverse, 0, c, b⟩ = true := by
  rcases List.eq_nil_or_concat a with rfl | ⟨a, d, rfl⟩
  · rfl
  · have hd : Symbol.isOperatorChar d = true := h d (by simp)
    simp [isSign, hd]

/-- Behind an operand that leaves no group open, a plus or minus is no sign. -/
theorem isSign_eq_false {a b : List Char} {c : Char} (ha : balanced a = true) (h : ¬ AtSign a) :
    isSign ⟨a.reverse, 0, c, b⟩ = false := by
  rcases List.eq_nil_or_concat a with rfl | ⟨a, d, rfl⟩
  · exact absurd atSign_nil h
  · have hd : Symbol.isOperatorChar d = false := by
      rw [Bool.eq_false_iff]
      intro hd
      refine h fun e he => ?_
      obtain rfl : d = e := by simpa using he
      exact hd
    have hparen : d ≠ '(' := by
      rintro rfl
      have hle : 0 ≤ depth a := depth_beginning_of_balanced (t := ['(']) (by simpa using ha)
      have hzero := depth_of_balanced ha
      simp only [List.concat_eq_append, depth_append, depth_cons, depth_nil,
        show rise '(' = 1 from rfl] at hzero
      omega
    simp [isSign, hd, hparen]

/-- The sign of an exponent stands between digits with a mark and more digits. -/
theorem isExponentSign_eq_false {a b : List Char} {c : Char} (hc : c = '+' ∨ c = '-')
    (h : ¬ Captured a c b) : isExponentSign ⟨a.reverse, 0, c, b⟩ = false := by
  rw [Bool.eq_false_iff]
  intro hexp
  refine h ⟨hc, ?_⟩
  simp only [isExponentSign] at hexp
  split at hexp
  next mark digit rest hbefore =>
    have ha : a = rest.reverse ++ [digit, mark] := by
      rw [← List.reverse_reverse a, hbefore]
      simp
    simp only [Bool.and_eq_true, Bool.or_eq_true, beq_iff_eq, Option.any_eq_true] at hexp
    obtain ⟨⟨⟨hmark, hdigit⟩, d, hb, hd⟩, -⟩ := hexp
    exact ⟨⟨rest.reverse, digit, mark, ha, Or.inl (isDecimalDigit_of_isDigit hdigit), hmark⟩,
      d, hb, isDecimalDigit_of_isDigit hd⟩
  · cases hexp

/-! ## The searches -/

/-- What separates operands stands outside brackets. -/
theorem isOutside_of_separates {ops : List Symbol} {k : Cut} (h : separates ops k = true) :
    k.isOutside = true := by
  simp only [separates, Bool.and_eq_true] at h
  exact h.1.1

/-- A symbol is found by its name. -/
theorem ofName?_name (f : Symbol) : Symbol.ofName? f.name = some f := by
  cases f <;> rfl

/-- A text whose places outside brackets all fail to separate has no operation of the kind. -/
theorem lastOperation?_eq_none {ops : List Symbol} {s : List Char}
    (h : Outside (fun a c b => separates ops ⟨a.reverse, 0, c, b⟩ = false) s) :
    lastOperation? ops s = none := by
  rw [lastOperation?, find?_reverse_cuts_eq_none (fun _ => isOutside_of_separates) h,
    Option.map_none]

/-- A text is cut at an operator behind which none of its kind separates. -/
theorem lastOperation?_eq_some {ops : List Symbol} {op : Symbol} {l r : List Char} {c : Char}
    (hop : op.name = [c]) (hd : depth l = 0) (hrise : rise c = 0)
    (hc : separates ops ⟨l.reverse, 0, c, r⟩ = true)
    (hr : Outside (fun a d b => separates ops ⟨(l ++ c :: a).reverse, 0, d, b⟩ = false) r) :
    lastOperation? ops (l ++ c :: r) = some (.operation op l r) := by
  rw [lastOperation?, find?_reverse_cuts (fun _ => isOutside_of_separates) hd hrise hc hr,
    Option.map_some]
  simp [operationAt, Cut.left, ← hop, ofName?_name]

/-- A sign before an operand separates no summands. -/
theorem separates_sum_eq_false {a b : List Char} {c : Char} (h : c = '+' ∨ c = '-' → AtSign a) :
    separates [.plus, .minus] ⟨a.reverse, 0, c, b⟩ = false := by
  by_cases hc : c = '+' ∨ c = '-'
  · have hsign := isSign_of_atSign (b := b) (c := c) (h hc)
    rcases hc with rfl | rfl <;> simp [separates, hsign]
  · simp only [not_or] at hc
    simp [separates, Symbol.name, Ne.symm hc.1, Ne.symm hc.2]

/-- Only times and divide separate factors. -/
theorem separates_product_eq_false {a b : List Char} {c : Char} (h : c ≠ '*' ∧ c ≠ '/') :
    separates [.times, .divide] ⟨a.reverse, 0, c, b⟩ = false := by
  simp [separates, Symbol.name, Ne.symm h.1, Ne.symm h.2]

/-- Where plus and minus are signs only, no sum is found. -/
theorem lastOperation?_sum_eq_none {s : List Char} (h : OnlySigns s) :
    lastOperation? [.plus, .minus] s = none :=
  lastOperation?_eq_none (h.imp fun _ _ _ => separates_sum_eq_false)

/-- Where nothing is multiplied or divided, no product is found. -/
theorem lastOperation?_product_eq_none {s : List Char} (h : NoProducts s) :
    lastOperation? [.times, .divide] s = none :=
  lastOperation?_eq_none (h.imp fun _ _ _ => separates_product_eq_false)

/-- A sum or difference is cut at a plus or minus behind an operand, if only signs follow. -/
theorem dissect_sum (op : Symbol) {l r : List Char} {c : Char} (hop : op.name = [c])
    (hc : c = '+' ∨ c = '-') (hl : balanced l = true) (hend : ¬ AtSign l) (hcap : ¬ Captured l c r)
    (hr : OnlySigns r) : dissect (l ++ c :: r) = .operation op l r := by
  have hcut : separates [.plus, .minus] ⟨l.reverse, 0, c, r⟩ = true := by
    have hsign := isSign_eq_false (b := r) (c := c) hl hend
    have hexp := isExponentSign_eq_false hc hcap
    rcases hc with rfl | rfl <;> simp [separates, hsign, hexp, Cut.isOutside, Symbol.name]
  have hlast := lastOperation?_eq_some hop (depth_of_balanced hl)
    (rise_of_isOperatorChar (isOperatorChar_of_sign hc)) hcut
    (hr.imp fun a d b ha => separates_sum_eq_false fun hd =>
      (ha hd).append (isOperatorChar_of_sign hc) l)
  simp [dissect, hlast]

/-- A product or quotient without sums is cut at an operator behind which no factor is joined. -/
theorem dissect_product (op : Symbol) {l r : List Char} {c : Char} (hop : op.name = [c])
    (hc : c = '*' ∨ c = '/') (hl : balanced l = true) (hsum : OnlySigns (l ++ c :: r))
    (hr : NoProducts r) : dissect (l ++ c :: r) = .operation op l r := by
  have hcut : separates [.times, .divide] ⟨l.reverse, 0, c, r⟩ = true := by
    rcases hc with rfl | rfl <;> simp [separates, Cut.isOutside, Symbol.name]
  have hrise : rise c = 0 := by rcases hc with rfl | rfl <;> rfl
  have hlast := lastOperation?_eq_some hop (depth_of_balanced hl) hrise hcut
    (hr.imp fun a d b => separates_product_eq_false)
  simp [dissect, lastOperation?_sum_eq_none hsum, hlast]

/-- A minus in front, with neither sum nor product behind it, negates the rest. -/
theorem dissect_minus {s : List Char} (hsum : OnlySigns ('-' :: s))
    (hproduct : NoProducts ('-' :: s)) :
    dissect ('-' :: s) = .negated s := by
  simp [dissect, lastOperation?_sum_eq_none hsum, lastOperation?_product_eq_none hproduct, signed?]

/-- A plus in front, with neither sum nor product behind it, leaves the rest. -/
theorem dissect_plus {s : List Char} (hsum : OnlySigns ('+' :: s))
    (hproduct : NoProducts ('+' :: s)) :
    dissect ('+' :: s) = .affirmed s := by
  simp [dissect, lastOperation?_sum_eq_none hsum, lastOperation?_product_eq_none hproduct, signed?]

/-- No sign stands in front of a text without operators. -/
theorem signed?_eq_none {s t : List Char} (hne : s ≠ []) (h : Quiet s) :
    signed? (s ++ t) = none := by
  obtain ⟨c, s, rfl⟩ := List.exists_cons_of_ne_nil hne
  have hc : Symbol.isOperatorChar c = false := h [] c s rfl rfl
  have hminus : c ≠ '-' := by
    rintro rfl
    cases hc
  have hplus : c ≠ '+' := by
    rintro rfl
    cases hc
  simp [signed?, hminus, hplus]

/-- A power is cut behind its base, if only signs and powers follow. -/
theorem dissect_power {l r : List Char} (hne : l ≠ []) (hl : balanced l = true) (hquiet : Quiet l)
    (hsum : OnlySigns (l ++ '^' :: r)) (hproduct : NoProducts (l ++ '^' :: r)) :
    dissect (l ++ '^' :: r) = .operation .power l r := by
  have hpower : power? (l ++ '^' :: r) = some (.operation .power l r) := by
    rw [power?, find?_cuts (a := l) (b := r) (c := '^') ?_ (depth_of_balanced hl)
      (by simp [Cut.isOutside])]
    · simp [operationAt, Cut.left, show Symbol.ofName? ['^'] = some .power from rfl]
    · refine hquiet.imp fun a c b hc => ?_
      have : c ≠ '^' := by
        rintro rfl
        cases hc
      simp [this]
    · intro k hk
      simp only [Bool.and_eq_true] at hk
      exact hk.2
  simp [dissect, lastOperation?_sum_eq_none hsum, lastOperation?_product_eq_none hproduct,
    signed?_eq_none hne hquiet, hpower]

/-- A text without operators is a call or a row of symbols. -/
theorem dissect_quiet {s : List Char} (hne : s ≠ []) (h : Quiet s) :
    dissect s = (call? s).getD (symbols s) := by
  have hsign : signed? s = none := by simpa using signed?_eq_none (t := []) hne h
  have hpower : power? s = none := by
    rw [power?, find?_cuts_eq_none ?_ ?_, Option.map_none]
    · intro k hk
      simp only [Bool.and_eq_true] at hk
      exact hk.2
    · refine h.imp fun a c b hc => ?_
      have : c ≠ '^' := by
        rintro rfl
        cases hc
      simp [this]
  simp [dissect, lastOperation?_sum_eq_none h.onlySigns,
    lastOperation?_product_eq_none h.noProducts, hsign, hpower]

/-! ## Calls -/

/-- A function name consists of letters. -/
theorem isAlpha_of_mem_name {f : Symbol} (hf : f.isOperator = false) :
    ∀ c ∈ f.name, c.isAlpha = true := by
  refine List.all_eq_true.1 ?_
  cases f with
  | plus | minus | times | divide | power => cases hf
  | sinc | cosec | sec | csc | cotan | cot | sin | cos | tan | ln | log => rfl

/-- A letter is no bracket and no operator. -/
theorem plain_of_isAlpha {c : Char} (h : c.isAlpha = true) :
    isOpening c = false ∧ isClosing c = false ∧ Symbol.isOperatorChar c = false :=
  forall_ascii (P := fun c => c.isAlpha = true →
    isOpening c = false ∧ isClosing c = false ∧ Symbol.isOperatorChar c = false) (by decide)
    (toNat_lt_of_isAlpha h) h

/-- Names of functions hold no brackets. -/
theorem plain_name {f : Symbol} (hf : f.isOperator = false) : Plain f.name := by
  intro c hc
  have := plain_of_isAlpha (isAlpha_of_mem_name hf c hc)
  exact ⟨this.1, this.2.1⟩

/-- The functions are the symbols that are no operators. -/
theorem mem_functions {f : Symbol} : f ∈ Symbol.functions ↔ f.isOperator = false := by
  cases f <;> decide

/-- A word without a character of the text cannot reach across it. -/
theorem prefix_of_not_mem {s t w : List Char} {o : Char} (ho : o ∉ w) (h : w <+: s ++ o :: t) :
    w <+: s := by
  by_cases hlen : w.length ≤ s.length
  · exact List.prefix_of_prefix_length_le h (List.prefix_append s (o :: t)) hlen
  · have hreach : s ++ [o] <+: w := by
      refine List.prefix_of_prefix_length_le ⟨t, ?_⟩ h ?_
      · simp
      · simp only [List.length_append, List.length_singleton]
        omega
    exact absurd (hreach.subset (by simp)) ho

/-- A name at the beginning of a text that has a bracket in it stands before the bracket. -/
theorem prefix_of_name {f : Symbol} (hf : f.isOperator = false) {s t : List Char} {o : Char}
    (ho : isOpening o = true) (h : f.name <+: s ++ o :: t) : f.name <+: s := by
  refine prefix_of_not_mem (fun hmem => ?_) h
  have := (plain_name hf o hmem).1
  rw [ho] at this
  cases this

/-- A name that begins nowhere outside brackets is not found. -/
theorem nameCut?_eq_none {f : Symbol} {s : List Char}
    (h : Outside (fun _ c b => ¬ f.name <+: c :: b) s) :
    nameCut? s f = none := by
  refine find?_cuts_eq_none ?_ (h.imp fun a c b hc => ?_)
  · intro k hk
    simp only [Bool.and_eq_true] at hk
    exact hk.1
  · simpa [Cut.isOutside, Cut.begins, ← List.isPrefixOf_iff_prefix] using hc

/-- A name that a call holds outside brackets stands in the name of its function. -/
theorem isSome_nameCut? {f g : Symbol} (hf : f.isOperator = false) (hg : g.isOperator = false)
    {o : Char} {t : List Char} (ho : isOpening o = true)
    (ht : Outside (fun _ c b => ¬ g.name <+: c :: b) (o :: t))
    (h : (nameCut? (f.name ++ o :: t) g).isSome = true) : (nameCut? f.name g).isSome = true := by
  -- Were there no such place in the name, there would be none in the call.
  have hd : depth f.name = 0 := depth_of_balanced (balanced_of_plain (plain_name hf))
  rw [Option.isSome_iff_ne_none] at h ⊢
  intro hnone
  refine h (nameCut?_eq_none ((outside_append hd).2 ⟨fun a c b hs ha hname => ?_, ht⟩))
  have hcut : (⟨a.reverse, depth a, c, b⟩ : Cut) ∈ cuts f.name :=
    mem_cuts.2 ⟨by simpa [Cut.left] using hs, by simp [Cut.left]⟩
  have := List.find?_eq_none.1 hnone _ hcut
  exact this (by simpa [Cut.isOutside, Cut.begins, ha]
    using prefix_of_name hg ho (s := c :: b) hname)

/-- The element that a search finds is found by every search that stops there and nowhere before. -/
theorem find?_of_imp {β : Type} {p q : β → Bool} {l : List β} {x : β} (h : l.find? q = some x)
    (hx : p x = true) (hpq : ∀ y ∈ l, p y = true → q y = true) : l.find? p = some x := by
  obtain ⟨-, as, bs, rfl, has⟩ := List.find?_eq_some_iff_append.1 h
  refine List.find?_eq_some_iff_append.2 ⟨hx, as, bs, rfl, fun a ha => ?_⟩
  have hq := has a ha
  rw [Bool.not_eq_true'] at hq ⊢
  rw [Bool.eq_false_iff] at hq ⊢
  exact fun hp => hq (hpq a (by simp [ha]) hp)

/-- The call at a name is the one of the first function, in the order of the search, whose name is
found. -/
theorem call?_of_find? {s : List Char} {f : Symbol} {k : Cut}
    (h : Symbol.functions.find? (fun g => (nameCut? s g).isSome) = some f)
    (hk : nameCut? s f = some k) :
    call? s = some (callAt f k) := by
  obtain ⟨-, as, bs, hfunctions, has⟩ := List.find?_eq_some_iff_append.1 h
  refine List.findSome?_eq_some_iff.2 ⟨as, f, bs, hfunctions, by rw [hk, Option.map_some],
    fun g hg => ?_⟩
  have := has g hg
  simp only [Option.not_isSome, Option.isNone_iff_eq_none] at this
  rw [this, Option.map_none]

/-- Of the names inside the name of a function its own comes first in the order of the search. -/
theorem find?_nameCut?_name {f : Symbol} (hf : f.isOperator = false) :
    Symbol.functions.find? (fun g => (nameCut? f.name g).isSome) = some f := by
  cases f with
  | plus | minus | times | divide | power => cases hf
  | sinc | cosec | sec | csc | cotan | cot | sin | cos | tan | ln | log => decide

/-- A text that begins with the name of a function and brackets holds a call of that function, if no
name stands behind outside the brackets. -/
theorem call?_name {f : Symbol} (hf : f.isOperator = false) {o : Char} {t : List Char}
    (ho : isOpening o = true)
    (ht : ∀ g : Symbol, g.isOperator = false →
      Outside (fun _ c b => ¬ g.name <+: c :: b) (o :: t)) :
    ∃ k : Cut, k.before = [] ∧ k.char :: k.after = f.name ++ o :: t ∧
      call? (f.name ++ o :: t) = some (callAt f k) := by
  obtain ⟨c, b, hname⟩ := List.exists_cons_of_length_pos f.name_length_pos
  have hk : nameCut? (f.name ++ o :: t) f = some ⟨[], 0, c, b ++ o :: t⟩ := by
    simp [nameCut?, cuts, cutsAfter, hname, Cut.isOutside, Cut.begins]
  refine ⟨⟨[], 0, c, b ++ o :: t⟩, rfl, by simp [hname], call?_of_find? ?_ hk⟩
  refine find?_of_imp (find?_nameCut?_name hf) (by rw [hk, Option.isSome_some]) fun g hg hsome => ?_
  have hg := mem_functions.1 hg
  exact isSome_nameCut? hf hg ho (ht g hg) hsome

/-- No name begins with a bracket. -/
theorem not_prefix_of_isOpening {g : Symbol} (hg : g.isOperator = false) {o : Char} {t : List Char}
    (ho : isOpening o = true) : ¬ g.name <+: o :: t := by
  intro h
  have hnil := prefix_of_name hg (s := []) ho h
  have := g.name_length_pos
  rw [List.prefix_nil.1 hnil] at this
  simp at this

/-- Names of functions hold no operators. -/
theorem quiet_name {f : Symbol} (hf : f.isOperator = false) : Quiet f.name := by
  intro a c b hs _
  exact (plain_of_isAlpha (isAlpha_of_mem_name hf c (by simp [hs]))).2.2

/-- A group behind a text without operators leaves it without operators. -/
theorem Quiet.append_group {s t m : List Char} {o : Char} (hd : depth s = 0) (hs : Quiet s)
    (ho : isOpening o = true) (hm : balanced m = true) (ht : Quiet t) :
    Quiet (s ++ (o :: m ++ closer o :: t)) := by
  have hop : Symbol.isOperatorChar o = false := by
    simp only [isOpening, Bool.or_eq_true, beq_iff_eq] at ho
    rcases ho with rfl | rfl <;> rfl
  exact (outside_append hd).2 ⟨hs, (outside_group ho hm).2 ⟨hop, ht⟩⟩

/-- Between parentheses no operator stands outside. -/
theorem quiet_parenthesised {m : List Char} (hm : balanced m = true) : Quiet (parenthesised m) :=
  Quiet.append_group (s := []) (t := []) rfl outside_nil (o := '(') rfl hm outside_nil

/-- The call of a function shows no operator outside brackets. -/
theorem quiet_call {f : Symbol} (hf : f.isOperator = false) {m : List Char}
    (hm : balanced m = true) :
    Quiet (f.name ++ parenthesised m) :=
  (quiet_name hf).append_group (depth_of_balanced (balanced_of_plain (plain_name hf)))
    (o := '(') rfl hm outside_nil

/-- A logarithm with a base shows no operator outside brackets. -/
theorem quiet_logarithm {b m : List Char} (hb : balanced b = true) (hm : balanced m = true) :
    Quiet (Symbol.log.name ++ ('[' :: b ++ ']' :: parenthesised m)) :=
  (quiet_name rfl).append_group rfl (o := '[') rfl hb (quiet_parenthesised hm)

/-- The group behind a function name is its operand. -/
theorem splitOperand_parenthesised (whole : List Char) {m : List Char} (hm : balanced m = true) :
    splitOperand whole (parenthesised m) = .ok (parenthesised m, []) := by
  have := splitGroup?_group (o := '(') rfl hm []
  simp only [show closer '(' = ')' from rfl, List.cons_append] at this
  simp [splitOperand, parenthesised, this]

/-- The name of a function before parentheses is dissected as its call. -/
theorem dissect_call {f : Symbol} (hf : f.isOperator = false) {m : List Char}
    (hm : balanced m = true) :
    dissect (f.name ++ parenthesised m) = .call f none [] (.ok (parenthesised m, [])) := by
  have hnames : ∀ g : Symbol, g.isOperator = false →
      Outside (fun _ c b => ¬ g.name <+: c :: b) (parenthesised m) := fun g hg =>
    (outside_group (o := '(') rfl hm).2 ⟨not_prefix_of_isOpening hg rfl, outside_nil⟩
  obtain ⟨k, hbefore, htext, hcall⟩ := call?_name hf (o := '(') (t := m ++ [')']) rfl hnames
  have hne : f.name ++ parenthesised m ≠ [] := by simp [parenthesised]
  rw [dissect_quiet hne (quiet_call hf hm)]
  rw [show f.name ++ parenthesised m = f.name ++ '(' :: (m ++ [')']) from rfl, hcall,
    Option.getD_some]
  have hsplit := splitOperand_parenthesised (f.name ++ parenthesised m) hm
  simp only [parenthesised, List.cons_append] at hsplit
  simp [callAt, htext, Cut.left, hbefore, hsplit, parenthesised]

/-- A logarithm with its base between square brackets is dissected as a call with that base. -/
theorem dissect_logarithm {b m : List Char} (hb : balanced b = true) (hm : balanced m = true) :
    dissect (Symbol.log.name ++ ('[' :: b ++ ']' :: parenthesised m))
      = .call .log (some b) [] (.ok (parenthesised m, [])) := by
  have hnames : ∀ g : Symbol, g.isOperator = false →
      Outside (fun _ c t => ¬ g.name <+: c :: t) ('[' :: b ++ ']' :: parenthesised m) := fun g hg =>
    (outside_group (o := '[') rfl hb).2 ⟨not_prefix_of_isOpening hg rfl,
      (outside_group (o := '(') rfl hm).2 ⟨not_prefix_of_isOpening hg rfl, outside_nil⟩⟩
  obtain ⟨k, hbefore, htext, hcall⟩ :=
    call?_name (f := .log) rfl (o := '[') (t := b ++ ']' :: parenthesised m) rfl hnames
  have hne : Symbol.log.name ++ ('[' :: b ++ ']' :: parenthesised m) ≠ [] := by simp
  rw [dissect_quiet hne (quiet_logarithm hb hm)]
  rw [show Symbol.log.name ++ ('[' :: b ++ ']' :: parenthesised m)
    = Symbol.log.name ++ '[' :: (b ++ ']' :: parenthesised m) from rfl, hcall, Option.getD_some]
  have hgroup := splitGroup?_group (o := '[') rfl hb (parenthesised m)
  simp only [show closer '[' = ']' from rfl, List.cons_append] at hgroup
  simp [callAt, htext, Cut.left, hbefore, hgroup, splitOperand_parenthesised _ hm]

/-! ## Letters -/

/-- Names of functions have at least two letters. -/
theorem two_le_length_name {f : Symbol} (hf : f.isOperator = false) : 2 ≤ f.name.length := by
  cases f with
  | plus | minus | times | divide | power => cases hf
  | sinc | cosec | sec | csc | cotan | cot | sin | cos | tan | ln | log => decide

/-- A letter by itself is no operation. -/
theorem dissect_letter {c : Char} (hc : c.isAlpha = true) : dissect [c] = .letter c := by
  have hquiet : Quiet [c] := by
    intro a d b hs _
    obtain rfl : d = c := List.mem_singleton.1 (by simp [hs])
    exact (plain_of_isAlpha hc).2.2
  have hcall : call? [c] = none := by
    refine List.findSome?_eq_none_iff.2 fun f hf => ?_
    rw [nameCut?_eq_none, Option.map_none]
    intro a d b hs _ hname
    have hlen := hname.length_le
    have htwo := two_le_length_name (mem_functions.1 hf)
    have := congrArg List.length hs
    simp only [List.length_append, List.length_cons, List.length_nil] at this hlen
    omega
  rw [dissect_quiet (by simp) hquiet, hcall]
  simp [symbols, hc]

/-! ## Last factors -/

/-- A text with a character behind it has two characters in front. -/
theorem exists_cons_cons {w : List Char} (hne : w ≠ []) (c : Char) :
    ∃ a b t, w ++ [c] = a :: b :: t := by
  obtain ⟨a, w, rfl⟩ := List.exists_cons_of_ne_nil hne
  cases w with
  | nil => exact ⟨a, c, [], rfl⟩
  | cons b t => exact ⟨a, b, t ++ [c], rfl⟩

/-- The last character is taken off if it closes no group. -/
theorem symbols_concat {w : List Char} {c : Char} (hne : w ≠ []) (hc : c ≠ ')') :
    symbols (w ++ [c]) = .product w [c] := by
  have hlast : (w ++ [c]).getLast? ≠ some ')' := by simpa using hc
  have hproduct : symbols (w ++ [c]) = .product (w ++ [c]).dropLast
    ((w ++ [c]).drop ((w ++ [c]).length - 1)) := by
    obtain ⟨a, b, t, hw⟩ := exists_cons_cons hne c
    rw [hw] at hlast ⊢
    rw [symbols, if_neg hlast]
  rw [hproduct, List.dropLast_concat]
  simp

/-- The last group is taken off. -/
theorem symbols_group {m : List Char} (hm : balanced m = true) (w : List Char) :
    symbols (w ++ parenthesised m) = if w.isEmpty then .refused .empty else .product w
      (parenthesised m) := by
  have hsplit := splitLastGroup?_group (o := '(') rfl hm w
  have htext : w ++ parenthesised m = (w ++ '(' :: m) ++ [')'] := by simp [parenthesised]
  have hlast : (w ++ parenthesised m).getLast? = some ')' := by rw [htext, List.getLast?_concat]
  obtain ⟨a, b, t, hw⟩ := exists_cons_cons (w := w ++ '(' :: m) (by simp) ')'
  rw [← htext] at hw
  rw [hw] at hlast
  rw [show '(' :: m ++ [closer '('] = parenthesised m from rfl, hw] at hsplit
  rw [hw, symbols, if_pos hlast, hsplit]

/-! ## All dissections -/

/-- An operator is written with one character. -/
theorem exists_char_of_isOperator {f : Symbol} (hf : f.isOperator = true) :
    ∃ c, f.name = [c] ∧ Symbol.isOperatorChar c = true := by
  cases f with
  | plus | minus | times | divide | power => exact ⟨_, rfl, rfl⟩
  | sinc | cosec | sec | csc | cotan | cot | sin | cos | tan | ln | log => cases hf

/-- What separates operands is an operator. -/
theorem isOperatorChar_of_separates {ops : List Symbol} (hops : ∀ f ∈ ops, f.isOperator = true)
    {k : Cut} (h : separates ops k = true) : Symbol.isOperatorChar k.char = true := by
  simp only [separates, Bool.and_eq_true, List.any_eq_true, beq_iff_eq] at h
  obtain ⟨⟨-, f, hf, hname⟩, -⟩ := h
  obtain ⟨c, hc, hop⟩ := exists_char_of_isOperator (hops f hf)
  obtain rfl : c = k.char := by simpa using hc.symm.trans hname
  exact hop

/-- What holds of every kind of dissection that a text allows holds of its dissection. -/
theorem dissect_induction {s : List Char} {P : Dissection → Prop}
    (hoperation : ∀ k ∈ cuts s, k.isOutside = true → Symbol.isOperatorChar k.char = true →
      P (operationAt k))
    (hnegated : ∀ t, s = '-' :: t → P (.negated t))
    (haffirmed : ∀ t, s = '+' :: t → P (.affirmed t))
    (hcall : ∀ f : Symbol, f.isOperator = false → ∀ k ∈ cuts s, k.isOutside = true →
      f.name <+: k.char :: k.after → P (callAt f k))
    (hsymbols : P (symbols s)) : P (dissect s) := by
  have hlast : ∀ ops : List Symbol, (∀ f ∈ ops, f.isOperator = true) →
    ∀ d ∈ lastOperation? ops s, P d := by
    intro ops hops d hd
    obtain ⟨k, hk, rfl⟩ := Option.map_eq_some_iff.1 hd
    have hseparates := List.find?_some hk
    exact hoperation k (List.mem_reverse.1 (List.mem_of_find?_eq_some hk))
      (isOutside_of_separates hseparates) (isOperatorChar_of_separates hops hseparates)
  have hsigned : ∀ d ∈ signed? s, P d := by
    intro d hd
    cases s with
    | nil => cases hd
    | cons c t =>
      rw [signed?] at hd
      split at hd
      next hc =>
        obtain rfl := Option.some.inj hd
        exact hnegated t (by rw [hc])
      · obtain ⟨hc, hd⟩ := Option.ite_none_right_eq_some.1 hd
        obtain rfl := Option.some.inj hd
        exact haffirmed t (by rw [hc])
  have hpower : ∀ d ∈ power? s, P d := by
    intro d hd
    obtain ⟨k, hk, rfl⟩ := Option.map_eq_some_iff.1 hd
    have hfound := List.find?_some hk
    simp only [Bool.and_eq_true, beq_iff_eq] at hfound
    exact hoperation k (List.mem_of_find?_eq_some hk) hfound.2 (by rw [hfound.1]; rfl)
  have hcalls : ∀ d ∈ call? s, P d := by
    intro d hd
    obtain ⟨f, hf, hname⟩ := List.exists_of_findSome?_eq_some hd
    obtain ⟨k, hk, rfl⟩ := Option.map_eq_some_iff.1 hname
    have hfound := List.find?_some hk
    simp only [Bool.and_eq_true] at hfound
    exact hcall f (mem_functions.1 hf) k (List.mem_of_find?_eq_some hk) hfound.1
      (List.isPrefixOf_iff_prefix.1 hfound.2)
  have horElse : ∀ {o o' : Option Dissection}, (∀ d ∈ o, P d) → (∀ d ∈ o', P d) →
    ∀ d ∈ (o <|> o'), P d := by
    intro o o' ho ho' d hd
    cases o with
    | none => exact ho' d hd
    | some e => exact ho d hd
  have hall := horElse (hlast [.plus, .minus] (by decide))
    (horElse (hlast [.times, .divide] (by decide)) (horElse hsigned (horElse hpower hcalls)))
  unfold dissect
  generalize (lastOperation? [.plus, .minus] s <|> lastOperation? [.times, .divide] s <|>
    signed? s <|> power? s <|> call? s) = o at hall ⊢
  cases o with
  | none => exact hsymbols
  | some d => exact hall d rfl

end Formula.Reading
