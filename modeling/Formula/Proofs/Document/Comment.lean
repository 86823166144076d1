import Formula.Proofs.Document.Layout
import Formula.Proofs.Text

/-!
# Taking comments out

A text is cut into lines, and the blank ones and the comments go. Every item of a layout begins with
a letter or an underscore and has no end of a line in it, so a line on which something of an item
stands stays, and the gaps are left as white space (`IsLayout.withoutComments`).
-/

namespace Formula

namespace Text

/-! ## Trimming -/

/-- Trimming the end stops where a text ends in something else than a blank. -/
theorem trimEnd_append {s : List Char} (hs : ∀ c ∈ s.getLast?, isBlank c = false) (t : List Char) :
    trimEnd (s ++ t) = s ++ trimEnd t := by
  have hself : s.reverse.dropWhile isBlank = s.reverse := by
    rw [List.getLast?_eq_head?_reverse] at hs
    cases hr : s.reverse with
    | nil => rfl
    | cons c r => exact List.dropWhile_cons_of_neg (Bool.eq_false_iff.1 (hs c (by rw [hr]; rfl)))
  unfold trimEnd
  rw [List.reverse_append, List.dropWhile_append, hself]
  split
  next hempty =>
    rw [List.isEmpty_iff.1 hempty, List.reverse_nil, List.append_nil, List.reverse_reverse]
  · rw [List.reverse_append, List.reverse_reverse]

/-- A carriage return at the end is trimmed like other blanks. -/
theorem trimEnd_append_return (s : List Char) : trimEnd (s ++ ['\r']) = trimEnd s := by
  unfold trimEnd
  rw [List.reverse_append, List.reverse_singleton, List.singleton_append,
    List.dropWhile_cons_of_pos (by decide)]

/-- A carriage return at the end of a line is blank. -/
theorem trim_append_return (s : List Char) : trim (s ++ ['\r']) = trim s := by
  unfold trim trimStart
  rw [List.dropWhile_append]
  split
  next hempty =>
    rw [List.isEmpty_iff.1 hempty, List.dropWhile_cons_of_pos (by decide)]
    rfl
  · exact trimEnd_append_return _

/-- Blanks in front are trimmed. -/
theorem trim_append_of_isBlank {indent : List Char} (h : ∀ c ∈ indent, isBlank c = true)
    (s : List Char) :
    trim (indent ++ s) = trim s := by
  rw [trim, trimStart, List.dropWhile_append_of_pos h]
  rfl

/-- Behind a first character that is no blank only the end is trimmed. -/
theorem trim_cons {c : Char} (hc : isBlank c = false) (s : List Char) :
    trim (c :: s) = trimEnd (c :: s) := by
  rw [trim, trimStart, List.dropWhile_cons_of_neg (Bool.eq_false_iff.1 hc)]

/-- There is nothing to trim in a text without blanks. -/
theorem trim_eq_self {s : List Char} (hs : ∀ c ∈ s, isBlank c = false) : trim s = s := by
  cases s with
  | nil => rfl
  | cons c s =>
    have hlast : ∀ d ∈ (c :: s).getLast?, isBlank d = false :=
      fun d hd => hs d (List.mem_of_mem_getLast? hd)
    rw [trim_cons (hs c (.head _)), ← List.append_nil (c :: s), trimEnd_append hlast]
    rfl

end Text

namespace Document

open Text

/-! ## Idle lines -/

/-- White space between items is blank. -/
theorem isBlank_of_isGap {c : Char} (h : isGap c = true) : isBlank c = true := by
  simp only [isGap, isSpace, Bool.or_eq_true, beq_iff_eq] at h
  rcases h with ((rfl | rfl) | rfl) | rfl <;> decide

/-- The marks of comments neither begin nor end with a blank. -/
theorem not_isBlank_of_mem_commentMarks {mark : List Char} (h : mark ∈ commentMarks) :
    ∃ c rest, mark = c :: rest ∧ isBlank c = false ∧ ∀ c ∈ mark.getLast?, isBlank c = false := by
  simp only [commentMarks, List.mem_cons, List.not_mem_nil, or_false] at h
  rcases h with rfl | rfl | rfl | rfl <;> refine ⟨_, _, rfl, by decide, ?_⟩ <;>
    rintro _ ⟨⟩ <;> decide

/-- The filter sees that a blank line and a comment say nothing. -/
theorem IsIdleLine.isIdle {line : List Char} (h : IsIdleLine line) : isIdle line = true := by
  obtain ⟨indent, rest, rfl, hindent, rfl | ⟨mark, hmark, t, rfl⟩⟩ := h.idle
  · rw [Document.isIdle, trim_append_of_isBlank hindent]
    rfl
  · obtain ⟨c, rest, rfl, hc, hlast⟩ := not_isBlank_of_mem_commentMarks hmark
    have htrim : trim (indent ++ (c :: rest ++ t)) = c :: rest ++ trimEnd t := by
      rw [trim_append_of_isBlank hindent, ← trimEnd_append hlast]
      exact trim_cons hc _
    rw [Document.isIdle, htrim, Bool.or_eq_true, List.any_eq_true]
    exact .inr ⟨_, hmark, List.isPrefixOf_iff_prefix.2 (List.prefix_append _ _)⟩

/-- A carriage return at its end does not decide whether a line says anything. -/
theorem isIdle_dropReturn (line : List Char) :
    isIdle (dropReturn line).reverse = isIdle line.reverse := by
  unfold dropReturn
  split
  · rw [isIdle, isIdle, List.reverse_cons, trim_append_return]
  · rfl

/-- Letters and underscores are not blank and begin no mark of a comment. -/
theorem starts_of_isIdentifierStart {c : Char} (h : isIdentifierStart c = true) :
    isBlank c = false ∧ ∀ mark ∈ commentMarks, mark.head? ≠ some c := by
  have hascii : c.toNat < 128 := by
    rcases Bool.or_eq_true_iff.1 h with halpha | hunderscore
    · exact toNat_lt_of_isAlpha halpha
    · obtain rfl := eq_of_beq hunderscore
      decide
  exact forall_ascii (P := fun c => isIdentifierStart c = true →
    isBlank c = false ∧ ∀ mark ∈ commentMarks, mark.head? ≠ some c) (by decide) hascii h

/-- A line that begins as an item does says something, however far it is indented. -/
theorem not_isIdle_of_isIdentifierStart {indent : List Char} {c : Char}
    (hindent : ∀ c ∈ indent, isBlank c = true) (hc : isIdentifierStart c = true) (s : List Char) :
    isIdle (indent ++ c :: s) = false := by
  obtain ⟨hblank, hmarks⟩ := starts_of_isIdentifierStart hc
  have htrim : trim (indent ++ c :: s) = c :: trimEnd s := by
    rw [trim_append_of_isBlank hindent, trim_cons hblank]
    exact trimEnd_append (s := [c]) (fun _ h => Option.some.inj h ▸ hblank) s
  rw [isIdle, htrim]
  simp only [List.isEmpty_cons, Bool.false_or, List.any_eq_false, List.isPrefixOf_iff_prefix]
  intro mark hmark hpre
  obtain ⟨first, rest, rfl, -⟩ := not_isBlank_of_mem_commentMarks hmark
  exact hmarks _ hmark (congrArg some (List.cons_prefix_cons.1 hpre).1)

/-! ## Lines that stay -/

/-- Lines with their ends. -/
def ended (ls : List (List Char)) : List Char :=
  ls.flatMap (· ++ ['\n'])

/-- The lines that stay, with their ends, of a text that follows the part `line` of its first line,
given last character first. -/
def kept (line s : List Char) : List Char :=
  ended ((linesFrom line s).filter (!isIdle ·))

/-- At the end of a text its last line is looked at. -/
theorem kept_nil (line : List Char) :
    kept line [] = if isIdle line.reverse then [] else line.reverse ++ ['\n'] := by
  cases line with
  | nil => rfl
  | cons c line =>
    rw [kept, linesFrom, if_neg (by simp), List.filter_cons]
    split <;> simp_all [ended]

/-- At the end of a line the line is looked at and a new one begins. -/
theorem kept_newline (line s : List Char) :
    kept line ('\n' :: s) =
      (if isIdle line.reverse then [] else (dropReturn line).reverse ++ ['\n']) ++ kept [] s := by
  rw [kept, linesFrom, if_pos rfl, List.filter_cons, isIdle_dropReturn]
  split <;> simp_all [ended, kept]

/-- A piece without an end of a line joins the line in which it stands. -/
theorem kept_append {p : List Char} (hp : '\n' ∉ p) (line s : List Char) :
    kept line (p ++ s) = kept (p.reverse ++ line) s := by
  induction p generalizing line with
  | nil => rfl
  | cons c p ih =>
    rw [List.mem_cons, not_or] at hp
    have hstep : kept line (c :: (p ++ s)) = kept (c :: line) (p ++ s) := by
      rw [kept, linesFrom, if_neg (Ne.symm hp.1), kept]
    rw [List.cons_append, hstep, ih hp.2, List.reverse_cons, List.append_assoc,
      List.singleton_append]

/-- Nothing stays of a line that says nothing. -/
theorem kept_idle {line : List Char} (h : IsIdleLine line) : kept [] line = [] := by
  have hkept := kept_append h.end_not_mem [] []
  rw [List.append_nil, List.append_nil, kept_nil, List.reverse_reverse, if_pos h.isIdle] at hkept
  exact hkept

/-- Nothing stays of whole lines that say nothing, and the text behind them begins a line. -/
theorem kept_ended {ls : List (List Char)} (hls : ∀ line ∈ ls, IsIdleLine line) (s : List Char) :
    kept [] (ended ls ++ s) = kept [] s := by
  induction ls with
  | nil => rfl
  | cons line ls ih =>
    have hline := hls line (.head _)
    have hcons : ended (line :: ls) ++ s = line ++ '\n' :: (ended ls ++ s) := by simp [ended]
    rw [hcons, kept_append hline.end_not_mem, kept_newline, List.append_nil, List.reverse_reverse,
      if_pos hline.isIdle, List.nil_append, ih fun line h => hls line (.tail _ h)]

/-! ## Gaps -/

/-- White space within a line. -/
def IsIndent (s : List Char) : Prop :=
  ∀ c ∈ s, isGap c = true ∧ c ≠ '\n'

/-- A line of white space says nothing. -/
theorem IsIndent.isIdleLine {s : List Char} (h : IsIndent s) : IsIdleLine s where
  end_not_mem hmem := (h _ hmem).2 rfl
  idle := ⟨s, [], (List.append_nil s).symm, fun c hc => isBlank_of_isGap (h c hc).1, .inl rfl⟩

/-- White space in front of an indent, if it ends no line, is part of it. -/
theorem IsIndent.cons {c : Char} {s : List Char} (hc : isGap c = true) (hne : c ≠ '\n')
    (h : IsIndent s) :
    IsIndent (c :: s) :=
  List.forall_mem_cons.2 ⟨⟨hc, hne⟩, h⟩

/-- An indent holds no end of a line, so none stands before the end with which a text begins. -/
theorem IsIndent.eq_nil {behind s t : List Char} (h : IsIndent behind)
    (heq : '\n' :: s = behind ++ '\n' :: t) :
    behind = [] ∧ s = t := by
  cases behind with
  | nil => exact ⟨rfl, List.tail_eq_of_cons_eq heq⟩
  | cons c behind => exact absurd (List.head_eq_of_cons_eq heq).symm (h c (.head _)).2

/-- A last line is written with its end, like the others. -/
theorem ended_concat (ls : List (List Char)) (line : List Char) :
    ended (ls ++ [line]) = ended ls ++ line ++ ['\n'] := by
  simp [ended]

/-- Padding stays within a line, or it is white space up to the end of its first line, idle lines,
and white space with which its last line begins. -/
theorem Padding.isIndent_or {s : List Char} (h : Padding s) :
    IsIndent s ∨ ∃ behind ls before, IsIndent behind ∧ (∀ line ∈ ls, IsIdleLine line) ∧
      IsIndent before ∧ s = behind ++ '\n' :: (ended ls ++ before) := by
  induction h with
  | nil => exact .inl nofun
  | @blank c s hblank _ ih =>
    have hc : isGap c = true := (isGap_eq c).trans hblank
    by_cases hend : c = '\n'
    · subst hend
      rcases ih with hindent | ⟨behind, ls, before, hbehind, hls, hbefore, rfl⟩
      · exact .inr ⟨[], [], s, nofun, nofun, hindent, rfl⟩
      · refine .inr ⟨[], behind :: ls, before, nofun,
          List.forall_mem_cons.2 ⟨hbehind.isIdleLine, hls⟩, hbefore, ?_⟩
        simp [ended]
    · rcases ih with hindent | ⟨behind, ls, before, hbehind, hls, hbefore, rfl⟩
      · exact .inl (hindent.cons hc hend)
      · exact .inr ⟨c :: behind, ls, before, hbehind.cons hc hend, hls, hbefore, rfl⟩
  | @line line s hline _ ih =>
    rcases ih with hindent | ⟨behind, ls, before, hbehind, hls, hbefore, heq⟩
    · exact absurd rfl (hindent _ (.head _)).2
    · obtain ⟨rfl, rfl⟩ := hbehind.eq_nil heq
      refine .inr ⟨[], line :: ls, before, nofun, List.forall_mem_cons.2 ⟨hline, hls⟩, hbefore, ?_⟩
      simp [ended]

/-- What may stand before the first item is idle lines and the indent of its line. -/
theorem IsLead.exists_lines {s : List Char} (h : IsLead s) :
    ∃ ls before, (∀ line ∈ ls, IsIdleLine line) ∧ IsIndent before ∧ s = ended ls ++ before := by
  rcases Padding.isIndent_or h with hindent | ⟨behind, ls, before, hbehind, hls, hbefore, heq⟩
  · exact absurd rfl (hindent _ (.head _)).2
  · obtain ⟨-, rfl⟩ := hbehind.eq_nil heq
    exact ⟨ls, before, hls, hbefore, rfl⟩

/-- What may stand behind the last item ends its line at most, with idle lines behind. -/
theorem IsTrail.isIndent_or {s : List Char} (h : IsTrail s) :
    IsIndent s ∨ ∃ behind ls line, IsIndent behind ∧ (∀ line ∈ ls, IsIdleLine line) ∧
      IsIdleLine line ∧ s = behind ++ '\n' :: (ended ls ++ line) := by
  rcases Padding.isIndent_or h with hindent | ⟨behind, ls, before, hbehind, hls, hbefore, heq⟩
  · exact absurd rfl (hindent _ (List.mem_append_right _ (.head _))).2
  · rcases List.eq_nil_or_concat before with rfl | ⟨init, c, rfl⟩
    · rcases List.eq_nil_or_concat ls with rfl | ⟨init, line, rfl⟩
      · exact .inl (List.append_cancel_right heq ▸ hbehind)
      · rw [List.append_nil, List.concat_eq_append, ended_concat, ← List.cons_append,
          ← List.append_assoc] at heq
        have hs := List.append_cancel_right heq
        rw [List.concat_eq_append, List.forall_mem_append] at hls
        exact .inr ⟨behind, init, line, hbehind, hls.1, hls.2 line (.head _), hs⟩
    · rw [List.concat_eq_append, ← List.append_assoc, ← List.cons_append,
        ← List.append_assoc] at heq
      have hlast := (List.append_inj' heq rfl).2
      exact absurd (List.head_eq_of_cons_eq hlast).symm (hbefore c (by simp)).2

/-! ## Items -/

/-- No end of a line is in the text. -/
def IsWithinLine (s : List Char) : Prop :=
  ∀ c ∈ s, c ≠ '\r' ∧ c ≠ '\n'

/-- Characters of a class that no end of a line belongs to stay within their line. -/
theorem isWithinLine_of_forall {p : Char → Bool} (hreturn : p '\r' = false) (hfeed : p '\n' = false)
    {s : List Char} (h : ∀ c ∈ s, p c = true) : IsWithinLine s :=
  fun c hc => ⟨fun heq => Bool.false_ne_true (hreturn.symm.trans (heq ▸ h c hc)),
    fun heq => Bool.false_ne_true (hfeed.symm.trans (heq ▸ h c hc))⟩

/-- Two pieces within a line are together within it. -/
theorem IsWithinLine.append {s t : List Char} (hs : IsWithinLine s) (ht : IsWithinLine t) :
    IsWithinLine (s ++ t) :=
  List.forall_mem_append.2 ⟨hs, ht⟩

/-- A mark with spaces around it stays within its line. -/
theorem Around.isWithinLine {mark : Char} {s : List Char} (h : Around mark s)
    (hmark : mark ≠ '\r' ∧ mark ≠ '\n') :
    IsWithinLine s := by
  obtain ⟨a, b, ha, hb, rfl⟩ := h
  exact .append (isWithinLine_of_forall (by decide) (by decide) (isSpaces_iff.1 ha))
    (List.forall_mem_cons.2 ⟨hmark, isWithinLine_of_forall (by decide) (by decide)
      (isSpaces_iff.1 hb)⟩)

/-- An identifier stays within its line. -/
theorem IsIdentifier.isWithinLine {s : List Char} (h : IsIdentifier s) : IsWithinLine s := by
  cases s with
  | nil => exact nofun
  | cons c s =>
    obtain ⟨hc, hs⟩ := isIdentifier_cons.1 h
    have hstart : IsWithinLine [c] :=
      isWithinLine_of_forall (p := isIdentifierStart) (by decide) (by decide)
        (List.forall_mem_singleton.2 hc)
    exact hstart.append (isWithinLine_of_forall (by decide) (by decide) hs)

/-- A row of values stays within its line. -/
theorem IsValues.isWithinLine {values : List (List Char)} {s : List Char} (h : IsValues values s) :
    IsWithinLine s := by
  have hvalue {value s : List Char} (h : IsValueText value ∧ s = value) : IsWithinLine s := by
    obtain ⟨hvalue, rfl⟩ := h
    exact isWithinLine_of_forall (by decide) (by decide) (isValueText_iff.1 hvalue).2
  induction h with
  | last hs he =>
    subst he
    exact (hvalue hs).append nofun
  | more hs hg _ ih => exact ((hvalue hs).append (hg.isWithinLine (by decide))).append ih

/-- The text of an item begins with a letter or an underscore, and no end of a line is in it. -/
structure IsSolid (s : List Char) : Prop where
  start : ∃ c rest, s = c :: rest ∧ isIdentifierStart c = true
  inner : IsWithinLine s

/-- An identifier begins with a letter or an underscore. -/
theorem IsIdentifier.exists_start {s : List Char} (h : IsIdentifier s) :
    ∃ c rest, s = c :: rest ∧ isIdentifierStart c = true := by
  cases s with
  | nil => exact h.elim
  | cons c rest => exact ⟨c, rest, rfl, (isIdentifier_cons.1 h).1⟩

/-- Items are solid, as they are written. -/
theorem Item.IsWritten.isSolid {item : Item} {s : List Char} (h : item.IsWritten s) :
    IsSolid s := by
  cases item with
  | title name =>
    obtain ⟨hname, rfl⟩ := h
    exact ⟨hname.exists_start, hname.isWithinLine⟩
  | pair key values =>
    obtain ⟨colon, row, hkey, hcolon, hrow, rfl⟩ := h
    obtain ⟨c, rest, rfl, hc⟩ := hkey.exists_start
    exact ⟨⟨c, _, rfl, hc⟩, (hkey.isWithinLine.append (hcolon.isWithinLine (by decide))).append
      hrow.isWithinLine⟩

/-- Wherever an item follows, the line is not idle. -/
structure Opens (p : List Char) : Prop where
  end_not_mem : '\n' ∉ p
  not_isIdle : ∀ s t, IsSolid s → isIdle (p ++ s ++ t) = false

/-- An item may follow an indent. -/
theorem IsIndent.opens {p : List Char} (h : IsIndent p) : Opens p where
  end_not_mem := h.isIdleLine.end_not_mem
  not_isIdle s t hs := by
    obtain ⟨c, rest, rfl, hc⟩ := hs.start
    rw [List.append_assoc]
    exact not_isIdle_of_isIdentifierStart (fun c hc => isBlank_of_isGap (h c hc).1) hc _

/-- No line ends in an item or in the white space behind it. -/
theorem IsSolid.end_not_mem {s g : List Char} (hs : IsSolid s) (hg : IsIndent g) :
    '\n' ∉ s ++ g := by
  rw [List.mem_append, not_or]
  exact ⟨fun hmem => (hs.inner _ hmem).2 rfl, hg.isIdleLine.end_not_mem⟩

/-- An item may follow what another one may follow, that item and white space. -/
theorem Opens.append {p s g : List Char} (hp : Opens p) (hs : IsSolid s) (hg : IsIndent g) :
    Opens (p ++ s ++ g) where
  end_not_mem := by
    rw [List.append_assoc, List.mem_append, not_or]
    exact ⟨hp.end_not_mem, hs.end_not_mem hg⟩
  not_isIdle t u _ := by
    rw [List.append_assoc _ t u, List.append_assoc _ g]
    exact hp.not_isIdle s _ hs

/-- At the end of a line on which an item stands, no more than a carriage return goes. -/
theorem exists_dropReturn {s g : List Char} (hs : IsSolid s) (hg : IsIndent g) :
    ∃ g', IsIndent g' ∧ ∀ p, (dropReturn (p ++ s ++ g).reverse).reverse = p ++ s ++ g' := by
  rcases List.eq_nil_or_concat g with rfl | ⟨init, c, rfl⟩
  · refine ⟨[], hg, fun p => ?_⟩
    obtain ⟨c, rest, heq, -⟩ := hs.start
    rcases List.eq_nil_or_concat s with rfl | ⟨init, d, rfl⟩
    · cases heq
    · have hd : d ≠ '\r' := (hs.inner d (by simp)).1
      simp [dropReturn, hd]
  · by_cases hc : c = '\r'
    · exact ⟨init, fun d hd => hg d (by simp [hd]), fun p => by simp [dropReturn, hc]⟩
    · exact ⟨init.concat c, hg, fun p => by simp [dropReturn, hc]⟩

/-- A line on which an item stands is kept. -/
theorem exists_kept {p s g : List Char} (hp : Opens p) (hs : IsSolid s) (hg : IsIndent g) :
    ∃ g', IsIndent g' ∧ ∀ t, kept p.reverse (s ++ g ++ '\n' :: t) =
      p ++ s ++ g' ++ '\n' :: kept [] t := by
  obtain ⟨g', hg', hdrop⟩ := exists_dropReturn hs hg
  refine ⟨g', hg', fun t => ?_⟩
  rw [kept_append (hs.end_not_mem hg), kept_newline, ← List.reverse_append, List.reverse_reverse,
    ← List.append_assoc, hp.not_isIdle s g hs, hdrop]
  simp

/-- The last line is kept, too, if an item stands on it. -/
theorem kept_last {p s g : List Char} (hp : Opens p) (hs : IsSolid s) (hg : IsIndent g) :
    kept p.reverse (s ++ g) = p ++ s ++ g ++ ['\n'] := by
  have hkept := kept_append (hs.end_not_mem hg) p.reverse []
  rw [List.append_nil] at hkept
  rw [hkept, kept_nil, ← List.reverse_append, List.reverse_reverse, ← List.append_assoc,
    hp.not_isIdle s g hs, if_neg Bool.false_ne_true]

/-! ## Layouts -/

/-- White space and nothing else. -/
def IsSpacing (s : List Char) : Prop :=
  ∀ c ∈ s, isGap c = true

/-- An indent is white space. -/
theorem IsIndent.isSpacing {s : List Char} (h : IsIndent s) : IsSpacing s :=
  fun c hc => (h c hc).1

/-- The items are written without comments and blank lines, with white space between them. -/
def IsPlain : List Item → List Char → Prop :=
  Series Item.IsWritten (fun g => g ≠ [] ∧ IsSpacing g) IsSpacing

/-- What is kept of a layout is a plain one. The part of the line before it, `p`, is kept with
it. -/
theorem exists_isPlain_kept {items : List Item} {s p : List Char}
    (h : Series Item.IsWritten IsGap IsTrail items s) (hp : Opens p) :
    ∃ s', IsPlain items s' ∧ kept p.reverse s = p ++ s' ++ ['\n'] := by
  -- On what is left, `p` is the part of its first line that was passed: spaces, or all that stands
  -- there before a gap without an end of a line.
  induction h generalizing p with
  | @last item s e hs he =>
    have hsolid := hs.isSolid
    rcases he.isIndent_or with hindent | ⟨behind, ls, line, hbehind, hls, hline, rfl⟩
    · refine ⟨s ++ e, .last hs hindent.isSpacing, ?_⟩
      rw [kept_last hp hsolid hindent, List.append_assoc p]
    · obtain ⟨behind', hbehind', hkept⟩ := exists_kept hp hsolid hbehind
      refine ⟨s ++ behind', .last hs hbehind'.isSpacing, ?_⟩
      rw [← List.append_assoc s, hkept, kept_ended hls, kept_idle hline, List.append_assoc p]
  | @more item s g items t hs hg _ ih =>
    have hsolid := hs.isSolid
    rcases hg.2.isIndent_or with hindent | ⟨behind, ls, before, hbehind, hls, hbefore, rfl⟩
    · obtain ⟨t', ht', hkept⟩ := ih (hp.append hsolid hindent)
      refine ⟨s ++ g ++ t', .more hs ⟨hg.1, hindent.isSpacing⟩ ht', ?_⟩
      rw [kept_append (hsolid.end_not_mem hindent), ← List.reverse_append,
        ← List.append_assoc p, hkept]
      simp only [List.append_assoc]
    · obtain ⟨behind', hbehind', hkept⟩ := exists_kept hp hsolid hbehind
      obtain ⟨t', ht', hrest⟩ := ih hbefore.opens
      have hspacing : IsSpacing (behind' ++ '\n' :: before) :=
        List.forall_mem_append.2 ⟨hbehind'.isSpacing,
          List.forall_mem_cons.2 ⟨rfl, hbefore.isSpacing⟩⟩
      refine ⟨s ++ (behind' ++ '\n' :: before) ++ t', .more hs ⟨by simp, hspacing⟩ ht', ?_⟩
      have hlines : s ++ (behind ++ '\n' :: (ended ls ++ before)) ++ t =
          s ++ behind ++ '\n' :: (ended ls ++ (before ++ t)) := by simp
      rw [hlines, hkept, kept_ended hls, kept_append hbefore.isIdleLine.end_not_mem,
        List.append_nil, hrest]
      simp

/-- Joined lines lack only the end of the last one. -/
theorem joinLines_append {ls : List (List Char)} (h : ls ≠ []) :
    joinLines ls ++ ['\n'] = ended ls := by
  induction ls with
  | nil => exact absurd rfl h
  | cons line ls ih =>
    cases ls with
    | nil => simp [joinLines, ended]
    | cons next ls =>
      have hjoin : joinLines (line :: next :: ls) = line ++ '\n' :: joinLines (next :: ls) := by
        simp [joinLines, List.intercalate]
      have hended : ended (line :: next :: ls) = line ++ '\n' :: ended (next :: ls) := by
        simp [ended]
      rw [hjoin, hended, List.append_assoc, List.cons_append, ih (List.cons_ne_nil _ _)]

/-- A text without its comments and blank lines has the lines that stay, and no end behind the last
of them. -/
theorem withoutComments_append {s : List Char} (h : kept [] s ≠ []) :
    withoutComments s ++ ['\n'] = kept [] s :=
  joinLines_append fun hnil => h (congrArg ended hnil)

/-- Without its comments and blank lines a document is written with white space alone between its
items. -/
theorem IsLayout.withoutComments {outline : Outline} {text : List Char}
    (h : IsLayout outline text) :
    ∃ lead body, IsSpacing lead ∧ IsPlain outline.items body ∧
      withoutComments text = lead ++ body := by
  obtain ⟨lead, body, hlead, hbody, rfl⟩ := h.written
  obtain ⟨ls, before, hls, hbefore, rfl⟩ := hlead.exists_lines
  obtain ⟨body', hbody', hkept⟩ := exists_isPlain_kept hbody hbefore.opens
  refine ⟨before, body', hbefore.isSpacing, hbody', ?_⟩
  have hwhole : kept [] (ended ls ++ before ++ body) = before ++ body' ++ ['\n'] := by
    rw [List.append_assoc, kept_ended hls, kept_append hbefore.isIdleLine.end_not_mem,
      List.append_nil, hkept]
  have hne : kept [] (ended ls ++ before ++ body) ≠ [] := hwhole ▸ List.concat_ne_nil _ _
  exact List.append_cancel_right ((withoutComments_append hne).trans hwhole)

end Document

end Formula
