import LookupGen.Proofs.Literal.Lines
import LookupGen.Proofs.Literal.Source
import Mathlib.Data.List.DropRight

/-!
# Text blocks in two passes

In the language the Unicode escapes of a text block are translated first. Then the block is divided
into lines, the incidental white space is removed from them, and escape sequences are replaced last.
A reader that translates Unicode escapes only at the end comes to the same text if the white space
and the line ends of the block are not written as Unicode escapes, and the white space consists of
spaces and tabs.
-/

namespace LookupGen.Literal

def isWhitespace (c : CodePoint) : Bool :=
  let n := c.val
  (0x09 ≤ n && n ≤ 0x0D) || (0x1C ≤ n && n ≤ 0x20) || n == 0x1680 || (0x2000 ≤ n && n ≤ 0x2006) ||
  (0x2008 ≤ n && n ≤ 0x200A) || n == 0x2028 || n == 0x2029 || n == 0x205F || n == 0x3000

def isOpeningBlank (c : CodePoint) : Bool := c = ' ' || c = '\t' || c.val = 0x0C

def isBlankLine (line : List Mark) : Bool := line.all fun m => isWhitespace m.1

def indent (line : List Mark) : Nat := (line.takeWhile fun m => isWhitespace m.1).length

/-- The least indentation of the last line and of all lines that are not blank. -/
def outdent (lines : List (List Mark)) : Nat :=
  ((((lines.dropLast.filter fun line => !isBlankLine line) ++ lines.getLast?.toList).map
    indent).min?).getD 0

def stripIndent (lines : List (List Mark)) : List (List Mark) :=
  lines.map fun line => (line.drop (outdent lines)).rdropWhile fun m => isWhitespace m.1

/-- What a text block contains before its escape sequences are replaced. -/
def blockContent? (ms : List Mark) : Option (List Mark) :=
  match lineSplit (·.1) false ms with
  | opening :: line :: lines =>
    if opening.all fun m => isOpeningBlank m.1 then
      some ([(CodePoint.ofChar '\n', false)].intercalate (stripIndent (line :: lines)))
    else none
  | _ => none

/-- White space that both readers take for the same: a space or a tab that is not written as a
Unicode escape. -/
def plainBlank (m : Mark) : Bool :=
  !(Text.isBlank m.1 || isWhitespace m.1) || (!m.2 && isIndent m.1)

/-- Unicode escapes stand neither for line ends nor for white space nor in escape sequences, and the
white space of the lines consists of spaces and tabs. -/
def plainBlock (ms : List Mark) : Bool :=
  (ms.all fun m => !(m.2 && (m.1 = '\r' || m.1 = '\n'))) &&
  ((lineSplit (·.1) false ms).tail.all fun line => line.all plainBlank) &&
  (blockContent? ms).all (separated .block 0)

theorem forall₂_prepend {a : Text} {ms : List Mark}
    (ha : ∀ rest ns, Translated rest ns → Translated (a ++ rest) (ms ++ ns)) {ls : List Text}
    {ns : List (List Mark)} (h : List.Forall₂ Translated ls ns) :
    List.Forall₂ Translated (prepend a ls) (prepend ms ns) := by
  cases h with
  | nil =>
    have hempty := ha [] [] .nil
    rw [List.append_nil, List.append_nil] at hempty
    exact .cons hempty .nil
  | cons hline hrest => exact .cons (ha _ _ hline) hrest

theorem InUnicodeEscape.ne {c d : CodePoint} (h : InUnicodeEscape c) (hd : d ≠ 'u')
    (hd' : d.hexDigit? = none) : c ≠ d := by
  rintro rfl
  exact h.elim hd fun h => h hd'

/-- A text is translated line by line if no line end is written as a Unicode escape. -/
theorem Translated.lines {t : Text} {ms : List Mark} (h : Translated t ms)
    (hms : ∀ m ∈ ms, m.1 = '\r' ∨ m.1 = '\n' → m.2 = false) (flag : Bool) :
    List.Forall₂ Translated (lineSplit id flag t) (lineSplit (·.1) flag ms) := by
  induction h generalizing flag with
  | nil => exact .cons .nil .nil
  | @plain c rest ms hc h ih =>
    have hrest := ih fun m hm => hms m (List.mem_cons_of_mem _ hm)
    simp only [lineSplit, id]
    split
    · exact .cons .nil (hrest true)
    · split
      · split
        · exact hrest false
        · exact .cons .nil (hrest false)
      · exact forall₂_prepend (fun _ _ => .plain hc) (hrest false)
  | @unicode v a rest ms ha hescape h ih =>
    have hrest := ih (fun m hm => hms m (List.mem_cons_of_mem _ hm)) false
    have hplain : ∀ x ∈ CodePoint.ofChar '\\' :: CodePoint.ofChar 'u' :: a,
        x ≠ '\r' ∧ x ≠ '\n' := by
      intro x hx
      rcases List.mem_cons.mp hx with rfl | hx
      · decide
      · rcases List.mem_cons.mp hx with rfl | hx
        · decide
        · exact ⟨(ha x hx).ne (by decide) (by decide), (ha x hx).ne (by decide) (by decide)⟩
    have hv : ¬ (v = '\r' ∨ v = '\n') := fun hv =>
      Bool.noConfusion (hms _ List.mem_cons_self hv)
    have hraw := lineSplit_append id (List.cons_ne_nil _ _) hplain flag rest
    simp only [List.cons_append] at hraw
    rw [hraw, lineSplit_cons _ (fun h => hv (.inl h)) (fun h => hv (.inr h))]
    exact forall₂_prepend (fun _ _ => .unicode ha hescape) hrest
  | @pair c rest ms hc h ih =>
    have hrest := ih fun m hm =>
      hms m (List.mem_cons_of_mem _ (List.mem_cons_of_mem _ hm))
    have hreturn : CodePoint.ofChar '\\' ≠ '\r' := by decide
    have hfeed : CodePoint.ofChar '\\' ≠ '\n' := by decide
    have hraw := @lineSplit_cons CodePoint id '\\' hreturn hfeed flag (c :: rest)
    have htranslated := @lineSplit_cons Mark (·.1) ('\\', false) hreturn hfeed flag
      ((c, false) :: ms)
    rw [hraw, htranslated, lineSplit, lineSplit]
    by_cases hcr : c = '\r'
    · simp only [id, if_pos hcr]
      exact .cons .lone (hrest true)
    · simp only [id, if_neg hcr]
      split
      · exact .cons .lone (hrest false)
      · rw [prepend_cons, prepend_cons]
        exact forall₂_prepend (fun _ _ => .pair hc) (hrest false)
  | lone => exact .cons .lone .nil

theorem isWhitespace_of_isIndent {c : CodePoint} (h : isIndent c = true) :
    isWhitespace c = true ∧ Text.isBlank c = true := by
  simp only [isIndent, Bool.or_eq_true, decide_eq_true_eq] at h
  rcases h with rfl | rfl <;> decide

theorem plainBlank_false {c : CodePoint} (h : plainBlank (c, false) = true) :
    isWhitespace c = isIndent c ∧ Text.isBlank c = isIndent c := by
  cases hc : isIndent c with
  | true => exact isWhitespace_of_isIndent hc
  | false =>
    simpa [plainBlank, hc, and_comm] using h

theorem plainBlank_true {c : CodePoint} (h : plainBlank (c, true) = true) :
    isWhitespace c = false := by
  simp only [plainBlank, Bool.not_true, Bool.false_and, Bool.or_false, Bool.not_eq_true',
    Bool.or_eq_false_iff] at h
  exact h.2

theorem rdropWhile_cons {α : Type} (q : α → Bool) (x : α) (l : List α) :
    (x :: l).rdropWhile q =
      if (l.rdropWhile q).isEmpty && q x then [] else x :: l.rdropWhile q := by
  simp only [List.rdropWhile, List.reverse_cons, List.dropWhile_append, List.isEmpty_reverse]
  cases hl : (l.reverse.dropWhile q).isEmpty with
  | true =>
    have hnil : l.reverse.dropWhile q = [] := List.isEmpty_iff.mp hl
    cases hx : q x <;> simp [hnil, hx]
  | false => simp

theorem rdropWhile_append {α : Type} {q : α → Bool} {a : List α} (ha : ∀ x ∈ a, q x = false)
    (l : List α) : (a ++ l).rdropWhile q = a ++ l.rdropWhile q := by
  induction a with
  | nil => rfl
  | cons x a ih =>
    rw [List.cons_append, rdropWhile_cons, ha x List.mem_cons_self, Bool.and_false,
      ih fun y hy => ha y (List.mem_cons_of_mem x hy)]
    rfl

section

variable {t : Text} {ms : List Mark}

theorem Translated.isEmpty_eq (h : Translated t ms) : t.isEmpty = ms.isEmpty := by
  cases h <;> rfl

theorem Translated.indentation_eq (h : Translated t ms) (hms : ∀ m ∈ ms, plainBlank m = true) :
    indentation t = indent ms := by
  induction h with
  | nil => rfl
  | @plain c rest ms hc h ih =>
    have hrest := ih fun m hm => hms m (List.mem_cons_of_mem _ hm)
    simp only [indentation, indent, List.takeWhile_cons,
      (plainBlank_false (hms _ List.mem_cons_self)).1] at hrest ⊢
    cases isIndent c with
    | true => exact congrArg (· + 1) hrest
    | false => rfl
  | @unicode v a rest ms ha hescape h ih =>
    simp only [indent, List.takeWhile_cons, plainBlank_true (hms _ List.mem_cons_self)]
    rfl
  | pair => rfl
  | lone => rfl

theorem Translated.isAllBlank_eq (h : Translated t ms) (hms : ∀ m ∈ ms, plainBlank m = true) :
    Text.isAllBlank t = isBlankLine ms := by
  induction h with
  | nil => rfl
  | @plain c rest ms hc h ih =>
    have hrest := ih fun m hm => hms m (List.mem_cons_of_mem _ hm)
    obtain ⟨hspace, hblank⟩ := plainBlank_false (hms _ List.mem_cons_self)
    simp only [Text.isAllBlank, isBlankLine, List.all_cons, hspace, hblank] at hrest ⊢
    rw [hrest]
  | @unicode v a rest ms ha hescape h ih =>
    simp only [isBlankLine, List.all_cons, plainBlank_true (hms _ List.mem_cons_self)]
    rfl
  | pair => rfl
  | lone => rfl

theorem Translated.drop (h : Translated t ms) (hms : ∀ m ∈ ms, plainBlank m = true) {n : Nat}
    (hn : ∀ m ∈ ms.take n, isWhitespace m.1 = true) : Translated (t.drop n) (ms.drop n) := by
  induction h generalizing n with
  | nil => simpa using Translated.nil
  | @plain c rest ms hc h ih =>
    cases n with
    | zero => exact .plain hc h
    | succ n =>
      exact ih (fun m hm => hms m (List.mem_cons_of_mem _ hm))
        fun m hm => hn m (List.mem_cons_of_mem _ hm)
  | @unicode v a rest ms ha hescape h ih =>
    cases n with
    | zero => exact .unicode ha hescape h
    | succ n =>
      have hv := plainBlank_true (hms _ List.mem_cons_self)
      exact absurd ((hn _ List.mem_cons_self).symm.trans hv) (by simp)
  | @pair c rest ms hc h ih =>
    cases n with
    | zero => exact .pair hc h
    | succ n => exact absurd (hn _ List.mem_cons_self) (by decide)
  | lone =>
    cases n with
    | zero => exact .lone
    | succ n => exact absurd (hn _ List.mem_cons_self) (by decide)

theorem Translated.dropEndWhile (h : Translated t ms) (hms : ∀ m ∈ ms, plainBlank m = true) :
    Translated (Text.dropEndWhile isIndent t) (ms.rdropWhile fun m => isWhitespace m.1) := by
  change Translated (t.rdropWhile isIndent) _
  induction h with
  | nil => exact .nil
  | @plain c rest ms hc h ih =>
    have hrest := ih fun m hm => hms m (List.mem_cons_of_mem _ hm)
    have hempty := hrest.isEmpty_eq
    rw [rdropWhile_cons, rdropWhile_cons, (plainBlank_false (hms _ List.mem_cons_self)).1, hempty]
    split
    · exact .nil
    · exact .plain hc hrest
  | @unicode v a rest ms ha hescape h ih =>
    have hrest := ih fun m hm => hms m (List.mem_cons_of_mem _ hm)
    have hplain : ∀ x ∈ CodePoint.ofChar '\\' :: CodePoint.ofChar 'u' :: a, isIndent x = false := by
      intro x hx
      rcases List.mem_cons.mp hx with rfl | hx
      · rfl
      · rcases List.mem_cons.mp hx with rfl | hx
        · rfl
        · have hspace := (ha x hx).ne (show CodePoint.ofChar ' ' ≠ 'u' by decide) (by decide)
          have htab := (ha x hx).ne (show CodePoint.ofChar '\t' ≠ 'u' by decide) (by decide)
          simp [isIndent, hspace, htab]
    have hraw := rdropWhile_append hplain rest
    simp only [List.cons_append] at hraw
    rw [hraw, rdropWhile_cons, plainBlank_true (hms _ List.mem_cons_self), Bool.and_false]
    exact .unicode ha hescape hrest
  | @pair c rest ms hc h ih =>
    have hrest := ih fun m hm =>
      hms m (List.mem_cons_of_mem _ (List.mem_cons_of_mem _ hm))
    have hempty := hrest.isEmpty_eq
    have hc' := (plainBlank_false (hms _ (List.mem_cons_of_mem _ List.mem_cons_self))).1
    have hraw : isIndent '\\' = false := rfl
    have htranslated : isWhitespace '\\' = false := rfl
    rw [rdropWhile_cons, hraw, rdropWhile_cons, rdropWhile_cons, htranslated, rdropWhile_cons, hc',
      hempty, Bool.and_false, Bool.and_false, if_neg Bool.false_ne_true,
      if_neg Bool.false_ne_true]
    split
    · exact .lone
    · exact .pair hc hrest
  | lone => exact .lone

end

theorem outdent_cons_cons (line next : List Mark) (rest : List (List Mark)) :
    outdent (line :: next :: rest) =
      if isBlankLine line then outdent (next :: rest)
      else min (indent line) (outdent (next :: rest)) := by
  unfold outdent
  rw [List.dropLast_cons_of_ne_nil (List.cons_ne_nil next rest), List.getLast?_cons_cons]
  cases hline : isBlankLine line with
  | true => simp [hline]
  | false =>
    have hne : ((((next :: rest).dropLast.filter fun line => !isBlankLine line) ++
        (next :: rest).getLast?.toList).map indent).min? ≠ none := by
      simp [List.getLast?_cons]
    obtain ⟨n, hn⟩ := Option.ne_none_iff_exists'.mp hne
    simp only [List.filter_cons, hline, Bool.not_false, if_true, List.cons_append, List.map_cons,
      List.min?_cons, hn]
    simp

theorem outdent_le {lines : List (List Mark)} {line : List Mark} (hline : line ∈ lines)
    (hblank : isBlankLine line = false) : outdent lines ≤ indent line := by
  induction lines with
  | nil => cases hline
  | cons first rest ih =>
    cases rest with
    | nil =>
      rw [List.mem_singleton.mp hline]
      exact Nat.le_refl _
    | cons next rest =>
      rw [outdent_cons_cons]
      rcases List.mem_cons.mp hline with rfl | hline
      · rw [hblank, if_neg Bool.false_ne_true]
        exact Nat.min_le_left _ _
      · split
        · exact ih hline
        · exact Nat.le_trans (Nat.min_le_right _ _) (ih hline)

theorem isWhitespace_of_mem_take {lines : List (List Mark)} {line : List Mark}
    (hline : line ∈ lines) : ∀ m ∈ line.take (outdent lines), isWhitespace m.1 = true := by
  intro m hm
  cases hblank : isBlankLine line with
  | true => exact List.all_eq_true.mp hblank m (List.mem_of_mem_take hm)
  | false =>
    have hle := outdent_le hline hblank
    have hprefix : line.takeWhile (fun m => isWhitespace m.1) <+: line := List.takeWhile_prefix _
    have htake : line.take (indent line) = line.takeWhile fun m => isWhitespace m.1 :=
      (List.prefix_iff_eq_take.mp hprefix).symm
    have hmem : m ∈ line.take (indent line) := List.take_subset_take_left line hle hm
    rw [htake] at hmem
    exact @List.mem_takeWhile_imp Mark (fun m => isWhitespace m.1) line m hmem

section

variable {ls : List Text} {nss : List (List Mark)}

theorem sharedIndentation_eq (h : List.Forall₂ Translated ls nss)
    (hns : ∀ ns ∈ nss, ∀ m ∈ ns, plainBlank m = true) : sharedIndentation ls = outdent nss := by
  induction h with
  | nil => rfl
  | @cons line ns ls nss hline hrest ih =>
    have hplain := hns ns List.mem_cons_self
    have hrest' := ih fun x hx => hns x (List.mem_cons_of_mem ns hx)
    cases hrest with
    | nil => exact hline.indentation_eq hplain
    | cons _ _ =>
      rw [sharedIndentation, outdent_cons_cons, hline.isAllBlank_eq hplain,
        hline.indentation_eq hplain, hrest']
      simp

theorem forall₂_strip (n : Nat) (h : List.Forall₂ Translated ls nss)
    (hns : ∀ ns ∈ nss, ∀ m ∈ ns, plainBlank m = true)
    (hn : ∀ ns ∈ nss, ∀ m ∈ ns.take n, isWhitespace m.1 = true) :
    List.Forall₂ Translated (ls.map fun line => Text.dropEndWhile isIndent (line.drop n))
      (nss.map fun ns => (ns.drop n).rdropWhile fun m => isWhitespace m.1) := by
  induction h with
  | nil => exact .nil
  | @cons line ns ls nss hline hrest ih =>
    have hplain := hns ns List.mem_cons_self
    refine .cons ?_ (ih (fun x hx => hns x (List.mem_cons_of_mem ns hx))
      fun x hx => hn x (List.mem_cons_of_mem ns hx))
    have hdrop := hline.drop hplain (hn ns List.mem_cons_self)
    exact hdrop.dropEndWhile fun m hm => hplain m (List.mem_of_mem_drop hm)

theorem Translated.append_lineEnd {a b : Text} {ms ns : List Mark} (ha : Translated a ms)
    (hb : Translated b ns) :
    Translated (a ++ [CodePoint.ofChar '\n'] ++ b)
      (ms ++ [(CodePoint.ofChar '\n', false)] ++ ns) := by
  induction ha with
  | nil => exact .plain (by decide) hb
  | plain hc _ ih => exact .plain hc ih
  | @unicode v a rest ms ha hescape _ ih =>
    have h := Translated.unicode ha hescape ih
    rw [List.append_assoc, ← List.append_assoc a] at h
    simpa [List.append_assoc] using h
  | pair hc _ ih => exact .pair hc ih
  | lone => exact .pair (by decide) hb

theorem translated_joinWith (h : List.Forall₂ Translated ls nss) :
    Translated (Text.joinWith ['\n'] ls) ([(CodePoint.ofChar '\n', false)].intercalate nss) := by
  induction h with
  | nil => exact .nil
  | @cons line ns ls nss hline hrest ih =>
    cases hrest with
    | nil => simpa [Text.joinWith, List.intercalate] using hline
    | cons _ _ =>
      have h := hline.append_lineEnd ih
      simpa [Text.joinWith, List.intercalate, List.append_assoc] using h

end

theorem decodeBlock_eq {body out : Text} {ms content : List Mark}
    (hbody : translate .start body = some ms) (hcontent : blockContent? ms = some content)
    (hout : interpret .block 0 (points content) = some out) (hplain : plainBlock ms = true) :
    decodeBlock body = Utf16.joinPairs out := by
  simp only [plainBlock, Bool.and_eq_true, hcontent, Option.all_some] at hplain
  obtain ⟨⟨hends, hblanks⟩, hseparated⟩ := hplain
  have hlines := (translated_of_translate hbody).lines (by
    intro m hm hend
    have h := List.all_eq_true.mp hends m hm
    rcases hend with hend | hend <;> simpa [hend] using h) false
  unfold blockContent? at hcontent
  split at hcontent
  · rename_i opening line lines heq
    rw [heq] at hlines hblanks
    split at hcontent
    · obtain rfl := Option.some.inj hcontent
      cases hraw : lineSplit id false body with
      | nil => exact absurd hraw (lineSplit_ne_nil id false body)
      | cons first rest =>
        rw [hraw] at hlines
        cases hlines with
        | cons _ hrest =>
          have hplain : ∀ ns ∈ line :: lines, ∀ m ∈ ns, plainBlank m = true := fun ns hns m hm =>
            List.all_eq_true.mp (List.all_eq_true.mp hblanks ns hns) m hm
          have hstrip : List.Forall₂ Translated (stripLines rest)
              (stripIndent (line :: lines)) := by
            rw [stripLines, sharedIndentation_eq hrest hplain]
            exact forall₂_strip _ hrest hplain fun ns hns => isWhitespace_of_mem_take hns
          have hjoined := (translated_joinWith hstrip).replaceEscapes_eq (by simp) hout hseparated
          cases rest with
          | nil => cases hrest
          | cons next rest =>
            obtain ⟨after, hfirst, hafter⟩ :=
              Text.splitFirst_of_splitAll ((splitAll_unifyLineEnds body).trans hraw)
            simp only [decodeBlock, hfirst, hafter, decode]
            exact congrArg Utf16.joinPairs hjoined
    · cases hcontent
  · cases hcontent

end LookupGen.Literal
