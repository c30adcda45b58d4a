import LookupGen.Program.Evaluate
import LookupGen.Proofs.Literal.Block

/-!
# Layouts of text blocks

One list of lines can be laid out as a text block in many ways: with any common indentation, with
any line ends, and with any spaces and tabs on the empty lines. All layouts give the text of the
lines with line feeds between them, in which escape sequences are replaced last.
-/

namespace LookupGen.Literal

/-- The first code point of a line, if it has one, is neither a space nor a tab. -/
def IsFlush (line : Text) : Prop := ∀ c ∈ line.head?, isIndent c = false

instance : DecidablePred IsFlush := fun line =>
  decidable_of_iff (line.head?.all (!isIndent ·)) (by simp [IsFlush, Option.all_eq_true])

/-- A line whose only white space are spaces and tabs, none of them at its end. -/
structure Trimmed (line : Text) : Prop where
  blank : ∀ c ∈ line, Text.isBlank c = true → isIndent c = true
  ends : ∀ c ∈ line.getLast?, isIndent c = false

instance : DecidablePred Trimmed := fun line =>
  decidable_of_iff ((line.all fun c => !Text.isBlank c || isIndent c) ∧
      line.getLast?.all (!isIndent ·)) (by
    have hblank (c : CodePoint) : Text.isBlank c = false ∨ isIndent c = true ↔
        (Text.isBlank c = true → isIndent c = true) := by cases Text.isBlank c <;> simp
    constructor
    · rintro ⟨h, h'⟩
      exact ⟨by simpa [hblank] using h, by simpa [Option.all_eq_true] using h'⟩
    · rintro ⟨h, h'⟩
      exact ⟨by simpa [hblank] using h, by simpa [Option.all_eq_true] using h'⟩)

/-- Lines that a text block can hold as they are: they are trimmed and share no indentation. -/
structure Holdable (lines : List Text) : Prop where
  ne_nil : lines ≠ []
  trimmed : ∀ l ∈ lines, Trimmed l
  flush : (∀ l ∈ lines.getLast?, IsFlush l) ∨ ∃ l ∈ lines, l ≠ [] ∧ IsFlush l

instance : DecidablePred Holdable := fun lines =>
  decidable_of_iff (lines ≠ [] ∧ (∀ l ∈ lines, Trimmed l) ∧
      ((∀ l ∈ lines.getLast?, IsFlush l) ∨ ∃ l ∈ lines, l ≠ [] ∧ IsFlush l))
    ⟨fun h => ⟨h.1, h.2.1, h.2.2⟩, fun h => ⟨h.ne_nil, h.trimmed, h.flush⟩⟩

def IsIndentation (t : Text) : Prop := ∀ c ∈ t, isIndent c = true

instance : DecidablePred IsIndentation := fun t =>
  decidable_of_iff (t.all isIndent) List.all_eq_true

variable {w l b : Text} {lines raw : List Text}

theorem Trimmed.dropEndWhile_eq (h : Trimmed l) : Text.dropEndWhile isIndent l = l := by
  change l.rdropWhile isIndent = l
  rw [List.rdropWhile_eq_self_iff]
  intro hl hlast
  have hfalse := h.ends _ (List.getLast?_eq_some_getLast hl)
  rw [hfalse] at hlast
  cases hlast

theorem dropEndWhile_eq_nil (h : IsIndentation b) : Text.dropEndWhile isIndent b = [] :=
  List.rdropWhile_eq_nil_iff.mpr h

theorem indentation_append (hw : IsIndentation w) (l : Text) :
    indentation (w ++ l) = w.length + indentation l := by
  unfold indentation
  rw [List.takeWhile_append_of_pos hw, List.length_append]

theorem Trimmed.isAllBlank_append (h : Trimmed l) (hl : l ≠ []) (w : Text) :
    Text.isAllBlank (w ++ l) = false := by
  have hmem := List.getLast_mem hl
  have hlast := h.ends _ (List.getLast?_eq_some_getLast hl)
  rw [Text.isAllBlank, List.all_eq_false]
  refine ⟨l.getLast hl, List.mem_append_right w hmem, fun hblank => ?_⟩
  rw [h.blank _ hmem hblank] at hlast
  cases hlast

theorem Trimmed.isAllBlank (h : Trimmed l) (hl : l ≠ []) : Text.isAllBlank l = false :=
  h.isAllBlank_append hl []

theorem indentation_eq_zero (h : IsFlush l) : indentation l = 0 := by
  cases l with
  | nil => rfl
  | cons c l =>
    rw [indentation, List.takeWhile_cons_of_neg (by simp [h c rfl])]
    rfl

/-- Lines with a common indentation. An empty line that is not the last one may consist of any
spaces and tabs. -/
inductive Laid (w : Text) : List Text → List Text → Prop
  | last (l : Text) : Laid w [l] [w ++ l]
  | text {l : Text} {lines raw : List Text} :
      l ≠ [] → Laid w lines raw → Laid w (l :: lines) ((w ++ l) :: raw)
  | empty {b : Text} {lines raw : List Text} :
      IsIndentation b → Laid w lines raw → Laid w ([] :: lines) (b :: raw)

theorem Laid.exists_cons (h : Laid w lines raw) :
    ∃ l ls r rs, lines = l :: ls ∧ raw = r :: rs := by
  cases h with
  | last l => exact ⟨l, [], w ++ l, [], rfl, rfl⟩
  | text _ _ => exact ⟨_, _, _, _, rfl, rfl⟩
  | empty _ _ => exact ⟨_, _, _, _, rfl, rfl⟩

/-- The common indentation adds to the one that the lines share on their own. -/
theorem Laid.sharedIndentation_eq (hw : IsIndentation w) (h : Laid w lines raw)
    (hlines : ∀ l ∈ lines, Trimmed l) :
    sharedIndentation raw = w.length + sharedIndentation lines := by
  induction h with
  | last l => exact indentation_append hw l
  | @text l lines raw hl hrest ih =>
    obtain ⟨htrimmed, hlines⟩ := List.forall_mem_cons.mp hlines
    have hrest' := ih hlines
    obtain ⟨m, ms, r, rs, rfl, rfl⟩ := hrest.exists_cons
    simp only [sharedIndentation, htrimmed.isAllBlank_append hl w, htrimmed.isAllBlank hl,
      Bool.false_eq_true, if_false]
    rw [hrest', indentation_append hw, Nat.add_min_add_left]
  | @empty b lines raw hb hrest ih =>
    have hrest' := ih (List.forall_mem_cons.mp hlines).2
    have hblank : Text.isAllBlank b = true :=
      List.all_eq_true.mpr fun c hc => (isWhitespace_of_isIndent (hb c hc)).2
    have hnil : Text.isAllBlank [] = true := rfl
    obtain ⟨m, ms, r, rs, rfl, rfl⟩ := hrest.exists_cons
    simp only [sharedIndentation, hblank, hnil, if_true]
    exact hrest'

theorem sharedIndentation_le (hl : l ∈ lines) (hblank : Text.isAllBlank l = false) :
    sharedIndentation lines ≤ indentation l := by
  induction lines with
  | nil => cases hl
  | cons first rest ih =>
    cases rest with
    | nil =>
      rw [List.mem_singleton.mp hl]
      exact Nat.le_refl _
    | cons next rest =>
      rw [sharedIndentation]
      · rcases List.mem_cons.mp hl with rfl | hl
        · rw [hblank, if_neg Bool.false_ne_true]
          exact Nat.min_le_left _ _
        · split
          · exact ih hl
          · exact Nat.le_trans (Nat.min_le_right _ _) (ih hl)
      · simp

theorem sharedIndentation_le_last (hl : lines.getLast? = some l) :
    sharedIndentation lines ≤ indentation l := by
  induction lines with
  | nil => cases hl
  | cons first rest ih =>
    cases rest with
    | nil =>
      obtain rfl := Option.some.inj hl
      exact Nat.le_refl _
    | cons next rest =>
      rw [List.getLast?_cons_cons] at hl
      rw [sharedIndentation]
      · split
        · exact ih hl
        · exact Nat.le_trans (Nat.min_le_right _ _) (ih hl)
      · simp

theorem Holdable.sharedIndentation_eq_zero (h : Holdable lines) : sharedIndentation lines = 0 := by
  refine Nat.le_zero.mp ?_
  rcases h.flush with hlast | ⟨l, hl, hne, hflush⟩
  · have hsome := List.getLast?_eq_some_getLast h.ne_nil
    rw [← indentation_eq_zero (hlast _ hsome)]
    exact sharedIndentation_le_last hsome
  · rw [← indentation_eq_zero hflush]
    exact sharedIndentation_le hl ((h.trimmed l hl).isAllBlank hne)

theorem Laid.map_strip (h : Laid w lines raw) (hlines : ∀ l ∈ lines, Trimmed l) :
    raw.map (fun line => Text.dropEndWhile isIndent (line.drop w.length)) = lines := by
  have hstrip (l : Text) (hl : Trimmed l) :
      Text.dropEndWhile isIndent ((w ++ l).drop w.length) = l := by
    rw [List.drop_left, hl.dropEndWhile_eq]
  induction h with
  | last l => rw [List.map_singleton, hstrip l (hlines l List.mem_cons_self)]
  | @text l lines raw hl hrest ih =>
    obtain ⟨htrimmed, hlines⟩ := List.forall_mem_cons.mp hlines
    rw [List.map_cons, hstrip l htrimmed, ih hlines]
  | @empty b lines raw hb hrest ih =>
    have hdrop : IsIndentation (b.drop w.length) := fun c hc => hb c (List.mem_of_mem_drop hc)
    rw [List.map_cons, dropEndWhile_eq_nil hdrop, ih (List.forall_mem_cons.mp hlines).2]

theorem stripLines_of_laid (hlines : Holdable lines) (hw : IsIndentation w)
    (h : Laid w lines raw) : stripLines raw = lines := by
  have hshared : sharedIndentation raw = w.length := by
    rw [h.sharedIndentation_eq hw hlines.trimmed, hlines.sharedIndentation_eq_zero, Nat.add_zero]
  rw [stripLines, hshared]
  exact h.map_strip hlines.trimmed

inductive LineEnd where
  | lineFeed
  | returnFeed
  | carriageReturn
  deriving DecidableEq, Repr

def LineEnd.text : LineEnd → Text
  | lineFeed => ['\n']
  | returnFeed => ['\r', '\n']
  | carriageReturn => ['\r']

/-- What stands between the quotes of a block: the rest of the line of the opening quotes, then the
lines, the last of which goes up to the closing quotes. -/
def blockBody (opening : Text) (e : LineEnd) (raw : List Text) : Text :=
  opening ++ raw.flatMap (e.text ++ ·)

def blockLiteral (opening : Text) (e : LineEnd) (raw : List Text) : Text :=
  ("\"\"\"" : Text) ++ blockBody opening e raw ++ ("\"\"\"" : Text)

def IsLine (t : Text) : Prop := ∀ c ∈ t, c ≠ CodePoint.ofChar '\r' ∧ c ≠ CodePoint.ofChar '\n'

instance : DecidablePred IsLine := fun t =>
  decidable_of_iff (CodePoint.ofChar '\r' ∉ t ∧ CodePoint.ofChar '\n' ∉ t) (by
    constructor
    · rintro ⟨h, h'⟩ c hc
      exact ⟨fun heq => h (heq ▸ hc), fun heq => h' (heq ▸ hc)⟩
    · intro h
      exact ⟨fun hc => (h _ hc).1 rfl, fun hc => (h _ hc).2 rfl⟩)

/-- A line end is one end, unless a line feed stands where a carriage return has just been read. -/
theorem lineSplit_lineEnd {e : LineEnd} {flag : Bool} (h : flag = true → e = .carriageReturn)
    (rest : Text) :
    lineSplit id flag (e.text ++ rest) =
      [] :: lineSplit id (decide (e = .carriageReturn)) rest := by
  cases e with
  | lineFeed =>
    cases flag with
    | false => simp [LineEnd.text, lineSplit, CodePoint.ofChar]
    | true => cases h rfl
  | returnFeed => simp [LineEnd.text, lineSplit, CodePoint.ofChar]
  | carriageReturn => simp [LineEnd.text, lineSplit]

theorem lineSplit_append_line {e : LineEnd} {a tail : Text} {ls : List Text} (ha : IsLine a)
    (htail : ∀ flag : Bool, (flag = true → e = .carriageReturn) →
      lineSplit id flag tail = [] :: ls)
    (flag : Bool) (h : flag = true → e = .carriageReturn) :
    lineSplit id flag (a ++ tail) = a :: ls := by
  cases a with
  | nil => exact htail flag h
  | cons c a =>
    rw [lineSplit_append id (List.cons_ne_nil c a) ha, htail false Bool.noConfusion, prepend,
      List.append_nil]

/-- Each piece after a line end is a line, if all the line ends are of one kind. -/
theorem lineSplit_lines {e : LineEnd} (hraw : ∀ r ∈ raw, IsLine r) (flag : Bool)
    (h : flag = true → e = .carriageReturn) :
    lineSplit id flag (raw.flatMap (e.text ++ ·)) = [] :: raw := by
  induction raw generalizing flag with
  | nil => cases flag <;> rfl
  | cons r rest ih =>
    obtain ⟨hr, hrest⟩ := List.forall_mem_cons.mp hraw
    rw [List.flatMap_cons, List.append_assoc, lineSplit_lineEnd h,
      lineSplit_append_line hr (ih hrest) _ of_decide_eq_true]

theorem isLine_of_blank {t : Text} (h : ∀ c ∈ t, Text.isBlank c = true → isIndent c = true) :
    IsLine t := by
  intro c hc
  constructor
  · rintro rfl
    exact absurd (h _ hc (by decide)) (by decide)
  · rintro rfl
    exact absurd (h _ hc (by decide)) (by decide)

theorem IsIndentation.isLine (h : IsIndentation w) : IsLine w :=
  isLine_of_blank fun c hc _ => h c hc

theorem Laid.isLine (hw : IsIndentation w) (h : Laid w lines raw)
    (hlines : ∀ l ∈ lines, Trimmed l) : ∀ r ∈ raw, IsLine r := by
  have hline (l : Text) (hl : Trimmed l) : IsLine (w ++ l) :=
    List.forall_mem_append.mpr ⟨hw.isLine, isLine_of_blank hl.blank⟩
  induction h with
  | last l => exact List.forall_mem_singleton.mpr (hline l (hlines l List.mem_cons_self))
  | @text l lines raw hl hrest ih =>
    obtain ⟨htrimmed, hlines⟩ := List.forall_mem_cons.mp hlines
    exact List.forall_mem_cons.mpr ⟨hline l htrimmed, ih hlines⟩
  | @empty b lines raw hb hrest ih =>
    exact List.forall_mem_cons.mpr ⟨hb.isLine, ih (List.forall_mem_cons.mp hlines).2⟩

theorem stringConstant_block (body : Text) :
    stringConstant (("\"\"\"" : Text) ++ body ++ ("\"\"\"" : Text)) =
      .string (decodeBlock body) := by
  have hstarts :
      Text.startsWith (("\"\"\"" : Text) ++ body ++ ("\"\"\"" : Text)) "\"\"\"" = true := by
    rw [Text.startsWith, List.isPrefixOf_iff_prefix, List.append_assoc]
    exact List.prefix_append _ _
  have hunquote : unquote 3 (("\"\"\"" : Text) ++ body ++ ("\"\"\"" : Text)) = body := by
    have hthree : ("\"\"\"" : Text).length = 3 := rfl
    have hlength : body.length = 3 + (body.length + 3) - 2 * 3 := by omega
    rw [unquote, List.append_assoc, List.length_append, List.length_append, hthree]
    exact List.take_left' hlength
  rw [stringConstant, hstarts, if_pos rfl, hunquote]

theorem decodeBlock_lines {opening l : Text} {e : LineEnd} (hopening : IsLine opening)
    (hraw : ∀ r ∈ l :: raw, IsLine r) :
    decodeBlock (blockBody opening e (l :: raw)) =
      decode (Text.joinWith ['\n'] (stripLines (l :: raw))) := by
  have hlines : lineSplit id false (blockBody opening e (l :: raw)) = opening :: l :: raw :=
    lineSplit_append_line hopening (lineSplit_lines hraw) false Bool.noConfusion
  obtain ⟨after, hfirst, hafter⟩ :=
    Text.splitFirst_of_splitAll ((splitAll_unifyLineEnds _).trans hlines)
  simp only [decodeBlock, hfirst, hafter]

theorem stringConstant_laid (hlines : Holdable lines) (hw : IsIndentation w)
    (h : Laid w lines raw) {opening : Text} (hopening : IsLine opening) (e : LineEnd) :
    stringConstant (blockLiteral opening e raw) =
      .string (decode (Text.joinWith ['\n'] lines)) := by
  have hraw := h.isLine hw hlines.trimmed
  have hstrip := stripLines_of_laid hlines hw h
  obtain ⟨-, -, r, rs, -, rfl⟩ := h.exists_cons
  rw [blockLiteral, stringConstant_block, decodeBlock_lines hopening hraw, hstrip]

/-- However some lines are laid out as a text block, the constant is the text of the lines with
line feeds between them in which escape sequences are replaced. So it is the same for all layouts
of the lines. -/
theorem stringConstant_layout (hlines : Holdable lines) (hw : IsIndentation w)
    (h : Laid w lines raw) {opening : Text} (hopening : IsLine opening) (e : LineEnd) :
    stringConstant (blockLiteral opening e raw) =
        .string (decode (Text.joinWith ['\n'] lines)) ∧
      ∀ {w' opening' : Text} {raw' : List Text}, IsIndentation w' → Laid w' lines raw' →
        IsLine opening' → ∀ e' : LineEnd,
          stringConstant (blockLiteral opening' e' raw') =
            stringConstant (blockLiteral opening e raw) := by
  have hconstant := stringConstant_laid hlines hw h hopening e
  refine ⟨hconstant, ?_⟩
  intro w' opening' raw' hw' h' hopening' e'
  rw [hconstant, stringConstant_laid hlines hw' h' hopening' e']

/-- Lines with an empty one, an escaped line end, an escaped space at an end and one that has an
indentation of its own. -/
def layoutLines : List Text := ["a\\", "", "\tb\\s", "c\\n"]

def layoutRaw : List Text := [" \ta\\", "   ", " \t\tb\\s", " \tc\\n"]

theorem stringConstant_layout_escapes :
    Holdable layoutLines ∧ IsIndentation " \t" ∧ Laid " \t" layoutLines layoutRaw ∧
    IsLine " " ∧
    stringConstant (blockLiteral " " .returnFeed layoutRaw) =
      .string (decode (Text.joinWith ['\n'] layoutLines)) := by
  have hlines : Holdable layoutLines := by decide +kernel
  have hw : IsIndentation " \t" := by decide +kernel
  have hlaid : Laid " \t" layoutLines layoutRaw :=
    .text (by decide) (.empty (by decide +kernel) (.text (by decide) (.last _)))
  have hopening : IsLine " " := by decide +kernel
  exact ⟨hlines, hw, hlaid, hopening,
    (stringConstant_layout hlines hw hlaid hopening .returnFeed).1⟩

end LookupGen.Literal
