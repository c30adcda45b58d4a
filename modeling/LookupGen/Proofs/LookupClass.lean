import LookupGen.LookupClass
import LookupGen.Proofs.Literal.Encode
import LookupGen.Proofs.Name
import Mathlib.Data.List.Basic

/-!
# Reading back a lookup class

The text of a lookup class is a fixed skeleton with one line for each entry, whatever the names and
values of the entries are. A reader that knows the skeleton only finds the package, the class and
the entries again.
-/

namespace LookupGen

namespace Text

theorem not_mem_join {c : CodePoint} {ts : List Text} (h : ∀ t ∈ ts, c ∉ t) : c ∉ join ts := by
  intro hmem
  obtain ⟨t, ht, hc⟩ := List.mem_flatten.mp hmem
  exact h t ht hc

theorem newline_not_mem_ofNat (n : Nat) : CodePoint.ofChar '\n' ∉ ofNat n := by
  intro hmem
  obtain ⟨d, hd, heq⟩ := List.mem_map.mp hmem
  have hdigit : d.isDigit = true := by
    change d ∈ n.repr.toList at hd
    rw [Nat.toList_repr] at hd
    exact Nat.isDigit_of_mem_toDigits (by omega) (by omega) hd
  have hval : d.toNat = 10 := congrArg Fin.val heq
  obtain rfl : d = '\n' := Char.toNat_inj.mp hval
  exact absurd hdigit (by decide)

end Text

def Entry.joined (e : Entry) : Entry := ⟨Utf16.joinPairs e.name, Utf16.joinPairs e.value⟩

namespace LookupClass

def between? (before after line : Text) : Option Text :=
  (line.dropPrefix? before).bind fun rest => rest.dropSuffix? after

def readPackage? (line : Text) : Option Name := between? "package " ";" line

def readClass? (line : Text) : Option Name := between? "public class " " \x7b" line

/-- The entry of a line that puts one into the table: two literals, each up to its own end. -/
def readEntry? (line : Text) : Option Entry := do
  let rest ← line.dropPrefix? ("        map.put(\"" : Text)
  let (name, rest) ← Literal.body? false rest
  let rest ← rest.dropPrefix? (", \"" : Text)
  let (value, rest) ← Literal.body? false rest
  if rest = (");" : Text) then some ⟨Literal.decode name, Literal.decode value⟩ else none

def skeletonPackage (package : Name) : List Text :=
  if package = [] then [] else [Text.join ["package ", package, ";"], ""]

def skeletonOpening (simple : Name) (size : Nat) : List Text := [
  "import java.util.HashMap;",
  "import java.util.Map;",
  "",
  "/**",
  " * Source code generated by org.apache.camel:apt",
  " */",
  Text.join ["public class ", simple, " \x7b"],
  "",
  "    private static final Map<String, String> MAP;",
  "    static \x7b",
  Text.join ["        Map<String, String> map = new HashMap<>(", Text.ofNat size, ");"]]

def skeletonTop (package simple : Name) (size : Nat) : List Text :=
  "/* Generated by org.apache.camel:apt */" ::
    (skeletonPackage package ++ skeletonOpening simple size)

/-- The lines after the last entry; the text ends with a line end. -/
def skeletonBottom : List Text := [
  "        MAP = map;",
  "    \x7d",
  "",
  "    public static String lookup(String key) \x7b",
  "        return MAP.get(key);",
  "    \x7d",
  "\x7d",
  "",
  ""]

theorem between?_join (before after t : Text) :
    between? before after (Text.join [before, t, after]) = some t := by
  have hjoin : Text.join [before, t, after] = before ++ (t ++ after) := by simp [Text.join]
  have hsuffix : (t ++ after).dropSuffix? after = some t :=
    List.dropSuffix?_eq_some_iff.mpr ⟨after, rfl, beq_self_eq_true after⟩
  rw [hjoin, between?, List.dropPrefix?_append_of_beq _ (beq_self_eq_true before)]
  exact hsuffix

@[simp] theorem readEntry?_entryLine (e : Entry) : readEntry? (entryLine e) = some e.joined := by
  have hline : entryLine e = ("        map.put(\"" : Text) ++ (Literal.encode e.name ++
      CodePoint.ofChar '"' :: ((", \"" : Text) ++ (Literal.encode e.value ++
      CodePoint.ofChar '"' :: (");" : Text)))) := by
    simp [entryLine, Text.join, Text.ofString]
  unfold readEntry?
  rw [hline, List.dropPrefix?_append_of_beq _ (beq_self_eq_true _)]
  simp only [bind, Option.bind_some]
  rw [Literal.body?_encode]
  simp only [Option.bind_some]
  rw [List.dropPrefix?_append_of_beq _ (beq_self_eq_true _)]
  simp only [Option.bind_some]
  rw [Literal.body?_encode]
  simp only [Option.bind_some, if_true, Literal.decode_encode]
  rfl

theorem newline_not_mem_entryLine (e : Entry) : CodePoint.ofChar '\n' ∉ entryLine e := by
  apply Text.not_mem_join
  intro t ht
  simp only [List.mem_cons, List.not_mem_nil, or_false] at ht
  rcases ht with rfl | rfl | rfl | rfl | rfl
  · decide
  · exact Literal.newline_not_mem_encode e.name
  · decide
  · exact Literal.newline_not_mem_encode e.value
  · decide

theorem newline_not_mem_join {before t after : Text} (hbefore : CodePoint.ofChar '\n' ∉ before)
    (ht : CodePoint.ofChar '\n' ∉ t) (hafter : CodePoint.ofChar '\n' ∉ after) :
    CodePoint.ofChar '\n' ∉ Text.join [before, t, after] := by
  apply Text.not_mem_join
  intro u hu
  simp only [List.mem_cons, List.not_mem_nil, or_false] at hu
  rcases hu with rfl | rfl | rfl
  · exact hbefore
  · exact ht
  · exact hafter

theorem lines_eq_skeleton (c : LookupClass) :
    lines defaultGenerator c ++ [[]] =
      skeletonTop (Name.package c.target) (Name.simple c.target) c.entries.length ++
        (c.entries.map entryLine ++ skeletonBottom) := by
  have hhead : headLine defaultGenerator = "/* Generated by org.apache.camel:apt */" := by decide
  have hgenerated : Text.join [" * Source code generated by ", defaultGenerator] =
      " * Source code generated by org.apache.camel:apt" := by decide
  unfold lines skeletonTop skeletonPackage skeletonOpening skeletonBottom packageLines openingLines
    closingLines
  rw [hhead, hgenerated]
  simp only [List.isEmpty_iff, List.cons_append, List.append_assoc, List.nil_append]
  rfl

theorem newline_not_mem_packageLines {package : Name} (h : CodePoint.ofChar '\n' ∉ package) :
    ∀ l ∈ packageLines package, CodePoint.ofChar '\n' ∉ l := by
  unfold packageLines
  split
  · exact List.forall_mem_nil _
  · exact List.forall_mem_cons.mpr ⟨newline_not_mem_join (by decide) h (by decide), by decide⟩

theorem newline_not_mem_openingLines {simple : Name} (h : CodePoint.ofChar '\n' ∉ simple)
    (size : Nat) :
    ∀ l ∈ openingLines defaultGenerator simple size, CodePoint.ofChar '\n' ∉ l := by
  simp only [openingLines, List.forall_mem_cons]
  refine ⟨by decide, by decide, by decide, by decide, by decide, by decide, ?_,
    by decide, by decide, by decide, ?_, List.forall_mem_nil _⟩
  · exact newline_not_mem_join (by decide) h (by decide)
  · exact newline_not_mem_join (by decide) (Text.newline_not_mem_ofNat size) (by decide)

theorem newline_not_mem_lines {c : LookupClass} (hvalid : Name.isValid c.target = true) :
    ∀ l ∈ lines defaultGenerator c, CodePoint.ofChar '\n' ∉ l := by
  have hname := Name.newline_not_mem_of_isValid hvalid
  have hpackage : CodePoint.ofChar '\n' ∉ Name.package c.target := fun hmem =>
    hname (Name.mem_of_mem_package hmem)
  have hsimple : CodePoint.ofChar '\n' ∉ Name.simple c.target := fun hmem =>
    hname (Name.mem_of_mem_simple hmem)
  intro l hl
  rcases List.mem_cons.mp hl with rfl | hl
  · decide
  rcases List.mem_append.mp hl with hl | hl
  · rcases List.mem_append.mp hl with hl | hl
    · rcases List.mem_append.mp hl with hl | hl
      · exact newline_not_mem_packageLines hpackage l hl
      · exact newline_not_mem_openingLines hsimple _ l hl
    · obtain ⟨e, _, rfl⟩ := List.mem_map.mp hl
      exact newline_not_mem_entryLine e
  · exact (by decide : ∀ l ∈ closingLines, CodePoint.ofChar '\n' ∉ l) l hl

theorem splitAll_render {c : LookupClass} (hvalid : Name.isValid c.target = true) :
    Text.splitAll '\n' ((lines defaultGenerator c).flatMap fun line => Text.join [line, "\n"]) =
      skeletonTop (Name.package c.target) (Name.simple c.target) c.entries.length ++
        (c.entries.map entryLine ++ skeletonBottom) := by
  have hjoin : ∀ line : Text, Text.join [line, "\n"] = line ++ [CodePoint.ofChar '\n'] := by
    intro line
    simp [Text.join, Text.ofString]
  simp only [hjoin]
  rw [Text.splitAll_lines (newline_not_mem_lines hvalid), lines_eq_skeleton]

section Top

variable (package simple : Name) (size : Nat)

theorem filterMap_readEntry?_top : (skeletonTop package simple size).filterMap readEntry? = [] := by
  have hpackage : (skeletonPackage package).filterMap readEntry? = [] := by
    unfold skeletonPackage
    split
    · rfl
    · rfl
  unfold skeletonTop
  rw [List.filterMap_cons_none rfl, List.filterMap_append, hpackage]
  rfl

theorem filterMap_readPackage?_top :
    (skeletonTop package simple size).filterMap readPackage? =
      if package = [] then [] else [package] := by
  have hline : readPackage? (Text.join ["package ", package, ";"]) = some package :=
    between?_join _ _ package
  have hpackage : (skeletonPackage package).filterMap readPackage? =
      if package = [] then [] else [package] := by
    unfold skeletonPackage
    split
    · rfl
    · rw [List.filterMap_cons_some hline]
      rfl
  have hopening : (skeletonOpening simple size).filterMap readPackage? = [] := rfl
  unfold skeletonTop
  rw [List.filterMap_cons_none rfl, List.filterMap_append, hpackage, hopening, List.append_nil]

theorem filterMap_readClass?_top :
    (skeletonTop package simple size).filterMap readClass? = [simple] := by
  have hline : readClass? (Text.join ["public class ", simple, " \x7b"]) = some simple :=
    between?_join _ _ simple
  have hpackage : (skeletonPackage package).filterMap readClass? = [] := by
    unfold skeletonPackage
    split
    · rfl
    · rfl
  have hopening : (skeletonOpening simple size).filterMap readClass? = [simple] := by
    simp only [skeletonOpening, List.filterMap_cons, hline]
    rfl
  unfold skeletonTop
  rw [List.filterMap_cons_none rfl, List.filterMap_append, hpackage, hopening, List.nil_append]

end Top

theorem filterMap_readEntry?_entryLine (es : List Entry) :
    (es.map entryLine).filterMap readEntry? = es.map Entry.joined := by
  induction es with
  | nil => rfl
  | cons e rest ih =>
    rw [List.map_cons, List.filterMap_cons_some (readEntry?_entryLine e), ih, List.map_cons]

theorem filterMap_entryLine_none {α : Type} {read : Text → Option α}
    (h : ∀ e, read (entryLine e) = none) (es : List Entry) :
    (es.map entryLine).filterMap read = [] := by
  apply List.filterMap_eq_nil_iff.mpr
  intro line hline
  obtain ⟨e, _, rfl⟩ := List.mem_map.mp hline
  exact h e

/-- The text of a class with a valid name splits into the skeleton with one line for each entry.
Each of these reads back as its entry, no other line reads as one, and the package line, which is
there if there is a package, and the class line make up the name. -/
theorem render_readable {c : LookupClass} (hvalid : Name.isValid c.target = true)
    (hentries : c.entries ≠ []) :
    ∃ text puts, render defaultGenerator c = some text ∧
      Text.splitAll '\n' text =
        skeletonTop (Name.package c.target) (Name.simple c.target) c.entries.length ++
          (puts ++ skeletonBottom) ∧
      puts.length = c.entries.length ∧
      puts.map readEntry? = c.entries.map (fun e => some e.joined) ∧
      (Text.splitAll '\n' text).filterMap readEntry? = c.entries.map Entry.joined ∧
      (Text.splitAll '\n' text).filterMap readPackage? =
        (if Name.package c.target = [] then [] else [Name.package c.target]) ∧
      (Text.splitAll '\n' text).filterMap readClass? = [Name.simple c.target] ∧
      Name.within (Name.package c.target) (Name.simple c.target) = c.target := by
  have hrender : render defaultGenerator c =
      some ((lines defaultGenerator c).flatMap fun line => Text.join [line, "\n"]) := by
    unfold render
    rw [if_neg (by simpa using hentries)]
  refine ⟨_, c.entries.map entryLine, hrender, ?_⟩
  rw [splitAll_render hvalid]
  have hbottom : skeletonBottom.filterMap readEntry? = [] ∧
      skeletonBottom.filterMap readPackage? = [] ∧ skeletonBottom.filterMap readClass? = [] :=
    ⟨rfl, rfl, rfl⟩
  refine ⟨rfl, List.length_map _, ?_, ?_, ?_, ?_, Name.within_package_simple hvalid⟩
  · rw [List.map_map]
    exact List.map_congr_left fun e _ => readEntry?_entryLine e
  · rw [List.filterMap_append, List.filterMap_append, filterMap_readEntry?_top,
      filterMap_readEntry?_entryLine, hbottom.1, List.append_nil, List.nil_append]
  · rw [List.filterMap_append, List.filterMap_append, filterMap_readPackage?_top,
      filterMap_entryLine_none (fun _ => rfl), hbottom.2.1, List.append_nil, List.append_nil]
  · rw [List.filterMap_append, List.filterMap_append, filterMap_readClass?_top,
      filterMap_entryLine_none (fun _ => rfl), hbottom.2.2, List.append_nil, List.append_nil]

/-- A class with a quote, a backslash in front of the letter of an escape, a line end and a control
character in front of a digit. -/
def trickyClass : LookupClass :=
  ⟨"org.acme.Lookup", "org.acme.Source", [⟨"a\"", "\\u0041\n"⟩, ⟨"", ['\x01', '7']⟩]⟩

theorem render_readable_trickyClass :
    Name.isValid trickyClass.target = true ∧ trickyClass.entries ≠ [] ∧
    ∃ text puts, render defaultGenerator trickyClass = some text ∧
      Text.splitAll '\n' text = skeletonTop "org.acme" "Lookup" 2 ++ (puts ++ skeletonBottom) ∧
      puts.map readEntry? = trickyClass.entries.map some := by
  have hvalid : Name.isValid trickyClass.target = true := by decide +kernel
  have hentries : trickyClass.entries ≠ [] := List.cons_ne_nil _ _
  obtain ⟨text, puts, hrender, hsplit, _, hread, _⟩ := render_readable hvalid hentries
  have hpackage : Name.package trickyClass.target = "org.acme" := by decide +kernel
  have hsimple : Name.simple trickyClass.target = "Lookup" := by decide +kernel
  rw [hpackage, hsimple] at hsplit
  exact ⟨hvalid, hentries, text, puts, hrender, hsplit, hread.trans (by decide +kernel)⟩

end LookupClass

end LookupGen
