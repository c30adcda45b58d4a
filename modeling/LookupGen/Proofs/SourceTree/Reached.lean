import LookupGen.Proofs.SourceTree
import Mathlib.Data.Nat.Init

/-!
# What a search comes to

A search goes down from a source root and leaves out what it does not enter. What it comes to can be
told without going down: by the directories between a file and the source root, each of which is
entered.

This module does NOT say which paths a pattern matches.
-/

namespace LookupGen

namespace IgnoreRule

/-- The last of some rules that matches a path. -/
def Decides (rules : List IgnoreRule) (path : Text) (isDir : Bool) (r : IgnoreRule) : Prop :=
  r.isMatch path isDir = true ∧
    ∃ before after, rules = before ++ r :: after ∧ ∀ o ∈ after, o.isMatch path isDir = false

def LeftOut (rules : List IgnoreRule) (path : Text) (isDir : Bool) : Prop :=
  ∃ r, Decides rules path isDir r ∧ r.negated = false

variable {rules : List IgnoreRule} {path : Text} {isDir : Bool}

theorem decides_iff {r : IgnoreRule} :
    Decides rules path isDir r ↔ (rules.reverse.find? fun o => o.isMatch path isDir) = some r := by
  rw [List.find?_eq_some_iff_append]
  constructor
  · rintro ⟨hmatch, before, after, rfl, hlast⟩
    refine ⟨hmatch, after.reverse, before.reverse, by simp, ?_⟩
    intro o ho
    rw [hlast o (List.mem_reverse.mp ho)]
    rfl
  · rintro ⟨hmatch, after, before, heq, hlast⟩
    refine ⟨hmatch, before.reverse, after.reverse, ?_, ?_⟩
    · have hrev := congrArg List.reverse heq
      simpa using hrev
    · intro o ho
      simpa using hlast o (List.mem_reverse.mp ho)

theorem isIgnored_iff : isIgnored rules path isDir = true ↔ LeftOut rules path isDir := by
  unfold isIgnored LeftOut
  simp only [decides_iff]
  cases rules.reverse.find? fun o => o.isMatch path isDir with
  | none => simp
  | some r => simp

end IgnoreRule

inductive Node.Tidy : Node → Prop where
  | file (content : Bytes) : Tidy (.file content)
  | dir {entries : List (Text × Node)} (hnames : (Table.keys entries).Nodup)
      (hup : Path.up ∉ Table.keys entries) (hbelow : ∀ e ∈ entries, Tidy e.2) : Tidy (.dir entries)

theorem Node.Tidy.at? {tree node : Node} (h : tree.Tidy) {names : List Text}
    (hat : tree.at? names = some node) : node.Tidy := by
  induction names generalizing tree with
  | nil =>
    rw [Node.at?_nil] at hat
    exact Option.some.inj hat ▸ h
  | cons name rest ih =>
    rw [Node.at?_cons] at hat
    obtain ⟨child, hchild, hrest⟩ := Option.bind_eq_some_iff.mp hat
    cases h with
    | file content => cases hchild
    | dir hnames hup hbelow =>
      exact ih (hbelow (name, child) ((Table.mem_iff_lookup hnames).mpr hchild)) hrest

theorem Disk.plain_of_tidy {entries : List (Text × Node)} (h : (Node.dir entries).Tidy) :
    Plain ⟨.dir entries, []⟩ where
  current := Node.kindAt?_nil _
  settled := rfl
  entries := by
    intro names below hat
    cases h.at? hat with
    | dir hnames hup hbelow => exact ⟨hnames, hup⟩

namespace SourceTree

open IgnoreRule (LeftOut)

variable {s : SourceTree} {d : Disk} {p here : Path} {names below : List Text} {name : Text}
  {entries : List (Text × Node)}

/-- A directory that a search does not enter from above. -/
inductive Skipped (s : SourceTree) (dir : Path) : Prop where
  | tool (h : dir.name ∈ toolDirs)
  | build (h : dir.name ∈ buildDirs) (hparent : dir.parent = s.root)
  | output (h : s.outputDir = some dir)
  | rule (h : LeftOut s.rules (s.shownPath dir) true)

theorem skips_iff {dir : Path} : s.skips dir = true ↔ Skipped s dir := by
  unfold skips
  rw [Bool.or_eq_true, Bool.or_eq_true, Bool.or_eq_true, Bool.and_eq_true, decide_eq_true_eq,
    decide_eq_true_eq, List.contains_iff_mem, List.contains_iff_mem, IgnoreRule.isIgnored_iff]
  constructor
  · rintro (((h | h) | h) | h)
    · exact .tool h
    · exact .build h.1 h.2
    · exact .output h
    · exact .rule h
  · intro h
    cases h with
    | tool h => exact .inl (.inl (.inl h))
    | build h hparent => exact .inl (.inl (.inr ⟨h, hparent⟩))
    | output h => exact .inl (.inr h)
    | rule h => exact .inr h

/-- No directory strictly between the directory at `names` and what lies `below` it is skipped. -/
def Entered (s : SourceTree) (names below : List Text) : Prop :=
  ∀ first, first ≠ [] → first <+: below → first ≠ below → ¬ Skipped s ⟨.root, names ++ first⟩

theorem entered_singleton (s : SourceTree) (names : List Text) (name : Text) :
    Entered s names [name] := by
  intro first hne hprefix hproper
  rcases List.prefix_cons_iff.mp hprefix with hnil | ⟨rest, heq, hrest⟩
  · exact absurd hnil hne
  · rw [List.prefix_nil.mp hrest] at heq
    exact absurd heq hproper

theorem entered_cons (hbelow : below ≠ []) :
    Entered s names (name :: below) ↔
      ¬ Skipped s ⟨.root, names ++ [name]⟩ ∧ Entered s (names ++ [name]) below := by
  constructor
  · intro h
    constructor
    · refine h [name] (List.cons_ne_nil _ _) ⟨below, rfl⟩ ?_
      intro heq
      exact hbelow (List.cons.inj heq).2.symm
    · intro first hne hprefix hproper
      rw [List.append_assoc]
      apply h (name :: first) (List.cons_ne_nil _ _) (List.cons_prefix_cons.mpr ⟨rfl, hprefix⟩)
      intro heq
      exact hproper (List.cons.inj heq).2
  · rintro ⟨hfirst, hrest⟩ first hne hprefix hproper
    rcases List.prefix_cons_iff.mp hprefix with hnil | ⟨more, rfl, hmore⟩
    · exact absurd hnil hne
    · by_cases hnil : more = []
      · rw [hnil]
        exact hfirst
      · have hskipped := hrest more hnil hmore fun heq => hproper (heq ▸ rfl)
        rwa [List.append_assoc] at hskipped

theorem mem_contribution_iff {node : Node} :
    p ∈ contribution s here name node ↔
      (∃ content, node = .file content ∧ s.takes (here.child name) = true ∧ p = here.child name) ∨
        ∃ inner, node = .dir inner ∧ s.skips (here.child name) = false ∧
          p ∈ sourcesIn s (here.child name) inner := by
  cases node with
  | file content =>
    rw [contribution, Node.isDir, Bool.false_and, if_neg Bool.false_ne_true, sourcesAt_file]
    split
    · rename_i htakes
      simp [htakes]
    · rename_i htakes
      simp [htakes]
  | dir inner =>
    rw [contribution, Node.isDir, Bool.true_and, sourcesAt_dir]
    split
    · rename_i hskips
      simp [hskips]
    · rename_i hskips
      simp [hskips]

theorem mem_sourcesIn_step :
    p ∈ sourcesIn s here entries ↔ ∃ name child, (name, child) ∈ entries ∧
      ((∃ content, child = .file content ∧ s.takes (here.child name) = true ∧ p = here.child name) ∨
        ∃ inner, child = .dir inner ∧ s.skips (here.child name) = false ∧
          p ∈ sourcesIn s (here.child name) inner) := by
  induction entries with
  | nil =>
    rw [sourcesIn_nil]
    simp
  | cons e rest ih =>
    obtain ⟨key, node⟩ := e
    rw [sourcesIn_cons, List.mem_append, mem_contribution_iff, ih]
    constructor
    · rintro (h | ⟨name, child, hmem, h⟩)
      · exact ⟨key, node, List.mem_cons_self, h⟩
      · exact ⟨name, child, List.mem_cons_of_mem _ hmem, h⟩
    · rintro ⟨name, child, hmem, h⟩
      rcases List.mem_cons.mp hmem with heq | hmem
      · obtain ⟨rfl, rfl⟩ := Prod.mk.inj heq
        exact .inl h
      · exact .inr ⟨name, child, hmem, h⟩

/-- A file below the directory at `names` to which a search from there comes. -/
structure Reached (d : Disk) (s : SourceTree) (names : List Text) (p : Path) (below : List Text) :
    Prop where
  proper : below ≠ []
  path : p = ⟨.root, names ++ below⟩
  file : ∃ content, d.root.at? (names ++ below) = some (.file content)
  takes : s.takes p = true
  entered : Entered s names below

theorem Reached.cons (h : Reached d s (names ++ [name]) p below)
    (hskips : s.skips ⟨.root, names ++ [name]⟩ = false) : Reached d s names p (name :: below) where
  proper := List.cons_ne_nil _ _
  path := by rw [h.path, List.append_assoc, List.singleton_append]
  file := by
    obtain ⟨content, hfile⟩ := h.file
    rw [List.append_assoc, List.singleton_append] at hfile
    exact ⟨content, hfile⟩
  takes := h.takes
  entered := (entered_cons h.proper).mpr ⟨mt skips_iff.mpr (Bool.eq_false_iff.mp hskips), h.entered⟩

theorem reached_of_mem (hd : d.Plain) (hat : d.root.at? names = some (.dir entries))
    (hp : p ∈ sourcesIn s ⟨.root, names⟩ entries) : ∃ below, Reached d s names p below := by
  induction hsize : sizeOf entries using Nat.strong_induction_on generalizing names entries with
  | _ size ih =>
    obtain ⟨name, child, hmem, hstep⟩ := mem_sourcesIn_step.mp hp
    have hchild := hd.at?_child hat hmem
    rcases hstep with ⟨content, rfl, htakes, rfl⟩ | ⟨inner, rfl, hskips, hinner⟩
    · exact ⟨[name], List.cons_ne_nil _ _, rfl, ⟨content, hchild⟩, htakes,
        entered_singleton s names name⟩
    · have hless : sizeOf inner < size := by
        have hlt := List.sizeOf_lt_of_mem hmem
        simp only [Prod.mk.sizeOf_spec, Node.dir.sizeOf_spec] at hlt
        omega
      obtain ⟨below, hbelow⟩ := ih (sizeOf inner) hless hchild hinner rfl
      exact ⟨name :: below, hbelow.cons hskips⟩

theorem mem_of_reached (hd : d.Plain) (hat : d.root.at? names = some (.dir entries))
    (h : Reached d s names p below) : p ∈ sourcesIn s ⟨.root, names⟩ entries := by
  induction below generalizing names entries with
  | nil => exact absurd rfl h.proper
  | cons name rest ih =>
    obtain ⟨content, hfile⟩ := h.file
    have hsplit : names ++ name :: rest = names ++ [name] ++ rest := by
      rw [List.append_assoc, List.singleton_append]
    rw [hsplit] at hfile
    have hmem {child : Node} (hchild : d.root.at? (names ++ [name]) = some child) :
        (name, child) ∈ entries := by
      rw [Node.at?_child hat] at hchild
      exact (Table.mem_iff_lookup (hd.entries names entries hat).1).mpr hchild
    cases rest with
    | nil =>
      rw [List.append_nil] at hfile
      refine mem_sourcesIn_step.mpr
        ⟨name, .file content, hmem hfile, .inl ⟨content, rfl, ?_, h.path⟩⟩
      have htakes := h.takes
      rwa [h.path] at htakes
    | cons n more =>
      have habove : d.root.kindAt? (names ++ [name]) = some .dir :=
        Node.kindAt?_above (Node.kindAt?_of_at? hfile)
      obtain ⟨inner, hinner⟩ := Node.at?_of_kindAt?_dir habove
      obtain ⟨hskipped, hentered⟩ := (entered_cons (List.cons_ne_nil n more)).mp h.entered
      have hskips : s.skips ⟨.root, names ++ [name]⟩ = false :=
        Bool.eq_false_iff.mpr (mt skips_iff.mp hskipped)
      refine mem_sourcesIn_step.mpr ⟨name, .dir inner, hmem hinner, .inr ⟨inner, rfl, hskips, ?_⟩⟩
      apply ih hinner
      exact ⟨List.cons_ne_nil n more, hsplit ▸ h.path, ⟨content, hfile⟩, h.takes, hentered⟩

theorem takes_iff : s.takes p = true ↔
    Text.endsWith p.name sourceSuffix = true ∧ ¬ LeftOut s.rules (s.shownPath p) false := by
  unfold takes
  rw [Bool.and_eq_true, Bool.not_eq_true', Bool.eq_false_iff, Ne, IgnoreRule.isIgnored_iff]

/-- What a source root has for a search: itself if it is a source file, and otherwise the source
files below it that no rule leaves out, if no directory on the way to them is skipped. -/
inductive Has (d : Disk) (s : SourceTree) (root p : Path) : Prop where
  | self (hp : p = root) (content : Bytes) (hfile : d.root.at? root.names = some (.file content))
      (hsuffix : root.suffix = sourceSuffix)
  | below (names : List Text) (hp : p = ⟨.root, root.names ++ names⟩) (hproper : names ≠ [])
      (content : Bytes) (hfile : d.root.at? (root.names ++ names) = some (.file content))
      (hsuffix : Text.endsWith p.name sourceSuffix = true)
      (htaken : ¬ LeftOut s.rules (s.shownPath p) false) (hentered : Entered s root.names names)

theorem has_iff_of_dir (hd : d.Plain) (hat : d.root.at? names = some (.dir entries)) :
    p ∈ sourcesIn s ⟨.root, names⟩ entries ↔ Has d s ⟨.root, names⟩ p := by
  constructor
  · intro hp
    obtain ⟨below, hreached⟩ := reached_of_mem hd hat hp
    obtain ⟨content, hfile⟩ := hreached.file
    obtain ⟨hsuffix, htaken⟩ := takes_iff.mp hreached.takes
    exact .below below hreached.path hreached.proper content hfile hsuffix htaken hreached.entered
  · intro h
    cases h with
    | self _ content hfile _ =>
      rw [hat] at hfile
      cases hfile
    | below names' hp hproper content hfile hsuffix htaken hentered =>
      exact mem_of_reached hd hat
        ⟨hproper, hp, ⟨content, hfile⟩, takes_iff.mpr ⟨hsuffix, htaken⟩, hentered⟩

theorem has_iff_of_file {content : Bytes} (hat : d.root.at? names = some (.file content)) :
    Has d s ⟨.root, names⟩ p ↔ p = ⟨.root, names⟩ ∧ p.suffix = sourceSuffix := by
  constructor
  · intro h
    cases h with
    | self hp _ _ hsuffix => exact ⟨hp, hp ▸ hsuffix⟩
    | below names' _ hproper _ hfile _ _ _ =>
      exfalso
      obtain ⟨name, rest, rfl⟩ := List.exists_cons_of_ne_nil hproper
      have habove := Node.kindAt?_above (Node.kindAt?_of_at? hfile)
      rw [Node.kindAt?_of_at? hat] at habove
      cases habove
  · rintro ⟨rfl, hsuffix⟩
    exact .self rfl content hat hsuffix

end SourceTree

end LookupGen
