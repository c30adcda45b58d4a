import LookupGen.Config.Load
import Mathlib.Data.List.DropRight
import Mathlib.Data.List.Forall2
import Mathlib.Data.List.TakeWhile
import Mathlib.Logic.Relation

/-!
# Settings as a document gives them

What a document gives for a setting: a string, or a list of strings, and nothing where it leaves the
setting out. Of a string the white space around it counts for nothing, and a blank string is as good
as none. A document has settings unless it gives a setting a value of another type, and several
spellings of a document have the same settings.

This module does NOT say which texts are documents, nor which value a document has.
-/

namespace LookupGen

namespace Text

structure Bare (t : Text) : Prop where
  ne_nil : t ≠ []
  first : ∀ c ∈ t.head?, isBlank c = false
  last : ∀ c ∈ t.getLast?, isBlank c = false

/-- `u` is what a text has between the white space at its two ends. -/
def Core (t u : Text) : Prop :=
  Bare u ∧ ∃ before after, t = before ++ u ++ after ∧ isAllBlank before = true ∧
    isAllBlank after = true

variable {t u : Text}

theorem dropEndWhile_eq_rdropWhile (p : CodePoint → Bool) (t : Text) :
    dropEndWhile p t = t.rdropWhile p := rfl

theorem isAllBlank_iff : isAllBlank t = true ↔ ∀ c ∈ t, isBlank c = true := List.all_eq_true

theorem exists_strip (t : Text) : ∃ before after, t = before ++ strip t ++ after ∧
    isAllBlank before = true ∧ isAllBlank after = true := by
  refine ⟨t.takeWhile isBlank, (t.dropWhile isBlank).rtakeWhile isBlank, ?_,
    isAllBlank_iff.mpr fun _ h => List.mem_takeWhile_imp h,
    isAllBlank_iff.mpr fun _ h => List.mem_rtakeWhile_imp h⟩
  rw [strip, trim, dropEndWhile_eq_rdropWhile, List.append_assoc, List.rdropWhile_append_rtakeWhile,
    List.takeWhile_append_dropWhile]

theorem strip_eq_nil_iff : strip t = [] ↔ isAllBlank t = true := by
  rw [isAllBlank_iff]
  constructor
  · intro h
    obtain ⟨before, after, ht, hbefore, hafter⟩ := exists_strip t
    rw [h, List.append_nil] at ht
    intro c hc
    rw [ht, List.mem_append] at hc
    exact hc.elim (isAllBlank_iff.mp hbefore c) (isAllBlank_iff.mp hafter c)
  · intro h
    rw [strip, trim, List.dropWhile_eq_nil_iff.mpr h]
    rfl

theorem bare_strip (h : isAllBlank t = false) : Bare (strip t) := by
  have hne : strip t ≠ [] := by
    rw [Ne, strip_eq_nil_iff, h]
    exact Bool.false_ne_true
  refine ⟨hne, fun c hc => ?_, fun c hc => ?_⟩
  · obtain ⟨rest, hrest⟩ := List.rdropWhile_prefix isBlank (t.dropWhile isBlank)
    obtain ⟨front, hfront⟩ := List.head?_eq_some_iff.mp hc
    have hdrop : t.dropWhile isBlank = c :: (front ++ rest) := by
      rw [← hrest, ← List.cons_append, ← hfront]
      rfl
    have hhead := List.head_dropWhile_not (p := isBlank) (l := t) (by simp [hdrop])
    simpa only [hdrop, List.head_cons, Bool.not_eq_true] using hhead
  · have hlast := List.rdropWhile_last_not isBlank (t.dropWhile isBlank) hne
    rw [Option.mem_def, List.getLast?_eq_some_getLast hne] at hc
    obtain rfl := Option.some.inj hc
    exact Bool.eq_false_iff.mpr hlast

theorem dropEndWhile_append_of_pos {p : CodePoint → Bool} {after : Text}
    (h : ∀ c ∈ after, p c = true) (t : Text) :
    dropEndWhile p (t ++ after) = dropEndWhile p t := by
  rw [dropEndWhile, List.reverse_append,
    List.dropWhile_append_of_pos fun c hc => h c (List.mem_reverse.mp hc), dropEndWhile]

theorem strip_append {before after : Text} (hu : Bare u) (hbefore : isAllBlank before = true)
    (hafter : isAllBlank after = true) : strip (before ++ u ++ after) = u := by
  obtain ⟨c, rest, rfl⟩ := List.exists_cons_of_ne_nil hu.ne_nil
  have hc : ¬ isBlank c = true := Bool.eq_false_iff.mp (hu.first c rfl)
  have hfront : (before ++ (c :: rest) ++ after).dropWhile isBlank = (c :: rest) ++ after := by
    rw [List.append_assoc, List.dropWhile_append_of_pos (isAllBlank_iff.mp hbefore),
      List.cons_append, List.dropWhile_cons_of_neg hc]
  have hback : (c :: rest).rdropWhile isBlank = c :: rest := by
    refine List.rdropWhile_eq_self_iff.mpr fun hne => Bool.eq_false_iff.mp (hu.last _ ?_)
    exact List.getLast?_eq_some_getLast hne
  rw [strip, trim, hfront, dropEndWhile_append_of_pos (isAllBlank_iff.mp hafter),
    dropEndWhile_eq_rdropWhile, hback]

theorem core_iff : Core t u ↔ strip t = u ∧ isAllBlank t = false := by
  constructor
  · rintro ⟨hu, before, after, rfl, hbefore, hafter⟩
    have hstrip := strip_append hu hbefore hafter
    refine ⟨hstrip, Bool.eq_false_iff.mpr fun hblank => hu.ne_nil ?_⟩
    rw [← hstrip]
    exact strip_eq_nil_iff.mpr hblank
  · rintro ⟨rfl, h⟩
    exact ⟨bare_strip h, exists_strip t⟩

end Text

namespace Config

open Text (Bare Core isAllBlank)

variable {root : Path} {pairs : List (Yaml.Value × Yaml.Value)} {key : Text} {t u : Text}
  {v w : Yaml.Value}

theorem nonBlank?_of_isAllBlank (h : isAllBlank t = true) : nonBlank? t = none := by
  rw [nonBlank?, Text.strip_eq_nil_iff.mpr h]
  rfl

theorem nonBlank?_of_not_blank (h : isAllBlank t = false) : nonBlank? t = some (Text.strip t) := by
  have hne : Text.strip t ≠ [] := (Text.bare_strip h).ne_nil
  rw [nonBlank?, if_neg (by rwa [List.isEmpty_iff])]

/-- What a document gives for a key: nothing where it leaves the key out, and the last value of
several. -/
inductive Gives : Yaml.Value → Text → Yaml.Value → Prop
  | nothing (key : Text) : Gives .null key .null
  | absent {pairs : List (Yaml.Value × Yaml.Value)} {key : Text}
      (h : ∀ w, (.text key, w) ∉ pairs) : Gives (.mapping pairs) key .null
  | last {before after : List (Yaml.Value × Yaml.Value)} {key : Text} {w : Yaml.Value}
      (h : ∀ w', (.text key, w') ∉ after) :
      Gives (.mapping (before ++ (.text key, w) :: after)) key w

@[simp] theorem get_concat_self (pairs : List (Yaml.Value × Yaml.Value)) (key : Text)
    (w : Yaml.Value) : get (pairs ++ [(.text key, w)]) key = w := by
  simp only [get, List.reverse_append, List.reverse_singleton, List.singleton_append,
    List.find?_cons, decide_true]

theorem get_concat_of_ne (pairs : List (Yaml.Value × Yaml.Value)) {k : Yaml.Value}
    (w : Yaml.Value) (h : k ≠ .text key) : get (pairs ++ [(k, w)]) key = get pairs key := by
  simp only [get, List.reverse_append, List.reverse_singleton, List.singleton_append,
    List.find?_cons]
  cases k with
  | text t =>
    have hne : t ≠ key := fun heq => h (congrArg Yaml.Value.text heq)
    simp only [decide_eq_false hne]
  | null | list | mapping | other => rfl

theorem get_append_of_not_mem (before : List (Yaml.Value × Yaml.Value))
    {after : List (Yaml.Value × Yaml.Value)} (h : ∀ w, (.text key, w) ∉ after) :
    get (before ++ after) key = get before key := by
  induction after using List.reverseRecOn with
  | nil => rw [List.append_nil]
  | append_singleton rest pair ih =>
    obtain ⟨k, w⟩ := pair
    have hk : k ≠ .text key := by
      rintro rfl
      exact h w (List.mem_concat_self)
    rw [← List.append_assoc, get_concat_of_ne _ w hk]
    exact ih fun w' hw' => h w' (List.mem_append_left _ hw')

theorem get_eq_of_gives (h : Gives (.mapping pairs) key w) : get pairs key = w := by
  cases h with
  | absent hnot => exact get_append_of_not_mem [] hnot
  | @last before after _ _ hnot =>
    rw [List.append_cons, get_append_of_not_mem _ hnot, get_concat_self]

theorem gives_get (pairs : List (Yaml.Value × Yaml.Value)) (key : Text) :
    Gives (.mapping pairs) key (get pairs key) := by
  induction pairs using List.reverseRecOn with
  | nil => exact .absent fun _ => List.not_mem_nil
  | append_singleton front pair ih =>
    obtain ⟨k, w⟩ := pair
    by_cases hk : k = .text key
    · subst hk
      rw [get_concat_self]
      exact .last fun _ => List.not_mem_nil
    · rw [get_concat_of_ne _ _ hk]
      have hlast : ∀ after, (∀ w', (.text key, w') ∉ after) →
          ∀ w', (Yaml.Value.text key, w') ∉ after ++ [(k, w)] := by
        intro after hafter w' hmem
        rcases List.mem_append.mp hmem with hmem | hmem
        · exact hafter w' hmem
        · exact hk (congrArg Prod.fst (List.mem_singleton.mp hmem)).symm
      generalize get front key = w' at ih
      cases ih with
      | absent hnot => exact .absent (hlast _ hnot)
      | last hnot =>
        rw [List.append_assoc, List.cons_append]
        exact .last (hlast _ hnot)

theorem gives_unique {w' : Yaml.Value} (h : Gives v key w) (h' : Gives v key w') : w = w' := by
  cases v with
  | null =>
    cases h
    cases h'
    rfl
  | mapping pairs => exact (get_eq_of_gives h).symm.trans (get_eq_of_gives h')
  | text | list | other => cases h

/-- A value that gives a string, or none if it is nothing or blank. -/
inductive GivesString : Yaml.Value → Option Text → Prop
  | nothing : GivesString .null none
  | blank {t : Text} (h : isAllBlank t = true) : GivesString (.text t) none
  | core {t u : Text} (h : Core t u) : GivesString (.text t) (some u)

/-- A value that gives texts: none, one of its own, or those of a list. -/
inductive GivesTexts : Yaml.Value → List Text → Prop
  | nothing : GivesTexts .null []
  | single (t : Text) : GivesTexts (.text t) [t]
  | list (ts : List Text) : GivesTexts (.list (ts.map .text)) ts

/-- What is left of the texts that are not blank, in their order. -/
def Cores (ts us : List Text) : Prop := List.Forall₂ Core (ts.filter fun t => !isAllBlank t) us

/-- A value that gives strings: those that are left of its texts. -/
def GivesStrings (w : Yaml.Value) (us : List Text) : Prop := ∃ ts, GivesTexts w ts ∧ Cores ts us

/-- A value that is neither nothing nor a text. -/
inductive NoString (key : Text) : Yaml.Value → Misfit → Prop
  | string {w : Yaml.Value} (hnull : w ≠ .null) (htext : ∀ t, w ≠ .text t) :
      NoString key w (.notString key)

/-- A value that is nothing of nothing, a text and a list, or a list with an entry that is no
text. -/
inductive NoStrings (key : Text) : Yaml.Value → Misfit → Prop
  | strings {w : Yaml.Value} (hnull : w ≠ .null) (htext : ∀ t, w ≠ .text t)
      (hlist : ∀ items, w ≠ .list items) : NoStrings key w (.notStrings key)
  | entry {items : List Yaml.Value} {item : Yaml.Value} (hitem : item ∈ items)
      (htext : ∀ t, item ≠ .text t) : NoStrings key (.list items) (.entryNotString key)

theorem nonBlank?_cases (t : Text) :
    (isAllBlank t = true ∧ nonBlank? t = none) ∨
      ∃ u, isAllBlank t = false ∧ Core t u ∧ nonBlank? t = some u := by
  cases h : isAllBlank t with
  | true => exact .inl ⟨rfl, nonBlank?_of_isAllBlank h⟩
  | false => exact .inr ⟨_, rfl, Text.core_iff.mpr ⟨rfl, h⟩, nonBlank?_of_not_blank h⟩

theorem string?_cases (key : Text) (w : Yaml.Value) :
    (∃ o, GivesString w o ∧ string? key w = .ok o) ∨
      (∃ m, NoString key w m ∧ string? key w = .error m) := by
  cases w with
  | null => exact .inl ⟨none, .nothing, rfl⟩
  | text t =>
    rcases nonBlank?_cases t with ⟨hblank, hnone⟩ | ⟨u, -, hcore, hsome⟩
    · exact .inl ⟨none, .blank hblank, congrArg Except.ok hnone⟩
    · exact .inl ⟨some u, .core hcore, congrArg Except.ok hsome⟩
  | list | mapping | other => exact .inr ⟨_, .string nofun nofun, rfl⟩

theorem Cores.cons_blank {ts us : List Text} (h : Cores ts us) (ht : isAllBlank t = true) :
    Cores (t :: ts) us := by
  rw [Cores, List.filter_cons_of_neg (by simp [ht])]
  exact h

theorem Cores.cons {ts us : List Text} (h : Cores ts us) (ht : isAllBlank t = false)
    (hu : Core t u) : Cores (t :: ts) (u :: us) := by
  rw [Cores, List.filter_cons_of_pos (by simp [ht])]
  exact .cons hu h

theorem Cores.bare {ts us : List Text} (h : Cores ts us) (hu : u ∈ us) : Bare u := by
  have hbare := h.flip.imp (S := fun u t => Bare u ∧ Core t u) fun _ _ hcore => ⟨hcore.1, hcore⟩
  exact ((List.forall₂_and_left _ _).mp hbare).1 u hu

theorem entries_cases (key : Text) (items : List Yaml.Value) :
    (∃ us, GivesStrings (.list items) us ∧ entries key items = .ok us) ∨
      (∃ m, NoStrings key (.list items) m ∧ entries key items = .error m) := by
  induction items with
  | nil => exact .inl ⟨[], ⟨[], .list [], .nil⟩, rfl⟩
  | cons item rest ih =>
    cases item with
    | text t =>
      rcases ih with ⟨us, ⟨ts, hts, hus⟩, hrest⟩ | ⟨m, hm, hrest⟩
      · obtain ⟨⟩ := hts
        rcases nonBlank?_cases t with ⟨hblank, hnone⟩ | ⟨u, hblank, hcore, hsome⟩
        · refine .inl ⟨us, ⟨t :: ts, .list (t :: ts), hus.cons_blank hblank⟩, ?_⟩
          rw [entries, hrest, hnone]
          rfl
        · refine .inl ⟨u :: us, ⟨t :: ts, .list (t :: ts), hus.cons hblank hcore⟩, ?_⟩
          rw [entries, hrest, hsome]
          rfl
      · refine .inr ⟨m, ?_, by rw [entries, hrest]; rfl⟩
        cases hm with
        | strings _ _ hlist => exact absurd rfl (hlist rest)
        | entry hitem htext => exact .entry (List.mem_cons_of_mem _ hitem) htext
    | null | list | mapping | other =>
      exact .inr ⟨_, .entry List.mem_cons_self nofun, rfl⟩

theorem strings_cases (key : Text) (w : Yaml.Value) :
    (∃ us, GivesStrings w us ∧ strings key w = .ok us) ∨
      (∃ m, NoStrings key w m ∧ strings key w = .error m) := by
  cases w with
  | null => exact .inl ⟨[], ⟨[], .nothing, .nil⟩, rfl⟩
  | text t =>
    rcases nonBlank?_cases t with ⟨hblank, hnone⟩ | ⟨u, hblank, hcore, hsome⟩
    · refine .inl ⟨[], ⟨[t], .single t, Cores.cons_blank .nil hblank⟩, ?_⟩
      rw [strings, hnone]
      rfl
    · refine .inl ⟨[u], ⟨[t], .single t, Cores.cons .nil hblank hcore⟩, ?_⟩
      rw [strings, hsome]
      rfl
  | list items => exact entries_cases key items
  | mapping | other => exact .inr ⟨_, .strings nofun nofun nofun, rfl⟩

theorem GivesString.not_noString {o : Option Text} {m : Misfit} (h : GivesString w o) :
    ¬ NoString key w m := by
  rintro ⟨hnull, htext⟩
  cases h with
  | nothing => exact hnull rfl
  | blank | core => exact htext _ rfl

theorem GivesStrings.not_noStrings {us : List Text} {m : Misfit} (h : GivesStrings w us) :
    ¬ NoStrings key w m := by
  obtain ⟨ts, hts, -⟩ := h
  rintro (⟨hnull, htext, hlist⟩ | ⟨hitem, htext⟩)
  · cases hts with
    | nothing => exact hnull rfl
    | single t => exact htext t rfl
    | list ts => exact hlist _ rfl
  · cases hts with
    | list ts =>
      obtain ⟨t, -, rfl⟩ := List.mem_map.mp hitem
      exact htext t rfl

def stringKeys : List Text := ["marker", "output_dir", "error_log"]

def listKeys : List Text := ["source_roots", "exclude_paths"]

/-- Why a document has no settings: it is neither nothing nor a mapping, or it gives a key a value
that is not of the key's type. -/
inductive Misfits : Yaml.Value → Misfit → Prop
  | root {v : Yaml.Value} (hnull : v ≠ .null) (hmapping : ∀ pairs, v ≠ .mapping pairs) :
      Misfits v .notMapping
  | string {v w : Yaml.Value} {key : Text} {m : Misfit} (hkey : key ∈ stringKeys)
      (hgives : Gives v key w) (h : NoString key w m) : Misfits v m
  | strings {v w : Yaml.Value} {key : Text} {m : Misfit} (hkey : key ∈ listKeys)
      (hgives : Gives v key w) (h : NoStrings key w m) : Misfits v m

/-- The settings that a document gives for a project directory: of each string what is between the
white space at its ends, and a default where it gives none. -/
structure Normal (root : Path) (v : Yaml.Value) (c : Config) : Prop where
  at_root : c.root = root
  marker : ∃ w o, Gives v "marker" w ∧ GivesString w o ∧ c.marker = o.getD defaultMarker
  marker_bare : Bare c.marker
  sourceRoots : ∃ w us, Gives v "source_roots" w ∧ GivesStrings w us ∧
    c.sourceRoots = if us = [] then [root] else us.map (pathIn root)
  sourceRoots_ne_nil : c.sourceRoots ≠ []
  outputDir : ∃ w o, Gives v "output_dir" w ∧ GivesString w o ∧
    c.outputDir = pathIn root (o.getD defaultOutputDir)
  errorLog : ∃ w o, Gives v "error_log" w ∧ GivesString w o ∧
    c.errorLog = pathIn root (o.getD defaultErrorLog)
  excludePaths : ∃ w, Gives v "exclude_paths" w ∧ GivesStrings w c.excludePaths
  excludes_bare : ∀ e ∈ c.excludePaths, Bare e

theorem defaultMarker_bare : Bare defaultMarker := by
  have hstrip : Text.strip defaultMarker = defaultMarker := by decide +kernel
  rw [← hstrip]
  exact Text.bare_strip (by decide +kernel)

theorem GivesString.bare_getD {o : Option Text} (h : GivesString w o) :
    Bare (o.getD defaultMarker) := by
  cases h with
  | nothing | blank => exact defaultMarker_bare
  | core hcore => exact hcore.1

theorem GivesStrings.bare {us : List Text} (h : GivesStrings w us) : ∀ u ∈ us, Bare u := by
  obtain ⟨ts, -, hus⟩ := h
  exact fun u hu => hus.bare hu

theorem Normal.not_misfits {c : Config} {m : Misfit} (h : Normal root v c) : ¬ Misfits v m := by
  have hstring : ∀ key ∈ stringKeys, ∃ w o, Gives v key w ∧ GivesString w o := by
    obtain ⟨w₁, o₁, hw₁, ho₁, -⟩ := h.marker
    obtain ⟨w₂, o₂, hw₂, ho₂, -⟩ := h.outputDir
    obtain ⟨w₃, o₃, hw₃, ho₃, -⟩ := h.errorLog
    simp only [stringKeys, List.forall_mem_cons]
    exact ⟨⟨w₁, o₁, hw₁, ho₁⟩, ⟨w₂, o₂, hw₂, ho₂⟩, ⟨w₃, o₃, hw₃, ho₃⟩, nofun⟩
  have hlist : ∀ key ∈ listKeys, ∃ w us, Gives v key w ∧ GivesStrings w us := by
    obtain ⟨w₁, us₁, hw₁, hus₁, -⟩ := h.sourceRoots
    obtain ⟨w₂, hw₂, hus₂⟩ := h.excludePaths
    simp only [listKeys, List.forall_mem_cons]
    exact ⟨⟨w₁, us₁, hw₁, hus₁⟩, ⟨w₂, _, hw₂, hus₂⟩, nofun⟩
  intro hm
  cases hm with
  | root hnull hmapping =>
    obtain ⟨w, -, hw, -⟩ := h.marker
    cases hw with
    | nothing => exact hnull rfl
    | absent | last => exact hmapping _ rfl
  | string hkey hgives hno =>
    obtain ⟨w, o, hw, ho⟩ := hstring _ hkey
    rw [gives_unique hgives hw] at hno
    exact ho.not_noString hno
  | strings hkey hgives hno =>
    obtain ⟨w, us, hw, hus⟩ := hlist _ hkey
    rw [gives_unique hgives hw] at hno
    exact hus.not_noStrings hno

theorem normal_default (root : Path) : Normal root .null (default root) where
  at_root := rfl
  marker := ⟨.null, none, .nothing _, .nothing, rfl⟩
  marker_bare := defaultMarker_bare
  sourceRoots := ⟨.null, [], .nothing _, ⟨[], .nothing, .nil⟩, rfl⟩
  sourceRoots_ne_nil := List.cons_ne_nil _ _
  outputDir := ⟨.null, none, .nothing _, .nothing, rfl⟩
  errorLog := ⟨.null, none, .nothing _, .nothing, rfl⟩
  excludePaths := ⟨.null, .nothing _, [], .nothing, .nil⟩
  excludes_bare := nofun

theorem ofValue_mapping_cases (root : Path) (pairs : List (Yaml.Value × Yaml.Value)) :
    (∃ c, ofValue root (.mapping pairs) = .ok c ∧ Normal root (.mapping pairs) c) ∨
      (∃ m, ofValue root (.mapping pairs) = .error m ∧ Misfits (.mapping pairs) m) := by
  rcases string?_cases "marker" (get pairs "marker") with
    ⟨marker, hmarker, heq₁⟩ | ⟨m, hm, heq₁⟩
  swap
  · exact .inr ⟨m, by simp only [ofValue, heq₁]; rfl, .string (by decide) (gives_get _ _) hm⟩
  rcases strings_cases "source_roots" (get pairs "source_roots") with
    ⟨sourceRoots, hroots, heq₂⟩ | ⟨m, hm, heq₂⟩
  swap
  · exact .inr ⟨m, by simp only [ofValue, heq₁, heq₂]; rfl,
      .strings (by decide) (gives_get _ _) hm⟩
  rcases string?_cases "output_dir" (get pairs "output_dir") with
    ⟨outputDir, houtput, heq₃⟩ | ⟨m, hm, heq₃⟩
  swap
  · exact .inr ⟨m, by simp only [ofValue, heq₁, heq₂, heq₃]; rfl,
      .string (by decide) (gives_get _ _) hm⟩
  rcases string?_cases "error_log" (get pairs "error_log") with
    ⟨errorLog, hlog, heq₄⟩ | ⟨m, hm, heq₄⟩
  swap
  · exact .inr ⟨m, by simp only [ofValue, heq₁, heq₂, heq₃, heq₄]; rfl,
      .string (by decide) (gives_get _ _) hm⟩
  rcases strings_cases "exclude_paths" (get pairs "exclude_paths") with
    ⟨excludePaths, hexclude, heq₅⟩ | ⟨m, hm, heq₅⟩
  swap
  · exact .inr ⟨m, by simp only [ofValue, heq₁, heq₂, heq₃, heq₄, heq₅]; rfl,
      .strings (by decide) (gives_get _ _) hm⟩
  refine .inl ⟨_, by simp only [ofValue, heq₁, heq₂, heq₃, heq₄, heq₅]; rfl, ?_⟩
  exact {
    at_root := rfl
    marker := ⟨_, marker, gives_get _ _, hmarker, rfl⟩
    marker_bare := hmarker.bare_getD
    sourceRoots := ⟨_, sourceRoots, gives_get _ _, hroots, by simp only [List.isEmpty_iff]⟩
    sourceRoots_ne_nil := by
      cases sourceRoots with
      | nil => exact List.cons_ne_nil _ _
      | cons => exact List.cons_ne_nil _ _
    outputDir := ⟨_, outputDir, gives_get _ _, houtput, rfl⟩
    errorLog := ⟨_, errorLog, gives_get _ _, hlog, rfl⟩
    excludePaths := ⟨_, gives_get _ _, hexclude⟩
    excludes_bare := hexclude.bare }

theorem ofValue_cases (root : Path) (v : Yaml.Value) :
    (∃ c, ofValue root v = .ok c ∧ Normal root v c) ∨
      (∃ m, ofValue root v = .error m ∧ Misfits v m) := by
  cases v with
  | null => exact .inl ⟨_, rfl, normal_default root⟩
  | mapping pairs => exact ofValue_mapping_cases root pairs
  | text | list | other => exact .inr ⟨_, rfl, .root nofun nofun⟩

end Config

end LookupGen
