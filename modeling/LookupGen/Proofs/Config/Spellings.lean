import LookupGen.Proofs.Config.Normal

/-!
# Spellings of settings

What is read as the settings of a project: the values that misfit are refused, and what is wrong
with them is reported; every other value has settings. A document may be spelled in other ways and
keep its settings. Other keys may be added, a blank string may be nothing or be left out, a list may
do without its blank entries, and a string may be the only entry of a list.

This module does NOT say how a document is written down; a settings file with the same value is read
in the same way.
-/

namespace LookupGen

namespace Yaml.Value

mutual

def same : Value → Value → Bool
  | .null, .null => true
  | .text t, .text u => decide (t = u)
  | .list xs, .list ys => sameItems xs ys
  | .mapping ps, .mapping qs => samePairs ps qs
  | .other, .other => true
  | _, _ => false

def sameItems : List Value → List Value → Bool
  | [], [] => true
  | x :: xs, y :: ys => same x y && sameItems xs ys
  | _, _ => false

def samePairs : List (Value × Value) → List (Value × Value) → Bool
  | [], [] => true
  | (k, v) :: ps, (l, w) :: qs => same k l && same v w && samePairs ps qs
  | _, _ => false

end

mutual

theorem eq_of_same : ∀ {v w : Value}, same v w = true → v = w
  | .null, .null, _ => rfl
  | .text _, .text _, h => congrArg text (of_decide_eq_true (by simpa only [same] using h))
  | .list _, .list _, h => congrArg list (eq_of_sameItems (by simpa only [same] using h))
  | .mapping _, .mapping _, h => congrArg mapping (eq_of_samePairs (by simpa only [same] using h))
  | .other, .other, _ => rfl

theorem eq_of_sameItems : ∀ {xs ys : List Value}, sameItems xs ys = true → xs = ys
  | [], [], _ => rfl
  | x :: xs, y :: ys, h => by
    rw [sameItems, Bool.and_eq_true] at h
    rw [eq_of_same h.1, eq_of_sameItems h.2]

theorem eq_of_samePairs : ∀ {ps qs : List (Value × Value)}, samePairs ps qs = true → ps = qs
  | [], [], _ => rfl
  | (k, v) :: ps, (l, w) :: qs, h => by
    rw [samePairs, Bool.and_eq_true, Bool.and_eq_true] at h
    rw [eq_of_same h.1.1, eq_of_same h.1.2, eq_of_samePairs h.2]

end

mutual

theorem same_self : ∀ v : Value, same v v = true
  | .null => rfl
  | .text _ => decide_eq_true rfl
  | .list xs => sameItems_self xs
  | .mapping ps => samePairs_self ps
  | .other => rfl

theorem sameItems_self : ∀ xs : List Value, sameItems xs xs = true
  | [] => rfl
  | x :: xs => by rw [sameItems, same_self x, sameItems_self xs]; rfl

theorem samePairs_self : ∀ ps : List (Value × Value), samePairs ps ps = true
  | [] => rfl
  | (k, v) :: ps => by rw [samePairs, same_self k, same_self v, samePairs_self ps]; rfl

end

instance : DecidableEq Value := fun v w =>
  decidable_of_iff (same v w = true) ⟨eq_of_same, fun h => h ▸ same_self v⟩

end Yaml.Value

namespace Config

open Text (isAllBlank)

variable {root : Path} {before before' after pairs pairs' : List (Yaml.Value × Yaml.Value)}
  {key t : Text} {k v v' w w' : Yaml.Value}

/-- Two values that say the same for a key. -/
structure Alike (key : Text) (w w' : Yaml.Value) : Prop where
  string : key ∈ stringKeys → string? key w = string? key w'
  strings : key ∈ listKeys → strings key w = strings key w'

theorem Alike.refl (key : Text) (w : Yaml.Value) : Alike key w w := ⟨fun _ => rfl, fun _ => rfl⟩

theorem alike_blank (key : Text) (h : isAllBlank t = true) : Alike key (.text t) .null where
  string _ := congrArg Except.ok (nonBlank?_of_isAllBlank h)
  strings _ := by
    change Except.ok (nonBlank? t).toList = Except.ok []
    rw [nonBlank?_of_isAllBlank h]
    rfl

theorem entries_blank (key : Text) (h : isAllBlank t = true) (xs ys : List Yaml.Value) :
    entries key (xs ++ .text t :: ys) = entries key (xs ++ ys) := by
  induction xs with
  | nil =>
    rw [List.nil_append, entries, nonBlank?_of_isAllBlank h]
    cases hys : entries key ys with
    | error m => rw [List.nil_append, hys]; rfl
    | ok us => rw [List.nil_append, hys]; rfl
  | cons x xs ih =>
    cases x with
    | text u => rw [List.cons_append, List.cons_append, entries, entries, ih]
    | null | list | mapping | other => rfl

theorem alike_entry (key : Text) (h : isAllBlank t = true) (xs ys : List Yaml.Value) :
    Alike key (.list (xs ++ .text t :: ys)) (.list (xs ++ ys)) :=
  ⟨fun _ => rfl, fun _ => entries_blank key h xs ys⟩

theorem alike_single (h : key ∉ stringKeys) (t : Text) :
    Alike key (.text t) (.list [.text t]) where
  string hkey := absurd hkey h
  strings _ := congrArg Except.ok (List.append_nil _).symm

theorem alike_append (h : Alike key (get before key) (get before' key))
    (after : List (Yaml.Value × Yaml.Value)) :
    Alike key (get (before ++ after) key) (get (before' ++ after) key) := by
  induction after using List.reverseRecOn with
  | nil => rwa [List.append_nil, List.append_nil]
  | append_singleton rest pair ih =>
    obtain ⟨k, w⟩ := pair
    rw [← List.append_assoc, ← List.append_assoc]
    by_cases hk : k = .text key
    · subst hk
      rw [get_concat_self, get_concat_self]
      exact .refl key w
    · rwa [get_concat_of_ne _ _ hk, get_concat_of_ne _ _ hk]

theorem alike_pair (h : ∀ key, k = .text key → Alike key w w') (key : Text) :
    Alike key (get (before ++ (k, w) :: after) key) (get (before ++ (k, w') :: after) key) := by
  rw [List.append_cons before (k, w), List.append_cons before (k, w')]
  apply alike_append
  by_cases hk : k = .text key
  · subst hk
    rw [get_concat_self, get_concat_self]
    exact h key rfl
  · rw [get_concat_of_ne _ _ hk, get_concat_of_ne _ _ hk]
    exact .refl _ _

/-- A pair may be left out if no earlier value of its key is as good as its own. -/
theorem alike_without (h : k = .text key → Alike key w (get before key)) :
    Alike key (get (before ++ (k, w) :: after) key) (get (before ++ after) key) := by
  rw [List.append_cons before]
  apply alike_append
  by_cases hk : k = .text key
  · subst hk
    rw [get_concat_self]
    exact h rfl
  · rw [get_concat_of_ne _ _ hk]
    exact .refl _ _

theorem ofValue_alike
    (h : ∀ key ∈ stringKeys ++ listKeys, Alike key (get pairs key) (get pairs' key)) :
    ofValue root (.mapping pairs) = ofValue root (.mapping pairs') := by
  have hmarker := (h "marker" (by decide)).string (by decide)
  have hroots := (h "source_roots" (by decide)).strings (by decide)
  have houtput := (h "output_dir" (by decide)).string (by decide)
  have hlog := (h "error_log" (by decide)).string (by decide)
  have hexclude := (h "exclude_paths" (by decide)).strings (by decide)
  rw [ofValue, ofValue, hmarker, hroots, houtput, hlog, hexclude]

/-- One change to a document that leaves its settings alone. -/
inductive Respelled : Yaml.Value → Yaml.Value → Prop
  | unknown {before after : List (Yaml.Value × Yaml.Value)} {k : Yaml.Value} (w : Yaml.Value)
      (h : ∀ key ∈ stringKeys ++ listKeys, k ≠ .text key) :
      Respelled (.mapping (before ++ after)) (.mapping (before ++ (k, w) :: after))
  | blankNull {before after : List (Yaml.Value × Yaml.Value)} {t : Text} (k : Yaml.Value)
      (h : isAllBlank t = true) :
      Respelled (.mapping (before ++ (k, .text t) :: after))
        (.mapping (before ++ (k, .null) :: after))
  | blankAbsent {before after : List (Yaml.Value × Yaml.Value)} {k : Yaml.Value} {t : Text}
      (h : isAllBlank t = true) (honly : ∀ w, (k, w) ∉ before) :
      Respelled (.mapping (before ++ (k, .text t) :: after)) (.mapping (before ++ after))
  | blankEntry {before after : List (Yaml.Value × Yaml.Value)} {t : Text} (k : Yaml.Value)
      (xs ys : List Yaml.Value) (h : isAllBlank t = true) :
      Respelled (.mapping (before ++ (k, .list (xs ++ .text t :: ys)) :: after))
        (.mapping (before ++ (k, .list (xs ++ ys)) :: after))
  | single {before after : List (Yaml.Value × Yaml.Value)} {k : Yaml.Value} (t : Text)
      (h : ∀ key ∈ stringKeys, k ≠ .text key) :
      Respelled (.mapping (before ++ (k, .text t) :: after))
        (.mapping (before ++ (k, .list [.text t]) :: after))

theorem ofValue_respelled (root : Path) (h : Respelled v v') :
    ofValue root v = ofValue root v' := by
  cases h with
  | unknown w h =>
    refine (ofValue_alike fun key hkey => alike_without fun hk => ?_).symm
    exact absurd hk (h key hkey)
  | blankNull k h =>
    exact ofValue_alike fun key _ => alike_pair (fun key _ => alike_blank key h) key
  | blankAbsent h honly =>
    refine ofValue_alike fun key _ => alike_without fun hk => ?_
    subst hk
    rw [get_eq_of_gives (.absent honly)]
    exact alike_blank key h
  | blankEntry k xs ys h =>
    exact ofValue_alike fun key _ => alike_pair (fun key _ => alike_entry key h xs ys) key
  | single t h =>
    refine ofValue_alike fun key _ => alike_pair (fun key hk => ?_) key
    exact alike_single (fun hkey => h key hkey hk) t

theorem ofValue_spelling (root : Path) (h : Relation.EqvGen Respelled v v') :
    ofValue root v = ofValue root v' := by
  induction h with
  | rel _ _ h => exact ofValue_respelled root h
  | refl => rfl
  | symm _ _ _ ih => exact ih.symm
  | trans _ _ _ _ _ ih ih' => exact ih.trans ih'

variable {d : Disk} {p : Path}

/-- The settings file for a path stands there and holds a document with some value. -/
structure Documented (d : Disk) (p : Path) (v : Yaml.Value) : Prop where
  stands : d.pathExists (filePath d p) = true
  value : ∃ t, d.readText (filePath d p) = .ok t ∧ valueOfText t = .ok v

def rootAt (d : Disk) (p : Path) : Path := d.resolve (filePath d p).parent

theorem load_of_documented (h : Documented d p v) :
    load d p = (ofValue (rootAt d p) v).mapError .misfit := by
  obtain ⟨t, ht, hv⟩ := h.value
  simp only [load, h.stands, if_true, ht, ofText, hv, rootAt]
  cases ofValue (d.resolve (filePath d p).parent) v with
  | error m => rfl
  | ok c => rfl

theorem load_cases (h : Documented d p v) :
    (∃ c, load d p = .ok c ∧ Normal (rootAt d p) v c) ∨
      (∃ m, load d p = .error (.misfit m) ∧ Misfits v m) := by
  rw [load_of_documented h]
  rcases ofValue_cases (rootAt d p) v with ⟨c, hc, hnormal⟩ | ⟨m, hm, hmisfits⟩
  · exact .inl ⟨c, by rw [hc]; rfl, hnormal⟩
  · exact .inr ⟨m, by rw [hm]; rfl, hmisfits⟩

/-- Settings are refused just where the document misfits, and what is reported is a way in which it
does; otherwise they are those that the document gives. No spelling makes a difference. -/
theorem load_documented (h : Documented d p v) :
    ((∃ e, load d p = .error e) ↔ ∃ m, Misfits v m) ∧
    (∀ e, load d p = .error e → ∃ m, e = .misfit m ∧ Misfits v m) ∧
    ((∀ m, ¬ Misfits v m) → ∃ c, load d p = .ok c ∧ Normal (rootAt d p) v c) ∧
    ∀ d' p' v', Documented d' p' v' → rootAt d' p' = rootAt d p →
      Relation.EqvGen Respelled v v' → load d' p' = load d p := by
  have hreason : ∀ e, load d p = .error e → ∃ m, e = .misfit m ∧ Misfits v m := by
    intro e he
    rcases load_cases h with ⟨c, hc, -⟩ | ⟨m, hm, hmisfits⟩
    · rw [he] at hc
      cases hc
    · rw [he] at hm
      exact ⟨m, Except.error.inj hm, hmisfits⟩
  refine ⟨⟨?_, ?_⟩, hreason, ?_, ?_⟩
  · rintro ⟨e, he⟩
    obtain ⟨m, -, hmisfits⟩ := hreason e he
    exact ⟨m, hmisfits⟩
  · rintro ⟨m, hmisfits⟩
    rcases load_cases h with ⟨c, -, hnormal⟩ | ⟨m', hm', -⟩
    · exact absurd hmisfits hnormal.not_misfits
    · exact ⟨_, hm'⟩
  · intro hfits
    rcases load_cases h with hnormal | ⟨m, -, hmisfits⟩
    · exact hnormal
    · exact absurd hmisfits (hfits m)
  · intro d' p' v' h' hroot hv
    rw [load_of_documented h, load_of_documented h', hroot, ofValue_spelling _ hv]

def project (settings : String) : Disk :=
  ⟨.dir [(fileName, .file (settings.toList.map fun c => UInt8.ofNat c.toNat))], []⟩

def wideText : String :=
  "marker: ' a.B '\nsource_roots: src\nerror_log: ''\nexclude_paths: [gen, ' ']\n"

def wide : Yaml.Value := .mapping [(.text "marker", .text " a.B "),
  (.text "source_roots", .text "src"), (.text "error_log", .text ""),
  (.text "exclude_paths", .list [.text "gen", .text " "])]

def tightText : String :=
  "marker: ' a.B '\nlevel: 3\nsource_roots: [src]\nexclude_paths: [gen]\n"

def tight : Yaml.Value := .mapping [(.text "marker", .text " a.B "), (.text "level", .other),
  (.text "source_roots", .list [.text "src"]), (.text "exclude_paths", .list [.text "gen"])]

theorem documented_wide : Documented (project wideText) (.ofText ".") wide :=
  ⟨by decide +kernel, wideText, by decide +kernel, by decide +kernel⟩

theorem documented_tight : Documented (project tightText) (.ofText ".") tight :=
  ⟨by decide +kernel, tightText, by decide +kernel, by decide +kernel⟩

theorem wide_spelling_tight : Relation.EqvGen Respelled wide tight := by
  have hlevel := @Respelled.unknown [(.text "marker", .text " a.B ")]
    [(.text "source_roots", .text "src"), (.text "error_log", .text ""),
      (.text "exclude_paths", .list [.text "gen", .text " "])]
    (.text "level") .other (by decide)
  have hroots := @Respelled.single [(.text "marker", .text " a.B "), (.text "level", .other)]
    [(.text "error_log", .text ""), (.text "exclude_paths", .list [.text "gen", .text " "])]
    (.text "source_roots") "src" (by decide)
  have hlog := @Respelled.blankAbsent [(.text "marker", .text " a.B "), (.text "level", .other),
      (.text "source_roots", .list [.text "src"])]
    [(.text "exclude_paths", .list [.text "gen", .text " "])]
    (.text "error_log") "" (by decide) (by simp [Text.ofString])
  have hexclude := @Respelled.blankEntry [(.text "marker", .text " a.B "), (.text "level", .other),
      (.text "source_roots", .list [.text "src"])]
    [] " " (.text "exclude_paths") [.text "gen"] [] (by decide)
  exact .trans _ _ _ (.rel _ _ hlevel) (.trans _ _ _ (.rel _ _ hroots)
    (.trans _ _ _ (.rel _ _ hlog) (.rel _ _ hexclude)))

theorem load_documented_tight :
    Documented (project wideText) (.ofText ".") wide ∧
      (∃ c, load (project wideText) (.ofText ".") = .ok c ∧ c.marker = "a.B" ∧
        Normal (rootAt (project wideText) (.ofText ".")) wide c) ∧
      load (project tightText) (.ofText ".") = load (project wideText) (.ofText ".") := by
  obtain ⟨hrefused, -, hnormal, hspelling⟩ := load_documented documented_wide
  have hloaded : (load (project wideText) (.ofText ".")).toOption.map (·.marker) =
      some ("a.B" : Text) := by
    decide +kernel
  have hfits : ∀ m, ¬ Misfits wide m := by
    intro m hm
    obtain ⟨e, he⟩ := hrefused.mpr ⟨m, hm⟩
    rw [he] at hloaded
    cases hloaded
  obtain ⟨c, hc, hcnormal⟩ := hnormal hfits
  rw [hc] at hloaded
  exact ⟨documented_wide, ⟨c, hc, Option.some.inj hloaded, hcnormal⟩,
    hspelling _ _ _ documented_tight (by decide +kernel) wide_spelling_tight⟩

end Config

end LookupGen
