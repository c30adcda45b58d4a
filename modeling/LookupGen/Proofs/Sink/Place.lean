import LookupGen.Proofs.Sink

/-!
# Places of files

The file of a valid name lies as many directories below that of the sink as its package has
segments. Two valid names never share a file, and no file of a name lies at the directory itself.
-/

namespace LookupGen

open Disk (placeOf_eq)

namespace Name

variable {n m : Name}

def packageSegments (n : Name) : List Text :=
  if (package n).isEmpty then [] else segments (package n)

theorem segments_eq (h : isValid n = true) : segments n = packageSegments n ++ [simple n] := by
  unfold packageSegments package simple
  cases hlast : Text.splitLast '.' n with
  | none =>
    have hdot := Text.splitLast_eq_none hlast
    exact Text.splitAll_of_not_mem hdot
  | some p =>
    obtain ⟨before, after⟩ := p
    obtain ⟨hn, hdot⟩ := Text.splitLast_eq_some hlast
    have hbefore : before.isEmpty = false := by
      have hwithin := within_package_simple h
      rw [package, simple, hlast] at hwithin
      simp only [within] at hwithin
      rw [Bool.eq_false_iff]
      intro hempty
      rw [if_pos hempty, hn] at hwithin
      have hlength := congrArg List.length hwithin
      rw [List.length_append, List.length_cons] at hlength
      omega
    simp only [hbefore]
    unfold segments
    rw [hn, Text.splitAll_append_of_not_mem hdot]
    rfl

theorem eq_of_segments (h : segments n = segments m) : n = m := Text.splitAll_injective _ h

theorem isIdentifier_of_mem_packageSegments (h : isValid n = true) {s : Text}
    (hs : s ∈ packageSegments n) : isIdentifier s = true := by
  have hmem : s ∈ segments n := by
    rw [segments_eq h]
    exact List.mem_append_left _ hs
  exact List.all_eq_true.mp h s hmem

end Name

namespace Path

theorem join_ofText_of_plain {t : Text} (hslash : CodePoint.ofChar '/' ∉ t) (hempty : t ≠ [])
    (hdot : t ≠ ".") (p : Path) : p.join (ofText t) = ⟨p.anchor, p.names ++ [t]⟩ := by
  have hkept : ([t].filter fun name => !name.isEmpty && decide (name ≠ Text.ofString ".")) =
      [t] := by
    apply List.filter_eq_self.mpr
    intro s hs
    obtain rfl := List.mem_singleton.mp hs
    simp [hempty, hdot]
  rw [ofText_of_not_mem hslash, hkept]
  rfl

theorem foldl_join_ofText {segments : List Text}
    (h : ∀ s ∈ segments, CodePoint.ofChar '/' ∉ s ∧ s ≠ [] ∧ s ≠ ".") (p : Path) :
    segments.foldl (fun dir segment => dir.join (ofText segment)) p =
      ⟨p.anchor, p.names ++ segments⟩ := by
  induction segments generalizing p with
  | nil => rw [List.foldl_nil, List.append_nil]
  | cons s rest ih =>
    obtain ⟨hslash, hempty, hdot⟩ := h s List.mem_cons_self
    rw [List.foldl_cons, join_ofText_of_plain hslash hempty hdot,
      ih fun s hs => h s (List.mem_cons_of_mem _ hs)]
    rw [List.append_assoc, List.singleton_append]

end Path

namespace Sink

variable {d : Disk} {root : Path} {name other : Name}

def fileName (name : Name) : Text := Name.simple name ++ fileSuffix

theorem fileSuffix_suffix (name : Name) : fileSuffix <:+ fileName name := List.suffix_append _ _

theorem pathOf_eq (h : Name.isValid name = true) (root : Path) :
    pathOf root name =
      ⟨root.anchor, root.names ++ (Name.packageSegments name ++ [fileName name])⟩ := by
  have hslash := slash_not_mem_of_isValid h
  have hfile : Text.join [Name.simple name, fileSuffix] = fileName name := by
    rw [Text.join, List.flatten_cons, List.flatten_singleton]
    rfl
  have hfileslash : CodePoint.ofChar '/' ∉ fileName name := by
    intro hmem
    rcases List.mem_append.mp hmem with hmem | hmem
    · exact hslash (Name.mem_of_mem_simple hmem)
    · exact absurd hmem (by decide)
  have hlength : 5 ≤ (fileName name).length := by
    rw [fileName, List.length_append]
    exact Nat.le_add_left 5 _
  have hfileempty : fileName name ≠ [] := by
    intro hempty
    rw [hempty, List.length_nil] at hlength
    omega
  have hfiledot : fileName name ≠ Text.ofString "." := by
    intro hdot
    rw [hdot] at hlength
    exact absurd hlength (by decide)
  have hlast (dir : Path) := Path.join_ofText_of_plain hfileslash hfileempty hfiledot dir
  have hsegments : ∀ s ∈ Name.packageSegments name,
      CodePoint.ofChar '/' ∉ s ∧ s ≠ [] ∧ s ≠ Text.ofString "." := by
    intro s hs
    have hin : s ∈ Name.segments name := by
      rw [Name.segments_eq h]
      exact List.mem_append_left _ hs
    refine ⟨fun hmem => hslash (Text.mem_of_mem_splitAll hin hmem).2,
      Name.isIdentifier_ne_nil (Name.isIdentifier_of_mem_packageSegments h hs), ?_⟩
    rintro rfl
    exact (@Text.mem_of_mem_splitAll _ _ _ hin (CodePoint.ofChar '.') List.mem_cons_self).1 rfl
  unfold pathOf
  simp only
  rw [hfile, hlast]
  unfold Name.packageSegments at hsegments ⊢
  cases hempty : (Name.package name).isEmpty with
  | true => rfl
  | false =>
    rw [hempty] at hsegments
    simp only [Bool.false_eq_true, if_false] at hsegments ⊢
    rw [Path.foldl_join_ofText hsegments, List.append_assoc]

theorem up_not_mem_fileNames (h : Name.isValid name = true) :
    Path.up ∉ Name.packageSegments name ++ [fileName name] := by
  intro hmem
  rcases List.mem_append.mp hmem with hmem | hmem
  · have hin : Path.up ∈ Name.segments name := by
      rw [Name.segments_eq h]
      exact List.mem_append_left _ hmem
    exact (@Text.mem_of_mem_splitAll _ _ _ hin (CodePoint.ofChar '.') List.mem_cons_self).1 rfl
  · apply fileName_ne_up (Name.simple name)
    rw [Text.join, List.flatten_cons, List.flatten_singleton]
    exact (List.mem_singleton.mp hmem).symm

theorem placeOf_pathOf (hd : d.Sound) (h : Name.isValid name = true) (root : Path) :
    d.placeOf (pathOf root name) =
      d.placeOf root ++ (Name.packageSegments name ++ [fileName name]) := by
  rw [pathOf_eq h, placeOf_eq hd, placeOf_eq hd]
  cases root.anchor with
  | relative | root | doubleRoot =>
    simp only
    rw [Path.settleFrom_append, Path.settleFrom_of_not_mem (up_not_mem_fileNames h)]

theorem pathOf_injective (hd : d.Sound) (h : Name.isValid name = true)
    (hother : Name.isValid other = true)
    (hplace : d.placeOf (pathOf root name) = d.placeOf (pathOf root other)) : name = other := by
  rw [placeOf_pathOf hd h, placeOf_pathOf hd hother] at hplace
  obtain ⟨hpackage, hfile⟩ := List.append_inj' (List.append_cancel_left hplace) rfl
  have hsimple : Name.simple name = Name.simple other :=
    List.append_cancel_right (List.head_eq_of_cons_eq hfile)
  apply Name.eq_of_segments
  rw [Name.segments_eq h, Name.segments_eq hother, hpackage, hsimple]

end Sink

end LookupGen
