import LookupGen.Proofs.Disk.Way

/-!
# Disks that grow

Directories and files are put on a disk one after another; nothing is taken away, and what is a
directory or a file stays one. So what is in the way of a path stays in its way, and a directory or
file that was made once is found again.

This module does NOT say what is in the files; that is a matter of frames.
-/

namespace LookupGen

namespace Disk

/-- From one disk to another directories and files are put, each into a directory: a directory where
nothing stands, and a file, at one of some places, where no directory stands. -/
inductive Grows (files : List Text → Prop) (d : Disk) : Disk → Prop where
  | refl : Grows files d d
  | dir {d' : Disk} {above : List Text} {name : Text} (h : Grows files d d')
      (habove : d'.root.kindAt? above = some .dir)
      (hfree : d'.root.kindAt? (above ++ [name]) = none) :
      Grows files d (d'.put (above ++ [name]) .emptyDir)
  | file {d' : Disk} {above : List Text} {name : Text} (h : Grows files d d')
      (habove : d'.root.kindAt? above = some .dir)
      (hplace : d'.root.kindAt? (above ++ [name]) ≠ some .dir) (hfile : files (above ++ [name]))
      (content : Bytes) : Grows files d (d'.put (above ++ [name]) (.file content))

variable {files files' : List Text → Prop} {d d' d'' : Disk} {p : Path} {names : List Text}

theorem Grows.trans (h : Grows files d d') (h' : Grows files d' d'') : Grows files d d'' := by
  induction h' with
  | refl => exact h
  | dir _ habove hfree ih => exact .dir ih habove hfree
  | file _ habove hplace hfile content ih => exact .file ih habove hplace hfile content

theorem Grows.mono (h : Grows files d d') (hle : ∀ names, files names → files' names) :
    Grows files' d d' := by
  induction h with
  | refl => exact .refl
  | dir _ habove hfree ih => exact .dir ih habove hfree
  | file _ habove hplace hfile content ih => exact .file ih habove hplace (hle _ hfile) content

theorem Grows.keeps (h : Grows files d d') : Keeps files d d' := by
  induction h with
  | refl => exact .refl _ _
  | @dir d' above name _ habove hfree ih =>
    have hplace : d'.root.kindAt? (above ++ [name]) ≠ some .dir := by
      rw [hfree]
      exact (Option.some_ne_none _).symm
    have hput := keeps_put habove hplace bare_emptyDir
    refine ⟨hput.current.trans ih.current, fun names h => hput.dirs names (ih.dirs names h), ?_⟩
    intro names hnames
    rw [← ih.files names hnames]
    by_cases hself : names = above ++ [name]
    · subst hself
      exact (contentAt?_of_dir (kindAt?_put_self habove name .emptyDir)).trans
        (contentAt?_of_none hfree).symm
    · exact hput.files names hself
  | file _ habove hplace hfile content ih =>
    apply ih.trans
    apply (keeps_put habove hplace (bare_file content)).mono
    rintro names rfl
    exact hfile

theorem Grows.sound (h : Grows files d d') (hd : d.Sound) : d'.Sound := h.keeps.sound hd

theorem Grows.placeOf_eq (h : Grows files d d') (p : Path) : d'.placeOf p = d.placeOf p :=
  h.keeps.placeOf_eq p

theorem Grows.dir_of_dir (h : Grows files d d') (hdir : d.root.kindAt? names = some .dir) :
    d'.root.kindAt? names = some .dir := h.keeps.dirs names hdir

theorem Grows.file_of_file (h : Grows files d d')
    (hfile : ∃ content, d.root.kindAt? names = some (.file content)) :
    ∃ content, d'.root.kindAt? names = some (.file content) := by
  induction h with
  | refl => exact hfile
  | @dir d' above name _ habove hfree ih =>
    obtain ⟨content, hcontent⟩ := ih
    have hne : names ≠ above ++ [name] := by
      rintro rfl
      rw [hfree] at hcontent
      cases hcontent
    have hplace : d'.root.kindAt? (above ++ [name]) ≠ some .dir := by
      rw [hfree]
      exact (Option.some_ne_none _).symm
    exact ⟨content, (kindAt?_put_of_ne habove hplace bare_emptyDir hne).trans hcontent⟩
  | @file d' above name _ habove hplace _ content' ih =>
    obtain ⟨content, hcontent⟩ := ih
    by_cases hself : names = above ++ [name]
    · subst hself
      exact ⟨content', kindAt?_put_self habove name (.file content')⟩
    · exact ⟨content, (kindAt?_put_of_ne habove hplace (bare_file content') hself).trans hcontent⟩

def Made (d : Disk) (p : Path) : Prop := d.way p = .ok () ∧ d.kindOf? p = some .dir

/-- A file stands at the place of a path or on the way there. -/
def Obstructed (d : Disk) (p : Path) : Prop :=
  d.way p = .error .notDirectory ∨
    (d.way p = .ok () ∧ ∃ content, d.kindOf? p = some (.file content))

theorem Grows.way_ok (h : Grows files d d') (hway : d.way p = .ok ()) : d'.way p = .ok () := by
  obtain ⟨anchor, names⟩ := p
  induction names using List.reverseRecOn with
  | nil => rfl
  | append_singleton names name ih =>
    rw [way_append] at hway ⊢
    cases habove : d.way ⟨anchor, names⟩ with
    | error fault =>
      rw [habove] at hway
      cases hway
    | ok u =>
      rw [habove] at hway
      rw [ih habove]
      unfold kindOf? at hway ⊢
      rw [h.placeOf_eq]
      cases hkind : d.root.kindAt? (d.placeOf ⟨anchor, names⟩) with
      | none =>
        rw [hkind] at hway
        cases hway
      | some k =>
        cases k with
        | file content =>
          rw [hkind] at hway
          cases hway
        | dir => rw [h.dir_of_dir hkind]

theorem Grows.made (h : Grows files d d') (hmade : Made d p) : Made d' p := by
  refine ⟨h.way_ok hmade.1, ?_⟩
  unfold kindOf?
  rw [h.placeOf_eq]
  exact h.dir_of_dir hmade.2

theorem Grows.kindOf_file (h : Grows files d d')
    (hfile : ∃ content, d.kindOf? p = some (.file content)) :
    ∃ content, d'.kindOf? p = some (.file content) := by
  unfold kindOf?
  rw [h.placeOf_eq]
  exact h.file_of_file hfile

theorem obstructed_append (h : Obstructed d ⟨p.anchor, p.names⟩) (name : Text) :
    d.way ⟨p.anchor, p.names ++ [name]⟩ = .error .notDirectory := by
  rw [way_append]
  rcases h with h | ⟨h, content, hcontent⟩
  · rw [h]
  · rw [h]
    simp only
    rw [hcontent]

theorem Grows.way_notDirectory (h : Grows files d d') (hway : d.way p = .error .notDirectory) :
    d'.way p = .error .notDirectory := by
  obtain ⟨anchor, names⟩ := p
  induction names using List.reverseRecOn with
  | nil => cases hway
  | append_singleton names name ih =>
    apply @obstructed_append d' ⟨anchor, names⟩
    rw [way_append] at hway
    cases habove : d.way ⟨anchor, names⟩ with
    | error fault =>
      rw [habove] at hway
      obtain rfl := Except.error.inj hway
      exact .inl (ih habove)
    | ok u =>
      rw [habove] at hway
      refine .inr ⟨h.way_ok habove, h.kindOf_file ?_⟩
      cases hkind : d.kindOf? ⟨anchor, names⟩ with
      | none =>
        rw [hkind] at hway
        cases hway
      | some k =>
        cases k with
        | dir =>
          rw [hkind] at hway
          cases hway
        | file content => exact ⟨content, rfl⟩

theorem Grows.obstructed (h : Grows files d d') (hobstructed : Obstructed d p) :
    Obstructed d' p := by
  rcases hobstructed with hway | ⟨hway, hfile⟩
  · exact .inl (h.way_notDirectory hway)
  · exact .inr ⟨h.way_ok hway, h.kindOf_file hfile⟩

end Disk

end LookupGen
