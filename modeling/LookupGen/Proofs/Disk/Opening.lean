import LookupGen.Proofs.Disk.Growth

/-!
# Opening files

A file is opened after the directories above it are made. Where that fails something is in the way,
and it stays there: every later attempt fails too. Where it succeeds, every later attempt does.
-/

namespace LookupGen

namespace Disk

variable {files : List Text → Prop} {d d' : Disk} {p : Path} {anchor : Anchor}
  {names : List Text} {name : Text}

theorem exists_above_of_way (hd : d.Sound) (hway : d.way p = .ok ())
    (hkind : d.kindOf? p ≠ some .dir) :
    ∃ above name, d.placeOf p = above ++ [name] ∧ d.root.kindAt? above = some .dir := by
  have hlocate : d.locate p = .ok (d.placeAt (d.placeOf p)) := by
    rw [locate_eq hd, hway]
    rfl
  have hstands := stands_locate hd hlocate
  generalize hplace : d.placeOf p = place at hstands
  generalize hat : d.placeAt place = found at hstands
  cases hstands with
  | @free above name habove _ => exact ⟨above, name, rfl, habove⟩
  | @taken _ node hnode =>
    cases node with
    | file content => exact exists_above hd hnode
    | dir entries =>
      exfalso
      apply hkind
      rw [kindOf?, hplace, Node.kindAt?_of_at? hnode]
      rfl

theorem grows_put_dir (hd : d.Sound) (hway : d.way p = .ok ()) (hkind : d.kindOf? p = none) :
    Grows files d (d.put (d.placeOf p) .emptyDir) := by
  have hdir : d.kindOf? p ≠ some .dir := by
    rw [hkind]
    exact (Option.some_ne_none _).symm
  obtain ⟨above, name, hplace, habove⟩ := exists_above_of_way hd hway hdir
  rw [kindOf?, hplace] at hkind
  rw [hplace]
  exact .dir .refl habove hkind

theorem grows_put_file (hd : d.Sound) (hway : d.way p = .ok ()) (hkind : d.kindOf? p ≠ some .dir)
    (hfile : files (d.placeOf p)) (content : Bytes) :
    Grows files d (d.put (d.placeOf p) (.file content)) := by
  obtain ⟨above, name, hplace, habove⟩ := exists_above_of_way hd hway hkind
  rw [kindOf?, hplace] at hkind
  rw [hplace] at hfile ⊢
  exact .file .refl habove hkind hfile content

theorem kindOf?_put (hd : d.Sound) (hway : d.way p = .ok ()) (hkind : d.kindOf? p ≠ some .dir)
    (new : Node) : (d.put (d.placeOf p) new).kindOf? p = some new.kind := by
  obtain ⟨above, name, hplace, habove⟩ := exists_above_of_way hd hway hkind
  have hself := kindAt?_put_self habove name new
  rw [← hplace] at hself
  exact hself

theorem isDir_iff (hd : d.Sound) (p : Path) : d.isDir p = true ↔ Made d p := by
  unfold isDir Made kindOf?
  rw [node?_eq hd]
  cases d.way p with
  | error fault => simp
  | ok u =>
    simp only [Node.kindAt?, true_and]
    cases d.root.at? (d.placeOf p) with
    | none => simp
    | some node => cases node <;> simp [Node.isDir, Node.kind]

theorem run_makeDirUnlessThere (p : Path) (d : Disk) :
    (makeDirsFrom.makeDirUnlessThere p).run d = match (makeDir p).run d with
      | (.ok (), d') => (.ok (), d')
      | (.error e, d') =>
        if e.fault ≠ .missing ∧ d'.isDir p = true then (.ok (), d') else (.error e, d') := by
  unfold makeDirsFrom.makeDirUnlessThere
  rw [exceptT_run_tryCatch]
  rcases (makeDir p).run d with ⟨e | u, d'⟩
  · have hget : (get : DiskM Disk).run d' = (.ok d', d') := rfl
    simp only
    rw [exceptT_run_bind, hget]
    simp only
    split
    · rfl
    · rfl
  · rfl

theorem run_makeDirsFrom_cons (anchor : Anchor) (name : Text) (above : List Text) (d : Disk) :
    (makeDirsFrom anchor (name :: above)).run d =
      match (makeDir ⟨anchor, above.reverse ++ [name]⟩).run d with
      | (.ok (), d') => (.ok (), d')
      | (.error e, d') =>
        if e.fault = .missing then
          match (makeDirsFrom anchor above).run d' with
          | (.ok (), d'') =>
            (makeDirsFrom.makeDirUnlessThere ⟨anchor, above.reverse ++ [name]⟩).run d''
          | (.error e', d'') => (.error e', d'')
        else if d'.isDir ⟨anchor, above.reverse ++ [name]⟩ = true then (.ok (), d')
        else (.error e, d') := by
  rw [makeDirsFrom, List.reverse_cons, exceptT_run_tryCatch]
  rcases (makeDir ⟨anchor, above.reverse ++ [name]⟩).run d with ⟨e | u, d'⟩
  · simp only
    split
    · rw [exceptT_run_bind]
      rcases (makeDirsFrom anchor above).run d' with ⟨e' | u, d''⟩
      · rfl
      · rfl
    · have hget : (get : DiskM Disk).run d' = (.ok d', d') := rfl
      rw [exceptT_run_bind, hget]
      simp only
      split
      · rfl
      · rfl
  · rfl

/-- What making directories comes to: the directory is there, or something is in the way. -/
inductive MadeOr (d : Disk) (p : Path) : Except DiskError Unit × Disk → Prop where
  | made {d' : Disk} (hgrows : Grows (fun _ => False) d d') (hmade : Made d' p) :
      MadeOr d p (.ok (), d')
  | obstructed {d' : Disk} (e : DiskError) (hgrows : Grows (fun _ => False) d d')
      (hobstructed : Obstructed d' p) : MadeOr d p (.error e, d')

theorem made_put (hd : d.Sound) (hway : d.way p = .ok ()) (hkind : d.kindOf? p = none) :
    Made (d.put (d.placeOf p) .emptyDir) p := by
  have hgrows : Grows (fun _ => False) d (d.put (d.placeOf p) .emptyDir) :=
    grows_put_dir hd hway hkind
  refine ⟨hgrows.way_ok hway, ?_⟩
  apply kindOf?_put hd hway
  rw [hkind]
  exact (Option.some_ne_none _).symm

theorem run_makeDir_of_free (hd : d.Sound) (hway : d.way p = .ok ()) (hkind : d.kindOf? p = none) :
    (makeDir p).run d = (.ok (), d.put (d.placeOf p) .emptyDir) := by
  rw [run_makeDir_eq hd, hway, hkind]

theorem run_makeDir_of_made (hd : d.Sound) (h : Made d p) :
    (makeDir p).run d = (.error ⟨.exists, p.toText⟩, d) := by
  rw [run_makeDir_eq hd, h.1, h.2]

theorem not_made_of_obstructed (h : Obstructed d p) : ¬ Made d p := by
  rintro ⟨hway, hdir⟩
  rcases h with h | ⟨-, content, hfile⟩
  · rw [hway] at h
    cases h
  · rw [hdir] at hfile
    cases hfile

def obstruction (d : Disk) (p : Path) : DiskError :=
  match d.way p with
  | .error fault => ⟨fault, p.toText⟩
  | .ok () => ⟨.exists, p.toText⟩

theorem run_makeDir_of_obstructed (hd : d.Sound) (h : Obstructed d p) :
    (makeDir p).run d = (.error (d.obstruction p), d) ∧ (d.obstruction p).fault ≠ .missing := by
  unfold obstruction
  rw [run_makeDir_eq hd]
  rcases h with h | ⟨h, content, hfile⟩
  · rw [h]
    exact ⟨rfl, by simp⟩
  · rw [h, hfile]
    exact ⟨rfl, by simp⟩

theorem run_makeDirs_of_obstructed (hd : d.Sound) (h : Obstructed d p) :
    (makeDirs p).run d = (.error (d.obstruction p), d) := by
  obtain ⟨hrun, hfault⟩ := run_makeDir_of_obstructed hd h
  have hdir : ¬ d.isDir p = true := fun hdir => not_made_of_obstructed h ((isDir_iff hd p).mp hdir)
  obtain ⟨anchor, names⟩ := p
  unfold makeDirs
  simp only
  rcases List.eq_nil_or_concat names with rfl | ⟨above, name, rfl⟩
  · rw [List.reverse_nil, makeDirsFrom, run_makeDirUnlessThere, hrun]
    simp only
    rw [if_neg fun hboth => hdir hboth.2]
  · rw [List.concat_eq_append] at hrun hdir hfault ⊢
    rw [List.reverse_append, List.reverse_singleton, List.singleton_append, run_makeDirsFrom_cons,
      List.reverse_reverse, hrun]
    simp only
    rw [if_neg hfault, if_neg hdir]

theorem run_makeDirs_of_made (hd : d.Sound) (h : Made d p) : (makeDirs p).run d = (.ok (), d) := by
  have hrun := run_makeDir_of_made hd h
  have hdir := (isDir_iff hd p).mpr h
  obtain ⟨anchor, names⟩ := p
  unfold makeDirs
  simp only
  rcases List.eq_nil_or_concat names with rfl | ⟨above, name, rfl⟩
  · rw [List.reverse_nil, makeDirsFrom, run_makeDirUnlessThere, hrun]
    simp only
    rw [if_pos ⟨by simp, hdir⟩]
  · rw [List.concat_eq_append] at hrun hdir ⊢
    rw [List.reverse_append, List.reverse_singleton, List.singleton_append, run_makeDirsFrom_cons,
      List.reverse_reverse, hrun]
    simp only
    rw [if_neg (by simp), if_pos hdir]

theorem madeOr_makeDirUnlessThere (hd : d.Sound) (hway : d.way p = .ok ()) :
    MadeOr d p ((makeDirsFrom.makeDirUnlessThere p).run d) := by
  rw [run_makeDirUnlessThere]
  cases hkind : d.kindOf? p with
  | none =>
    rw [run_makeDir_of_free hd hway hkind]
    exact .made (grows_put_dir hd hway hkind) (made_put hd hway hkind)
  | some k =>
    cases k with
    | dir =>
      have hmade : Made d p := ⟨hway, hkind⟩
      rw [run_makeDir_of_made hd hmade]
      simp only
      rw [if_pos ⟨by simp, (isDir_iff hd p).mpr hmade⟩]
      exact .made .refl hmade
    | file content =>
      have hobstructed : Obstructed d p := .inr ⟨hway, content, hkind⟩
      rw [(run_makeDir_of_obstructed hd hobstructed).1]
      simp only
      rw [if_neg fun h => not_made_of_obstructed hobstructed ((isDir_iff hd p).mp h.2)]
      exact .obstructed _ .refl hobstructed

theorem MadeOr.after {result : Except DiskError Unit × Disk} (hgrows : Grows (fun _ => False) d d')
    (h : MadeOr d' p result) : MadeOr d p result := by
  cases h with
  | made hlater hmade => exact .made (hgrows.trans hlater) hmade
  | obstructed e hlater hobstructed => exact .obstructed e (hgrows.trans hlater) hobstructed

theorem way_error {fault : DiskFault} (h : d.way p = .error fault) :
    fault = .notDirectory ∨ fault = .missing := by
  obtain ⟨anchor, names⟩ := p
  induction names using List.reverseRecOn with
  | nil => cases h
  | append_singleton names name ih =>
    rw [way_append] at h
    cases habove : d.way ⟨anchor, names⟩ with
    | error fault' =>
      rw [habove] at h
      obtain rfl := Except.error.inj h
      exact ih habove
    | ok u =>
      rw [habove] at h
      cases hkind : d.kindOf? ⟨anchor, names⟩ with
      | none =>
        rw [hkind] at h
        obtain rfl := Except.error.inj h
        exact .inr rfl
      | some k =>
        rw [hkind] at h
        cases k with
        | dir => cases h
        | file content =>
          obtain rfl := Except.error.inj h
          exact .inl rfl

theorem madeOr_makeDirsFrom (hd : d.Sound) (anchor : Anchor) (names : List Text) :
    MadeOr d ⟨anchor, names.reverse⟩ ((makeDirsFrom anchor names).run d) := by
  induction names with
  | nil => exact madeOr_makeDirUnlessThere hd (way_nil d anchor)
  | cons name above ih =>
    have hself : (makeDirs ⟨anchor, above.reverse ++ [name]⟩).run d =
        (makeDirsFrom anchor (name :: above)).run d := by
      rw [makeDirs, List.reverse_append, List.reverse_reverse, List.reverse_singleton,
        List.singleton_append]
    have hobstructed (h : Obstructed d ⟨anchor, above.reverse ++ [name]⟩) :
        MadeOr d ⟨anchor, above.reverse ++ [name]⟩
          ((makeDirsFrom anchor (name :: above)).run d) := by
      rw [← hself, run_makeDirs_of_obstructed hd h]
      exact .obstructed _ .refl h
    rw [List.reverse_cons]
    cases hway : d.way ⟨anchor, above.reverse ++ [name]⟩ with
    | error fault =>
      rcases way_error hway with rfl | rfl
      · exact hobstructed (.inl hway)
      · rw [run_makeDirsFrom_cons, run_makeDir_eq hd, hway]
        simp only [if_true]
        generalize (makeDirsFrom anchor above).run d = result at ih
        cases ih with
        | obstructed e hgrows h =>
          exact .obstructed e hgrows (.inl (@obstructed_append _ ⟨anchor, above.reverse⟩ h name))
        | made hgrows h =>
          apply MadeOr.after hgrows
          apply madeOr_makeDirUnlessThere (hgrows.sound hd)
          rw [way_append, h.1]
          simp only
          rw [h.2]
    | ok u =>
      cases hkind : d.kindOf? ⟨anchor, above.reverse ++ [name]⟩ with
      | none =>
        rw [run_makeDirsFrom_cons, run_makeDir_of_free hd hway hkind]
        exact .made (grows_put_dir hd hway hkind) (made_put hd hway hkind)
      | some k =>
        cases k with
        | file content => exact hobstructed (.inr ⟨hway, content, hkind⟩)
        | dir =>
          rw [← hself, run_makeDirs_of_made hd ⟨hway, hkind⟩]
          exact .made .refl ⟨hway, hkind⟩

theorem madeOr_makeDirs (hd : d.Sound) (p : Path) : MadeOr d p ((makeDirs p).run d) := by
  have h := madeOr_makeDirsFrom hd p.anchor p.names.reverse
  rw [List.reverse_reverse] at h
  exact h

def openWith (content : Bytes → Bytes) (p : Path) : DiskM Unit := do
  makeDirs p.parent
  let (names, old) ← target p
  modify (·.put names (.file (content old)))

theorem run_openWith (content : Bytes → Bytes) (p : Path) (d : Disk) :
    (openWith content p).run d = match (makeDirs p.parent).run d with
      | (.error e, d') => (.error e, d')
      | (.ok (), d') => match (target p).run d' with
        | (.error e, d'') => (.error e, d'')
        | (.ok (names, old), d'') => (.ok (), d''.put names (.file (content old))) := by
  unfold openWith
  rw [exceptT_run_bind]
  rcases (makeDirs p.parent).run d with ⟨e | u, d'⟩
  · rfl
  · simp only
    rw [exceptT_run_bind]
    rcases (target p).run d' with ⟨e | ⟨names, old⟩, d''⟩
    · rfl
    · rfl

theorem way_of_made (h : Made d p.parent) : d.way p = .ok () := by
  obtain ⟨anchor, names⟩ := p
  rcases List.eq_nil_or_concat names with rfl | ⟨above, name, rfl⟩
  · rfl
  · rw [List.concat_eq_append]
    rw [List.concat_eq_append, Path.parent, List.dropLast_concat] at h
    rw [way_append, h.1]
    simp only
    rw [h.2]

/-- What opening a file comes to: the file is there and its directory as well, or something is in
the way, the directory that should be its own place included. -/
inductive OpenOr (content : Bytes → Bytes) (d : Disk) (p : Path) :
    Except DiskError Unit × Disk → Prop where
  | opened {d' : Disk} (hgrows : Grows (· = d.placeOf p) d d') (hmade : Made d' p.parent)
      (hkind : d'.kindOf? p = some (.file (content ((d.contentAt? (d.placeOf p)).getD [])))) :
      OpenOr content d p (.ok (), d')
  | obstructed {d' : Disk} (e : DiskError) (hgrows : Grows (fun _ => False) d d')
      (hobstructed : Obstructed d' p.parent) : OpenOr content d p (.error e, d')
  | directory {d' : Disk} (hgrows : Grows (fun _ => False) d d') (hmade : Made d' p.parent)
      (hkind : d'.kindOf? p = some .dir) :
      OpenOr content d p (.error ⟨.isDirectory, p.toText⟩, d')

theorem run_target_of_not_dir (hd : d.Sound) (hway : d.way p = .ok ())
    (hkind : d.kindOf? p ≠ some .dir) :
    (target p).run d = (.ok (d.placeOf p, (d.contentAt? (d.placeOf p)).getD []), d) := by
  rw [run_target_way hd, hway, contentAt?]
  change d.root.kindAt? (d.placeOf p) ≠ some .dir at hkind
  unfold kindOf?
  cases hat : d.root.kindAt? (d.placeOf p) with
  | none => rfl
  | some k =>
    cases k with
    | dir => exact absurd hat hkind
    | file content => rfl

theorem openOr_openWith (hd : d.Sound) (content : Bytes → Bytes) (p : Path) :
    OpenOr content d p ((openWith content p).run d) := by
  have hdirs := madeOr_makeDirs hd p.parent
  rw [run_openWith]
  generalize (makeDirs p.parent).run d = result at hdirs
  cases hdirs with
  | obstructed e hgrows h => exact .obstructed e hgrows h
  | @made d' hgrows hmade =>
    have hd' := hgrows.sound hd
    have hway := way_of_made hmade
    have hplace := hgrows.placeOf_eq p
    have hold : d'.contentAt? (d.placeOf p) = d.contentAt? (d.placeOf p) := hgrows.keeps.files _ id
    by_cases hkind : d'.kindOf? p = some .dir
    · have htarget : (target p).run d' = (.error ⟨.isDirectory, p.toText⟩, d') := by
        rw [run_target_way hd', hway, hkind]
      simp only
      rw [htarget]
      exact .directory hgrows hmade hkind
    · have hput : Grows (· = d.placeOf p) d' (d'.put (d'.placeOf p)
          (.file (content ((d'.contentAt? (d'.placeOf p)).getD [])))) :=
        grows_put_file hd' hway hkind hplace _
      simp only
      rw [run_target_of_not_dir hd' hway hkind]
      apply OpenOr.opened
      · exact (hgrows.mono fun _ h => h.elim).trans hput
      · exact hput.made hmade
      · rw [kindOf?_put hd' hway hkind, hplace, hold]
        rfl

theorem grows_openWith (hd : d.Sound) (content : Bytes → Bytes) (p : Path) :
    Grows (· = d.placeOf p) d ((openWith content p).run d).2 := by
  have hopen := openOr_openWith hd content p
  generalize (openWith content p).run d = result at hopen
  cases hopen with
  | opened hgrows _ _ => exact hgrows
  | obstructed e hgrows _ => exact hgrows.mono fun _ h => h.elim
  | directory hgrows _ _ => exact hgrows.mono fun _ h => h.elim

theorem grows_append (hd : d.Sound) (p : Path) (content : Bytes) :
    Grows (· = d.placeOf p) d ((append p content).run d).2 := by
  unfold append
  rw [exceptT_run_bind]
  cases hway : d.way p with
  | error fault =>
    rw [run_target_way hd, hway]
    exact .refl
  | ok u =>
    by_cases hkind : d.kindOf? p = some .dir
    · rw [run_target_way hd, hway, hkind]
      exact .refl
    · have hput : Grows (· = d.placeOf p) d (d.put (d.placeOf p)
          (.file ((d.contentAt? (d.placeOf p)).getD [] ++ content))) :=
        @grows_put_file (· = d.placeOf p) d p hd hway hkind rfl _
      rw [run_target_of_not_dir hd hway hkind]
      exact hput

end Disk

end LookupGen
