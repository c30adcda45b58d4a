import LookupGen.Proofs.Disk.Reopening

/-!
# Below a directory

Paths that go down from a directory that is there. What is in the way of such a path is a file at
one of the places that it passes, and nothing else can be; opening a file puts something at those
places only. So two files stand in nobody's way as long as neither lies at a place that the other
passes.
-/

namespace LookupGen

def Path.below (p : Path) (names : List Text) : Path := ⟨p.anchor, p.names ++ names⟩

namespace Disk

variable {d d' : Disk} {base : Path} {names : List Text} {name : Text}

@[simp] theorem below_nil (base : Path) : base.below [] = base := by
  rw [Path.below, List.append_nil]

@[simp] theorem below_concat (base : Path) (names : List Text) (name : Text) :
    base.below (names ++ [name]) = ⟨base.anchor, base.names ++ names ++ [name]⟩ := by
  rw [Path.below, List.append_assoc]

@[simp] theorem parent_below (base : Path) (names : List Text) (name : Text) :
    (base.below (names ++ [name])).parent = base.below names := by
  rw [below_concat, Path.parent, List.dropLast_concat]
  rfl

theorem ne_up_of_not_mem (hup : Path.up ∉ names ++ [name]) : Path.up ∉ names ∧ name ≠ Path.up := by
  refine ⟨fun h => hup (List.mem_append_left _ h), ?_⟩
  rintro rfl
  exact hup (List.mem_append_right _ (List.mem_singleton_self _))

theorem placeOf_below (hup : Path.up ∉ names) (d : Disk) (base : Path) :
    d.placeOf (base.below names) = d.placeOf base ++ names := by
  induction names using List.reverseRecOn with
  | nil => rw [below_nil, List.append_nil]
  | append_singleton names name ih =>
    obtain ⟨habove, hname⟩ := ne_up_of_not_mem hup
    rw [below_concat, placeOf_append_of_ne hname, ← List.append_assoc]
    exact congrArg (· ++ [name]) (ih habove)

theorem way_below_of_kind (hbase : Made d base) (hup : Path.up ∉ names) {k : Node.Kind}
    (hkind : d.root.kindAt? (d.placeOf base ++ names) = some k) :
    d.way (base.below names) = .ok () := by
  induction names using List.reverseRecOn generalizing k with
  | nil =>
    rw [below_nil]
    exact hbase.1
  | append_singleton names name ih =>
    obtain ⟨habove, -⟩ := ne_up_of_not_mem hup
    rw [← List.append_assoc] at hkind
    have hdir := Node.kindAt?_above hkind
    have hway := ih habove hdir
    rw [← placeOf_below habove] at hdir
    apply way_of_made
    rw [parent_below]
    exact ⟨hway, hdir⟩

theorem obstructed_of_way_append {anchor : Anchor}
    (h : d.way ⟨anchor, names ++ [name]⟩ = .error .notDirectory) :
    Obstructed d ⟨anchor, names⟩ := by
  rw [way_append] at h
  cases hway : d.way ⟨anchor, names⟩ with
  | error fault =>
    rw [hway] at h
    obtain rfl := Except.error.inj h
    exact .inl hway
  | ok u =>
    rw [hway] at h
    cases hkind : d.kindOf? ⟨anchor, names⟩ with
    | none =>
      rw [hkind] at h
      cases h
    | some k =>
      cases k with
      | dir =>
        rw [hkind] at h
        cases h
      | file content => exact .inr ⟨hway, content, hkind⟩

theorem obstructed_below_iff (hbase : Made d base) (hup : Path.up ∉ names) :
    Obstructed d (base.below names) ↔ ∃ passed content, passed <+: names ∧
      d.root.kindAt? (d.placeOf base ++ passed) = some (.file content) := by
  constructor
  · intro h
    induction names using List.reverseRecOn with
    | nil =>
      rw [below_nil] at h
      exact absurd hbase (not_made_of_obstructed h)
    | append_singleton names name ih =>
      obtain ⟨habove, -⟩ := ne_up_of_not_mem hup
      rcases h with hway | ⟨-, content, hkind⟩
      · rw [below_concat] at hway
        have hobstructed : Obstructed d (base.below names) := obstructed_of_way_append hway
        obtain ⟨passed, content, hpassed, hfile⟩ := ih habove hobstructed
        exact ⟨passed, content, hpassed.trans (List.prefix_append names [name]), hfile⟩
      · refine ⟨names ++ [name], content, List.prefix_refl _, ?_⟩
        rw [← placeOf_below hup]
        exact hkind
  · rintro ⟨passed, content, ⟨rest, rfl⟩, hfile⟩
    have hpassed : Path.up ∉ passed := fun h => hup (List.mem_append_left _ h)
    induction rest using List.reverseRecOn with
    | nil =>
      rw [List.append_nil]
      refine .inr ⟨way_below_of_kind hbase hpassed hfile, content, ?_⟩
      rw [kindOf?, placeOf_below hpassed]
      exact hfile
    | append_singleton rest name ih =>
      rw [← List.append_assoc] at hup
      obtain ⟨habove, -⟩ := ne_up_of_not_mem hup
      rw [← List.append_assoc, below_concat]
      exact .inl (@obstructed_append d (base.below (passed ++ rest)) (ih habove) name)

/-- What a disk has beside the places that a path passes. -/
def Beside (place : List Text) (d d' : Disk) : Prop :=
  ∀ names, ¬ names <+: place → d'.root.kindAt? names = d.root.kindAt? names

theorem Beside.refl (place : List Text) (d : Disk) : Beside place d d := fun _ _ => rfl

theorem Beside.trans {d'' : Disk} {place : List Text} (h : Beside place d d')
    (h' : Beside place d' d'') : Beside place d d'' :=
  fun names hnames => (h' names hnames).trans (h names hnames)

theorem Beside.mono {place place' : List Text} (h : Beside place d d') (hle : place <+: place') :
    Beside place' d d' := fun names hnames => h names fun hstarts => hnames (hstarts.trans hle)

theorem beside_put (hd : d.Sound) {p : Path} (hway : d.way p = .ok ())
    (hkind : d.kindOf? p ≠ some .dir) {new : Node} (hnew : Bare new) :
    Beside (d.placeOf p) d (d.put (d.placeOf p) new) := by
  obtain ⟨above, name, hplace, habove⟩ := exists_above_of_way hd hway hkind
  rw [kindOf?, hplace] at hkind
  rw [hplace]
  intro names hnames
  apply kindAt?_put_of_ne habove hkind hnew
  rintro rfl
  exact hnames (List.prefix_refl _)

theorem run_makeDirs_of_free (hd : d.Sound) {p : Path} (hway : d.way p = .ok ())
    (hkind : d.kindOf? p = none) :
    (makeDirs p).run d = (.ok (), d.put (d.placeOf p) .emptyDir) := by
  obtain ⟨anchor, names⟩ := p
  rcases List.eq_nil_or_concat names with rfl | ⟨above, name, rfl⟩
  · rw [kindOf?_nil hd] at hkind
    cases hkind
  · rw [List.concat_eq_append] at hway hkind ⊢
    rw [makeDirs, List.reverse_append, List.reverse_singleton, List.singleton_append,
      run_makeDirsFrom_cons, List.reverse_reverse, run_makeDir_of_free hd hway hkind]

/-- Where a directory on the way is missing the one above is made first. -/
theorem run_makeDirs_of_missing (hd : d.Sound) {anchor : Anchor}
    (hway : d.way ⟨anchor, names ++ [name]⟩ = .error .missing)
    (habove : (makeDirs ⟨anchor, names⟩).run d = (.ok (), d')) (hmade : Made d' ⟨anchor, names⟩)
    (hd' : d'.Sound) (hkind : d'.kindOf? ⟨anchor, names ++ [name]⟩ = none) :
    (makeDirs ⟨anchor, names ++ [name]⟩).run d =
      (.ok (), d'.put (d'.placeOf ⟨anchor, names ++ [name]⟩) .emptyDir) := by
  have hfree : d'.way ⟨anchor, names ++ [name]⟩ = .ok () := by
    apply way_of_made
    rw [Path.parent, List.dropLast_concat]
    exact hmade
  rw [makeDirs] at habove
  rw [makeDirs, List.reverse_append, List.reverse_singleton, List.singleton_append,
    run_makeDirsFrom_cons, List.reverse_reverse, run_makeDir_eq hd, hway]
  simp only [if_true]
  rw [habove]
  simp only
  rw [run_makeDirUnlessThere, run_makeDir_of_free hd' hfree hkind]

/-- What is made above a missing directory does not stand in its place. -/
theorem makeDirs_below_of_missing (hd : d.Sound) (hbase : Made d base)
    (hup : Path.up ∉ names ++ [name])
    (hway : d.way (base.below (names ++ [name])) = .error .missing)
    (habove : (makeDirs (base.below names)).run d = (.ok (), d'))
    (hbeside : Beside (d.placeOf base ++ names) d d') :
    ∃ d'', (makeDirs (base.below (names ++ [name]))).run d = (.ok (), d'') ∧
      Beside (d.placeOf base ++ (names ++ [name])) d d'' := by
  have hplace := placeOf_below hup d base
  have hnone : d.root.kindAt? (d.placeOf base ++ (names ++ [name])) = none := by
    apply Option.eq_none_iff_forall_ne_some.mpr
    intro k hk
    rw [way_below_of_kind hbase hup hk] at hway
    cases hway
  have hmade := madeOr_makeDirs hd (base.below names)
  rw [habove] at hmade
  cases hmade with
  | made hgrows hmade =>
    have hd' := hgrows.sound hd
    have hkind : d'.kindOf? (base.below (names ++ [name])) = none := by
      rw [kindOf?, hgrows.placeOf_eq, hplace, hbeside _ ?_, hnone]
      intro hstarts
      have hlength := hstarts.length_le
      rw [List.length_append, List.length_append, List.length_append,
        List.length_singleton] at hlength
      omega
    have hfree : d'.way (base.below (names ++ [name])) = .ok () := by
      apply way_of_made
      rw [parent_below]
      exact hmade
    have hdir : d'.kindOf? (base.below (names ++ [name])) ≠ some .dir := by
      rw [hkind]
      exact (Option.some_ne_none _).symm
    have hput := beside_put hd' hfree hdir bare_emptyDir
    rw [hgrows.placeOf_eq, hplace] at hput
    refine ⟨_, ?_, (hbeside.mono ?_).trans hput⟩
    · rw [← hplace, ← hgrows.placeOf_eq]
      rw [below_concat] at hway hkind ⊢
      exact run_makeDirs_of_missing hd hway habove hmade hd' hkind
    · rw [← List.append_assoc]
      exact List.prefix_append _ _

theorem makeDirs_below (hd : d.Sound) (hbase : Made d base) (hup : Path.up ∉ names)
    (hclear : ¬ Obstructed d (base.below names)) :
    ∃ d', (makeDirs (base.below names)).run d = (.ok (), d') ∧
      Beside (d.placeOf base ++ names) d d' := by
  induction names using List.reverseRecOn with
  | nil =>
    rw [below_nil, run_makeDirs_of_made hd hbase]
    exact ⟨d, rfl, .refl _ d⟩
  | append_singleton names name ih =>
    obtain ⟨habove, -⟩ := ne_up_of_not_mem hup
    cases hway : d.way (base.below (names ++ [name])) with
    | ok u =>
      cases hkind : d.kindOf? (base.below (names ++ [name])) with
      | some k =>
        cases k with
        | file content => exact absurd (.inr ⟨hway, content, hkind⟩) hclear
        | dir =>
          rw [run_makeDirs_of_made hd ⟨hway, hkind⟩]
          exact ⟨d, rfl, .refl _ d⟩
      | none =>
        have hdir : d.kindOf? (base.below (names ++ [name])) ≠ some .dir := by
          rw [hkind]
          exact (Option.some_ne_none _).symm
        rw [run_makeDirs_of_free hd hway hkind, ← placeOf_below hup d base]
        exact ⟨_, rfl, beside_put hd hway hdir bare_emptyDir⟩
    | error fault =>
      have hclear' : ¬ Obstructed d (base.below names) := by
        intro h
        rw [below_concat] at hclear
        exact hclear (.inl (@obstructed_append d (base.below names) h name))
      rcases way_error hway with rfl | rfl
      · exact absurd (.inl hway) hclear
      · obtain ⟨d₁, hrun, hbeside⟩ := ih habove hclear'
        exact makeDirs_below_of_missing hd hbase hup hway hrun hbeside

/-- Nothing is in the way of a file: no file where directories are needed, and no directory in its
own place. -/
structure Clear (d : Disk) (base : Path) (names : List Text) (name : Text) : Prop where
  passed : ∀ passed content, passed <+: names →
    d.root.kindAt? (d.placeOf base ++ passed) ≠ some (.file content)
  place : d.root.kindAt? (d.placeOf base ++ (names ++ [name])) ≠ some .dir

variable {content : Bytes → Bytes}

theorem Clear.not_obstructed (h : Clear d base names name) (hbase : Made d base)
    (hup : Path.up ∉ names) : ¬ Obstructed d (base.below names) := by
  intro hobstructed
  obtain ⟨passed, content, hpassed, hfile⟩ := (obstructed_below_iff hbase hup).mp hobstructed
  exact h.passed passed content hpassed hfile

theorem clear_of_openWith (hd : d.Sound) (hbase : Made d base) (hup : Path.up ∉ names ++ [name])
    (hrun : (openWith content (base.below (names ++ [name]))).run d = (.ok (), d')) :
    Clear d base names name := by
  obtain ⟨habove, -⟩ := ne_up_of_not_mem hup
  have hopen := openOr_openWith hd content (base.below (names ++ [name]))
  rw [hrun] at hopen
  cases hopen with
  | opened hgrows hmade hkind =>
    constructor
    · intro passed content hpassed hfile
      have hobstructed := (obstructed_below_iff hbase habove).mpr ⟨passed, content, hpassed, hfile⟩
      rw [parent_below] at hmade
      exact not_made_of_obstructed (hgrows.obstructed hobstructed) hmade
    · intro hdir
      have hdir' := hgrows.dir_of_dir hdir
      rw [kindOf?, hgrows.placeOf_eq, placeOf_below hup, hdir'] at hkind
      cases hkind

theorem openWith_of_clear (hd : d.Sound) (hbase : Made d base) (hup : Path.up ∉ names ++ [name])
    (hclear : Clear d base names name) (content : Bytes → Bytes) :
    ∃ d', (openWith content (base.below (names ++ [name]))).run d = (.ok (), d') ∧
      Beside (d.placeOf (base.below (names ++ [name]))) d d' := by
  obtain ⟨habove, -⟩ := ne_up_of_not_mem hup
  have hplace := placeOf_below hup d base
  obtain ⟨d₁, hrun, hbeside⟩ := makeDirs_below hd hbase habove (hclear.not_obstructed hbase habove)
  have hmade := madeOr_makeDirs hd (base.below names)
  rw [hrun] at hmade
  cases hmade with
  | made hgrows hmade =>
    have hd₁ := hgrows.sound hd
    have hway : d₁.way (base.below (names ++ [name])) = .ok () := by
      apply way_of_made
      rw [parent_below]
      exact hmade
    have hdir : d₁.kindOf? (base.below (names ++ [name])) ≠ some .dir := by
      rw [kindOf?, hgrows.placeOf_eq, hplace, hbeside _ ?_]
      · exact hclear.place
      · intro hstarts
        have hlength := hstarts.length_le
        rw [List.length_append, List.length_append, List.length_append,
          List.length_singleton] at hlength
        omega
    have hput := @beside_put d₁ hd₁ _ hway hdir
    rw [run_openWith, parent_below, hrun]
    simp only
    rw [run_target_of_not_dir hd₁ hway hdir]
    refine ⟨_, rfl, (hbeside.mono ?_).trans ?_⟩
    · rw [hplace, ← List.append_assoc]
      exact List.prefix_append _ _
    · rw [← hgrows.placeOf_eq]
      exact hput (bare_file _)

/-- What is clear stays so when a file is put that lies at no place on its way and has its own place
not on the way. -/
theorem Clear.beside {place : List Text} (h : Clear d base names name)
    (hgrows : Grows (· = place) d d') (hbeside : Beside place d d')
    (hpassed : ¬ place <+: d.placeOf base ++ names)
    (hplace : ¬ d.placeOf base ++ (names ++ [name]) <+: place) : Clear d' base names name := by
  constructor
  · intro passed content hstarts hfile
    rw [hgrows.placeOf_eq] at hfile
    have hne : d.placeOf base ++ passed ≠ place := by
      rintro rfl
      exact hpassed (List.prefix_append_right_inj _ |>.mpr hstarts)
    have hkept := hgrows.keeps.files _ hne
    rw [contentAt?, hfile, contentAt?] at hkept
    cases hkind : d.root.kindAt? (d.placeOf base ++ passed) with
    | none =>
      rw [hkind] at hkept
      cases hkept
    | some k =>
      cases k with
      | dir =>
        rw [hkind] at hkept
        cases hkept
      | file old => exact h.passed passed old hstarts hkind
  · rw [hgrows.placeOf_eq, hbeside _ hplace]
    exact h.place

theorem beside_append (hd : d.Sound) (p : Path) (content : Bytes) :
    Beside (d.placeOf p) d ((append p content).run d).2 := by
  unfold append
  rw [exceptT_run_bind]
  cases hway : d.way p with
  | error fault =>
    rw [run_target_way hd, hway]
    exact .refl _ d
  | ok u =>
    by_cases hkind : d.kindOf? p = some .dir
    · rw [run_target_way hd, hway, hkind]
      exact .refl _ d
    · have hput :=
        beside_put hd hway hkind (bare_file ((d.contentAt? (d.placeOf p)).getD [] ++ content))
      rw [run_target_of_not_dir hd hway hkind]
      exact hput

end Disk

end LookupGen
