import LookupGen.Proofs.Disk.Opening

/-!
# Opening files again

What came of opening a file comes of it again on a disk that has grown since: a file that could be
opened can be opened, and what was in the way still is. Where the path does not go up, the failure
is even the same one, since nothing is made before it is met.
-/

namespace LookupGen

namespace Disk

variable {files : List Text → Prop} {d d' d₁ : Disk} {p : Path} {anchor : Anchor}
  {names : List Text} {name : Text} {content content' : Bytes → Bytes} {e : DiskError}

theorem run_openWith_again (hd : d.Sound) (hrun : (openWith content p).run d = (.ok (), d₁))
    (hlater : Grows files d₁ d') (content' : Bytes → Bytes) :
    ((openWith content' p).run d').1 = .ok () := by
  have hopen := openOr_openWith hd content p
  rw [hrun] at hopen
  cases hopen with
  | opened hgrows hmade hkind =>
    have hd' := hlater.sound (hgrows.sound hd)
    have hmade' := hlater.made hmade
    have hfile : d'.kindOf? p ≠ some .dir := by
      obtain ⟨content, hcontent⟩ := hlater.kindOf_file ⟨_, hkind⟩
      rw [hcontent]
      intro h
      cases h
    rw [run_openWith, run_makeDirs_of_made hd' hmade']
    simp only
    rw [run_target_of_not_dir hd' (way_of_made hmade') hfile]

theorem run_openWith_error (hd : d.Sound) (hrun : (openWith content p).run d = (.error e, d₁))
    (hlater : Grows files d₁ d') (content' : Bytes → Bytes) :
    ∃ e', (openWith content' p).run d' = (.error e', d') := by
  have hopen := openOr_openWith hd content p
  rw [hrun] at hopen
  cases hopen with
  | obstructed _ hgrows hobstructed =>
    have hd' := hlater.sound (hgrows.sound hd)
    refine ⟨d'.obstruction p.parent, ?_⟩
    rw [run_openWith, run_makeDirs_of_obstructed hd' (hlater.obstructed hobstructed)]
  | directory hgrows hmade hkind =>
    have hd' := hlater.sound (hgrows.sound hd)
    have hself : Made d' p := hlater.made ⟨way_of_made hmade, hkind⟩
    refine ⟨⟨.isDirectory, p.toText⟩, ?_⟩
    rw [run_openWith, run_makeDirs_of_made hd' (hlater.made hmade)]
    simp only
    rw [run_target_way hd', hself.1, hself.2]

theorem kindOf?_of_way_error (hup : Path.up ∉ names) {fault : DiskFault}
    (hway : d.way ⟨anchor, names⟩ = .error fault) : d.kindOf? ⟨anchor, names⟩ = none := by
  induction names using List.reverseRecOn generalizing fault with
  | nil => cases hway
  | append_singleton names name ih =>
    have hname : name ≠ Path.up := by
      rintro rfl
      exact hup (List.mem_append_right _ (List.mem_singleton_self _))
    have habove : Path.up ∉ names := fun h => hup (List.mem_append_left _ h)
    unfold kindOf?
    rw [placeOf_append_of_ne hname]
    apply Node.kindAt?_below
    rw [way_append] at hway
    change d.kindOf? ⟨anchor, names⟩ ≠ some .dir
    cases hfirst : d.way ⟨anchor, names⟩ with
    | error fault' =>
      rw [ih habove hfirst]
      exact (Option.some_ne_none _).symm
    | ok u =>
      intro hdir
      rw [hfirst, hdir] at hway
      cases hway

theorem run_makeDirUnlessThere_of_not_file (hd : d.Sound) (hway : d.way p = .ok ())
    (hfile : ∀ bytes, d.kindOf? p ≠ some (.file bytes)) :
    ∃ d', (makeDirsFrom.makeDirUnlessThere p).run d = (.ok (), d') := by
  rw [run_makeDirUnlessThere]
  cases hkind : d.kindOf? p with
  | none =>
    rw [run_makeDir_of_free hd hway hkind]
    exact ⟨_, rfl⟩
  | some k =>
    cases k with
    | file bytes => exact absurd hkind (hfile bytes)
    | dir =>
      have hmade : Made d p := ⟨hway, hkind⟩
      rw [run_makeDir_of_made hd hmade]
      simp only
      rw [if_pos ⟨by simp, (isDir_iff hd p).mpr hmade⟩]
      exact ⟨_, rfl⟩

/-- Where a directory above is missing and the ones above can be made, this one is made as well:
nothing can have been in its place. -/
theorem run_makeDirsFrom_of_missing {above : List Text} {d₂ : Disk} (hd : d.Sound)
    (hup : Path.up ∉ above.reverse ++ [name])
    (hway : d.way ⟨anchor, above.reverse ++ [name]⟩ = .error .missing)
    (habove : (makeDirsFrom anchor above).run d = (.ok (), d₂)) :
    ∃ d₃, (makeDirsFrom anchor (name :: above)).run d = (.ok (), d₃) := by
  have hfirst := madeOr_makeDirsFrom hd anchor above
  rw [habove] at hfirst
  cases hfirst with
  | made hgrows hmade =>
    have hway₂ : d₂.way ⟨anchor, above.reverse ++ [name]⟩ = .ok () := by
      apply way_of_made
      rw [Path.parent, List.dropLast_concat]
      exact hmade
    have hfile : ∀ bytes, d₂.kindOf? ⟨anchor, above.reverse ++ [name]⟩ ≠ some (.file bytes) := by
      intro bytes hkind
      have hcontent := hgrows.keeps.files (d.placeOf ⟨anchor, above.reverse ++ [name]⟩) id
      rw [kindOf?, hgrows.placeOf_eq] at hkind
      rw [contentAt?_of_none (kindOf?_of_way_error hup hway), contentAt?, hkind] at hcontent
      cases hcontent
    obtain ⟨d₃, hmade₃⟩ := run_makeDirUnlessThere_of_not_file (hgrows.sound hd) hway₂ hfile
    refine ⟨d₃, ?_⟩
    rw [run_makeDirsFrom_cons, run_makeDir_eq hd, hway]
    simp only [if_true]
    rw [habove]
    exact hmade₃

theorem not_made_of_makeDirsFrom (hd : d.Sound)
    (hrun : (makeDirsFrom anchor names).run d = (.error e, d₁)) :
    ¬ Made d ⟨anchor, names.reverse⟩ := by
  intro hmade
  have hok := run_makeDirs_of_made hd hmade
  rw [makeDirs, List.reverse_reverse, hrun] at hok
  cases hok

theorem obstructed_of_makeDirsFrom (hd : d.Sound) (hup : Path.up ∉ names)
    (hrun : (makeDirsFrom anchor names).run d = (.error e, d₁)) :
    Obstructed d ⟨anchor, names.reverse⟩ := by
  -- By induction on the names from the last one on: a directory above that cannot be made would
  -- be in the way of this one as well.
  induction names generalizing e d₁ with
  | nil => exact absurd ⟨way_nil d anchor, kindOf?_nil hd anchor⟩ (not_made_of_makeDirsFrom hd hrun)
  | cons name above ih =>
    have hnot := not_made_of_makeDirsFrom hd hrun
    have hnames : Path.up ∉ above.reverse ++ [name] := by
      rw [← List.reverse_cons, List.mem_reverse]
      exact hup
    rw [List.reverse_cons] at hnot ⊢
    cases hway : d.way ⟨anchor, above.reverse ++ [name]⟩ with
    | error fault =>
      rcases way_error hway with rfl | rfl
      · exact .inl hway
      · exfalso
        cases habove : (makeDirsFrom anchor above).run d with
        | mk answer d₂ =>
          cases answer with
          | error e' =>
            have hthere := ih (fun h => hup (List.mem_cons_of_mem _ h)) habove
            have hblocked := @obstructed_append d ⟨anchor, above.reverse⟩ hthere name
            rw [hway] at hblocked
            cases hblocked
          | ok u =>
            obtain ⟨d₃, hmade⟩ := run_makeDirsFrom_of_missing hd hnames hway habove
            rw [hrun] at hmade
            cases hmade
    | ok u =>
      cases hkind : d.kindOf? ⟨anchor, above.reverse ++ [name]⟩ with
      | none =>
        rw [run_makeDirsFrom_cons, run_makeDir_of_free hd hway hkind] at hrun
        cases hrun
      | some k =>
        cases k with
        | file bytes => exact .inr ⟨hway, bytes, hkind⟩
        | dir => exact absurd ⟨hway, hkind⟩ hnot

theorem obstructed_of_makeDirs (hd : d.Sound) (hup : Path.up ∉ p.names)
    (hrun : (makeDirs p).run d = (.error e, d₁)) : Obstructed d p := by
  have hthere := @obstructed_of_makeDirsFrom d d₁ p.anchor p.names.reverse e hd
    (fun h => hup (List.mem_reverse.mp h)) hrun
  rw [List.reverse_reverse] at hthere
  exact hthere

theorem Grows.obstruction_eq (h : Grows files d d') (hobstructed : Obstructed d p) :
    d'.obstruction p = d.obstruction p := by
  unfold obstruction
  rcases hobstructed with hway | ⟨hway, -⟩
  · rw [hway, h.way_notDirectory hway]
  · rw [hway, h.way_ok hway]

/-- A path that does not go up meets the same failure again. -/
theorem run_openWith_same_error (hd : d.Sound) (hup : Path.up ∉ p.names)
    (hrun : (openWith content p).run d = (.error e, d₁)) (hlater : Grows files d₁ d')
    (content' : Bytes → Bytes) : (openWith content' p).run d' = (.error e, d') := by
  have hparent : Path.up ∉ p.parent.names := fun h => hup (List.dropLast_subset _ h)
  have hopen := hrun
  rw [run_openWith] at hopen
  have hdirs := madeOr_makeDirs hd p.parent
  cases hmakes : (makeDirs p.parent).run d with
  | mk answer d₂ =>
    rw [hmakes] at hopen hdirs
    cases hdirs with
    | obstructed e' hgrows _ =>
      obtain ⟨he, rfl⟩ := Prod.mk.inj hopen
      obtain rfl := Except.error.inj he
      have hthere := obstructed_of_makeDirs hd hparent hmakes
      have hsame := run_makeDirs_of_obstructed hd hthere
      rw [hmakes] at hsame
      obtain ⟨he, rfl⟩ := Prod.mk.inj hsame
      rw [run_openWith, run_makeDirs_of_obstructed (hlater.sound hd) (hlater.obstructed hthere),
        hlater.obstruction_eq hthere, ← Except.error.inj he]
    | made hgrows hmade =>
      have hd₂ := hgrows.sound hd
      have hway := way_of_made hmade
      simp only at hopen
      by_cases hkind : d₂.kindOf? p = some .dir
      · rw [run_target_way hd₂, hway, hkind] at hopen
        obtain ⟨he, rfl⟩ := Prod.mk.inj hopen
        obtain rfl := Except.error.inj he
        have hself : Made d' p := hlater.made ⟨hway, hkind⟩
        rw [run_openWith, run_makeDirs_of_made (hlater.sound hd₂) (hlater.made hmade)]
        simp only
        rw [run_target_way (hlater.sound hd₂), hself.1, hself.2]
      · rw [run_target_of_not_dir hd₂ hway hkind] at hopen
        cases hopen

end Disk

end LookupGen
