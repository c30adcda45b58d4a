import LookupGen.ErrorLog
import LookupGen.Proofs.Disk.Place
import LookupGen.Proofs.Except

/-!
# What disk operations leave alone

An operation on a path changes the file at its place and no other, and so does the removal of a
file; directories may be made, but none is lost. So a path has the same place before and after.

This module does NOT speak of the removal of directories.
-/

namespace LookupGen

namespace Disk

variable {d d' d'' : Disk} {p : Path} {names : List Text}

/-- From one disk to another, no files change but those at some places, and no directory is lost. -/
structure Keeps (places : List Text → Prop) (d d' : Disk) : Prop where
  current : d'.current = d.current
  dirs : ∀ names, d.root.kindAt? names = some .dir → d'.root.kindAt? names = some .dir
  files : ∀ names, ¬ places names → d'.contentAt? names = d.contentAt? names

variable {places places' : List Text → Prop}

theorem Keeps.refl (places : List Text → Prop) (d : Disk) : Keeps places d d :=
  ⟨rfl, fun _ h => h, fun _ _ => rfl⟩

theorem Keeps.trans (h : Keeps places d d') (h' : Keeps places d' d'') : Keeps places d d'' where
  current := h'.current.trans h.current
  dirs := fun names hdir => h'.dirs names (h.dirs names hdir)
  files := fun names hplaces => (h'.files names hplaces).trans (h.files names hplaces)

theorem Keeps.mono (h : Keeps places d d') (hle : ∀ names, places names → places' names) :
    Keeps places' d d' where
  current := h.current
  dirs := h.dirs
  files := fun names hplaces => h.files names fun hin => hplaces (hle names hin)

theorem Keeps.sound (h : Keeps places d d') (hd : d.Sound) : d'.Sound where
  current := by
    rw [h.current]
    exact h.dirs _ hd.current
  settled := by
    rw [h.current]
    exact hd.settled

theorem Keeps.placeOf_eq (h : Keeps places d d') (p : Path) : d'.placeOf p = d.placeOf p := by
  unfold placeOf resolve
  rw [h.current]

theorem contentAt?_of_dir (h : d.root.kindAt? names = some .dir) : d.contentAt? names = none := by
  rw [contentAt?, h]

theorem contentAt?_of_none (h : d.root.kindAt? names = none) : d.contentAt? names = none := by
  rw [contentAt?, h]

section Put

variable {above : List Text} {name : Text} {new : Node}

/-- Neither a file nor an empty directory has anything below it. -/
def Bare (node : Node) : Prop := ∀ name rest, node.kindAt? (name :: rest) = none

theorem bare_file (content : Bytes) : Bare (.file content) := by
  intro name rest
  rw [Node.kindAt?, Node.at?_cons]
  rfl

theorem bare_emptyDir : Bare .emptyDir := by
  intro name rest
  rw [Node.emptyDir, Node.kindAt?_cons]
  rfl

theorem kindAt?_put_self (habove : d.root.kindAt? above = some .dir) (name : Text) (new : Node) :
    (d.put (above ++ [name]) new).root.kindAt? (above ++ [name]) = some new.kind := by
  rw [put, Node.kindAt?_put_append habove, Node.kindAt?_nil]

theorem kindAt?_put_of_ne (habove : d.root.kindAt? above = some .dir)
    (hplace : d.root.kindAt? (above ++ [name]) ≠ some .dir) (hnew : Bare new)
    (hne : names ≠ above ++ [name]) :
    (d.put (above ++ [name]) new).root.kindAt? names = d.root.kindAt? names := by
  rw [put]
  by_cases hprefix : above ++ [name] <+: names
  · obtain ⟨rest, rfl⟩ := hprefix
    cases rest with
    | nil => exact absurd (List.append_nil _) hne
    | cons n rest =>
      rw [Node.kindAt?_below hplace, List.append_assoc, List.singleton_append,
        Node.kindAt?_put_append habove]
      exact hnew n rest
  · exact Node.kindAt?_put_of_not_prefix habove hprefix

theorem keeps_put (habove : d.root.kindAt? above = some .dir)
    (hplace : d.root.kindAt? (above ++ [name]) ≠ some .dir) (hnew : Bare new) :
    Keeps (· = above ++ [name]) d (d.put (above ++ [name]) new) where
  current := rfl
  dirs := by
    intro names hdir
    rw [kindAt?_put_of_ne habove hplace hnew]
    · exact hdir
    · rintro rfl
      exact hplace hdir
  files := by
    intro names hne
    rw [contentAt?, kindAt?_put_of_ne habove hplace hnew hne]
    rfl

end Put

def KeepsFiles {α : Type} (m : DiskM α) : Prop :=
  ∀ d : Disk, d.Sound → Keeps (fun _ => False) d (m.run d).2

theorem keepsFiles_throw {α : Type} (e : DiskError) : KeepsFiles (throw e : DiskM α) :=
  fun d _ => .refl _ d

theorem keepsFiles_pure {α : Type} (a : α) : KeepsFiles (pure a : DiskM α) :=
  fun d _ => .refl _ d

theorem KeepsFiles.bind {α β : Type} {m : DiskM α} {k : α → DiskM β} (hm : KeepsFiles m)
    (hk : ∀ a, KeepsFiles (k a)) : KeepsFiles (m >>= k) := by
  intro d hd
  have hfirst := hm d hd
  rw [exceptT_run_bind]
  rcases hrun : m.run d with ⟨e | a, d'⟩
  · rw [hrun] at hfirst
    exact hfirst
  · rw [hrun] at hfirst
    exact hfirst.trans (hk a d' (hfirst.sound hd))

theorem KeepsFiles.tryCatch {α : Type} {m : DiskM α} {handle : DiskError → DiskM α}
    (hm : KeepsFiles m) (hhandle : ∀ e, KeepsFiles (handle e)) :
    KeepsFiles (tryCatch m handle) := by
  intro d hd
  have hfirst := hm d hd
  rw [exceptT_run_tryCatch]
  rcases hrun : m.run d with ⟨e | a, d'⟩
  · rw [hrun] at hfirst
    exact hfirst.trans (hhandle e d' (hfirst.sound hd))
  · rw [hrun] at hfirst
    exact hfirst

theorem run_makeDir (p : Path) (d : Disk) :
    (makeDir p).run d = match d.locate p with
      | .ok (.free names) => (.ok (), d.put names Node.emptyDir)
      | .ok (.taken _ _) => (.error ⟨.exists, p.toText⟩, d)
      | .error fault => (.error ⟨fault, p.toText⟩, d) := by
  unfold makeDir
  have hget : (get : DiskM Disk).run d = (.ok d, d) := rfl
  rw [exceptT_run_bind, hget]
  simp only
  rcases d.locate p with fault | (⟨names, node⟩ | names)
  · rfl
  · rfl
  · rfl

theorem keepsFiles_makeDir (p : Path) : KeepsFiles (makeDir p) := by
  intro d hd
  rw [run_makeDir]
  cases hlocate : d.locate p with
  | error fault => exact .refl _ d
  | ok place =>
    have hstands := stands_locate hd hlocate
    generalize d.placeOf p = names at hstands
    cases hstands with
    | taken h => exact .refl _ d
    | @free above name habove hfree =>
      have hplace : d.root.kindAt? (above ++ [name]) ≠ some .dir := by
        rw [hfree]
        exact (Option.some_ne_none _).symm
      have hput := keeps_put habove hplace bare_emptyDir
      constructor
      · exact hput.current
      · exact hput.dirs
      · intro names _
        by_cases hnames : names = above ++ [name]
        · subst hnames
          exact (contentAt?_of_dir (kindAt?_put_self habove name .emptyDir)).trans
            (contentAt?_of_none hfree).symm
        · exact hput.files names hnames

theorem keepsFiles_get : KeepsFiles (get : DiskM Disk) := fun d _ => .refl _ d

theorem keepsFiles_makeDirUnlessThere (p : Path) :
    KeepsFiles (makeDirsFrom.makeDirUnlessThere p) := by
  unfold makeDirsFrom.makeDirUnlessThere
  apply KeepsFiles.tryCatch (keepsFiles_makeDir p)
  intro e
  apply KeepsFiles.bind keepsFiles_get
  intro d
  split
  · exact keepsFiles_pure ()
  · exact keepsFiles_throw e

theorem keepsFiles_makeDirsFrom (anchor : Anchor) (names : List Text) :
    KeepsFiles (makeDirsFrom anchor names) := by
  induction names with
  | nil =>
    unfold makeDirsFrom
    exact keepsFiles_makeDirUnlessThere _
  | cons name above ih =>
    unfold makeDirsFrom
    apply KeepsFiles.tryCatch (keepsFiles_makeDir _)
    intro e
    split
    · exact ih.bind fun _ => keepsFiles_makeDirUnlessThere _
    · apply KeepsFiles.bind keepsFiles_get
      intro d
      split
      · exact keepsFiles_pure ()
      · exact keepsFiles_throw e

theorem keepsFiles_makeDirs (p : Path) : KeepsFiles (makeDirs p) := keepsFiles_makeDirsFrom _ _

theorem read_eq_ok {content : Bytes} :
    d.read p = .ok content ↔ ∃ names, d.locate p = .ok (.taken names (.file content)) := by
  unfold read
  constructor
  · intro h
    split at h
    · rename_i names c hlocate
      obtain rfl := Except.ok.inj h
      exact ⟨names, hlocate⟩
    all_goals cases h
  · rintro ⟨names, hlocate⟩
    rw [hlocate]

theorem read_of_content {places : List Text → Prop} {place : Place} {content : Bytes}
    (hd : d.Sound) (hk : Keeps places d d') (hlocate : d.locate p = .ok place)
    (hfile : d'.root.kindAt? (d.placeOf p) = some (.file content)) : d'.read p = .ok content := by
  have hfile := Node.at?_of_kindAt?_file hfile
  obtain ⟨entries, hcurrent⟩ := Node.at?_of_kindAt?_dir hd.current
  obtain ⟨entries', hcurrent'⟩ := Node.at?_of_kindAt?_dir (hk.sound hd).current
  rw [read_eq_ok]
  refine ⟨d.placeOf p, ?_⟩
  rw [placeOf_eq hd] at hfile ⊢
  unfold locate at hlocate ⊢
  cases hanchor : p.anchor with
  | relative =>
    rw [hanchor, hcurrent] at hlocate
    rw [hanchor] at hfile
    rw [hcurrent']
    rw [hk.current] at hcurrent' ⊢
    exact follow_file hk.dirs hcurrent hcurrent' hlocate hfile
  | root | doubleRoot =>
    rw [hanchor] at hlocate hfile
    exact follow_file hk.dirs (Node.at?_nil d.root) (Node.at?_nil d'.root) hlocate hfile

/-- Whether a file can be written at a path, and what it has in it so far. -/
inductive Target (d : Disk) (p : Path) : Except DiskError (List Text × Bytes) → Prop where
  | error (e : DiskError) : Target d p (.error e)
  | ok {above : List Text} {name : Text} {place : Place} (hplace : d.placeOf p = above ++ [name])
      (hlocate : d.locate p = .ok place) (habove : d.root.kindAt? above = some .dir)
      (hkind : d.root.kindAt? (above ++ [name]) ≠ some .dir) :
      Target d p (.ok (above ++ [name], (d.contentAt? (above ++ [name])).getD []))

theorem run_target_eq (p : Path) (d : Disk) :
    (target p).run d = (match d.locate p with
      | .ok (.free names) => .ok (names, [])
      | .ok (.taken names (.file content)) => .ok (names, content)
      | .ok (.taken _ (.dir _)) => .error ⟨.isDirectory, p.toText⟩
      | .error fault => .error ⟨fault, p.toText⟩, d) := by
  change ((match d.locate p with
    | .ok (.free names) => pure (names, [])
    | .ok (.taken names (.file content)) => pure (names, content)
    | .ok (.taken _ (.dir _)) => throw ⟨.isDirectory, p.toText⟩
    | .error fault => throw ⟨fault, p.toText⟩ : DiskM _)).run d = _
  cases d.locate p with
  | error fault => rfl
  | ok place =>
    cases place with
    | free names => rfl
    | taken names node =>
      cases node with
      | dir entries => rfl
      | file content => rfl

theorem run_target (hd : d.Sound) (p : Path) :
    ∃ answer, (target p).run d = (answer, d) ∧ Target d p answer := by
  rw [run_target_eq]
  cases hlocate : d.locate p with
  | error fault => exact ⟨_, rfl, .error _⟩
  | ok place =>
    have hstands := stands_locate hd hlocate
    generalize hplace : d.placeOf p = names at hstands
    cases hstands with
    | @free above name habove hfree =>
      have hkind : d.root.kindAt? (above ++ [name]) ≠ some .dir := by
        rw [hfree]
        exact (Option.some_ne_none _).symm
      have htarget := Target.ok hplace hlocate habove hkind
      rw [contentAt?_of_none hfree] at htarget
      exact ⟨_, rfl, htarget⟩
    | @taken _ node hnode =>
      cases node with
      | dir entries => exact ⟨_, rfl, .error _⟩
      | file content =>
        obtain ⟨above, name, rfl, habove⟩ := exists_above hd hnode
        have hfile := Node.kindAt?_of_at? hnode
        have hkind : d.root.kindAt? (above ++ [name]) ≠ some .dir := by
          rw [hfile]
          intro h
          cases h
        have htarget := Target.ok hplace hlocate habove hkind
        rw [contentAt?, hfile] at htarget
        exact ⟨_, rfl, htarget⟩

theorem Target.put {found : List Text × Bytes} (h : Target d p (.ok found)) (hd : d.Sound)
    (content : Bytes) :
    Keeps (· = d.placeOf p) d (d.put found.1 (.file content)) ∧
      (d.put found.1 (.file content)).read p = .ok content := by
  cases h with
  | @ok above name place hplace hlocate habove hkind =>
    have hkeeps := keeps_put habove hkind (bare_file content)
    have hself := kindAt?_put_self habove name (.file content)
    rw [← hplace] at hkeeps hself ⊢
    exact ⟨hkeeps, read_of_content hd hkeeps hlocate hself⟩

/-- A file gets its content as a whole, or nothing is done. -/
theorem run_write (hd : d.Sound) (p : Path) (content : Bytes) :
    (∃ e, (write p content).run d = (.error e, d)) ∨
    ∃ d', (write p content).run d = (.ok (), d') ∧ Keeps (· = d.placeOf p) d d' ∧
      d'.read p = .ok content := by
  obtain ⟨answer, hrun, htarget⟩ := run_target hd p
  unfold write
  rw [exceptT_run_bind, hrun]
  cases answer with
  | error e => exact .inl ⟨e, rfl⟩
  | ok found =>
    obtain ⟨hkeeps, hread⟩ := htarget.put hd content
    exact .inr ⟨_, rfl, hkeeps, hread⟩

theorem keeps_append (hd : d.Sound) (p : Path) (content : Bytes) :
    Keeps (· = d.placeOf p) d ((append p content).run d).2 := by
  obtain ⟨answer, hrun, htarget⟩ := run_target hd p
  unfold append
  rw [exceptT_run_bind, hrun]
  cases answer with
  | error e => exact .refl _ d
  | ok found => exact (htarget.put hd (found.2 ++ content)).1

theorem run_append_of_read (hd : d.Sound) {old : Bytes} (h : d.read p = .ok old)
    (content : Bytes) :
    ∃ d', (append p content).run d = (.ok (), d') ∧ d'.read p = .ok (old ++ content) := by
  obtain ⟨names, hlocate⟩ := read_eq_ok.mp h
  have hrun : (target p).run d = (.ok (names, old), d) := by
    rw [run_target_eq, hlocate]
  obtain ⟨answer, hanswer, htarget⟩ := run_target hd p
  obtain rfl := congrArg Prod.fst (hanswer.symm.trans hrun)
  unfold append
  rw [exceptT_run_bind, hrun]
  exact ⟨_, rfl, (htarget.put hd (old ++ content)).2⟩

theorem content_of_read (hd : d.Sound) {content : Bytes} (h : d.read p = .ok content) :
    d.contentAt? (d.placeOf p) = some content := by
  obtain ⟨names, hlocate⟩ := read_eq_ok.mp h
  have hstands := stands_locate hd hlocate
  generalize d.placeOf p = place at hstands
  cases hstands with
  | taken hfile => rw [contentAt?, Node.kindAt?_of_at? hfile, Node.kind]

theorem kindAt?_of_contentAt? {content : Bytes} (h : d.contentAt? names = some content) :
    d.root.kindAt? names = some (.file content) := by
  unfold contentAt? at h
  split at h
  · rename_i hkind
    rw [hkind, Option.some.inj h]
  · cases h

theorem Keeps.read_eq {content : Bytes} (h : Keeps places d d') (hd : d.Sound)
    (hplace : ¬ places (d.placeOf p)) (hread : d.read p = .ok content) :
    d'.read p = .ok content := by
  obtain ⟨names, hlocate⟩ := read_eq_ok.mp hread
  have hkept := (h.files _ hplace).trans (content_of_read hd hread)
  exact read_of_content hd h hlocate (kindAt?_of_contentAt? hkept)

/-- A file that is removed is gone, and every other file stays. -/
theorem keeps_remove {content : Bytes} (hd : d.Sound) (h : d.read p = .ok content) :
    Keeps (· = d.placeOf p) d (d.remove p) ∧ (d.remove p).contentAt? (d.placeOf p) = none := by
  obtain ⟨found, hlocate⟩ := read_eq_ok.mp h
  have hstands := stands_locate hd hlocate
  generalize d.placeOf p = place at hstands ⊢
  cases hstands with
  | taken hfile =>
    obtain ⟨above, name, rfl, -⟩ := exists_above hd hfile
    have hplace : d.root.kindAt? (above ++ [name]) ≠ some .dir := by
      rw [Node.kindAt?_of_at? hfile]
      exact fun h => by cases h
    have hremove : d.remove p = { d with root := d.root.erase (above ++ [name]) } := by
      rw [remove, hlocate]
    have hgone : (d.root.erase (above ++ [name])).kindAt? (above ++ [name]) = none :=
      Node.kindAt?_erase_self d.root
    have hother : ∀ names, names ≠ above ++ [name] →
        (d.root.erase (above ++ [name])).kindAt? names = d.root.kindAt? names := by
      intro names hne
      by_cases hprefix : above ++ [name] <+: names
      · obtain ⟨_ | ⟨n, rest⟩, rfl⟩ := hprefix
        · exact absurd (List.append_nil _) hne
        · rw [Node.kindAt?_below hplace, Node.kindAt?_below]
          rw [hgone]
          exact (Option.some_ne_none _).symm
      · exact Node.kindAt?_erase_of_not_prefix hprefix
    rw [hremove]
    refine ⟨⟨rfl, ?_, ?_⟩, contentAt?_of_none hgone⟩
    · intro names hdir
      exact (hother names fun heq => hplace (heq ▸ hdir)).trans hdir
    · intro names hne
      unfold contentAt?
      rw [hother names hne]

end Disk

end LookupGen
