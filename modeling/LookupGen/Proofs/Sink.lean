import LookupGen.Proofs.Disk.Frame
import LookupGen.Proofs.Name
import LookupGen.Sink

/-!
# Files of a sink

Where the file of a name lies, and what is in it after a text is written there: it is emptied first,
and then filled as far as the text has a UTF-8 form.
-/

namespace LookupGen

namespace Path

theorem ofText_of_not_mem {t : Text} (h : CodePoint.ofChar '/' ∉ t) :
    ofText t = ⟨.relative, [t].filter fun name => !name.isEmpty && decide (name ≠ ".")⟩ := by
  have hslash (s : String) (hs : ∃ rest, Text.ofString s = CodePoint.ofChar '/' :: rest) :
      Text.startsWith t s = false := by
    obtain ⟨rest, hs⟩ := hs
    rw [Text.startsWith, hs]
    cases t with
    | nil => rfl
    | cons c t =>
      have hc : CodePoint.ofChar '/' ≠ c := fun hc => h (hc ▸ List.mem_cons_self)
      rw [List.isPrefixOf_cons_cons, beq_false_of_ne hc, Bool.false_and]
  have hanchor : anchorOf t = .relative := by
    unfold anchorOf
    rw [hslash "///" ⟨_, rfl⟩, hslash "//" ⟨_, rfl⟩, hslash "/" ⟨_, rfl⟩]
    rfl
  rw [ofText, hanchor, Text.splitAll_of_not_mem h]

theorem settleFrom_of_not_mem {rest : List Text} (h : up ∉ rest) (here : List Text) :
    settleFrom here rest = here ++ rest := by
  induction rest generalizing here with
  | nil => exact (List.append_nil here).symm
  | cons name rest ih =>
    have hname : name ≠ up := fun hname => h (hname ▸ List.mem_cons_self)
    have hrest : up ∉ rest := fun hrest => h (List.mem_cons_of_mem name hrest)
    rw [settleFrom_cons_of_ne hname, ih hrest, List.append_assoc, List.singleton_append]

theorem settleFrom_append (here names rest : List Text) :
    settleFrom here (names ++ rest) = settleFrom (settleFrom here names) rest := by
  unfold settleFrom
  exact List.foldl_append

/-- A path leads on from another without going back above it. -/
def LeadsOn (p q : Path) : Prop := ∃ rest, up ∉ rest ∧ q = ⟨p.anchor, p.names ++ rest⟩

theorem LeadsOn.refl (p : Path) : LeadsOn p p :=
  ⟨[], List.not_mem_nil, by rw [List.append_nil]⟩

theorem LeadsOn.trans {p q r : Path} (h : LeadsOn p q) (h' : LeadsOn q r) : LeadsOn p r := by
  obtain ⟨rest, hup, rfl⟩ := h
  obtain ⟨rest', hup', rfl⟩ := h'
  refine ⟨rest ++ rest', ?_, by rw [List.append_assoc]⟩
  intro hmem
  rcases List.mem_append.mp hmem with hmem | hmem
  · exact hup hmem
  · exact hup' hmem

theorem leadsOn_join {t : Text} (hslash : CodePoint.ofChar '/' ∉ t) (hup : t ≠ up) (p : Path) :
    LeadsOn p (p.join (ofText t)) := by
  rw [ofText_of_not_mem hslash]
  refine ⟨_, ?_, rfl⟩
  intro hmem
  have hin := (List.mem_filter.mp hmem).1
  exact hup (List.mem_singleton.mp hin).symm

theorem leadsOn_foldl_join {segments : List Text}
    (h : ∀ s ∈ segments, CodePoint.ofChar '/' ∉ s ∧ s ≠ up) (dir : Path) :
    LeadsOn dir (segments.foldl (fun dir segment => dir.join (ofText segment)) dir) := by
  induction segments generalizing dir with
  | nil => exact .refl dir
  | cons s rest ih =>
    obtain ⟨hs, hup⟩ := h s List.mem_cons_self
    have hrest := ih (fun s hs => h s (List.mem_cons_of_mem _ hs))
    exact (leadsOn_join hs hup dir).trans (hrest _)

end Path

theorem Disk.placeOf_leadsOn {d : Disk} {p q : Path} (hd : d.Sound) (h : p.LeadsOn q) :
    d.placeOf p <+: d.placeOf q := by
  obtain ⟨rest, hup, rfl⟩ := h
  rw [placeOf_eq hd, placeOf_eq hd]
  cases p.anchor with
  | relative | root | doubleRoot =>
    simp only
    rw [Path.settleFrom_append, Path.settleFrom_of_not_mem hup]
    exact List.prefix_append _ rest

namespace Sink

theorem slash_not_mem_of_isValid {name : Name} (h : Name.isValid name = true) :
    CodePoint.ofChar '/' ∉ name := by
  intro hmem
  rcases Name.isStart_or_isPart_of_isValid h hmem with hdot | hstart | hpart
  · exact absurd hdot (by decide)
  · exact absurd hstart (by decide +kernel)
  · exact absurd hpart (by decide +kernel)

theorem fileName_ne_up (simple : Text) : Text.join [simple, fileSuffix] ≠ Path.up := by
  intro hup
  have hlength := congrArg List.length hup
  rw [Text.join, List.flatten_cons, List.flatten_singleton, List.length_append] at hlength
  have hsuffix : fileSuffix.length = 5 := rfl
  have hshort : Path.up.length = 2 := rfl
  omega

theorem leadsOn_pathOf {name : Name} (h : Name.isValid name = true) (root : Path) :
    root.LeadsOn (pathOf root name) := by
  have hslash := slash_not_mem_of_isValid h
  have hfile : CodePoint.ofChar '/' ∉ Text.join [Name.simple name, fileSuffix] := by
    intro hmem
    rw [Text.join, List.flatten_cons, List.flatten_singleton] at hmem
    rcases List.mem_append.mp hmem with hmem | hmem
    · exact hslash (Name.mem_of_mem_simple hmem)
    · exact absurd hmem (by decide)
  have hsegments : ∀ s ∈ Name.segments (Name.package name),
      CodePoint.ofChar '/' ∉ s ∧ s ≠ Path.up := by
    intro s hs
    constructor
    · intro hmem
      exact hslash (Name.mem_of_mem_package (Text.mem_of_mem_splitAll hs hmem).2)
    · rintro rfl
      exact (Text.mem_of_mem_splitAll hs (c := CodePoint.ofChar '.') List.mem_cons_self).1 rfl
  have hlast (dir : Path) := Path.leadsOn_join hfile (fileName_ne_up (Name.simple name)) dir
  unfold pathOf
  simp only
  split
  · exact hlast root
  · exact (Path.leadsOn_foldl_join hsegments root).trans (hlast _)

theorem create_answers (s : Sink) (name : Name) :
    ((Name.isValid name = true ∧ name ∉ s.created) ∧
      ∃ s', s.create name = .ok s' ∧ s'.store = s.store) ∨
    (¬ (Name.isValid name = true ∧ name ∉ s.created) ∧ ∃ e, s.create name = .error e) := by
  cases hvalid : Name.isValid name with
  | false =>
    right
    refine ⟨fun h => absurd h.1 Bool.false_ne_true, .invalid name, ?_⟩
    rw [create, hvalid]
    rfl
  | true =>
    by_cases hcreated : name ∈ s.created
    · right
      refine ⟨fun h => h.2 hcreated, .repeated name, ?_⟩
      rw [create, hvalid]
      exact if_pos (List.contains_iff_mem.mpr hcreated)
    · left
      refine ⟨⟨rfl, hcreated⟩, { s with created := name :: s.created }, ?_, rfl⟩
      rw [create, hvalid]
      exact if_neg fun hmem => hcreated (List.contains_iff_mem.mp hmem)

theorem create_of_new {s : Sink} {name : Name} (h : Name.isValid name = true ∧ name ∉ s.created) :
    s.create name = .ok { s with created := name :: s.created } := by
  rw [create, h.1]
  exact if_neg fun hmem => h.2 (List.contains_iff_mem.mp hmem)

theorem create_of_not_new {s : Sink} {name : Name}
    (h : ¬ (Name.isValid name = true ∧ name ∉ s.created)) :
    s.create name =
      .error (if Name.isValid name then .repeated name else .invalid name) := by
  unfold create
  cases hvalid : Name.isValid name with
  | false => rfl
  | true =>
    have hmem : name ∈ s.created := by_contra fun hmem => h ⟨hvalid, hmem⟩
    exact if_pos (List.contains_iff_mem.mpr hmem)

variable {d d' : Disk} {p : Path}

def openFile (p : Path) : DiskM Unit := do
  Disk.makeDirs p.parent
  Disk.write p []

theorem run_openFile (hd : d.Sound) (p : Path) :
    (∃ e d', (openFile p).run d = (.error e, d') ∧ Disk.Keeps (fun _ => False) d d') ∨
    ∃ d', (openFile p).run d = (.ok (), d') ∧ Disk.Keeps (· = d.placeOf p) d d' ∧
      d'.read p = .ok [] := by
  have hdirs := Disk.keepsFiles_makeDirs p.parent d hd
  unfold openFile
  rw [exceptT_run_bind]
  rcases hmade : (Disk.makeDirs p.parent).run d with ⟨e | u, d₁⟩
  · rw [hmade] at hdirs
    exact .inl ⟨e, d₁, rfl, hdirs⟩
  · rw [hmade] at hdirs
    simp only
    rcases Disk.run_write (hdirs.sound hd) p [] with ⟨e, hrun⟩ | ⟨d₂, hrun, hkeeps, hread⟩
    · exact .inl ⟨e, d₁, hrun, hdirs⟩
    · refine .inr ⟨d₂, hrun, ?_, hread⟩
      rw [hdirs.placeOf_eq] at hkeeps
      exact (hdirs.mono fun _ h => h.elim).trans hkeeps

theorem run_onDisk {α : Type} (m : DiskM α) (d : Disk) :
    (onDisk m).run d = match m.run d with
      | (.error e, d') => (.error (.disk e), d')
      | (.ok a, d') => (.ok a, d') := by
  have happly : (onDisk m).run d = onDisk m d := rfl
  rw [happly, onDisk]
  rcases m.run d with ⟨e | a, d'⟩
  · rfl
  · rfl

theorem run_write_directory {s : Sink} {root : Path} (hstore : s.store = .directory root)
    (name : Name) (draft : Draft) (d : Disk) :
    (s.write name draft).run d = match (openFile (pathOf root name)).run d with
      | (.error e, d') => (.error (.disk e), d')
      | (.ok (), d') => match (appendParts (pathOf root name) draft.parts).run d' with
        | (.error e, d'') => (.error e, d'')
        | (.ok (), d'') => (.ok s, d'') := by
  unfold write openFile
  rw [hstore]
  simp only
  rw [exceptT_run_bind, exceptT_run_bind, run_onDisk]
  rcases (Disk.makeDirs (pathOf root name).parent).run d with ⟨e | u, d₁⟩
  · rfl
  · simp only
    rw [exceptT_run_bind, run_onDisk]
    rcases (Disk.write (pathOf root name) []).run d₁ with ⟨e | u, d₂⟩
    · rfl
    · simp only
      rw [exceptT_run_bind]
      rcases (appendParts (pathOf root name) draft.parts).run d₂ with ⟨e | u, d₃⟩
      · rfl
      · rfl

theorem run_write_memory {s : Sink} {outputs : Table Name Text} (h : s.store = .memory outputs)
    (name : Name) (draft : Draft) (d : Disk) :
    (s.write name draft).run d =
      (.ok { s with store := .memory (if draft.complete then
        Table.put name (Text.join draft.parts) outputs else outputs) }, d) := by
  unfold write
  rw [h]
  cases draft.complete with
  | true => rfl
  | false =>
    obtain ⟨store, created⟩ := s
    simp only at h
    subst h
    rfl

theorem outputs_of_memory {s : Sink} {outputs : Table Name Text} (h : s.store = .memory outputs) :
    s.outputs = outputs := by
  rw [Sink.outputs, h]

theorem outputs_of_directory {s : Sink} {root : Path} (h : s.store = .directory root) :
    s.outputs = [] := by
  rw [Sink.outputs, h]

theorem write_sink {s s' : Sink} {name : Name} {draft : Draft} {d' : Disk}
    (h : (s.write name draft).run d = (.ok s', d')) :
    s'.created = s.created ∧ ∀ root, s'.store = .directory root ↔ s.store = .directory root := by
  cases hstore : s.store with
  | memory outputs =>
    rw [run_write_memory hstore] at h
    obtain ⟨hsink, -⟩ := Prod.mk.inj h
    obtain rfl := Except.ok.inj hsink
    exact ⟨rfl, fun root => iff_of_false (by simp) (by simp)⟩
  | directory root =>
    rw [run_write_directory hstore] at h
    split at h
    · cases h
    · split at h
      · cases h
      · obtain ⟨hsink, -⟩ := Prod.mk.inj h
        obtain rfl := Except.ok.inj hsink
        exact ⟨rfl, fun root' => by rw [hstore]⟩

theorem appendParts_of_error {t : Text} {e : Utf8.EncodeError} (h : Utf8.encode t = .error e)
    (p : Path) (rest : List Text) (d : Disk) :
    (appendParts p (t :: rest)).run d = (.error (.encoding e), d) := by
  rw [appendParts, h]
  rfl

theorem appendParts_of_ok {t : Text} {content : Bytes} (hd : d.Sound)
    (h : Utf8.encode t = .ok content) (hread : d.read p = .ok []) :
    ∃ d', (appendParts p [t]).run d = (.ok (), d') ∧ Disk.Keeps (· = d.placeOf p) d d' ∧
      d'.read p = .ok content := by
  obtain ⟨d', hrun, hread'⟩ := Disk.run_append_of_read hd hread content
  have hkeeps := Disk.keeps_append hd p content
  rw [hrun] at hkeeps
  refine ⟨d', ?_, hkeeps, hread'⟩
  rw [appendParts, h]
  simp only
  rw [exceptT_run_bind, run_onDisk, hrun]
  rfl

end Sink

end LookupGen
