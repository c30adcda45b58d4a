import LookupGen.Proofs.Generation.DryRun

/-!
# What a generation in memory foretells

A generation in memory foretells the outcome of one below a directory, and breaks off at the same
failure. They part only where a failure cannot be recorded by one of them.
-/

namespace LookupGen

open Disk (Grows)

namespace Generation

open Session (Logs)

variable {r : Rules} {c d : LookupClass} {cs : List LookupClass} {p q : Progress} {root : Path}
  {outputs : Table Name Text}

/-- An error log that could not be opened on a disk that this one has grown from. -/
def Shut (path : Path) (d : Disk) : Prop :=
  ∃ d₀ e d₁, d₀.Sound ∧ (ErrorLog.openFile path).run d₀ = (.error e, d₁) ∧
    Grows (fun _ => True) d₁ d

theorem Shut.later {path : Path} {d d' : Disk} (h : Shut path d)
    (hgrows : Grows (fun _ => True) d d') : Shut path d' := by
  obtain ⟨d₀, e, d₁, hd₀, hopen, hlater⟩ := h
  exact ⟨d₀, e, d₁, hd₀, hopen, hlater.trans hgrows⟩

theorem Shut.openFile {path : Path} {d : Disk} (h : Shut path d) :
    ∃ e, ((ErrorLog.openFile path).run d).1 = .error e := by
  obtain ⟨d₀, e, d₁, hd₀, hopen, hlater⟩ := h
  rw [ErrorLog.openFile_eq] at hopen ⊢
  obtain ⟨e', hagain⟩ := Disk.run_openWith_error hd₀ hopen hlater fun old => old ++ []
  exact ⟨e', congrArg Prod.fst hagain⟩

theorem generateAll_of_shut {path : Path} (hlog : r.errorLog = some path)
    (hd : p.session.disk.Sound) (hshut : Shut path p.session.disk) :
    ∃ lists, ((generateAll r cs).run p).1 = .ok lists := by
  induction cs generalizing p with
  | nil => exact ⟨_, rfl⟩
  | cons c cs ih =>
    have hgrown := grown_generate hd (covers_all r p) c
    obtain ⟨written, hfirst⟩ : ∃ written, ((generate r c).run p).1 = .ok written := by
      rw [generate_answer]
      cases hdeliver : ((deliver r.generator c).run p).1 with
      | ok u => exact ⟨true, rfl⟩
      | error f =>
        have hdelivered := grown_deliver hd (covers_all r p) r.generator c
        have hreported := Session.grown_record (hdelivered.sound hd) none
          (failureReport c f).severity.level Diagnostic.part (failureReport c f).text
        obtain ⟨e, hopen⟩ := (hshut.later (hdelivered.grows.trans
          (hreported.grows.mono fun _ _ => trivial))).openFile
        have hfailed : ((ErrorLog.openFile path).run (failed r c f p).disk).1 = .error e := hopen
        simp only
        rw [hlog]
        simp only
        rw [hfailed]
        exact ⟨false, rfl⟩
    obtain ⟨lists, hrest⟩ := ih (hgrown.sound hd) (hshut.later hgrown.grows)
    rw [run_generateAll_cons, hfirst]
    simp only
    rw [hrest]
    exact ⟨_, rfl⟩

theorem generate_error {e : Utf8.EncodeError} (h : ((generate r c).run p).1 = .error e) :
    ∃ f path, ((deliver r.generator c).run p).1 = .error f ∧ r.errorLog = some path ∧
      Utf8.encode (failureEntry c f).toText = .error e := by
  rw [generate_answer] at h
  cases hdeliver : ((deliver r.generator c).run p).1 with
  | ok u =>
    rw [hdeliver] at h
    cases h
  | error f =>
    rw [hdeliver] at h
    cases hlog : r.errorLog with
    | none =>
      simp only [hlog] at h
      cases h
    | some path =>
      simp only [hlog] at h
      split at h
      · cases h
      · cases hencode : Utf8.encode (failureEntry c f).toText with
        | ok content =>
          rw [hencode] at h
          cases h
        | error e' =>
          rw [hencode] at h
          obtain rfl := Except.error.inj h
          exact ⟨f, path, rfl, rfl, hencode⟩

/-- A failure that cannot be recorded is answered for only where the error log cannot be opened. -/
theorem shut_of_answer (hd : p.session.disk.Sound) {f : Failure} {path : Path}
    {e : Utf8.EncodeError} {written : Bool}
    (hdeliver : ((deliver r.generator c).run p).1 = .error f)
    (hlog : r.errorLog = some path) (hencode : Utf8.encode (failureEntry c f).toText = .error e)
    (hanswer : ((generate r c).run p).1 = .ok written) :
    Shut path ((generate r c).run p).2.session.disk := by
  obtain ⟨hd₁, hgrows⟩ := grows_failed hd (covers_all r p) hdeliver hlog
  rw [generate_answer, hdeliver] at hanswer
  simp only [hlog, hencode] at hanswer
  cases hopen : (ErrorLog.openFile path).run (failed r c f p).disk with
  | mk answer d₁ =>
    rw [hopen] at hanswer hgrows
    cases answer with
    | ok u => cases hanswer
    | error e' => exact ⟨_, e', d₁, hd₁, hopen, hgrows⟩

theorem generateAll_of_answer (hd : p.session.disk.Sound) {f : Failure} {path : Path}
    {e : Utf8.EncodeError} {written : Bool}
    (hdeliver : ((deliver r.generator c).run p).1 = .error f)
    (hlog : r.errorLog = some path) (hencode : Utf8.encode (failureEntry c f).toText = .error e)
    (hanswer : ((generate r c).run p).1 = .ok written) (cs : List LookupClass) :
    ∃ lists, ((generateAll r cs).run ((generate r c).run p).2).1 = .ok lists := by
  apply generateAll_of_shut hlog
  · exact (grown_generate hd (covers_all r p) c).sound hd
  · exact shut_of_answer hd hdeliver hlog hencode hanswer

/-- Two generations that both break off do so with the same failure: where one of them does, the
other one does too unless its error log cannot be opened, and then it never breaks off. -/
theorem Mirrors.break_alike (h : Mirrors root outputs p q) (hdp : p.session.disk.Sound)
    (hd : q.session.disk.Sound) (hlogs : LogsElsewhere r root q.session) (hsmooth : Smooth r cs q)
    {e e' : Utf8.EncodeError} (hp : ((generateAll r cs).run p).1 = .error e)
    (hq : ((generateAll r cs).run q).1 = .error e') : e = e' := by
  induction cs generalizing p q outputs with
  | nil => cases hp
  | cons c cs ih =>
    have hsame := h.delivered hd hsmooth
    rcases generateAll_cons_error hp with hfirst | ⟨written, hfirst, hrest⟩
    · obtain ⟨f, path, hdeliver, hlog, hencode⟩ := generate_error hfirst
      rw [hsame] at hdeliver
      rcases generateAll_cons_error hq with hfirst' | ⟨written', hfirst', hrest'⟩
      · obtain ⟨f', path', hdeliver', -, hencode'⟩ := generate_error hfirst'
        obtain rfl := Except.error.inj (hdeliver.symm.trans hdeliver')
        exact Except.error.inj (hencode.symm.trans hencode')
      · obtain ⟨lists, hlists⟩ := generateAll_of_answer hd hdeliver hlog hencode hfirst' cs
        rw [hlists] at hrest'
        cases hrest'
    · rcases generateAll_cons_error hq with hfirst' | ⟨written', hfirst', hrest'⟩
      · obtain ⟨f, path, hdeliver, hlog, hencode⟩ := generate_error hfirst'
        rw [← hsame] at hdeliver
        obtain ⟨lists, hlists⟩ := generateAll_of_answer hdp hdeliver hlog hencode hfirst cs
        rw [hlists] at hrest
        cases hrest
      · have hgrownp := grown_generate hdp (covers_all r p) c
        have hgrown := grown_generate hd (covers_all r q) c
        obtain ⟨outputs', hmirrors, -⟩ := h.generated hd hlogs hsmooth
        exact ih hmirrors (hgrownp.sound hdp) (hgrown.sound hd) (hlogs.later hgrown)
          (hsmooth.tail hfirst') hrest hrest'

/-- A generation below a directory that meets no failure of the disk, and renders no text without a
UTF-8 form. -/
def SmoothProcess (r : Rules) (elements : List Element) (q : Progress) : Prop :=
  ∀ ms, markedTypes r.marker (found r elements) = .ok ms →
    Smooth r (classes ms) (collected r elements ms q)

section Whole

variable {elements : List Element} {s : Session}

theorem mirrors_collected (ms : List MarkedType) :
    Mirrors root [] (collected r elements ms ⟨s, Sink.inMemory, []⟩)
      (collected r elements ms ⟨s, Sink.below root, []⟩) := by
  obtain ⟨hsinkp, hshownp⟩ := collected_shown r elements ms ⟨s, Sink.inMemory, []⟩
  obtain ⟨hsinkq, hshownq⟩ := collected_shown r elements ms ⟨s, Sink.below root, []⟩
  refine ⟨?_, ?_, ?_, ?_, List.nodup_nil, List.forall_mem_nil _, List.forall_mem_nil _⟩
  · rw [hsinkp]
    rfl
  · rw [hsinkq]
    rfl
  · rw [hsinkp, hsinkq]
    rfl
  · rw [hshownp, hshownq]

/-- What the generation in memory, with its outputs and diagnostics, tells about the one below a
directory. -/
structure Foretells (r : Rules) (root : Path) (s : Session) (result : Result) (p q : Progress) :
    Prop where
  diagnostics : p.diagnostics = q.diagnostics
  valid : ∀ name ∈ result.generated, Name.isValid name = true
  files : ∀ name ∈ result.generated, ∃ text content, p.sink.outputs.lookup name = some text ∧
    Utf8.encode text = .ok content ∧
    q.session.disk.contentAt? (s.disk.placeOf (Sink.pathOf root name)) = some content
  others : ∀ names, ¬ Logs r.errorLog s names →
    (∀ name ∈ result.generated, names ≠ s.disk.placeOf (Sink.pathOf root name)) →
    q.session.disk.contentAt? names = s.disk.contentAt? names

theorem process_foretells (hd : s.disk.Sound) (hlogs : LogsElsewhere r root s)
    (hsmooth : SmoothProcess r elements ⟨s, Sink.below root, []⟩) {result result' : Result}
    (hp : ((process r elements).run ⟨s, Sink.inMemory, []⟩).1 = .ok result)
    (hq : ((process r elements).run ⟨s, Sink.below root, []⟩).1 = .ok result') :
    result = result' ∧ Foretells r root s result
      ((process r elements).run ⟨s, Sink.inMemory, []⟩).2
      ((process r elements).run ⟨s, Sink.below root, []⟩).2 := by
  cases hmarked : markedTypes r.marker (found r elements) with
  | error e =>
    rw [process_missing hmarked] at hp
    cases hp
  | ok ms =>
    obtain ⟨failed, hlists, hresult⟩ := process_ok hmarked hp
    obtain ⟨failed', hlists', hresult'⟩ := process_ok hmarked hq
    have hgrown := @grown_collected r ⟨s, Sink.below root, []⟩ hd r.errorLog elements ms
    have hmirrors := @mirrors_collected r root elements s ms
    obtain ⟨hsame, outputs, hlast, hkeys⟩ := hmirrors.generatedAll (hgrown.sound hd)
      (hlogs.later hgrown) (hsmooth ms hmarked) hlists hlists'
    obtain ⟨hgenerated, rfl⟩ := Prod.mk.inj hsame
    have hwritten := grown_generateAll (hgrown.sound hd) (covers_all r _) (classes ms)
    have hkeys : Table.keys outputs = result.generated := hkeys
    rw [run_process_of_marked hmarked, run_process_of_marked hmarked]
    refine ⟨?_, hlast.diagnostics, ?_, ?_, ?_⟩
    · rw [hresult, hresult', hgenerated]
    · intro name hname
      obtain ⟨x, hx, rfl⟩ := List.mem_map.mp (hkeys ▸ hname : name ∈ Table.keys outputs)
      exact (hlast.named x hx).1
    · intro name hname
      obtain ⟨x, hx, rfl⟩ := List.mem_map.mp (hkeys ▸ hname : name ∈ Table.keys outputs)
      obtain ⟨content, hencode, hcontent⟩ := hlast.files x hx
      refine ⟨x.2, content, ?_, hencode, ?_⟩
      · have hlookup := (Table.mem_iff_lookup hlast.nodup).mp hx
        exact (congrArg (List.lookup x.1) (Sink.outputs_of_memory hlast.memory)).trans hlookup
      · rw [hwritten.grows.placeOf_eq, hgrown.grows.placeOf_eq] at hcontent
        exact hcontent
    · intro names hnames hother
      have hstart := hgrown.grows.keeps.files names hnames
      refine ((hsmooth ms hmarked).frame (hgrown.sound hd) hmirrors.directory
        (fun c hc => entries_of_mem_ordered hc) hlists' (mt (hgrown.logs_iff _ names).mp hnames)
        ?_).trans hstart
      intro name hname
      rw [hgrown.grows.placeOf_eq]
      exact hother name (hgenerated ▸ hname)

theorem process_break_alike (hd : s.disk.Sound) (hlogs : LogsElsewhere r root s)
    (hsmooth : SmoothProcess r elements ⟨s, Sink.below root, []⟩) {abort abort' : Abort}
    (hp : ((process r elements).run ⟨s, Sink.inMemory, []⟩).1 = .error abort)
    (hq : ((process r elements).run ⟨s, Sink.below root, []⟩).1 = .error abort') :
    abort = abort' := by
  cases hmarked : markedTypes r.marker (found r elements) with
  | error e =>
    rw [process_missing hmarked] at hp hq
    exact Except.error.inj (hp.symm.trans hq)
  | ok ms =>
    obtain ⟨e, he, rfl⟩ := process_error hmarked hp
    obtain ⟨e', he', rfl⟩ := process_error hmarked hq
    have hgrownp := @grown_collected r ⟨s, Sink.inMemory, []⟩ hd r.errorLog elements ms
    have hgrown := @grown_collected r ⟨s, Sink.below root, []⟩ hd r.errorLog elements ms
    have hmirrors := @mirrors_collected r root elements s ms
    rw [hmirrors.break_alike (hgrownp.sound hd) (hgrown.sound hd) (hlogs.later hgrown)
      (hsmooth ms hmarked) he he']

end Whole

end Generation

end LookupGen
