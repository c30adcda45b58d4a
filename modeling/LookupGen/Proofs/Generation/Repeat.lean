import LookupGen.Proofs.Generation.Resumes

/-!
# Generations that are repeated

A generation that starts on a disk that has grown from the end of another one, with the same
classes, answers as that one did and reports the same. The texts that it writes are there already,
so no file is changed, the logs apart.
-/

namespace LookupGen

open Disk (Grows)

namespace Generation

open Session (Logs Grown)

variable {r : Rules} {c : LookupClass} {cs : List LookupClass} {p q : Progress} {root : Path}
  {names : List Text}

def SameFiles (log : Option Path) (s s' : Session) : Prop :=
  ∀ names, ¬ Logs log s names → s'.disk.contentAt? names = s.disk.contentAt? names

theorem SameFiles.trans {log : Option Path} {s s' s'' : Session} (h : SameFiles log s s')
    (hlogs : ∀ names, Logs log s' names ↔ Logs log s names) (h' : SameFiles log s' s'') :
    SameFiles log s s'' := by
  intro names hnames
  exact (h' names (mt (hlogs names).mp hnames)).trans (h names hnames)

theorem SameFiles.symm {log : Option Path} {s s' : Session} (h : SameFiles log s s')
    (hlogs : ∀ names, Logs log s' names ↔ Logs log s names) : SameFiles log s' s := by
  intro names hnames
  exact (h names (mt (hlogs names).mpr hnames)).symm

theorem sameFiles_of_grown {log : Option Path} {s s' : Session} (h : Grown (Logs log s) s s') :
    SameFiles log s s' := h.grows.keeps.files

theorem sameFiles_of_records (log : Option Path) {s s' : Session} (h : Grown (Logs none s) s s') :
    SameFiles log s s' := sameFiles_of_grown (h.mono fun _ => Session.logs_of_none)

/-- A class that is generated again leaves its file with the content that it had in the end. -/
theorem sameFiles_generate (hup : Path.up ∉ root.names) (hq : q.session.disk.Sound)
    {final : Session} (h : Resumes root ((generate r c).run p).2.session.disk p q)
    (hlogs : ∀ names, Logs r.errorLog final names ↔ Logs r.errorLog p.session names)
    (hlogsq : ∀ names, Logs r.errorLog q.session names ↔ Logs r.errorLog p.session names)
    (hfinal : Opens p root c → ¬ Logs r.errorLog p.session (placeOf p root c) →
      final.disk.contentAt? (placeOf p root c) =
        ((generate r c).run p).2.session.disk.contentAt? (placeOf p root c))
    (hsame : SameFiles r.errorLog final q.session) :
    SameFiles r.errorLog final ((generate r c).run q).2.session := by
  intro names hnames
  have hnot := mt (hlogs names).mpr hnames
  have hnotq := mt (hlogsq names).mp hnot
  have hstoreq : q.sink.store = .directory root := by rw [h.sink, h.store]
  have hopens := opens_again hup h.delivered
  have hplace : placeOf q root c = placeOf p root c := by
    have hdelivered := grown_generate h.sound (covers_all r p) c
    exact (h.grows.placeOf_eq _).trans (hdelivered.grows.placeOf_eq _)
  obtain ⟨hwrites, hkeeps⟩ := @generate_files r c q root hstoreq hq names hnotq
  by_cases hwritten : Opens q root c ∧ names = placeOf q root c
  · obtain ⟨hopened, rfl⟩ := hwritten
    have hopenedp := hopens.mp hopened
    rw [hwrites hopened rfl, hplace]
    rw [hplace] at hnot
    rw [hfinal hopenedp hnot, (generate_files h.store h.sound hnot).1 hopenedp rfl]
  · rw [hkeeps hwritten]
    exact hsame names hnames

theorem generateAll_leaves (hd : p.session.disk.Sound) (hstore : p.sink.store = .directory root)
    (hopens : Opens p root c) (hnot : ¬ Logs r.errorLog p.session (placeOf p root c)) :
    ((generateAll r cs).run ((generate r c).run p).2).2.session.disk.contentAt? (placeOf p root c) =
      ((generate r c).run p).2.session.disk.contentAt? (placeOf p root c) := by
  have hgrown := grown_generate hd (covers_all r p) c
  have hplace : placeOf ((generate r c).run p).2 root c = placeOf p root c :=
    hgrown.grows.placeOf_eq _
  have hsink := deliver_sink r.generator c p
  rw [← generate_sink] at hsink
  have hnew : IsNew p c.target := hopens.1
  rw [← hplace]
  apply generateAll_keeps (hgrown.sound hd) ((hsink.2 root).mpr hstore) hnew.1
  · rw [hsink.1, if_pos hnew]
    exact List.mem_cons_self
  · rw [hgrown.logs_iff, hplace]
    exact hnot

theorem Resumes.next {reached : Disk} (hup : Path.up ∉ root.names) (hq : q.session.disk.Sound)
    (hlater : Grows (fun _ => True) ((generate r c).run p).2.session.disk reached)
    (h : Resumes root reached p q) :
    Resumes root reached ((generate r c).run p).2 ((generate r c).run q).2 := by
  have hgrown := grown_generate h.sound (covers_all r p) c
  have hgrownq := grown_generate hq (covers_all r q) c
  have hstores := (deliver_sink r.generator c p).2
  rw [← generate_sink] at hstores
  exact {
    sound := hgrown.sound h.sound
    store := (hstores root).mpr h.store
    sink := generate_sink_eq h.store h.sink
    diagnostics := (generate_again hup hq
      ⟨h.sound, h.store, h.sink, h.diagnostics, h.file, hlater.trans h.grows⟩).2
    file := hgrownq.file.trans (h.file.trans hgrown.file.symm)
    grows := h.grows.trans hgrownq.grows }

theorem generateAll_cons_ok {lists : List Name × List Name}
    (h : ((generateAll r (c :: cs)).run p).1 = .ok lists) :
    ∃ written rest, ((generate r c).run p).1 = .ok written ∧
      ((generateAll r cs).run ((generate r c).run p).2).1 = .ok rest ∧
      lists = if written then (c.target :: rest.1, rest.2) else (rest.1, c.target :: rest.2) := by
  rw [run_generateAll_cons] at h
  cases hfirst : ((generate r c).run p).1 with
  | error e =>
    rw [hfirst] at h
    cases h
  | ok written =>
    rw [hfirst] at h
    simp only at h
    cases hrest : ((generateAll r cs).run ((generate r c).run p).2).1 with
    | error e =>
      rw [hrest] at h
      cases h
    | ok rest =>
      rw [hrest] at h
      exact ⟨written, rest, rfl, rfl, (Except.ok.inj h).symm⟩

theorem generateAll_cons_error {e : Utf8.EncodeError}
    (h : ((generateAll r (c :: cs)).run p).1 = .error e) :
    ((generate r c).run p).1 = .error e ∨ ∃ written, ((generate r c).run p).1 = .ok written ∧
      ((generateAll r cs).run ((generate r c).run p).2).1 = .error e := by
  rw [run_generateAll_cons] at h
  cases hfirst : ((generate r c).run p).1 with
  | error e' =>
    rw [hfirst] at h
    obtain rfl := Except.error.inj h
    exact .inl rfl
  | ok written =>
    rw [hfirst] at h
    simp only at h
    cases hrest : ((generateAll r cs).run ((generate r c).run p).2).1 with
    | error e' =>
      rw [hrest] at h
      obtain rfl := Except.error.inj h
      exact .inr ⟨written, rfl, rfl⟩
    | ok rest =>
      rw [hrest] at h
      cases h

theorem generateAll_again (hup : Path.up ∉ root.names) (hq : q.session.disk.Sound)
    (h : Resumes root ((generateAll r cs).run p).2.session.disk p q)
    (hsame : SameFiles r.errorLog ((generateAll r cs).run p).2.session q.session)
    {lists : List Name × List Name} (hrun : ((generateAll r cs).run p).1 = .ok lists) :
    ((generateAll r cs).run q).1 = .ok lists ∧
      ((generateAll r cs).run q).2.diagnostics = ((generateAll r cs).run p).2.diagnostics ∧
      SameFiles r.errorLog ((generateAll r cs).run p).2.session
        ((generateAll r cs).run q).2.session := by
  induction cs generalizing p q lists with
  | nil => exact ⟨hrun, h.diagnostics, hsame⟩
  | cons c rest ih =>
    have hfirst := grown_generate h.sound (covers_all r p) c
    have hfirstq := grown_generate hq (covers_all r q) c
    obtain ⟨written, lists', hanswer, hrestanswer, hlists⟩ := generateAll_cons_ok hrun
    have hrest := grown_generateAll (hfirst.sound h.sound) (covers_all r _) rest
    rw [run_generateAll_cons, hanswer] at hrun h hsame
    simp only at hrun h hsame
    have hstep : Resumes root ((generate r c).run p).2.session.disk p q :=
      ⟨h.sound, h.store, h.sink, h.diagnostics, h.file, hrest.grows.trans h.grows⟩
    have hwhole := hfirst.trans hrest
    have hlogsq (names : List Text) : Logs r.errorLog q.session names ↔
        Logs r.errorLog p.session names :=
      Session.logs_congr (hwhole.grows.trans h.grows).keeps h.file names
    have hsameq := sameFiles_generate hup hq hstep (hwhole.logs_iff _) hlogsq
      (generateAll_leaves h.sound h.store) hsame
    obtain ⟨hanswers, hlast⟩ :=
      ih (hfirstq.sound hq) (h.next hup hq hrest.grows) hsameq hrestanswer
    rw [hrestanswer] at hrun
    rw [run_generateAll_cons, run_generateAll_cons, (generate_again hup hq hstep).1, hanswer]
    simp only
    rw [hanswers]
    exact ⟨hrun, hlast⟩

def collected (r : Rules) (elements : List Element) (ms : List MarkedType) (p : Progress) :
    Progress :=
  ((extractAll ms).run ((record .debug (Text.join ["Discovered ",
    Text.ofNat (found r elements).length, " constant provider classes"])).run p).2).2

theorem collected_shown (r : Rules) (elements : List Element) (ms : List MarkedType)
    (p : Progress) :
    (collected r elements ms p).sink = p.sink ∧
      (collected r elements ms p).diagnostics =
        p.diagnostics ++ ms.flatMap fun m => (extract m).2 := extractAll_shown ms _

theorem grown_collected (hd : p.session.disk.Sound) (log : Option Path) (elements : List Element)
    (ms : List MarkedType) :
    Grown (Logs log p.session) p.session (collected r elements ms p).session := by
  have hrecorded : Grown (Logs log p.session) p.session ((record .debug (Text.join ["Discovered ",
      Text.ofNat (found r elements).length, " constant provider classes"])).run p).2.session :=
    Session.grown_record hd log _ _ _
  exact hrecorded.after (grown_extractAll (hrecorded.sound hd) log ms)

def classes (ms : List MarkedType) : List LookupClass := (ordered ms).map fun m => (extract m).1

theorem run_process_of_marked {elements : List Element} {ms : List MarkedType}
    (hmarked : markedTypes r.marker (found r elements) = .ok ms) (p : Progress) :
    (process r elements).run p =
      let written := (generateAll r (classes ms)).run (collected r elements ms p)
      (match written.1 with
        | .error e => .error (.unrecordable e)
        | .ok (generated, failed) =>
          .ok ⟨generated, failed, (ms.filter fun m => !hasConstants m.element).map (·.name)⟩,
        written.2) := by
  rw [run_process, hmarked]
  simp only [extractAll_answer, sort_classes]
  rfl

theorem process_ok {elements : List Element} {ms : List MarkedType} {result : Result}
    (hmarked : markedTypes r.marker (found r elements) = .ok ms)
    (hrun : ((process r elements).run p).1 = .ok result) :
    ∃ failed, ((generateAll r (classes ms)).run (collected r elements ms p)).1 =
        .ok (result.generated, failed) ∧
      result =
        ⟨result.generated, failed, (ms.filter fun m => !hasConstants m.element).map (·.name)⟩ := by
  rw [run_process_of_marked hmarked] at hrun
  simp only at hrun
  split at hrun
  · cases hrun
  · rename_i generated failed hlists
    obtain rfl := Except.ok.inj hrun
    exact ⟨failed, hlists, rfl⟩

theorem process_error {elements : List Element} {ms : List MarkedType} {abort : Abort}
    (hmarked : markedTypes r.marker (found r elements) = .ok ms)
    (hrun : ((process r elements).run p).1 = .error abort) :
    ∃ e, ((generateAll r (classes ms)).run (collected r elements ms p)).1 = .error e ∧
      abort = .unrecordable e := by
  rw [run_process_of_marked hmarked] at hrun
  simp only at hrun
  split at hrun
  · rename_i e he
    exact ⟨e, he, (Except.error.inj hrun).symm⟩
  · cases hrun

/-- Of the same elements two generations collect the same, the one wherever the other has come to.
-/
theorem Resumes.collected {elements : List Element} {ms : List MarkedType} {reached : Disk}
    (hq : q.session.disk.Sound) (h : Resumes root reached p q) :
    Resumes root reached (collected r elements ms p) (collected r elements ms q) := by
  have hcollected := @grown_collected r p h.sound r.errorLog elements ms
  have hcollectedq := @grown_collected r q hq r.errorLog elements ms
  obtain ⟨hsink, hshown⟩ := collected_shown r elements ms p
  obtain ⟨hsinkq, hshownq⟩ := collected_shown r elements ms q
  exact {
    sound := hcollected.sound h.sound
    store := by rw [hsink, h.store]
    sink := by rw [hsink, hsinkq, h.sink]
    diagnostics := by rw [hshown, hshownq, h.diagnostics]
    file := hcollectedq.file.trans (h.file.trans hcollected.file.symm)
    grows := h.grows.trans (hcollectedq.grows.mono fun _ _ => trivial) }

/-- A generation of the same elements with the same rules, started where another one has ended or
later, with an empty sink for the same directory. -/
theorem process_again {elements : List Element} {result : Result} (hup : Path.up ∉ root.names)
    (hd : p.session.disk.Sound) (hp : p.sink = Sink.below root) (hq' : q.sink = Sink.below root)
    (hdiagnostics : q.diagnostics = p.diagnostics)
    (hfile : q.session.journal.file = p.session.journal.file)
    (hrun : ((process r elements).run p).1 = .ok result)
    (hgrows : Grows (fun _ => True) ((process r elements).run p).2.session.disk q.session.disk)
    (hsame : SameFiles r.errorLog ((process r elements).run p).2.session q.session) :
    ((process r elements).run q).1 = .ok result ∧
      ((process r elements).run q).2.diagnostics = ((process r elements).run p).2.diagnostics ∧
      SameFiles r.errorLog ((process r elements).run p).2.session
        ((process r elements).run q).2.session := by
  cases hmarked : markedTypes r.marker (found r elements) with
  | error e =>
    rw [run_process, hmarked] at hrun
    cases hrun
  | ok ms =>
    obtain ⟨failed, hlists, -⟩ := process_ok hmarked hrun
    rw [run_process_of_marked hmarked] at hrun hgrows hsame
    rw [run_process_of_marked hmarked, run_process_of_marked hmarked]
    simp only [hlists] at hrun hgrows hsame
    have hcollected := @grown_collected r p hd r.errorLog elements ms
    have hwritten := grown_generateAll (hcollected.sound hd) (covers_all r _) (classes ms)
    have hq := hgrows.sound (hwritten.sound (hcollected.sound hd))
    have hcollectedq := @grown_collected r q hq r.errorLog elements ms
    have hstart : Resumes root ((generateAll r (classes ms)).run
        (collected r elements ms p)).2.session.disk p q :=
      ⟨hd, by rw [hp, Sink.below], hq'.trans hp.symm, hdiagnostics, hfile, hgrows⟩
    have hlogs (names : List Text) : Logs r.errorLog q.session names ↔
        Logs r.errorLog ((generateAll r (classes ms)).run
          (collected r elements ms p)).2.session names := by
      apply Session.logs_congr hgrows.keeps
      exact hfile.trans (hcollected.file.symm.trans hwritten.file.symm)
    have hsameq : SameFiles r.errorLog ((generateAll r (classes ms)).run
        (collected r elements ms p)).2.session (collected r elements ms q).session :=
      SameFiles.trans hsame hlogs (sameFiles_of_grown hcollectedq)
    obtain ⟨hanswers, hlast⟩ :=
      generateAll_again hup (hcollectedq.sound hq) (hstart.collected hq) hsameq hlists
    simp only [hanswers]
    exact ⟨hrun, hlast⟩

end Generation

end LookupGen
