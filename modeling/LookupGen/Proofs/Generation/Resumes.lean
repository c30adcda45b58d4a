import LookupGen.Proofs.Generation.Answers
import LookupGen.Proofs.Sink.Place

/-!
# A class that is generated again

A class is generated on a disk that has grown from the one on which it was generated before. Its
file can be opened if it could be opened then, and the answer and what is reported are the same.
-/

namespace LookupGen

open Disk (Grows)

namespace Disk

variable {files : List Text → Prop} {d d' : Disk} {p : Path}

theorem isOk_openWith_iff (hd : d.Sound) {content content' : Bytes → Bytes}
    (hlater : Grows files ((openWith content p).run d).2 d') :
    ((openWith content' p).run d').1 = .ok () ↔ ((openWith content p).run d).1 = .ok () := by
  cases hrun : (openWith content p).run d with
  | mk answer d₁ =>
    rw [hrun] at hlater
    cases answer with
    | ok u => exact iff_of_true (run_openWith_again hd hrun hlater content') rfl
    | error e =>
      obtain ⟨e', hrun'⟩ := run_openWith_error hd hrun hlater content'
      rw [hrun']
      exact iff_of_false (by simp) (by simp)

end Disk

namespace Sink

variable {files : List Text → Prop} {d d' d₁ : Disk} {p : Path}

theorem run_openFile_again (hd : d.Sound) (hrun : (openFile p).run d = (.ok (), d₁))
    (hlater : Grows files d₁ d') :
    ∃ d₂, (openFile p).run d' = (.ok (), d₂) := by
  rw [openFile_eq] at hrun ⊢
  exact ⟨_, Prod.ext (Disk.run_openWith_again hd hrun hlater fun _ => []) rfl⟩

theorem run_openFile_same_error (hd : d.Sound) (hup : Path.up ∉ p.names) {e : DiskError}
    (hrun : (openFile p).run d = (.error e, d₁)) (hlater : Grows files d₁ d') :
    (openFile p).run d' = (.error e, d') := by
  rw [openFile_eq] at hrun ⊢
  exact Disk.run_openWith_same_error hd hup hrun hlater _

end Sink

namespace Generation

open Session (Logs)

variable {r : Rules} {c : LookupClass} {cs : List LookupClass} {p q : Progress} {root : Path}
  {names : List Text}

theorem covers_all (r : Rules) (p : Progress) : Covers (fun _ => True) r.errorLog p :=
  ⟨fun _ _ => trivial, fun _ _ _ _ => trivial⟩

/-- A file other than the logs that belongs to no class whose name can still be given out has what
it had. -/
theorem generateAll_frame (hd : p.session.disk.Sound) (hstore : p.sink.store = .directory root)
    (hlogs : ¬ Logs r.errorLog p.session names)
    (hother : ∀ c ∈ cs, IsNew p c.target → names ≠ placeOf p root c) :
    ((generateAll r cs).run p).2.session.disk.contentAt? names =
      p.session.disk.contentAt? names := by
  induction cs generalizing p with
  | nil => rfl
  | cons c rest ih =>
    have hgrown := grown_generate hd (covers_all r p) c
    have hfirst := (generate_files hstore hd hlogs (c := c)).2 fun hwritten =>
      hother c List.mem_cons_self hwritten.1.1 hwritten.2
    rw [run_generateAll_cons]
    cases hanswer : ((generate r c).run p).1 with
    | error e => exact hfirst
    | ok written =>
      have hsink := deliver_sink r.generator c p
      rw [← generate_sink] at hsink
      obtain ⟨hcreated, hstores⟩ := hsink
      refine (ih (hgrown.sound hd) ((hstores root).mpr hstore)
        (fun h => hlogs ((hgrown.logs_iff _ names).mp h)) ?_).trans hfirst
      rintro d hd ⟨hvalid, hnew⟩
      unfold placeOf
      rw [hgrown.grows.placeOf_eq]
      apply hother d (List.mem_cons_of_mem c hd)
      refine ⟨hvalid, fun hmem => hnew ?_⟩
      rw [hcreated]
      split
      · exact List.mem_cons_of_mem _ hmem
      · exact hmem

theorem generateAll_keeps (hd : p.session.disk.Sound) (hstore : p.sink.store = .directory root)
    (hvalid : Name.isValid c.target = true) (hcreated : c.target ∈ p.sink.created)
    (hlogs : ¬ Logs r.errorLog p.session (placeOf p root c)) :
    ((generateAll r cs).run p).2.session.disk.contentAt? (placeOf p root c) =
      p.session.disk.contentAt? (placeOf p root c) := by
  apply generateAll_frame hd hstore hlogs
  rintro d - ⟨hvalid', hnew⟩ hplace
  have htarget := Sink.pathOf_injective hd hvalid hvalid' hplace
  exact hnew (htarget ▸ hcreated)

/-- A generation that starts with the sink of another one, its disk grown from where that one has
come to since. -/
structure Resumes (root : Path) (reached : Disk) (p q : Progress) : Prop where
  sound : p.session.disk.Sound
  store : p.sink.store = .directory root
  sink : q.sink = p.sink
  diagnostics : q.diagnostics = p.diagnostics
  file : q.session.journal.file = p.session.journal.file
  grows : Grows (fun _ => True) reached q.session.disk

theorem isNew_congr (hsink : q.sink = p.sink) (name : Name) : IsNew q name ↔ IsNew p name := by
  unfold IsNew
  rw [hsink]

theorem openFile_again (hup : Path.up ∉ root.names) (hnew : IsNew p c.target)
    (h : Resumes root ((deliver r.generator c).run p).2.session.disk p q) :
    ((Sink.openFile (Sink.pathOf root c.target)).run q.session.disk).1 =
      ((Sink.openFile (Sink.pathOf root c.target)).run p.session.disk).1 := by
  have hnames : Path.up ∉ (Sink.pathOf root c.target).names := by
    rw [Sink.pathOf_eq hnew.1]
    intro hmem
    rcases List.mem_append.mp hmem with hmem | hmem
    · exact hup hmem
    · exact Sink.up_not_mem_fileNames hnew.1 hmem
  have hgrows := (@deliver_directory c p root r.generator h.store h.sound hnew).2.trans h.grows
  cases hopen : (Sink.openFile (Sink.pathOf root c.target)).run p.session.disk with
  | mk answer d₁ =>
    rw [hopen] at hgrows
    cases answer with
    | ok u =>
      obtain ⟨d₂, hagain⟩ := Sink.run_openFile_again h.sound hopen hgrows
      rw [hagain]
    | error e => rw [Sink.run_openFile_same_error h.sound hnames hopen hgrows]

theorem deliver_again (hup : Path.up ∉ root.names) (hq : q.session.disk.Sound)
    (h : Resumes root ((deliver r.generator c).run p).2.session.disk p q) :
    ((deliver r.generator c).run q).1 = ((deliver r.generator c).run p).1 := by
  by_cases hnew : IsNew p c.target
  · have hnewq := (isNew_congr h.sink c.target).mpr hnew
    have hstoreq : q.sink.store = .directory root := by rw [h.sink, h.store]
    rw [(deliver_directory h.store h.sound hnew).1, (deliver_directory hstoreq hq hnewq).1,
      openFile_again hup hnew h]
  · have hnewq := mt (isNew_congr h.sink c.target).mp hnew
    rw [deliver_of_not_new hnew, deliver_of_not_new hnewq]

theorem opens_again (hup : Path.up ∉ root.names)
    (h : Resumes root ((deliver r.generator c).run p).2.session.disk p q) :
    Opens q root c ↔ Opens p root c := by
  have hnew := isNew_congr h.sink c.target
  constructor
  · rintro ⟨hnewq, hopen⟩
    have hnewp := hnew.mp hnewq
    exact ⟨hnewp, (openFile_again hup hnewp h).symm.trans hopen⟩
  · rintro ⟨hnewp, hopen⟩
    exact ⟨hnew.mpr hnewp, (openFile_again hup hnewp h).trans hopen⟩

theorem generate_sink_eq (hstore : p.sink.store = .directory root) (hsink : q.sink = p.sink) :
    ((generate r c).run q).2.sink = ((generate r c).run p).2.sink := by
  have hstoreq : q.sink.store = .directory root := by rw [hsink, hstore]
  obtain ⟨hcreated, hstores⟩ := deliver_sink r.generator c p
  obtain ⟨hcreatedq, hstoresq⟩ := deliver_sink r.generator c q
  rw [generate_sink, generate_sink]
  have hsame : ((deliver r.generator c).run q).2.sink.created =
      ((deliver r.generator c).run p).2.sink.created := by
    rw [hcreated, hcreatedq]
    simp only [isNew_congr hsink, hsink]
  have hp := (hstores root).mpr hstore
  have hq := (hstoresq root).mpr hstoreq
  cases hfirst : ((deliver r.generator c).run p).2.sink with
  | mk store created =>
    cases hsecond : ((deliver r.generator c).run q).2.sink with
    | mk store' created' =>
      rw [hfirst] at hp hsame
      rw [hsecond] at hq hsame
      simp only at hp hq hsame
      rw [hp, hq, hsame]

theorem Resumes.delivered (h : Resumes root ((generate r c).run p).2.session.disk p q) :
    Resumes root ((deliver r.generator c).run p).2.session.disk p q := by
  have hdelivered := (grown_deliver h.sound (covers_all r p) r.generator c).sound h.sound
  exact ⟨h.sound, h.store, h.sink, h.diagnostics, h.file, (grows_generate hdelivered).trans h.grows⟩

theorem generate_again (hup : Path.up ∉ root.names) (hq : q.session.disk.Sound)
    (h : Resumes root ((generate r c).run p).2.session.disk p q) :
    ((generate r c).run q).1 = ((generate r c).run p).1 ∧
      ((generate r c).run q).2.diagnostics = ((generate r c).run p).2.diagnostics := by
  have hd := h.sound
  have hdeliver := deliver_again hup hq h.delivered
  constructor
  · rw [generate_answer, generate_answer, hdeliver]
    cases hanswer : ((deliver r.generator c).run p).1 with
    | ok u => rfl
    | error f =>
      simp only
      cases hlog : r.errorLog with
      | none => rfl
      | some path =>
        obtain ⟨hd₁, hgrows⟩ := grows_failed hd (covers_all r p) hanswer hlog
        have hd₂ := grown_deliver hq (covers_all r q) r.generator c
        have hreported := Session.grown_record (hd₂.sound hq) none
          (failureReport c f).severity.level Diagnostic.part (failureReport c f).text
        have hbetween : Grows (fun _ => True) q.session.disk (failed r c f q).disk :=
          hd₂.grows.trans (hreported.grows.mono fun _ _ => trivial)
        have hopen := @Disk.isOk_openWith_iff (fun _ => True) _ _ path hd₁ (fun old => old ++ [])
          (fun old => old ++ []) ((hgrows.trans h.grows).trans hbetween)
        simp only [← ErrorLog.openFile_eq] at hopen
        simp only
        cases hfirst : ((ErrorLog.openFile path).run (failed r c f p).disk).1 with
        | ok u => rw [hopen.mpr hfirst]
        | error e =>
          cases hsecond : ((ErrorLog.openFile path).run (failed r c f q).disk).1 with
          | error e' => rfl
          | ok u =>
            rw [hopen.mp hsecond] at hfirst
            cases hfirst
  · rw [generate_diagnostics, generate_diagnostics, hdeliver, h.diagnostics]

end Generation

end LookupGen
