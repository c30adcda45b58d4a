import LookupGen.Proofs.Generation.Growth

/-!
# Answers of a generation

What is answered about a lookup class and what is reported, told by a few questions: is its name
given out, can its file be opened, has its text a UTF-8 form, and can the error log be opened. Each
of the two kinds of sink has its own answer to the delivery of a class; all that follows is the
same.
-/

namespace LookupGen

open Disk (Grows)

namespace Generation

variable {r : Rules} {c : LookupClass} {p : Progress} {root : Path} {generator : Text}

/-- What comes of a class that is taken: it has no text, its text has no UTF-8 form, or it is
written. -/
def verdict (generator : Text) (c : LookupClass) : Except Failure Unit :=
  match c.render generator with
  | none => .error (.noEntries c.target)
  | some t =>
    match Utf8.encode t with
    | .error e => .error (.write (.encoding e))
    | .ok _ => .ok ()

theorem deliver_opened (hstore : p.sink.store = .directory root) (hd : p.session.disk.Sound)
    (hnew : IsNew p c.target) {d₁ : Disk}
    (hopen : (Sink.openFile (Sink.pathOf root c.target)).run p.session.disk = (.ok (), d₁)) :
    ((deliver generator c).run p).1 = verdict generator c ∧
      Grows (fun _ => True) d₁ ((deliver generator c).run p).2.session.disk := by
  rcases Sink.run_openFile hd (Sink.pathOf root c.target) with
    ⟨e, d₂, hrun, -⟩ | ⟨d₂, hrun, hkeeps, hread⟩
  · rw [hopen] at hrun
    cases hrun
  obtain ⟨-, rfl⟩ := Prod.mk.inj (hopen.symm.trans hrun)
  have hd₁ := hkeeps.sound hd
  have hkept : ({ p.sink with created := c.target :: p.sink.created } : Sink).store =
      .directory root := hstore
  have hparts := (Sink.grows_appendParts hd₁ (Sink.pathOf root c.target)
    (draft generator c).parts).mono fun _ _ => trivial
  rw [run_deliver_directory (Sink.create_of_new hnew) hkept hopen]
  cases hrender : c.render generator with
  | none =>
    rw [verdict, hrender, draft, hrender]
    exact ⟨rfl, .refl⟩
  | some t =>
    rw [draft, hrender] at hparts
    rw [verdict, hrender, draft, hrender]
    simp only at hparts ⊢
    cases hencode : Utf8.encode t with
    | error fault =>
      rw [Sink.appendParts_of_error hencode]
      exact ⟨rfl, .refl⟩
    | ok content =>
      obtain ⟨d₂, happend, -, -⟩ := Sink.appendParts_of_ok hd₁ hencode hread
      rw [happend] at hparts ⊢
      exact ⟨rfl, hparts⟩

/-- Below a directory a class that is taken is answered for by opening its file; the disk has only
grown since that was done. -/
theorem deliver_directory (hstore : p.sink.store = .directory root) (hd : p.session.disk.Sound)
    (hnew : IsNew p c.target) :
    (((deliver generator c).run p).1 =
        match ((Sink.openFile (Sink.pathOf root c.target)).run p.session.disk).1 with
        | .ok () => verdict generator c
        | .error e => .error (.write (.disk e))) ∧
      Grows (fun _ => True) ((Sink.openFile (Sink.pathOf root c.target)).run p.session.disk).2
        ((deliver generator c).run p).2.session.disk := by
  cases hopen : (Sink.openFile (Sink.pathOf root c.target)).run p.session.disk with
  | mk answer d₁ =>
    cases answer with
    | ok u => exact deliver_opened hstore hd hnew hopen
    | error e =>
      have hkept : ({ p.sink with created := c.target :: p.sink.created } : Sink).store =
          .directory root := hstore
      rw [run_deliver, Sink.create_of_new hnew]
      simp only
      rw [Sink.run_write_directory hkept, hopen]
      exact ⟨rfl, .refl⟩

theorem deliver_memory {outputs : Table Name Text} (hstore : p.sink.store = .memory outputs)
    (hnew : IsNew p c.target) :
    (deliver generator c).run p = match c.render generator with
      | none => (.error (.noEntries c.target),
          { p with sink := ⟨.memory outputs, c.target :: p.sink.created⟩ })
      | some t => (.ok (), { p with sink :=
          ⟨.memory (Table.put c.target t outputs), c.target :: p.sink.created⟩ }) := by
  have hkept : ({ p.sink with created := c.target :: p.sink.created } : Sink).store =
      .memory outputs := hstore
  rw [run_deliver, Sink.create_of_new hnew]
  simp only
  rw [Sink.run_write_memory hkept]
  cases hrender : c.render generator with
  | none =>
    rw [draft, hrender]
    rfl
  | some t =>
    have hjoin : Text.join [t] = t := by simp [Text.join]
    rw [draft, hrender]
    simp only [hjoin]
    rfl

@[simp] theorem deliver_diagnostics (generator : Text) (c : LookupClass) (p : Progress) :
    ((deliver generator c).run p).2.diagnostics = p.diagnostics := by
  rw [run_deliver]
  split
  · rfl
  · split
    · rfl
    · rfl

def reports (c : LookupClass) : Except Failure Unit → List Diagnostic
  | .ok () => []
  | .error f => [failureReport c f]

theorem generate_diagnostics (r : Rules) (c : LookupClass) (p : Progress) :
    ((generate r c).run p).2.diagnostics =
      p.diagnostics ++ reports c ((deliver r.generator c).run p).1 := by
  have hdelivered := deliver_diagnostics r.generator c p
  rw [run_generate]
  cases ((deliver r.generator c).run p).1 with
  | ok u => exact hdelivered.trans (List.append_nil _).symm
  | error f =>
    have hreported : ((report (failureReport c f)).run
        ((deliver r.generator c).run p).2).2.diagnostics =
          p.diagnostics ++ reports c (.error f) := by
      change ((deliver r.generator c).run p).2.diagnostics ++ [failureReport c f] = _
      rw [hdelivered]
      rfl
    cases r.errorLog with
    | none => exact hreported
    | some path => exact hreported

/-- An entry is answered for by opening the error log and, where that succeeds, by the UTF-8 form
of the entry. -/
theorem add_answer (path : Path) (e : LogEntry) (s : Session) :
    (((ErrorLog.add path e).run s).1.map fun _ => false) =
      match ((ErrorLog.openFile path).run s.disk).1 with
      | .error _ => .ok false
      | .ok () => (Utf8.encode e.toText).map fun _ => false := by
  have hopen : ((Session.onDisk (ErrorLog.openFile path)).run s).1 =
      ((ErrorLog.openFile path).run s.disk).1 := rfl
  rw [ErrorLog.run_add, hopen]
  cases ((ErrorLog.openFile path).run s.disk).1 with
  | error fault => rfl
  | ok u =>
    simp only
    cases Utf8.encode e.toText with
    | error fault => rfl
    | ok content =>
      simp only
      cases ((Session.onDisk (Disk.append path content)).run _).1 with
      | error fault => rfl
      | ok u => rfl

theorem grows_add {s : Session} (hd : s.disk.Sound) (path : Path) (e : LogEntry) :
    Grows (fun _ => True) ((ErrorLog.openFile path).run s.disk).2
      ((ErrorLog.add path e).run s).2.disk := by
  have hd₁ := (ErrorLog.grown_openFile hd path).sound hd
  have hdisk : ((Session.onDisk (ErrorLog.openFile path)).run s).2.disk =
      ((ErrorLog.openFile path).run s.disk).2 := rfl
  rw [ErrorLog.run_add, ← hdisk]
  simp only
  cases ((Session.onDisk (ErrorLog.openFile path)).run s).1 with
  | error fault => exact (Session.grown_record hd₁ none _ _ _).grows.mono fun _ _ => trivial
  | ok u =>
    simp only
    cases Utf8.encode e.toText with
    | error fault => exact .refl
    | ok content =>
      have happended := Session.grown_onDisk (Disk.grows_append hd₁ path content)
      simp only
      cases ((Session.onDisk (Disk.append path content)).run _).1 with
      | error fault =>
        exact (happended.grows.mono fun _ _ => trivial).trans
          ((Session.grown_record (happended.sound hd₁) none _ _ _).grows.mono fun _ _ => trivial)
      | ok u => exact happended.grows.mono fun _ _ => trivial

def failed (r : Rules) (c : LookupClass) (f : Failure) (p : Progress) : Session :=
  ((report (failureReport c f)).run ((deliver r.generator c).run p).2).2.session

theorem generate_answer (r : Rules) (c : LookupClass) (p : Progress) :
    ((generate r c).run p).1 = match ((deliver r.generator c).run p).1 with
      | .ok () => .ok true
      | .error f => match r.errorLog with
        | none => .ok false
        | some path => match ((ErrorLog.openFile path).run (failed r c f p).disk).1 with
          | .error _ => .ok false
          | .ok () => (Utf8.encode (failureEntry c f).toText).map fun _ => false := by
  rw [run_generate]
  cases ((deliver r.generator c).run p).1 with
  | ok u => rfl
  | error f =>
    simp only
    cases r.errorLog with
    | none => rfl
    | some path => exact add_answer path (failureEntry c f) (failed r c f p)

theorem grows_failed (hd : p.session.disk.Sound) {files : List Text → Prop}
    (hcovers : Covers files r.errorLog p) {f : Failure} {path : Path}
    (hdeliver : ((deliver r.generator c).run p).1 = .error f) (hlog : r.errorLog = some path) :
    (failed r c f p).disk.Sound ∧
    Grows (fun _ => True) ((ErrorLog.openFile path).run (failed r c f p).disk).2
      ((generate r c).run p).2.session.disk := by
  have hd₁ := (grown_deliver hd hcovers r.generator c).sound hd
  have hd₂ : (failed r c f p).disk.Sound := (Session.grown_record hd₁ none _ _ _).sound hd₁
  rw [run_generate, hdeliver]
  simp only
  rw [hlog]
  exact ⟨hd₂, grows_add hd₂ path (failureEntry c f)⟩

theorem grows_generate (hd : ((deliver r.generator c).run p).2.session.disk.Sound) :
    Grows (fun _ => True) ((deliver r.generator c).run p).2.session.disk
      ((generate r c).run p).2.session.disk := by
  rw [run_generate]
  cases ((deliver r.generator c).run p).1 with
  | ok u => exact (Session.grown_record hd none _ _ _).grows.mono fun _ _ => trivial
  | error f =>
    have hreported := Session.grown_record hd none (failureReport c f).severity.level
      Diagnostic.part (failureReport c f).text
    simp only
    cases r.errorLog with
    | none => exact hreported.grows.mono fun _ _ => trivial
    | some path =>
      exact (hreported.grows.mono fun _ _ => trivial).trans
        ((ErrorLog.grown_add (hreported.sound hd) path _).grows.mono fun _ _ => trivial)

end Generation

end LookupGen
