import LookupGen.Proofs.Disk.Reopening
import LookupGen.Proofs.Generation.Order
import LookupGen.Proofs.Generation.Outputs

/-!
# Growth of a disk in a generation

A generation puts directories and files on its disk and takes nothing away: the logs, and the files
of valid names below the directory of its sink. Its sink keeps the place where it keeps texts, and
gives out each valid name once.
-/

namespace LookupGen

open Disk (Grows)

namespace Sink

variable {d : Disk} {p root : Path}

theorem openFile_eq (p : Path) : openFile p = Disk.openWith (fun _ => []) p := rfl

theorem grows_appendParts (hd : d.Sound) (p : Path) (parts : List Text) :
    Grows (· = d.placeOf p) d ((appendParts p parts).run d).2 := by
  induction parts generalizing d with
  | nil => exact .refl
  | cons part rest ih =>
    rw [appendParts]
    cases Utf8.encode part with
    | error e => exact .refl
    | ok content =>
      have hfirst := Disk.grows_append hd p content
      simp only
      rw [exceptT_run_bind, run_onDisk]
      cases hrun : (Disk.append p content).run d with
      | mk answer d' =>
        rw [hrun] at hfirst
        cases answer with
        | error e => exact hfirst
        | ok u =>
          have hrest := ih (hfirst.sound hd)
          rw [hfirst.placeOf_eq] at hrest
          exact hfirst.trans hrest

theorem grows_write {s : Sink} (hd : d.Sound) (hstore : s.store = .directory root) (name : Name)
    (draft : Draft) :
    Grows (· = d.placeOf (pathOf root name)) d ((s.write name draft).run d).2 := by
  have hopen := Disk.grows_openWith hd (fun _ => []) (pathOf root name)
  rw [run_write_directory hstore, openFile_eq]
  cases hrun : (Disk.openWith (fun _ => []) (pathOf root name)).run d with
  | mk answer d₁ =>
    rw [hrun] at hopen
    cases answer with
    | error e => exact hopen
    | ok u =>
      have hparts := grows_appendParts (hopen.sound hd) (pathOf root name) draft.parts
      rw [hopen.placeOf_eq] at hparts
      simp only
      cases happend : (appendParts (pathOf root name) draft.parts).run d₁ with
      | mk answer d₂ =>
        rw [happend] at hparts
        cases answer with
        | error e => exact hopen.trans hparts
        | ok u => exact hopen.trans hparts

end Sink

namespace Session

variable {files : List Text → Prop} {log : Option Path} {s s' s'' : Session} {names : List Text}

/-- From one session to another the disk grows by files at some places. -/
structure Grown (files : List Text → Prop) (s s' : Session) : Prop where
  grows : Grows files s.disk s'.disk
  file : s'.journal.file = s.journal.file

theorem Grown.refl (files : List Text → Prop) (s : Session) : Grown files s s := ⟨.refl, rfl⟩

theorem Grown.trans (h : Grown files s s') (h' : Grown files s' s'') : Grown files s s'' :=
  ⟨h.grows.trans h'.grows, h'.file.trans h.file⟩

theorem Grown.mono {files' : List Text → Prop} (h : Grown files s s')
    (hle : ∀ names, files names → files' names) : Grown files' s s' :=
  ⟨h.grows.mono hle, h.file⟩

theorem Grown.sound (h : Grown files s s') (hd : s.disk.Sound) : s'.disk.Sound := h.grows.sound hd

theorem Grown.logs_iff (h : Grown files s s') (log : Option Path) (names : List Text) :
    Logs log s' names ↔ Logs log s names := logs_congr h.grows.keeps h.file names

theorem logs_of_none (h : Logs none s names) : Logs log s names := by
  obtain ⟨path, hpath | hpath, hnames⟩ := h
  · cases hpath
  · exact ⟨path, .inr hpath, hnames⟩

theorem grown_record (hd : s.disk.Sound) (log : Option Path) (level : Level) (part text : Text) :
    Grown (Logs log s) s ((record level part text).run s).2 := by
  refine ⟨?_, rfl⟩
  change Grows _ _ (writeRecord s.journal ⟨level, part, text⟩ s.disk)
  unfold writeRecord
  split
  · rename_i path content hfile _
    split
    · apply (Disk.grows_append hd path content).mono
      intro names hnames
      exact ⟨path, .inr hfile, hnames⟩
    · exact .refl
  · exact .refl

theorem grown_onDisk {m : DiskM Unit} {path : Path}
    (h : Grows (· = s.disk.placeOf path) s.disk (m.run s.disk).2) :
    Grown (Logs (some path) s) s ((onDisk m).run s).2 := by
  refine ⟨h.mono ?_, rfl⟩
  intro names hnames
  exact ⟨path, .inl rfl, hnames⟩

theorem Grown.after (h : Grown (Logs log s) s s') (h' : Grown (Logs log s') s' s'') :
    Grown (Logs log s) s s'' := h.trans (h'.mono fun names => (h.logs_iff log names).mp)

end Session

namespace ErrorLog

open Session (Grown Logs)

variable {s : Session}

theorem openFile_eq (path : Path) : openFile path = Disk.openWith (fun old => old ++ []) path := rfl

theorem grown_openFile (hd : s.disk.Sound) (path : Path) :
    Grown (Logs (some path) s) s ((Session.onDisk (openFile path)).run s).2 := by
  apply Session.grown_onDisk
  rw [openFile_eq]
  exact Disk.grows_openWith hd _ path

theorem grown_add (hd : s.disk.Sound) (path : Path) (e : LogEntry) :
    Grown (Logs (some path) s) s ((add path e).run s).2 := by
  have hopened := grown_openFile hd path
  have hd₁ := hopened.sound hd
  rw [run_add]
  simp only
  cases ((Session.onDisk (openFile path)).run s).1 with
  | error fault => exact hopened.after (Session.grown_record hd₁ _ _ _ _)
  | ok u =>
    simp only
    cases Utf8.encode e.toText with
    | error fault => exact hopened
    | ok content =>
      have happended := hopened.after (Session.grown_onDisk (Disk.grows_append hd₁ path content))
      simp only
      cases ((Session.onDisk (Disk.append path content)).run _).1 with
      | error fault => exact happended.after (Session.grown_record (happended.sound hd) _ _ _ _)
      | ok u => exact happended

end ErrorLog

namespace Generation

open Session (Grown Logs)

variable {r : Rules} {c : LookupClass} {p q : Progress} {root : Path} {generator : Text}
  {files : List Text → Prop}

def IsNew (p : Progress) (name : Name) : Prop := Name.isValid name = true ∧ name ∉ p.sink.created

instance (p : Progress) (name : Name) : Decidable (IsNew p name) :=
  inferInstanceAs (Decidable (_ ∧ _))

theorem deliver_of_not_new (h : ¬ IsNew p c.target) (generator : Text) :
    (deliver generator c).run p = (.error (.name (if Name.isValid c.target then .repeated c.target
      else .invalid c.target)), p) := by
  rw [run_deliver, Sink.create_of_not_new h]

theorem deliver_sink (generator : Text) (c : LookupClass) (p : Progress) :
    ((deliver generator c).run p).2.sink.created =
        (if IsNew p c.target then c.target :: p.sink.created else p.sink.created) ∧
      ∀ root, ((deliver generator c).run p).2.sink.store = .directory root ↔
        p.sink.store = .directory root := by
  by_cases hnew : IsNew p c.target
  · rw [run_deliver, Sink.create_of_new hnew, if_pos hnew]
    simp only
    split
    · exact ⟨rfl, fun root => Iff.rfl⟩
    · rename_i hwrite
      exact Sink.write_sink hwrite
  · rw [deliver_of_not_new hnew, if_neg hnew]
    exact ⟨rfl, fun root => Iff.rfl⟩

/-- A generation may put files at these places: those of the logs, and those of the files of valid
names below the directory of its sink. -/
structure Covers (files : List Text → Prop) (log : Option Path) (p : Progress) : Prop where
  logs : ∀ names, Logs log p.session names → files names
  names : ∀ root, p.sink.store = .directory root → ∀ name, Name.isValid name = true →
    files (p.session.disk.placeOf (Sink.pathOf root name))

theorem Covers.later (h : Covers files r.errorLog p) (hgrown : Grown files p.session q.session)
    (hstore : ∀ root, q.sink.store = .directory root ↔ p.sink.store = .directory root) :
    Covers files r.errorLog q where
  logs := fun names hnames => h.logs names ((hgrown.logs_iff _ names).mp hnames)
  names := by
    intro root hroot name hvalid
    rw [hgrown.grows.placeOf_eq]
    exact h.names root ((hstore root).mp hroot) name hvalid

theorem grown_deliver (hd : p.session.disk.Sound) (h : Covers files r.errorLog p)
    (generator : Text) (c : LookupClass) :
    Grown files p.session ((deliver generator c).run p).2.session := by
  by_cases hnew : IsNew p c.target
  · rw [run_deliver, Sink.create_of_new hnew]
    simp only
    have hgrows : Grows files p.session.disk ((Sink.write c.target (draft generator c)
        { p.sink with created := c.target :: p.sink.created }).run p.session.disk).2 := by
      cases hstore : p.sink.store with
      | memory outputs =>
        have hkept : ({ p.sink with created := c.target :: p.sink.created } : Sink).store =
            .memory outputs := hstore
        rw [Sink.run_write_memory hkept]
        exact .refl
      | directory root =>
        have hkept : ({ p.sink with created := c.target :: p.sink.created } : Sink).store =
            .directory root := hstore
        apply (Sink.grows_write hd hkept c.target (draft generator c)).mono
        rintro names rfl
        exact h.names root hstore c.target hnew.1
    split
    · rename_i hwrite
      rw [hwrite] at hgrows
      exact ⟨hgrows, rfl⟩
    · rename_i hwrite
      rw [hwrite] at hgrows
      exact ⟨hgrows, rfl⟩
  · rw [deliver_of_not_new hnew]
    exact .refl _ _

theorem generate_sink (r : Rules) (c : LookupClass) (p : Progress) :
    ((generate r c).run p).2.sink = ((deliver r.generator c).run p).2.sink := by
  rw [run_generate]
  cases ((deliver r.generator c).run p).1 with
  | ok u => rfl
  | error f =>
    cases r.errorLog with
    | none => rfl
    | some path => rfl

theorem grown_generate (hd : p.session.disk.Sound) (h : Covers files r.errorLog p)
    (c : LookupClass) : Grown files p.session ((generate r c).run p).2.session := by
  have hdelivered := grown_deliver hd h r.generator c
  have hd₁ := hdelivered.sound hd
  have hlogs : ∀ names, Logs r.errorLog ((deliver r.generator c).run p).2.session names →
      files names := fun names hnames => h.logs names ((hdelivered.logs_iff _ names).mp hnames)
  apply hdelivered.trans
  apply Grown.mono ?_ hlogs
  rw [run_generate]
  cases ((deliver r.generator c).run p).1 with
  | ok u => exact Session.grown_record hd₁ _ _ _ _
  | error f =>
    have hreported := Session.grown_record hd₁ r.errorLog (failureReport c f).severity.level
      Diagnostic.part (failureReport c f).text
    simp only
    cases hlog : r.errorLog with
    | none =>
      rw [hlog] at hreported
      exact hreported
    | some path =>
      rw [hlog] at hreported
      exact hreported.after (ErrorLog.grown_add (hreported.sound hd₁) path _)

theorem Covers.generate (h : Covers files r.errorLog p) (hd : p.session.disk.Sound)
    (c : LookupClass) : Covers files r.errorLog ((generate r c).run p).2 := by
  apply h.later (grown_generate hd h c)
  rw [generate_sink]
  exact (deliver_sink r.generator c p).2

theorem grown_generateAll (hd : p.session.disk.Sound) (h : Covers files r.errorLog p)
    (cs : List LookupClass) : Grown files p.session ((generateAll r cs).run p).2.session := by
  induction cs generalizing p with
  | nil => exact .refl _ _
  | cons c rest ih =>
    have hfirst := grown_generate hd h c
    rw [run_generateAll_cons]
    cases ((Generation.generate r c).run p).1 with
    | error e => exact hfirst
    | ok written => exact hfirst.trans (ih (hfirst.sound hd) (h.generate hd c))

theorem grown_reports (hd : p.session.disk.Sound) (log : Option Path) (ds : List Diagnostic) :
    Grown (Logs log p.session) p.session ((ds.forM report).run p).2.session := by
  induction ds generalizing p with
  | nil => exact .refl _ _
  | cons d rest ih =>
    have hfirst : Grown (Logs log p.session) p.session ((report d).run p).2.session :=
      Session.grown_record hd log d.severity.level Diagnostic.part d.text
    exact hfirst.after (ih (hfirst.sound hd))

theorem grown_extractAll (hd : p.session.disk.Sound) (log : Option Path) (ms : List MarkedType) :
    Grown (Logs log p.session) p.session ((extractAll ms).run p).2.session := by
  induction ms generalizing p with
  | nil => exact .refl _ _
  | cons m rest ih =>
    have hreported := grown_reports hd log (extract m).2
    have hd₁ := hreported.sound hd
    rw [extractAll_cons]
    by_cases hentries : (extract m).1.entries = []
    · simp only [if_pos hentries]
      have hrecorded : Grown (Logs log p.session) p.session ((record .debug (Text.join
          ["No string constants on ", m.name, "; skipping"])).run
            (((extract m).2.forM report).run p).2).2.session :=
        hreported.after (Session.grown_record hd₁ log _ _ _)
      exact hrecorded.after (ih (hrecorded.sound hd))
    · simp only [if_neg hentries]
      exact hreported.after (ih hd₁)

theorem grown_process (hd : p.session.disk.Sound) (h : Covers files r.errorLog p)
    (elements : List Element) : Grown files p.session ((process r elements).run p).2.session := by
  have hrecorded : Grown files p.session ((record .debug (Text.join ["Discovered ",
      Text.ofNat (found r elements).length, " constant provider classes"])).run p).2.session :=
    (Session.grown_record hd r.errorLog _ _ _).mono h.logs
  rw [run_process]
  cases markedTypes r.marker (found r elements) with
  | error e => exact hrecorded
  | ok ms =>
    have hd₁ := hrecorded.sound hd
    have hcovers : Covers files r.errorLog ((record .debug (Text.join ["Discovered ",
        Text.ofNat (found r elements).length, " constant provider classes"])).run p).2 :=
      h.later hrecorded fun root => Iff.rfl
    have hextracted := (grown_extractAll hd₁ r.errorLog ms).mono hcovers.logs
    have hcovers₂ := hcovers.later hextracted fun root => by rw [(extractAll_shown ms _).1]
    exact (hrecorded.trans hextracted).trans
      (grown_generateAll (hextracted.sound hd₁) hcovers₂ _)

theorem generateAll_store (cs : List LookupClass) (p : Progress) (root : Path) :
    ((generateAll r cs).run p).2.sink.store = .directory root ↔ p.sink.store = .directory root := by
  induction cs generalizing p with
  | nil => exact Iff.rfl
  | cons c rest ih =>
    have hfirst : ((generate r c).run p).2.sink.store = .directory root ↔
        p.sink.store = .directory root := by
      rw [generate_sink]
      exact (deliver_sink r.generator c p).2 root
    rw [run_generateAll_cons]
    cases ((Generation.generate r c).run p).1 with
    | error e => exact hfirst
    | ok written => exact (ih _).trans hfirst

theorem process_store (elements : List Element) (p : Progress) (root : Path) :
    ((process r elements).run p).2.sink.store = .directory root ↔
      p.sink.store = .directory root := by
  rw [run_process]
  cases markedTypes r.marker (found r elements) with
  | error e => exact Iff.rfl
  | ok ms =>
    simp only
    rw [generateAll_store, (extractAll_shown ms _).1]
    exact Iff.rfl

end Generation

end LookupGen
