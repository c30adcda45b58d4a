import LookupGen.Proofs.Generation.Steps
import LookupGen.Proofs.Sink
import LookupGen.Proofs.Text.Surrogates

/-!
# Files after a generation

What is in the files of a disk after a lookup class is generated below a directory. The file of the
class is opened before its text is known, so it loses what it had where the class has no entries or
its text has no UTF-8 form; every other file has what it had, the logs apart.

This module does NOT say what the logs hold.
-/

namespace LookupGen

open Text (hasSurrogate)
open Disk (Keeps)

namespace Literal

theorem not_isSurrogate_of_lt {c : CodePoint} (h : c.val < 0x80) : c.isSurrogate = false := by
  rw [Bool.eq_false_iff, Ne, CodePoint.isSurrogate_iff]
  omega

theorem not_isSurrogate_octalDigit {n : Nat} (h : n < 8) :
    CodePoint.isSurrogate (Fin.ofNat 0x110000 (0x30 + n)) = false := by
  apply not_isSurrogate_of_lt
  have hval : (Fin.ofNat 0x110000 (0x30 + n)).val = 0x30 + n := Nat.mod_eq_of_lt (by omega)
  omega

@[simp] theorem hasSurrogate_encodePoint (c : CodePoint) :
    hasSurrogate (encodePoint c) = c.isSurrogate := by
  by_cases hascii : c.val < 0x80
  · rw [not_isSurrogate_of_lt hascii]
    unfold encodePoint
    split_ifs
    · exact Text.hasSurrogate_ofString _
    · exact Text.hasSurrogate_ofString _
    · exact Text.hasSurrogate_ofString _
    · exact Text.hasSurrogate_ofString _
    · exact Text.hasSurrogate_ofString _
    · exact Text.hasSurrogate_ofString _
    · exact Text.hasSurrogate_ofString _
    · have hfirst := not_isSurrogate_octalDigit (show c.val / 64 < 8 by omega)
      have hsecond := not_isSurrogate_octalDigit (show c.val / 8 % 8 < 8 by omega)
      have hthird := not_isSurrogate_octalDigit (show c.val % 8 < 8 by omega)
      simp only [Text.hasSurrogate_cons, CodePoint.isSurrogate_ofChar, hfirst, hsecond, hthird]
      rfl
    · simp [not_isSurrogate_of_lt hascii]
  · have hne (d : Char) (hd : (CodePoint.ofChar d).val < 0x80) : c ≠ CodePoint.ofChar d := by
      rintro rfl
      exact hascii hd
    unfold encodePoint
    rw [if_neg (hne _ (by decide)), if_neg (hne _ (by decide)), if_neg (hne _ (by decide)),
      if_neg (hne _ (by decide)), if_neg (hne _ (by decide)), if_neg (by omega), if_neg (by omega),
      if_neg (by omega)]
    simp

@[simp] theorem hasSurrogate_encode (t : Text) : hasSurrogate (encode t) = hasSurrogate t := by
  rw [encode, Text.hasSurrogate_flatMap]
  simp only [hasSurrogate_encodePoint]
  rfl

end Literal

namespace LookupClass

variable {c : LookupClass} {generator t : Text}

theorem hasSurrogate_render (hgenerator : hasSurrogate generator = false)
    (hvalid : Name.isValid c.target = true) (h : c.render generator = some t) :
    hasSurrogate t = c.entries.any fun e => hasSurrogate e.name || hasSurrogate e.value := by
  have htarget := Name.not_hasSurrogate_of_isValid hvalid
  have hpackage : hasSurrogate (Name.package c.target) = false := by
    apply Text.hasSurrogate_eq_false_iff.mpr
    intro d hd
    exact Text.hasSurrogate_eq_false_iff.mp htarget d (Name.mem_of_mem_package hd)
  have hsimple : hasSurrogate (Name.simple c.target) = false := by
    apply Text.hasSurrogate_eq_false_iff.mpr
    intro d hd
    exact Text.hasSurrogate_eq_false_iff.mp htarget d (Name.mem_of_mem_simple hd)
  have hlines : (packageLines (Name.package c.target)).any hasSurrogate = false := by
    unfold packageLines
    split
    · rfl
    · simp [hpackage]
  have hentry (e : Entry) :
      hasSurrogate (entryLine e) = (hasSurrogate e.name || hasSurrogate e.value) := by
    simp [entryLine, Literal.hasSurrogate_encode]
  have hopening : (openingLines generator (Name.simple c.target) c.entries.length).any
      hasSurrogate = false := by
    simp [openingLines, hgenerator, hsimple]
  have hclosing : closingLines.any hasSurrogate = false := by decide
  unfold render at h
  split at h
  · cases h
  · obtain rfl := Option.some.inj h
    rw [Text.hasSurrogate_flatMap]
    simp only [Text.hasSurrogate_join, List.any_cons, List.any_nil, Bool.or_false,
      Text.hasSurrogate_ofString]
    change (lines generator c).any hasSurrogate = _
    simp only [lines, headLine, List.any_cons, List.any_append, hlines, hopening, hclosing]
    simp [hgenerator, hentry, Function.comp_def]

def encoded? (generator : Text) (c : LookupClass) : Option Bytes :=
  (c.render generator).bind fun t => (Utf8.encode t).toOption

theorem encoded?_eq_none_iff (hgenerator : hasSurrogate generator = false)
    (hvalid : Name.isValid c.target = true) :
    encoded? generator c = none ↔ c.entries = [] ∨
      ∃ e ∈ c.entries, hasSurrogate e.name = true ∨ hasSurrogate e.value = true := by
  unfold encoded?
  cases hrender : c.render generator with
  | none =>
    unfold render at hrender
    split at hrender
    · rename_i hempty
      exact iff_of_true rfl (.inl (List.isEmpty_iff.mp hempty))
    · cases hrender
  | some t =>
    have hentries : c.entries ≠ [] := by
      intro hempty
      rw [render, hempty] at hrender
      cases hrender
    have hsurrogate := hasSurrogate_render hgenerator hvalid hrender
    rw [or_iff_right hentries, Option.bind_some]
    cases ht : hasSurrogate t with
    | false =>
      rw [ht] at hsurrogate
      rw [Utf8.encode_of_not_hasSurrogate ht]
      refine iff_of_false (fun h => by cases h) ?_
      rintro ⟨e, he, hpart⟩
      have hclean := List.any_eq_false.mp hsurrogate.symm e he
      rcases hpart with hpart | hpart
      · simp [hpart] at hclean
      · simp [hpart] at hclean
    | true =>
      obtain ⟨e, he, hpart⟩ := List.any_eq_true.mp (hsurrogate.symm.trans ht)
      obtain ⟨fault, hfault⟩ := Utf8.encode_of_hasSurrogate ht
      rw [hfault]
      exact iff_of_true rfl ⟨e, he, Bool.or_eq_true_iff.mp hpart⟩

end LookupClass

namespace Session

variable {s s' s'' : Session} {log : Option Path}

/-- The place of an error log or of the file of a journal. -/
def Logs (log : Option Path) (s : Session) (names : List Text) : Prop :=
  ∃ path, (log = some path ∨ s.journal.file = some path) ∧ names = s.disk.placeOf path

/-- From one session to another, no file changes but an error log and the file of the journal. -/
structure OnlyLogs (log : Option Path) (s s' : Session) : Prop where
  keeps : Keeps (Logs log s) s.disk s'.disk
  file : s'.journal.file = s.journal.file

theorem logs_congr {places : List Text → Prop} (hkeeps : Keeps places s.disk s'.disk)
    (hfile : s'.journal.file = s.journal.file) (names : List Text) :
    Logs log s' names ↔ Logs log s names := by
  unfold Logs
  simp only [hfile, hkeeps.placeOf_eq]

theorem OnlyLogs.trans (h : OnlyLogs log s s') (h' : OnlyLogs log s' s'') : OnlyLogs log s s'' where
  keeps := h.keeps.trans (h'.keeps.mono fun names => (logs_congr h.keeps h.file names).mp)
  file := h'.file.trans h.file

theorem onlyLogs_record (hd : s.disk.Sound) (log : Option Path) (level : Level)
    (part text : Text) : OnlyLogs log s ((record level part text).run s).2 := by
  refine ⟨?_, rfl⟩
  change Keeps _ _ (writeRecord s.journal ⟨level, part, text⟩ s.disk)
  unfold writeRecord
  split
  · rename_i path content hfile _
    split
    · apply (Disk.keeps_append hd path content).mono
      intro names hnames
      exact ⟨path, .inr hfile, hnames⟩
    · exact .refl _ _
  · exact .refl _ _

theorem onlyLogs_onDisk {m : DiskM Unit} {path : Path}
    (h : Keeps (· = s.disk.placeOf path) s.disk (m.run s.disk).2) :
    OnlyLogs (some path) s ((onDisk m).run s).2 := by
  refine ⟨?_, rfl⟩
  apply h.mono
  intro names hnames
  exact ⟨path, .inl rfl, hnames⟩

end Session

namespace ErrorLog

open Session (OnlyLogs)

variable {s : Session}

theorem keeps_openFile {d : Disk} (hd : d.Sound) (path : Path) :
    Keeps (· = d.placeOf path) d ((openFile path).run d).2 := by
  have hdirs := Disk.keepsFiles_makeDirs path.parent d hd
  unfold openFile
  rw [exceptT_run_bind]
  rcases hmade : (Disk.makeDirs path.parent).run d with ⟨e | u, d₁⟩
  · rw [hmade] at hdirs
    exact hdirs.mono fun _ h => h.elim
  · rw [hmade] at hdirs
    have happend := Disk.keeps_append (hdirs.sound hd) path []
    rw [hdirs.placeOf_eq] at happend
    exact (hdirs.mono fun _ h => h.elim).trans happend

theorem onlyLogs_add (hd : s.disk.Sound) (path : Path) (e : LogEntry) :
    OnlyLogs (some path) s ((add path e).run s).2 := by
  have hopened : OnlyLogs (some path) s ((Session.onDisk (openFile path)).run s).2 :=
    Session.onlyLogs_onDisk (keeps_openFile hd path)
  have hd₁ := hopened.keeps.sound hd
  rw [run_add]
  simp only
  cases ((Session.onDisk (openFile path)).run s).1 with
  | error fault => exact hopened.trans (Session.onlyLogs_record hd₁ _ _ _ _)
  | ok u =>
    simp only
    cases Utf8.encode e.toText with
    | error fault => exact hopened
    | ok content =>
      have happended := hopened.trans
        (Session.onlyLogs_onDisk (Disk.keeps_append hd₁ path content))
      simp only
      cases ((Session.onDisk (Disk.append path content)).run _).1 with
      | error fault =>
        exact happended.trans (Session.onlyLogs_record (happended.keeps.sound hd) _ _ _ _)
      | ok u => exact happended

end ErrorLog

namespace Generation

open Session (Logs OnlyLogs)

variable {r : Rules} {c : LookupClass} {p : Progress} {root : Path} {generator : Text}

def placeOf (p : Progress) (root : Path) (c : LookupClass) : List Text :=
  p.session.disk.placeOf (Sink.pathOf root c.target)

/-- The name of a class is given out and its file can be opened. -/
def Opens (p : Progress) (root : Path) (c : LookupClass) : Prop :=
  (Name.isValid c.target = true ∧ c.target ∉ p.sink.created) ∧
    ((Sink.openFile (Sink.pathOf root c.target)).run p.session.disk).1 = .ok ()

theorem run_deliver_directory {sink : Sink} {d₁ : Disk}
    (hcreate : p.sink.create c.target = .ok sink) (hstore : sink.store = .directory root)
    (hrun : (Sink.openFile (Sink.pathOf root c.target)).run p.session.disk = (.ok (), d₁)) :
    (deliver generator c).run p =
      match (Sink.appendParts (Sink.pathOf root c.target) (draft generator c).parts).run d₁ with
      | (.error e, disk) => (.error (.write e), { p with session := { p.session with disk }, sink })
      | (.ok (), disk) =>
        (if (draft generator c).complete then .ok () else .error (.noEntries c.target),
          { p with session := { p.session with disk }, sink }) := by
  rw [run_deliver, hcreate]
  simp only
  rw [Sink.run_write_directory hstore, hrun]
  simp only
  rcases (Sink.appendParts (Sink.pathOf root c.target) (draft generator c).parts).run d₁ with
    ⟨e | u, d₂⟩
  · rfl
  · rfl

theorem deliver_opens (hstore : p.sink.store = .directory root) (hd : p.session.disk.Sound)
    (h : Opens p root c) :
    (((deliver generator c).run p).1 = .ok () ↔ (c.encoded? generator).isSome = true) ∧
      ((deliver generator c).run p).2.session.journal = p.session.journal ∧
      Keeps (· = placeOf p root c) p.session.disk ((deliver generator c).run p).2.session.disk ∧
      ((deliver generator c).run p).2.session.disk.contentAt? (placeOf p root c) =
        some ((c.encoded? generator).getD []) := by
  obtain ⟨hname, hopen⟩ := h
  rcases Sink.create_answers p.sink c.target with ⟨-, sink, hcreate, hsame⟩ | ⟨hrefused, -⟩
  case inr => exact absurd hname hrefused
  rcases Sink.run_openFile hd (Sink.pathOf root c.target) with
    ⟨e, d₁, hrun, -⟩ | ⟨d₁, hrun, hkeeps, hread⟩
  · rw [hrun] at hopen
    cases hopen
  have hd₁ := hkeeps.sound hd
  have hplace := hkeeps.placeOf_eq (Sink.pathOf root c.target)
  have hcontent := Disk.content_of_read hd₁ hread
  rw [hplace] at hcontent
  rw [run_deliver_directory hcreate (hsame.trans hstore) hrun]
  unfold LookupClass.encoded? draft
  rcases hrender : c.render generator with - | t
  · exact ⟨iff_of_false (fun h => by cases h) (fun h => by cases h), rfl, hkeeps, hcontent⟩
  · simp only [Option.bind_some]
    rcases hencode : Utf8.encode t with fault | content
    · rw [Sink.appendParts_of_error hencode]
      exact ⟨iff_of_false (fun h => by cases h) (fun h => by cases h), rfl, hkeeps, hcontent⟩
    · obtain ⟨d₂, happend, hkeeps₂, hread₂⟩ := Sink.appendParts_of_ok hd₁ hencode hread
      rw [hplace] at hkeeps₂
      have hkept := hkeeps.trans hkeeps₂
      have hfull := Disk.content_of_read (hkept.sound hd) hread₂
      rw [hkept.placeOf_eq] at hfull
      rw [happend]
      exact ⟨iff_of_true rfl rfl, rfl, hkept, hfull⟩

theorem deliver_not_opens (hstore : p.sink.store = .directory root) (hd : p.session.disk.Sound)
    (h : ¬ Opens p root c) :
    ((deliver generator c).run p).1 ≠ .ok () ∧
      ((deliver generator c).run p).2.session.journal = p.session.journal ∧
      Keeps (fun _ => False) p.session.disk ((deliver generator c).run p).2.session.disk := by
  rcases Sink.create_answers p.sink c.target with
    ⟨hname, sink, hcreate, hsame⟩ | ⟨-, e, hcreate⟩
  · rw [run_deliver, hcreate]
    simp only
    rw [Sink.run_write_directory (hsame.trans hstore)]
    rcases Sink.run_openFile hd (Sink.pathOf root c.target) with
      ⟨e, d₁, hrun, hkeeps⟩ | ⟨d₁, hrun, -⟩
    · rw [hrun]
      exact ⟨by simp, rfl, hkeeps⟩
    · exact absurd ⟨hname, congrArg Prod.fst hrun⟩ h
  · rw [run_deliver, hcreate]
    exact ⟨by simp, rfl, .refl _ _⟩

theorem generate_eq_true_iff :
    ((generate r c).run p).1 = .ok true ↔ ((deliver r.generator c).run p).1 = .ok () := by
  rw [run_generate]
  cases ((deliver r.generator c).run p).1 with
  | ok u => exact iff_of_true rfl rfl
  | error f =>
    refine iff_of_false ?_ (by simp)
    cases r.errorLog with
    | none => simp
    | some path =>
      simp only
      cases ((ErrorLog.add path (failureEntry c f)).run _).1 with
      | error fault => simp [Except.map]
      | ok b => simp [Except.map]

theorem onlyLogs_generate (hd : ((deliver r.generator c).run p).2.session.disk.Sound) :
    OnlyLogs r.errorLog ((deliver r.generator c).run p).2.session
      ((generate r c).run p).2.session := by
  rw [run_generate]
  cases ((deliver r.generator c).run p).1 with
  | ok u => exact Session.onlyLogs_record hd _ _ _ _
  | error f =>
    have hreported : OnlyLogs r.errorLog ((deliver r.generator c).run p).2.session
        ((report (failureReport c f)).run ((deliver r.generator c).run p).2).2.session :=
      Session.onlyLogs_record hd _ _ _ _
    simp only
    cases hlog : r.errorLog with
    | none =>
      rw [hlog] at hreported
      exact hreported
    | some path =>
      rw [hlog] at hreported
      exact hreported.trans (ErrorLog.onlyLogs_add (hreported.keeps.sound hd) path _)

/-- A file other than the logs and the file of a class that is opened has what it had, and the file
of the class has the text of the class or nothing. -/
theorem generate_files (hstore : p.sink.store = .directory root) (hd : p.session.disk.Sound)
    {names : List Text} (hlogs : ¬ Logs r.errorLog p.session names) :
    (Opens p root c → names = placeOf p root c →
      ((generate r c).run p).2.session.disk.contentAt? names =
        some ((c.encoded? r.generator).getD [])) ∧
    (¬ (Opens p root c ∧ names = placeOf p root c) →
      ((generate r c).run p).2.session.disk.contentAt? names =
        p.session.disk.contentAt? names) := by
  have hlater {places : List Text → Prop}
      (hkeeps : Keeps places p.session.disk ((deliver r.generator c).run p).2.session.disk)
      (hjournal : ((deliver r.generator c).run p).2.session.journal = p.session.journal) :
      ((generate r c).run p).2.session.disk.contentAt? names =
        ((deliver r.generator c).run p).2.session.disk.contentAt? names := by
    apply (onlyLogs_generate (hkeeps.sound hd)).keeps.files
    intro hin
    exact hlogs ((Session.logs_congr hkeeps (congrArg Journal.file hjournal) names).mp hin)
  by_cases hopens : Opens p root c
  · obtain ⟨-, hjournal, hkeeps, hcontent⟩ := @deliver_opens c p root r.generator hstore hd hopens
    have hlater := hlater hkeeps hjournal
    constructor
    · rintro - rfl
      rw [hlater, hcontent]
    · intro hother
      rw [hlater]
      exact hkeeps.files names fun hplace => hother ⟨hopens, hplace⟩
  · obtain ⟨-, hjournal, hkeeps⟩ := @deliver_not_opens c p root r.generator hstore hd hopens
    constructor
    · exact fun h => absurd h hopens
    · intro _
      rw [hlater hkeeps hjournal]
      exact hkeeps.files names id

/-- All files below the directory of a sink are as they were, the logs apart. -/
def Intact (r : Rules) (p : Progress) (root : Path) (after : Disk) : Prop :=
  ∀ names, p.session.disk.placeOf root <+: names → ¬ Logs r.errorLog p.session names →
    after.contentAt? names = p.session.disk.contentAt? names

/-- A generation that fails changes no file but that of its class. It empties that one just where
it opens it, which it does before a class without entries or a text without a UTF-8 form is noticed;
so what was there before is left intact only if there was nothing in it. -/
theorem failed_generation_files (hstore : p.sink.store = .directory root)
    (hd : p.session.disk.Sound) (hgenerator : hasSurrogate r.generator = false)
    (hfailed : ((generate r c).run p).1 ≠ .ok true) :
    (∀ names, ¬ Logs r.errorLog p.session names →
      ((generate r c).run p).2.session.disk.contentAt? names ≠ p.session.disk.contentAt? names →
      Opens p root c ∧ names = placeOf p root c ∧
        ((generate r c).run p).2.session.disk.contentAt? names = some []) ∧
    (Opens p root c → c.entries = [] ∨
      ∃ e ∈ c.entries, hasSurrogate e.name = true ∨ hasSurrogate e.value = true) ∧
    (Intact r p root ((generate r c).run p).2.session.disk ↔
      (Opens p root c → Logs r.errorLog p.session (placeOf p root c) ∨
        p.session.disk.contentAt? (placeOf p root c) = some [])) := by
  have hencoded (hopens : Opens p root c) : c.encoded? r.generator = none := by
    have hdelivered := (@deliver_opens c p root r.generator hstore hd hopens).1
    rw [Ne, generate_eq_true_iff, hdelivered] at hfailed
    simpa using hfailed
  have hempty {names : List Text} (hlogs : ¬ Logs r.errorLog p.session names)
      (hopens : Opens p root c) (hplace : names = placeOf p root c) :
      ((generate r c).run p).2.session.disk.contentAt? names = some [] := by
    rw [(generate_files hstore hd hlogs).1 hopens hplace, hencoded hopens, Option.getD_none]
  refine ⟨?_, ?_, ?_, ?_⟩
  · intro names hlogs hchanged
    by_cases hwritten : Opens p root c ∧ names = placeOf p root c
    · obtain ⟨hopens, hplace⟩ := hwritten
      exact ⟨hopens, hplace, hempty hlogs hopens hplace⟩
    · exact absurd ((generate_files hstore hd hlogs).2 hwritten) hchanged
  · intro hopens
    exact (LookupClass.encoded?_eq_none_iff hgenerator hopens.1.1).mp (hencoded hopens)
  · intro hintact hopens
    by_cases hlogs : Logs r.errorLog p.session (placeOf p root c)
    · exact .inl hlogs
    · right
      have hbelow := Disk.placeOf_leadsOn hd (Sink.leadsOn_pathOf hopens.1.1 root)
      exact (hintact _ hbelow hlogs).symm.trans (hempty hlogs hopens rfl)
  · intro hbefore names _ hlogs
    by_cases hwritten : Opens p root c ∧ names = placeOf p root c
    · obtain ⟨hopens, rfl⟩ := hwritten
      rw [hempty hlogs hopens rfl, (hbefore hopens).resolve_left hlogs]
    · exact (generate_files hstore hd hlogs).2 hwritten

/-- A file from before, and a class for it whose text has half of a UTF-16 pair in it. -/
def earlierStart : Progress :=
  ⟨⟨⟨.dir [("out", .dir [("C.java", .file [0x43])])], []⟩, Journal.start .warning none []⟩,
    Sink.below (.ofText "out"), []⟩

def brokenClass : LookupClass := ⟨"C", "s.Source", [⟨"X", [0xD800]⟩]⟩

def quietRules : Rules := ⟨"Marker", LookupClass.defaultGenerator, fun _ => true, none⟩

theorem failed_generation_files_broken :
    earlierStart.sink.store = .directory (.ofText "out") ∧ earlierStart.session.disk.Sound ∧
    hasSurrogate quietRules.generator = false ∧
    ((generate quietRules brokenClass).run earlierStart).1 ≠ .ok true ∧
    ¬ Intact quietRules earlierStart (.ofText "out")
      ((generate quietRules brokenClass).run earlierStart).2.session.disk := by
  have hd : earlierStart.session.disk.Sound := ⟨rfl, rfl⟩
  have hfailed : ((generate quietRules brokenClass).run earlierStart).1 ≠ .ok true := by
    decide +kernel
  refine ⟨rfl, hd, Text.hasSurrogate_ofString _, hfailed, ?_⟩
  intro hintact
  obtain ⟨-, -, hiff⟩ := @failed_generation_files quietRules brokenClass earlierStart
    (.ofText "out") rfl hd (Text.hasSurrogate_ofString _) hfailed
  rcases hiff.mp hintact ⟨⟨by decide +kernel, List.not_mem_nil⟩, by decide +kernel⟩ with
    ⟨path, hlog | hlog, -⟩ | hempty
  · cases hlog
  · cases hlog
  · exact absurd hempty (by decide +kernel)

/-- The generation fails, and nothing is left of what was in the file. -/
theorem failed_generation_not_intact :
    ((generate quietRules brokenClass).run earlierStart).1 = .ok false ∧
    earlierStart.session.disk.contentAt? ["out", "C.java"] = some [0x43] ∧
    ((generate quietRules brokenClass).run earlierStart).2.session.disk.contentAt?
      ["out", "C.java"] = some [] :=
  ⟨by decide +kernel, by decide +kernel, by decide +kernel⟩

end Generation

end LookupGen
