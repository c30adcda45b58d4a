import LookupGen.Proofs.Program.FieldValues
import LookupGen.Proofs.SourceReader.Retry

/-!
# Readers of legible files

A reader whose files are UTF-8, with character literals that stand for one character each, gives the
elements of its files as soon as all of them can be read and parsed. No evaluation breaks off, and
each constant and each value of a field is of its type.
-/

namespace LookupGen

open EvalM (answer)

namespace Program

theorem exists_fileScope (path : Text) {items : List Java.Item}
    (hitems : ∀ item ∈ items, item.Holds .readable) : ∃ c, fileScope path items = .ok c := by
  refine exists_foldlM ?_ _
  rintro ⟨file, types⟩ item hitem
  have hparts := hitems item hitem
  cases item with
  | package name | «import» form name =>
    obtain ⟨name, rfl⟩ := hparts
    exact ⟨_, rfl⟩
  | type d =>
    obtain ⟨kind, m, name, line, members⟩ := d
    exact ⟨_, rfl⟩

end Program

namespace SourceReader

variable {d : Disk} {p : Program} {path : Path} {files : List Path} {known : List Name}
variable {r : SourceReader}

/-- A file that is UTF-8 if it can be read, and whose character literals stand for one character
each. -/
def Legible (d : Disk) (path : Path) : Prop :=
  ∀ content, d.read path = .ok content →
    (Utf8.decode content).isOk = true ∧ Java.SingleCharacters content

instance (d : Disk) (path : Path) : Decidable (Legible d path) :=
  inferInstanceAs (Decidable (∀ content, d.read path = .ok content → _))

theorem Legible.fileHolds (h : Legible d path) : FileHolds .readable d path := by
  intro content items hread hparse
  obtain ⟨hdecode, hsingle⟩ := h content hread
  cases htext : Utf8.decode content with
  | error e =>
    rw [htext] at hdecode
    cases hdecode
  | ok t => exact Java.holds_of_parseFile (Java.readable_of htext hsingle) hparse

theorem Legible.ofFile (h : Legible d path) {e : SourceError} (he : readFile d p path = .error e) :
    e.OfFile := by
  unfold readFile at he
  split at he
  · obtain rfl := Except.error.inj he
    exact .unreadable _ _
  · rename_i content hread
    split at he
    · obtain rfl := Except.error.inj he
      exact .malformed _ _
    · rename_i items hparse
      obtain ⟨c, hc⟩ :=
        Program.exists_fileScope path.toText (h.fileHolds content items hread hparse)
      unfold Program.addFile at he
      rw [hc] at he
      cases he

theorem ofFile_of_readFiles (hfiles : ∀ path ∈ files, Legible d path) {q : Program}
    {e : SourceError} (h : readFiles d p files = (q, some e)) : e.OfFile := by
  induction files generalizing p with
  | nil => cases (Prod.mk.inj h).2
  | cons path rest ih =>
    obtain ⟨hpath, hrest⟩ := List.forall_mem_cons.mp hfiles
    rw [readFiles] at h
    split at h
    · rename_i he
      obtain rfl := Option.some.inj (Prod.mk.inj h).2
      exact hpath.ofFile he
    · exact ih hrest h

/-- A reader after some attempts that have failed, all of them on legible files. -/
inductive Tried (files : List Path) (known : List Name) : SourceReader → Prop where
  | start : Tried files known (ofFiles files known)
  | again {d : Disk} {r r' : SourceReader} {e : SourceError} (h : Tried files known r)
      (hfiles : ∀ path ∈ files, Legible d path) (hrun : elements d r = (.error e, r')) :
      Tried files known r'

/-- A reader that has read legible files and has not evaluated anything. -/
structure Fresh (files : List Path) (r : SourceReader) : Prop where
  reads : r.files = files
  built : r.program.Built
  readable : r.program.Holds .readable
  evaluation : r.evaluation = .empty
  found : r.found = none

theorem fresh_start : Fresh files (ofFiles files known) :=
  ⟨rfl, .start known, nofun, rfl, rfl⟩

theorem Fresh.elements_ok (h : Fresh files r) (hfiles : ∀ path ∈ files, Legible d path)
    (hread : readFiles d r.program files = (p, none)) :
    p.Built ∧ p.Holds .readable ∧ ∃ es, (elements d r).1 = .ok es ∧ p.ElementsSound es := by
  have hbuilt := built_readFiles h.built hread
  have hreadable := holds_readFiles h.readable fun path hpath => (hfiles path hpath).fileHolds
  rw [hread] at hreadable
  obtain ⟨es, hes, hsound, -⟩ := Program.elements_succeeds hbuilt hreadable .empty
    ⟨Program.remembers_empty, Program.soundState_empty⟩
  refine ⟨hbuilt, hreadable, es, ?_, hsound⟩
  exact (elements_ok_iff_of_empty h.found h.evaluation).mpr ⟨p, h.reads ▸ hread, hes⟩

/-- One attempt: it fails at a file only, and then nothing but types is added. -/
theorem Fresh.elements_error (h : Fresh files r) (hfiles : ∀ path ∈ files, Legible d path)
    {e : SourceError} {r' : SourceReader} (hrun : elements d r = (.error e, r')) :
    e.OfFile ∧ Fresh files r' := by
  cases hread : readFiles d r.program files with
  | mk p fault =>
    cases fault with
    | none =>
      obtain ⟨-, -, es, hes, -⟩ := h.elements_ok hfiles hread
      rw [hrun] at hes
      cases hes
    | some fault =>
      have hreadable := holds_readFiles h.readable fun path hpath => (hfiles path hpath).fileHolds
      rw [hread] at hreadable
      unfold elements at hrun
      rw [h.found, h.reads, hread] at hrun
      obtain ⟨he, rfl⟩ := Prod.mk.inj hrun
      obtain rfl := Except.error.inj he
      have hbuilt := (readFiles_error hread).2.1 h.built
      exact ⟨ofFile_of_readFiles hfiles hread, rfl, hbuilt, hreadable, h.evaluation, rfl⟩

theorem Tried.fresh (h : Tried files known r) : Fresh files r := by
  induction h with
  | start => exact fresh_start
  | again _ hfiles hrun ih => exact (ih.elements_error hfiles hrun).2

/-- A reader of legible files fails at no other point than a file that cannot be read or parsed. In
whatever state a constant is asked for, of a field or of an expression with readable parts, as all
expressions of the files are, there is an answer, and a constant in it has a value that fits its
type. The values that the elements have for fields are those of such constants. -/
theorem evaluation_sound (hr : Tried files known r) (hfiles : ∀ path ∈ files, Legible d path) :
    (∀ e, (elements d r).1 = .error e → e.OfFile) ∧
    ∀ p, readFiles d r.program files = (p, none) →
      p.Holds .readable ∧
      (∀ s, p.Reached s → ∀ budget,
        (∀ f ∈ p.fields, ∃ c, answer (p.constantWithin budget f) s = .ok c ∧ Sound c) ∧
        ∀ site e, p.HasSite site → e.Holds .readable →
          ∃ c, answer (p.evaluate (p.constantWithin budget) site e) s = .ok c ∧ Sound c) ∧
      ∃ es, (elements d r).1 = .ok es ∧ p.ElementsSound es := by
  have hfresh := hr.fresh
  refine ⟨?_, ?_⟩
  · intro e he
    exact (hfresh.elements_error hfiles (Prod.ext he rfl)).1
  · intro p hread
    obtain ⟨hbuilt, hreadable, hes⟩ := hfresh.elements_ok hfiles hread
    refine ⟨hreadable, ?_, hes⟩
    intro s hs budget
    have hsound := hs.soundState hbuilt.wellScoped hreadable
    constructor
    · intro f hf
      obtain ⟨c, hc, hadmits, -⟩ :=
        Program.constantWithin_succeeds hbuilt.wellScoped hreadable budget hf s hsound
      exact ⟨c, hc, hadmits.sound⟩
    · intro site e hsite he
      obtain ⟨c, hc, hc', -⟩ :=
        Program.evaluateWithin_succeeds hbuilt.wellScoped hreadable budget hsite he s hsound
      exact ⟨c, hc, hc'⟩

/-- Constants of all types, with values of a wrong type among them, and fields that have no
constant: an array, one that is not final, and a constant of an enumeration. -/
def mixed : Disk :=
  ⟨.dir [("E.java", .file (tangled.content
      "enum E\x7bX;static final int M=-I.K;static String U=\"u\";\x7d")),
    ("I.java", .file (tangled.content ("interface I\x7bchar C='c',D=\"d\";int N=C+1,K='\\u0041';" ++
      "long L=2147483647+1L;boolean B=!true;String S=\"s\"+C+N,T='t',R[]=\"r\";\x7d")))], []⟩

def mixedFiles : List Path := [.ofText "E.java", .ofText "I.java"]

def fieldTexts (es : List Element) : List Text :=
  es.flatMap fun e => e.fields.filterMap fun f =>
    f.constant.map fun v => Text.join [f.name, "=", v.toText]

theorem evaluation_sound_mixed :
    Tried mixedFiles [] (ofFiles mixedFiles []) ∧ (∀ path ∈ mixedFiles, Legible mixed path) ∧
    ∃ p es, readFiles mixed ⟨[], []⟩ mixedFiles = (p, none) ∧
      (elements mixed (ofFiles mixedFiles [])).1 = .ok es ∧ p.ElementsSound es ∧
      fieldTexts es = ["M=-65", "C=c", "N=100", "K=A", "L=2147483648", "B=False", "S=sc100"] ∧
      (es.flatMap fun e => (Generation.constants e).map (·.value)) = ["sc100"] := by
  have hfiles : ∀ path ∈ mixedFiles, Legible mixed path := by decide +kernel
  have hstart : Tried mixedFiles [] (ofFiles mixedFiles []) := .start
  obtain ⟨-, hall⟩ := evaluation_sound hstart hfiles
  have hshown : ((elements mixed (ofFiles mixedFiles [])).1.toOption.map fun es =>
      [fieldTexts es, es.flatMap fun e => (Generation.constants e).map (·.value)]) =
      some ([["M=-65", "C=c", "N=100", "K=A", "L=2147483648", "B=False", "S=sc100"],
        ["sc100"]] : List (List Text)) := by
    decide +kernel
  cases hanswer : (elements mixed (ofFiles mixedFiles [])).1 with
  | error e =>
    rw [hanswer] at hshown
    cases hshown
  | ok es =>
    rw [hanswer] at hshown
    obtain ⟨hvalues, hrest⟩ := List.cons.inj (Option.some.inj hshown)
    obtain ⟨p, hread, -⟩ := elements_ok_iff.mp hanswer
    obtain ⟨-, -, es', hes, hsound⟩ := hall p hread
    obtain rfl := Except.ok.inj (hanswer.symm.trans hes)
    exact ⟨hstart, hfiles, p, es, hread, rfl, hsound, hvalues, (List.cons.inj hrest).1⟩

end SourceReader

end LookupGen
