import LookupGen.Proofs.Generation.Process
import LookupGen.Proofs.Generation.Steps
import LookupGen.Proofs.Text.Surrogates

/-!
# Failing classes

What a class that cannot be written does to the classes after it, for every sink and every disk:
nothing, unless its failure cannot be recorded. An entry of the error log must have a UTF-8 form,
and it has one just where the target of the class has.

This module does NOT say what a failure leaves on the disk.
-/

namespace LookupGen

open Text (hasSurrogate)

theorem LogEntry.hasSurrogate_toText (e : LogEntry) :
    hasSurrogate e.toText =
      (hasSurrogate e.heading || (hasSurrogate e.label || hasSurrogate e.cause)) := by
  have hcause : hasSurrogate e.causeLine = (hasSurrogate e.label || hasSurrogate e.cause) := by
    unfold causeLine
    split
    · rename_i hempty
      simp [List.isEmpty_iff.mp hempty]
    · simp
  have htrace : hasSurrogate (if e.traced then traceLine else []) = false := by
    split
    · exact Text.hasSurrogate_ofString _
    · rfl
  simp [toText, hcause, htrace]

theorem ErrorLog.add_answers_iff {path : Path} {e : LogEntry} {s : Session} :
    (∃ b, ((add path e).run s).1 = .ok b) ↔
      ¬ (((openFile path).run s.disk).1 = .ok () ∧ hasSurrogate e.toText = true) := by
  have hopen : ((Session.onDisk (openFile path)).run s).1 = ((openFile path).run s.disk).1 := rfl
  rw [run_add, hopen]
  cases ((openFile path).run s.disk).1 with
  | error fault => exact iff_of_true ⟨false, rfl⟩ (by simp)
  | ok u =>
    cases hsurrogate : hasSurrogate e.toText with
    | true =>
      obtain ⟨fault, hfault⟩ := Utf8.encode_of_hasSurrogate hsurrogate
      rw [hfault]
      exact iff_of_false (by simp) fun h => h ⟨rfl, rfl⟩
    | false =>
      simp only [Utf8.encode_of_not_hasSurrogate hsurrogate]
      refine iff_of_true ?_ (by simp)
      cases ((Session.onDisk (Disk.append path _)).run _).1 with
      | error fault => exact ⟨false, rfl⟩
      | ok u => exact ⟨true, rfl⟩

theorem Session.record_disk_of_hasSurrogate {level : Level} {part text : Text} (s : Session)
    (h : hasSurrogate text = true) : ((record level part text).run s).2.disk = s.disk := by
  have hwritten : hasSurrogate (Record.written s.journal.time ⟨level, part, text⟩) = true := by
    simp [Record.written, h]
  obtain ⟨fault, hfault⟩ := Utf8.encode_of_hasSurrogate hwritten
  change writeRecord s.journal ⟨level, part, text⟩ s.disk = s.disk
  unfold writeRecord
  rw [hfault]
  cases s.journal.file with
  | none => rfl
  | some path => rfl

namespace Generation

variable {r : Rules} {c : LookupClass} {p : Progress}

def Failure.subject : Failure → Name
  | name (.invalid n) => n
  | name (.repeated n) => n
  | noEntries target => target
  | write _ => []

@[simp] theorem Failure.hasSurrogate_message (f : Failure) :
    hasSurrogate f.message = hasSurrogate f.subject := by
  cases f with
  | name e =>
    cases e with
    | invalid n | repeated n => simp [message, NameFault.message, subject]
  | noEntries target => simp [message, subject]
  | write e =>
    cases e with
    | disk e =>
      have hwording : hasSurrogate e.fault.wording = false := by
        cases e.fault with
        | missing | «exists» | notDirectory | isDirectory => exact Text.hasSurrogate_ofString _
      simp [message, WriteFault.message, DiskError.message, subject, hwording]
    | encoding e =>
      have hstretch : hasSurrogate (Utf8.stretch "character" "characters"
          (Text.join ["'", Text.numberedEscape e.point, "'"]) e.position e.size) = false := by
        unfold Utf8.stretch
        split
        · simp
        · simp
      simp [message, WriteFault.message, Utf8.EncodeError.message, subject, hstretch]

@[simp] theorem Failure.hasSurrogate_label (f : Failure) : hasSurrogate f.label = false := by
  cases f with
  | name e => exact Text.hasSurrogate_ofString _
  | noEntries target => exact Text.hasSurrogate_ofString _
  | write e =>
    cases e with
    | disk e =>
      obtain ⟨fault, path⟩ := e
      cases fault with
      | missing | «exists» | notDirectory | isDirectory => exact Text.hasSurrogate_ofString _
    | encoding e => exact Text.hasSurrogate_ofString _

theorem deliver_invalid (h : Name.isValid c.target = false) (generator : Text) (p : Progress) :
    (deliver generator c).run p = (.error (.name (.invalid c.target)), p) := by
  have hcreate : p.sink.create c.target = .error (.invalid c.target) := by
    rw [Sink.create, h]
    rfl
  rw [run_deliver, hcreate]

theorem deliver_subject {generator : Text} {f : Failure}
    (h : ((deliver generator c).run p).1 = .error f) : f.subject = c.target ∨ f.subject = [] := by
  rw [run_deliver] at h
  cases hcreate : p.sink.create c.target with
  | error e =>
    rw [hcreate] at h
    obtain rfl := Except.error.inj h
    unfold Sink.create at hcreate
    split at hcreate
    · obtain rfl := Except.error.inj hcreate
      exact .inl rfl
    · split at hcreate
      · obtain rfl := Except.error.inj hcreate
        exact .inl rfl
      · cases hcreate
  | ok sink =>
    rw [hcreate] at h
    simp only at h
    split at h
    · obtain rfl := Except.error.inj h
      exact .inr rfl
    · split at h
      · cases h
      · obtain rfl := Except.error.inj h
        exact .inl rfl

/-- What is written about a failure has a surrogate in it just where the target has. -/
theorem hasSurrogate_failureEntry {f : Failure} (h : f.subject = c.target ∨ f.subject = []) :
    hasSurrogate (failureEntry c f).toText = hasSurrogate c.target := by
  have hheading : hasSurrogate (failureHeading c) = hasSurrogate c.target := by
    simp [failureHeading]
  rw [LogEntry.hasSurrogate_toText]
  simp only [failureEntry, hheading, f.hasSurrogate_label, f.hasSurrogate_message, Bool.false_or]
  rcases h with h | h
  · rw [h, Bool.or_self]
  · rw [h, Text.hasSurrogate_nil, Bool.or_false]

/-- A class whose failure cannot be recorded: the error log can be opened, but the target has no
UTF-8 form. -/
def Unrecordable (r : Rules) (d : Disk) (c : LookupClass) : Prop :=
  hasSurrogate c.target = true ∧
    ∃ path, r.errorLog = some path ∧ ((ErrorLog.openFile path).run d).1 = .ok ()

/-- A class that is not written is answered for unless the error log, opened after the failure is
reported, cannot hold the entry. -/
theorem generate_answers_of_failure {f : Failure}
    (h : ((deliver r.generator c).run p).1 = .error f) :
    (∃ b, ((generate r c).run p).1 = .ok b) ↔
      ∀ path, r.errorLog = some path →
        ¬ (((ErrorLog.openFile path).run ((report (failureReport c f)).run
          ((deliver r.generator c).run p).2).2.session.disk).1 = .ok () ∧
          hasSurrogate c.target = true) := by
  rw [run_generate, h]
  cases r.errorLog with
  | none => exact iff_of_true ⟨false, rfl⟩ (by simp)
  | some path =>
    simp only [exists_map_eq_ok, ErrorLog.add_answers_iff,
      hasSurrogate_failureEntry (deliver_subject h)]
    constructor
    · rintro hadd path' hpath
      obtain rfl := Option.some.inj hpath
      exact hadd
    · exact fun hall => hall path rfl

theorem generate_answers_iff :
    (∃ b, ((generate r c).run p).1 = .ok b) ↔ ¬ Unrecordable r p.session.disk c := by
  unfold Unrecordable
  cases hsurrogate : hasSurrogate c.target with
  | true =>
    have hinvalid : Name.isValid c.target = false := by
      rw [Bool.eq_false_iff]
      intro hvalid
      rw [Name.not_hasSurrogate_of_isValid hvalid] at hsurrogate
      cases hsurrogate
    have hdeliver := deliver_invalid hinvalid r.generator p
    have hdisk : ((report (failureReport c (.name (.invalid c.target)))).run p).2.session.disk =
        p.session.disk := by
      apply Session.record_disk_of_hasSurrogate
      simp [failureReport, failureHeading, hsurrogate]
    rw [generate_answers_of_failure (congrArg Prod.fst hdeliver), hdeliver, hdisk, hsurrogate]
    simp
  | false =>
    cases hdeliver : ((deliver r.generator c).run p).1 with
    | ok u =>
      rw [run_generate, hdeliver]
      exact iff_of_true ⟨true, rfl⟩ (by simp)
    | error f =>
      rw [generate_answers_of_failure hdeliver, hsurrogate]
      simp

theorem generateAll_attempts (r : Rules) (cs : List LookupClass) (p : Progress) :
    (∃ generated failed, ((generateAll r cs).run p).1 = .ok (generated, failed) ∧
      (generated ++ failed).Perm (cs.map (·.target))) ∨
    ∃ before c after lists q e, cs = before ++ c :: after ∧
      (generateAll r before).run p = (.ok lists, q) ∧ Unrecordable r q.session.disk c ∧
      ((generateAll r cs).run p).1 = .error e := by
  -- By induction on the classes: either each is written or not, or one of them cannot be recorded
  -- after those before it are dealt with.
  induction cs generalizing p with
  | nil => exact .inl ⟨[], [], rfl, .nil⟩
  | cons c rest ih =>
    cases hfirst : ((generate r c).run p).1 with
    | error e =>
      have hunrecordable : Unrecordable r p.session.disk c := by
        by_contra hrecordable
        obtain ⟨b, hb⟩ := generate_answers_iff.mpr hrecordable
        rw [hfirst] at hb
        cases hb
      refine .inr ⟨[], c, rest, ([], []), p, e, rfl, rfl, hunrecordable, ?_⟩
      rw [run_generateAll_cons, hfirst]
    | ok written =>
      rcases ih ((generate r c).run p).2 with ⟨generated, failed, hrest, hperm⟩ |
        ⟨before, d, after, ⟨generated, failed⟩, q, e, rfl, hbefore, hunrecordable, hrest⟩
      · left
        rw [run_generateAll_cons, hfirst]
        simp only [hrest, List.map_cons]
        cases written with
        | true => exact ⟨c.target :: generated, failed, rfl, hperm.cons _⟩
        | false =>
          refine ⟨generated, c.target :: failed, rfl, ?_⟩
          exact List.perm_middle.trans (hperm.cons _)
      · right
        refine ⟨c :: before, d, after, if written then (c.target :: generated, failed)
          else (generated, c.target :: failed), q, e, rfl, ?_, hunrecordable, ?_⟩
        · rw [run_generateAll_cons, hfirst]
          simp only [hbefore]
          rfl
        · rw [run_generateAll_cons, hfirst]
          simp only [hrest]
          rfl

/-- Each marked type with constants is generated or failed. -/
def Attempted (ms : List MarkedType) (answer : Except Abort Result) : Prop :=
  ∃ result, answer = .ok result ∧
    (result.generated ++ result.failed).Perm ((ordered ms).map (·.target))

/-- All marked types with constants are attempted, or the generation breaks off at one of them whose
failure cannot be recorded, after those that are written before it. -/
def EndsWith (r : Rules) (ms : List MarkedType) (answer : Except Abort Result) : Prop :=
  Attempted ms answer ∨
  ∃ before m after start lists reached e, ordered ms = before ++ m :: after ∧
    (generateAll r (before.map fun m => (extract m).1)).run start = (.ok lists, reached) ∧
    Unrecordable r reached.session.disk (extract m).1 ∧ answer = .error (.unrecordable e)

theorem EndsWith.attempted {ms : List MarkedType} {answer : Except Abort Result}
    (h : EndsWith r ms answer) (hrecordable : r.errorLog = none ∨
      ∀ m ∈ ms, hasConstants m.element = true → hasSurrogate m.target = false) :
    Attempted ms answer := by
  rcases h with h | ⟨before, m, after, _, _, reached, _, hms, -, ⟨hsurrogate, path, hpath, -⟩, -⟩
  · exact h
  · exfalso
    rcases hrecordable with hlog | htargets
    · rw [hlog] at hpath
      cases hpath
    · have hm : m ∈ ordered ms := hms ▸ List.mem_append_right before List.mem_cons_self
      obtain ⟨hm, hconstants⟩ := mem_ordered_iff.mp hm
      have hclean := htargets m hm hconstants
      change hasSurrogate m.target = true at hsurrogate
      rw [hclean] at hsurrogate
      cases hsurrogate

theorem process_endsWith {elements : List Element} {ms : List MarkedType}
    (h : markedTypes r.marker (found r elements) = .ok ms) :
    EndsWith r ms ((process r elements).run p).1 := by
  rw [run_process, h]
  simp only
  generalize ((record .debug _).run p).2 = p₁
  have hclasses : LookupClass.sort ((extractAll ms).run p₁).1.1 =
      (ordered ms).map fun m => (extract m).1 := by
    rw [extractAll_answer, sort_classes]
  rw [hclasses]
  rcases generateAll_attempts r ((ordered ms).map fun m => (extract m).1) ((extractAll ms).run p₁).2
    with ⟨generated, failed, hanswer, hperm⟩ |
      ⟨before, c, after, lists, q, e, hsplit, hbefore, hunrecordable, hanswer⟩
  · left
    rw [List.map_map] at hperm
    exact ⟨_, by rw [hanswer], hperm⟩
  · right
    obtain ⟨before, rest, hms, rfl, hrest⟩ := List.map_eq_append_iff.mp hsplit
    obtain ⟨m, after, rfl, rfl, rfl⟩ := List.map_eq_cons_iff.mp hrest
    exact ⟨before, m, after, _, lists, q, e, hms, hbefore, hunrecordable, by rw [hanswer]⟩

/-- A class is answered for unless its failure cannot be recorded. So all marked types are attempted
if there is no error log or every target has a UTF-8 form; and a generation breaks off nowhere but
at a type whose failure cannot be recorded. -/
theorem failures_contained (r : Rules) (p : Progress) :
    (∀ c, (∃ b, ((generate r c).run p).1 = .ok b) ↔ ¬ Unrecordable r p.session.disk c) ∧
    ∀ elements, (∀ name e, Chosen r elements name e → ∃ a v, e.annotationNamed? r.marker = some a ∧
        a.value AnnotationData.mainElement = .ok v) →
      ∃ ms, (ms.map (·.name)).Pairwise (· < ·) ∧ (∀ m, m ∈ ms ↔ IsMarked r elements m) ∧
        EndsWith r ms ((process r elements).run p).1 ∧
        ((r.errorLog = none ∨
            ∀ m ∈ ms, hasConstants m.element = true → hasSurrogate m.target = false) →
          Attempted ms ((process r elements).run p).1) := by
  refine ⟨fun c => generate_answers_iff, ?_⟩
  intro elements hvalues
  obtain ⟨ms, hmarked, hsorted, hmem⟩ := markedTypes_found hvalues
  have hends := @process_endsWith r p elements ms hmarked
  exact ⟨ms, hsorted, hmem, hends, hends.attempted⟩

/-- A class whose target has half of a UTF-16 pair in it, and one after it that can be written. -/
def halfElements : List Element := [
  provider "p.Half" [CodePoint.ofChar 'A', 0xD83D] [⟨"A", stringType, some (.text "1")⟩],
  provider "p.Whole" "q.Whole" [⟨"B", stringType, some (.text "2")⟩]]

def halfRules (errorLog : Option Path) : Rules :=
  ⟨"Marker", LookupClass.defaultGenerator, fun _ => true, errorLog⟩

theorem halfElements_values (errorLog : Option Path) (name : Name) (e : Element)
    (h : Chosen (halfRules errorLog) halfElements name e) :
    ∃ a v, e.annotationNamed? (halfRules errorLog).marker = some a ∧
      a.value AnnotationData.mainElement = .ok v := by
  obtain ⟨-, -, before, after, heq, -⟩ := h
  have he : e ∈ halfElements := by
    rw [heq]
    exact List.mem_append_right _ List.mem_cons_self
  simp only [halfElements, List.mem_cons, List.not_mem_nil, or_false] at he
  rcases he with rfl | rfl
  · exact ⟨_, _, rfl, rfl⟩
  · exact ⟨_, _, rfl, rfl⟩

theorem failures_contained_half :
    (∀ name e, Chosen (halfRules none) halfElements name e → ∃ a v,
      e.annotationNamed? (halfRules none).marker = some a ∧
      a.value AnnotationData.mainElement = .ok v) ∧
    ∃ ms, (∀ m, m ∈ ms ↔ IsMarked (halfRules none) halfElements m) ∧
      Attempted ms ((process (halfRules none) halfElements).run sharedStart).1 := by
  refine ⟨halfElements_values none, ?_⟩
  obtain ⟨ms, -, hmem, -, hattempted⟩ :=
    (failures_contained (halfRules none) sharedStart).2 halfElements (halfElements_values none)
  exact ⟨ms, hmem, hattempted (.inl rfl)⟩

theorem extract_singleton {m : MarkedType} {e : Entry} (h : constants m.element = [e]) :
    extract m = (⟨m.target, m.name, [e]⟩, []) := by
  simp [extract, h, collect, Table.put, sortByKey, dropWarning?]

theorem extractAll_cons_singleton {m : MarkedType} {e : Entry} (h : constants m.element = [e])
    (rest : List MarkedType) (p : Progress) :
    (extractAll (m :: rest)).run p =
      ((⟨m.target, m.name, [e]⟩ :: ((extractAll rest).run p).1.1, ((extractAll rest).run p).1.2),
        ((extractAll rest).run p).2) := by
  rw [extractAll_cons, extract_singleton h]
  rfl

theorem halfElements_found (errorLog : Option Path) :
    found (halfRules errorLog) halfElements =
      halfElements.map fun e => (Name.canonical e.name, e) := by
  have hsorted : sortByKey (halfElements.map fun e => (Name.canonical e.name, e)) =
      halfElements.map fun e => (Name.canonical e.name, e) :=
    List.mergeSort_of_pairwise (by decide +kernel)
  rw [← hsorted]
  rfl

def halfClasses : List LookupClass := [
  ⟨[CodePoint.ofChar 'A', 0xD83D], "p.Half", [⟨"A", "1"⟩]⟩, ⟨"q.Whole", "p.Whole", [⟨"B", "2"⟩]⟩]

/-- With an error log, neither of the two classes is in the result: there is none. -/
theorem failure_of_half_not_contained :
    ((generate (halfRules (some (.ofText "err.log"))) halfClasses[0]).run sharedStart).1 =
        .error ⟨38, 1, 0xD83D⟩ ∧
    ((process (halfRules (some (.ofText "err.log"))) halfElements).run sharedStart).1 =
      .error (.unrecordable ⟨38, 1, 0xD83D⟩) := by
  refine ⟨by decide +kernel, ?_⟩
  let marked := halfElements.zipWith (fun e c => (⟨c.source, c.target, e⟩ : MarkedType)) halfClasses
  have hmarked : markedTypes "Marker"
      (halfElements.map fun e => (Name.canonical e.name, e)) = .ok marked := rfl
  have hextracted (start : Progress) :
      (extractAll marked).run start = ((halfClasses, []), start) := by
    change (extractAll [⟨"p.Half", _, halfElements[0]⟩, ⟨"p.Whole", _, halfElements[1]⟩]).run
      start = _
    rw [extractAll_cons_singleton (e := ⟨"A", "1"⟩) rfl,
      extractAll_cons_singleton (e := ⟨"B", "2"⟩) rfl]
    rfl
  have hsorted : LookupClass.sort halfClasses = halfClasses :=
    List.mergeSort_of_pairwise (by decide +kernel)
  rw [run_process, halfElements_found]
  have hmarker : (halfRules (some (.ofText "err.log"))).marker = "Marker" := rfl
  rw [hmarker, hmarked]
  simp only [hextracted, hsorted]
  decide +kernel

end Generation

end LookupGen
