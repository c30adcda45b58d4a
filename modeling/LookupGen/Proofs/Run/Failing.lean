import LookupGen.Proofs.Run.DryRun

/-!
# Failing before anything is written

A generation whose marked types do not all say for which class they are marked fails as a whole, and
so does a run that cannot read its settings or sources, however much of its input is in order. The
state is then what it was, apart from records.
-/

namespace LookupGen

open Disk (Extends)
open Session (Logs Recorded)

namespace Generation

variable {r : Rules} {elements : List Element} {p : Progress}

/-- One of the elements that count has a marker without a value. -/
def Unvalued (r : Rules) (elements : List Element) : Prop :=
  ∃ name e a, Chosen r elements name e ∧ e.annotationNamed? r.marker = some a ∧
    a.values.lookup AnnotationData.mainElement = none

theorem value_eq_ok_iff {a : AnnotationData} {name : Name} {v : Value} :
    a.value name = .ok v ↔ a.values.lookup name = some v := by
  unfold AnnotationData.value
  cases a.values.lookup name with
  | none => simp
  | some v' => simp

theorem markedTypes_error_iff :
    (∃ e, markedTypes r.marker (found r elements) = .error e) ↔ Unvalued r elements := by
  constructor
  · rintro ⟨missing, herror⟩
    by_contra hvalued
    have hvalues : ∀ name e, Chosen r elements name e →
        ∃ a v, e.annotationNamed? r.marker = some a ∧
        a.value AnnotationData.mainElement = .ok v := by
      intro name e hchosen
      obtain ⟨a, ha⟩ := hchosen.exists_annotation
      cases hlookup : a.values.lookup AnnotationData.mainElement with
      | none => exact absurd ⟨name, e, a, hchosen, ha, hlookup⟩ hvalued
      | some v => exact ⟨a, v, ha, value_eq_ok_iff.mpr hlookup⟩
    obtain ⟨ms, hms, -⟩ := markedTypes_found hvalues
    rw [herror] at hms
    cases hms
  · rintro ⟨name, e, a, hchosen, ha, hlookup⟩
    cases hmarked : markedTypes r.marker (found r elements) with
    | error missing => exact ⟨missing, rfl⟩
    | ok ms =>
      obtain ⟨v, hv⟩ := value_of_markedTypes hmarked (mem_found_iff.mpr hchosen) ha
      rw [value_eq_ok_iff, hlookup] at hv
      cases hv

theorem process_error_iff :
    (∃ e, ((process r elements).run p).1 = .error (.missingValue e)) ↔ Unvalued r elements := by
  rw [← markedTypes_error_iff]
  constructor
  · rintro ⟨e, h⟩
    cases hmarked : markedTypes r.marker (found r elements) with
    | error missing => exact ⟨missing, rfl⟩
    | ok ms =>
      exfalso
      cases hp : ((process r elements).run p).1 with
      | ok result =>
        rw [hp] at h
        cases h
      | error abort =>
        obtain ⟨fault, -, rfl⟩ := process_error hmarked hp
        rw [hp] at h
        cases h
  · rintro ⟨e, h⟩
    exact ⟨e, process_missing h p⟩

/-- A generation that fails so has made one record, before it looked at the first marker. -/
theorem process_untouched (h : Unvalued r elements) :
    ((process r elements).run p).2.sink = p.sink ∧
      ((process r elements).run p).2.diagnostics = p.diagnostics ∧
      Recorded p.session ((process r elements).run p).2.session := by
  obtain ⟨missing, hmissing⟩ := markedTypes_error_iff.mpr h
  rw [run_process, hmissing]
  exact ⟨rfl, rfl, .record .refl _ _ _⟩

end Generation

namespace Run

open Generation (Unvalued)

variable {source : ElementSource} {r : Request} {s : Session}

theorem recorded_of_error {e : RunFailure} (h : ((generate source r).run s).1 = .error e)
    (hread : ∀ fault, e ≠ .generation (.unrecordable fault)) :
    Recorded s ((generate source r).run s).2 := by
  have hprepared := onlyRecords_prepare source r.path r.outputDir s
  rw [run_generate] at h ⊢
  cases hprepare : (prepare source r.path r.outputDir).run s with
  | mk answer s₁ =>
    rw [hprepare] at h hprepared
    cases answer with
    | error fault => exact hprepared
    | ok input =>
      obtain ⟨c, elements⟩ := input
      change (finished r (c, elements) s₁).1 = .error e at h
      change Recorded s (finished r (c, elements) s₁).2
      unfold finished at h ⊢
      cases hwritten : (written r c elements s₁).1 with
      | ok result =>
        simp only [hwritten] at h
        cases h
      | error abort =>
        simp only [hwritten] at h ⊢
        obtain rfl := Except.error.inj h
        apply hprepared.trans
        cases abort with
        | unrecordable fault => exact absurd rfl (hread fault)
        | missingValue missing =>
          have hunvalued := Generation.process_error_iff.mp ⟨missing, hwritten⟩
          exact (Generation.process_untouched (p := ⟨s₁, sinkOf r c, []⟩) hunvalued).2.2

/-- All or nothing: a generation fails for a marker without a value exactly where there is one among
the elements that count, and then its sink and its diagnostics are as before. After a run that
failed so, or at anything that it reads, the disk is as before; in both cases apart from records at
the end of the file of the journal. -/
theorem failures_leave_all (hd : s.disk.Sound) :
    (∀ (rules : Rules) (elements : List Element) (p : Generation.Progress), p.session = s →
      ((∃ e, ((Generation.process rules elements).run p).1 = .error (.missingValue e)) ↔
        Unvalued rules elements) ∧
      (Unvalued rules elements →
        ((Generation.process rules elements).run p).2.sink = p.sink ∧
        ((Generation.process rules elements).run p).2.diagnostics = p.diagnostics ∧
        Extends (Logs none s) s.disk ((Generation.process rules elements).run p).2.session.disk)) ∧
    ∀ source r e, ((generate source r).run s).1 = .error e →
      (∀ fault, e ≠ .generation (.unrecordable fault)) →
      Extends (Logs none s) s.disk ((generate source r).run s).2.disk := by
  constructor
  · rintro rules elements p rfl
    refine ⟨Generation.process_error_iff, ?_⟩
    intro h
    obtain ⟨hsink, hdiagnostics, hrecorded⟩ := Generation.process_untouched (p := p) h
    exact ⟨hsink, hdiagnostics, hrecorded.extends hd⟩
  · intro source r e h hread
    exact (recorded_of_error h hread).extends hd

def unvaluedElement : Element :=
  { listedElement "A" "A" [] with annotations := [⟨Config.defaultMarker, []⟩] }

def loggedStart : Session :=
  ⟨⟨.dir [("run.log", .file [])], []⟩, Journal.start .info (some ⟨.root, ["run.log"]⟩) []⟩

theorem loggedStart_sound : loggedStart.disk.Sound := ⟨Node.kindAt?_nil _, rfl⟩

theorem unvalued_element (c : Config) (hmarker : c.marker = Config.defaultMarker) :
    Unvalued (rules c) [unvaluedElement] := by
  have hmarker' : (rules c).marker = Config.defaultMarker := hmarker
  refine ⟨"A", unvaluedElement, ⟨Config.defaultMarker, []⟩,
    ⟨?_, rfl, [], [], rfl, by simp⟩, ?_, rfl⟩
  · unfold Generation.isEligible
    rw [hmarker']
    rfl
  · rw [hmarker']
    rfl

theorem loggedStart_fails : ∃ e,
    ((generate (.given [unvaluedElement]) ⟨".", none, false⟩).run loggedStart).1 =
      .error (.generation (.missingValue e)) := by
  have hconfig : configAt loggedStart.disk "." = .ok (Config.default ⟨.root, []⟩) := rfl
  have hunvalued := unvalued_element
    { Config.default ⟨.root, []⟩ with
      outputDir := loggedStart.disk.resolve (Config.default ⟨.root, []⟩).outputDir } rfl
  rw [run_generate, run_prepare_given, hconfig]
  obtain ⟨e, he⟩ := Generation.process_error_iff.mpr hunvalued
  exact ⟨e, finished_of_error he⟩

theorem loggedStart_changes :
    ((generate (.given [unvaluedElement]) ⟨".", none, false⟩).run loggedStart).2.disk.root.kindAt?
      ["run.log"] ≠ loggedStart.disk.root.kindAt? ["run.log"] := by
  decide +kernel

/-- A run that fails may change a file: that of its journal. -/
theorem failure_changes_journal :
    ¬ ∀ source r (s : Session) e, s.disk.Sound →
      ((generate source r).run s).1 = .error (.generation (.missingValue e)) →
      ∀ names, ((generate source r).run s).2.disk.root.kindAt? names =
        s.disk.root.kindAt? names := by
  intro h
  obtain ⟨e, he⟩ := loggedStart_fails
  exact loggedStart_changes (h _ _ _ e loggedStart_sound he _)

theorem failures_leave_all_logged :
    loggedStart.disk.Sound ∧
      (∃ e, ((generate (.given [unvaluedElement]) ⟨".", none, false⟩).run loggedStart).1 =
        .error (.generation (.missingValue e))) ∧
      Extends (Logs none loggedStart) loggedStart.disk
        ((generate (.given [unvaluedElement]) ⟨".", none, false⟩).run loggedStart).2.disk := by
  obtain ⟨e, he⟩ := loggedStart_fails
  refine ⟨loggedStart_sound, ⟨e, he⟩, (failures_leave_all loggedStart_sound).2 _ _ _ he ?_⟩
  intro fault h
  cases h

end Run

end LookupGen
