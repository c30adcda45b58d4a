import LookupGen.Proofs.Generation.Foretells
import LookupGen.Proofs.Run.Listing
import LookupGen.Proofs.Run.Records

/-!
# What a dry run foretells

Two runs of one input, the one in memory and the other below its directory for lookup classes: what
the first one shows is what comes of the second, unless just one of them breaks off at a failure
that cannot be recorded.
-/

namespace LookupGen

open Text (hasSurrogate)
open Session (Grown Logs)
open Generation (IsMarked Foretells SmoothProcess hasConstants)

namespace Run

variable {source : ElementSource} {path : Text} {outputDir : Option Path}
  {s s₁ : Session} {c : Config} {elements : List Element}

theorem grown_prepare (hd : s.disk.Sound) {answer : Except RunFailure (Config × List Element)}
    (h : (prepare source path outputDir).run s = (answer, s₁)) : Grown (Logs none s) s s₁ := by
  have hrecorded := onlyRecords_prepare source path outputDir s
  rw [h] at hrecorded
  exact hrecorded.grown hd

/-- The place of a log of a run: the file of the journal, or the error log of its project. -/
def IsLog (source : ElementSource) (path : Text) (outputDir : Option Path) (s : Session)
    (names : List Text) : Prop :=
  Logs none s names ∨ ∃ c elements s₁,
    (prepare source path outputDir).run s = (.ok (c, elements), s₁) ∧
      Logs (some c.errorLog) s names

/-- A run that breaks off at a failure that its error log cannot hold. -/
def BreaksOff (source : ElementSource) (r : Request) (s : Session) : Prop :=
  ∃ e, ((generate source r).run s).1 = .error (.generation (.unrecordable e))

/-- What a run in memory tells about the one that writes below a directory. The disk is that from
which both start, and that on which the second one ends. -/
structure Foretold (isLog : List Text → Prop) (root : Path) (dry real : Outcome) (d d' : Disk) :
    Prop where
  outputDir : real.outputDir = some root
  generated : dry.generated = real.generated
  diagnostics : dry.diagnostics = real.diagnostics
  files : ∀ name ∈ real.generated, ∃ text content, dry.outputs.lookup name = some text ∧
    Utf8.encode text = .ok content ∧
    d'.contentAt? (d.placeOf (Sink.pathOf root name)) = some content
  others : ∀ names, ¬ isLog names →
    (∀ name ∈ real.generated, names ≠ d.placeOf (Sink.pathOf root name)) →
    d'.contentAt? names = d.contentAt? names

/-- The run in memory fails as the one that writes does, or foretells its outcome. -/
def Predicts (source : ElementSource) (path : Text) (outputDir : Option Path) (s : Session) :
    Prop :=
  (∃ e, ((generate source ⟨path, outputDir, true⟩).run s).1 = .error e ∧
    ((generate source ⟨path, outputDir, false⟩).run s).1 = .error e) ∨
  ∃ root dry real, ((generate source ⟨path, outputDir, true⟩).run s).1 = .ok dry ∧
    ((generate source ⟨path, outputDir, false⟩).run s).1 = .ok real ∧
    Foretold (IsLog source path outputDir s) root dry real s.disk
      ((generate source ⟨path, outputDir, false⟩).run s).2.disk

/-- No log of a run lies in its directory for lookup classes. -/
def LogsOutside (s : Session) (c : Config) : Prop :=
  ∀ names, Logs (some c.errorLog) s names → ¬ s.disk.placeOf c.outputDir <+: names

theorem LogsOutside.apart (h : LogsOutside s c) (hd : s.disk.Sound) {files : List Text → Prop}
    (hgrown : Grown files s s₁) : Generation.LogsElsewhere (rules c) c.outputDir s₁ := by
  intro name hvalid hlogs
  have hplace := hlogs
  rw [hgrown.logs_iff, hgrown.grows.placeOf_eq, Sink.placeOf_pathOf hd hvalid] at hplace
  exact h _ hplace (List.prefix_append _ _)

section Together

variable {result : Generation.Result}

theorem foretold_closing (hd : s.disk.Sound)
    (hinput : (prepare source path outputDir).run s = (.ok (c, elements), s₁))
    (houtside : LogsOutside s c) {p q : Generation.Progress} {files : List Text → Prop}
    (hgrown : Grown files s₁ q.session)
    (h : Foretells (rules c) c.outputDir s₁ result p q) :
    Foretold (IsLog source path outputDir s) c.outputDir
      (outcomeOf ⟨path, outputDir, true⟩ c result p) (outcomeOf ⟨path, outputDir, false⟩ c result q)
      s.disk (closing result q.session).disk := by
  have hprepared := grown_prepare hd hinput
  have hd₁ := hprepared.sound hd
  have hclosing := grown_closing (hgrown.sound hd₁) result
  have hlog (names : List Text) : Logs none q.session names → Logs (some c.errorLog) s₁ names := by
    intro hnames
    exact Session.logs_of_none ((hgrown.logs_iff none names).mp hnames)
  have hplace (name : Name) := hprepared.grows.placeOf_eq (Sink.pathOf c.outputDir name)
  refine ⟨rfl, rfl, h.diagnostics, ?_, ?_⟩
  · intro name hname
    obtain ⟨text, content, hlookup, hencode, hcontent⟩ := h.files name hname
    refine ⟨text, content, hlookup, hencode, ?_⟩
    rw [← hplace]
    refine (hclosing.grows.keeps.files _ ?_).trans hcontent
    intro hnames
    exact houtside.apart hd hprepared name (h.valid name hname) (hlog _ hnames)
  · intro names hnames hother
    have hnone : ¬ Logs none s names := fun h => hnames (.inl h)
    have herror : ¬ Logs (some c.errorLog) s names := fun h =>
      hnames (.inr ⟨c, elements, s₁, hinput, h⟩)
    have hsome : ¬ Logs (some c.errorLog) s₁ names := mt (hprepared.logs_iff _ names).mp herror
    rw [hclosing.grows.keeps.files names (mt (hlog names) hsome)]
    refine (h.others names hsome ?_).trans (hprepared.grows.keeps.files names hnone)
    intro name hname
    rw [hplace]
    exact hother name hname

theorem foretold_of_ok (hd : s.disk.Sound)
    (hinput : (prepare source path outputDir).run s = (.ok (c, elements), s₁))
    (houtside : LogsOutside s c)
    (hsmooth : SmoothProcess (rules c) elements ⟨s₁, Sink.below c.outputDir, []⟩)
    {dry real : Outcome} (hdry : ((generate source ⟨path, outputDir, true⟩).run s).1 = .ok dry)
    (hreal : ((generate source ⟨path, outputDir, false⟩).run s).1 = .ok real) :
    Foretold (IsLog source path outputDir s) c.outputDir dry real s.disk
      ((generate source ⟨path, outputDir, false⟩).run s).2.disk := by
  have hprepared := grown_prepare hd hinput
  have hd₁ := hprepared.sound hd
  rw [run_generate_of_input hinput] at hdry hreal ⊢
  cases hp : (written ⟨path, outputDir, true⟩ c elements s₁).1 with
  | error e =>
    rw [finished_of_error hp] at hdry
    cases hdry
  | ok result =>
    cases hq : (written ⟨path, outputDir, false⟩ c elements s₁).1 with
    | error e =>
      rw [finished_of_error hq] at hreal
      cases hreal
    | ok result' =>
      rw [finished_of_ok hp] at hdry
      rw [finished_of_ok hq] at hreal ⊢
      obtain rfl := Except.ok.inj hdry
      obtain rfl := Except.ok.inj hreal
      obtain ⟨rfl, hforetells⟩ :=
        Generation.process_foretells hd₁ (houtside.apart hd hprepared) hsmooth hp hq
      have hgrown := Generation.grown_process (p := ⟨s₁, Sink.below c.outputDir, []⟩) hd₁
        (Generation.covers_all (rules c) _) elements
      exact foretold_closing hd hinput houtside hgrown hforetells

theorem fails_alike (hd : s.disk.Sound)
    (hinput : (prepare source path outputDir).run s = (.ok (c, elements), s₁))
    (houtside : LogsOutside s c)
    (hsmooth : SmoothProcess (rules c) elements ⟨s₁, Sink.below c.outputDir, []⟩)
    {e e' : RunFailure} (hdry : ((generate source ⟨path, outputDir, true⟩).run s).1 = .error e)
    (hreal : ((generate source ⟨path, outputDir, false⟩).run s).1 = .error e') : e = e' := by
  have hprepared := grown_prepare hd hinput
  have hd₁ := hprepared.sound hd
  rw [run_generate_of_input hinput] at hdry hreal
  cases hp : (written ⟨path, outputDir, true⟩ c elements s₁).1 with
  | ok result =>
    rw [finished_of_ok hp] at hdry
    cases hdry
  | error abort =>
    cases hq : (written ⟨path, outputDir, false⟩ c elements s₁).1 with
    | ok result =>
      rw [finished_of_ok hq] at hreal
      cases hreal
    | error abort' =>
      rw [finished_of_error hp] at hdry
      rw [finished_of_error hq] at hreal
      obtain rfl := Except.error.inj hdry
      obtain rfl := Except.error.inj hreal
      rw [Generation.process_break_alike hd₁ (houtside.apart hd hprepared) hsmooth hp hq]

/-- A run that fails after it has read its input breaks off at a failure that cannot be recorded, or
at a type that does not say for which class it is marked, and then it fails so wherever it writes.
-/
theorem breaksOff_of_error
    (hinput : (prepare source path outputDir).run s = (.ok (c, elements), s₁))
    {dryRun : Bool} {e : RunFailure}
    (h : ((generate source ⟨path, outputDir, dryRun⟩).run s).1 = .error e) :
    BreaksOff source ⟨path, outputDir, dryRun⟩ s ∨
      ∀ dryRun', ((generate source ⟨path, outputDir, dryRun'⟩).run s).1 = .error e := by
  have hanswer := h
  rw [run_generate_of_input hinput] at hanswer
  cases hp : (written ⟨path, outputDir, dryRun⟩ c elements s₁).1 with
  | ok result =>
    rw [finished_of_ok hp] at hanswer
    cases hanswer
  | error abort =>
    rw [finished_of_error hp] at hanswer
    obtain rfl := Except.error.inj hanswer
    cases hmarked : Generation.markedTypes (rules c).marker
        (Generation.found (rules c) elements) with
    | ok ms =>
      obtain ⟨fault, -, rfl⟩ := Generation.process_error hmarked hp
      exact .inl ⟨fault, h⟩
    | error missing =>
      right
      intro dryRun'
      obtain rfl := Except.error.inj (hp.symm.trans (Generation.process_missing hmarked _))
      rw [run_generate_of_input hinput]
      exact finished_of_error (Generation.process_missing hmarked _)

theorem not_breaksOff_of_recordable
    (hinput : (prepare source path outputDir).run s = (.ok (c, elements), s₁))
    (hclean : ∀ m, IsMarked (rules c) elements m → hasConstants m.element = true →
      hasSurrogate m.target = false) (dryRun : Bool) :
    ¬ BreaksOff source ⟨path, outputDir, dryRun⟩ s := by
  rintro ⟨e, h⟩
  rw [run_generate_of_input hinput] at h
  cases hp : (written ⟨path, outputDir, dryRun⟩ c elements s₁).1 with
  | ok result =>
    rw [finished_of_ok hp] at h
    cases h
  | error abort =>
    rw [finished_of_error hp] at h
    obtain rfl := RunFailure.generation.inj (Except.error.inj h)
    cases hmarked : Generation.markedTypes (rules c).marker
        (Generation.found (rules c) elements) with
    | error missing =>
      have hmissing := hp.symm.trans (Generation.process_missing hmarked _)
      cases hmissing
    | ok ms =>
      have hmem := (Generation.marked_of_ok hmarked).2
      have hends :=
        Generation.process_endsWith (p := ⟨s₁, sinkOf ⟨path, outputDir, dryRun⟩ c, []⟩) hmarked
      obtain ⟨result, hresult, -⟩ := hends.attempted
        (.inr fun m hm hconstants => hclean m ((hmem m).mp hm) hconstants)
      have hcontra := hp.symm.trans hresult
      cases hcontra

theorem predicts_iff_of_input (hd : s.disk.Sound)
    (hinput : (prepare source path outputDir).run s = (.ok (c, elements), s₁))
    (houtside : LogsOutside s c)
    (hsmooth : SmoothProcess (rules c) elements ⟨s₁, Sink.below c.outputDir, []⟩) :
    Predicts source path outputDir s ↔
      (BreaksOff source ⟨path, outputDir, true⟩ s ↔
        BreaksOff source ⟨path, outputDir, false⟩ s) := by
  have hfails (dryRun dryRun' : Bool) (hiff : BreaksOff source ⟨path, outputDir, dryRun⟩ s →
      BreaksOff source ⟨path, outputDir, dryRun'⟩ s) {e : RunFailure}
      (h : ((generate source ⟨path, outputDir, dryRun⟩).run s).1 = .error e) :
      ∃ e', ((generate source ⟨path, outputDir, dryRun'⟩).run s).1 = .error e' := by
    rcases breaksOff_of_error hinput h with hbreaks | hall
    · obtain ⟨e', he'⟩ := hiff hbreaks
      exact ⟨_, he'⟩
    · exact ⟨e, hall dryRun'⟩
  constructor
  · rintro (⟨e, hdry, hreal⟩ | ⟨root, dry, real, hdry, hreal, -⟩)
    · unfold BreaksOff
      rw [hdry, hreal]
    · unfold BreaksOff
      rw [hdry, hreal]
      exact iff_of_false (by simp) (by simp)
  · intro hiff
    cases hdry : ((generate source ⟨path, outputDir, true⟩).run s).1 with
    | error e =>
      obtain ⟨e', hreal⟩ := hfails true false hiff.mp hdry
      obtain rfl := fails_alike hd hinput houtside hsmooth hdry hreal
      exact .inl ⟨e, hdry, hreal⟩
    | ok dry =>
      cases hreal : ((generate source ⟨path, outputDir, false⟩).run s).1 with
      | error e =>
        obtain ⟨e', hcontra⟩ := hfails false true hiff.mpr hreal
        rw [hdry] at hcontra
        cases hcontra
      | ok real =>
        exact .inr ⟨c.outputDir, dry, real, hdry, hreal,
          foretold_of_ok hd hinput houtside hsmooth hdry hreal⟩

end Together

end Run

end LookupGen
