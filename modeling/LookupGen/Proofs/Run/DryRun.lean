import LookupGen.Proofs.Run.Foretold

/-!
# Dry runs

A run that keeps its lookup classes in memory leaves the disk as it is, but for the logs, and it
predicts the run that writes them, from the same state.
-/

namespace LookupGen

open Text (hasSurrogate)
open Session (Grown Logs)
open Generation (IsMarked SmoothProcess hasConstants)

namespace Run

variable {source : ElementSource} {path : Text} {outputDir : Option Path}
  {s s₁ : Session} {c : Config} {elements : List Element}

theorem grown_written_memory (hd : s₁.disk.Sound) (path : Text) (outputDir : Option Path)
    (c : Config) (elements : List Element) :
    Grown (Logs (some c.errorLog) s₁) s₁
      (written ⟨path, outputDir, true⟩ c elements s₁).2.session := by
  apply Generation.grown_process (p := ⟨s₁, Sink.inMemory, []⟩) hd
  refine ⟨fun names hnames => hnames, ?_⟩
  intro root hroot
  cases hroot

theorem dry_leaves (hd : s.disk.Sound) {names : List Text}
    (hnames : ¬ IsLog source path outputDir s names) :
    ((generate source ⟨path, outputDir, true⟩).run s).2.disk.contentAt? names =
      s.disk.contentAt? names := by
  have hnone : ¬ Logs none s names := fun h => hnames (.inl h)
  cases hinput : (prepare source path outputDir).run s with
  | mk answer s₁ =>
    have hprepared := grown_prepare hd hinput
    have hstart := hprepared.grows.keeps.files names hnone
    cases answer with
    | error e =>
      rw [run_generate_of_failure hinput]
      exact hstart
    | ok input =>
      obtain ⟨c, elements⟩ := input
      have herror : ¬ Logs (some c.errorLog) s₁ names := by
        rw [hprepared.logs_iff]
        exact fun h => hnames (.inr ⟨c, elements, s₁, hinput, h⟩)
      have hd₁ := hprepared.sound hd
      have hwritten := grown_written_memory hd₁ path outputDir c elements
      have hmemory := (hwritten.grows.keeps.files names herror).trans hstart
      rw [run_generate_of_input hinput]
      cases hp : (written ⟨path, outputDir, true⟩ c elements s₁).1 with
      | error e =>
        simp only [finished, hp]
        exact hmemory
      | ok result =>
        rw [finished_of_ok hp]
        refine Eq.trans ?_ hmemory
        apply (grown_closing (hwritten.sound hd₁) result).grows.keeps.files
        intro h
        exact herror (Session.logs_of_none ((hwritten.logs_iff none names).mp h))

/-- Where the run that writes has its logs outside of its directory for lookup classes, meets no
failure of the disk and renders no text without a UTF-8 form, a run in memory foretells it just
where neither of them or both break off at a failure that cannot be recorded; so it does where every
target can be recorded. The run in memory changes no file but the logs. -/
theorem dry_run_predicts (source : ElementSource) (path : Text) (outputDir : Option Path)
    (hd : s.disk.Sound)
    (hreal : ∀ c elements s₁, (prepare source path outputDir).run s = (.ok (c, elements), s₁) →
      LogsOutside s c ∧ SmoothProcess (rules c) elements ⟨s₁, Sink.below c.outputDir, []⟩) :
    (Predicts source path outputDir s ↔
      (BreaksOff source ⟨path, outputDir, true⟩ s ↔ BreaksOff source ⟨path, outputDir, false⟩ s)) ∧
    ((∀ c elements s₁, (prepare source path outputDir).run s = (.ok (c, elements), s₁) →
        ∀ m, IsMarked (rules c) elements m → hasConstants m.element = true →
          hasSurrogate m.target = false) → Predicts source path outputDir s) ∧
    ∀ names, ¬ IsLog source path outputDir s names →
      ((generate source ⟨path, outputDir, true⟩).run s).2.disk.contentAt? names =
        s.disk.contentAt? names := by
  have hfailed {e : RunFailure} {s₁ : Session}
      (hinput : (prepare source path outputDir).run s = (.error e, s₁)) (dryRun : Bool) :
      ((generate source ⟨path, outputDir, dryRun⟩).run s).1 = .error e := by
    rw [run_generate_of_failure hinput]
  refine ⟨?_, ?_, fun names hnames => dry_leaves hd hnames⟩
  · cases hinput : (prepare source path outputDir).run s with
    | mk answer s₁ =>
      cases answer with
      | error e =>
        apply iff_of_true (.inl ⟨e, hfailed hinput true, hfailed hinput false⟩)
        unfold BreaksOff
        rw [hfailed hinput true, hfailed hinput false]
      | ok input =>
        obtain ⟨houtside, hsmooth⟩ := hreal _ _ _ hinput
        exact predicts_iff_of_input hd hinput houtside hsmooth
  · intro hclean
    cases hinput : (prepare source path outputDir).run s with
    | mk answer s₁ =>
      cases answer with
      | error e => exact .inl ⟨e, hfailed hinput true, hfailed hinput false⟩
      | ok input =>
        obtain ⟨houtside, hsmooth⟩ := hreal _ _ _ hinput
        have hnot := not_breaksOff_of_recordable hinput (hclean _ _ _ hinput)
        exact (predicts_iff_of_input hd hinput houtside hsmooth).mpr
          (iff_of_false (hnot true) (hnot false))

theorem run_prepare_given (elements : List Element) (path : Text) (outputDir : Option Path)
    (s : Session) :
    (prepare (.given elements) path outputDir).run s = match configAt s.disk path with
      | .error e => (.error e, s)
      | .ok set =>
        (.ok ({ set with outputDir := s.disk.resolve (outputDir.getD set.outputDir) }, elements),
          ((Session.record .info runPart
            (Text.join ["Starting generate run for ", set.root.toText])).run s).2) := by
  rw [prepare, exceptT_run_bind, run_loadConfig]
  cases configAt s.disk path with
  | error e => rfl
  | ok set => rfl

/-- The error log is where the directory for lookup classes will stand. -/
def halfSettings : Bytes := (Utf8.encode (Text.ofString "error_log: target")).toOption.getD []

def halfStart : Session :=
  ⟨⟨.dir [(".constgen.yml", .file halfSettings)], []⟩, Journal.start .warning none []⟩

def halfReady : Session :=
  ((Session.record .info runPart "Starting generate run for /").run halfStart).2

def halfConfig : Config := { Config.default ⟨.root, []⟩ with errorLog := ⟨.root, ["target"]⟩ }

theorem halfStart_sound : halfStart.disk.Sound := ⟨Node.kindAt?_nil _, rfl⟩

theorem half_settings : configAt halfStart.disk "." = .ok halfConfig := by
  have hchecked : (match configAt halfStart.disk "." with
      | .ok c => decide (c = halfConfig)
      | .error _ => false) = true := by decide +kernel
  split at hchecked
  · next c hc => rw [hc, of_decide_eq_true hchecked]
  · cases hchecked

theorem half_input (elements : List Element) :
    (prepare (.given elements) "." none).run halfStart =
      (.ok (halfConfig, elements), halfReady) := by
  rw [run_prepare_given, half_settings]
  rfl

theorem half_outside : LogsOutside halfStart halfConfig := by
  rintro names ⟨path, hpath | hpath, rfl⟩
  · obtain rfl := Option.some.inj hpath
    decide
  · cases hpath

def wholeElement : Element := listedElement "A" "A" [⟨"X", stringType, some (.text "1")⟩]

/-- A class whose target has half of a UTF-16 pair in it. -/
def halfElement : Element :=
  listedElement "Z" [CodePoint.ofChar 'Z', 0xD800] [⟨"X", stringType, some (.text "1")⟩]

def wholeMarked : MarkedType := ⟨"A", "A", wholeElement⟩

def halfMarked : MarkedType := ⟨"Z", [CodePoint.ofChar 'Z', 0xD800], halfElement⟩

theorem half_marked : Generation.markedTypes (rules halfConfig).marker
    (Generation.found (rules halfConfig) [wholeElement, halfElement]) =
      .ok [wholeMarked, halfMarked] := by
  have hfound : Generation.found (rules halfConfig) [wholeElement, halfElement] =
      [wholeElement, halfElement].map fun e => (Name.canonical e.name, e) :=
    Generation.found_of_sorted (by decide) (by decide)
  rw [hfound]
  rfl

theorem half_extracted : (Generation.extract wholeMarked).1 = ⟨"A", "A", [⟨"X", "1"⟩]⟩ ∧
    (Generation.extract halfMarked).1 = ⟨halfMarked.target, "Z", [⟨"X", "1"⟩]⟩ := by
  decide +kernel

theorem half_classes : Generation.classes [wholeMarked, halfMarked] =
    [⟨"A", "A", [⟨"X", "1"⟩]⟩, ⟨halfMarked.target, "Z", [⟨"X", "1"⟩]⟩] := by
  have hordered : Generation.ordered [wholeMarked, halfMarked] = [wholeMarked, halfMarked] :=
    List.mergeSort_of_pairwise (by decide)
  rw [Generation.classes, hordered, List.map_cons, List.map_singleton, half_extracted.1,
    half_extracted.2]

theorem smooth_whole {p : Generation.Progress} {cs : List LookupClass}
    (hdeliver :
      ((Generation.deliver (rules halfConfig).generator ⟨"A", "A", [⟨"X", "1"⟩]⟩).run p).1 =
      .ok ())
    (htail : Generation.Smooth (rules halfConfig) cs
      ((Generation.generate (rules halfConfig) ⟨"A", "A", [⟨"X", "1"⟩]⟩).run p).2) :
    Generation.Smooth (rules halfConfig) (⟨"A", "A", [⟨"X", "1"⟩]⟩ :: cs) p := by
  apply Generation.smooth_cons _ _ htail
  · intro e h
    rw [hdeliver] at h
    cases h
  · intro hnew t hrender
    rw [LookupClass.hasSurrogate_render (Text.hasSurrogate_ofString _) hnew.1 hrender]
    decide

def halfProgress (elements : List Element) (ms : List MarkedType) : Generation.Progress :=
  Generation.collected (rules halfConfig) elements ms
    ⟨halfReady, Sink.below halfConfig.outputDir, []⟩

theorem whole_marked : Generation.markedTypes (rules halfConfig).marker
    (Generation.found (rules halfConfig) [wholeElement]) = .ok [wholeMarked] := by
  have hfound : Generation.found (rules halfConfig) [wholeElement] =
      [wholeElement].map fun e => (Name.canonical e.name, e) :=
    Generation.found_of_sorted (by decide) (by decide)
  rw [hfound]
  rfl

theorem whole_classes : Generation.classes [wholeMarked] = [⟨"A", "A", [⟨"X", "1"⟩]⟩] := by
  have hordered : Generation.ordered [wholeMarked] = [wholeMarked] := List.mergeSort_singleton _
  rw [Generation.classes, hordered, List.map_singleton, half_extracted.1]

theorem half_runs :
    (∀ p ∈ [halfProgress [wholeElement, halfElement] [wholeMarked, halfMarked],
        halfProgress [wholeElement] [wholeMarked]],
      ((Generation.deliver (rules halfConfig).generator ⟨"A", "A", [⟨"X", "1"⟩]⟩).run p).1 =
        .ok ()) ∧
      (written ⟨".", none, false⟩ halfConfig [wholeElement] halfReady).1 = .ok ⟨["A"], [], []⟩ ∧
      (written ⟨".", none, true⟩ halfConfig [wholeElement, halfElement] halfReady).1 =
        .error (.unrecordable ⟨38, 1, 0xD800⟩) ∧
      (written ⟨".", none, false⟩ halfConfig [wholeElement, halfElement] halfReady).1 =
        .ok ⟨["A"], [halfMarked.target], []⟩ := by
  unfold written
  rw [Generation.run_process_of_marked whole_marked, whole_classes,
    Generation.run_process_of_marked half_marked, Generation.run_process_of_marked half_marked,
    half_classes]
  decide +kernel

theorem half_smooth : SmoothProcess (rules halfConfig) [wholeElement, halfElement]
    ⟨halfReady, Sink.below halfConfig.outputDir, []⟩ := by
  intro ms hms
  obtain rfl := Except.ok.inj (half_marked.symm.trans hms)
  have hinvalid : Name.isValid halfMarked.target = false := by
    apply Bool.eq_false_iff.mpr
    intro hvalid
    have hsurrogate := Name.not_hasSurrogate_of_isValid hvalid
    revert hsurrogate
    decide
  rw [half_classes]
  apply smooth_whole (half_runs.1 _ List.mem_cons_self)
  apply Generation.smooth_cons _ _ Generation.smooth_nil
  · intro e h
    rw [Generation.deliver_invalid (c := ⟨halfMarked.target, "Z", [⟨"X", "1"⟩]⟩) hinvalid] at h
    cases h
  · intro hnew
    rw [Generation.IsNew, hinvalid] at hnew
    cases hnew.1

theorem whole_smooth : SmoothProcess (rules halfConfig) [wholeElement]
    ⟨halfReady, Sink.below halfConfig.outputDir, []⟩ := by
  intro ms hms
  obtain rfl := Except.ok.inj (whole_marked.symm.trans hms)
  rw [whole_classes]
  exact smooth_whole (half_runs.1 _ (List.mem_cons_of_mem _ List.mem_cons_self))
    Generation.smooth_nil

/-- Without the class that cannot be recorded the log is not needed. -/
theorem dry_run_predicts_whole :
    halfStart.disk.Sound ∧
      (∀ c elements s₁, (prepare (.given [wholeElement]) "." none).run halfStart =
          (.ok (c, elements), s₁) →
        LogsOutside halfStart c ∧
          SmoothProcess (rules c) elements ⟨s₁, Sink.below c.outputDir, []⟩) ∧
      Predicts (.given [wholeElement]) "." none halfStart ∧
      ∃ o, ((generate (.given [wholeElement]) ⟨".", none, false⟩).run halfStart).1 = .ok o ∧
        o.generated = [Text.ofString "A"] := by
  have hinput := half_input [wholeElement]
  have hsmooth : ∀ c elements s₁, (prepare (.given [wholeElement]) "." none).run halfStart =
      (.ok (c, elements), s₁) →
        LogsOutside halfStart c ∧
          SmoothProcess (rules c) elements ⟨s₁, Sink.below c.outputDir, []⟩ := by
    intro c elements s₁ h
    rw [hinput] at h
    obtain ⟨hok, rfl⟩ := Prod.mk.inj h
    obtain ⟨rfl, rfl⟩ := Prod.mk.inj (Except.ok.inj hok)
    exact ⟨half_outside, whole_smooth⟩
  obtain ⟨-, hreal, -⟩ := half_runs
  have hreal' := congrArg Prod.fst (finished_of_ok hreal)
  rw [← run_generate_of_input hinput] at hreal'
  refine ⟨halfStart_sound, hsmooth, ?_, _, hreal', rfl⟩
  apply (dry_run_predicts (.given [wholeElement]) "." none halfStart_sound hsmooth).2.1
  intro c elements s₁ h m hmarked _
  rw [hinput] at h
  obtain ⟨hok, rfl⟩ := Prod.mk.inj h
  obtain ⟨rfl, rfl⟩ := Prod.mk.inj (Except.ok.inj hok)
  have hmem := ((Generation.marked_of_ok whole_marked).2 m).mpr hmarked
  obtain rfl := List.mem_singleton.mp hmem
  decide

/-- In memory nothing is in the way of the error log, and it cannot hold the failure. The run that
writes has made a directory where the log should be when it comes to the failure, so it goes on. -/
theorem dry_run_not_predicted :
    (prepare (.given [wholeElement, halfElement]) "." none).run halfStart =
        (.ok (halfConfig, [wholeElement, halfElement]), halfReady) ∧
      LogsOutside halfStart halfConfig ∧
      SmoothProcess (rules halfConfig) [wholeElement, halfElement]
        ⟨halfReady, Sink.below halfConfig.outputDir, []⟩ ∧
      ((generate (.given [wholeElement, halfElement]) ⟨".", none, true⟩).run halfStart).1 =
        .error (.generation (.unrecordable ⟨38, 1, 0xD800⟩)) ∧
      (∃ o, ((generate (.given [wholeElement, halfElement]) ⟨".", none, false⟩).run halfStart).1 =
        .ok o ∧ o.generated = [Text.ofString "A"]) ∧
      ¬ Predicts (.given [wholeElement, halfElement]) "." none halfStart := by
  have hinput := half_input [wholeElement, halfElement]
  obtain ⟨-, -, hdry, hreal⟩ := half_runs
  have hdry' := finished_of_error hdry
  have hreal' := congrArg Prod.fst (finished_of_ok hreal)
  rw [← run_generate_of_input hinput] at hdry' hreal'
  refine ⟨hinput, half_outside, half_smooth, hdry', ⟨_, hreal', rfl⟩, ?_⟩
  rintro (⟨e, -, h⟩ | ⟨root, dry, real, h, -⟩)
  · rw [hreal'] at h
    cases h
  · rw [hdry'] at h
    cases h

end Run

end LookupGen
