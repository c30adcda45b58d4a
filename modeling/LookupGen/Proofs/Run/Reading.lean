import LookupGen.Proofs.Disk.Below
import LookupGen.Proofs.Generation.Growth
import LookupGen.Proofs.SourceTree
import LookupGen.Run

/-!
# What runs read

A run reads the settings of its project, looks for its sources and reads their elements. What it
reads is told by the disk at its start: the records that it makes in between go to the file of the
journal, and that is none of the sources.
-/

namespace LookupGen

open Session (Grown Logs)

namespace SourceReader

variable {d d' : Disk}

theorem readFiles_congr {files : List Path} (h : ∀ file ∈ files, d'.read file = d.read file)
    (program : Program) : readFiles d' program files = readFiles d program files := by
  induction files generalizing program with
  | nil => rfl
  | cons file rest ih =>
    have hfirst : readFile d' program file = readFile d program file := by
      rw [readFile, readFile, h file List.mem_cons_self]
    rw [readFiles, readFiles, hfirst]
    cases readFile d program file with
    | error e => rfl
    | ok program' => exact ih (fun file hfile => h file (List.mem_cons_of_mem _ hfile)) program'

theorem elements_congr {r : SourceReader} (h : ∀ file ∈ r.files, d'.read file = d.read file) :
    elements d' r = elements d r := by
  rw [elements, elements, readFiles_congr h]

end SourceReader

namespace Run

variable {α β : Type} {s s' : Session} {m : RunM α} {k : α → RunM β}

/-- A step answers like this, and does nothing but make records. -/
def Tells (m : RunM α) (answer : Except RunFailure α) (s : Session) : Prop :=
  ∃ s', m.run s = (answer, s') ∧ Grown (Logs none s) s s'

theorem tells_pure (a : α) (s : Session) : Tells (pure a) (.ok a) s := ⟨s, rfl, .refl _ _⟩

theorem Tells.bind {x : Except RunFailure α} {answer : α → Except RunFailure β} (h : Tells m x s)
    (hk : ∀ a s', x = .ok a → Grown (Logs none s) s s' → Tells (k a) (answer a) s') :
    Tells (m >>= k) (x >>= answer) s := by
  obtain ⟨s₁, hrun, hgrown⟩ := h
  cases x with
  | error e =>
    refine ⟨s₁, ?_, hgrown⟩
    rw [exceptT_run_bind, hrun]
    rfl
  | ok a =>
    obtain ⟨s₂, hrun₂, hgrown₂⟩ := hk a s₁ rfl hgrown
    refine ⟨s₂, ?_, hgrown.after hgrown₂⟩
    rw [exceptT_run_bind, hrun]
    exact hrun₂

theorem Tells.ask {x : Except RunFailure α} {answer : α → Except RunFailure β}
    (hm : m.run s = (x, s)) (hk : ∀ a, x = .ok a → Tells (k a) (answer a) s) :
    Tells (m >>= k) (x >>= answer) s := by
  cases x with
  | error e =>
    refine ⟨s, ?_, .refl _ _⟩
    rw [exceptT_run_bind, hm]
    rfl
  | ok a =>
    obtain ⟨s', hrun, hgrown⟩ := hk a rfl
    refine ⟨s', ?_, hgrown⟩
    rw [exceptT_run_bind, hm]
    exact hrun

theorem Tells.askThrough {k : α → RunM α} {x : Except RunFailure α} (hm : m.run s = (x, s))
    (hk : ∀ a, x = .ok a → Tells (k a) (.ok a) s) : Tells (m >>= k) x s := by
  have h := Tells.ask hm hk
  change Tells _ (x >>= pure) _ at h
  rwa [bind_pure] at h

theorem Tells.andThen {a : α} {answer : Except RunFailure β} (h : Tells m (.ok a) s)
    (hk : ∀ s', Grown (Logs none s) s s' → Tells (k a) answer s') : Tells (m >>= k) answer s := by
  obtain ⟨s₁, hrun, hgrown⟩ := h
  obtain ⟨s₂, hrun₂, hgrown₂⟩ := hk s₁ hgrown
  refine ⟨s₂, ?_, hgrown.after hgrown₂⟩
  rw [exceptT_run_bind, hrun]
  exact hrun₂

theorem Tells.get {k : Session → RunM β} {answer : Except RunFailure β} (h : Tells (k s) answer s) :
    Tells (get >>= k) answer s := by
  obtain ⟨s', hrun, hgrown⟩ := h
  exact ⟨s', hrun, hgrown⟩

theorem tells_record (hd : s.disk.Sound) (level : Level) (part text : Text) :
    Tells (record level part text) (.ok ()) s :=
  ⟨_, rfl, Session.grown_record hd none level part text⟩

theorem Tells.record (hd : s.disk.Sound) (level : Level) (part text : Text) (a : α) :
    Tells (do record level part text; return a) (.ok a) s :=
  (tells_record hd level part text).andThen fun s' _ => tells_pure a s'

@[simp] theorem run_orFail {ε : Type} (failure : ε → RunFailure) (x : Except ε α) (s : Session) :
    (orFail failure x).run s = (x.mapError failure, s) := by
  cases x with
  | error e => rfl
  | ok a => rfl

def configAt (d : Disk) (path : Text) : Except RunFailure Config :=
  if d.pathExists (d.resolve (Path.ofText path)) then
    (Config.load d (d.resolve (Path.ofText path))).mapError .config
  else .error (.missingProject path)

def filesAt (d : Disk) (c : Config) : Except RunFailure (List Path) := do
  let tree ← (SourceTree.ofConfig d c (some c.outputDir)).mapError .tree
  (tree.sources d).mapError .tree

def elementsAt (d : Disk) (source : ElementSource) (c : Config) :
    Except RunFailure (List Element) :=
  match source with
  | .given elements => return elements
  | .project => do
    let files ← filesAt d c
    (SourceReader.elements d (SourceReader.ofFiles files [c.marker])).1.mapError .source

@[simp] theorem run_loadConfig (path : Text) (s : Session) :
    (loadConfig path).run s = (configAt s.disk path, s) := by
  have hrun : (loadConfig path).run s =
      (if s.disk.pathExists (s.disk.resolve (Path.ofText path)) then
      orFail .config (Config.load s.disk (s.disk.resolve (Path.ofText path)))
      else throw (.missingProject path)).run s := rfl
  rw [hrun, configAt]
  split
  · exact run_orFail .config _ s
  · rfl

theorem tells_sourceFiles (hd : s.disk.Sound) (c : Config) :
    Tells (sourceFiles c) (filesAt s.disk c) s := by
  apply Tells.get
  dsimp only
  apply Tells.ask (run_orFail .tree _ s)
  intro tree _
  apply Tells.askThrough (run_orFail .tree _ s)
  intro files _
  exact Tells.record hd _ _ _ files

/-- Files that can be read and that no record goes to. -/
def Steady (s : Session) (files : List Path) : Prop :=
  ∀ file ∈ files, (∃ content, s.disk.read file = .ok content) ∧
    ¬ Logs none s (s.disk.placeOf file)

theorem Steady.elements_eq {files : List Path} (hd : s.disk.Sound) (h : Steady s files)
    (hgrown : Grown (Logs none s) s s') (known : List Name) :
    SourceReader.elements s'.disk (SourceReader.ofFiles files known) =
      SourceReader.elements s.disk (SourceReader.ofFiles files known) := by
  apply SourceReader.elements_congr
  intro file hfile
  obtain ⟨⟨content, hread⟩, hlogs⟩ := h file hfile
  rw [hread, hgrown.grows.keeps.read_eq hd hlogs hread]

theorem tells_readElements {files : List Path} (hd : s.disk.Sound) (h : Steady s files)
    (hgrown : Grown (Logs none s) s s') (c : Config) :
    Tells (readElements c files)
      ((SourceReader.elements s.disk (SourceReader.ofFiles files [c.marker])).1.mapError .source)
        s' := by
  apply Tells.get
  rw [h.elements_eq hd hgrown]
  rcases SourceReader.elements s.disk (SourceReader.ofFiles files [c.marker]) with ⟨result, reader⟩
  apply Tells.askThrough (run_orFail .source result s')
  intro elements _
  exact Tells.record (hgrown.sound hd) _ _ _ elements

/-- Source files are looked for, something may be recorded, and then they are read. -/
theorem tells_elements {k : List Element → RunM β} {between : RunM Unit}
    {answer : List Element → Except RunFailure β} (hd : s.disk.Sound) (source : ElementSource)
    (c : Config)
    (hsteady : source = .project → ∀ files, filesAt s.disk c = .ok files → Steady s files)
    (hbetween : ∀ s', Grown (Logs none s) s s' → Tells between (.ok ()) s')
    (hk : ∀ elements s', elementsAt s.disk source c = .ok elements → Grown (Logs none s) s s' →
      Tells (k elements) (answer elements) s') :
    Tells (do
        let files ← locate source c
        between
        let elements ← elements source c files
        k elements)
      (elementsAt s.disk source c >>= answer) s := by
  cases source with
  | given elements =>
    have hlocate : Tells (locate (.given elements) c) (.ok none) s := tells_pure none s
    apply hlocate.andThen
    intro s₁ hgrown₁
    apply (hbetween s₁ hgrown₁).andThen
    intro s₂ hgrown₂
    have helements : Tells (Run.elements (.given elements) c none) (.ok elements) s₂ :=
      tells_pure elements s₂
    apply helements.andThen
    exact fun s₃ hgrown₃ => hk elements s₃ rfl ((hgrown₁.after hgrown₂).after hgrown₃)
  | project =>
    have hfiles := tells_sourceFiles hd c
    unfold elementsAt at hk ⊢
    rw [bind_assoc]
    cases hfound : filesAt s.disk c with
    | error e =>
      rw [hfound] at hfiles
      obtain ⟨s₁, hrun, hgrown⟩ := hfiles
      refine ⟨s₁, ?_, hgrown⟩
      rw [exceptT_run_bind, locate, exceptT_run_bind, hrun]
      rfl
    | ok files =>
      rw [hfound] at hfiles hk
      have hlocate : Tells (locate .project c) (.ok (some files)) s :=
        hfiles.andThen fun s' _ => tells_pure (some files) s'
      apply hlocate.andThen
      intro s₁ hgrown₁
      apply (hbetween s₁ hgrown₁).andThen
      intro s₂ hgrown₂
      have hgrown := hgrown₁.after hgrown₂
      apply (tells_readElements hd (hsteady rfl files hfound) hgrown c).bind
      exact fun elements s₃ hread hgrown₃ => hk elements s₃ hread (hgrown.after hgrown₃)

def settingsAt (d : Disk) (path : Text) (outputDir : Option Path) : Except RunFailure Config := do
  let set ← configAt d path
  return { set with outputDir := d.resolve (outputDir.getD set.outputDir) }

def inputAt (d : Disk) (source : ElementSource) (path : Text) (outputDir : Option Path) :
    Except RunFailure (Config × List Element) := do
  let c ← settingsAt d path outputDir
  let elements ← elementsAt d source c
  return (c, elements)

/-- A run that generates lookup classes, up to where it begins to write. -/
def prepare (source : ElementSource) (path : Text) (outputDir : Option Path) :
    RunM (Config × List Element) := do
  let set ← loadConfig path
  let c := { set with outputDir := (← get).disk.resolve (outputDir.getD set.outputDir) }
  let files ← locate source c
  record .info runPart (Text.join ["Starting generate run for ", c.root.toText])
  let elements ← elements source c files
  return (c, elements)

theorem tells_prepare (hd : s.disk.Sound) (source : ElementSource) (path : Text)
    (outputDir : Option Path)
    (hsteady : source = .project → ∀ c files, settingsAt s.disk path outputDir = .ok c →
      filesAt s.disk c = .ok files → Steady s files) :
    Tells (prepare source path outputDir) (inputAt s.disk source path outputDir) s := by
  unfold inputAt settingsAt at *
  rw [bind_assoc]
  apply Tells.ask (run_loadConfig path s)
  intro set hset
  rw [pure_bind]
  apply Tells.get
  dsimp only
  apply tells_elements hd
  · intro hsource files hfiles
    apply hsteady hsource _ files ?_ hfiles
    rw [hset]
    rfl
  · exact fun s' hgrown => tells_record (hgrown.sound hd) _ _ _
  · exact fun elements s' _ _ => tells_pure _ s'

def sinkOf (r : Request) (c : Config) : Sink :=
  if r.dryRun then Sink.inMemory else Sink.below c.outputDir

def written (r : Request) (c : Config) (elements : List Element) (s : Session) :
    Except Generation.Abort Generation.Result × Generation.Progress :=
  (Generation.process (rules c) elements).run ⟨s, sinkOf r c, []⟩

def outcomeOf (r : Request) (c : Config) (result : Generation.Result)
    (progress : Generation.Progress) : Outcome where
  generated := result.generated
  diagnostics := progress.diagnostics
  outputDir := if r.dryRun then none else some c.outputDir
  outputs := progress.sink.outputs
  dryRun := r.dryRun

def closing (result : Generation.Result) (s : Session) : Session :=
  ((Session.record .info runPart
    (Text.join ["Generated ", Text.ofNat result.generated.length, " of ",
    Text.ofNat (result.generated.length + result.failed.length), " lookup classes"])).run s).2

def finished (r : Request) (input : Config × List Element) (s : Session) :
    Except RunFailure Outcome × Session :=
  let progress := (written r input.1 input.2 s).2
  match (written r input.1 input.2 s).1 with
  | .error e => (.error (.generation e), progress.session)
  | .ok result => (.ok (outcomeOf r input.1 result progress), closing result progress.session)

def proceed (r : Request) : Except RunFailure (Config × List Element) × Session →
    Except RunFailure Outcome × Session
  | (.error e, s) => (.error e, s)
  | (.ok input, s) => finished r input s

/-- A run reads, and then it writes. -/
theorem run_generate (source : ElementSource) (r : Request) (s : Session) :
    (generate source r).run s = proceed r ((prepare source r.path r.outputDir).run s) := by
  have hsplit : generate source r = (do
      let input ← prepare source r.path r.outputDir
      let written ← inProgress (sinkOf r input.1)
        (Generation.process (rules input.1) input.2)
      let result ← orFail .generation written.1
      record .info runPart (Text.join ["Generated ", Text.ofNat result.generated.length, " of ",
        Text.ofNat (result.generated.length + result.failed.length), " lookup classes"])
      return outcomeOf r input.1 result written.2) := by
    simp only [generate, prepare, bind_assoc, pure_bind]
    rfl
  rw [hsplit, exceptT_run_bind]
  rcases (prepare source r.path r.outputDir).run s with ⟨e | ⟨c, elements⟩, s₁⟩
  · rfl
  · simp only
    rw [exceptT_run_bind]
    have hprogress : (inProgress (sinkOf r c) (Generation.process (rules c) elements)).run s₁ =
        (.ok (written r c elements s₁), (written r c elements s₁).2.session) := rfl
    rw [hprogress, proceed]
    unfold finished
    rcases written r c elements s₁ with ⟨e | result, progress⟩
    · rfl
    · rfl

theorem grown_closing (hd : s.disk.Sound) (result : Generation.Result) :
    Grown (Logs none s) s (closing result s) := Session.grown_record hd none _ _ _

section Answers

variable {source : ElementSource} {path : Text} {outputDir : Option Path} {r : Request} {c : Config}
  {elements : List Element} {s₁ : Session}

theorem run_generate_of_input
    (h : (prepare source path outputDir).run s = (.ok (c, elements), s₁)) (dryRun : Bool) :
    (generate source ⟨path, outputDir, dryRun⟩).run s =
      finished ⟨path, outputDir, dryRun⟩ (c, elements) s₁ := by
  rw [run_generate, h, proceed]

theorem run_generate_of_failure {e : RunFailure}
    (h : (prepare source path outputDir).run s = (.error e, s₁)) (dryRun : Bool) :
    (generate source ⟨path, outputDir, dryRun⟩).run s = (.error e, s₁) := by
  rw [run_generate, h, proceed]

theorem finished_of_ok {result : Generation.Result} (h : (written r c elements s₁).1 = .ok result) :
    finished r (c, elements) s₁ = (.ok (outcomeOf r c result (written r c elements s₁).2),
      closing result (written r c elements s₁).2.session) := by
  simp only [finished, h]

theorem finished_of_error {e : Generation.Abort} (h : (written r c elements s₁).1 = .error e) :
    (finished r (c, elements) s₁).1 = .error (.generation e) := by
  simp only [finished, h]

end Answers

end Run

end LookupGen
