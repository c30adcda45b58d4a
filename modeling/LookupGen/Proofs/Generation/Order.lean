import LookupGen.Proofs.Generation.Process
import LookupGen.Proofs.Generation.Steps
import LookupGen.Proofs.Sink

/-!
# Order of the elements

A generation finds the same types, in the same order, however its elements are arranged, as long as
no two of them share a name. With a sink in memory and no error log all the rest is a matter of the
types that are found; the disk and the journal have no part in it.
-/

namespace LookupGen

namespace Generation

variable {r : Rules} {p q : Progress} {elements elements' : List Element}

theorem chosen_iff_of_nodup
    (h : ((elements.filter (isEligible r)).map fun e => Name.canonical e.name).Nodup)
    {name : Name} {e : Element} :
    Chosen r elements name e ↔ e ∈ elements ∧ isEligible r e = true ∧
      Name.canonical e.name = name := by
  constructor
  · rintro ⟨heligible, hname, before, after, rfl, -⟩
    exact ⟨List.mem_append_right before List.mem_cons_self, heligible, hname⟩
  · rintro ⟨hmem, heligible, hname⟩
    obtain ⟨before, after, rfl⟩ := List.append_of_mem hmem
    refine ⟨heligible, hname, before, after, rfl, ?_⟩
    intro o ho hother heq
    rw [List.filter_append, List.filter_cons_of_pos heligible, List.map_append, List.map_cons] at h
    have hrest := (List.nodup_cons.mp (List.nodup_append.mp h).2.1).1
    apply hrest
    rw [hname, ← heq]
    exact List.mem_map.mpr ⟨o, List.mem_filter.mpr ⟨ho, hother⟩, rfl⟩

theorem found_eq_of_chosen
    (h : ∀ name e, Chosen r elements name e ↔ Chosen r elements' name e) :
    found r elements = found r elements' := by
  have hstrict (es : List Element) : (found r es).Pairwise fun a b => a.1 < b.1 :=
    List.pairwise_map.mp (keys_found_strict r es)
  have hirrefl : Std.Irrefl fun a b : Name × Element => a.1 < b.1 := ⟨fun a => lt_irrefl a.1⟩
  have hantisymm : Std.Antisymm fun a b : Name × Element => a.1 < b.1 :=
    ⟨fun _ _ hab hba => absurd hab (lt_asymm hba)⟩
  apply List.Pairwise.eq_of_mem_iff (hstrict elements) (hstrict elements')
  rintro ⟨name, e⟩
  rw [mem_found_iff, mem_found_iff, h]

theorem found_perm (hperm : elements.Perm elements')
    (hnames : ((elements.filter (isEligible r)).map fun e => Name.canonical e.name).Nodup) :
    found r elements = found r elements' := by
  have hnames' : ((elements'.filter (isEligible r)).map fun e => Name.canonical e.name).Nodup :=
    ((hperm.filter _).map _).nodup_iff.mp hnames
  apply found_eq_of_chosen
  intro name e
  rw [chosen_iff_of_nodup hnames, chosen_iff_of_nodup hnames', hperm.mem_iff]

/-- Two generations with the same sink and the same diagnostics. Their sessions may differ. -/
structure Alike (p q : Progress) : Prop where
  sink : p.sink = q.sink
  diagnostics : p.diagnostics = q.diagnostics

theorem Alike.record (h : Alike p q) (level : Level) (text : Text) :
    Alike ((record level text).run p).2 ((record level text).run q).2 := ⟨h.sink, h.diagnostics⟩

theorem Alike.report (h : Alike p q) (d : Diagnostic) :
    Alike ((report d).run p).2 ((report d).run q).2 := by
  refine ⟨h.sink, ?_⟩
  change p.diagnostics ++ [d] = q.diagnostics ++ [d]
  rw [h.diagnostics]

theorem reports_shown (ds : List Diagnostic) (p : Progress) :
    ((ds.forM report).run p).2.sink = p.sink ∧
      ((ds.forM report).run p).2.diagnostics = p.diagnostics ++ ds := by
  induction ds generalizing p with
  | nil => exact ⟨rfl, (List.append_nil _).symm⟩
  | cons d rest ih =>
    obtain ⟨hsink, hdiagnostics⟩ := ih ((report d).run p).2
    refine ⟨hsink, hdiagnostics.trans ?_⟩
    change p.diagnostics ++ [d] ++ rest = _
    rw [List.append_assoc, List.singleton_append]

theorem extractAll_shown (ms : List MarkedType) (p : Progress) :
    ((extractAll ms).run p).2.sink = p.sink ∧
      ((extractAll ms).run p).2.diagnostics =
        p.diagnostics ++ ms.flatMap fun m => (extract m).2 := by
  induction ms generalizing p with
  | nil => exact ⟨rfl, (List.append_nil _).symm⟩
  | cons m rest ih =>
    obtain ⟨hsink, hdiagnostics⟩ := reports_shown (extract m).2 p
    rw [extractAll_cons, List.flatMap_cons, ← List.append_assoc, ← hdiagnostics, ← hsink]
    by_cases hentries : (extract m).1.entries = []
    · simp only [if_pos hentries]
      exact ih _
    · simp only [if_neg hentries]
      exact ih _

theorem Alike.extractAll (h : Alike p q) (ms : List MarkedType) :
    Alike ((extractAll ms).run p).2 ((extractAll ms).run q).2 := by
  obtain ⟨hsink, hdiagnostics⟩ := extractAll_shown ms p
  obtain ⟨hsink', hdiagnostics'⟩ := extractAll_shown ms q
  constructor
  · rw [hsink, hsink', h.sink]
  · rw [hdiagnostics, hdiagnostics', h.diagnostics]

theorem Alike.deliver (h : Alike p q) {outputs : Table Name Text}
    (hstore : p.sink.store = .memory outputs) (generator : Text) (c : LookupClass) :
    ((deliver generator c).run p).1 = ((deliver generator c).run q).1 ∧
      Alike ((deliver generator c).run p).2 ((deliver generator c).run q).2 ∧
      ∃ outputs', ((deliver generator c).run p).2.sink.store = .memory outputs' := by
  rw [run_deliver, run_deliver, ← h.sink]
  rcases Sink.create_answers p.sink c.target with ⟨-, sink, hcreate, hsame⟩ | ⟨-, e, hcreate⟩
  · have hkept := hsame.trans hstore
    rw [hcreate]
    simp only [Sink.run_write_memory hkept]
    exact ⟨trivial, ⟨rfl, h.diagnostics⟩, _, rfl⟩
  · rw [hcreate]
    exact ⟨rfl, h, outputs, hstore⟩

theorem Alike.generate (h : Alike p q) (hlog : r.errorLog = none) {outputs : Table Name Text}
    (hstore : p.sink.store = .memory outputs) (c : LookupClass) :
    ((generate r c).run p).1 = ((generate r c).run q).1 ∧
      Alike ((generate r c).run p).2 ((generate r c).run q).2 ∧
      ∃ outputs', ((generate r c).run p).2.sink.store = .memory outputs' := by
  obtain ⟨hanswer, halike, outputs', hstore'⟩ := h.deliver hstore r.generator c
  rw [run_generate, run_generate, ← hanswer, hlog]
  cases ((Generation.deliver r.generator c).run p).1 with
  | ok u => exact ⟨rfl, halike.record _ _, outputs', hstore'⟩
  | error f => exact ⟨rfl, halike.report _, outputs', hstore'⟩

theorem Alike.generateAll (h : Alike p q) (hlog : r.errorLog = none) {outputs : Table Name Text}
    (hstore : p.sink.store = .memory outputs) (cs : List LookupClass) :
    ((generateAll r cs).run p).1 = ((generateAll r cs).run q).1 ∧
      Alike ((generateAll r cs).run p).2 ((generateAll r cs).run q).2 := by
  induction cs generalizing p q outputs with
  | nil => exact ⟨rfl, h⟩
  | cons c rest ih =>
    obtain ⟨hanswer, halike, outputs', hstore'⟩ := h.generate hlog hstore c
    rw [run_generateAll_cons, run_generateAll_cons, ← hanswer]
    cases ((Generation.generate r c).run p).1 with
    | error e => exact ⟨rfl, halike⟩
    | ok written =>
      obtain ⟨hrest, hlast⟩ := ih halike hstore'
      simp only [hrest]
      exact ⟨trivial, hlast⟩

/-- What is generated, failed and skipped, what is reported and what is put out, each in its order,
are the same for every arrangement of the elements; and so is the failure where there is one. -/
theorem process_perm (hlog : r.errorLog = none) (hp : p.sink = Sink.inMemory)
    (hq : q.sink = Sink.inMemory) (hdiagnostics : p.diagnostics = q.diagnostics)
    (hperm : elements.Perm elements')
    (hnames : ((elements.filter (isEligible r)).map fun e => Name.canonical e.name).Nodup) :
    ((process r elements).run p).1 = ((process r elements').run q).1 ∧
      ((process r elements).run p).2.diagnostics = ((process r elements').run q).2.diagnostics ∧
      ((process r elements).run p).2.sink.outputs =
        ((process r elements').run q).2.sink.outputs := by
  have hstart : Alike p q := ⟨hp.trans hq.symm, hdiagnostics⟩
  have hdiscovered := hstart.record .debug (Text.join ["Discovered ",
    Text.ofNat (found r elements').length, " constant provider classes"])
  rw [run_process, run_process, found_perm hperm hnames]
  cases markedTypes r.marker (found r elements') with
  | error e =>
    refine ⟨rfl, hdiscovered.diagnostics, ?_⟩
    simp only [hdiscovered.sink]
  | ok ms =>
    have hextracted := hdiscovered.extractAll ms
    have hstore (p₁ : Progress) (h : p₁.sink = Sink.inMemory) :
        ((Generation.extractAll ms).run p₁).2.sink.store = .memory [] :=
      congrArg Sink.store ((extractAll_shown ms p₁).1.trans h)
    obtain ⟨hanswer, hlast⟩ := hextracted.generateAll hlog (hstore _ hp)
      (LookupClass.sort ((ms.filter fun m => hasConstants m.element).map fun m => (extract m).1))
    simp only [extractAll_answer]
    rw [hanswer]
    exact ⟨rfl, hlast.diagnostics, congrArg Sink.outputs hlast.sink⟩

def otherStart : Progress :=
  ⟨⟨⟨.dir [("q", .file [0x43])], []⟩, Journal.start .debug (some (.ofText "q")) []⟩,
    Sink.inMemory, []⟩

theorem process_perm_shared :
    sharedRules.errorLog = none ∧ sharedStart.sink = Sink.inMemory ∧
    otherStart.sink = Sink.inMemory ∧ sharedStart.diagnostics = otherStart.diagnostics ∧
    sharedElements.Perm sharedElements.reverse ∧
    ((sharedElements.filter (isEligible sharedRules)).map fun e => Name.canonical e.name).Nodup ∧
    ((process sharedRules sharedElements).run sharedStart).1 =
      ((process sharedRules sharedElements.reverse).run otherStart).1 ∧
    ((process sharedRules sharedElements).run sharedStart).2.diagnostics =
      ((process sharedRules sharedElements.reverse).run otherStart).2.diagnostics ∧
    ((process sharedRules sharedElements).run sharedStart).2.sink.outputs =
      ((process sharedRules sharedElements.reverse).run otherStart).2.sink.outputs := by
  have hperm : sharedElements.Perm sharedElements.reverse := (List.reverse_perm _).symm
  have hnames : ((sharedElements.filter (isEligible sharedRules)).map
      fun e => Name.canonical e.name).Nodup := by decide +kernel
  exact ⟨rfl, rfl, rfl, rfl, hperm, hnames, process_perm rfl rfl rfl rfl hperm hnames⟩

end Generation

end LookupGen
