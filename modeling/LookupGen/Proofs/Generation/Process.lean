import LookupGen.Proofs.Generation.Writing
import Mathlib.Data.Set.Finite.Lemmas

/-!
# Whole generations

What a generation into an empty sink in memory comes to: each marked type is skipped, written or
reported, and never more than one of these.

This module does NOT say what the texts are; that is a matter of lookup classes.
-/

namespace LookupGen

namespace Generation

variable {p : Progress} {outputs : Table Name Text} {created : List Name}
  {errors : List Diagnostic} {r : Rules}

theorem sortByKey_eq_nil_iff {α : Type} {t : Table Text α} : sortByKey t = [] ↔ t = [] := by
  constructor
  · intro h
    have hperm := sortByKey_perm t
    rw [h] at hperm
    exact List.nil_perm.mp hperm
  · intro h
    have hperm := sortByKey_perm t
    rw [h] at hperm ⊢
    exact List.perm_nil.mp hperm

def hasConstants (e : Element) : Bool := e.fields.any fun f => (constant? f).isSome

theorem constants_eq_nil_iff {e : Element} : constants e = [] ↔ hasConstants e = false := by
  unfold constants hasConstants
  rw [List.eq_nil_iff_forall_not_mem, List.any_eq_false]
  constructor
  · intro h f hf hsome
    obtain ⟨entry, hentry⟩ := Option.isSome_iff_exists.mp hsome
    exact h entry (List.mem_eraseDups.mpr (List.mem_filterMap.mpr ⟨f, hf, hentry⟩))
  · intro h entry hmem
    obtain ⟨f, hf, hentry⟩ := List.mem_filterMap.mp (List.mem_eraseDups.mp hmem)
    exact h f hf (Option.isSome_iff_exists.mpr ⟨entry, hentry⟩)

theorem severity_of_dropWarning? {owner : Name} {old : Option Entry} {e : Entry} {d : Diagnostic}
    (h : dropWarning? owner old e = some d) : d.severity = .warning := by
  unfold dropWarning? at h
  split at h
  · cases h
  · split at h
    · cases h
    · rw [← Option.some.inj h]

theorem foldl_collect {owner : Name} {es : List Entry} {t : Table Text Entry}
    {ws : List Diagnostic} {result : Table Text Entry × List Diagnostic}
    (hws : ∀ d ∈ ws, d.severity = .warning)
    (h : es.foldl (fun (t, warnings) e =>
      let key := Name.fold e.name
      (Table.put key e t, warnings ++ (dropWarning? owner (t.lookup key) e).toList)) (t, ws) =
        result) :
    result.1 = es.foldl (fun t e => Table.put (Name.fold e.name) e t) t ∧
      ∀ d ∈ result.2, d.severity = .warning := by
  induction es generalizing t ws with
  | nil =>
    obtain rfl := h
    exact ⟨rfl, hws⟩
  | cons e rest ih =>
    refine ih ?_ h
    intro d hd
    rcases List.mem_append.mp hd with hd | hd
    · exact hws d hd
    · exact severity_of_dropWarning? (Option.mem_toList.mp hd)

theorem collect_eq (owner : Name) (es : List Entry) :
    (collect owner es).1 = es.foldl (fun t e => Table.put (Name.fold e.name) e t) [] ∧
      ∀ d ∈ (collect owner es).2, d.severity = .warning :=
  foldl_collect (List.forall_mem_nil _) rfl

theorem entries_eq_nil_iff {m : MarkedType} :
    (extract m).1.entries = [] ↔ hasConstants m.element = false := by
  rw [← constants_eq_nil_iff]
  change (sortByKey (collect m.name (constants m.element)).1).map (·.2) = [] ↔ _
  rw [List.map_eq_nil_iff, sortByKey_eq_nil_iff, (collect_eq m.name _).1,
    Table.foldl_put_eq_nil_iff]

theorem Reached.report_warnings (h : Reached p outputs created errors) {ds : List Diagnostic}
    (hds : ∀ d ∈ ds, d.severity = .warning) :
    Reached ((ds.forM report).run p).2 outputs created errors := by
  induction ds generalizing p with
  | nil => exact h
  | cons d rest ih =>
    have hd : d.severity ≠ .error := by
      rw [hds d List.mem_cons_self]
      decide
    exact ih (h.report_other hd) fun e he => hds e (List.mem_cons_of_mem d he)

theorem extractAll_cons (m : MarkedType) (rest : List MarkedType) (p : Progress) :
    (extractAll (m :: rest)).run p =
      let p' := (((extract m).2.forM report).run p).2
      if (extract m).1.entries = [] then
        let p'' := ((record .debug
          (Text.join ["No string constants on ", m.name, "; skipping"])).run p').2
        (((((extractAll rest).run p'').1).1, m.name :: (((extractAll rest).run p'').1).2),
          ((extractAll rest).run p'').2)
      else ((((extract m).1 :: (((extractAll rest).run p').1).1), (((extractAll rest).run p').1).2),
        ((extractAll rest).run p').2) := by
  simp only [extractAll, StateT.run_bind, List.isEmpty_iff]
  split
  · rfl
  · rfl

theorem extractAll_answer (ms : List MarkedType) (p : Progress) :
    ((extractAll ms).run p).1 =
      ((ms.filter fun m => hasConstants m.element).map fun m => (extract m).1,
        (ms.filter fun m => !hasConstants m.element).map (·.name)) := by
  induction ms generalizing p with
  | nil => rfl
  | cons m rest ih =>
    rw [extractAll_cons]
    cases hconstants : hasConstants m.element with
    | false =>
      simp only [if_pos (entries_eq_nil_iff.mpr hconstants)]
      rw [ih, List.filter_cons_of_neg (by simp [hconstants]),
        List.filter_cons_of_pos (by simp [hconstants]), List.map_cons]
    | true =>
      have hentries : (extract m).1.entries ≠ [] := by
        rw [Ne, entries_eq_nil_iff, hconstants]
        decide
      simp only [if_neg hentries]
      rw [ih, List.filter_cons_of_pos (by simpa using hconstants),
        List.filter_cons_of_neg (by simp [hconstants]), List.map_cons]

theorem extractAll_run (ms : List MarkedType) (h : Reached p outputs created errors) :
    ((extractAll ms).run p).1 =
        ((ms.filter fun m => hasConstants m.element).map fun m => (extract m).1,
          (ms.filter fun m => !hasConstants m.element).map (·.name)) ∧
      Reached ((extractAll ms).run p).2 outputs created errors := by
  refine ⟨extractAll_answer ms p, ?_⟩
  induction ms generalizing p with
  | nil => exact h
  | cons m rest ih =>
    have hwarned : Reached (((extract m).2.forM report).run p).2 outputs created errors :=
      h.report_warnings (collect_eq m.name (constants m.element)).2
    rw [extractAll_cons]
    by_cases hentries : (extract m).1.entries = []
    · simp only [if_pos hentries]
      exact ih (hwarned.record .debug (Text.join ["No string constants on ", m.name, "; skipping"]))
    · simp only [if_neg hentries]
      exact ih hwarned

theorem atMost_iff {a b : LookupClass} :
    LookupClass.atMost a b = true ↔
      a.target < b.target ∨ (a.target = b.target ∧ a.source ≤ b.source) := by
  simp [LookupClass.atMost, Text.atMost_iff]

theorem atMost_trans {a b c : LookupClass} (hab : LookupClass.atMost a b = true)
    (hbc : LookupClass.atMost b c = true) : LookupClass.atMost a c = true := by
  rw [atMost_iff] at hab hbc ⊢
  rcases hab with hab | ⟨hab, hab'⟩
  · rcases hbc with hbc | ⟨hbc, -⟩
    · exact .inl (lt_trans hab hbc)
    · exact .inl (hbc ▸ hab)
  · rcases hbc with hbc | ⟨hbc, hbc'⟩
    · exact .inl (hab ▸ hbc)
    · exact .inr ⟨hab.trans hbc, le_trans hab' hbc'⟩

theorem atMost_total (a b : LookupClass) :
    (LookupClass.atMost a b || LookupClass.atMost b a) = true := by
  rw [Bool.or_eq_true, atMost_iff, atMost_iff]
  rcases lt_trichotomy a.target b.target with hlt | heq | hgt
  · exact .inl (.inl hlt)
  · rcases le_total a.source b.source with hle | hle
    · exact .inl (.inr ⟨heq, hle⟩)
    · exact .inr (.inr ⟨heq.symm, hle⟩)
  · exact .inr (.inl hgt)

/-- By target, and by name where targets are equal. -/
def Precedes (a b : MarkedType) : Prop :=
  a.target < b.target ∨ (a.target = b.target ∧ a.name < b.name)

/-- The marked types with constants in the order in which their classes are written. -/
def ordered (ms : List MarkedType) : List MarkedType :=
  (ms.filter fun m => hasConstants m.element).mergeSort fun a b =>
    LookupClass.atMost (extract a).1 (extract b).1

variable {ms : List MarkedType}

theorem ordered_perm (ms : List MarkedType) :
    (ordered ms).Perm (ms.filter fun m => hasConstants m.element) := List.mergeSort_perm _ _

theorem mem_ordered_iff {m : MarkedType} :
    m ∈ ordered ms ↔ m ∈ ms ∧ hasConstants m.element = true := by
  rw [(ordered_perm ms).mem_iff, List.mem_filter]

theorem entries_of_mem_ordered {c : LookupClass}
    (h : c ∈ (ordered ms).map fun m => (extract m).1) : c.entries ≠ [] := by
  obtain ⟨m, hm, rfl⟩ := List.mem_map.mp h
  rw [Ne, entries_eq_nil_iff, (mem_ordered_iff.mp hm).2]
  decide

theorem sort_classes (ms : List MarkedType) :
    LookupClass.sort ((ms.filter fun m => hasConstants m.element).map fun m => (extract m).1) =
      (ordered ms).map fun m => (extract m).1 := by
  unfold LookupClass.sort ordered
  symm
  apply List.map_mergeSort
  intro a _ b _
  rfl

theorem ordered_sorted (h : (ms.map (·.name)).Pairwise (· < ·)) :
    (ordered ms).Pairwise Precedes := by
  have hsorted : (ordered ms).Pairwise fun a b =>
      LookupClass.atMost (extract a).1 (extract b).1 = true := by
    apply List.pairwise_mergeSort
    · exact fun a b c hab hbc => atMost_trans hab hbc
    · exact fun a b => atMost_total (extract a).1 (extract b).1
  have hnodup : (ordered ms).Pairwise fun a b => a.name ≠ b.name := by
    have hms : (ms.filter fun m => hasConstants m.element).Pairwise fun a b => a.name ≠ b.name :=
      ((List.pairwise_map.mp h).filter _).imp ne_of_lt
    exact (ordered_perm ms).symm.pairwise hms fun hne => hne.symm
  refine hsorted.imp₂ ?_ hnodup
  intro a b hle hne
  rcases atMost_iff.mp hle with hlt | ⟨heq, hle⟩
  · exact .inl hlt
  · exact .inr ⟨heq, lt_of_le_of_ne hle hne⟩

/-- A marked type whose class can be written: its target is valid, and no type with constants and
the same target has a smaller name. -/
def IsFirst (ms : List MarkedType) (m : MarkedType) : Prop :=
  Name.isValid m.target = true ∧
    ∀ o ∈ ms, hasConstants o.element = true → o.target = m.target → m.name ≤ o.name

instance (ms : List MarkedType) (m : MarkedType) : Decidable (IsFirst ms m) :=
  inferInstanceAs (Decidable (_ ∧ _))

/-- What came of a generation that went from one state to another. `ms` are the marked types, and
`failures` those whose classes were not written. -/
structure Outcome (r : Rules) (elements : List Element) (ms failures : List MarkedType)
    (result : Result) (before after : Progress) : Prop where
  marked_sorted : (ms.map (·.name)).Pairwise (· < ·)
  mem_marked : ∀ m, m ∈ ms ↔ IsMarked r elements m
  skipped_eq : result.skipped = (ms.filter fun m => !hasConstants m.element).map (·.name)
  skipped_sorted : result.skipped.Pairwise (· < ·)
  mem_generated : ∀ t, t ∈ result.generated ↔
    Name.isValid t = true ∧ ∃ m ∈ ms, hasConstants m.element = true ∧ m.target = t
  generated_sorted : result.generated.Pairwise (· < ·)
  failures_perm : failures.Perm
    (ms.filter fun m => hasConstants m.element && decide (¬ IsFirst ms m))
  failures_sorted : failures.Pairwise Precedes
  failed_eq : result.failed = failures.map (·.target)
  failed_sorted : result.failed.Pairwise (· ≤ ·)
  length_eq : result.generated.length + result.failed.length + result.skipped.length = ms.length
  outputs_keys : Table.keys after.sink.outputs = result.generated
  output_eq : ∀ m ∈ ms, hasConstants m.element = true → IsFirst ms m →
    ∃ text, (extract m).1.render r.generator = some text ∧
      after.sink.outputs.lookup m.target = some text
  errors_eq : Diagnostic.errors after.diagnostics =
    Diagnostic.errors before.diagnostics ++ failures.map fun m => refusal m.target m.name

theorem wins_iff_isFirst {m : MarkedType} :
    Wins ((ordered ms).map fun m => (extract m).1) (extract m).1 ↔ IsFirst ms m := by
  unfold Wins IsFirst
  refine and_congr_right fun _ => ?_
  constructor
  · intro h o ho hconstants htarget
    exact h _ (List.mem_map_of_mem (mem_ordered_iff.mpr ⟨ho, hconstants⟩)) htarget
  · intro h d hd htarget
    obtain ⟨o, ho, rfl⟩ := List.mem_map.mp hd
    obtain ⟨ho, hconstants⟩ := mem_ordered_iff.mp ho
    exact h o ho hconstants htarget

theorem divide_ordered (h : (ms.map (·.name)).Pairwise (· < ·)) :
    divide [] ((ordered ms).map fun m => (extract m).1) =
      (((ordered ms).filter fun m => decide (IsFirst ms m)).map fun m => (extract m).1,
        ((ordered ms).filter fun m => decide (¬ IsFirst ms m)).map fun m => (extract m).1) := by
  have hsorted : ((ordered ms).map fun m => (extract m).1).Pairwise Before :=
    List.pairwise_map.mpr (ordered_sorted h)
  rw [divide_eq_filter hsorted, List.filter_map, List.filter_map]
  have hagree : ∀ m ∈ ordered ms, (Wins ((ordered ms).map fun m => (extract m).1) (extract m).1 ∧
      (extract m).1.target ∉ ([] : List Name) ↔ IsFirst ms m) := by
    intro m _
    rw [wins_iff_isFirst]
    simp
  congr 2
  · exact List.filter_congr fun m hm => decide_eq_decide.mpr (hagree m hm)
  · exact List.filter_congr fun m hm => decide_eq_decide.mpr (not_congr (hagree m hm))

theorem process_run {elements : List Element} {classes : List LookupClass}
    {skipped generated failed : List Name}
    (hmarked : markedTypes r.marker (found r elements) = .ok ms)
    {p₁ : Progress} (hp₁ : p₁ = ((record .debug (Text.join ["Discovered ",
      Text.ofNat (found r elements).length, " constant provider classes"])).run p).2)
    (hextract : ((extractAll ms).run p₁).1 = (classes, skipped))
    (hgenerate : ((generateAll r (LookupClass.sort classes)).run ((extractAll ms).run p₁).2).1 =
      .ok (generated, failed)) :
    (process r elements).run p = (.ok ⟨generated, failed, skipped⟩,
      ((generateAll r (LookupClass.sort classes)).run ((extractAll ms).run p₁).2).2) := by
  rw [run_process, hmarked]
  simp only
  rw [← hp₁, hextract, hgenerate]

theorem isFirst_exists {t : Name} (hvalid : Name.isValid t = true)
    (h : ∃ m ∈ ms, hasConstants m.element = true ∧ m.target = t) :
    ∃ m ∈ ms, hasConstants m.element = true ∧ m.target = t ∧ IsFirst ms m := by
  have hfinite : {m | m ∈ ms ∧ hasConstants m.element = true ∧ m.target = t}.Finite :=
    ms.finite_toSet.subset fun m hm => hm.1
  obtain ⟨m, ⟨hm, hconstants, rfl⟩, hmin⟩ :=
    Set.exists_min_image _ (fun m : MarkedType => m.name) hfinite h
  exact ⟨m, hm, hconstants, rfl, hvalid, fun o ho hco hto => hmin o ⟨ho, hco, hto⟩⟩

def firsts (ms : List MarkedType) : List MarkedType :=
  (ordered ms).filter fun m => decide (IsFirst ms m)

def lasts (ms : List MarkedType) : List MarkedType :=
  (ordered ms).filter fun m => decide (¬ IsFirst ms m)

theorem mem_firsts_iff {m : MarkedType} :
    m ∈ firsts ms ↔ m ∈ ms ∧ hasConstants m.element = true ∧ IsFirst ms m := by
  unfold firsts
  rw [List.mem_filter, mem_ordered_iff, decide_eq_true_eq, and_assoc]

theorem firsts_targets_sorted (h : (ms.map (·.name)).Pairwise (· < ·)) :
    ((firsts ms).map (·.target)).Pairwise (· < ·) := by
  rw [List.pairwise_map]
  refine ((ordered_sorted h).filter _).imp_of_mem ?_
  intro a b ha hb hab
  rcases hab with hlt | ⟨heq, hlt⟩
  · exact hlt
  · obtain ⟨ha, hconstants, -⟩ := mem_firsts_iff.mp ha
    obtain ⟨-, -, -, hmin⟩ := mem_firsts_iff.mp hb
    exact absurd (hmin a ha hconstants heq) (not_le_of_gt hlt)

theorem mem_firsts_targets_iff {t : Name} :
    t ∈ (firsts ms).map (·.target) ↔
      Name.isValid t = true ∧ ∃ m ∈ ms, hasConstants m.element = true ∧ m.target = t := by
  constructor
  · intro h
    obtain ⟨m, hm, rfl⟩ := List.mem_map.mp h
    obtain ⟨hm, hconstants, hvalid, -⟩ := mem_firsts_iff.mp hm
    exact ⟨hvalid, m, hm, hconstants, rfl⟩
  · rintro ⟨hvalid, h⟩
    obtain ⟨m, hm, hconstants, htarget, hfirst⟩ := isFirst_exists hvalid h
    exact List.mem_map.mpr ⟨m, mem_firsts_iff.mpr ⟨hm, hconstants, hfirst⟩, htarget⟩

theorem lasts_perm (ms : List MarkedType) :
    (lasts ms).Perm (ms.filter fun m => hasConstants m.element && decide (¬ IsFirst ms m)) := by
  have hperm := (ordered_perm ms).filter fun m => decide (¬ IsFirst ms m)
  rw [List.filter_filter] at hperm
  simpa only [lasts, Bool.and_comm] using hperm

theorem lasts_targets_sorted (h : (ms.map (·.name)).Pairwise (· < ·)) :
    ((lasts ms).map (·.target)).Pairwise (· ≤ ·) := by
  rw [List.pairwise_map]
  refine ((ordered_sorted h).filter _).imp ?_
  intro a b hab
  rcases hab with hlt | ⟨heq, -⟩
  · exact le_of_lt hlt
  · exact le_of_eq heq

theorem length_firsts_add_lasts (ms : List MarkedType) :
    (firsts ms).length + (lasts ms).length + (ms.filter fun m => !hasConstants m.element).length =
      ms.length := by
  have hdivided : (ordered ms).length = (firsts ms).length + (lasts ms).length := by
    have h := List.length_eq_length_filter_add (l := ordered ms) fun m => decide (IsFirst ms m)
    simpa only [firsts, lasts, decide_not] using h
  rw [← hdivided, (ordered_perm ms).length_eq]
  exact (List.length_eq_length_filter_add fun m : MarkedType => hasConstants m.element).symm

/-- A generation into an empty sink in memory, without an error log, comes to its outcome. -/
theorem process_outcome {elements : List Element} (hlog : r.errorLog = none)
    (hsink : p.sink = Sink.inMemory)
    (hvalues : ∀ name e, Chosen r elements name e → ∃ a v, e.annotationNamed? r.marker = some a ∧
      a.value AnnotationData.mainElement = .ok v) :
    ∃ ms failures result, ((process r elements).run p).1 = .ok result ∧
      Outcome r elements ms failures result p ((process r elements).run p).2 := by
  obtain ⟨ms, hmarked, hsorted, hmem⟩ := markedTypes_found hvalues
  have hstart : Reached p [] [] (Diagnostic.errors p.diagnostics) := ⟨hsink, rfl⟩
  obtain ⟨hextract, hcollected⟩ := extractAll_run ms (hstart.record .debug
    (Text.join ["Discovered ", Text.ofNat (found r elements).length, " constant provider classes"]))
  have hentries : ∀ c ∈ (ordered ms).map fun m => (extract m).1, c.entries ≠ [] := by
    intro c hc
    obtain ⟨m, hm, rfl⟩ := List.mem_map.mp hc
    rw [Ne, entries_eq_nil_iff, (mem_ordered_iff.mp hm).2]
    decide
  obtain ⟨hgenerate, hreached⟩ := generateAll_run hlog hentries hcollected (List.nil_subset _)
  rw [← sort_classes] at hgenerate hreached
  have hrun := process_run hmarked rfl hextract hgenerate
  rw [sort_classes, divide_ordered hsorted] at hrun hreached
  simp only [List.map_map] at hrun hreached
  have houtputs : ((process r elements).run p).2.sink.outputs =
      (firsts ms).map fun m => (m.target, written r (extract m).1) := by
    rw [hrun, hreached.sink]
    rfl
  have hkeys : Table.keys ((process r elements).run p).2.sink.outputs =
      (firsts ms).map (·.target) := by
    rw [houtputs, Table.keys, List.map_map]
    rfl
  refine ⟨ms, lasts ms, _, by rw [hrun], ?_⟩
  exact {
    marked_sorted := hsorted
    mem_marked := hmem
    skipped_eq := rfl
    skipped_sorted := List.pairwise_map.mpr ((List.pairwise_map.mp hsorted).filter _)
    mem_generated := fun t => mem_firsts_targets_iff
    generated_sorted := firsts_targets_sorted hsorted
    failures_perm := lasts_perm ms
    failures_sorted := (ordered_sorted hsorted).filter _
    failed_eq := rfl
    failed_sorted := lasts_targets_sorted hsorted
    length_eq := by
      simp only [List.length_map]
      exact length_firsts_add_lasts ms
    outputs_keys := hkeys
    output_eq := by
      intro m hm hconstants hfirst
      refine ⟨written r (extract m).1, render_written ?_, ?_⟩
      · rw [Ne, entries_eq_nil_iff, hconstants]
        decide
      · have hnodup : (Table.keys ((process r elements).run p).2.sink.outputs).Nodup := by
          rw [hkeys]
          exact (firsts_targets_sorted hsorted).imp ne_of_lt
        rw [← Table.mem_iff_lookup hnodup, houtputs]
        exact List.mem_map.mpr ⟨m, mem_firsts_iff.mpr ⟨hm, hconstants, hfirst⟩, rfl⟩
    errors_eq := by
      rw [hrun]
      exact hreached.errors }

def provider (name target : Name) (fields : List Field) : Element :=
  { kind := .type .ordinary
    name
    annotations := [⟨"Marker", [("value", .text target)]⟩]
    nested := false
    fields
    origin := none }

/-- Two classes with one target, one with an invalid target, and one without constants. -/
def sharedElements : List Element := [
  provider "p.Two" "q.Shared" [⟨"B", stringType, some (.text "2")⟩],
  provider "p.One" "q.Shared" [⟨"A", stringType, some (.text "1")⟩],
  provider "p.Bad" "q.class" [⟨"C", stringType, some (.text "3")⟩],
  provider "p.None" "q.None" []]

def sharedRules : Rules := ⟨"Marker", LookupClass.defaultGenerator, fun _ => true, none⟩

def sharedStart : Progress :=
  ⟨⟨⟨.emptyDir, []⟩, Journal.start .warning none []⟩, Sink.inMemory, []⟩

theorem chosen_one : Chosen sharedRules sharedElements "p.One"
    (provider "p.One" "q.Shared" [⟨"A", stringType, some (.text "1")⟩]) :=
  ⟨by decide, by decide, [_], [_, _], rfl, by
    intro o ho _ hname
    simp only [List.mem_cons, List.not_mem_nil, or_false] at ho
    rcases ho with rfl | rfl
    · exact absurd hname (by decide)
    · exact absurd hname (by decide)⟩

theorem process_outcome_shared :
    sharedRules.errorLog = none ∧ sharedStart.sink = Sink.inMemory ∧
    (∀ name e, Chosen sharedRules sharedElements name e → ∃ a v,
      e.annotationNamed? sharedRules.marker = some a ∧
      a.value AnnotationData.mainElement = .ok v) ∧
    ∃ ms failures result, ((process sharedRules sharedElements).run sharedStart).1 = .ok result ∧
      Outcome sharedRules sharedElements ms failures result sharedStart
        ((process sharedRules sharedElements).run sharedStart).2 ∧
      Text.ofString "q.Shared" ∈ result.generated := by
  have hvalues : ∀ name e, Chosen sharedRules sharedElements name e → ∃ a v,
      e.annotationNamed? sharedRules.marker = some a ∧
      a.value AnnotationData.mainElement = .ok v := by
    rintro name e ⟨-, -, before, after, heq, -⟩
    have he : e ∈ sharedElements := by
      rw [heq]
      exact List.mem_append_right _ List.mem_cons_self
    simp only [sharedElements, List.mem_cons, List.not_mem_nil, or_false] at he
    rcases he with rfl | rfl | rfl | rfl
    all_goals exact ⟨_, _, rfl, rfl⟩
  obtain ⟨ms, failures, result, hresult, houtcome⟩ :=
    @process_outcome sharedStart sharedRules sharedElements rfl rfl hvalues
  refine ⟨rfl, rfl, hvalues, ms, failures, result, hresult, houtcome, ?_⟩
  refine (houtcome.mem_generated _).mpr ⟨by decide +kernel, ⟨"p.One", "q.Shared", _⟩,
    (houtcome.mem_marked _).mpr ⟨chosen_one, _, _, rfl, rfl, rfl⟩, by decide, rfl⟩

end Generation

end LookupGen
