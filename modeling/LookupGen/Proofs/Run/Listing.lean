import LookupGen.Proofs.Generation.Shown
import LookupGen.Proofs.LookupClass
import LookupGen.Proofs.Run.Rereading

/-!
# Lists of marked types

A list of the marked types of a project, and a run that keeps its lookup classes in memory: both
work on the same types, so each lookup class and each error belongs to one row of the list.
-/

namespace LookupGen

open Text (hasSurrogate)
open Session (Grown Logs)
open Generation (Progress IsMarked IsFirst extract found markedTypes hasConstants ordered firsts
  lasts refusal)

namespace LookupClass

def puts (text : Text) : List Text :=
  (Text.splitAll '\n' text).filter fun line => Option.isSome <| readEntry? line

theorem puts_render {c : LookupClass} (hvalid : Name.isValid c.target = true)
    (hentries : c.entries ≠ []) {text : Text} (h : c.render defaultGenerator = some text) :
    puts text = c.entries.map entryLine := by
  have htext : text = (lines defaultGenerator c).flatMap fun line => Text.join [line, "\n"] := by
    unfold render at h
    rw [if_neg (by simpa using hentries)] at h
    exact (Option.some.inj h).symm
  have htop : (skeletonTop (Name.package c.target) (Name.simple c.target) c.entries.length).filter
      (fun line => Option.isSome <| readEntry? line) = [] := by
    apply List.filter_eq_nil_iff.mpr
    intro line hline
    rw [List.filterMap_eq_nil_iff.mp (filterMap_readEntry?_top _ _ _) line hline]
    decide
  have hlines : (c.entries.map entryLine).filter (fun line => Option.isSome <| readEntry? line) =
      c.entries.map entryLine := by
    apply List.filter_eq_self.mpr
    intro line hline
    obtain ⟨e, -, rfl⟩ := List.mem_map.mp hline
    rw [readEntry?_entryLine]
    rfl
  have hbottom : skeletonBottom.filter (fun line => Option.isSome <| readEntry? line) = [] := rfl
  rw [puts, htext, splitAll_render hvalid, List.filter_append, List.filter_append, htop, hlines,
    hbottom, List.append_nil, List.nil_append]

end LookupClass

namespace Run

variable {source : ElementSource} {path : Text} {s : Session} {c : Config} {elements : List Element}
  {ms : List MarkedType} {o : Outcome}

def rowOf (m : MarkedType) : Summary := ⟨m.name, m.target, (extract m).1.entries.length⟩

theorem constants_rowOf_pos {m : MarkedType} :
    0 < (rowOf m).constants ↔ hasConstants m.element = true := by
  have hentries := @Generation.entries_eq_nil_iff m
  rw [← List.length_eq_zero_iff] at hentries
  change 0 < (extract m).1.entries.length ↔ _
  rw [Nat.pos_iff_ne_zero, Ne, hentries, Bool.not_eq_false]

def listed (c : Config) (elements : List Element) : RunM (List Summary) :=
  match markedTypes (rules c).marker (found (rules c) elements) with
  | .error e => throw (.generation (.missingValue e))
  | .ok ms => Prod.fst <$> inProgress Sink.inMemory (ms.mapM summary)

/-- The rows with constants that no error is about. -/
def remaining (rows : List Summary) (o : Outcome) : List Summary :=
  rows.filter fun row => decide (0 < row.constants ∧
    ∀ d ∈ Diagnostic.errors o.diagnostics, d.element ≠ some row.name)

/-- What the rows of some marked types say about a run that keeps its lookup classes in memory. -/
structure Agrees (ms : List MarkedType) (rows : List Summary) (o : Outcome) : Prop where
  rows_eq : rows = ms.map rowOf
  ascending : rows.Pairwise fun a b => a.name < b.name
  silent : ∀ row ∈ rows, row.constants = 0 →
    ∀ d ∈ Diagnostic.errors o.diagnostics, d.element ≠ some row.name
  errors : ∀ d ∈ Diagnostic.errors o.diagnostics,
    ∃ row ∈ rows, 0 < row.constants ∧ d.element = some row.name
  errors_once : (Diagnostic.errors o.diagnostics).Pairwise fun d d' => d.element ≠ d'.element
  targets_nodup : ((remaining rows o).map (·.target)).Nodup
  generated_perm : o.generated.Perm ((remaining rows o).map (·.target))
  generated_ascending : o.generated.Pairwise (· < ·)
  outputs_keys : Table.keys o.outputs = o.generated
  outputs : ∀ m ∈ ms, rowOf m ∈ remaining rows o →
    ∃ text, o.outputs.lookup m.target = some text ∧
      LookupClass.puts text = (extract m).1.entries.map LookupClass.entryLine ∧
      (LookupClass.puts text).length = (rowOf m).constants

structure Shown (c : Config) (ms : List MarkedType) (o : Outcome) : Prop where
  generated : o.generated = (firsts ms).map (·.target)
  outputs : o.outputs =
    (firsts ms).map fun m => (m.target, Generation.written (rules c) (extract m).1)
  errors : Diagnostic.errors o.diagnostics = (lasts ms).map fun m => refusal m.target m.name

theorem Shown.not_error_iff (h : Shown c ms o) (hsorted : (ms.map (·.name)).Pairwise (· < ·))
    {m : MarkedType} (hm : m ∈ ms) :
    (∀ d ∈ Diagnostic.errors o.diagnostics, d.element ≠ some (rowOf m).name) ↔ m ∉ lasts ms := by
  rw [h.errors, List.forall_mem_map]
  constructor
  · exact fun hall hlast => hall m hlast rfl
  · intro hnot m' hlast heq
    have hname : m'.name = m.name := Option.some.inj heq
    obtain rfl := Generation.eq_of_name_eq hsorted (Generation.mem_lasts_iff.mp hlast).1 hm hname
    exact hnot hlast

theorem Shown.remaining_eq (h : Shown c ms o) (hsorted : (ms.map (·.name)).Pairwise (· < ·)) :
    remaining (ms.map rowOf) o =
      (ms.filter fun m => hasConstants m.element && decide (IsFirst ms m)).map rowOf := by
  unfold remaining
  rw [List.filter_map]
  congr 1
  apply List.filter_congr
  intro m hm
  have hconstants := @constants_rowOf_pos m
  have herror := h.not_error_iff hsorted hm
  rw [Generation.mem_lasts_iff] at herror
  rw [Bool.eq_iff_iff]
  simp only [Function.comp_apply, decide_eq_true_eq, Bool.and_eq_true, hconstants, herror]
  tauto

theorem Shown.agrees (h : Shown c ms o) (hsorted : (ms.map (·.name)).Pairwise (· < ·)) :
    Agrees ms (ms.map rowOf) o := by
  have htargets := Generation.firsts_targets_sorted hsorted
  have hremaining := h.remaining_eq hsorted
  have hperm : o.generated.Perm ((remaining (ms.map rowOf) o).map (·.target)) := by
    rw [h.generated, hremaining, List.map_map]
    exact (Generation.firsts_perm ms).map _
  have hkeys : Table.keys o.outputs = o.generated := by
    rw [h.outputs, h.generated, Table.keys, List.map_map]
    rfl
  have hgenerated : o.generated.Pairwise (· < ·) := h.generated ▸ htargets
  have hnodup : o.generated.Nodup := hgenerated.imp ne_of_lt
  refine ⟨rfl, ?_, ?_, ?_, ?_, ?_, hperm, hgenerated, hkeys, ?_⟩
  · exact List.pairwise_map.mpr (List.pairwise_map.mp hsorted)
  · intro row hrow hconstants
    obtain ⟨m, hm, rfl⟩ := List.mem_map.mp hrow
    apply (h.not_error_iff hsorted hm).mpr
    intro hlast
    have hpos := constants_rowOf_pos.mpr (Generation.mem_lasts_iff.mp hlast).2.1
    exact absurd hconstants (Nat.pos_iff_ne_zero.mp hpos)
  · intro d hd
    rw [h.errors] at hd
    obtain ⟨m, hlast, rfl⟩ := List.mem_map.mp hd
    obtain ⟨hm, hconstants, -⟩ := Generation.mem_lasts_iff.mp hlast
    exact ⟨rowOf m, List.mem_map_of_mem hm, constants_rowOf_pos.mpr hconstants, rfl⟩
  · rw [h.errors, List.pairwise_map]
    have hnames : (ms.filter fun m => hasConstants m.element && decide (¬ IsFirst ms m)).Pairwise
        fun a b => a.name ≠ b.name := ((List.pairwise_map.mp hsorted).filter _).imp ne_of_lt
    have hlasts := (Generation.lasts_perm ms).symm.pairwise hnames fun hne => hne.symm
    exact hlasts.imp fun hne heq => hne (Option.some.inj heq)
  · exact hperm.nodup_iff.mp hnodup
  · intro m hm hrow
    have hfirst : m ∈ firsts ms := by
      rw [hremaining] at hrow
      obtain ⟨m', hm', heq⟩ := List.mem_map.mp hrow
      rw [List.mem_filter] at hm'
      obtain rfl := Generation.eq_of_name_eq hsorted hm'.1 hm (congrArg Summary.name heq)
      exact (Generation.firsts_perm ms).mem_iff.mpr (List.mem_filter.mpr hm')
    obtain ⟨-, hconstants, hvalid, -⟩ := Generation.mem_firsts_iff.mp hfirst
    have hentries : (extract m).1.entries ≠ [] := by
      rw [Ne, Generation.entries_eq_nil_iff, hconstants]
      decide
    have hputs := LookupClass.puts_render hvalid hentries (Generation.render_written
      (r := rules c) hentries)
    refine ⟨_, ?_, hputs, ?_⟩
    · rw [← Table.mem_iff_lookup (hkeys ▸ hnodup), h.outputs]
      exact List.mem_map.mpr ⟨m, hfirst, rfl⟩
    · rw [hputs, List.length_map]
      rfl

def listedElement (name target : Name) (fields : List Field) : Element :=
  { Generation.provider name target fields with
    annotations := [⟨Config.defaultMarker, [(AnnotationData.mainElement, .text target)]⟩] }

end Run

end LookupGen
