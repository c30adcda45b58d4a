import LookupGen.Proofs.Generation.Answers
import LookupGen.Proofs.Generation.Attempts
import LookupGen.Proofs.Program.Constants

/-!
# Generations with an error log

With a sink in memory, the error log has no part in what a generation shows as long as it can hold
the failures. What comes of a generation is told by the marked types that come first under their
targets, and by the others.
-/

namespace LookupGen

open Text (hasSurrogate)

namespace Generation

variable {r : Rules} {p q : Progress} {c : LookupClass} {outputs : Table Name Text}

theorem found_of_sorted {elements : List Element}
    (heligible : ∀ e ∈ elements, isEligible r e = true)
    (hsorted : (elements.map fun e => Name.canonical e.name).Pairwise (· < ·)) :
    found r elements = elements.map fun e => (Name.canonical e.name, e) := by
  have hfiltered : elements.filter (isEligible r) = elements := List.filter_eq_self.mpr heligible
  have hnames : ((elements.filter (isEligible r)).map fun e => Name.canonical e.name).Nodup := by
    rw [hfiltered]
    exact hsorted.imp ne_of_lt
  have hstrict : (found r elements).Pairwise fun a b => a.1 < b.1 :=
    List.pairwise_map.mp (keys_found_strict r elements)
  have hstrict' : (elements.map fun e => (Name.canonical e.name, e)).Pairwise
      fun a b => a.1 < b.1 := List.pairwise_map.mpr (List.pairwise_map.mp hsorted)
  have hirrefl : Std.Irrefl fun a b : Name × Element => a.1 < b.1 := ⟨fun a => lt_irrefl a.1⟩
  have hantisymm : Std.Antisymm fun a b : Name × Element => a.1 < b.1 :=
    ⟨fun _ _ hab hba => absurd hab (lt_asymm hba)⟩
  apply List.Pairwise.eq_of_mem_iff hstrict hstrict'
  rintro ⟨name, e⟩
  rw [mem_found_iff, chosen_iff_of_nodup hnames, List.mem_map]
  constructor
  · rintro ⟨hmem, -, rfl⟩
    exact ⟨e, hmem, rfl⟩
  · rintro ⟨e', hmem, heq⟩
    obtain ⟨rfl, rfl⟩ := Prod.mk.inj heq
    exact ⟨hmem, heligible e' hmem, rfl⟩

theorem value_of_markedTypes {marker : Name} {t : Table Name Element} {ms : List MarkedType}
    (h : markedTypes marker t = .ok ms) {x : Name × Element} (hx : x ∈ t) {a : AnnotationData}
    (ha : x.2.annotationNamed? marker = some a) :
    ∃ v, a.value AnnotationData.mainElement = .ok v := by
  induction t generalizing ms with
  | nil => cases hx
  | cons y rest ih =>
    obtain ⟨name, e⟩ := y
    unfold markedTypes at h
    rcases List.mem_cons.mp hx with rfl | hx
    · simp only [ha] at h
      obtain ⟨v, hv, -⟩ := bind_eq_ok.mp h
      exact ⟨v, hv⟩
    · split at h
      · exact ih h hx
      · obtain ⟨v, -, hrest⟩ := bind_eq_ok.mp h
        obtain ⟨more, hmore, -⟩ := bind_eq_ok.mp hrest
        exact ih hmore hx

theorem marked_of_ok {elements : List Element} {ms : List MarkedType}
    (h : markedTypes r.marker (found r elements) = .ok ms) :
    (ms.map (·.name)).Pairwise (· < ·) ∧ ∀ m, m ∈ ms ↔ IsMarked r elements m := by
  have hvalues : ∀ name e, Chosen r elements name e → ∃ a v, e.annotationNamed? r.marker = some a ∧
      a.value AnnotationData.mainElement = .ok v := by
    intro name e hchosen
    obtain ⟨a, ha⟩ := hchosen.exists_annotation
    obtain ⟨v, hv⟩ := value_of_markedTypes h (mem_found_iff.mpr hchosen) ha
    exact ⟨a, v, ha, hv⟩
  obtain ⟨ms', hms', hsorted, hmem⟩ := markedTypes_found hvalues
  obtain rfl := Except.ok.inj (h.symm.trans hms')
  exact ⟨hsorted, hmem⟩

section Firsts

variable {ms : List MarkedType}

theorem mem_lasts_iff {m : MarkedType} :
    m ∈ lasts ms ↔ m ∈ ms ∧ hasConstants m.element = true ∧ ¬ IsFirst ms m := by
  unfold lasts
  rw [List.mem_filter, mem_ordered_iff, decide_eq_true_eq, and_assoc]

theorem eq_of_name_eq (hsorted : (ms.map (·.name)).Pairwise (· < ·)) {m m' : MarkedType}
    (hm : m ∈ ms) (hm' : m' ∈ ms) (hname : m.name = m'.name) : m = m' := by
  have hnodup : (ms.map (·.name)).Nodup := hsorted.imp ne_of_lt
  exact List.inj_on_of_nodup_map hnodup hm hm' hname

theorem firsts_perm (ms : List MarkedType) :
    (firsts ms).Perm (ms.filter fun m => hasConstants m.element && decide (IsFirst ms m)) := by
  have hperm := (ordered_perm ms).filter fun m => decide (IsFirst ms m)
  rw [List.filter_filter] at hperm
  simpa only [firsts, Bool.and_comm] using hperm

end Firsts

theorem process_missing {elements : List Element} {e : MissingValue}
    (h : markedTypes r.marker (found r elements) = .error e) (p : Progress) :
    ((process r elements).run p).1 = .error (.missingValue e) := by
  rw [run_process, h]

end Generation

end LookupGen
