import LookupGen.Generation
import LookupGen.Proofs.Table
import Mathlib.Data.List.Lex
import Mathlib.Data.List.Sort
import Mathlib.Order.Fin.Basic

/-!
# Marked types

Which types a generation works on, said without tables: under each name the last element that is
marked, stands at the top of a file and is accepted. They come in strictly ascending order of their
names.
-/

namespace LookupGen

namespace Text

theorem atMost_iff {a b : Text} : atMost a b = true ↔ a ≤ b := by
  simp [atMost]

end Text

namespace Generation

section ByKey

variable {α : Type} {t : Table Text α}

theorem sortByKey_perm (t : Table Text α) : (sortByKey t).Perm t := List.mergeSort_perm t _

theorem sortByKey_sorted (t : Table Text α) : (sortByKey t).Pairwise fun a b => a.1 ≤ b.1 := by
  have h : (sortByKey t).Pairwise fun a b => Text.atMost a.1 b.1 = true := by
    apply List.pairwise_mergeSort
    · intro a b c hab hbc
      exact Text.atMost_iff.mpr (le_trans (Text.atMost_iff.mp hab) (Text.atMost_iff.mp hbc))
    · intro a b
      rw [Bool.or_eq_true, Text.atMost_iff, Text.atMost_iff]
      exact le_total a.1 b.1
  exact h.imp Text.atMost_iff.mp

theorem sortByKey_strict (h : (Table.keys t).Nodup) :
    (Table.keys (sortByKey t)).Pairwise (· < ·) := by
  have hnodup : (Table.keys (sortByKey t)).Nodup := ((sortByKey_perm t).map _).nodup_iff.mpr h
  refine (List.pairwise_map.mpr (sortByKey_sorted t)).imp₂ ?_ hnodup
  intro a b hle hne
  exact lt_of_le_of_ne hle hne

end ByKey

def isEligible (r : Rules) (e : Element) : Bool :=
  (e.annotationNamed? r.marker).isSome && isCandidate r.accepts e

/-- The element that counts for a name: the last eligible one with it. -/
def Chosen (r : Rules) (elements : List Element) (name : Name) (e : Element) : Prop :=
  isEligible r e = true ∧ Name.canonical e.name = name ∧ ∃ before after,
    elements = before ++ e :: after ∧
    ∀ o ∈ after, isEligible r o = true → Name.canonical o.name ≠ name

variable {r : Rules} {elements : List Element}

theorem chosen_iff {name : Name} {e : Element} :
    Chosen r elements name e ↔
      (elements.reverse.find? fun o => isEligible r o && decide (Name.canonical o.name = name)) =
        some e := by
  rw [List.find?_eq_some_iff_append]
  constructor
  · rintro ⟨heligible, hname, before, after, rfl, hlast⟩
    refine ⟨by simp [heligible, hname], after.reverse, before.reverse, by simp, ?_⟩
    intro o ho
    have hno := hlast o (List.mem_reverse.mp ho)
    cases heq : isEligible r o with
    | false => rfl
    | true => simpa using hno heq
  · rintro ⟨he, after, before, heq, hlast⟩
    simp only [Bool.and_eq_true, decide_eq_true_eq] at he
    refine ⟨he.1, he.2, before.reverse, after.reverse, ?_, ?_⟩
    · have hrev := congrArg List.reverse heq
      simpa using hrev
    · intro o ho heligible hname
      have hno := hlast o (List.mem_reverse.mp ho)
      simp [heligible, hname] at hno

theorem Chosen.exists_annotation {name : Name} {e : Element} (h : Chosen r elements name e) :
    ∃ a, e.annotationNamed? r.marker = some a := by
  have heligible := h.1
  rw [isEligible, Bool.and_eq_true] at heligible
  exact Option.isSome_iff_exists.mp heligible.1

/-- The elements that a generation works on, under their names. -/
def found (r : Rules) (elements : List Element) : Table Name Element :=
  discover r.accepts (Element.annotatedWith r.marker elements)

theorem keys_found_strict (r : Rules) (elements : List Element) :
    (Table.keys (found r elements)).Pairwise (· < ·) :=
  sortByKey_strict (Table.nodup_keys_foldl_put _ _)

theorem mem_found_iff {name : Name} {e : Element} :
    (name, e) ∈ found r elements ↔ Chosen r elements name e := by
  have hfilter : (Element.annotatedWith r.marker elements).filter (isCandidate r.accepts) =
      elements.filter (isEligible r) := by
    unfold Element.annotatedWith
    rw [List.filter_filter]
    refine List.filter_congr fun o _ => ?_
    rw [isEligible, Bool.and_comm]
  have hlookup := Table.lookup_foldl_put (fun o : Element => Name.canonical o.name)
    (elements.filter (isEligible r)) [] name
  unfold found discover
  rw [(sortByKey_perm _).mem_iff]
  unfold candidates
  rw [hfilter, Table.mem_iff_lookup (Table.nodup_keys_foldl_put _ _), hlookup, List.lookup_nil,
    Option.or_none, ← List.filter_reverse, List.find?_filter, chosen_iff]
  simp only [Bool.decide_and, Bool.decide_eq_true]

/-- A marked type as a generation should find it: the chosen element of its name, and the text of
the value of its marker. -/
def IsMarked (r : Rules) (elements : List Element) (m : MarkedType) : Prop :=
  Chosen r elements m.name m.element ∧ ∃ a v, m.element.annotationNamed? r.marker = some a ∧
    a.value AnnotationData.mainElement = .ok v ∧ m.target = v.toText

theorem markedTypes_eq {marker : Name} {t : Table Name Element}
    (h : ∀ x ∈ t, ∃ a v, x.2.annotationNamed? marker = some a ∧
      a.value AnnotationData.mainElement = .ok v) :
    ∃ ms, markedTypes marker t = .ok ms ∧ ms.map (·.name) = Table.keys t ∧
      ∀ m, m ∈ ms ↔ (m.name, m.element) ∈ t ∧ ∃ a v, m.element.annotationNamed? marker = some a ∧
        a.value AnnotationData.mainElement = .ok v ∧ m.target = v.toText := by
  induction t with
  | nil => exact ⟨[], rfl, rfl, by simp⟩
  | cons x rest ih =>
    obtain ⟨name, e⟩ := x
    obtain ⟨a, v, ha, hv⟩ := h (name, e) List.mem_cons_self
    obtain ⟨ms, hms, hnames, hmem⟩ := ih fun y hy => h y (List.mem_cons_of_mem _ hy)
    refine ⟨⟨name, v.toText, e⟩ :: ms, ?_, ?_, ?_⟩
    · simp only [markedTypes, ha, hv, hms]
      rfl
    · rw [List.map_cons, hnames]
      rfl
    · intro m
      rw [List.mem_cons, List.mem_cons, hmem]
      constructor
      · rintro (rfl | ⟨hin, hvalue⟩)
        · exact ⟨.inl rfl, a, v, ha, hv, rfl⟩
        · exact ⟨.inr hin, hvalue⟩
      · rintro ⟨heq | hin, hvalue⟩
        · left
          obtain ⟨mname, mtarget, melement⟩ := m
          obtain ⟨rfl, rfl⟩ := Prod.mk.inj heq
          obtain ⟨a', v', ha', hv', htarget⟩ := hvalue
          obtain rfl := Option.some.inj (ha.symm.trans ha')
          obtain rfl := Except.ok.inj (hv.symm.trans hv')
          simp only at htarget
          rw [htarget]
        · exact .inr ⟨hin, hvalue⟩

/-- The marked types come in strictly ascending order, each exactly once. -/
theorem markedTypes_found (h : ∀ name e, Chosen r elements name e →
      ∃ a v, e.annotationNamed? r.marker = some a ∧
        a.value AnnotationData.mainElement = .ok v) :
    ∃ ms, markedTypes r.marker (found r elements) = .ok ms ∧ (ms.map (·.name)).Pairwise (· < ·) ∧
      ∀ m, m ∈ ms ↔ IsMarked r elements m := by
  obtain ⟨ms, hms, hnames, hmem⟩ := @markedTypes_eq r.marker (found r elements)
    fun x hx => h x.1 x.2 (mem_found_iff.mp hx)
  refine ⟨ms, hms, hnames ▸ keys_found_strict r elements, ?_⟩
  intro m
  rw [hmem, mem_found_iff]
  rfl

end Generation

end LookupGen
