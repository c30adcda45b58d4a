import LookupGen.Text
import Mathlib.Data.List.Basic

/-!
# Splitting texts

How the pieces between separators fit together with the text that they come from, and how lines come
back from the text that they make up.
-/

namespace LookupGen.Text

variable {sep : CodePoint} {t : Text}

theorem splitAll_append {a b : Text} (h : sep ∉ a) :
    splitAll sep (a ++ sep :: b) = a :: splitAll sep b := by
  induction a with
  | nil =>
    rw [List.nil_append, splitAll]
    cases hb : splitAll sep b with
    | nil => exact absurd hb (splitAll_ne_nil sep b)
    | cons piece pieces => exact if_pos rfl
  | cons c rest ih =>
    have hc : c ≠ sep := fun hc => h (hc ▸ List.mem_cons_self)
    have hrest : sep ∉ rest := fun hrest => h (List.mem_cons_of_mem c hrest)
    rw [List.cons_append, splitAll, ih hrest]
    exact if_neg hc

theorem splitAll_of_not_mem (h : sep ∉ t) : splitAll sep t = [t] := by
  induction t with
  | nil => rfl
  | cons c rest ih =>
    have hc : c ≠ sep := fun hc => h (hc ▸ List.mem_cons_self)
    have hrest : sep ∉ rest := fun hrest => h (List.mem_cons_of_mem c hrest)
    rw [splitAll, ih hrest]
    exact if_neg hc

theorem splitAll_lines {ls : List Text} (h : ∀ l ∈ ls, sep ∉ l) :
    splitAll sep (ls.flatMap fun l => l ++ [sep]) = ls ++ [[]] := by
  induction ls with
  | nil => rfl
  | cons l rest ih =>
    have hrest : ∀ m ∈ rest, sep ∉ m := fun m hm => h m (List.mem_cons_of_mem l hm)
    rw [List.flatMap_cons, List.append_assoc, List.singleton_append,
      splitAll_append (h l List.mem_cons_self), ih hrest]
    rfl

theorem mem_splitAll {c : CodePoint} (h : c ∈ t) :
    c = sep ∨ ∃ piece ∈ splitAll sep t, c ∈ piece := by
  induction t with
  | nil => cases h
  | cons d rest ih =>
    by_cases hc : c = sep
    · exact .inl hc
    refine .inr ?_
    simp only [splitAll]
    cases hpieces : splitAll sep rest with
    | nil => exact absurd hpieces (splitAll_ne_nil sep rest)
    | cons piece pieces =>
      rw [hpieces] at ih
      simp only
      rcases List.mem_cons.mp h with rfl | hrest
      · simp only [if_neg hc]
        exact ⟨c :: piece, List.mem_cons_self, List.mem_cons_self⟩
      · obtain ⟨q, hq, hcq⟩ := (ih hrest).resolve_left hc
        by_cases hd : d = sep
        · rw [if_pos hd]
          exact ⟨q, List.mem_cons_of_mem [] hq, hcq⟩
        · rw [if_neg hd]
          rcases List.mem_cons.mp hq with rfl | hq
          · exact ⟨d :: q, List.mem_cons_self, List.mem_cons_of_mem d hcq⟩
          · exact ⟨q, List.mem_cons_of_mem _ hq, hcq⟩

theorem flatMap_splitAll (sep : CodePoint) (t : Text) :
    ((splitAll sep t).flatMap fun piece => sep :: piece) = sep :: t := by
  induction t with
  | nil => rfl
  | cons c rest ih =>
    simp only [splitAll]
    cases hpieces : splitAll sep rest with
    | nil => exact absurd hpieces (splitAll_ne_nil sep rest)
    | cons piece pieces =>
      rw [hpieces] at ih
      simp only
      by_cases hc : c = sep
      · rw [if_pos hc, List.flatMap_cons, ih, hc]
        rfl
      · rw [List.flatMap_cons, List.cons_append] at ih
        rw [if_neg hc, List.flatMap_cons, List.cons_append, List.cons_append,
          List.tail_eq_of_cons_eq ih]

theorem splitAll_injective (sep : CodePoint) {t u : Text} (h : splitAll sep t = splitAll sep u) :
    t = u := by
  have ht := flatMap_splitAll sep t
  rw [h, flatMap_splitAll] at ht
  exact (List.tail_eq_of_cons_eq ht).symm

theorem splitAll_append_of_not_mem {a b : Text} (h : sep ∉ b) :
    splitAll sep (a ++ sep :: b) = splitAll sep a ++ [b] := by
  induction a with
  | nil =>
    rw [List.nil_append, ← List.nil_append (sep :: b), splitAll_append List.not_mem_nil,
      splitAll_of_not_mem h]
    rfl
  | cons c rest ih =>
    rw [List.cons_append, splitAll, ih, splitAll]
    cases hpieces : splitAll sep rest with
    | nil => exact absurd hpieces (splitAll_ne_nil sep rest)
    | cons piece pieces =>
      simp only [List.cons_append]
      by_cases hc : c = sep
      · rw [if_pos hc, if_pos hc]
        rfl
      · rw [if_neg hc, if_neg hc]
        rfl

theorem mem_of_mem_splitAll {piece : Text} (h : piece ∈ splitAll sep t) {c : CodePoint}
    (hc : c ∈ piece) : c ≠ sep ∧ c ∈ t := by
  induction t generalizing piece with
  | nil =>
    obtain rfl := List.mem_singleton.mp h
    cases hc
  | cons d rest ih =>
    simp only [splitAll] at h
    cases hpieces : splitAll sep rest with
    | nil => exact absurd hpieces (splitAll_ne_nil sep rest)
    | cons first pieces =>
      rw [hpieces] at h ih
      simp only at h
      by_cases hd : d = sep
      · rw [if_pos hd] at h
        rcases List.mem_cons.mp h with rfl | h
        · cases hc
        · obtain ⟨hne, hmem⟩ := ih h hc
          exact ⟨hne, List.mem_cons_of_mem d hmem⟩
      · rw [if_neg hd] at h
        rcases List.mem_cons.mp h with rfl | h
        · rcases List.mem_cons.mp hc with rfl | hc
          · exact ⟨hd, List.mem_cons_self⟩
          · obtain ⟨hne, hmem⟩ := ih List.mem_cons_self hc
            exact ⟨hne, List.mem_cons_of_mem d hmem⟩
        · obtain ⟨hne, hmem⟩ := ih (List.mem_cons_of_mem first h) hc
          exact ⟨hne, List.mem_cons_of_mem d hmem⟩

theorem splitFirst_of_splitAll {a b : Text} {ls : List Text}
    (h : splitAll sep t = a :: b :: ls) :
    ∃ after, splitFirst sep t = some (a, after) ∧ splitAll sep after = b :: ls := by
  induction t generalizing a with
  | nil => simp [splitAll] at h
  | cons c rest ih =>
    rw [splitAll] at h
    cases hrest : splitAll sep rest with
    | nil => exact absurd hrest (splitAll_ne_nil sep rest)
    | cons piece pieces =>
      simp only [hrest] at h
      rw [splitFirst]
      by_cases hc : c = sep
      · rw [if_pos hc] at h
        obtain ⟨rfl, hls⟩ := List.cons.inj h
        rw [if_pos hc]
        exact ⟨rest, rfl, hrest.trans hls⟩
      · rw [if_neg hc] at h
        obtain ⟨rfl, rfl⟩ := List.cons.inj h
        rw [if_neg hc]
        obtain ⟨after, hfirst, hafter⟩ := ih hrest
        exact ⟨after, by rw [hfirst]; rfl, hafter⟩

theorem splitLast_eq_none (h : splitLast sep t = none) : sep ∉ t := by
  induction t with
  | nil => exact List.not_mem_nil
  | cons c rest ih =>
    rw [splitLast] at h
    cases hrest : splitLast sep rest with
    | some p => simp [hrest] at h
    | none =>
      have hc : c ≠ sep := by
        intro hc
        simp [hrest, hc] at h
      intro hmem
      rcases List.mem_cons.mp hmem with rfl | hmem
      · exact hc rfl
      · exact ih hrest hmem

theorem splitLast_eq_some {before after : Text} (h : splitLast sep t = some (before, after)) :
    t = before ++ sep :: after ∧ sep ∉ after := by
  induction t generalizing before with
  | nil => cases h
  | cons c rest ih =>
    rw [splitLast] at h
    cases hrest : splitLast sep rest with
    | some p =>
      simp only [hrest, Option.some.injEq, Prod.mk.injEq] at h
      obtain ⟨rfl, rfl⟩ := h
      obtain ⟨heq, hafter⟩ := ih hrest
      exact ⟨by rw [heq, List.cons_append], hafter⟩
    | none =>
      simp only [hrest] at h
      split at h
      · rename_i hc
        simp only [Option.some.injEq, Prod.mk.injEq] at h
        obtain ⟨rfl, rfl⟩ := h
        exact ⟨by rw [hc, List.nil_append], splitLast_eq_none hrest⟩
      · cases h

end LookupGen.Text
