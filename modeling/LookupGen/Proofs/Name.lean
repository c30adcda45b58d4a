import LookupGen.Name
import LookupGen.Proofs.Text.Split

/-!
# Parts of valid names

A valid name is its package, a dot and its last segment, or its last segment alone; and it has no
line end in it.
-/

namespace LookupGen.Name

variable {n : Name}

theorem isIdentifier_ne_nil {t : Text} (h : isIdentifier t = true) : t ≠ [] := by
  rintro rfl
  cases h

theorem isStart_or_isPart_of_isIdentifier {t : Text} (h : isIdentifier t = true) {c : CodePoint}
    (hc : c ∈ t) : isStart c = true ∨ isPart c = true := by
  cases t with
  | nil => cases hc
  | cons d rest =>
    simp only [isIdentifier, Bool.and_eq_true] at h
    obtain ⟨⟨hstart, hrest⟩, -⟩ := h
    rcases List.mem_cons.mp hc with rfl | hc
    · exact .inl hstart
    · exact .inr (List.all_eq_true.mp hrest c hc)

theorem isStart_or_isPart_of_isValid (h : isValid n = true) {c : CodePoint} (hc : c ∈ n) :
    c = '.' ∨ isStart c = true ∨ isPart c = true := by
  rcases Text.mem_splitAll hc with hdot | ⟨piece, hpiece, hin⟩
  · exact .inl hdot
  · exact .inr (isStart_or_isPart_of_isIdentifier (List.all_eq_true.mp h piece hpiece) hin)

theorem newline_not_mem_of_isValid (h : isValid n = true) : CodePoint.ofChar '\n' ∉ n := by
  intro hmem
  rcases isStart_or_isPart_of_isValid h hmem with hdot | hstart | hpart
  · exact absurd hdot (by decide)
  · exact absurd hstart (by decide +kernel)
  · exact absurd hpart (by decide +kernel)

theorem mem_of_mem_package {c : CodePoint} (h : c ∈ package n) : c ∈ n := by
  unfold package at h
  split at h
  · rename_i hlast
    rw [(Text.splitLast_eq_some hlast).1]
    exact List.mem_append_left _ h
  · cases h

theorem mem_of_mem_simple {c : CodePoint} (h : c ∈ simple n) : c ∈ n := by
  unfold simple at h
  split at h
  · rename_i hlast
    rw [(Text.splitLast_eq_some hlast).1]
    exact List.mem_append_right _ (List.mem_cons_of_mem _ h)
  · exact h

theorem within_package_simple (h : isValid n = true) : within (package n) (simple n) = n := by
  unfold package simple
  cases hlast : Text.splitLast '.' n with
  | none => rfl
  | some p =>
    obtain ⟨before, after⟩ := p
    obtain ⟨heq, -⟩ := Text.splitLast_eq_some hlast
    have hbefore : before ≠ [] := by
      rintro rfl
      have hempty : ([] : Text) ∈ segments n := by
        unfold segments
        rw [heq, List.nil_append, ← List.nil_append (CodePoint.ofChar '.' :: after),
          Text.splitAll_append List.not_mem_nil]
        exact List.mem_cons_self
      exact isIdentifier_ne_nil (List.all_eq_true.mp h [] hempty) rfl
    simp only [within]
    rw [if_neg (by simpa using hbefore), heq]
    simp [Text.join, Text.ofString]

end LookupGen.Name
