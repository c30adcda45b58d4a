import LookupGen.Literal
import LookupGen.Proofs.Text.Split

/-!
# Lines of a text block

A text is divided into lines at CR LF, CR and LF. That comes to the same as unifying its line ends
first and dividing it at line feeds then.
-/

namespace LookupGen.Literal

section

variable {α : Type} (point : α → CodePoint)

def prepend (a : List α) : List (List α) → List (List α)
  | [] => [a]
  | line :: rest => (a ++ line) :: rest

/-- The lines of a text, which end with CR LF, CR or LF. The flag says that a CR has been read right
before. -/
def lineSplit : Bool → List α → List (List α)
  | _, [] => [[]]
  | afterReturn, x :: rest =>
    if point x = '\r' then [] :: lineSplit true rest
    else if point x = '\n' then
      if afterReturn then lineSplit false rest else [] :: lineSplit false rest
    else prepend [x] (lineSplit false rest)

theorem lineSplit_cons {x : α} (hreturn : point x ≠ '\r') (hfeed : point x ≠ '\n') (flag : Bool)
    (rest : List α) :
    lineSplit point flag (x :: rest) = prepend [x] (lineSplit point false rest) := by
  rw [lineSplit, if_neg hreturn, if_neg hfeed]

theorem prepend_cons (x : α) (a : List α) (ls : List (List α)) :
    prepend [x] (prepend a ls) = prepend (x :: a) ls := by
  cases ls <;> rfl

theorem lineSplit_append {a : List α} (ha : a ≠ [])
    (h : ∀ x ∈ a, point x ≠ '\r' ∧ point x ≠ '\n') (flag : Bool) (rest : List α) :
    lineSplit point flag (a ++ rest) = prepend a (lineSplit point false rest) := by
  induction a generalizing flag with
  | nil => exact absurd rfl ha
  | cons x tail ih =>
    obtain ⟨hreturn, hfeed⟩ := h x List.mem_cons_self
    rw [List.cons_append, lineSplit_cons point hreturn hfeed]
    cases tail with
    | nil => rfl
    | cons y tail =>
      rw [ih (by simp) (fun z hz => h z (List.mem_cons_of_mem x hz)), prepend_cons]

end

theorem lineSplit_ne_nil {α : Type} (point : α → CodePoint) (flag : Bool) (l : List α) :
    lineSplit point flag l ≠ [] := by
  induction l generalizing flag with
  | nil => simp [lineSplit]
  | cons x rest ih =>
    rw [lineSplit]
    split
    · simp
    · split
      · split
        · exact ih false
        · simp
      · cases lineSplit point false rest <;> simp [prepend]

theorem splitAll_cons_of_ne {sep c : CodePoint} (hc : c ≠ sep) (rest : Text) :
    Text.splitAll sep (c :: rest) = prepend [c] (Text.splitAll sep rest) := by
  rw [Text.splitAll]
  cases Text.splitAll sep rest with
  | nil => rfl
  | cons piece pieces => exact if_neg hc

theorem splitAll_cons_self (sep : CodePoint) (rest : Text) :
    Text.splitAll sep (sep :: rest) = [] :: Text.splitAll sep rest :=
  Text.splitAll_append List.not_mem_nil

/-- Unifying line ends first and dividing at line feeds gives the same lines. -/
theorem splitAll_unifyLineEnds (t : Text) :
    Text.splitAll '\n' (Text.unifyLineEnds t) = lineSplit id false t := by
  induction t using Text.unifyLineEnds.induct with
  | case1 => rw [Text.unifyLineEnds]; rfl
  | case2 c rest hc ihdrop ihrest =>
    have hreturn : id c = CodePoint.ofChar '\r' := Fin.ext hc
    rw [Text.unifyLineEnds, if_pos hc, lineSplit, if_pos hreturn]
    refine (splitAll_cons_self _ _).trans (congrArg ([] :: ·) ?_)
    cases rest with
    | nil => exact ihrest
    | cons x rest =>
      by_cases hx : x = '\n'
      · subst hx
        exact ihdrop
      · have hhead : (x :: rest).head? ≠ some 10 := fun h => hx (Option.some.inj h)
        rw [if_neg hhead, ihrest, lineSplit, lineSplit]
        simp only [id, if_neg hx]
  | case3 c rest hc ih =>
    have hreturn : id c ≠ CodePoint.ofChar '\r' := fun h => hc (congrArg Fin.val h)
    rw [Text.unifyLineEnds, if_neg hc, lineSplit, if_neg hreturn, ← ih]
    by_cases hfeed : id c = CodePoint.ofChar '\n'
    · rw [if_pos hfeed, show c = CodePoint.ofChar '\n' from hfeed]
      exact splitAll_cons_self _ _
    · rw [if_neg hfeed]
      exact splitAll_cons_of_ne hfeed _

end LookupGen.Literal
