import LookupGen.Proofs.Java.Numeral

/-!
# Integers as tokens

How an integer is written: a prefix for its base, digits with low lines among them, and perhaps a
letter that makes it long. The whole of such a token is characters.

This module does NOT say where low lines may stand, nor what the value is.
-/

namespace LookupGen.Java.Token

variable {gs : List Glyph}

def digitOf (base : Nat) : Char → Bool :=
  match base with
  | 16 => isHexDigit
  | 8 => isOctalDigit
  | 2 => isBinaryDigit
  | _ => isDigit

/-- The prefixes for the bases other than ten. A zero alone is one for base eight. -/
def prefixes : List (Nat × String) :=
  [(16, "0x"), (16, "0X"), (8, "0o"), (8, "0O"), (8, "0"), (2, "0b"), (2, "0B")]

/-- A prefix, and digits of its base with low lines among them. -/
inductive Spelled : (base : Nat) → (start digits : List Char) → Prop where
  | zero : Spelled 10 [] ['0']
  | decimal {d : Char} {ds : List Char} : d ≠ '0' → isDigit d = true →
      (∀ c ∈ ds, isDigit c = true ∨ c = '_') → Spelled 10 [] (d :: ds)
  | radix {base : Nat} {start : String} {d : Char} {ds : List Char} : (base, start) ∈ prefixes →
      digitOf base d = true → (∀ c ∈ ds, digitOf base c = true ∨ c = '_') →
      Spelled base start.toList (d :: ds)

theorem forall_mem_take_of_between {q : Glyph → Prop} {n : Nat} (h : Between q gs 0 n) :
    ∀ g ∈ gs.take n, q g := by
  intro g hg
  obtain ⟨i, hi⟩ := List.mem_iff_getElem?.mp hg
  obtain ⟨hlt, -⟩ := List.getElem?_eq_some_iff.mp hi
  have hin : i < n := Nat.lt_of_lt_of_le hlt (List.length_take_le _ _)
  rw [List.getElem?_take_of_lt hin] at hi
  exact h i g hi (Nat.zero_le i) hin

theorem chars_of_digits {digit : Char → Bool}
    (h : ∀ g ∈ gs, g.satisfies digit = true ∨ g.is '_' = true) :
    ∃ cs : List Char, gs = cs.map Glyph.char ∧ ∀ c ∈ cs, digit c = true ∨ c = '_' := by
  induction gs with
  | nil => exact ⟨[], rfl, fun c hc => absurd hc List.not_mem_nil⟩
  | cons g gs ih =>
    obtain ⟨cs, rfl, hcs⟩ := ih fun x hx => h x (List.mem_cons_of_mem g hx)
    have hg := h g List.mem_cons_self
    cases g with
    | char c =>
      refine ⟨c :: cs, rfl, List.forall_mem_cons.mpr ⟨hg.imp_right fun hlow => ?_, hcs⟩⟩
      exact beq_iff_eq.mp hlow
    | stray b => exact hg.elim (fun h => by cases h) (fun h => by cases h)

theorem head_of_take {n : Nat} {cs : List Char} (hn : n ≠ 0) (hgs : gs ≠ [])
    (h : gs.take n = cs.map Glyph.char) : ∃ d ds, cs = d :: ds ∧ gs.head? = some (.char d) := by
  obtain ⟨n, rfl⟩ := Nat.exists_eq_succ_of_ne_zero hn
  obtain ⟨g, rest, rfl⟩ := List.exists_cons_of_ne_nil hgs
  cases cs with
  | nil => cases h
  | cons d ds => exact ⟨d, ds, rfl, congrArg some (List.cons.inj h).1⟩

theorem take_grouped {digit : Char → Bool} {many : Bool} (h : grouped digit many gs ≠ 0) :
    ∃ d ds, gs.take (grouped digit many gs) = (d :: ds).map Glyph.char ∧ digit d = true ∧
      ∀ c ∈ ds, digit c = true ∨ c = '_' := by
  have hne : gs ≠ [] := by
    rintro rfl
    exact h (by rw [grouped])
  obtain ⟨cs, htake, hcs⟩ := chars_of_digits (grouped_take digit many gs)
  obtain ⟨d, ds, rfl, hhead⟩ := head_of_take h hne htake
  refine ⟨d, ds, htake, ?_, fun c hc => hcs c (List.mem_cons_of_mem d hc)⟩
  obtain ⟨rest, rfl⟩ := List.head?_eq_some_iff.mp hhead
  rw [grouped] at h
  split at h
  · rename_i hdigit
    exact hdigit
  · exact absurd rfl h

theorem take_plainDigits (h : plainDigits gs ≠ 0) :
    ∃ digits, gs.take (plainDigits gs) = digits.map Glyph.char ∧ Spelled 10 [] digits := by
  have hne : gs ≠ [] := by
    rintro rfl
    exact h rfl
  have hbetween := between_plainDigits (q := fun g => g.satisfies isDigit = true ∨ g.is '_' = true)
    (fun _ hg => hg) gs 0
  rw [List.drop_zero, Nat.zero_add] at hbetween
  obtain ⟨cs, htake, hcs⟩ := chars_of_digits (forall_mem_take_of_between hbetween)
  obtain ⟨d, ds, rfl, hhead⟩ := head_of_take h hne htake
  refine ⟨d :: ds, htake, ?_⟩
  obtain ⟨rest, rfl⟩ := List.head?_eq_some_iff.mp hhead
  rw [plainDigits] at h htake
  split at h
  · rename_i hzero
    rw [if_pos hzero, List.take_succ_cons, List.take_zero] at htake
    obtain ⟨-, hds⟩ := List.cons.inj htake
    rw [List.map_eq_nil_iff.mp hds.symm]
    obtain rfl : d = '0' := beq_iff_eq.mp hzero
    exact .zero
  · rename_i hzero
    split at h
    · rename_i hdigit
      refine .decimal ?_ hdigit fun c hc => hcs c (List.mem_cons_of_mem d hc)
      rintro rfl
      exact hzero rfl
    · exact absurd rfl h

theorem take_extendLong (gs : List Glyph) (size : Nat) :
    ∃ mark, mark ∈ [[], ['l'], ['L']] ∧
      gs.take (extendLong gs size) = gs.take size ++ mark.map Glyph.char := by
  unfold extendLong extend
  split
  · rename_i hnext
    rw [List.head?_drop] at hnext
    obtain ⟨g, hg, hmark⟩ := (Option.any_eq_true _ _).mp hnext
    rw [List.take_add_one, hg]
    cases g with
    | char c =>
      refine ⟨[c], ?_, rfl⟩
      rcases Bool.or_eq_true_iff.mp hmark with h | h
      · rw [beq_iff_eq.mp h]
        decide
      · rw [beq_iff_eq.mp h]
        decide
    | stray b => cases hmark
  · exact ⟨[], by decide, by rw [List.map_nil, List.append_nil]⟩

theorem take_startsWith {s : String} (h : startsWith s gs = true) :
    gs.take s.length = s.toList.map Glyph.char := by
  obtain ⟨rest, rfl⟩ := startsWith_iff.mp h
  have hlength : (s.toList.map Glyph.char).length = s.length := by
    rw [List.length_map, String.length_toList]
  rw [← hlength, List.take_left]

theorem spelled_of_mem_integerSizes {n : Nat} (h : n ∈ integerSizes gs) :
    ∃ base start digits mark, Spelled base start digits ∧ mark ∈ [[], ['l'], ['L']] ∧
      gs.take n = (start ++ digits ++ mark).map Glyph.char := by
  have hradix (base : Nat) {starts : List String} {digit : Char → Bool}
      (hdigit : digitOf base = digit) (hstarts : ∀ s ∈ starts, (base, s) ∈ prefixes)
      (h : n ∈ starts.filterMap fun s =>
        if startsWith s gs then
          let n := grouped digit false (gs.drop s.length)
          if n = 0 then none else some (extendLong gs (s.length + n))
        else none) :
      ∃ base start digits mark, Spelled base start digits ∧ mark ∈ [[], ['l'], ['L']] ∧
        gs.take n = (start ++ digits ++ mark).map Glyph.char := by
    subst hdigit
    obtain ⟨s, hs, h⟩ := List.mem_filterMap.mp h
    split at h
    · rename_i hstarts'
      simp only at h
      split at h
      · cases h
      · rename_i hne
        obtain rfl := Option.some.inj h
        obtain ⟨d, ds, hdigits, hd, hds⟩ := take_grouped hne
        obtain ⟨mark, hmark, htake⟩ := take_extendLong gs
          (s.length + grouped (digitOf base) false (gs.drop s.length))
        refine ⟨base, s.toList, d :: ds, mark, .radix (hstarts s hs) hd hds, hmark, ?_⟩
        rw [htake, List.take_add, hdigits, take_startsWith hstarts', List.map_append,
          List.map_append]
    · cases h
  simp only [integerSizes, List.mem_append] at h
  rcases h with ((h | h) | h) | h
  · split at h
    · cases h
    · rename_i hne
      obtain rfl := List.mem_singleton.mp h
      obtain ⟨digits, hdigits, hspelled⟩ := take_plainDigits hne
      obtain ⟨mark, hmark, htake⟩ := take_extendLong gs (plainDigits gs)
      refine ⟨10, [], digits, mark, hspelled, hmark, ?_⟩
      rw [htake, hdigits, List.nil_append, List.map_append]
  · exact hradix 16 rfl (by decide) h
  · exact hradix 8 rfl (by decide) h
  · exact hradix 2 rfl (by decide) h

theorem mem_integerSizes_of_number? {n : Nat} (h : number? gs = some (.integer, n)) :
    n ∈ integerSizes gs := by
  have hne := (of_number? h).2.1
  unfold number? at h
  simp only at h
  split at h
  · cases h
  · split at h
    · have hn : (integerSizes gs).foldl max 0 = n := congrArg Prod.snd (Option.some.inj h)
      rcases mem_of_foldl_max (integerSizes gs) 0 with hzero | hmem
      · exact absurd (hn.symm.trans hzero) hne
      · exact hn ▸ hmem
    · cases h

theorem spelled_of_integer {g : Glyph} {rest : List Glyph} {n : Nat}
    (h : kindAndRest g rest = (.integer, n)) :
    ∃ base start digits mark, Spelled base start digits ∧ mark ∈ [[], ['l'], ['L']] ∧
      g :: rest.take n = (start ++ digits ++ mark).map Glyph.char := by
  have hnumber : number? (g :: rest) = some (.integer, n + 1) := by
    unfold kindAndRest at h
    simp only at h
    split at h
    · cases h
    · split at h
      · rename_i kind size hnumber
        obtain ⟨rfl, rfl⟩ := Prod.mk.inj h
        rw [hnumber, Nat.sub_add_cancel (Nat.pos_of_ne_zero (of_number? hnumber).2.1)]
      · repeat'
          split at h
        all_goals cases h
  exact spelled_of_mem_integerSizes (mem_integerSizes_of_number? hnumber)

end LookupGen.Java.Token
