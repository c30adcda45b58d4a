import LookupGen.Proofs.Literal.Source
import Mathlib.Algebra.Group.Nat.Defs

/-!
# Escape sequences

The short and the octal escapes, as the reader in one pass and the second pass of the language take
them: the letters, the digits, the sizes and the values. In a translated text the digits of an octal
escape can go on where those in the source stop; then a Unicode escape stands there.
-/

namespace LookupGen.Literal

theorem shortSequence?_iff {c v : CodePoint} :
    shortSequence? c = some v ↔ (c, v) ∈ shortEscapes := by
  constructor
  · intro h
    obtain ⟨l, r, hlist, -⟩ := List.lookup_eq_some_iff.mp (shortSequence?_eq_some h).1
    exact hlist ▸ List.mem_append_right l List.mem_cons_self
  · intro h
    simp only [shortEscapes, List.mem_cons, List.not_mem_nil, or_false, Prod.mk.injEq] at h
    rcases h with ⟨rfl, rfl⟩ | ⟨rfl, rfl⟩ | ⟨rfl, rfl⟩ | ⟨rfl, rfl⟩ | ⟨rfl, rfl⟩ | ⟨rfl, rfl⟩ |
      ⟨rfl, rfl⟩ | ⟨rfl, rfl⟩ | ⟨rfl, rfl⟩ <;> rfl

theorem shortEscapes_lookup (c : CodePoint) : shortEscapes.lookup c = shortSequence? c := by
  cases hshort : shortSequence? c with
  | some v => exact (shortSequence?_eq_some hshort).1
  | none =>
    rw [List.lookup_eq_none_iff]
    rintro ⟨d, v⟩ hmem
    rw [bne_iff_ne]
    rintro rfl
    rw [shortSequence?_iff.mpr hmem] at hshort
    cases hshort

/-- Letters and what they stand for are ASCII, and only quotes and backslashes stand for
themselves. -/
theorem shortSequence?_ascii {c v : CodePoint} (h : shortSequence? c = some v) :
    c.val < 0x80 ∧ v.val < 0x80 ∧ (v = c → c = '"' ∨ c = '\'' ∨ c = '\\') := by
  have hletters : (shortEscapes.all fun p => decide (p.1.val < 0x80 ∧ p.2.val < 0x80 ∧
      (p.2 = p.1 → p.1 = '"' ∨ p.1 = '\'' ∨ p.1 = '\\'))) = true := by decide
  exact of_decide_eq_true (List.all_eq_true.mp hletters _ (shortSequence?_iff.mp h))

/-- Both readers know the same escape sequences, apart from Unicode escapes and line ends. -/
theorem escape?_eq_sequence? {c : CodePoint} (hu : c ≠ 'u') (hreturn : c ≠ '\r')
    (hfeed : c ≠ '\n') (rest : Text) : escape? (c :: rest) = sequence? .string (c :: rest) := by
  have hunicode : unicodeEscape? (c :: rest) = none := by rw [unicodeEscape?, if_neg hu]
  simp only [escape?, sequence?, hunicode, octalEscape?_eq]
  cases octalSequence? (c :: rest) with
  | some p => rfl
  | none =>
    simp only [shortEscapes_lookup, if_neg hreturn, if_neg hfeed]
    cases shortSequence? c with
    | some v => rfl
    | none => rfl

def room (d : Nat) : Nat := if d ≤ 3 then 2 else 1

def octalValue (ds : List Nat) : CodePoint :=
  Fin.ofNat 0x110000 (ds.foldl (fun n d => 8 * n + d) 0)

theorem octalSequence?_cons {c : CodePoint} {d : Nat} (hd : c.octalDigit? = some d) (t : Text) :
    octalSequence? (c :: t) =
      some (octalValue (d :: octalRun (room d) t), (octalRun (room d) t).length + 1) := by
  have hrun : octalRun (if d ≤ 3 then 3 else 2) (c :: t) = d :: octalRun (room d) t := by
    unfold room
    split
    · rw [octalRun, hd]
    · rw [octalRun, hd]
  simp only [octalSequence?, List.head?_cons, Option.bind_some, hd, Option.map_some, hrun]
  rfl

theorem octalDigit?_lt {c : CodePoint} {d : Nat} (h : c.octalDigit? = some d) : d < 8 := by
  unfold CodePoint.octalDigit? at h
  split at h
  · have := Option.some.inj h
    omega
  · cases h

theorem octalRun_lt (n : Nat) (t : Text) : ∀ d ∈ octalRun n t, d < 8 := by
  induction n generalizing t with
  | zero => exact fun d hd => absurd hd List.not_mem_nil
  | succ n ih =>
    cases t with
    | nil => exact fun d hd => absurd hd List.not_mem_nil
    | cons c t =>
      rw [octalRun]
      cases hc : c.octalDigit? with
      | none => exact fun d hd => absurd hd List.not_mem_nil
      | some e =>
        intro d hd
        rcases List.mem_cons.mp hd with rfl | hd
        · exact octalDigit?_lt hc
        · exact ih t d hd

theorem length_octalRun_le (n : Nat) (t : Text) : (octalRun n t).length ≤ n := by
  induction n generalizing t with
  | zero => exact Nat.le_refl 0
  | succ n ih =>
    cases t with
    | nil => exact Nat.zero_le _
    | cons c t =>
      rw [octalRun]
      cases c.octalDigit? with
      | none => exact Nat.zero_le _
      | some e => exact Nat.succ_le_succ (ih t)

theorem foldl_octal_lt {ds : List Nat} (h : ∀ d ∈ ds, d < 8) (acc : Nat) :
    ds.foldl (fun n d => 8 * n + d) acc < (acc + 1) * 8 ^ ds.length := by
  induction ds generalizing acc with
  | nil => simp
  | cons d ds ih =>
    have hd := h d List.mem_cons_self
    have hrest := ih (fun e he => h e (List.mem_cons_of_mem d he)) (8 * acc + d)
    calc ds.foldl (fun n d => 8 * n + d) (8 * acc + d)
        < (8 * acc + d + 1) * 8 ^ ds.length := hrest
      _ ≤ ((acc + 1) * 8) * 8 ^ ds.length := Nat.mul_le_mul_right _ (by omega)
      _ = (acc + 1) * 8 ^ (ds.length + 1) := by rw [Nat.pow_succ']; exact Nat.mul_assoc _ _ _

theorem octalValue_val_lt {d : Nat} {ds : List Nat} (h : ∀ e ∈ ds, e < 8) (hlength : ds.length ≤ 2)
    (hd : d < 8) : (octalValue (d :: ds)).val < (d + 1) * 8 ^ ds.length := by
  have hlt : (d :: ds).foldl (fun n d => 8 * n + d) 0 < (d + 1) * 8 ^ ds.length := by
    rw [List.foldl_cons, Nat.mul_zero, Nat.zero_add]
    exact foldl_octal_lt h d
  have hpow : (d + 1) * 8 ^ ds.length ≤ 8 * 8 ^ 2 :=
    Nat.mul_le_mul hd (Nat.pow_le_pow_right (by omega) hlength)
  exact Nat.lt_of_le_of_lt (Nat.mod_le _ _) hlt

theorem octalValue_octalRun_lt {c : CodePoint} {d : Nat} (hd : c.octalDigit? = some d) (t : Text) :
    (octalValue (d :: octalRun (room d) t)).val < 0x200 := by
  have hlength : (octalRun (room d) t).length ≤ 2 := by
    refine Nat.le_trans (length_octalRun_le _ t) ?_
    unfold room
    split <;> decide
  refine Nat.lt_of_lt_of_le (octalValue_val_lt (octalRun_lt _ t) hlength (octalDigit?_lt hd)) ?_
  exact Nat.mul_le_mul (octalDigit?_lt hd) (Nat.pow_le_pow_right (by decide) hlength)

/-- An octal escape that could have more digits stands for a control character. -/
theorem octalValue_octalRun_lt_of_room {c : CodePoint} {d : Nat} (hd : c.octalDigit? = some d)
    {t : Text} (hroom : (octalRun (room d) t).length < room d) :
    (octalValue (d :: octalRun (room d) t)).val < 0x20 := by
  have hdigit := octalDigit?_lt hd
  have hrun := octalRun_lt (room d) t
  generalize octalRun (room d) t = ds at hroom hrun ⊢
  unfold room at hroom
  split at hroom
  · refine Nat.lt_of_lt_of_le (octalValue_val_lt hrun (Nat.le_of_lt hroom) hdigit) ?_
    exact Nat.mul_le_mul (show d + 1 ≤ 4 by omega)
      (Nat.pow_le_pow_right (by decide) (show ds.length ≤ 1 by omega))
  · obtain rfl := List.length_eq_zero_iff.mp (show ds.length = 0 by omega)
    refine Nat.lt_of_lt_of_le (octalValue_val_lt hrun (Nat.zero_le _) hdigit) ?_
    rw [List.length_nil]
    omega

theorem sequence?_octal {c : CodePoint} {d : Nat} (hd : c.octalDigit? = some d) (kind : Kind)
    (t : Text) : sequence? kind (c :: t) =
      some ([octalValue (d :: octalRun (room d) t)], (octalRun (room d) t).length + 1) := by
  unfold sequence?
  rw [octalSequence?_cons hd]

theorem escape?_octal {c : CodePoint} {d : Nat} (hd : c.octalDigit? = some d) (t : Text) :
    escape? (c :: t) =
      some ([octalValue (d :: octalRun (room d) t)], (octalRun (room d) t).length + 1) := by
  have hne : ∀ x : CodePoint, x.octalDigit? = none → c ≠ x := by
    rintro x hx rfl
    rw [hd] at hx
    cases hx
  rw [escape?_eq_sequence? (hne _ rfl) (hne _ rfl) (hne _ rfl), sequence?_octal hd]

theorem sequence?_letter {c : CodePoint} (hc : c.octalDigit? = none) (t : Text) :
    sequence? .string (c :: t) = (shortSequence? c).map fun w => ([w], 1) := by
  have hnone : octalSequence? (c :: t) = none := by
    rw [octalSequence?, List.head?_cons, Option.bind_some, hc, Option.map_none]
  simp only [sequence?, hnone]
  cases shortSequence? c with
  | none => rfl
  | some w => rfl

theorem escape?_letter {c w : CodePoint} (hc : c.octalDigit? = none)
    (hw : shortSequence? c = some w) (t : Text) : escape? (c :: t) = some ([w], 1) := by
  have hne : ∀ x : CodePoint, shortSequence? x = none → c ≠ x := by
    rintro x hx rfl
    rw [hw] at hx
    cases hx
  rw [escape?_eq_sequence? (hne _ rfl) (hne _ rfl) (hne _ rfl), sequence?_letter hc, hw,
    Option.map_some]

theorem replaceEscapes_skip (n : Nat) (t : Text) :
    replaceEscapes n t = replaceEscapes 0 (t.drop n) := by
  induction t generalizing n with
  | nil =>
    rw [List.drop_nil]
    rfl
  | cons c t ih =>
    cases n with
    | zero => rfl
    | succ n => exact ih n

theorem replaceEscapes_of_escape? {t v : Text} {size : Nat} (h : escape? t = some (v, size)) :
    replaceEscapes 0 ('\\' :: t) = v ++ replaceEscapes 0 (t.drop size) := by
  rw [replaceEscapes, if_pos rfl, h, ← replaceEscapes_skip]

theorem interpret_skip (kind : Kind) (n : Nat) (t : Text) :
    interpret kind n t = interpret kind 0 (t.drop n) := by
  induction t generalizing n with
  | nil =>
    rw [List.drop_nil]
    rfl
  | cons c t ih =>
    cases n with
    | zero => rfl
    | succ n => exact ih n

theorem interpret_plain {c : CodePoint} (hc : c ≠ '\\') {t out : Text}
    (h : interpret .string 0 (c :: t) = some out) :
    closes .string c = false ∧ ∃ out', interpret .string 0 t = some out' ∧ out = c :: out' := by
  rw [interpret, if_neg hc] at h
  split at h
  · cases h
  · rename_i hcloses
    obtain ⟨out', hout, rfl⟩ := Option.map_eq_some_iff.mp h
    exact ⟨eq_false_of_ne_true hcloses, out', hout, rfl⟩

theorem interpret_backslash {t out : Text} (h : interpret .string 0 ('\\' :: t) = some out) :
    ∃ v size out', sequence? .string t = some (v, size) ∧
      interpret .string 0 (t.drop size) = some out' ∧ out = v ++ out' := by
  rw [interpret, if_pos rfl] at h
  obtain ⟨⟨v, size⟩, hsequence, h⟩ := Option.bind_eq_some_iff.mp h
  obtain ⟨out', hout, rfl⟩ := Option.map_eq_some_iff.mp h
  rw [interpret_skip] at hout
  exact ⟨v, size, out', hsequence, hout, rfl⟩

def IsOctal (c : CodePoint) : Prop := c.octalDigit? ≠ none

theorem isOctal_iff {c : CodePoint} : IsOctal c ↔ 0x30 ≤ c.val ∧ c.val ≤ 0x37 := by
  unfold IsOctal CodePoint.octalDigit?
  split
  · rename_i h
    exact iff_of_true (by simp) h
  · rename_i h
    exact iff_of_false (by simp) h

theorem IsOctal.ne_backslash {c : CodePoint} (h : IsOctal c) : c ≠ '\\' := by
  rintro rfl
  exact h rfl

theorem interpret_digits {ds t out : Text} (hds : ∀ d ∈ ds, IsOctal d)
    (h : interpret .string 0 (ds ++ t) = some out) :
    ∃ out', interpret .string 0 t = some out' ∧ out = ds ++ out' := by
  induction ds generalizing out with
  | nil => exact ⟨out, h, rfl⟩
  | cons d ds ih =>
    obtain ⟨-, out, hout, rfl⟩ := interpret_plain (hds d List.mem_cons_self).ne_backslash h
    obtain ⟨out', hout', rfl⟩ := ih (fun e he => hds e (List.mem_cons_of_mem d he)) hout
    exact ⟨out', hout', rfl⟩

/-- The reader in one pass puts out digits as they are, from Unicode escapes or not. -/
theorem Translated.replaceEscapes_digits {t : Text} {us ns : List Mark}
    (h : Translated t (us ++ ns)) (hus : ∀ m ∈ us, IsOctal m.1) :
    ∃ t', Translated t' ns ∧ t'.length + us.length ≤ t.length ∧
      replaceEscapes 0 t = points us ++ replaceEscapes 0 t' := by
  induction us generalizing t with
  | nil => exact ⟨t, h, Nat.le_refl _, rfl⟩
  | cons m us ih =>
    have hm := (hus m List.mem_cons_self).ne_backslash
    have hus' := fun x hx => hus x (List.mem_cons_of_mem m hx)
    generalize hms : m :: us ++ ns = ms at h
    cases h with
    | nil => cases hms
    | @plain c rest ms hc hrest =>
      obtain ⟨rfl, rfl⟩ := List.cons.inj hms
      obtain ⟨t', ht', hlength, hreplaced⟩ := ih hrest hus'
      refine ⟨t', ht', Nat.succ_le_succ hlength, ?_⟩
      rw [replaceEscapes_plain hc, hreplaced]
      rfl
    | @unicode v a rest ms _ hescape hrest =>
      obtain ⟨rfl, rfl⟩ := List.cons.inj hms
      obtain ⟨t', ht', hlength, hreplaced⟩ := ih hrest hus'
      refine ⟨t', ht', ?_, ?_⟩
      · simp only [List.length_cons, List.length_append]
        omega
      · rw [replaceEscapes_unicode hescape, hreplaced]
        rfl
    | pair | lone => exact absurd (congrArg Prod.fst (List.cons.inj hms).1) hm

theorem Translated.replaceEscapes_octalRun {t : Text} {ms : List Mark} (h : Translated t ms)
    (n : Nat) (hne : octalRun n (points ms) ≠ []) :
    ∃ ds t', ds ≠ [] ∧ t'.length < t.length ∧
      Translated t' (ms.drop (octalRun n (points ms)).length) ∧
      replaceEscapes 0 t = ds ++ replaceEscapes 0 t' := by
  have hdigits := octalRun_digits n (points ms)
  generalize hk : (octalRun n (points ms)).length = k at hdigits ⊢
  have hpos : 0 < k := hk ▸ List.length_pos_of_ne_nil hne
  rw [← List.take_append_drop k ms] at h
  rw [points, ← List.map_take] at hdigits
  obtain ⟨t', ht', hlength, hreplaced⟩ :=
    h.replaceEscapes_digits fun m hm => hdigits m.1 (List.mem_map_of_mem hm)
  cases ms with
  | nil =>
    cases n with
    | zero => exact absurd rfl hne
    | succ n => exact absurd rfl hne
  | cons m ms =>
    obtain ⟨k, rfl⟩ := Nat.exists_eq_succ_of_ne_zero (Nat.ne_of_gt hpos)
    refine ⟨points ((m :: ms).take (k + 1)), t', List.cons_ne_nil _ _, ?_, ht', hreplaced⟩
    rw [List.take_succ_cons, List.length_cons] at hlength
    omega

theorem octalRun_of_not_octal {c : CodePoint} (h : ¬ IsOctal c) (n : Nat) (t : Text) :
    octalRun n (c :: t) = [] := by
  cases n with
  | zero => rfl
  | succ n => rw [octalRun, not_not.mp h]

/-- Where no digit stands in the source, one in the translated text is from a Unicode escape. -/
theorem Translated.marked_of_octalRun {t : Text} {ms : List Mark} (h : Translated t ms) {n : Nat}
    (hrun : octalRun n t = []) (hne : octalRun n (points ms) ≠ []) :
    ∃ c ms', ms = (c, true) :: ms' := by
  have hbackslash : ¬ IsOctal '\\' := fun h => h.ne_backslash rfl
  cases h with
  | nil | lone => exact absurd hrun hne
  | @plain c rest ms _ _ =>
    by_cases hc : IsOctal c
    · obtain ⟨d, hd⟩ := Option.ne_none_iff_exists'.mp hc
      cases n with
      | zero => exact absurd rfl hne
      | succ n =>
        rw [octalRun, hd] at hrun
        cases hrun
    · exact absurd (octalRun_of_not_octal hc n (points ms)) hne
  | unicode => exact ⟨_, _, rfl⟩
  | pair => exact absurd (octalRun_of_not_octal hbackslash n _) hne

/-- The digits in the source are the first ones of the translated text. Further ones there begin
with a Unicode escape. -/
theorem Translated.octalRun_append {t : Text} {ms : List Mark} (h : Translated t ms) (n : Nat) :
    ∃ us ns, ms = us ++ ns ∧ us.length = (octalRun n t).length ∧
      (∀ m ∈ us, m.2 = false ∧ IsOctal m.1) ∧ Translated (t.drop us.length) ns ∧
      octalRun n (points ms) = octalRun n t ++ octalRun (n - us.length) (points ns) ∧
      (octalRun (n - us.length) (points ns) ≠ [] → ∃ c ns', ns = (c, true) :: ns') := by
  induction n generalizing t ms with
  | zero =>
    exact ⟨[], ms, rfl, rfl, fun _ hm => absurd hm List.not_mem_nil, h, rfl,
      fun hne => absurd rfl hne⟩
  | succ n ih =>
    by_cases hrun : octalRun (n + 1) t = []
    · refine ⟨[], ms, rfl, ?_, fun _ hm => absurd hm List.not_mem_nil, h, ?_,
        h.marked_of_octalRun hrun⟩
      · rw [hrun, List.length_nil, List.length_nil]
      · rw [hrun]
        rfl
    cases h with
    | nil | lone | unicode | pair => exact absurd rfl hrun
    | @plain c rest ms _ hrest =>
      obtain ⟨d, hd⟩ : ∃ d, c.octalDigit? = some d :=
        Option.ne_none_iff_exists'.mp fun hc => hrun (octalRun_of_not_octal (not_not.mpr hc) _ _)
      obtain ⟨us, ns, rfl, hlength, hus, hrest', happend, hmarked⟩ := ih hrest
      have hoctal : IsOctal c := Option.ne_none_iff_exists'.mpr ⟨d, hd⟩
      simp only [points, List.map_cons, octalRun, hd] at happend ⊢
      refine ⟨(c, false) :: us, ns, rfl, congrArg (· + 1) hlength, ?_, hrest', ?_, ?_⟩
      · exact List.forall_mem_cons.mpr ⟨⟨rfl, hoctal⟩, hus⟩
      · rw [happend, List.length_cons, Nat.add_sub_add_right]
        rfl
      · rw [List.length_cons, Nat.add_sub_add_right]
        exact hmarked

end LookupGen.Literal
