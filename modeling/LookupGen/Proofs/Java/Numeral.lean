import LookupGen.Java.Token
import Mathlib.Data.List.TakeWhile

/-!
# Dots in numbers

A number has at most one dot in it, and all before the dot could go on with a word.
-/

namespace LookupGen.Java.Token

variable {q : Glyph → Prop} {gs : List Glyph} {a b c : Nat}

def Between (q : Glyph → Prop) (gs : List Glyph) (a b : Nat) : Prop :=
  ∀ i g, gs[i]? = some g → a ≤ i → i < b → q g

theorem Between.trans (h : Between q gs a b) (h' : Between q gs b c) : Between q gs a c := by
  intro i g hg ha hc
  by_cases hb : i < b
  · exact h i g hg ha hb
  · exact h' i g hg (Nat.le_of_not_lt hb) hc

theorem between_of_le (h : b ≤ a) : Between q gs a b := fun _ _ _ ha hb => by omega

theorem between_max (hb : Between q gs a b) (hc : Between q gs a c) : Between q gs a (max b c) := by
  rcases Nat.le_total b c with h | h
  · rw [Nat.max_eq_right h]
    exact hc
  · rw [Nat.max_eq_left h]
    exact hb

theorem between_one {n : Nat} (h : ∀ g, gs[n]? = some g → q g) : Between q gs n (n + 1) := by
  intro i g hg ha hb
  obtain rfl : i = n := by omega
  exact h g hg

theorem between_take {n : Nat} (h : ∀ g ∈ gs.take n, q g) : Between q gs 0 n := by
  intro i g hg _ hi
  apply h g
  apply List.mem_iff_getElem?.mpr
  exact ⟨i, by rw [List.getElem?_take_of_lt hi, hg]⟩

theorem between_drop {n : Nat} (h : Between q (gs.drop a) 0 n) : Between q gs a (a + n) := by
  intro i g hg ha hi
  refine h (i - a) g ?_ (Nat.zero_le _) (by omega)
  rw [List.getElem?_drop, Nat.add_sub_cancel' ha]
  exact hg

theorem grouped_take (digit : Char → Bool) (many : Bool) (gs : List Glyph) :
    ∀ g ∈ gs.take (grouped digit many gs), g.satisfies digit = true ∨ g.is '_' = true := by
  fun_induction grouped digit many gs with
  | case1 => simp
  | case2 g rest hg lows kept more hmore => simpa using .inl hg
  | case3 g rest hg lows kept more hmore ih =>
    have hkept : kept ≤ lows := by
      simp only [kept]
      split
      · exact Nat.le_refl lows
      · exact Nat.min_le_left lows 1
    have hlow : ∀ h ∈ rest.take kept, h.is '_' = true := by
      intro h hh
      have hrun : rest.takeWhile (Glyph.is '_') = rest.take lows :=
        List.prefix_iff_eq_take.mp (List.takeWhile_prefix _)
      have hin : h ∈ rest.takeWhile (Glyph.is '_') :=
        hrun ▸ (List.take_prefix_take_left hkept).subset hh
      exact List.mem_takeWhile_imp hin
    intro h hh
    rw [Nat.add_assoc, Nat.add_comm 1, List.take_succ_cons, List.take_add] at hh
    rcases List.mem_cons.mp hh with rfl | hh
    · exact .inl hg
    · rcases List.mem_append.mp hh with hh | hh
      · exact .inr (hlow h hh)
      · exact ih h hh
  | case4 g rest hg => simp

theorem between_grouped {digit : Char → Bool} {many : Bool}
    (hq : ∀ g : Glyph, g.satisfies digit = true ∨ g.is '_' = true → q g)
    (gs : List Glyph) (a : Nat) : Between q gs a (a + grouped digit many (gs.drop a)) :=
  between_drop (between_take fun g hg => hq g (grouped_take digit many (gs.drop a) g hg))

theorem between_plainDigits (hq : ∀ g : Glyph, g.satisfies isDigit = true ∨ g.is '_' = true → q g)
    (gs : List Glyph) (a : Nat) : Between q gs a (a + plainDigits (gs.drop a)) := by
  apply between_drop
  generalize gs.drop a = ds
  cases ds with
  | nil => exact between_of_le (Nat.le_refl 0)
  | cons g rest =>
    have hfirst (hg : q g) : Between q (g :: rest) 0 1 :=
      between_one fun h hh => Option.some.inj hh ▸ hg
    rw [plainDigits]
    split
    · rename_i hzero
      refine hfirst (hq g (.inl ?_))
      cases g with
      | char c =>
        obtain rfl : c = '0' := beq_iff_eq.mp hzero
        rfl
      | stray b => cases hzero
    · split
      · rename_i hdigit
        have hlow : Between q rest 0 (if rest.head?.any (·.is '_') then
            1 + grouped isDigit true (rest.drop 1) else 0) := by
          split
          · rename_i hlow
            refine Between.trans (b := 1) (between_one ?_) (between_grouped hq rest 1)
            intro h hh
            rw [List.head?_eq_getElem?, hh] at hlow
            exact hq h (.inr hlow)
          · exact between_of_le (Nat.le_refl 0)
        have hmore : Between q rest 0 (0 + grouped isDigit true (rest.drop 0)) :=
          between_grouped hq rest 0
        rw [List.drop_zero, Nat.zero_add] at hmore
        refine (hfirst (hq g (.inl hdigit))).trans (between_drop (between_max hmore ?_))
        generalize (if rest.head?.any (·.is '_') then
          1 + grouped isDigit true (rest.drop 1) else 0) = low at hlow ⊢
        split
        · exact between_of_le (Nat.zero_le _)
        · exact hlow
      · exact between_of_le (Nat.le_refl 0)

theorem between_extend {p : Char → Bool} (hq : ∀ g : Glyph, g.satisfies p = true → q g)
    (gs : List Glyph) (a : Nat) : Between q gs a (extend p gs a) := by
  unfold extend
  split
  · rename_i hnext
    intro i g hg ha hi
    obtain rfl : i = a := by omega
    apply hq
    rw [List.head?_drop, hg] at hnext
    exact hnext
  · exact between_of_le (Nat.le_refl a)

def Plain (g : Glyph) : Prop := g.is '.' = false

theorem plain_of_satisfies {p : Char → Bool} (hp : p '.' = false) {g : Glyph}
    (hg : g.satisfies p = true) : Plain g := by
  cases g with
  | char c =>
    apply Bool.eq_false_iff.mpr
    intro hc
    obtain rfl : c = '.' := beq_iff_eq.mp hc
    exact Bool.false_ne_true (hp.symm.trans hg)
  | stray b => rfl

theorem plain_of_is {c : Char} (hc : c ≠ '.') {g : Glyph} (hg : g.is c = true) : Plain g :=
  plain_of_satisfies (p := (· == c)) (beq_eq_false_iff_ne.mpr hc.symm) hg

theorem plain_grouped {digit : Char → Bool} (hdigit : digit '.' = false) (many : Bool)
    (gs : List Glyph) (a : Nat) : Between Plain gs a (a + grouped digit many (gs.drop a)) :=
  between_grouped (fun _ hg => hg.elim (plain_of_satisfies hdigit) (plain_of_is (by decide))) gs a

theorem plain_extend {p : Char → Bool} (hp : p '.' = false) (gs : List Glyph) (a : Nat) :
    Between Plain gs a (extend p gs a) :=
  between_extend (fun _ => plain_of_satisfies hp) gs a

theorem plain_plainDigits (gs : List Glyph) (a : Nat) :
    Between Plain gs a (a + plainDigits (gs.drop a)) :=
  between_plainDigits (fun _ hg => hg.elim (plain_of_satisfies rfl) (plain_of_is (by decide))) gs a

theorem plain_exponent {marks : List Char} (hmarks : marks.contains '.' = false)
    {digits : List Glyph → Nat} (hdigits : ∀ gs a, Between Plain gs a (a + digits (gs.drop a)))
    {gs : List Glyph} {a b : Nat} (h : extendExponent marks digits gs a = some b) :
    Between Plain gs a b := by
  unfold extendExponent at h
  simp only at h
  split at h
  · cases h
  · split at h
    · cases h
    · obtain rfl := Option.some.inj h
      exact ((plain_extend hmarks gs a).trans (plain_extend rfl gs _)).trans (hdigits gs _)

theorem plain_decimalExponent {digits : List Glyph → Nat}
    (hdigits : ∀ gs a, Between Plain gs a (a + digits (gs.drop a))) (gs : List Glyph) (a : Nat) :
    Between Plain gs a ((extendExponent ['e', 'E'] digits gs a).getD a) := by
  cases h : extendExponent ['e', 'E'] digits gs a with
  | none => exact between_of_le (Nat.le_refl a)
  | some b => exact plain_exponent rfl hdigits h

theorem startsWith_iff {s : String} :
    startsWith s gs = true ↔ ∃ rest, gs = s.toList.map Glyph.char ++ rest := by
  unfold startsWith
  rw [List.isPrefixOf_iff_prefix]
  exact ⟨fun ⟨rest, h⟩ => ⟨rest, h.symm⟩, fun ⟨rest, h⟩ => ⟨rest, h.symm⟩⟩

theorem between_startsWith {s : String} (h : startsWith s gs = true)
    (hq : ∀ c ∈ s.toList, q (.char c)) : Between q gs 0 s.length := by
  obtain ⟨rest, rfl⟩ := startsWith_iff.mp h
  apply between_take
  have hlength : (s.toList.map Glyph.char).length = s.length := by
    rw [List.length_map, String.length_toList]
  rw [← hlength, List.take_left]
  intro g hg
  obtain ⟨c, hc, rfl⟩ := List.mem_map.mp hg
  exact hq c hc

theorem plain_of_mem_integerSizes {n : Nat} (h : n ∈ integerSizes gs) : Between Plain gs 0 n := by
  have hlong (size : Nat) : Between Plain gs size (extendLong gs size) := plain_extend rfl gs size
  have hradix {starts : List String} {digit : Char → Bool} (hdigit : digit '.' = false)
      (hstarts : ∀ s ∈ starts, '.' ∉ s.toList) (h : n ∈ starts.filterMap fun s =>
        if startsWith s gs then
          let n := grouped digit false (gs.drop s.length)
          if n = 0 then none else some (extendLong gs (s.length + n))
        else none) : Between Plain gs 0 n := by
    obtain ⟨s, hs, hn⟩ := List.mem_filterMap.mp h
    split at hn
    · rename_i hstart
      simp only at hn
      split at hn
      · cases hn
      · obtain rfl := Option.some.inj hn
        have hfront : Between Plain gs 0 s.length := by
          refine between_startsWith hstart ?_
          intro c hc
          apply beq_eq_false_iff_ne.mpr
          rintro rfl
          exact hstarts s hs hc
        exact (hfront.trans (plain_grouped hdigit false gs _)).trans (hlong _)
    · cases hn
  simp only [integerSizes, List.mem_append] at h
  rcases h with ((h | h) | h) | h
  · split at h
    · cases h
    · obtain rfl := List.mem_singleton.mp h
      have hplain := plain_plainDigits gs 0
      rw [List.drop_zero, Nat.zero_add] at hplain
      exact hplain.trans (hlong _)
  · exact hradix rfl (by decide) h
  · exact hradix rfl (by decide) h
  · exact hradix rfl (by decide) h

def Continues (g : Glyph) : Prop := g.satisfies continuesWord = true

theorem continues_of_satisfies {p : Char → Bool} (hp : ∀ c, p c = true → continuesWord c = true)
    {g : Glyph} (hg : g.satisfies p = true) : Continues g := by
  cases g with
  | char c => exact hp c hg
  | stray b => cases hg

theorem continues_startsWith {s : String} (h : startsWith s gs = true)
    (hs : s.toList.all continuesWord = true) : Between Continues gs 0 s.length :=
  between_startsWith h (List.all_eq_true.mp hs)

theorem continuesWord_of_isHexDigit {c : Char} (h : isHexDigit c = true) :
    continuesWord c = true := by
  have hle (a b : Char) : a ≤ b ↔ a.toNat ≤ b.toNat := Iff.rfl
  have hval : (CodePoint.ofChar c).val = c.toNat := rfl
  simp only [isHexDigit, isDigit, Bool.or_eq_true, Bool.and_eq_true, decide_eq_true_eq, hle] at h
  have hrange : (0x30 ≤ c.toNat ∧ c.toNat ≤ 0x39) ∨ (0x61 ≤ c.toNat ∧ c.toNat ≤ 0x66) ∨
      (0x41 ≤ c.toNat ∧ c.toNat ≤ 0x46) := by
    rcases h with (h | h) | h
    · exact .inl h
    · exact .inr (.inl h)
    · exact .inr (.inr h)
  unfold continuesWord Name.isPart Unicode.isIdentifierPart Unicode.isAsciiStart
  rw [hval, if_pos (by omega)]
  simp only [Bool.or_eq_true, Bool.and_eq_true, decide_eq_true_eq]
  omega

theorem continues_grouped {digit : Char → Bool} (hdigit : ∀ c, digit c = true → isHexDigit c = true)
    (gs : List Glyph) (a : Nat) : Between Continues gs a (a + grouped digit false (gs.drop a)) := by
  apply between_grouped
  rintro g (hg | hg)
  · exact continues_of_satisfies (fun c hc => continuesWord_of_isHexDigit (hdigit c hc)) hg
  · refine continues_of_satisfies (p := (· == '_')) ?_ hg
    intro c hc
    obtain rfl := beq_iff_eq.mp hc
    decide

theorem plain_suffix (gs : List Glyph) (a : Nat) : Between Plain gs a (extend isFloatSuffix gs a) :=
  plain_extend rfl gs a

/-- After a place there are digits, an exponent and a suffix, as far as they are there. -/
theorem plain_decimalEnd (gs : List Glyph) (a : Nat) :
    Between Plain gs a (extend isFloatSuffix gs
      ((extendExponent ['e', 'E'] (grouped isDigit false) gs
        (a + grouped isDigit false (gs.drop a))).getD (a + grouped isDigit false (gs.drop a)))) :=
  ((plain_grouped rfl false gs a).trans
    (plain_decimalExponent (plain_grouped rfl false) gs _)).trans (plain_suffix gs _)

/-- A hexadecimal mantissa ends before or after its dot, or after the digits that follow the dot. -/
theorem of_mem_mantissas {left right whole size : Nat} {point : Bool}
    (h : size ∈ (if left = 0 then [] else [whole] ++ if point = true then [whole + 1] else []) ++
      if point = true ∧ right ≠ 0 then [whole + 1 + right] else []) :
    size ≤ whole + 1 ∨ size = whole + 1 + right := by
  rcases List.mem_append.mp h with h | h
  · left
    split at h
    · cases h
    · rcases List.mem_append.mp h with h | h
      · rw [List.mem_singleton.mp h]
        exact Nat.le_succ whole
      · split at h
        · rw [List.mem_singleton.mp h]
        · cases h
  · right
    split at h
    · exact List.mem_singleton.mp h
    · cases h

/-- All before the dot of a number could go on with a word, and there is no dot after it. -/
theorem of_mem_floatingSizes {n : Nat} (h : n ∈ floatingSizes gs) :
    ∃ dot, Between Continues gs 0 dot ∧ Between Plain gs (dot + 1) n := by
  have hplain : Between Plain gs 0 (plainDigits gs) := by
    have hplain := plain_plainDigits gs 0
    rwa [List.drop_zero, Nat.zero_add] at hplain
  have hnone {n : Nat} (hn : Between Plain gs 0 n) :
      ∃ dot, Between Continues gs 0 dot ∧ Between Plain gs (dot + 1) n :=
    ⟨0, between_of_le (Nat.le_refl 0), fun i g hg hi hlt => hn i g hg (Nat.zero_le i) hlt⟩
  simp only [floatingSizes, List.mem_append] at h
  rcases h with (((h | h) | h) | h) | h
  · split at h
    · obtain rfl := List.mem_singleton.mp h
      refine ⟨grouped isDigit false gs, ?_, plain_decimalEnd gs _⟩
      have hdigit (c : Char) (hc : isDigit c = true) : isHexDigit c = true := by
        simp [isHexDigit, hc]
      have hwhole := continues_grouped hdigit gs 0
      rwa [List.drop_zero, Nat.zero_add] at hwhole
    · cases h
  · split at h
    · obtain rfl := List.mem_singleton.mp h
      exact ⟨0, between_of_le (Nat.le_refl 0), plain_decimalEnd gs 1⟩
    · cases h
  · split at h
    · cases h
    · obtain ⟨size, hsize, rfl⟩ := List.mem_map.mp h
      exact hnone ((hplain.trans (plain_exponent rfl (plain_grouped rfl false)
        (Option.mem_toList.mp hsize))).trans (plain_suffix gs _))
  · split at h
    · cases h
    · split at h
      · cases h
      · obtain rfl := List.mem_singleton.mp h
        exact hnone ((hplain.trans (plain_decimalExponent (plain_grouped rfl false) gs _)).trans
          (plain_suffix gs _))
  · split at h
    · rename_i hstart
      obtain ⟨size, hsize, h⟩ := List.mem_flatMap.mp h
      refine ⟨2 + grouped isHexDigit false (gs.drop 2), ?_, ?_⟩
      · have htwo : Between Continues gs 0 2 := by
          rcases hstart with hstart | hstart
          · exact continues_startsWith hstart (by decide)
          · exact continues_startsWith hstart (by decide)
        exact htwo.trans (continues_grouped (fun _ hc => hc) gs 2)
      · have hmantissa : Between Plain gs (2 + grouped isHexDigit false (gs.drop 2) + 1) size := by
          rcases of_mem_mantissas hsize with hle | rfl
          · exact between_of_le hle
          · exact plain_grouped rfl false gs _
        rcases List.mem_cons.mp h with rfl | h
        · exact hmantissa
        · obtain ⟨more, hmore, rfl⟩ := List.mem_map.mp h
          exact (hmantissa.trans (plain_exponent rfl plain_plainDigits
            (Option.mem_toList.mp hmore))).trans (plain_suffix gs _)
    · cases h

theorem mem_of_foldl_max (sizes : List Nat) (n : Nat) :
    sizes.foldl max n = n ∨ sizes.foldl max n ∈ sizes := by
  induction sizes generalizing n with
  | nil => exact .inl rfl
  | cons m rest ih =>
    rw [List.foldl_cons]
    rcases ih (max n m) with h | h
    · rw [h]
      rcases Nat.le_total n m with hle | hle
      · rw [Nat.max_eq_right hle]
        exact .inr List.mem_cons_self
      · exact .inl (Nat.max_eq_left hle)
    · exact .inr (List.mem_cons_of_mem m h)

theorem of_number? {kind : TokenKind} {n : Nat} (h : number? gs = some (kind, n)) :
    (kind = .integer ∨ kind = .floating) ∧ n ≠ 0 ∧
      ∃ dot, Between Continues gs 0 dot ∧ Between Plain gs (dot + 1) n := by
  unfold number? at h
  simp only at h
  split at h
  · cases h
  · rename_i hsome
    split at h
    · rename_i hle
      obtain ⟨rfl, rfl⟩ := Prod.mk.inj (Option.some.inj h)
      refine ⟨.inl rfl, by omega, 0, between_of_le (Nat.le_refl 0), ?_⟩
      rcases mem_of_foldl_max (integerSizes gs) 0 with hzero | hmem
      · rw [hzero]
        exact between_of_le (Nat.zero_le _)
      · exact fun i g hg _ hi => plain_of_mem_integerSizes hmem i g hg (Nat.zero_le i) hi
    · rename_i hlt
      obtain ⟨rfl, rfl⟩ := Prod.mk.inj (Option.some.inj h)
      refine ⟨.inr rfl, by omega, ?_⟩
      rcases mem_of_foldl_max (floatingSizes gs) 0 with hzero | hmem
      · omega
      · exact of_mem_floatingSizes hmem

end LookupGen.Java.Token
