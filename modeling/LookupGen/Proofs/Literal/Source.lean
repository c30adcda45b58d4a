import LookupGen.Proofs.Literal.Encode

/-!
# Literals in two passes

The language reads a source text in two passes. First each Unicode escape becomes the code point
that it stands for; a backslash can begin one only if an even number of backslashes stands right in
front of it. Then the escape sequences of a literal are replaced. A reader that does both at once
comes to the same text unless a Unicode escape is itself a part of an escape sequence.

This module does NOT deal with the indentation of text blocks.
-/

namespace LookupGen.Literal

/-- A code point, and whether it comes from a Unicode escape. -/
abbrev Mark := CodePoint × Bool

/-- Where the translation of Unicode escapes stands: outside of one, after a backslash that may
begin one, after the letters of one, or after some of its digits. -/
inductive Place where
  | start
  | backslash
  | letters
  | digits (count value : Nat)

/-- The text with its Unicode escapes translated. -/
def translate : Place → Text → Option (List Mark)
  | .start, [] => some []
  | .backslash, [] => some [('\\', false)]
  | .letters, [] => none
  | .digits _ _, [] => none
  | .start, c :: rest =>
    if c = '\\' then translate .backslash rest else (translate .start rest).map ((c, false) :: ·)
  | .backslash, c :: rest =>
    if c = 'u' then translate .letters rest
    else (translate .start rest).map fun ms => (CodePoint.ofChar '\\', false) :: (c, false) :: ms
  | .letters, c :: rest =>
    if c = 'u' then translate .letters rest
    else c.hexDigit?.bind fun d => translate (.digits 1 d) rest
  | .digits count value, c :: rest =>
    c.hexDigit?.bind fun d =>
      if count = 3 then
        (translate .start rest).map ((Fin.ofNat 0x110000 (16 * value + d), true) :: ·)
      else translate (.digits (count + 1) (16 * value + d)) rest

def points (ms : List Mark) : Text := ms.map (·.1)

def InUnicodeEscape (c : CodePoint) : Prop := c = 'u' ∨ c.hexDigit? ≠ none

/-- The pieces that a text is translated in. -/
inductive Translated : Text → List Mark → Prop where
  | nil : Translated [] []
  | plain {c : CodePoint} {rest : Text} {ms : List Mark} :
      c ≠ '\\' → Translated rest ms → Translated (c :: rest) ((c, false) :: ms)
  | unicode {v : CodePoint} {a rest : Text} {ms : List Mark} :
      (∀ c ∈ a, InUnicodeEscape c) →
      (∀ b, unicodeEscape? ('u' :: (a ++ b)) = some (v, a.length + 1)) →
      Translated rest ms → Translated ('\\' :: 'u' :: (a ++ rest)) ((v, true) :: ms)
  | pair {c : CodePoint} {rest : Text} {ms : List Mark} :
      c ≠ 'u' → Translated rest ms →
      Translated ('\\' :: c :: rest) (('\\', false) :: (c, false) :: ms)
  | lone : Translated ['\\'] [('\\', false)]

theorem unicodeEscape?_letter {a : Text} {v : CodePoint}
    (h : ∀ b, unicodeEscape? ('u' :: (a ++ b)) = some (v, a.length + 1)) (b : Text) :
    unicodeEscape? ('u' :: 'u' :: (a ++ b)) = some (v, a.length + 2) := by
  rw [unicodeEscape?, if_pos rfl, h b]

theorem unicodeEscape?_digits {c₁ c₂ c₃ c₄ : CodePoint} {d₁ d₂ d₃ d₄ : Nat} (hc : c₁ ≠ 'u')
    (h₁ : c₁.hexDigit? = some d₁) (h₂ : c₂.hexDigit? = some d₂) (h₃ : c₃.hexDigit? = some d₃)
    (h₄ : c₄.hexDigit? = some d₄) (b : Text) :
    unicodeEscape? ('u' :: ([c₁, c₂, c₃, c₄] ++ b)) =
      some (Fin.ofNat 0x110000 (16 * (16 * (16 * d₁ + d₂) + d₃) + d₄), 5) := by
  have hnone : unicodeEscape? ([c₁, c₂, c₃, c₄] ++ b) = none := by
    rw [List.cons_append, unicodeEscape?, if_neg hc]
  have hdigits : Text.digits? 16 CodePoint.hexDigit? [c₁, c₂, c₃, c₄] =
      some (16 * (16 * (16 * d₁ + d₂) + d₃) + d₄) := by
    simp [Text.digits?, List.foldlM, h₁, h₂, h₃, h₄]
  have htake : ([c₁, c₂, c₃, c₄] ++ b).take 4 = [c₁, c₂, c₃, c₄] := rfl
  rw [unicodeEscape?, if_pos rfl, hnone]
  simp only [htake, hdigits, List.length_cons, List.length_nil, if_true, Option.map_some]

theorem translate_letters {rest : Text} {ms : List Mark} (h : translate .letters rest = some ms) :
    ∃ a rest' v ms', rest = a ++ rest' ∧ (∀ c ∈ a, InUnicodeEscape c) ∧
      (∀ b, unicodeEscape? ('u' :: (a ++ b)) = some (v, a.length + 1)) ∧
      ms = (v, true) :: ms' ∧ translate .start rest' = some ms' := by
  induction rest with
  | nil => cases h
  | cons c rest ih =>
    rw [translate] at h
    by_cases hc : c = 'u'
    · rw [if_pos hc] at h
      obtain ⟨a, rest', v, ms', rfl, ha, hescape, hms, hrest⟩ := ih h
      refine ⟨c :: a, rest', v, ms', rfl, ?_, ?_, hms, hrest⟩
      · intro x hx
        rcases List.mem_cons.mp hx with rfl | hx
        · exact .inl hc
        · exact ha x hx
      · rw [hc]
        exact unicodeEscape?_letter hescape
    · rw [if_neg hc] at h
      obtain ⟨d₁, hd₁, h⟩ := Option.bind_eq_some_iff.mp h
      cases rest with
      | nil => cases h
      | cons c₂ rest =>
        rw [translate] at h
        obtain ⟨d₂, hd₂, h⟩ := Option.bind_eq_some_iff.mp h
        rw [if_neg (by omega)] at h
        cases rest with
        | nil => cases h
        | cons c₃ rest =>
          rw [translate] at h
          obtain ⟨d₃, hd₃, h⟩ := Option.bind_eq_some_iff.mp h
          rw [if_neg (by omega)] at h
          cases rest with
          | nil => cases h
          | cons c₄ rest =>
            rw [translate] at h
            obtain ⟨d₄, hd₄, h⟩ := Option.bind_eq_some_iff.mp h
            rw [if_pos rfl] at h
            obtain ⟨ms', hrest, rfl⟩ := Option.map_eq_some_iff.mp h
            refine ⟨[c, c₂, c₃, c₄], rest, _, ms', rfl, ?_,
              unicodeEscape?_digits hc hd₁ hd₂ hd₃ hd₄, rfl, hrest⟩
            intro x hx
            right
            simp only [List.mem_cons, List.not_mem_nil, or_false] at hx
            rcases hx with rfl | rfl | rfl | rfl <;> simp [hd₁, hd₂, hd₃, hd₄]

theorem translated_of_translate {t : Text} {ms : List Mark} (h : translate .start t = some ms) :
    Translated t ms := by
  induction hn : t.length using Nat.strongRecOn generalizing t ms with
  | _ n ih =>
    subst hn
    cases t with
    | nil =>
      obtain rfl := Option.some.inj h
      exact .nil
    | cons c rest =>
      rw [translate] at h
      by_cases hc : c = '\\'
      · rw [if_pos hc] at h
        subst hc
        cases rest with
        | nil =>
          obtain rfl := Option.some.inj h
          exact .lone
        | cons x rest =>
          rw [translate] at h
          by_cases hx : x = 'u'
          · rw [if_pos hx] at h
            subst hx
            obtain ⟨a, rest', v, ms', rfl, ha, hescape, rfl, hrest⟩ := translate_letters h
            exact .unicode ha hescape
              (ih _ (by simp only [List.length_cons, List.length_append]; omega) hrest rfl)
          · rw [if_neg hx] at h
            obtain ⟨ms', hrest, rfl⟩ := Option.map_eq_some_iff.mp h
            exact .pair hx (ih _ (by simp only [List.length_cons]; omega) hrest rfl)
      · rw [if_neg hc] at h
        obtain ⟨ms', hrest, rfl⟩ := Option.map_eq_some_iff.mp h
        exact .plain hc (ih _ (by simp only [List.length_cons]; omega) hrest rfl)

inductive Kind where
  | string
  | character
  | block

def octalRun : Nat → Text → List Nat
  | 0, _ => []
  | _ + 1, [] => []
  | n + 1, c :: rest =>
    match c.octalDigit? with
    | some d => d :: octalRun n rest
    | none => []

/-- The code point of an octal escape and its length; only if the first digit is at most 3 there
may be three. -/
def octalSequence? (t : Text) : Option (CodePoint × Nat) :=
  (t.head?.bind CodePoint.octalDigit?).map fun d =>
    let ds := octalRun (if d ≤ 3 then 3 else 2) t
    (Fin.ofNat 0x110000 (ds.foldl (fun n d => 8 * n + d) 0), ds.length)

def shortSequence? (c : CodePoint) : Option CodePoint :=
  if c = 'b' then some 0x08
  else if c = 't' then some 0x09
  else if c = 'n' then some 0x0A
  else if c = 'f' then some 0x0C
  else if c = 'r' then some 0x0D
  else if c = 's' then some 0x20
  else if c = '"' ∨ c = '\'' ∨ c = '\\' then some c
  else none

/-- What the escape sequence after a backslash stands for, and its length. Only a text block has
one that ends the line. -/
def sequence? (kind : Kind) (t : Text) : Option (Text × Nat) :=
  match octalSequence? t, t with
  | some (c, size), _ => some ([c], size)
  | none, [] => none
  | none, c :: _ =>
    match shortSequence? c, kind with
    | some v, _ => some ([v], 1)
    | none, .block => if c = '\n' then some ([], 1) else none
    | none, _ => none

def closes : Kind → CodePoint → Bool
  | .string, c => c = '"' || c = '\n' || c = '\r'
  | .character, c => c = '\'' || c = '\n' || c = '\r'
  | .block, _ => false

/-- The text with its escape sequences replaced, after passing over the `skip` code points already
read. -/
def interpret (kind : Kind) (skip : Nat) : Text → Option Text
  | [] => some []
  | c :: rest =>
    match skip with
    | skip + 1 => interpret kind skip rest
    | 0 =>
      if c = '\\' then
        (sequence? kind rest).bind fun (v, size) => (interpret kind size rest).map (v ++ ·)
      else if closes kind c then none
      else (interpret kind 0 rest).map (c :: ·)

/-- No Unicode escape is a part of an escape sequence. -/
def separated (kind : Kind) (skip : Nat) : List Mark → Bool
  | [] => true
  | (c, marked) :: rest =>
    match skip with
    | skip + 1 => !marked && separated kind skip rest
    | 0 =>
      if c = '\\' then
        !marked && separated kind ((sequence? kind (points rest)).elim 0 (·.2)) rest
      else separated kind 0 rest

theorem separated_take {kind : Kind} {skip : Nat} {ms : List Mark}
    (h : separated kind skip ms = true) : ∀ m ∈ ms.take skip, m.2 = false := by
  induction ms generalizing skip with
  | nil => simp
  | cons m rest ih =>
    cases skip with
    | zero => simp
    | succ skip =>
      simp only [separated, Bool.and_eq_true, Bool.not_eq_true'] at h
      intro x hx
      rcases List.mem_cons.mp hx with rfl | hx
      · exact h.1
      · exact ih h.2 x hx

theorem octalRun_digits (n : Nat) (t : Text) :
    ∀ c ∈ t.take (octalRun n t).length, c.octalDigit? ≠ none := by
  induction n generalizing t with
  | zero => simp [octalRun]
  | succ n ih =>
    cases t with
    | nil => simp
    | cons c rest =>
      rw [octalRun]
      cases hc : c.octalDigit? with
      | none => simp
      | some d =>
        intro x hx
        rcases List.mem_cons.mp hx with rfl | hx
        · simp [hc]
        · exact ih rest x hx

theorem foldlM_takeWhile_octal (n : Nat) (t : Text) (acc : Nat) :
    ((t.take n).takeWhile fun c => c.octalDigit?.isSome).foldlM
        (fun n c => (CodePoint.octalDigit? c).map (8 * n + ·)) acc =
      some ((octalRun n t).foldl (fun n d => 8 * n + d) acc) ∧
    ((t.take n).takeWhile fun c => c.octalDigit?.isSome).length = (octalRun n t).length := by
  induction n generalizing t acc with
  | zero => exact ⟨rfl, rfl⟩
  | succ n ih =>
    cases t with
    | nil => exact ⟨rfl, rfl⟩
    | cons c rest =>
      rw [octalRun, List.take_succ_cons, List.takeWhile_cons]
      cases hc : c.octalDigit? with
      | none => exact ⟨rfl, rfl⟩
      | some d =>
        obtain ⟨hvalue, hlength⟩ := ih rest (8 * acc + d)
        simp only [Option.isSome_some, if_true, List.foldlM_cons, hc, Option.map_some,
          List.length_cons, hlength, List.foldl_cons]
        exact ⟨hvalue, trivial⟩

theorem octalEscape?_eq (t : Text) : octalEscape? t = octalSequence? t := by
  cases t with
  | nil => rfl
  | cons c rest =>
    simp only [octalEscape?, octalSequence?, List.head?_cons, Option.bind_some]
    cases c.octalDigit? with
    | none => rfl
    | some d =>
      obtain ⟨hvalue, hlength⟩ :=
        foldlM_takeWhile_octal (if d ≤ 3 then 3 else 2) (c :: rest) 0
      simp only [Text.digits?, hvalue, hlength, Option.map_some]

/-- Digits that come from no Unicode escape stand in the source themselves, and what does not go on
with a digit there does not go on with one in the translated text either. -/
theorem Translated.octalRun_eq {t : Text} {ms : List Mark} (h : Translated t ms) (n : Nat)
    (hms : ∀ m ∈ ms.take (octalRun n (points ms)).length, m.2 = false) :
    octalRun n t = octalRun n (points ms) := by
  have hbackslash : CodePoint.octalDigit? '\\' = none := by decide
  induction n generalizing t ms with
  | zero => rfl
  | succ n ih =>
    cases h with
    | nil => rfl
    | @plain c rest ms _ hrest =>
      simp only [points, List.map_cons, octalRun] at hms ⊢
      cases hc : c.octalDigit? with
      | none => rfl
      | some d =>
        simp only [hc, List.length_cons, List.take_succ_cons] at hms ⊢
        rw [ih hrest fun m hm => hms m (List.mem_cons_of_mem _ hm)]
        rfl
    | @unicode v a rest ms _ _ _ =>
      simp only [points, List.map_cons, octalRun, hbackslash] at hms ⊢
      cases hv : v.octalDigit? with
      | none => rfl
      | some d =>
        simp only [hv, List.length_cons, List.take_succ_cons] at hms
        exact absurd (hms _ List.mem_cons_self) (by simp)
    | pair => simp only [points, List.map_cons, octalRun, hbackslash]
    | lone => rfl

theorem shortSequence?_eq_some {c v : CodePoint} (h : shortSequence? c = some v) :
    shortEscapes.lookup c = some v ∧ c ≠ 'u' := by
  unfold shortSequence? at h
  repeat'
    split at h
    · rename_i hc
      obtain rfl := Option.some.inj h
      first
        | subst hc; decide
        | rcases hc with rfl | rfl | rfl <;> decide
  cases h

theorem octalSequence?_size {c v : CodePoint} {t : Text} {size : Nat}
    (h : octalSequence? (c :: t) = some (v, size)) :
    (∃ d, c.octalDigit? = some d) ∧ ∃ n, size = n + 1 ∧ ∀ x ∈ t.take n, x.octalDigit? ≠ none := by
  obtain ⟨d, hd, h⟩ := Option.map_eq_some_iff.mp h
  have hc : c.octalDigit? = some d := hd
  obtain ⟨n, hn⟩ : ∃ n, (if d ≤ 3 then 3 else 2) = n + 1 := by
    split
    · exact ⟨2, rfl⟩
    · exact ⟨1, rfl⟩
  obtain rfl := congrArg Prod.snd h
  refine ⟨⟨d, hc⟩, (octalRun n t).length, ?_, octalRun_digits n t⟩
  simp only [hn, octalRun, hc, List.length_cons]

theorem sequence?_size {kind : Kind} {c : CodePoint} {t v : Text} {size : Nat}
    (h : sequence? kind (c :: t) = some (v, size)) :
    ∃ n, size = n + 1 ∧ ∀ x ∈ t.take n, x ≠ '\\' := by
  unfold sequence? at h
  split at h
  · rename_i w size' hoctal
    obtain rfl := congrArg Prod.snd (Option.some.inj h)
    obtain ⟨-, n, hn, hdigits⟩ := octalSequence?_size hoctal
    refine ⟨n, hn, ?_⟩
    rintro x hx rfl
    exact hdigits _ hx rfl
  · cases h
  · refine ⟨0, ?_, by simp⟩
    split at h
    · exact (congrArg Prod.snd (Option.some.inj h)).symm
    · split at h
      · exact (congrArg Prod.snd (Option.some.inj h)).symm
      · cases h
    · cases h

theorem Translated.escape?_eq {kind : Kind} {c : CodePoint} {rest v : Text} {ms : List Mark}
    {size : Nat} (hc : c ≠ 'u') (h : Translated rest ms)
    (hsequence : sequence? kind (c :: points ms) = some (v, size))
    (hms : ∀ m ∈ ((c, false) :: ms).take size, m.2 = false) :
    escape? (c :: rest) = some (v, size) := by
  have hunicode : unicodeEscape? (c :: rest) = none := by
    rw [unicodeEscape?, if_neg hc]
  simp only [escape?, hunicode, octalEscape?_eq]
  unfold sequence? at hsequence
  split at hsequence
  · rename_i w size' hoctal
    obtain ⟨rfl, rfl⟩ := Prod.mk.inj (Option.some.inj hsequence)
    obtain ⟨⟨d, hd⟩, -⟩ := octalSequence?_size hoctal
    have hplain : Translated (c :: rest) ((c, false) :: ms) := by
      refine .plain ?_ h
      rintro rfl
      cases hd
    have hraw : octalSequence? (c :: rest) = octalSequence? (c :: points ms) := by
      simp only [octalSequence?, List.head?_cons, Option.bind_some, hd, Option.map_some,
        Option.some.injEq, Prod.mk.injEq] at hoctal ⊢
      have hrun := hplain.octalRun_eq (if d ≤ 3 then 3 else 2) (by
        intro m hm
        exact hms m (hoctal.2 ▸ hm))
      rw [hrun]
      exact ⟨rfl, rfl⟩
    rw [hraw, hoctal]
  · cases hsequence
  · rename_i c' t' hoctal heq
    obtain ⟨rfl, rfl⟩ := List.cons.inj heq
    have hdigit : octalSequence? (c :: rest) = none := by
      simp only [octalSequence?, List.head?_cons, Option.bind_some, Option.map_eq_none_iff]
        at hoctal ⊢
      exact hoctal
    rw [hdigit]
    split at hsequence
    · rename_i w hshort
      obtain ⟨rfl, rfl⟩ := Prod.mk.inj (Option.some.inj hsequence)
      simp only [(shortSequence?_eq_some hshort).1]
    · split at hsequence
      · rename_i hlineEnd
        obtain ⟨rfl, rfl⟩ := Prod.mk.inj (Option.some.inj hsequence)
        subst hlineEnd
        rfl
      · cases hsequence
    · cases hsequence

theorem replaceEscapes_unicode {v : CodePoint} {a : Text}
    (h : ∀ b, unicodeEscape? ('u' :: (a ++ b)) = some (v, a.length + 1)) (b : Text) :
    replaceEscapes 0 ('\\' :: 'u' :: (a ++ b)) = v :: replaceEscapes 0 b := by
  have hescape : escape? ((CodePoint.ofChar 'u' :: a) ++ b) =
      some ([v], (CodePoint.ofChar 'u' :: a).length) := by
    simp only [escape?, List.cons_append, h b, List.length_cons]
  exact replaceEscapes_escape hescape

/-- The reader in one pass and the two passes come to the same text. -/
theorem Translated.replaceEscapes_eq {kind : Kind} {t out : Text} {ms : List Mark} {skip : Nat}
    (h : Translated t ms) (hskip : ∀ c ∈ (points ms).take skip, c ≠ '\\')
    (hout : interpret kind skip (points ms) = some out) (hms : separated kind skip ms = true) :
    replaceEscapes skip t = out := by
  induction h generalizing skip out with
  | nil =>
    obtain rfl := Option.some.inj hout
    rfl
  | @plain c rest ms hc h ih =>
    cases skip with
    | zero =>
      simp only [points, List.map_cons, interpret, if_neg hc] at hout
      rw [separated, if_neg hc] at hms
      split at hout
      · cases hout
      · obtain ⟨out, hrest, rfl⟩ := Option.map_eq_some_iff.mp hout
        rw [replaceEscapes_plain hc, ih (by simp) hrest hms]
    | succ skip =>
      simp only [separated, Bool.and_eq_true] at hms
      exact ih (fun x hx => hskip x (List.mem_cons_of_mem _ hx)) hout hms.2
  | @unicode v a rest ms _ hescape h ih =>
    cases skip with
    | zero =>
      have hv : v ≠ '\\' := by
        intro hv
        simp [separated, hv] at hms
      simp only [points, List.map_cons, interpret, if_neg hv] at hout
      rw [separated, if_neg hv] at hms
      split at hout
      · cases hout
      · obtain ⟨out, hrest, rfl⟩ := Option.map_eq_some_iff.mp hout
        rw [replaceEscapes_unicode hescape, ih (by simp) hrest hms]
    | succ skip => simp [separated] at hms
  | @pair c rest ms hc h ih =>
    cases skip with
    | zero =>
      simp only [points, List.map_cons, interpret, if_true] at hout
      obtain ⟨⟨v, size⟩, hsequence, hout⟩ := Option.bind_eq_some_iff.mp hout
      obtain ⟨out, hrest, rfl⟩ := Option.map_eq_some_iff.mp hout
      have hpoints : sequence? kind (points ((c, false) :: ms)) = some (v, size) := hsequence
      rw [separated, if_pos rfl, hpoints, Option.elim_some, Bool.and_eq_true] at hms
      have hraw := h.escape?_eq hc hsequence (separated_take hms.2)
      obtain ⟨n, rfl, hn⟩ := sequence?_size hsequence
      simp only [separated, Bool.and_eq_true] at hms
      rw [replaceEscapes, if_pos rfl, hraw]
      exact congrArg (v ++ ·) (ih hn hrest hms.2.2)
    | succ skip => exact absurd rfl (hskip _ List.mem_cons_self)
  | lone =>
    cases skip with
    | zero => cases hout
    | succ skip => exact absurd rfl (hskip _ List.mem_cons_self)

end LookupGen.Literal
