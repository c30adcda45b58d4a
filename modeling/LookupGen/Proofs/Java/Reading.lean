import LookupGen.Proofs.Java.Numeral

/-!
# Tokens as they are read

What holds of a token of a file, given the glyphs after it. A word goes on as far as it can, and
what stands between tokens ends with white space or with a comment.
-/

namespace LookupGen.Java

namespace Token

variable {g x : Glyph} {gs rest : List Glyph} {n : Nat}

/-- A given glyph is the last one of some at the front. -/
def EndsAt (gs : List Glyph) (n : Nat) (x : Glyph) : Prop := (gs.take n).getLast? = some x

theorem EndsAt.cons (h : EndsAt gs n x) (g : Glyph) : EndsAt (g :: gs) (n + 1) x := by
  unfold EndsAt at *
  rw [List.take_succ_cons, List.getLast?_cons, h]
  rfl

theorem EndsAt.drop {m : Nat} (h : EndsAt (gs.drop m) n x) : EndsAt gs (m + n) x := by
  unfold EndsAt at *
  rw [List.take_add, List.getLast?_append, h]
  rfl

theorem endsAt_characterRest {empty : Bool} (h : characterRest empty gs = some n) :
    EndsAt gs n (.char '\'') := by
  fun_induction characterRest empty gs generalizing n with
  | case3 =>
    obtain rfl := Option.some.inj h
    rfl
  | case7 empty head rest ih =>
    obtain ⟨m, hm, rfl⟩ := Option.map_eq_some_iff.mp h
    exact ((ih hm).cons head).cons _
  | case8 empty head rest _ _ _ _ _ ih =>
    obtain ⟨m, hm, rfl⟩ := Option.map_eq_some_iff.mp h
    exact (ih hm).cons head
  | case1 | case2 | case4 | case5 | case6 => cases h

theorem endsAt_stringRest (h : stringRest gs = some n) : EndsAt gs n (.char '"') := by
  fun_induction stringRest gs generalizing n with
  | case2 =>
    obtain rfl := Option.some.inj h
    rfl
  | case4 rest k hescape ih =>
    obtain ⟨m, hm, rfl⟩ := Option.map_eq_some_iff.mp h
    have hrest : EndsAt rest (k + m) (.char '"') := (ih hm).drop
    have hcons := hrest.cons (.char '\\')
    rwa [show k + m + 1 = m + 1 + k by omega] at hcons
  | case6 head rest _ _ _ ih =>
    obtain ⟨m, hm, rfl⟩ := Option.map_eq_some_iff.mp h
    exact (ih hm).cons head
  | case1 | case3 | case5 => cases h

theorem endsAt_blockRest (h : blockRest gs = some n) : EndsAt gs n (.char '"') := by
  fun_induction blockRest gs generalizing n with
  | case2 =>
    obtain rfl := Option.some.inj h
    rfl
  | case5 head rest ih =>
    obtain ⟨m, hm, rfl⟩ := Option.map_eq_some_iff.mp h
    exact ((ih hm).cons head).cons _
  | case6 head rest _ _ _ _ ih =>
    obtain ⟨m, hm, rfl⟩ := Option.map_eq_some_iff.mp h
    exact (ih hm).cons head
  | case1 | case3 | case4 => cases h

theorem endsAt_blockCommentRest (h : blockCommentRest gs = some n) : EndsAt gs n (.char '/') := by
  fun_induction blockCommentRest gs generalizing n with
  | case3 =>
    obtain rfl := Option.some.inj h
    rfl
  | case5 head rest _ _ _ ih =>
    obtain ⟨m, hm, rfl⟩ := Option.map_eq_some_iff.mp h
    exact (ih hm).cons head
  | case1 | case2 | case4 => cases h

theorem head_drop_takeWhile (p : Glyph → Bool) (gs : List Glyph) :
    ∀ g ∈ (gs.drop (gs.takeWhile p).length).head?, p g = false := by
  induction gs with
  | nil => nofun
  | cons g rest ih =>
    by_cases hg : p g = true
    · rw [List.takeWhile_cons_of_pos hg]
      exact ih
    · rw [List.takeWhile_cons_of_neg hg]
      intro h hh
      obtain rfl := Option.some.inj hh
      exact Bool.eq_false_iff.mpr hg

/-- A glyph after which a token may start, or nothing at all. -/
def Closed (gap : List Glyph) : Prop :=
  ∀ g ∈ gap.getLast?, g.satisfies isSpace = true ∨ g = .char '/'

theorem closed_nil : Closed [] := fun g hg => by cases hg

/-- A gap ends with white space or a comment in asterisks, or a comment that goes to the end of the
line is all it ends with. -/
def Pending (gap glyphs : List Glyph) : Prop :=
  Closed gap ∨ ∀ g ∈ glyphs.head?, g.is '\n' = true ∨ g.is '\x00' = true

theorem pending_gapRest (h : gapRest? g rest = some n) (gap : List Glyph) :
    Pending (gap ++ g :: rest.take n) (rest.drop n) := by
  have hlast {y : Glyph} (hy : (g :: rest.take n).getLast? = some y)
      (hclosed : y.satisfies isSpace = true ∨ y = .char '/') :
      Pending (gap ++ g :: rest.take n) (rest.drop n) := by
    refine .inl fun z hz => ?_
    rw [List.getLast?_append, hy] at hz
    obtain rfl := Option.some.inj hz
    exact hclosed
  unfold gapRest? at h
  split at h
  · rename_i hspace
    obtain rfl := Option.some.inj h
    have htake : rest.take (rest.takeWhile (·.satisfies isSpace)).length =
        rest.takeWhile (·.satisfies isSpace) :=
      (List.prefix_iff_eq_take.mp (List.takeWhile_prefix _)).symm
    rw [htake] at hlast ⊢
    cases hrun : (g :: rest.takeWhile (·.satisfies isSpace)).getLast? with
    | none => simp at hrun
    | some y =>
      apply hlast hrun
      rcases List.mem_cons.mp (List.mem_of_getLast? hrun) with rfl | hy
      · exact .inl hspace
      · exact .inl (List.mem_takeWhile_imp hy)
  · split at h
    · split at h
      · rename_i more
        obtain rfl := Option.some.inj h
        refine .inr fun z hz => ?_
        have hstop := head_drop_takeWhile _ _ z hz
        rw [Bool.not_eq_false', Bool.or_eq_true] at hstop
        exact hstop
      · rename_i more
        obtain ⟨m, hm, rfl⟩ := Option.map_eq_some_iff.mp h
        exact hlast (((endsAt_blockCommentRest hm).cons _).cons g) (.inr rfl)
      · cases h
    · cases h

/-- The glyphs of a token, given what comes after them. -/
inductive Formed : (kind : TokenKind) → (glyphs after : List Glyph) → Prop where
  | word {c : Char} {cs : List Char} {after : List Glyph} (hstart : startsWord c = true)
      (hrest : ∀ d ∈ cs, continuesWord d = true)
      (hafter : ∀ g ∈ after.head?, g.satisfies continuesWord = false) :
      Formed (.word (String.ofList (c :: cs))) (List.map .char (c :: cs)) after
  | sign {s : String} {after : List Glyph} (h : s ∈ signs) :
      Formed (.sign s) (s.toList.map .char) after
  | quoted {kind : TokenKind} {g : Glyph} {more after : List Glyph} {c : Char}
      (hkind : kind = .string ∨ kind = .character) (hstart : g.satisfies startsWord = false)
      (hc : c = '"' ∨ c = '\'') (hlast : (g :: more).getLast? = some (.char c)) :
      Formed kind (g :: more) after
  | number {kind : TokenKind} {g : Glyph} {more after : List Glyph} {dot : Nat}
      (hkind : kind = .integer ∨ kind = .floating) (hstart : g.satisfies startsWord = false)
      (hbefore : Between Continues (g :: more) 0 dot)
      (hrest : Between Plain (g :: more) (dot + 1) (g :: more).length) :
      Formed kind (g :: more) after
  | stray {g : Glyph} {after : List Glyph} (h : g.satisfies startsWord = false) :
      Formed .stray [g] after
  | finish : Formed .finish [] []

theorem Formed.of_word {s : String} {glyphs after : List Glyph}
    (h : Formed (.word s) glyphs after) :
    ∃ c cs, glyphs = List.map .char (c :: cs) ∧ s = String.ofList (c :: cs) ∧
      startsWord c = true ∧ (∀ d ∈ cs, continuesWord d = true) ∧
      ∀ g ∈ after.head?, g.satisfies continuesWord = false := by
  cases h with
  | word hstart hrest hafter => exact ⟨_, _, rfl, rfl, hstart, hrest, hafter⟩
  | quoted hkind | number hkind => rcases hkind with hkind | hkind <;> cases hkind

theorem Formed.of_sign {s : String} {glyphs after : List Glyph}
    (h : Formed (.sign s) glyphs after) : s ∈ signs ∧ glyphs = s.toList.map .char := by
  cases h with
  | sign h => exact ⟨h, rfl⟩
  | quoted hkind | number hkind => rcases hkind with hkind | hkind <;> cases hkind

theorem exists_chars {p : Char → Bool} {gs : List Glyph} (h : ∀ g ∈ gs, g.satisfies p = true) :
    ∃ cs, gs = List.map .char cs ∧ ∀ c ∈ cs, p c = true := by
  induction gs with
  | nil => exact ⟨[], rfl, nofun⟩
  | cons g rest ih =>
    obtain ⟨hg, hrest⟩ := List.forall_mem_cons.mp h
    obtain ⟨cs, rfl, hcs⟩ := ih hrest
    cases g with
    | char c => exact ⟨c :: cs, rfl, List.forall_mem_cons.mpr ⟨hg, hcs⟩⟩
    | stray b => cases hg

theorem formed_word (hg : g.satisfies startsWord = true) :
    let more := rest.takeWhile (·.satisfies continuesWord)
    Formed
      (.word (String.ofList ((g :: more).filterMap fun | .char c => some c | .stray _ => none)))
      (g :: rest.take more.length) (rest.drop more.length) := by
  intro more
  have htake : rest.take more.length = more :=
    (List.prefix_iff_eq_take.mp (List.takeWhile_prefix _)).symm
  have hall : ∀ x ∈ more, x.satisfies continuesWord = true := fun x hx => List.mem_takeWhile_imp hx
  obtain ⟨cs, hmore, hcs⟩ := exists_chars hall
  cases g with
  | stray b => cases hg
  | char c =>
    have hspelling : ((Glyph.char c :: more).filterMap fun | .char c => some c | .stray _ => none) =
        c :: cs := by
      rw [hmore, ← List.map_cons, List.filterMap_map]
      exact List.filterMap_some
    rw [hspelling, htake, hmore, ← List.map_cons]
    exact .word hg hcs (hmore ▸ head_drop_takeWhile _ rest)

theorem Formed.start {kind : TokenKind} {glyphs after : List Glyph} (h : Formed kind glyphs after)
    (hg : g ∈ glyphs.head?) (hstart : g.satisfies startsWord = true) : ∃ s, kind = .word s := by
  cases h with
  | word => exact ⟨_, rfl⟩
  | sign hs =>
    rename_i s
    have hall : ∀ s ∈ signs, ∀ g ∈ (s.toList.map Glyph.char).head?,
        g.satisfies startsWord = false := by
      decide
    exact absurd hstart (Bool.eq_false_iff.mp (hall s hs g hg))
  | quoted _ hno | number _ hno | stray hno =>
    obtain rfl := Option.some.inj hg
    exact absurd hstart (Bool.eq_false_iff.mp hno)
  | finish => cases hg

theorem Formed.after_eq_nil {kind : TokenKind} {after : List Glyph} (h : Formed kind [] after) :
    after = [] := by
  generalize hglyphs : ([] : List Glyph) = glyphs at h
  cases h with
  | finish => rfl
  | sign hs =>
    rename_i s
    have hall : ∀ s ∈ signs, s.toList.map Glyph.char ≠ [] := by decide
    exact absurd hglyphs.symm (hall s hs)
  | word | quoted | number | stray => cases hglyphs

theorem formed_number {kind : TokenKind} (hg : g.satisfies startsWord = false)
    (h : number? (g :: rest) = some (kind, n)) (after : List Glyph) :
    Formed kind (g :: rest.take (n - 1)) after := by
  obtain ⟨hkind, hsize, dot, hbefore, hrest⟩ := of_number? h
  obtain ⟨size, rfl⟩ := Nat.exists_eq_succ_of_ne_zero hsize
  have htake {q : Glyph → Prop} {a b : Nat} (hq : Between q (g :: rest) a b) :
      Between q (g :: rest.take size) a b := by
    intro i x hx
    rw [← List.take_succ_cons, List.getElem?_take] at hx
    split at hx
    · exact hq i x hx
    · cases hx
  refine .number hkind hg (htake hbefore) ?_
  intro i x hx hi _
  refine htake hrest i x hx hi ?_
  rw [← List.take_succ_cons, List.getElem?_take] at hx
  split at hx
  · assumption
  · cases hx

theorem formed_sign {s : String} (h : signs.find? (startsWith · (g :: rest)) = some s)
    (after : List Glyph) : Formed (.sign s) (g :: rest.take (s.length - 1)) after := by
  have hmem := List.mem_of_find?_eq_some h
  have hlength : s.length ≠ 0 := by
    have hall : ∀ s ∈ signs, s.length ≠ 0 := by decide
    exact hall s hmem
  have hstart := List.find?_some h
  obtain ⟨more, hmore⟩ := startsWith_iff.mp hstart
  have htake : (g :: rest).take s.length = s.toList.map .char := by
    rw [hmore]
    exact List.take_left' (by rw [List.length_map, String.length_toList])
  rw [← Nat.succ_pred_eq_of_ne_zero hlength, List.take_succ_cons] at htake
  rw [show g :: rest.take (s.length - 1) = s.toList.map .char from htake]
  exact .sign hmem

theorem formed_kindAndRest {kind : TokenKind} (h : kindAndRest g rest = (kind, n)) :
    Formed kind (g :: rest.take n) (rest.drop n) := by
  unfold kindAndRest at h
  simp only at h
  split at h
  · rename_i hg
    obtain ⟨rfl, rfl⟩ := Prod.mk.inj h
    exact formed_word hg
  · rename_i hg
    rw [Bool.not_eq_true] at hg
    have hstray (hn : n = 0) : Formed .stray (g :: rest.take n) (rest.drop n) := by
      rw [hn, List.take_zero]
      exact .stray hg
    split at h
    · rename_i k size hnumber
      obtain ⟨rfl, rfl⟩ := Prod.mk.inj h
      exact formed_number hg hnumber _
    · split at h
      · split at h
        · rename_i m hm
          obtain ⟨rfl, rfl⟩ := Prod.mk.inj h
          refine .quoted (.inl rfl) hg (.inl rfl) ?_
          rw [Nat.add_comm]
          exact (endsAt_blockRest hm).drop.cons g
        · obtain ⟨rfl, hn⟩ := Prod.mk.inj h
          exact hstray hn.symm
      · split at h
        · split at h
          · rename_i m hm
            obtain ⟨rfl, rfl⟩ := Prod.mk.inj h
            exact .quoted (.inl rfl) hg (.inl rfl) ((endsAt_stringRest hm).cons g)
          · obtain ⟨rfl, hn⟩ := Prod.mk.inj h
            exact hstray hn.symm
        · split at h
          · split at h
            · rename_i m hm
              obtain ⟨rfl, rfl⟩ := Prod.mk.inj h
              exact .quoted (.inr rfl) hg (.inr rfl) ((endsAt_characterRest hm).cons g)
            · obtain ⟨rfl, hn⟩ := Prod.mk.inj h
              exact hstray hn.symm
          · split at h
            · rename_i s hs
              obtain ⟨rfl, rfl⟩ := Prod.mk.inj h
              exact formed_sign hs _
            · obtain ⟨rfl, hn⟩ := Prod.mk.inj h
              exact hstray hn.symm

def source (ts : List Token) : List Glyph := ts.flatMap fun t => t.gap ++ t.glyphs

@[simp] theorem source_cons (t : Token) (ts : List Token) :
    source (t :: ts) = t.gap ++ t.glyphs ++ source ts :=
  List.flatMap_cons

theorem source_readFrom (index line : Nat) (gap glyphs : List Glyph) :
    source (readFrom index line gap glyphs) = gap ++ glyphs := by
  fun_induction readFrom index line gap glyphs with
  | case1 index line gap => simp [source]
  | case2 index line gap g rest n hgap piece ih =>
    rw [ih, List.append_assoc, List.cons_append, List.take_append_drop]
  | case3 index line gap g rest hgap kind n hkind t ih =>
    rw [source_cons, ih, List.nil_append, List.append_assoc, List.cons_append,
      List.take_append_drop]

@[simp] theorem source_read (glyphs : List Glyph) : source (read glyphs) = glyphs :=
  source_readFrom 0 1 [] glyphs

/-- What holds of a token of a file, given the glyphs after it. -/
structure WellRead (t : Token) (after : List Glyph) : Prop where
  formed : Formed t.kind t.glyphs after
  closed : ∀ s, t.kind = .word s ∨ t.kind = .sign s → Closed t.gap

/-- No word and no sign starts where a comment that goes to the end of the line ends. -/
theorem closed_of_formed {kind : TokenKind} {gap more after : List Glyph} {s : String}
    (hformed : Formed kind (g :: more) after) (hkind : kind = .word s ∨ kind = .sign s)
    (hgap : gapRest? g rest = none) (hpending : Pending gap (g :: rest)) : Closed gap := by
  rcases hpending with hclosed | hstop
  · exact hclosed
  · exfalso
    obtain ⟨c, rfl, hc⟩ : ∃ c, g = .char c ∧
        (startsWord c = true ∨ c ∈ signs.filterMap (·.toList.head?)) := by
      rcases hkind with rfl | rfl
      · obtain ⟨c, cs, heq, -, hstart, -⟩ := hformed.of_word
        exact ⟨c, (List.cons.inj heq).1, .inl hstart⟩
      · obtain ⟨hs, heq⟩ := hformed.of_sign
        obtain ⟨c, cs, hcs, rfl, -⟩ := List.map_eq_cons_iff.mp heq.symm
        exact ⟨c, rfl, .inr (List.mem_filterMap.mpr ⟨s, hs, by rw [hcs]; rfl⟩)⟩
    rcases hstop _ rfl with hline | hnul
    · obtain rfl : c = '\n' := beq_iff_eq.mp hline
      exact absurd hgap (Option.some_ne_none _)
    · obtain rfl : c = '\x00' := beq_iff_eq.mp hnul
      revert hc
      decide

theorem wellRead_of_readFrom {after : List Token} {t : Token} (index line : Nat)
    (gap glyphs : List Glyph) : Pending gap glyphs → ∀ before,
      readFrom index line gap glyphs = before ++ t :: after → WellRead t (source after) := by
  -- By induction on the glyphs: the gap in front of the next token is pending all along.
  fun_induction readFrom index line gap glyphs with
  | case1 index line gap =>
    intro _ before h
    cases before with
    | cons u before => simp at h
    | nil =>
      obtain ⟨rfl, rfl⟩ := List.cons.inj h
      exact ⟨.finish, nofun⟩
  | case2 index line gap g rest n hn piece ih =>
    intro hgap before h
    exact ih (pending_gapRest hn gap) before h
  | case3 index line gap g rest hn kind n hkind first ih =>
    intro hgap before h
    cases before with
    | cons u before => exact ih (.inl closed_nil) before (List.cons.inj h).2
    | nil =>
      obtain ⟨rfl, rfl⟩ := List.cons.inj h
      have hformed := formed_kindAndRest hkind
      rw [source_readFrom]
      exact ⟨hformed, fun s hs => closed_of_formed hformed hs hn hgap⟩

theorem wellRead_of_read {glyphs : List Glyph} {before after : List Token} {t : Token}
    (h : read glyphs = before ++ t :: after) : WellRead t (source after) :=
  wellRead_of_readFrom 0 1 [] glyphs (.inl closed_nil) before h

end Token

end LookupGen.Java
