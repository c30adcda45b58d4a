import LookupGen.Proofs.Literal.Apart

/-!
# One pass and two passes

A reader that replaces all escapes in one pass differs from the two passes of the language where a
Unicode escape takes part in an escape sequence. One case is an exception: after a Unicode escape
for a backslash the two divide a run of backslashes differently, but come to the same text if the
run ends with an escaped apostrophe.

Main statement: for a legal body both come to the same text exactly if there is no such escape
sequence apart from that exception.
-/

namespace LookupGen.Literal

/-- The UTF-16 units of the text that the body of a legal string literal stands for. -/
def bodyUnits? (body : Text) : Option (List (BitVec 16)) :=
  (translate .start body).bind fun ms => (interpret .string 0 (points ms)).map Utf16.units

/-- Escaped backslashes, if any, and then an escaped apostrophe, none of it written with Unicode
escapes. -/
def apostropheNext : List Mark → Bool
  | (c, false) :: (d, false) :: rest =>
    c = '\\' && (d = '\'' || (d = '\\' && apostropheNext rest))
  | _ => false

/-- No Unicode escape continues an escape sequence, and one that begins an escape sequence stands
right before escaped backslashes, if any, and an escaped apostrophe. -/
def harmless (skip : Nat) : List Mark → Bool
  | [] => true
  | (c, marked) :: rest =>
    match skip with
    | skip + 1 => !marked && harmless skip rest
    | 0 =>
      if c = '\\' then
        if marked then apostropheNext rest && harmless 0 rest
        else harmless ((sequence? .string (points rest)).elim 0 (·.2)) rest
      else harmless 0 rest

def isHarmless (body : Text) : Bool := (translate .start body).all (harmless 0)

theorem harmless_append {us : List Mark} (hus : ∀ m ∈ us, m.2 = false) (skip : Nat)
    (ns : List Mark) : harmless (us.length + skip) (us ++ ns) = harmless skip ns := by
  induction us with
  | nil => rw [List.length_nil, Nat.zero_add, List.nil_append]
  | cons m us ih =>
    obtain ⟨c, marked⟩ := m
    obtain rfl : marked = false := hus (c, marked) List.mem_cons_self
    rw [List.length_cons, Nat.add_right_comm, List.cons_append, harmless,
      ih fun x hx => hus x (List.mem_cons_of_mem _ hx)]
    rfl

theorem harmless_plain {c : CodePoint} (hc : c ≠ '\\') (marked : Bool) (ms : List Mark) :
    harmless 0 ((c, marked) :: ms) = harmless 0 ms := by
  rw [harmless, if_neg hc]

theorem harmless_pair {c : CodePoint} {ms : List Mark} {v : Text} {size : Nat}
    (h : sequence? .string (c :: points ms) = some (v, size + 1)) :
    harmless 0 (('\\', false) :: (c, false) :: ms) = harmless size ms := by
  have hsequence : sequence? .string (points ((c, false) :: ms)) = some (v, size + 1) := h
  rw [harmless, if_pos rfl, if_neg Bool.false_ne_true, hsequence]
  rfl

/-- What is put out for the rest of a body: at the beginning of a piece, and after a Unicode escape
for a backslash. -/
structure Reads (t : Text) (ms : List Mark) : Prop where
  outside : ∀ {out}, interpret .string 0 (points ms) = some out →
    Compared false (replaceEscapes 0 t) out (harmless 0 ms)
  begun : ∀ {out}, interpret .string 0 ('\\' :: points ms) = some out →
    Compared true ('\\' :: replaceEscapes 0 t) out (apostropheNext ms && harmless 0 ms)

@[simp] theorem length_points (ms : List Mark) : (points ms).length = ms.length := List.length_map _

theorem Translated.compared_octal {c : CodePoint} {rest out : Text} {ms : List Mark} {d : Nat}
    (h : Translated rest ms)
    (ih : ∀ t ns, Translated t ns → t.length ≤ rest.length → Reads t ns)
    (hd : c.octalDigit? = some d)
    (hout : interpret .string 0 ('\\' :: c :: points ms) = some out) :
    Compared false (replaceEscapes 0 ('\\' :: c :: rest)) out
      (harmless 0 (('\\', false) :: (c, false) :: ms)) := by
  obtain ⟨us, ns, rfl, hlength, hus, hrest, hrun, hmarked⟩ := h.octalRun_append (room d)
  have hraw := replaceEscapes_of_escape? (escape?_octal hd rest)
  rw [List.drop_succ_cons, ← hlength, List.singleton_append] at hraw
  rw [hraw]
  have hpair := harmless_pair (sequence?_octal hd .string (points (us ++ ns)))
  have hvalue := octalValue_octalRun_lt hd (points (us ++ ns))
  obtain ⟨v, size, out, hsequence, hout, rfl⟩ := interpret_backslash hout
  rw [sequence?_octal hd] at hsequence
  obtain ⟨rfl, rfl⟩ := Prod.mk.inj (Option.some.inj hsequence)
  have hdrop : ∀ n, (c :: points (us ++ ns)).drop (us.length + n + 1) = points (ns.drop n) := by
    intro n
    rw [List.drop_succ_cons, points, ← List.map_drop, ← List.drop_drop, List.drop_left]
    rfl
  rw [hrun, List.length_append, ← hlength, hdrop] at hout
  rw [hpair, hrun, List.length_append, ← hlength, harmless_append fun m hm => (hus m hm).1]
  rw [hrun] at hvalue
  have hshorter : (rest.drop us.length).length ≤ rest.length := by
    rw [List.length_drop]
    exact Nat.sub_le _ _
  by_cases hmore : octalRun (room d - us.length) (points ns) = []
  · rw [hmore] at hout ⊢
    rw [List.append_nil]
    exact .same _ ((ih _ ns hrest hshorter).outside hout)
  · obtain ⟨ds, t', hds, hlt, ht', hreplaced⟩ := hrest.replaceEscapes_octalRun _ hmore
    have hroom : us.length < room d := by
      refine Nat.lt_of_not_le fun hle => hmore ?_
      rw [Nat.sub_eq_zero_of_le hle]
      rfl
    have hfalse : harmless (octalRun (room d - us.length) (points ns)).length ns = false := by
      obtain ⟨x, ns, rfl⟩ := hmarked hmore
      obtain ⟨n, hn⟩ := Nat.exists_eq_succ_of_ne_zero (mt List.length_eq_zero_iff.mp hmore)
      rw [hn]
      rfl
    rw [hreplaced, hfalse]
    refine .continued ?_ ?_ hds ((ih t' _ ht' ?_).outside hout)
    · exact octalValue_octalRun_lt_of_room hd (hlength ▸ hroom)
    · exact Nat.lt_trans hvalue (by decide)
    · exact Nat.le_trans (Nat.le_of_lt hlt) hshorter

theorem Translated.compared_pair {c : CodePoint} {rest out : Text} {ms : List Mark}
    (h : Translated rest ms)
    (ih : ∀ t ns, Translated t ns → t.length ≤ rest.length → Reads t ns)
    (hout : interpret .string 0 ('\\' :: c :: points ms) = some out) :
    Compared false (replaceEscapes 0 ('\\' :: c :: rest)) out
      (harmless 0 (('\\', false) :: (c, false) :: ms)) := by
  cases hd : c.octalDigit? with
  | some d => exact h.compared_octal ih hd hout
  | none =>
    obtain ⟨v, size, out, hsequence, hout, rfl⟩ := interpret_backslash hout
    have hpair := hsequence
    rw [sequence?_letter hd] at hsequence
    obtain ⟨w, hw, heq⟩ := Option.map_eq_some_iff.mp hsequence
    obtain ⟨rfl, rfl⟩ := Prod.mk.inj heq
    rw [replaceEscapes_of_escape? (escape?_letter hd hw rest), harmless_pair hpair]
    exact .same w ((ih rest ms h (Nat.le_refl _)).outside hout)

theorem apostropheNext_of_ne {c : CodePoint} (hc : c ≠ '\\') (marked : Bool) (ms : List Mark) :
    apostropheNext ((c, marked) :: ms) = false := by
  unfold apostropheNext
  split
  · rename_i heq
    obtain ⟨hhead, -⟩ := List.cons.inj heq
    obtain ⟨rfl, -⟩ := Prod.mk.inj hhead
    rw [decide_eq_false hc, Bool.false_and]
  · rfl

theorem apostropheNext_marked (c : CodePoint) (ms : List Mark) :
    apostropheNext ((c, true) :: ms) = false := by
  rw [apostropheNext]
  rintro _ _ _ ⟨⟩

theorem apostropheNext_pair (c : CodePoint) (ms : List Mark) :
    apostropheNext (('\\', false) :: (c, false) :: ms) =
      (c = '\'' || (c = '\\' && apostropheNext ms)) := by
  rw [apostropheNext, decide_eq_true rfl, Bool.true_and]

theorem Translated.compared_replaced {t rest out : Text} {x : CodePoint} {marked : Bool}
    {ms : List Mark} (h : Translated t ((x, marked) :: ms)) (hrest : Translated rest ms)
    (hlt : rest.length < t.length) (hreplaced : replaceEscapes 0 t = x :: replaceEscapes 0 rest)
    (ih : ∀ t' ns, Translated t' ns → t'.length < t.length → Reads t' ns)
    (hout : interpret .string 0 ('\\' :: x :: points ms) = some out) :
    Compared true ('\\' :: replaceEscapes 0 t) out false := by
  obtain ⟨v, size, out, hsequence, hout, rfl⟩ := interpret_backslash hout
  cases hd : x.octalDigit? with
  | some d =>
    rw [sequence?_octal hd] at hsequence
    obtain ⟨rfl, rfl⟩ := Prod.mk.inj (Option.some.inj hsequence)
    have hrun : octalRun (room d + 1) (points ((x, marked) :: ms)) =
        d :: octalRun (room d) (points ms) := by
      simp only [points, List.map_cons, octalRun, hd]
    obtain ⟨ds, t', hds, hlt', ht', hreplaced⟩ :=
      h.replaceEscapes_octalRun (room d + 1) (hrun ▸ List.cons_ne_nil _ _)
    rw [hrun, List.length_cons, List.drop_succ_cons] at ht'
    rw [List.drop_succ_cons, points, ← List.map_drop] at hout
    rw [hreplaced]
    refine .replaced ?_ hds ((ih t' _ ht' hlt').outside hout)
    exact Nat.lt_trans (octalValue_octalRun_lt hd _) (by decide)
  | none =>
    rw [sequence?_letter hd] at hsequence
    obtain ⟨w, hw, heq⟩ := Option.map_eq_some_iff.mp hsequence
    obtain ⟨rfl, rfl⟩ := Prod.mk.inj heq
    rw [hreplaced]
    change Compared true ('\\' :: ([x] ++ replaceEscapes 0 rest)) _ false
    refine .replaced ?_ (List.cons_ne_nil x []) ((ih rest ms hrest hlt).outside hout)
    exact Nat.lt_trans (shortSequence?_ascii hw).2.1 (by decide)

/-- Digits that are an octal escape for the one pass alone. -/
theorem Translated.compared_unread {c : CodePoint} {rest out : Text} {ms : List Mark} {d : Nat}
    (h : Translated rest ms)
    (ih : ∀ t ns, Translated t ns → t.length ≤ rest.length → Reads t ns)
    (hd : c.octalDigit? = some d) (hout : interpret .string 0 (points ms) = some out) :
    Compared true ('\\' :: replaceEscapes 0 ('\\' :: c :: rest)) ('\\' :: c :: out) false := by
  obtain ⟨us, ns, rfl, hlength, hus, hrest, -, -⟩ := h.octalRun_append (room d)
  rw [points, List.map_append] at hout
  have hdigits : ∀ x ∈ points us, IsOctal x := by
    intro x hx
    obtain ⟨m, hm, rfl⟩ := List.mem_map.mp hx
    exact (hus m hm).2
  obtain ⟨out, hns, rfl⟩ := interpret_digits hdigits hout
  rw [replaceEscapes_of_escape? (escape?_octal hd rest), List.drop_succ_cons, ← hlength]
  have hshorter : (rest.drop us.length).length ≤ rest.length := by
    rw [List.length_drop]
    exact Nat.sub_le _ _
  have hoctal : IsOctal c := Option.ne_none_iff_exists'.mpr ⟨d, hd⟩
  have hrange := isOctal_iff.mp hoctal
  refine .unread (Nat.lt_trans (octalValue_octalRun_lt hd rest) (by decide)) (by omega)
    hoctal.ne_backslash ?_ hdigits ((ih _ ns hrest hshorter).outside hns)
  intro hnil heq
  have hvalue : (octalValue (d :: octalRun (room d) rest)).val < 0x20 := by
    apply octalValue_octalRun_lt_of_room hd
    rw [← hlength, ← length_points, hnil]
    unfold room
    split <;> decide
  rw [heq] at hvalue
  omega

/-- A pair that is no escaped backslash or apostrophe: the two passes leave its second half over. -/
theorem Translated.compared_leftover {c : CodePoint} {rest out : Text} {ms : List Mark}
    (hc : c ≠ 'u') (hbackslash : c ≠ '\\') (hapostrophe : c ≠ '\'')
    (hcloses : closes .string c = false) (h : Translated rest ms)
    (ih : ∀ t ns, Translated t ns → t.length ≤ rest.length → Reads t ns)
    (hout : interpret .string 0 (points ms) = some out) :
    Compared true ('\\' :: replaceEscapes 0 ('\\' :: c :: rest)) ('\\' :: c :: out) false := by
  simp only [closes, Bool.or_eq_false_iff, decide_eq_false_iff_not] at hcloses
  obtain ⟨⟨hquote, hfeed⟩, hreturn⟩ := hcloses
  have hreads := ih rest ms h (Nat.le_refl _)
  cases hd : c.octalDigit? with
  | some d => exact h.compared_unread ih hd hout
  | none =>
    cases hw : shortSequence? c with
    | some w =>
      obtain ⟨hcval, hwval, hself⟩ := shortSequence?_ascii hw
      rw [replaceEscapes_of_escape? (escape?_letter hd hw rest)]
      change Compared true _ ('\\' :: c :: ([] ++ out)) false
      refine .unread (Nat.lt_trans hwval (by decide)) (Nat.lt_trans hcval (by decide))
        hbackslash ?_ (fun d hd => absurd hd List.not_mem_nil) (hreads.outside hout)
      rintro - heq
      rcases hself heq with h | h | h
      · exact hquote h
      · exact hapostrophe h
      · exact hbackslash h
    | none =>
      have hnone : escape? (c :: rest) = none := by
        rw [escape?_eq_sequence? hc hreturn hfeed, sequence?_letter hd, hw, Option.map_none]
      rw [replaceEscapes, if_pos rfl, hnone]
      simp only
      rw [replaceEscapes_plain hbackslash]
      exact .bare c (hreads.outside hout)

/-- The two passes take the backslash of the next pair for the end of an escape sequence. -/
theorem Translated.compared_after {c : CodePoint} {rest out : Text} {ms : List Mark} (hc : c ≠ 'u')
    (h : Translated rest ms)
    (ih : ∀ t ns, Translated t ns → t.length ≤ rest.length → Reads t ns)
    (hout : interpret .string 0 ('\\' :: '\\' :: c :: points ms) = some out) :
    Compared true ('\\' :: replaceEscapes 0 ('\\' :: c :: rest)) out
      (apostropheNext (('\\', false) :: (c, false) :: ms) &&
        harmless 0 (('\\', false) :: (c, false) :: ms)) := by
  obtain ⟨v, size, out, hsequence, hout, rfl⟩ := interpret_backslash hout
  rw [sequence?_letter rfl] at hsequence
  obtain ⟨rfl, rfl⟩ := Prod.mk.inj (Option.some.inj hsequence)
  rw [List.drop_succ_cons, List.drop_zero] at hout
  have hreads := ih rest ms h (Nat.le_refl _)
  rw [apostropheNext_pair]
  by_cases hbackslash : c = '\\'
  · subst hbackslash
    rw [replaceEscapes_of_escape? (escape?_letter rfl rfl rest),
      harmless_pair (sequence?_letter rfl (points ms))]
    exact .backslashes (hreads.begun hout)
  obtain ⟨hcloses, out, hplain, rfl⟩ := interpret_plain hbackslash hout
  by_cases hapostrophe : c = '\''
  · subst hapostrophe
    rw [replaceEscapes_of_escape? (escape?_letter rfl rfl rest),
      harmless_pair (sequence?_letter rfl (points ms))]
    exact .apostrophe (hreads.outside hplain)
  rw [decide_eq_false hbackslash, decide_eq_false hapostrophe, Bool.false_and, Bool.or_false,
    Bool.false_and]
  exact h.compared_leftover hc hbackslash hapostrophe hcloses ih hplain

theorem Translated.reads {t : Text} {ms : List Mark} (h : Translated t ms) : Reads t ms := by
  induction hn : t.length using Nat.strongRecOn generalizing t ms with
  | _ n ih =>
    subst hn
    have ih' : ∀ t' ns, Translated t' ns → t'.length < t.length → Reads t' ns :=
      fun t' ns ht' hlt => ih t'.length hlt ht' rfl
    cases h with
    | nil =>
      refine ⟨fun hout => ?_, fun hout => ?_⟩
      · obtain rfl := Option.some.inj hout
        exact .nil
      · cases hout
    | @plain c rest ms hc hrest =>
      have hlt : rest.length < (c :: rest).length := Nat.lt_succ_self _
      refine ⟨fun hout => ?_, fun hout => ?_⟩
      · obtain ⟨-, out, hplain, rfl⟩ := interpret_plain hc hout
        rw [replaceEscapes_plain hc, harmless_plain hc]
        exact .same c ((ih' rest ms hrest hlt).outside hplain)
      · rw [apostropheNext_of_ne hc]
        exact (Translated.plain hc hrest).compared_replaced hrest hlt (replaceEscapes_plain hc rest)
          ih' hout
    | @unicode v a rest ms ha hescape hrest =>
      have hlt : rest.length < ('\\' :: 'u' :: (a ++ rest) : Text).length := by
        simp only [List.length_cons, List.length_append]
        omega
      refine ⟨fun hout => ?_, fun hout => ?_⟩
      · rw [replaceEscapes_unicode hescape]
        by_cases hv : v = '\\'
        · subst hv
          rw [harmless, if_pos rfl, if_pos rfl]
          exact .begun ((ih' rest ms hrest hlt).begun hout)
        · obtain ⟨-, out, hplain, rfl⟩ := interpret_plain hv hout
          rw [harmless_plain hv]
          exact .same v ((ih' rest ms hrest hlt).outside hplain)
      · rw [apostropheNext_marked]
        exact (Translated.unicode ha hescape hrest).compared_replaced hrest hlt
          (replaceEscapes_unicode hescape rest) ih' hout
    | @pair c rest ms hc hrest =>
      have ih'' : ∀ t' ns, Translated t' ns → t'.length ≤ rest.length → Reads t' ns :=
        fun t' ns ht' hle => ih' t' ns ht' (Nat.lt_succ_of_le (Nat.le_succ_of_le hle))
      exact ⟨fun hout => hrest.compared_pair ih'' hout,
        fun hout => hrest.compared_after hc ih'' hout⟩
    | lone =>
      refine ⟨fun hout => ?_, fun hout => ?_⟩
      · cases hout
      · obtain rfl := Option.some.inj hout
        exact @Compared.replaced '\\' ['\\'] _ _ _ (by decide) (List.cons_ne_nil _ _) .nil

/-- A legal body reads as the language has it just if its Unicode escapes are harmless. -/
theorem decode_two_passes {body : Text} {us : List (BitVec 16)}
    (hlegal : bodyUnits? body = some us) :
    decode body = Utf16.ofUnits us ↔ isHarmless body = true := by
  obtain ⟨ms, htranslate, hunits⟩ := Option.bind_eq_some_iff.mp hlegal
  obtain ⟨out, hout, rfl⟩ := Option.map_eq_some_iff.mp hunits
  have hcompared := (translated_of_translate htranslate).reads.outside hout
  rw [decode, Utf16.ofUnits_units, Utf16.joinPairs_eq_iff, hcompared.units_eq_iff, isHarmless,
    htranslate, Option.all_some]

/-- Unicode escapes for a backslash, in front of an escaped backslash and an escaped apostrophe, and
for a letter, after an octal escape. -/
theorem decode_two_passes_apostrophe :
    bodyUnits? "\\u005c\\\\\\'\\101\\u0041" = some (Utf16.units "\\\\'AA") ∧
    isHarmless "\\u005c\\\\\\'\\101\\u0041" = true ∧
    decode "\\u005c\\\\\\'\\101\\u0041" = Utf16.ofUnits (Utf16.units "\\\\'AA") := by
  have hlegal : bodyUnits? "\\u005c\\\\\\'\\101\\u0041" = some (Utf16.units "\\\\'AA") := by
    decide +kernel
  have hharmless : isHarmless "\\u005c\\\\\\'\\101\\u0041" = true := by decide +kernel
  exact ⟨hlegal, hharmless, (decode_two_passes hlegal).mpr hharmless⟩

/-- A Unicode escape for the backslash of a line feed stays a backslash and a letter. -/
theorem decode_backslash_unread :
    bodyUnits? "\\u005cn" = some (Utf16.units "\n") ∧ decode "\\u005cn" = "\\n" ∧
    decode "\\u005cn" ≠ Utf16.ofUnits (Utf16.units "\n") :=
  ⟨by decide +kernel, by decide +kernel, by decide +kernel⟩

end LookupGen.Literal
