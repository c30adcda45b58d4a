import LookupGen.Name
import LookupGen.Proofs.Text.Split

/-!
# Names with dots in them

The first segment, the last one and what stands before it, of names that are put together from
others. A name is kept as it is written, with blanks and comments, so a segment of it need not be a
word.
-/

namespace LookupGen

namespace Text

variable {sep : CodePoint} {t a b : Text}

theorem splitFirst_eq_none (h : splitFirst sep t = none) : sep ∉ t := by
  induction t with
  | nil => exact List.not_mem_nil
  | cons c rest ih =>
    rw [splitFirst] at h
    split at h
    · cases h
    · rename_i hc
      intro hmem
      rcases List.mem_cons.mp hmem with rfl | hmem
      · exact hc rfl
      · exact ih (Option.map_eq_none_iff.mp h) hmem

theorem splitFirst_eq_some (h : splitFirst sep t = some (a, b)) : t = a ++ sep :: b ∧ sep ∉ a := by
  induction t generalizing a with
  | nil => cases h
  | cons c rest ih =>
    rw [splitFirst] at h
    split at h
    · rename_i hc
      obtain ⟨rfl, rfl⟩ := Prod.mk.inj (Option.some.inj h)
      exact ⟨by rw [hc, List.nil_append], List.not_mem_nil⟩
    · rename_i hc
      obtain ⟨⟨before, after⟩, hrest, heq⟩ := Option.map_eq_some_iff.mp h
      obtain ⟨rfl, rfl⟩ := Prod.mk.inj heq
      obtain ⟨rfl, hbefore⟩ := ih hrest
      refine ⟨rfl, ?_⟩
      intro hmem
      rcases List.mem_cons.mp hmem with rfl | hmem
      · exact hc rfl
      · exact hbefore hmem

theorem splitFirst_append (h : sep ∉ a) : splitFirst sep (a ++ sep :: b) = some (a, b) := by
  induction a with
  | nil => exact if_pos rfl
  | cons c rest ih =>
    have hc : c ≠ sep := fun hc => h (hc ▸ List.mem_cons_self)
    rw [List.cons_append, splitFirst, if_neg hc, ih fun hmem => h (List.mem_cons_of_mem c hmem)]
    rfl

theorem splitFirst_of_not_mem (h : sep ∉ t) : splitFirst sep t = none := by
  cases hfirst : splitFirst sep t with
  | none => rfl
  | some parts =>
    rw [(splitFirst_eq_some hfirst).1] at h
    exact absurd (List.mem_append_right _ List.mem_cons_self) h

theorem splitLast_of_not_mem (h : sep ∉ t) : splitLast sep t = none := by
  cases hlast : splitLast sep t with
  | none => rfl
  | some parts =>
    rw [(splitLast_eq_some hlast).1] at h
    exact absurd (List.mem_append_right _ List.mem_cons_self) h

theorem splitLast_append (a b : Text) :
    splitLast sep (a ++ sep :: b) =
      some (match splitLast sep b with
        | none => (a, b)
        | some (before, after) => (a ++ sep :: before, after)) := by
  induction a with
  | nil =>
    rw [List.nil_append, splitLast]
    cases splitLast sep b with
    | none => exact if_pos rfl
    | some parts => rfl
  | cons c rest ih =>
    rw [List.cons_append, splitLast, ih]
    cases splitLast sep b with
    | none => rfl
    | some parts => rfl

end Text

namespace Name

variable {n a b : Name}

def head (n : Name) : Name :=
  match Text.splitFirst '.' n with
  | none => n
  | some (before, _) => before

theorem dot_not_mem_head (n : Name) : CodePoint.ofChar '.' ∉ head n := by
  unfold head
  cases hfirst : Text.splitFirst '.' n with
  | none => exact Text.splitFirst_eq_none hfirst
  | some parts => exact (Text.splitFirst_eq_some hfirst).2

theorem head_of_head {c : CodePoint} (h : c ∈ (head n).head?) : c ∈ n.head? := by
  unfold head at h
  cases hfirst : Text.splitFirst '.' n with
  | none =>
    rw [hfirst] at h
    exact h
  | some parts =>
    rw [hfirst] at h
    rw [(Text.splitFirst_eq_some hfirst).1, List.head?_append, h]
    rfl

theorem head_append (h : CodePoint.ofChar '.' ∉ a) (b : Name) : head (a ++ b) = a ++ head b := by
  unfold head
  cases hfirst : Text.splitFirst '.' b with
  | none =>
    have hnot : CodePoint.ofChar '.' ∉ a ++ b := by
      rw [List.mem_append, not_or]
      exact ⟨h, Text.splitFirst_eq_none hfirst⟩
    rw [Text.splitFirst_of_not_mem hnot]
  | some parts =>
    obtain ⟨heq, hbefore⟩ := Text.splitFirst_eq_some hfirst
    have hnot : CodePoint.ofChar '.' ∉ a ++ parts.1 := by
      rw [List.mem_append, not_or]
      exact ⟨h, hbefore⟩
    rw [heq, ← List.append_assoc, Text.splitFirst_append hnot]

theorem exists_append_simple (n : Name) :
    ∃ front, n = front ++ simple n ∧ ∀ c ∈ front.getLast?, c = CodePoint.ofChar '.' := by
  unfold simple
  cases hlast : Text.splitLast '.' n with
  | none => exact ⟨[], rfl, nofun⟩
  | some parts =>
    refine ⟨parts.1 ++ [CodePoint.ofChar '.'], ?_, ?_⟩
    · rw [List.append_assoc, List.singleton_append, ← (Text.splitLast_eq_some hlast).1]
    · intro c hc
      rw [List.getLast?_concat] at hc
      exact (Option.some.inj hc).symm

theorem simple_of_not_mem (h : CodePoint.ofChar '.' ∉ n) : simple n = n := by
  unfold simple
  rw [Text.splitLast_of_not_mem h]

@[simp] theorem simple_append (a b : Name) :
    simple (a ++ CodePoint.ofChar '.' :: b) = simple b := by
  unfold simple
  rw [Text.splitLast_append]
  cases Text.splitLast '.' b with
  | none => rfl
  | some parts => rfl

theorem package_of_not_mem (h : CodePoint.ofChar '.' ∉ n) : package n = [] := by
  unfold package
  rw [Text.splitLast_of_not_mem h]

theorem package_append (a : Name) (h : CodePoint.ofChar '.' ∉ b) :
    package (a ++ CodePoint.ofChar '.' :: b) = a := by
  unfold package
  rw [Text.splitLast_append, Text.splitLast_of_not_mem h]

theorem package_append_of_mem (a : Name) (h : CodePoint.ofChar '.' ∈ b) :
    package (a ++ CodePoint.ofChar '.' :: b) = a ++ CodePoint.ofChar '.' :: package b := by
  unfold package
  rw [Text.splitLast_append]
  cases hlast : Text.splitLast '.' b with
  | none => exact absurd h (Text.splitLast_eq_none hlast)
  | some parts => rfl

theorem package_simple (h : CodePoint.ofChar '.' ∈ n) :
    n = package n ++ CodePoint.ofChar '.' :: simple n := by
  unfold package simple
  cases hlast : Text.splitLast '.' n with
  | none => exact absurd h (Text.splitLast_eq_none hlast)
  | some parts => exact (Text.splitLast_eq_some hlast).1

theorem join_dot (a b : Name) : Text.join [a, ".", b] = a ++ CodePoint.ofChar '.' :: b := by
  simp [Text.join, Text.ofString]

@[simp] theorem simple_join (a b : Name) : simple (Text.join [a, ".", b]) = simple b := by
  rw [join_dot, simple_append]

theorem within_eq (scope n : Name) :
    within scope n = n ∨ within scope n = scope ++ CodePoint.ofChar '.' :: n := by
  unfold within
  split
  · exact .inl rfl
  · exact .inr (join_dot scope n)

@[simp] theorem simple_within (scope n : Name) : simple (within scope n) = simple n := by
  rcases within_eq scope n with h | h
  · rw [h]
  · rw [h, simple_append]

def continues (c : CodePoint) : Bool := isPart c || c = CodePoint.ofChar '¢'

def Outside (c : CodePoint) : Prop := isStart c = false ∧ continues c = false

instance (c : CodePoint) : Decidable (Outside c) := inferInstanceAs (Decidable (_ ∧ _))

structure IsWord (n : Name) : Prop where
  start : ∃ c, n.head? = some c ∧ isStart c = true
  rest : ∀ c ∈ n.tail, continues c = true

def WordEnded (n : Name) : Prop :=
  ∃ before word, n = before ++ word ∧ IsWord word ∧ ∀ c ∈ before.getLast?, Outside c

/-- What may stand in a word only after its front. -/
structure Dangling (n : Name) : Prop where
  start : ∀ c ∈ n.head?, isStart c = false
  all : ∀ c ∈ n, continues c = true

theorem outside_dot : Outside (CodePoint.ofChar '.') := by decide

theorem Outside.not_mem {c : CodePoint} (hc : Outside c) (h : IsWord n) : c ∉ n := by
  obtain ⟨d, hd, hstart⟩ := h.start
  intro hmem
  cases n with
  | nil => cases hd
  | cons e rest =>
    rcases List.mem_cons.mp hmem with rfl | hmem
    · obtain rfl := Option.some.inj hd
      exact Bool.false_ne_true (hc.1.symm.trans hstart)
    · exact Bool.false_ne_true (hc.2.symm.trans (h.rest c hmem))

theorem IsWord.dot_not_mem (h : IsWord n) : CodePoint.ofChar '.' ∉ n := outside_dot.not_mem h

theorem IsWord.ne_nil (h : IsWord n) : n ≠ [] := by
  rintro rfl
  obtain ⟨c, hc, -⟩ := h.start
  cases hc

theorem IsWord.wordEnded (h : IsWord n) : WordEnded n :=
  ⟨[], n, rfl, h, fun c hc => by cases hc⟩

theorem wordEnded_append_dot (a : Name) (h : IsWord b) :
    WordEnded (a ++ CodePoint.ofChar '.' :: b) := by
  refine ⟨a ++ [CodePoint.ofChar '.'], b, by simp, h, ?_⟩
  intro c hc
  rw [List.getLast?_concat] at hc
  obtain rfl := Option.some.inj hc
  exact outside_dot

/-- The first segment of a name that starts with a word goes on after the word or is the word. -/
theorem head_word_append {after : Name} (hn : IsWord n)
    (hafter : ∀ c ∈ after.head?, continues c = false) (h : IsWord (head (n ++ after))) :
    head (n ++ after) = n := by
  rw [head_append hn.dot_not_mem] at h ⊢
  cases hhead : head after with
  | nil => rw [List.append_nil]
  | cons c rest =>
    have hc : c ∈ after.head? := head_of_head (hhead ▸ rfl)
    have hmem : c ∈ (n ++ head after).tail := by
      rw [List.tail_append_of_ne_nil hn.ne_nil, hhead]
      exact List.mem_append_right _ List.mem_cons_self
    exact absurd (h.rest c hmem) (Bool.eq_false_iff.mp (hafter c hc))

theorem not_isWord_simple (h : ∀ c ∈ n.getLast?, Outside c) : ¬ IsWord (simple n) := by
  intro hword
  obtain ⟨front, hfront, -⟩ := exists_append_simple n
  cases hlast : (simple n).getLast? with
  | none => exact hword.ne_nil (List.getLast?_eq_none_iff.mp hlast)
  | some c =>
    have hc : (front ++ simple n).getLast? = some c := by
      rw [List.getLast?_append, hlast]
      rfl
    rw [← hfront] at hc
    exact (h c hc).not_mem hword (List.mem_of_getLast? hlast)

theorem simple_of_length_eq_one (hn : n.length = 1) (h : IsWord (simple n)) : simple n = n := by
  obtain ⟨front, heq, -⟩ := exists_append_simple n
  have hsum := congrArg List.length heq
  have hpos : (simple n).length ≠ 0 := fun h' => h.ne_nil (List.length_eq_zero_iff.mp h')
  rw [List.length_append] at hsum
  obtain rfl : front = [] := List.length_eq_zero_iff.mp (by omega)
  exact heq.symm

/-- If a word stands after what belongs to no word, the last segment is the word or is no word. -/
theorem simple_append_word {before : Name} (hn : IsWord n)
    (hbefore : ∀ c ∈ before.getLast?, Outside c) (h : IsWord (simple (before ++ n))) :
    simple (before ++ n) = n := by
  obtain ⟨front, heq, hfront⟩ := exists_append_simple (before ++ n)
  generalize simple (before ++ n) = last at *
  rcases List.append_eq_append_iff.mp heq with ⟨more, hmore, rfl⟩ | ⟨more, hmore, rfl⟩
  · rcases List.eq_nil_or_concat' more with rfl | ⟨init, c, rfl⟩
    · rfl
    · obtain rfl := hfront c (by rw [hmore, ← List.append_assoc, List.getLast?_concat]; rfl)
      exact absurd (by simp) hn.dot_not_mem
  · rcases List.eq_nil_or_concat' more with rfl | ⟨init, c, rfl⟩
    · rfl
    · have hout : Outside c :=
        hbefore c (by rw [hmore, ← List.append_assoc, List.getLast?_concat]; rfl)
      exact absurd (by simp) (hout.not_mem h)

/-- Blanks and comments after a dot that is the last one belong to no package. -/
theorem package_append_word {gap : Name} (a : Name)
    (hgap : ∀ c ∈ gap.getLast?, c ≠ CodePoint.ofChar '.') (h : simple (gap ++ n) = n) :
    package (a ++ CodePoint.ofChar '.' :: (gap ++ n)) = a := by
  apply package_append
  intro hmem
  have heq := package_simple hmem
  rw [h, List.append_cons] at heq
  refine hgap (CodePoint.ofChar '.') ?_ rfl
  rw [List.append_cancel_right heq, List.getLast?_concat]
  rfl

/-- The last word would start inside of what only goes on with one, or before the dot. -/
theorem Dangling.not_wordEnded (h : Dangling b) (ha : ∀ c ∈ a.getLast?, c = CodePoint.ofChar '.') :
    ¬ WordEnded (a ++ b) := by
  rintro ⟨before, word, heq, hword, hbefore⟩
  obtain ⟨c, hc, hstart⟩ := hword.start
  have hne : word ≠ b := by
    rintro rfl
    exact Bool.false_ne_true ((h.start c hc).symm.trans hstart)
  rcases List.append_eq_append_iff.mp heq with ⟨more, hmore, hb⟩ | ⟨more, hmore, hword'⟩
  · rcases List.eq_nil_or_concat' more with rfl | ⟨init, last, rfl⟩
    · exact hne hb.symm
    · have hlast : last ∈ before.getLast? := by
        rw [hmore, ← List.append_assoc, List.getLast?_concat]
        rfl
      have hin : last ∈ b := by
        rw [hb]
        simp
      exact Bool.false_ne_true ((hbefore last hlast).2.symm.trans (h.all last hin))
  · rcases List.eq_nil_or_concat' more with rfl | ⟨init, last, rfl⟩
    · exact hne hword'
    · have hlast : last = CodePoint.ofChar '.' := by
        apply ha
        rw [hmore, ← List.append_assoc, List.getLast?_concat]
        rfl
      apply hword.dot_not_mem
      rw [hword', ← hlast]
      simp

end Name

end LookupGen
