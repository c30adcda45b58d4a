import Mathlib.Data.List.Forall2

/-!
# Computations that may fail

What is known of the steps of a computation that has come to a result, and where one over a list
breaks off. A computation that has a state besides is run step by step.
-/

namespace LookupGen

variable {ε σ α β : Type}

theorem bind_eq_ok {x : Except ε α} {k : α → Except ε β} {b : β} :
    (x >>= k) = .ok b ↔ ∃ a, x = .ok a ∧ k a = .ok b := by
  cases x with
  | error e => simp [bind, Except.bind]
  | ok a => simp [bind, Except.bind]

theorem map_eq_ok {x : Except ε α} {f : α → β} {b : β} :
    x.map f = .ok b ↔ ∃ a, x = .ok a ∧ f a = b := by
  cases x with
  | error e => simp [Except.map]
  | ok a => simp [Except.map]

theorem exists_map_eq_ok {x : Except ε α} {f : α → β} :
    (∃ b, x.map f = .ok b) ↔ ∃ a, x = .ok a := by
  simp [map_eq_ok]

theorem mapError_eq_ok {ε' : Type} {x : Except ε α} {f : ε → ε'} {a : α} :
    x.mapError f = .ok a ↔ x = .ok a := by
  cases x with
  | error e => simp [Except.mapError]
  | ok b => simp [Except.mapError]

theorem toOption_join_eq_some {x : Except ε (Option α)} {a : α} :
    x.toOption.join = some a ↔ x = .ok (some a) := by
  cases x with
  | error e => simp [Except.toOption]
  | ok c => simp [Except.toOption]

theorem exists_of_mem_right {R : α → β → Prop} {as : List α} {bs : List β}
    (h : List.Forall₂ R as bs) {b : β} (hb : b ∈ bs) : ∃ a ∈ as, R a b := by
  induction h with
  | nil => cases hb
  | @cons a _ _ _ hab _ ih =>
    rcases List.mem_cons.mp hb with rfl | hb
    · exact ⟨a, List.mem_cons_self, hab⟩
    · obtain ⟨c, hc, hcb⟩ := ih hb
      exact ⟨c, List.mem_cons_of_mem a hc, hcb⟩

section MapM

variable {f : α → Except ε β} {as : List α}

theorem mapM_eq_ok_iff {bs : List β} :
    as.mapM f = .ok bs ↔ List.Forall₂ (fun a b => f a = .ok b) as bs := by
  induction as generalizing bs with
  | nil =>
    rw [List.mapM_nil, List.forall₂_nil_left_iff]
    constructor
    · intro h
      exact (Except.ok.inj h).symm
    · rintro rfl
      rfl
  | cons a rest ih =>
    rw [List.mapM_cons, List.forall₂_cons_left_iff, bind_eq_ok]
    constructor
    · rintro ⟨b, hb, h⟩
      obtain ⟨more, hmore, h⟩ := bind_eq_ok.mp h
      exact ⟨b, more, hb, ih.mp hmore, (Except.ok.inj h).symm⟩
    · rintro ⟨b, more, hb, hmore, rfl⟩
      exact ⟨b, hb, bind_eq_ok.mpr ⟨more, ih.mpr hmore, rfl⟩⟩

theorem mapM_of_ok {value : α → β} (h : ∀ a ∈ as, f a = .ok (value a)) :
    as.mapM f = .ok (as.map value) := by
  rw [mapM_eq_ok_iff, List.forall₂_map_right_iff, List.forall₂_same]
  exact h

theorem ok_of_mapM {bs : List β} (h : as.mapM f = .ok bs) {a : α} (ha : a ∈ as) :
    ∃ b, f a = .ok b := by
  obtain ⟨b, -, hb⟩ := exists_of_mem_right (mapM_eq_ok_iff.mp h).flip ha
  exact ⟨b, hb⟩

theorem mapM_eq_error_iff {e : ε} :
    as.mapM f = .error e ↔ ∃ before a after, as = before ++ a :: after ∧
      (∀ b ∈ before, ∃ y, f b = .ok y) ∧ f a = .error e := by
  induction as with
  | nil =>
    constructor
    · intro h
      cases h
    · rintro ⟨before, a, after, heq, -⟩
      exact absurd heq.symm (List.append_ne_nil_of_right_ne_nil _ (List.cons_ne_nil a after))
  | cons x rest ih =>
    rw [List.mapM_cons]
    constructor
    · intro h
      cases hx : f x with
      | error e' =>
        rw [hx] at h
        obtain rfl := Except.error.inj h
        exact ⟨[], x, rest, rfl, fun b hb => absurd hb List.not_mem_nil, hx⟩
      | ok y =>
        cases hrest : rest.mapM f with
        | ok ys =>
          rw [hx, hrest] at h
          cases h
        | error e' =>
          rw [hx, hrest] at h
          obtain rfl := Except.error.inj h
          obtain ⟨before, a, after, rfl, hbefore, ha⟩ := ih.mp hrest
          exact ⟨x :: before, a, after, rfl, List.forall_mem_cons.mpr ⟨⟨y, hx⟩, hbefore⟩, ha⟩
    · rintro ⟨before, a, after, heq, hbefore, ha⟩
      cases before with
      | nil =>
        obtain ⟨rfl, rfl⟩ := List.cons.inj heq
        rw [ha]
        rfl
      | cons b more =>
        obtain ⟨rfl, rfl⟩ := List.cons.inj heq
        obtain ⟨⟨y, hy⟩, hmore⟩ := List.forall_mem_cons.mp hbefore
        rw [hy, ih.mpr ⟨more, a, after, rfl, hmore, ha⟩]
        rfl

end MapM

section FoldlM

variable {step : β → α → Except ε β} {as : List α} {b c : β}

theorem ok_foldlM_append {P : List α → β → Prop} {done : List α}
    (hstep : ∀ done b, ∀ a ∈ as, ∀ b', P done b → step b a = .ok b' → P (done ++ [a]) b')
    (hb : P done b) (h : as.foldlM step b = .ok c) : P (done ++ as) c := by
  induction as generalizing done b with
  | nil =>
    obtain rfl := Except.ok.inj h
    rwa [List.append_nil]
  | cons a rest ih =>
    rw [List.foldlM_cons] at h
    obtain ⟨b', hfirst, hrest⟩ := bind_eq_ok.mp h
    have hall := ih (fun done b a ha => hstep done b a (List.mem_cons_of_mem _ ha))
      (hstep done b a List.mem_cons_self b' hb hfirst) hrest
    rwa [List.append_assoc] at hall

theorem ok_foldlM {P : β → Prop} (hstep : ∀ b, ∀ a ∈ as, ∀ b', P b → step b a = .ok b' → P b')
    (hb : P b) (h : as.foldlM step b = .ok c) : P c :=
  @ok_foldlM_append ε α β step as b c (fun _ => P) [] (fun _ => hstep) hb h

theorem exists_foldlM (h : ∀ b, ∀ a ∈ as, ∃ b', step b a = .ok b') (b : β) :
    ∃ c, as.foldlM step b = .ok c := by
  induction as generalizing b with
  | nil => exact ⟨b, rfl⟩
  | cons a rest ih =>
    obtain ⟨b', hfirst⟩ := h b a List.mem_cons_self
    rw [List.foldlM_cons, hfirst]
    exact ih (fun b a ha => h b a (List.mem_cons_of_mem _ ha)) b'

end FoldlM

theorem stateM_run_bind (x : StateM σ α) (k : α → StateM σ β) (s : σ) :
    (x >>= k).run s = (k (x.run s).1).run (x.run s).2 := rfl

theorem exceptT_run_bind (m : ExceptT ε (StateM σ) α) (k : α → ExceptT ε (StateM σ) β) (s : σ) :
    (m >>= k).run s = match m.run s with
      | (.error e, s') => (.error e, s')
      | (.ok a, s') => (k a).run s' := by
  simp only [bind, ExceptT.bind, ExceptT.mk, ExceptT.run, StateT.bind, ExceptT.bindCont]
  rcases m s with ⟨e | a, s'⟩
  · rfl
  · rfl

theorem exceptT_run_tryCatch (m : ExceptT ε (StateM σ) α) (handle : ε → ExceptT ε (StateM σ) α)
    (s : σ) : (tryCatch m handle).run s = match m.run s with
      | (.error e, s') => (handle e).run s'
      | (.ok a, s') => (.ok a, s') := by
  simp only [tryCatch, tryCatchThe, MonadExceptOf.tryCatch, ExceptT.tryCatch, ExceptT.mk,
    ExceptT.run, bind, StateT.bind]
  rcases m s with ⟨e | a, s'⟩
  · rfl
  · rfl

end LookupGen
