import LookupGen.Proofs.Generation.Marked
import LookupGen.Proofs.Generation.Order

/-!
# Collected constants

What a lookup class keeps of the string constants of a type, and what is reported about the rest.
Names that differ only by case have one key. Of the constants with one key the last one is kept,
and there is one warning for each step from a constant to the next one with its key where the name
changes. No name gets lost without a warning that says so.
-/

namespace LookupGen

namespace Value

mutual

def decEq : (v w : Value) → Decidable (v = w)
  | null, w => match w with
    | null => isTrue rfl
    | text _ | bool _ | int _ | array _ | annotated _ _ => isFalse nofun
  | text t, w => match w with
    | text u => decidable_of_iff (t = u) (by rw [text.injEq])
    | null | bool _ | int _ | array _ | annotated _ _ => isFalse nofun
  | bool a, w => match w with
    | bool b => decidable_of_iff (a = b) (by rw [bool.injEq])
    | null | text _ | int _ | array _ | annotated _ _ => isFalse nofun
  | int m, w => match w with
    | int n => decidable_of_iff (m = n) (by rw [int.injEq])
    | null | text _ | bool _ | array _ | annotated _ _ => isFalse nofun
  | array vs, w => match w with
    | array ws => have := decEqItems vs ws; decidable_of_iff (vs = ws) (by rw [array.injEq])
    | null | text _ | bool _ | int _ | annotated _ _ => isFalse nofun
  | annotated name vs, w => match w with
    | annotated other ws =>
      have := decEqPairs vs ws
      decidable_of_iff (name = other ∧ vs = ws) (by rw [annotated.injEq])
    | null | text _ | bool _ | int _ | array _ => isFalse nofun

def decEqItems : (vs ws : List Value) → Decidable (vs = ws)
  | [], [] => isTrue rfl
  | [], _ :: _ => isFalse nofun
  | _ :: _, [] => isFalse nofun
  | v :: vs, w :: ws =>
    have := decEq v w
    have := decEqItems vs ws
    decidable_of_iff (v = w ∧ vs = ws) (by rw [List.cons.injEq])

def decEqPairs : (vs ws : List (Name × Value)) → Decidable (vs = ws)
  | [], [] => isTrue rfl
  | [], _ :: _ => isFalse nofun
  | _ :: _, [] => isFalse nofun
  | (name, v) :: vs, (other, w) :: ws =>
    have := decEq v w
    have := decEqPairs vs ws
    decidable_of_iff ((name = other ∧ v = w) ∧ vs = ws) (by rw [List.cons.injEq, Prod.mk.injEq])

end

instance : DecidableEq Value := decEq

end Value

deriving instance DecidableEq for Field

namespace Generation

/-- The string constants among the fields of a type. A field that repeats one before it is left
out. -/
def stringConstants (e : Element) : List Entry := e.fields.eraseDups.filterMap constant?

theorem constant?_eq_some_iff {f : Field} {e : Entry} :
    constant? f = some e ↔ f = ⟨e.name, stringType, some (.text e.value)⟩ := by
  obtain ⟨name, type, constant⟩ := f
  obtain ⟨name', value⟩ := e
  constructor
  · intro h
    unfold constant? at h
    split at h
    · rename_i htype
      obtain ⟨v, rfl, ht⟩ := Option.bind_eq_some_iff.mp h
      cases v <;> simp_all [Value.text?]
    · cases h
  · intro h
    obtain ⟨rfl, rfl, rfl⟩ := Field.mk.inj h
    rfl

theorem constant?_inj {f g : Field} {e : Entry} (hf : constant? f = some e)
    (hg : constant? g = some e) : f = g := by
  rw [constant?_eq_some_iff.mp hf, constant?_eq_some_iff.mp hg]

/-- It makes no difference whether repeated fields or repeated constants are left out. -/
theorem constants_eq (e : Element) : constants e = stringConstants e := by
  unfold constants stringConstants
  induction e.fields using List.reverseRecOn with
  | nil => rfl
  | append_singleton fields f ih =>
    rw [List.filterMap_append, List.eraseDups_append, List.eraseDups_append,
      List.filterMap_append, ih]
    congr 1
    cases hf : constant? f with
    | none => by_cases hmem : f ∈ fields <;> simp [List.removeAll, hf, hmem]
    | some entry =>
      have hsame : entry ∈ fields.filterMap constant? ↔ f ∈ fields := by
        constructor
        · intro h
          obtain ⟨g, hg, hentry⟩ := List.mem_filterMap.mp h
          exact constant?_inj hentry hf ▸ hg
        · exact fun h => List.mem_filterMap.mpr ⟨f, h, hf⟩
      have hone : [f].filterMap constant? = [entry] := by simp [hf]
      rw [hone]
      generalize fields.filterMap constant? = entries at hsame
      by_cases hmem : f ∈ fields
      · simp [List.removeAll, hmem, hsame.mpr hmem]
      · simp [List.removeAll, hmem, mt hsame.mp hmem, hf, List.eraseDups_cons]

def key (e : Entry) : Text := Name.fold e.name

structure LastAt (k : Text) (es : List Entry) (i : Nat) (e : Entry) : Prop where
  place : es[i]? = some e
  key_eq : key e = k
  last : ∀ j c, i < j → es[j]? = some c → key c ≠ k

variable {es : List Entry} {e a b : Entry} {k : Text} {i j : Nat}

theorem LastAt.mem (h : LastAt k es i a) : a ∈ es := List.mem_of_getElem? h.place

theorem LastAt.unique (ha : LastAt k es i a) (hb : LastAt k es j b) : i = j ∧ a = b := by
  have hij : i = j := by
    rcases Nat.lt_trichotomy i j with hlt | heq | hgt
    · exact absurd hb.key_eq (ha.last j b hlt hb.place)
    · exact heq
    · exact absurd ha.key_eq (hb.last i a hgt ha.place)
  refine ⟨hij, Option.some.inj ?_⟩
  rw [← ha.place, ← hb.place, hij]

theorem lastAt_concat_of_eq (h : key e = k) :
    LastAt k (es ++ [e]) i a ↔ i = es.length ∧ a = e := by
  have hend : LastAt k (es ++ [e]) es.length e := by
    refine ⟨List.getElem?_concat_length, h, ?_⟩
    intro j c hj hc
    have hlength : (es ++ [e]).length ≤ j := by
      rw [List.length_append, List.length_singleton]
      exact hj
    rw [List.getElem?_eq_none hlength] at hc
    cases hc
  constructor
  · exact fun hlast => hlast.unique hend
  · rintro ⟨rfl, rfl⟩
    exact hend

theorem lastAt_concat_of_ne (h : key e ≠ k) : LastAt k (es ++ [e]) i a ↔ LastAt k es i a := by
  have hplace {j : Nat} {c : Entry} (hc : key c = k) :
      (es ++ [e])[j]? = some c ↔ es[j]? = some c := by
    rcases Nat.lt_or_ge j es.length with hlt | hge
    · rw [List.getElem?_append_left hlt]
    · have hne : e ≠ c := fun heq => h (heq ▸ hc)
      rw [List.getElem?_append_right hge, List.getElem?_eq_none hge, List.getElem?_singleton]
      simp [hne]
  constructor
  · intro hlast
    refine ⟨(hplace hlast.key_eq).mp hlast.place, hlast.key_eq, ?_⟩
    intro j c hj hc heq
    exact hlast.last j c hj ((hplace heq).mpr hc) heq
  · intro hlast
    refine ⟨(hplace hlast.key_eq).mpr hlast.place, hlast.key_eq, ?_⟩
    intro j c hj hc heq
    exact hlast.last j c hj ((hplace heq).mp hc) heq

theorem exists_lastAt (h : e ∈ es) : ∃ i a, LastAt (key e) es i a := by
  induction es using List.reverseRecOn with
  | nil => cases h
  | append_singleton es x ih =>
    by_cases hx : key x = key e
    · exact ⟨es.length, x, (lastAt_concat_of_eq hx).mpr ⟨rfl, rfl⟩⟩
    · rcases List.mem_append.mp h with h | h
      · obtain ⟨i, a, hlast⟩ := ih h
        exact ⟨i, a, (lastAt_concat_of_ne hx).mpr hlast⟩
      · exact absurd (congrArg key (List.mem_singleton.mp h).symm) hx

theorem collect_concat (owner : Name) (es : List Entry) (e : Entry) :
    collect owner (es ++ [e]) =
      (Table.put (key e) e (collect owner es).1, (collect owner es).2 ++
        (dropWarning? owner ((collect owner es).1.lookup (key e)) e).toList) := by
  unfold collect
  rw [List.foldl_append]
  rfl

theorem lookup_collect {owner : Name} :
    (collect owner es).1.lookup k = some a ↔ ∃ i, LastAt k es i a := by
  induction es using List.reverseRecOn with
  | nil =>
    constructor
    · intro h
      cases h
    · rintro ⟨i, h⟩
      cases h.mem
  | append_singleton es e ih =>
    rw [collect_concat]
    by_cases hk : key e = k
    · rw [← hk, Table.lookup_put_self]
      simp [lastAt_concat_of_eq, eq_comm]
    · rw [Table.lookup_put_of_ne (Ne.symm hk), ih]
      simp [lastAt_concat_of_ne hk]

theorem nodup_keys_collect (owner : Name) (es : List Entry) :
    (Table.keys (collect owner es).1).Nodup := by
  rw [(collect_eq owner es).1]
  exact Table.nodup_keys_foldl_put key es

theorem mem_collect {owner : Name} : (k, e) ∈ (collect owner es).1 ↔ ∃ i, LastAt k es i e := by
  rw [Table.mem_iff_lookup (nodup_keys_collect owner es), lookup_collect]

section Entries

variable {m : MarkedType}

theorem entries_eq (m : MarkedType) : (extract m).1.entries =
    (sortByKey (collect m.name (stringConstants m.element)).1).map (·.2) := by
  rw [← constants_eq]
  rfl

theorem mem_entries_iff :
    e ∈ (extract m).1.entries ↔ ∃ i, LastAt (key e) (stringConstants m.element) i e := by
  rw [entries_eq, List.mem_map]
  constructor
  · rintro ⟨⟨k, e⟩, hmem, rfl⟩
    obtain ⟨i, hlast⟩ := mem_collect.mp ((sortByKey_perm _).mem_iff.mp hmem)
    exact ⟨i, hlast.key_eq ▸ hlast⟩
  · intro h
    exact ⟨(key e, e), (sortByKey_perm _).mem_iff.mpr (mem_collect.mpr h), rfl⟩

theorem keys_entries (m : MarkedType) : (extract m).1.entries.map key =
    Table.keys (sortByKey (collect m.name (stringConstants m.element)).1) := by
  rw [entries_eq, List.map_map]
  refine List.map_congr_left ?_
  rintro ⟨k, e⟩ hmem
  obtain ⟨i, hlast⟩ := mem_collect.mp ((sortByKey_perm _).mem_iff.mp hmem)
  exact hlast.key_eq

theorem keys_entries_ascending (m : MarkedType) :
    ((extract m).1.entries.map key).Pairwise (· < ·) := by
  rw [keys_entries]
  exact sortByKey_strict (nodup_keys_collect _ _)

theorem mem_keys_entries_iff :
    k ∈ (extract m).1.entries.map key ↔ k ∈ (stringConstants m.element).map key := by
  simp only [List.mem_map]
  constructor
  · rintro ⟨e, he, rfl⟩
    obtain ⟨i, hlast⟩ := mem_entries_iff.mp he
    exact ⟨e, hlast.mem, rfl⟩
  · rintro ⟨e, he, rfl⟩
    obtain ⟨i, a, hlast⟩ := exists_lastAt he
    exact ⟨a, mem_entries_iff.mpr ⟨i, hlast.key_eq ▸ hlast⟩, hlast.key_eq⟩

theorem nodup_names_entries (m : MarkedType) : ((extract m).1.entries.map (·.name)).Nodup := by
  have hkeys : ((extract m).1.entries.map key).Nodup :=
    (keys_entries_ascending m).imp fun hlt => ne_of_lt hlt
  have hmap : (extract m).1.entries.map key =
      ((extract m).1.entries.map (·.name)).map Name.fold := by
    rw [List.map_map]
    rfl
  rw [hmap] at hkeys
  exact hkeys.of_map

end Entries

structure Clash where
  earlier : Nat
  later : Nat
  dropped : Entry
  kept : Entry

/-- The second constant is the next one after the first with its key, and has another name. -/
structure Clash.Of (es : List Entry) (c : Clash) : Prop where
  later : es[c.later]? = some c.kept
  earlier : LastAt (key c.kept) (es.take c.later) c.earlier c.dropped
  differs : c.dropped.name ≠ c.kept.name

def clashWarning (owner : Name) (dropped kept : Entry) : Diagnostic :=
  ⟨.warning, dropMessage owner dropped kept, some owner⟩

theorem Clash.Of.later_lt {c : Clash} (h : c.Of es) : c.later < es.length :=
  (List.getElem?_eq_some_iff.mp h.later).1

theorem clash_concat_iff {c : Clash} :
    c.Of (es ++ [e]) ↔ c.Of es ∨
      (c.later = es.length ∧ c.kept = e ∧ LastAt (key e) es c.earlier c.dropped ∧
        c.dropped.name ≠ e.name) := by
  constructor
  · intro h
    have hlater := h.later_lt
    rw [List.length_append, List.length_singleton] at hlater
    rcases Nat.lt_succ_iff_lt_or_eq.mp hlater with hlt | heq
    · left
      refine ⟨?_, ?_, h.differs⟩
      · rw [← h.later, List.getElem?_append_left hlt]
      · rw [← List.take_append_of_le_length hlt.le]
        exact h.earlier
    · right
      have hkept : c.kept = e := by
        have hplace := h.later
        rw [heq, List.getElem?_concat_length] at hplace
        exact (Option.some.inj hplace).symm
      have hearlier := h.earlier
      rw [heq, List.take_left, hkept] at hearlier
      exact ⟨heq, hkept, hearlier, hkept ▸ h.differs⟩
  · rintro (h | ⟨hlater, hkept, hearlier, hdiffers⟩)
    · have hlt := h.later_lt
      refine ⟨?_, ?_, h.differs⟩
      · rw [List.getElem?_append_left hlt, h.later]
      · rw [List.take_append_of_le_length hlt.le]
        exact h.earlier
    · refine ⟨?_, ?_, hkept ▸ hdiffers⟩
      · rw [hlater, hkept, List.getElem?_concat_length]
      · rw [hlater, hkept, List.take_left]
        exact hearlier

theorem exists_clashes (owner : Name) (es : List Entry) :
    ∃ cs : List Clash, cs.Pairwise (·.later < ·.later) ∧ (∀ c, c ∈ cs ↔ c.Of es) ∧
      (collect owner es).2 = cs.map fun c => clashWarning owner c.dropped c.kept := by
  induction es using List.reverseRecOn with
  | nil => exact ⟨[], .nil, fun c => ⟨nofun, fun h => absurd h.later_lt (by simp)⟩, rfl⟩
  | append_singleton es e ih =>
    obtain ⟨cs, hordered, hmem, hwarnings⟩ := ih
    have hsame (hnew : ∀ i a, LastAt (key e) es i a → a.name = e.name) :
        ∀ c, c ∈ cs ↔ c.Of (es ++ [e]) := by
      intro c
      rw [clash_concat_iff, hmem]
      exact ⟨.inl, fun h => h.resolve_right fun ⟨_, _, hlast, hdiffers⟩ =>
        hdiffers (hnew _ _ hlast)⟩
    rw [collect_concat, hwarnings]
    cases hprevious : (collect owner es).1.lookup (key e) with
    | none =>
      refine ⟨cs, hordered, hsame ?_, List.append_nil _⟩
      intro i a hlast
      rw [lookup_collect.mpr ⟨i, hlast⟩] at hprevious
      cases hprevious
    | some p =>
      obtain ⟨i, hlast⟩ := lookup_collect.mp hprevious
      by_cases hname : p.name = e.name
      · refine ⟨cs, hordered, hsame ?_, ?_⟩
        · intro j a hlast'
          rw [← (hlast.unique hlast').2, hname]
        · simp [dropWarning?, hname]
      · refine ⟨cs ++ [⟨i, es.length, p, e⟩], ?_, ?_, ?_⟩
        · refine List.pairwise_append.mpr ⟨hordered, List.pairwise_singleton _ _, ?_⟩
          intro c hc d hd
          rw [List.mem_singleton.mp hd]
          exact ((hmem c).mp hc).later_lt
        · intro c
          rw [clash_concat_iff, List.mem_append, hmem, List.mem_singleton]
          refine or_congr_right ⟨?_, ?_⟩
          · rintro rfl
            exact ⟨rfl, rfl, hlast, hname⟩
          · obtain ⟨earlier, later, dropped, kept⟩ := c
            rintro ⟨rfl, rfl, hlast', -⟩
            obtain ⟨rfl, rfl⟩ := hlast.unique hlast'
            rfl
        · simp [dropWarning?, hname, clashWarning]

/-- A name stays with the last constant of its key unless a clash drops it. -/
theorem kept_or_clash (h : e ∈ es) :
    (∃ i a, LastAt (key e) es i a ∧ a.name = e.name) ∨
      ∃ c : Clash, c.Of es ∧ c.dropped.name = e.name := by
  induction es using List.reverseRecOn with
  | nil => cases h
  | append_singleton es x ih =>
    by_cases hname : x.name = e.name
    · have hkey : key x = key e := congrArg Name.fold hname
      exact .inl ⟨es.length, x, (lastAt_concat_of_eq hkey).mpr ⟨rfl, rfl⟩, hname⟩
    · have hmem : e ∈ es := by
        refine (List.mem_append.mp h).resolve_right fun h => hname ?_
        rw [List.mem_singleton.mp h]
      rcases ih hmem with ⟨i, a, hlast, ha⟩ | ⟨c, hc, hdropped⟩
      · by_cases hkey : key x = key e
        · refine .inr ⟨⟨i, es.length, a, x⟩, clash_concat_iff.mpr (.inr ?_), ha⟩
          exact ⟨rfl, rfl, hkey ▸ hlast, fun heq => hname (heq.symm.trans ha)⟩
        · exact .inl ⟨i, a, (lastAt_concat_of_ne hkey).mpr hlast, ha⟩
      · exact .inr ⟨c, clash_concat_iff.mpr (.inl hc), hdropped⟩

theorem warnings_eq (m : MarkedType) :
    (extract m).2 = (collect m.name (stringConstants m.element)).2 := by
  rw [← constants_eq]
  rfl

theorem diagnostics_extractAll_singleton (m : MarkedType) (p : Progress) :
    ((extractAll [m]).run p).2.diagnostics = p.diagnostics ++ (extract m).2 := by
  rw [(extractAll_shown [m] p).2, List.flatMap_singleton]

/-- Per key the last constant is kept, each change of the name under a key is warned of, and no
name gets lost without a warning. -/
theorem extract_keeps_last (m : MarkedType) :
    (extract m).1.target = m.target ∧ (extract m).1.source = m.name ∧
    ((extract m).1.entries.map key).Pairwise (· < ·) ∧
    ((extract m).1.entries.map (·.name)).Nodup ∧
    (∀ k, k ∈ (extract m).1.entries.map key ↔ k ∈ (stringConstants m.element).map key) ∧
    (∀ e ∈ (extract m).1.entries, ∃ i, LastAt (key e) (stringConstants m.element) i e) ∧
    (∃ cs : List Clash, cs.Pairwise (·.later < ·.later) ∧
      (∀ c, c ∈ cs ↔ c.Of (stringConstants m.element)) ∧
      (extract m).2 = cs.map fun c => clashWarning m.name c.dropped c.kept) ∧
    (∀ p : Progress,
      ((extractAll [m]).run p).2.diagnostics = p.diagnostics ++ (extract m).2) ∧
    ∀ e ∈ stringConstants m.element, e.name ∉ (extract m).1.entries.map (·.name) →
      ∃ kept, clashWarning m.name e kept ∈ (extract m).2 := by
  obtain ⟨cs, hordered, hmem, hwarnings⟩ := exists_clashes m.name (stringConstants m.element)
  rw [← warnings_eq] at hwarnings
  refine ⟨rfl, rfl, keys_entries_ascending m, nodup_names_entries m, fun k => mem_keys_entries_iff,
    fun e he => mem_entries_iff.mp he, ⟨cs, hordered, hmem, hwarnings⟩,
    diagnostics_extractAll_singleton m, ?_⟩
  intro e he habsent
  rcases kept_or_clash he with ⟨i, a, hlast, hname⟩ | ⟨c, hc, hname⟩
  · have ha : a ∈ (extract m).1.entries := mem_entries_iff.mpr ⟨i, hlast.key_eq ▸ hlast⟩
    exact absurd (List.mem_map.mpr ⟨a, ha, hname⟩) habsent
  · refine ⟨c.kept, ?_⟩
    rw [hwarnings]
    refine List.mem_map.mpr ⟨c, (hmem c).mpr hc, ?_⟩
    simp only [clashWarning, dropMessage, hname]

end Generation

end LookupGen
