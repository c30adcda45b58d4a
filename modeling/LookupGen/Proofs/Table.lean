import LookupGen.Table
import Mathlib.Data.List.Induction
import Mathlib.Data.List.Nodup

/-!
# Tables with distinct keys

Putting keys one after another keeps them distinct, and the value of a key is the one that was put
last. In a table with distinct keys, membership and look-up say the same.
-/

namespace LookupGen.Table

variable {κ α : Type} [DecidableEq κ] {t : Table κ α} {k : κ} {v : α}

theorem nodup_keys_put (h : (keys t).Nodup) (k : κ) (v : α) : (keys (put k v t)).Nodup := by
  by_cases hk : k ∈ keys t
  · rw [keys_put_of_mem hk]
    exact h
  · rw [keys_put_of_not_mem hk]
    refine List.nodup_append.mpr ⟨h, List.nodup_singleton k, ?_⟩
    intro a ha b hb heq
    rw [heq, List.mem_singleton.mp hb] at ha
    exact hk ha

theorem put_of_not_mem (h : k ∉ keys t) (v : α) : put k v t = t ++ [(k, v)] := by
  induction t with
  | nil => rfl
  | cons e rest ih =>
    obtain ⟨k', v'⟩ := e
    have hne : k' ≠ k := fun heq => h (heq ▸ List.mem_cons_self)
    have hrest : k ∉ keys rest := fun hmem => h (List.mem_cons_of_mem k' hmem)
    rw [put, if_neg hne, ih hrest, List.cons_append]

theorem mem_iff_lookup [BEq κ] [LawfulBEq κ] (h : (keys t).Nodup) :
    (k, v) ∈ t ↔ t.lookup k = some v := by
  induction t with
  | nil => simp
  | cons e rest ih =>
    obtain ⟨k', v'⟩ := e
    obtain ⟨hnew, hrest⟩ := List.nodup_cons.mp h
    rw [List.lookup_cons]
    by_cases hk : k = k'
    · subst hk
      have hnot : (k, v) ∉ rest := fun hmem => hnew (List.mem_map.mpr ⟨(k, v), hmem, rfl⟩)
      simp [hnot, eq_comm]
    · have hb : (k == k') = false := by simpa using hk
      simp [hb, hk, ih hrest]

theorem lookup_filter_of_ne [BEq κ] [LawfulBEq κ] {other : κ} (h : other ≠ k) (t : Table κ α) :
    (t.filter fun e => decide (e.1 ≠ k)).lookup other = t.lookup other := by
  induction t with
  | nil => rfl
  | cons e rest ih =>
    obtain ⟨k', v'⟩ := e
    by_cases hk : k' = k
    · subst hk
      have hb : (other == k') = false := by simpa using h
      rw [List.filter_cons_of_neg (by simp), ih, List.lookup_cons, hb]
    · rw [List.filter_cons_of_pos (by simpa using hk), List.lookup_cons, List.lookup_cons, ih]

theorem lookup_filter_self [BEq κ] [LawfulBEq κ] (k : κ) (t : Table κ α) :
    (t.filter fun e => decide (e.1 ≠ k)).lookup k = none := by
  induction t with
  | nil => rfl
  | cons e rest ih =>
    obtain ⟨k', v'⟩ := e
    by_cases hk : k' = k
    · rw [List.filter_cons_of_neg (by simpa using hk), ih]
    · have hb : (k == k') = false := by simpa using Ne.symm hk
      rw [List.filter_cons_of_pos (by simpa using hk), List.lookup_cons, hb, ih]

section Fold

variable (key : α → κ)

theorem nodup_keys_foldl_put (es : List α) :
    (keys (es.foldl (fun t e => put (key e) e t) [])).Nodup := by
  have hall : ∀ t : Table κ α, (keys t).Nodup →
      (keys (es.foldl (fun t e => put (key e) e t) t)).Nodup := by
    induction es with
    | nil => exact fun _ h => h
    | cons e rest ih => exact fun t h => ih _ (nodup_keys_put h (key e) e)
  exact hall [] List.nodup_nil

theorem lookup_foldl_put [BEq κ] [LawfulBEq κ] (es : List α) (t : Table κ α) (k : κ) :
    (es.foldl (fun t e => put (key e) e t) t).lookup k =
      (es.reverse.find? fun e => decide (key e = k)).or (t.lookup k) := by
  induction es generalizing t with
  | nil => rfl
  | cons e rest ih =>
    rw [List.foldl_cons, ih, List.reverse_cons, List.find?_append, Option.or_assoc]
    congr 1
    by_cases hk : key e = k
    · rw [← hk, lookup_put_self]
      simp
    · rw [lookup_put_of_ne (fun heq => hk heq.symm)]
      simp [hk]

theorem foldl_put_eq_nil_iff {es : List α} :
    es.foldl (fun t e => put (key e) e t) [] = [] ↔ es = [] := by
  constructor
  · intro h
    cases es with
    | nil => rfl
    | cons e rest =>
      have hlookup := lookup_foldl_put key (e :: rest) [] (key e)
      rw [h, List.lookup_nil, Option.or_none, eq_comm, List.find?_eq_none] at hlookup
      exact absurd (hlookup e (by simp)) (by simp)
  · rintro rfl
    rfl

end Fold

section PutAll

def putAll (es : List (κ × α)) (t : Table κ α) : Table κ α :=
  es.foldl (fun t e => put e.1 e.2 t) t

theorem putAll_append (es es' : List (κ × α)) (t : Table κ α) :
    putAll (es ++ es') t = putAll es' (putAll es t) := List.foldl_append

@[simp] theorem putAll_concat (es : List (κ × α)) (k : κ) (v : α) (t : Table κ α) :
    putAll (es ++ [(k, v)]) t = put k v (putAll es t) := putAll_append es [(k, v)] t

theorem lookup_putAll [BEq κ] [LawfulBEq κ] (es : List (κ × α)) (k : κ) :
    (putAll es []).lookup k = es.reverse.lookup k := by
  induction es using List.reverseRecOn with
  | nil => rfl
  | append_singleton es e ih =>
    obtain ⟨key, v⟩ := e
    rw [putAll_concat, List.reverse_append, List.reverse_singleton, List.singleton_append,
      List.lookup_cons]
    by_cases hk : k = key
    · rw [hk, lookup_put_self, beq_self_eq_true]
    · rw [lookup_put_of_ne hk, ih, beq_false_of_ne hk]

theorem keys_putAll [BEq κ] [LawfulBEq κ] (es : List (κ × α)) :
    keys (putAll es []) = (es.map (·.1)).eraseDups := by
  induction es using List.reverseRecOn with
  | nil => rfl
  | append_singleton es e ih =>
    obtain ⟨k, v⟩ := e
    rw [putAll_concat, List.map_append, List.eraseDups_append, ← ih]
    by_cases hk : k ∈ keys (putAll es [])
    · have hmem : k ∈ es.map (·.1) := List.mem_eraseDups.mp (ih ▸ hk)
      rw [keys_put_of_mem hk]
      simp [List.removeAll, hmem]
    · have hmem : k ∉ es.map (·.1) := fun h => hk (ih ▸ List.mem_eraseDups.mpr h)
      rw [keys_put_of_not_mem hk]
      simp [List.removeAll, hmem, List.eraseDups_cons]

end PutAll

end LookupGen.Table
