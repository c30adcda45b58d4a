/-!
# Tables in the order of their keys

A table is a list of keys with values in which each key has its place from the time it is first
put there. Putting a key again replaces its value and leaves it in its place.
-/

namespace LookupGen

abbrev Table (κ α : Type) := List (κ × α)

namespace Table

variable {κ α : Type} [DecidableEq κ]

def put (key : κ) (value : α) : Table κ α → Table κ α
  | [] => [(key, value)]
  | (k, v) :: rest => if k = key then (k, value) :: rest else (k, v) :: put key value rest

def keys (t : Table κ α) : List κ := t.map (·.1)

@[simp] theorem lookup_put_self [BEq κ] [LawfulBEq κ] (key : κ) (value : α) (t : Table κ α) :
    (put key value t).lookup key = some value := by
  induction t with
  | nil => simp [put]
  | cons e rest ih =>
    obtain ⟨k, v⟩ := e
    by_cases h : k = key
    · simp [put, h]
    · have : (key == k) = false := by simp [Ne.symm h]
      simp [put, h, List.lookup_cons, this, ih]

theorem lookup_put_of_ne [BEq κ] [LawfulBEq κ] {key other : κ} (h : other ≠ key) (value : α)
    (t : Table κ α) : (put key value t).lookup other = t.lookup other := by
  have hb : (other == key) = false := by simp [h]
  induction t with
  | nil => simp [put, List.lookup_cons, hb]
  | cons e rest ih =>
    obtain ⟨k, v⟩ := e
    by_cases hk : k = key
    · subst hk
      simp [put, List.lookup_cons, hb]
    · simp only [put, hk, if_false, List.lookup_cons]
      split <;> simp [ih]

theorem keys_put_of_mem {key : κ} {t : Table κ α} (h : key ∈ keys t) (value : α) :
    keys (put key value t) = keys t := by
  induction t with
  | nil => simp [keys] at h
  | cons e rest ih =>
    obtain ⟨k, v⟩ := e
    by_cases hk : k = key
    · simp [put, hk, keys]
    · have : key ∈ keys rest := by simpa [keys, Ne.symm hk] using h
      simp only [put, hk, if_false, keys, List.map_cons]
      exact congrArg _ (ih this)

theorem keys_put_of_not_mem {key : κ} {t : Table κ α} (h : key ∉ keys t) (value : α) :
    keys (put key value t) = keys t ++ [key] := by
  induction t with
  | nil => simp [put, keys]
  | cons e rest ih =>
    obtain ⟨k, v⟩ := e
    have hk : ¬k = key := fun hk => h (by simp [keys, hk])
    have hr : key ∉ keys rest := fun hr => h (by simp only [keys, List.map_cons]; exact .tail _ hr)
    simp only [put, hk, if_false, keys, List.map_cons, List.cons_append]
    exact congrArg _ (ih hr)

end Table

end LookupGen
