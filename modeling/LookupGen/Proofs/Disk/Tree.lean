import LookupGen.Disk.Changes
import LookupGen.Proofs.Table

/-!
# Trees of files

What stands where in a tree, by the names that lead there, and what becomes of it when a node is
put into a directory or erased: it stands where it is put, nothing is left where it is erased, and
beside it nothing changes.
-/

namespace LookupGen

namespace Node

inductive Kind where
  | dir
  | file (content : Bytes)
  deriving DecidableEq

variable {tree new : Node} {above names other : List Text} {name : Text} {k : Kind}

def kind : Node → Kind
  | dir _ => .dir
  | file content => .file content

def kindAt? (tree : Node) (names : List Text) : Option Kind := (tree.at? names).map kind

@[simp] theorem at?_nil (tree : Node) : tree.at? [] = some tree := by
  unfold at?
  rfl

theorem at?_cons (tree : Node) (name : Text) (names : List Text) :
    tree.at? (name :: names) = (tree.entry? name).bind (·.at? names) := by
  rw [at?]
  cases tree.entry? name with
  | none => rfl
  | some child => rfl

theorem at?_append (tree : Node) (names rest : List Text) :
    tree.at? (names ++ rest) = (tree.at? names).bind (·.at? rest) := by
  induction names generalizing tree with
  | nil => simp
  | cons name names ih =>
    rw [List.cons_append, at?_cons, at?_cons]
    cases tree.entry? name with
    | none => rfl
    | some child => exact ih child

theorem at?_child {entries : List (Text × Node)} (h : tree.at? above = some (dir entries))
    (name : Text) : tree.at? (above ++ [name]) = entries.lookup name := by
  rw [at?_append, h, Option.bind_some, at?_cons, entry?]
  cases entries.lookup name with
  | none => rfl
  | some child => exact at?_nil child

@[simp] theorem kindAt?_nil (tree : Node) : tree.kindAt? [] = some tree.kind := by
  rw [kindAt?, at?_nil, Option.map_some]

theorem kindAt?_cons (entries : List (Text × Node)) (name : Text) (names : List Text) :
    (dir entries).kindAt? (name :: names) =
      (entries.lookup name).bind fun child => child.kindAt? names := by
  rw [kindAt?, at?_cons, entry?]
  cases entries.lookup name with
  | none => rfl
  | some child => rfl

theorem kindAt?_of_at? {node : Node} (h : tree.at? names = some node) :
    tree.kindAt? names = some node.kind := by
  rw [kindAt?, h, Option.map_some]

theorem at?_of_kindAt?_dir (h : tree.kindAt? names = some .dir) :
    ∃ entries, tree.at? names = some (dir entries) := by
  obtain ⟨node, hnode, hkind⟩ := Option.map_eq_some_iff.mp h
  cases node with
  | file content => cases hkind
  | dir entries => exact ⟨entries, hnode⟩

theorem at?_of_kindAt?_file {content : Bytes} (h : tree.kindAt? names = some (.file content)) :
    tree.at? names = some (file content) := by
  obtain ⟨node, hnode, hkind⟩ := Option.map_eq_some_iff.mp h
  cases node with
  | dir entries => cases hkind
  | file c =>
    obtain rfl := Kind.file.inj hkind
    exact hnode

theorem kindAt?_above (h : tree.kindAt? (above ++ name :: names) = some k) :
    tree.kindAt? above = some .dir := by
  rw [kindAt?, at?_append] at h
  cases habove : tree.at? above with
  | none =>
    rw [habove] at h
    cases h
  | some node =>
    rw [kindAt?_of_at? habove]
    cases node with
    | dir entries => rfl
    | file content =>
      rw [habove, Option.bind_some, at?_cons] at h
      cases h

theorem kindAt?_below (h : tree.kindAt? above ≠ some .dir) (name : Text) (names : List Text) :
    tree.kindAt? (above ++ name :: names) = none := by
  apply Option.eq_none_iff_forall_ne_some.mpr
  intro k hk
  exact h (kindAt?_above hk)

theorem isSome_at?_dropLast (h : (tree.at? names).isSome) : (tree.at? names.dropLast).isSome := by
  rcases List.eq_nil_or_concat names with rfl | ⟨above, name, rfl⟩
  · exact h
  · rw [List.concat_eq_append, List.dropLast_concat]
    rw [List.concat_eq_append, at?_append] at h
    exact Option.isSome_of_isSome_bind h

theorem exists_entries (h : tree.kindAt? [] = some .dir) : ∃ entries, tree = dir entries := by
  cases tree with
  | dir entries => exact ⟨entries, rfl⟩
  | file content =>
    rw [kindAt?_nil] at h
    cases h

theorem exists_child (h : tree.kindAt? (name :: names) = some k) :
    ∃ entries child, tree = dir entries ∧ entries.lookup name = some child ∧
      child.kindAt? names = some k := by
  obtain ⟨entries, rfl⟩ := exists_entries (@kindAt?_above tree [] names name k h)
  rw [kindAt?_cons] at h
  obtain ⟨child, hlookup, hchild⟩ := Option.bind_eq_some_iff.mp h
  exact ⟨entries, child, rfl, hlookup, hchild⟩

/-- Where names lead to a directory they lead there from one. -/
theorem exists_entries_of_dir (h : tree.kindAt? names = some .dir) :
    ∃ entries, tree = dir entries := by
  cases names with
  | nil => exact exists_entries h
  | cons name names =>
    obtain ⟨entries, _, hdir, -, -⟩ := exists_child h
    exact ⟨entries, hdir⟩

@[simp] theorem put_nil : tree.put [] new = new := by
  unfold put
  rfl

theorem put_cons (entries : List (Text × Node)) (name : Text) (names : List Text) (new : Node) :
    (dir entries).put (name :: names) new =
      dir (Table.put name (((entries.lookup name).getD emptyDir).put names new) entries) := by
  rw [put]

theorem exists_put_concat (entries : List (Text × Node)) (above : List Text) (name : Text)
    (new : Node) : ∃ entries', (dir entries).put (above ++ [name]) new = dir entries' := by
  cases above with
  | nil => exact ⟨_, put_cons entries name [] new⟩
  | cons first rest => exact ⟨_, put_cons entries first (rest ++ [name]) new⟩

theorem kindAt?_put_cons_self (entries : List (Text × Node)) (name : Text)
    (names rest : List Text) (new : Node) :
    ((dir entries).put (name :: names) new).kindAt? (name :: rest) =
      (((entries.lookup name).getD emptyDir).put names new).kindAt? rest := by
  rw [put_cons, kindAt?_cons, Table.lookup_put_self, Option.bind_some]

theorem kindAt?_put_cons_of_ne {entries : List (Text × Node)} {n : Text} (h : n ≠ name)
    (rest : List Text) :
    ((dir entries).put (name :: names) new).kindAt? (n :: rest) =
      (dir entries).kindAt? (n :: rest) := by
  rw [put_cons, kindAt?_cons, kindAt?_cons, Table.lookup_put_of_ne h]

theorem kindAt?_put_append (h : tree.kindAt? above = some .dir) (rest : List Text) :
    (tree.put (above ++ [name]) new).kindAt? (above ++ name :: rest) = new.kindAt? rest := by
  induction above generalizing tree with
  | nil =>
    obtain ⟨entries, rfl⟩ := exists_entries h
    rw [List.nil_append, List.nil_append, kindAt?_put_cons_self, put_nil]
  | cons first above ih =>
    obtain ⟨entries, child, rfl, hlookup, hchild⟩ := exists_child h
    rw [List.cons_append, List.cons_append, kindAt?_put_cons_self, hlookup, Option.getD_some]
    exact ih hchild

theorem kindAt?_put_of_not_prefix (h : tree.kindAt? above = some .dir)
    (hother : ¬ above ++ [name] <+: other) :
    (tree.put (above ++ [name]) new).kindAt? other = tree.kindAt? other := by
  induction above generalizing tree other with
  | nil =>
    obtain ⟨entries, rfl⟩ := exists_entries h
    cases other with
    | nil => rw [List.nil_append, put_cons, kindAt?_nil, kindAt?_nil, kind, kind]
    | cons n rest =>
      apply kindAt?_put_cons_of_ne
      rintro rfl
      exact hother (List.prefix_append [n] rest)
  | cons first above ih =>
    obtain ⟨entries, child, rfl, hlookup, hchild⟩ := exists_child h
    cases other with
    | nil => rw [List.cons_append, put_cons, kindAt?_nil, kindAt?_nil, kind, kind]
    | cons n rest =>
      rw [List.cons_append]
      by_cases hn : n = first
      · subst hn
        rw [kindAt?_put_cons_self, kindAt?_cons, hlookup, Option.getD_some, Option.bind_some]
        apply ih hchild
        intro hprefix
        exact hother (List.cons_prefix_cons.mpr ⟨rfl, hprefix⟩)
      · exact kindAt?_put_cons_of_ne hn rest

theorem erase_file (content : Bytes) : (file content).erase (above ++ [name]) = file content := by
  cases above with
  | nil => rfl
  | cons first above => rw [List.cons_append, erase]

theorem erase_singleton (entries : List (Text × Node)) (name : Text) :
    (dir entries).erase [name] = dir (entries.filter fun e => decide (e.1 ≠ name)) := by
  rw [erase]

theorem erase_cons {entries : List (Text × Node)} {first : Text} {child : Node}
    (h : entries.lookup first = some child) :
    (dir entries).erase (first :: (above ++ [name])) =
      dir (Table.put first (child.erase (above ++ [name])) entries) := by
  rw [erase, h]
  simp

theorem erase_cons_of_none {entries : List (Text × Node)} {first : Text}
    (h : entries.lookup first = none) :
    (dir entries).erase (first :: (above ++ [name])) = dir entries := by
  rw [erase, h]
  simp

theorem kindAt?_erase_self (tree : Node) :
    (tree.erase (above ++ [name])).kindAt? (above ++ [name]) = none := by
  induction above generalizing tree with
  | nil =>
    cases tree with
    | file content => rfl
    | dir entries =>
      rw [List.nil_append, erase_singleton, kindAt?_cons, Table.lookup_filter_self,
        Option.bind_none]
  | cons first above ih =>
    cases tree with
    | file content =>
      rw [erase_file, kindAt?, List.cons_append, at?_cons]
      rfl
    | dir entries =>
      rw [List.cons_append]
      cases hlookup : entries.lookup first with
      | none => rw [erase_cons_of_none hlookup, kindAt?_cons, hlookup, Option.bind_none]
      | some child =>
        rw [erase_cons hlookup, kindAt?_cons, Table.lookup_put_self, Option.bind_some]
        exact ih child

theorem kindAt?_erase_of_not_prefix (hother : ¬ above ++ [name] <+: other) :
    (tree.erase (above ++ [name])).kindAt? other = tree.kindAt? other := by
  induction above generalizing tree other with
  | nil =>
    cases tree with
    | file content => rfl
    | dir entries =>
      rw [List.nil_append, erase_singleton]
      cases other with
      | nil => rw [kindAt?_nil, kindAt?_nil, kind, kind]
      | cons n rest =>
        have hn : n ≠ name := by
          rintro rfl
          exact hother (List.prefix_append [n] rest)
        rw [kindAt?_cons, kindAt?_cons, Table.lookup_filter_of_ne hn]
  | cons first above ih =>
    cases tree with
    | file content => rw [erase_file]
    | dir entries =>
      rw [List.cons_append]
      cases hlookup : entries.lookup first with
      | none => rw [erase_cons_of_none hlookup]
      | some child =>
        rw [erase_cons hlookup]
        cases other with
        | nil => rw [kindAt?_nil, kindAt?_nil, kind, kind]
        | cons n rest =>
          rw [kindAt?_cons, kindAt?_cons]
          by_cases hn : n = first
          · subst hn
            rw [Table.lookup_put_self, hlookup, Option.bind_some, Option.bind_some]
            apply ih
            intro hprefix
            exact hother (List.cons_prefix_cons.mpr ⟨rfl, hprefix⟩)
          · rw [Table.lookup_put_of_ne hn]

end Node

end LookupGen
