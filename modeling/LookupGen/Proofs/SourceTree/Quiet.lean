import LookupGen.Proofs.Disk.Settled
import LookupGen.SourceTree

/-!
# Searches beside a new node

A search finds the same in a directory into which a node is put, if the node is an empty directory
or a file that is no source by its name, or if the search does not come to it.
-/

namespace LookupGen

namespace Node

variable {tree new node : Node} {above rest other : List Text} {name : Text}

theorem at?_put_append (h : tree.at? above = some node)
    (hrest : tree.kindAt? (above ++ rest) = some .dir) (name : Text) (new : Node) :
    (tree.put (above ++ rest ++ [name]) new).at? above = some (node.put (rest ++ [name]) new) := by
  induction above generalizing tree with
  | nil =>
    rw [at?_nil] at h
    rw [List.nil_append, at?_nil, Option.some.inj h]
  | cons first above ih =>
    obtain ⟨entries, child, rfl, hlookup, hchild⟩ := exists_child hrest
    rw [at?_cons, entry?, hlookup, Option.bind_some] at h
    rw [List.cons_append, List.cons_append, put_cons, at?_cons, entry?, Table.lookup_put_self,
      Option.bind_some, hlookup, Option.getD_some]
    exact ih h hchild

theorem at?_put_of_not_prefix (habove : tree.kindAt? above = some .dir)
    (hbelow : ¬ other <+: above ++ [name]) (hbeside : ¬ above ++ [name] <+: other) :
    (tree.put (above ++ [name]) new).at? other = tree.at? other := by
  induction above generalizing tree other with
  | nil =>
    obtain ⟨entries, rfl⟩ := exists_entries habove
    cases other with
    | nil => exact absurd List.nil_prefix hbelow
    | cons n others =>
      have hn : n ≠ name := by
        rintro rfl
        exact hbeside (List.prefix_append [n] others)
      rw [List.nil_append, put_cons, at?_cons, at?_cons, entry?, entry?, Table.lookup_put_of_ne hn]
  | cons first above ih =>
    obtain ⟨entries, child, rfl, hlookup, hchild⟩ := exists_child habove
    cases other with
    | nil => exact absurd List.nil_prefix hbelow
    | cons n others =>
      rw [List.cons_append, put_cons, at?_cons, at?_cons, entry?, entry?]
      by_cases hn : n = first
      · subst hn
        rw [Table.lookup_put_self, hlookup, Option.getD_some, Option.bind_some, Option.bind_some]
        apply ih hchild
        · intro hprefix
          exact hbelow (List.cons_prefix_cons.mpr ⟨rfl, hprefix⟩)
        · intro hprefix
          exact hbeside (List.cons_prefix_cons.mpr ⟨rfl, hprefix⟩)
      · rw [Table.lookup_put_of_ne hn]

end Node

namespace SourceTree

variable {s : SourceTree} {here : Path} {entries : List (Text × Node)} {name : Text}
  {above : List Text} {new : Node}

def contribution (s : SourceTree) (here : Path) (name : Text) (child : Node) : List Path :=
  if child.isDir && s.skips (here.child name) then [] else sourcesAt s (here.child name) child

theorem sourcesIn_nil (s : SourceTree) (here : Path) : sourcesIn s here [] = [] := by
  rw [sourcesIn]

theorem sourcesIn_cons (s : SourceTree) (here : Path) (name : Text) (child : Node)
    (rest : List (Text × Node)) :
    sourcesIn s here ((name, child) :: rest) =
      contribution s here name child ++ sourcesIn s here rest := by
  rw [sourcesIn]
  rfl

theorem sourcesAt_dir (s : SourceTree) (here : Path) (entries : List (Text × Node)) :
    sourcesAt s here (.dir entries) = sourcesIn s here entries := by
  rw [sourcesAt]

theorem sourcesAt_file (s : SourceTree) (here : Path) (content : Bytes) :
    sourcesAt s here (.file content) = if s.takes here then [here] else [] := by
  rw [sourcesAt]

theorem contribution_of_skips (h : s.skips (here.child name) = true)
    (entries : List (Text × Node)) : contribution s here name (.dir entries) = [] := by
  rw [contribution, h]
  rfl

theorem sourcesIn_put {child : Node}
    (h : contribution s here name child =
      ((entries.lookup name).map (contribution s here name)).getD []) :
    sourcesIn s here (Table.put name child entries) = sourcesIn s here entries := by
  induction entries with
  | nil =>
    rw [List.lookup_nil] at h
    rw [Table.put, sourcesIn_cons, h, sourcesIn_nil]
    rfl
  | cons e rest ih =>
    obtain ⟨key, old⟩ := e
    rw [Table.put]
    by_cases hkey : key = name
    · subst hkey
      rw [List.lookup_cons_self] at h
      rw [if_pos rfl, sourcesIn_cons, sourcesIn_cons, h]
      rfl
    · have hne : (name == key) = false := beq_false_of_ne (Ne.symm hkey)
      rw [List.lookup_cons, hne] at h
      rw [if_neg hkey, sourcesIn_cons, sourcesIn_cons, ih h]

def IsSource (names : List Text) : Prop :=
  ∃ last, names.getLast? = some last ∧ Text.endsWith last sourceSuffix = true

/-- A file below `here` that no search finds: it is no source by its name, or it lies below the
directory that is not entered. -/
def Unseen (s : SourceTree) (here : Path) (below : List Text) : Prop :=
  ¬ IsSource below ∨
  ∃ first rest, below = first ++ rest ∧ first ≠ [] ∧ rest ≠ [] ∧
    s.outputDir = some ⟨here.anchor, here.names ++ first⟩

/-- What may be put below `here`: a directory where nothing stands, and a file that no search finds
where no directory stands. -/
inductive Quiet (s : SourceTree) (here : Path) (root : Node) (below : List Text) : Node → Prop where
  | dir (hfree : root.kindAt? below = none) : Quiet s here root below .emptyDir
  | file (content : Bytes) (hplace : root.kindAt? below ≠ some .dir)
      (hunseen : Unseen s here below) : Quiet s here root below (.file content)

theorem contribution_emptyDir (s : SourceTree) (here : Path) (name : Text) :
    contribution s here name .emptyDir = [] := by
  rw [contribution, Node.emptyDir, sourcesAt_dir, sourcesIn_nil, ite_self]

theorem contribution_unseen (hunseen : Unseen s here [name]) (content : Bytes) :
    contribution s here name (.file content) = [] := by
  rcases hunseen with hsource | ⟨first, rest, hsplit, hfirst, hrest, -⟩
  · have hsuffix : Text.endsWith name sourceSuffix = false := by
      rw [Bool.eq_false_iff]
      exact fun hsuffix => hsource ⟨name, List.getLast?_singleton, hsuffix⟩
    have hchild : (here.child name).name = name := by
      rw [Path.child, Path.name, List.getLast?_concat]
      rfl
    have htakes : s.takes (here.child name) = false := by
      rw [takes, hchild, hsuffix, Bool.false_and]
    rw [contribution, sourcesAt_file, htakes]
    rfl
  · exfalso
    have hlength := congrArg List.length hsplit
    rw [List.length_append, List.length_singleton] at hlength
    have hfirst := List.length_pos_of_ne_nil hfirst
    have hrest := List.length_pos_of_ne_nil hrest
    omega

theorem Unseen.below_child {first : Text} {below : List Text} (hbelow : below ≠ [])
    (h : Unseen s here (first :: below)) (hskips : s.skips (here.child first) = false) :
    Unseen s (here.child first) below := by
  rcases h with hsource | ⟨begin, rest, hsplit, hbegin, hrest, hout⟩
  · left
    obtain ⟨name, names, rfl⟩ := List.exists_cons_of_ne_nil hbelow
    unfold IsSource at hsource ⊢
    rwa [List.getLast?_cons_cons] at hsource
  · right
    obtain ⟨name, more, rfl⟩ := List.exists_cons_of_ne_nil hbegin
    obtain ⟨rfl, rfl⟩ := List.cons.inj hsplit
    cases more with
    | nil =>
      exfalso
      have hskip : s.skips (here.child first) = true := by
        rw [skips, hout]
        simp [Path.child]
      rw [hskips] at hskip
      cases hskip
    | cons n more =>
      refine ⟨n :: more, rest, rfl, List.cons_ne_nil n more, hrest, ?_⟩
      rw [hout, Path.child, List.append_assoc]
      rfl

/-- What is put beside the entries of a directory contributes what stood in its place. -/
theorem Quiet.contribution_eq (h : Quiet s here (.dir entries) [name] new) :
    contribution s here name new =
      ((entries.lookup name).map (contribution s here name)).getD [] := by
  cases h with
  | dir hfree =>
    rw [Node.kindAt?_cons] at hfree
    rw [contribution_emptyDir]
    cases hlookup : entries.lookup name with
    | none => rfl
    | some old =>
      rw [hlookup, Option.bind_some, Node.kindAt?_nil] at hfree
      cases hfree
  | file content hplace hunseen =>
    rw [contribution_unseen hunseen]
    cases hlookup : entries.lookup name with
    | none => rfl
    | some old =>
      cases old with
      | file before => exact (contribution_unseen hunseen before).symm
      | dir below =>
        rw [Node.kindAt?_cons, hlookup, Option.bind_some, Node.kindAt?_nil] at hplace
        exact absurd rfl hplace

theorem Quiet.below_child {first : Text} {child : Node} {below : List Text}
    (h : Quiet s here (.dir entries) (first :: below) new)
    (hlookup : entries.lookup first = some child) (hbelow : below ≠ [])
    (hskips : s.skips (here.child first) = false) :
    Quiet s (here.child first) child below new := by
  have hkind : (Node.dir entries).kindAt? (first :: below) = child.kindAt? below := by
    rw [Node.kindAt?_cons, hlookup, Option.bind_some]
  cases h with
  | dir hfree => exact .dir (hkind ▸ hfree)
  | file content hplace hunseen =>
    exact .file content (hkind ▸ hplace) (hunseen.below_child hbelow hskips)

theorem sourcesAt_put (habove : (Node.dir entries).kindAt? above = some .dir)
    (hquiet : Quiet s here (.dir entries) (above ++ [name]) new) :
    sourcesAt s here ((Node.dir entries).put (above ++ [name]) new) =
      sourcesAt s here (.dir entries) := by
  -- By induction on the names of the directory into which a node is put: the search enters the
  -- same child as before, or none.
  induction above generalizing here entries with
  | nil =>
    rw [List.nil_append] at hquiet ⊢
    rw [Node.put_cons, Node.put_nil, sourcesAt_dir, sourcesAt_dir]
    exact sourcesIn_put hquiet.contribution_eq
  | cons first above ih =>
    obtain ⟨entries', child, heq, hlookup, hchild⟩ := Node.exists_child habove
    obtain rfl := Node.dir.inj heq
    obtain ⟨below, rfl⟩ := Node.exists_entries_of_dir hchild
    rw [List.cons_append, Node.put_cons, sourcesAt_dir, sourcesAt_dir, hlookup, Option.getD_some]
    apply sourcesIn_put
    rw [hlookup, Option.map_some, Option.getD_some]
    obtain ⟨below', hbelow'⟩ := Node.exists_put_concat below above name new
    cases hskips : s.skips (here.child first) with
    | true => rw [hbelow', contribution_of_skips hskips, contribution_of_skips hskips]
    | false =>
      have hne : above ++ [name] ≠ [] :=
        List.append_ne_nil_of_right_ne_nil _ (List.cons_ne_nil _ _)
      rw [contribution, contribution, hskips, Bool.and_false, Bool.and_false]
      exact ih hchild (hquiet.below_child hlookup hne hskips)

end SourceTree

end LookupGen
