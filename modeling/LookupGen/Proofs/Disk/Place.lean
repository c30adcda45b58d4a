import LookupGen.Proofs.Disk.Tree

/-!
# Places of paths

The place of a path is the names that lead there from the root. It depends on the current directory
only. What a path leads to stands at its place, or its place is free in a directory.
-/

namespace LookupGen

namespace Path

/-- Names carried out on those of a directory. -/
def settleFrom (here names : List Text) : List Text :=
  names.foldl (fun done name => if name = up then done.dropLast else done ++ [name]) here

@[simp] theorem settleFrom_cons_up (here names : List Text) :
    settleFrom here (up :: names) = settleFrom here.dropLast names := by
  rw [settleFrom, List.foldl_cons, if_pos rfl]
  rfl

theorem settleFrom_cons_of_ne {name : Text} (h : name ≠ up) (here names : List Text) :
    settleFrom here (name :: names) = settleFrom (here ++ [name]) names := by
  rw [settleFrom, List.foldl_cons, if_neg h]
  rfl

theorem settle_append (names rest : List Text) :
    settle (names ++ rest) = settleFrom (settle names) rest := by
  unfold settle settleFrom
  exact List.foldl_append

end Path

namespace Disk

def placeOf (d : Disk) (p : Path) : List Text := (d.resolve p).names

def contentAt? (d : Disk) (names : List Text) : Option Bytes :=
  match d.root.kindAt? names with
  | some (.file content) => some content
  | _ => none

/-- The current directory is a directory, and its names have no `..` in them. -/
structure Sound (d : Disk) : Prop where
  current : d.root.kindAt? d.current = some .dir
  settled : Path.settle d.current = d.current

variable {d : Disk} {p : Path} {names : List Text}

theorem Sound.root (h : d.Sound) : d.root.kindAt? [] = some .dir := by
  have hcurrent := h.current
  cases hnames : d.current with
  | nil => rw [← hnames, hcurrent]
  | cons name names =>
    rw [hnames] at hcurrent
    exact @Node.kindAt?_above d.root [] names name .dir hcurrent

theorem placeOf_eq (h : d.Sound) (p : Path) :
    d.placeOf p = match p.anchor with
      | .relative => Path.settleFrom d.current p.names
      | _ => Path.settleFrom [] p.names := by
  unfold placeOf resolve Path.resolve
  cases p.anchor with
  | relative =>
    change Path.settle (d.current ++ p.names) = _
    rw [Path.settle_append, h.settled]
  | root | doubleRoot => rfl

/-- A place in a tree as it is: what is free lies in a directory. -/
inductive Stands (root : Node) : List Text → Place → Prop where
  | taken {names : List Text} {node : Node} (h : root.at? names = some node) :
      Stands root names (.taken names node)
  | free {above : List Text} {name : Text} (habove : root.kindAt? above = some .dir)
      (h : root.kindAt? (above ++ [name]) = none) :
      Stands root (above ++ [name]) (.free (above ++ [name]))

theorem stands_follow {root node : Node} {here rest : List Text} {place : Place}
    (hhere : root.at? here = some node) (h : follow root here node rest = .ok place) :
    Stands root (Path.settleFrom here rest) place := by
  induction rest generalizing here node with
  | nil =>
    rw [follow] at h
    obtain rfl := Except.ok.inj h
    exact .taken hhere
  | cons name rest ih =>
    cases node with
    | file content =>
      rw [follow] at h
      cases h
    | dir entries =>
      rw [follow] at h
      split at h
      · rename_i hup
        subst hup
        have habove := Node.isSome_at?_dropLast (Option.isSome_of_eq_some hhere)
        obtain ⟨above, habove⟩ := Option.isSome_iff_exists.mp habove
        rw [habove, Option.getD_some] at h
        rw [Path.settleFrom_cons_up]
        exact ih habove h
      · rename_i hup
        rw [Path.settleFrom_cons_of_ne hup]
        have hentry := Node.at?_child hhere name
        cases hlookup : entries.lookup name with
        | some child =>
          rw [hlookup] at h hentry
          exact ih hentry h
        | none =>
          rw [hlookup] at h hentry
          cases rest with
          | nil =>
            obtain rfl := Except.ok.inj h
            apply Stands.free
            · exact Node.kindAt?_of_at? hhere
            · rw [Node.kindAt?, hentry, Option.map_none]
          | cons n rest => cases h

theorem stands_locate (hd : d.Sound) {place : Place} (h : d.locate p = .ok place) :
    Stands d.root (d.placeOf p) place := by
  obtain ⟨entries, hcurrent⟩ := Node.at?_of_kindAt?_dir hd.current
  rw [placeOf_eq hd]
  unfold locate at h
  cases hanchor : p.anchor with
  | relative =>
    rw [hanchor, hcurrent] at h
    exact stands_follow hcurrent h
  | root | doubleRoot =>
    rw [hanchor] at h
    exact stands_follow (Node.at?_nil d.root) h

/-- A path that leads to some place leads to the file there when the directories on the way are
still the same or have more in them. -/
theorem follow_file {root root' node node' : Node} {here rest : List Text} {place : Place}
    {content : Bytes}
    (hdirs : ∀ names, root.kindAt? names = some .dir → root'.kindAt? names = some .dir)
    (hhere : root.at? here = some node) (hhere' : root'.at? here = some node')
    (h : follow root here node rest = .ok place)
    (hfile : root'.at? (Path.settleFrom here rest) = some (.file content)) :
    follow root' here node' rest = .ok (.taken (Path.settleFrom here rest) (.file content)) := by
  induction rest generalizing here node node' with
  | nil =>
    obtain rfl := Option.some.inj (hhere'.symm.trans hfile)
    rw [follow]
    rfl
  | cons name rest ih =>
    cases node with
    | file c =>
      rw [follow] at h
      cases h
    | dir entries =>
      obtain ⟨entries', hdir'⟩ :=
        Node.at?_of_kindAt?_dir (hdirs here (Node.kindAt?_of_at? hhere))
      obtain rfl := Option.some.inj (hhere'.symm.trans hdir')
      rw [follow] at h ⊢
      split at h
      · rename_i hup
        subst hup
        rw [Path.settleFrom_cons_up] at hfile ⊢
        have habove := Node.isSome_at?_dropLast (Option.isSome_of_eq_some hhere)
        have habove' := Node.isSome_at?_dropLast (Option.isSome_of_eq_some hhere')
        obtain ⟨above, habove⟩ := Option.isSome_iff_exists.mp habove
        obtain ⟨above', habove'⟩ := Option.isSome_iff_exists.mp habove'
        rw [habove, Option.getD_some] at h
        rw [habove', Option.getD_some]
        exact ih habove habove' h hfile
      · rename_i hup
        rw [Path.settleFrom_cons_of_ne hup] at hfile ⊢
        have hentry := Node.at?_child hhere name
        have hentry' := Node.at?_child hhere' name
        rw [if_neg hup]
        cases rest with
        | nil =>
          change root'.at? (here ++ [name]) = _ at hfile
          rw [← hentry', hfile]
          simp only
          rw [follow]
          rfl
        | cons n rest =>
          cases hlookup : entries.lookup name with
          | none =>
            rw [hlookup] at h
            cases h
          | some child =>
            rw [hlookup] at h hentry
            cases child with
            | file c =>
              simp only at h
              rw [follow] at h
              cases h
            | dir below =>
              obtain ⟨below', hbelow'⟩ :=
                Node.at?_of_kindAt?_dir (hdirs _ (Node.kindAt?_of_at? hentry))
              rw [← hentry', hbelow']
              exact ih hentry hbelow' h hfile

theorem exists_above {content : Bytes} (hd : d.Sound)
    (h : d.root.at? names = some (.file content)) :
    ∃ above name, names = above ++ [name] ∧ d.root.kindAt? above = some .dir := by
  have hkind := Node.kindAt?_of_at? h
  rcases List.eq_nil_or_concat names with rfl | ⟨above, name, rfl⟩
  · rw [hd.root] at hkind
    cases hkind
  · rw [List.concat_eq_append] at hkind
    exact ⟨above, name, List.concat_eq_append, Node.kindAt?_above hkind⟩

end Disk

end LookupGen
