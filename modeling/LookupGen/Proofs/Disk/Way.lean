import LookupGen.Proofs.Disk.Frame
import Mathlib.Data.List.Induction

/-!
# The way to a place

Where a path leads is settled by two things: whether the directories on its way are there, and what
stands at its place. Both are told by what stands where in the tree. Every operation on a path is
stated again in these terms.
-/

namespace LookupGen

namespace Disk

variable {d : Disk} {p : Path} {anchor : Anchor} {names : List Text} {name : Text}

def kindOf? (d : Disk) (p : Path) : Option Node.Kind := d.root.kindAt? (d.placeOf p)

/-- Whether a way can be gone: from every name but the last one a directory leads on. The names come
from the last one to the first. -/
def wayTo (d : Disk) (anchor : Anchor) : List Text → Except DiskFault Unit
  | [] => .ok ()
  | _ :: above =>
    match d.wayTo anchor above with
    | .error fault => .error fault
    | .ok () =>
      match d.kindOf? ⟨anchor, above.reverse⟩ with
      | some .dir => .ok ()
      | some (.file _) => .error .notDirectory
      | none => .error .missing

def way (d : Disk) (p : Path) : Except DiskFault Unit := d.wayTo p.anchor p.names.reverse

@[simp] theorem way_nil (d : Disk) (anchor : Anchor) : d.way ⟨anchor, []⟩ = .ok () := rfl

theorem way_append (d : Disk) (anchor : Anchor) (names : List Text) (name : Text) :
    d.way ⟨anchor, names ++ [name]⟩ = match d.way ⟨anchor, names⟩ with
      | .error fault => .error fault
      | .ok () => match d.kindOf? ⟨anchor, names⟩ with
        | some .dir => .ok ()
        | some (.file _) => .error .notDirectory
        | none => .error .missing := by
  unfold way
  simp only [List.reverse_append, List.reverse_singleton, List.singleton_append]
  rw [wayTo, List.reverse_reverse]

theorem placeOf_append_up (d : Disk) (anchor : Anchor) (names : List Text) :
    d.placeOf ⟨anchor, names ++ [Path.up]⟩ = (d.placeOf ⟨anchor, names⟩).dropLast := by
  have hstep (names : List Text) : Path.settle (names ++ [Path.up]) =
      (Path.settle names).dropLast := by
    rw [Path.settle_append, Path.settleFrom_cons_up]
    rfl
  unfold placeOf resolve Path.resolve
  cases anchor with
  | relative =>
    simp only
    rw [← List.append_assoc, hstep]
  | root | doubleRoot => exact hstep names

theorem placeOf_append_of_ne (h : name ≠ Path.up) (d : Disk) (anchor : Anchor) (names : List Text) :
    d.placeOf ⟨anchor, names ++ [name]⟩ = d.placeOf ⟨anchor, names⟩ ++ [name] := by
  have hstep (names : List Text) : Path.settle (names ++ [name]) = Path.settle names ++ [name] := by
    rw [Path.settle_append, Path.settleFrom_cons_of_ne h]
    rfl
  unfold placeOf resolve Path.resolve
  cases anchor with
  | relative =>
    simp only
    rw [← List.append_assoc, hstep]
  | root | doubleRoot => exact hstep names

theorem follow_append {root : Node} (here : List Text) (node : Node) (names : List Text)
    (name : Text) :
    follow root here node (names ++ [name]) = match follow root here node names with
      | .error fault => .error fault
      | .ok (.free _) => .error .missing
      | .ok (.taken here node) => follow root here node [name] := by
  induction names generalizing here node with
  | nil =>
    rw [List.nil_append, follow.eq_1]
  | cons first rest ih =>
    cases node with
    | file content => rw [List.cons_append, follow, follow]
    | dir entries =>
      rw [List.cons_append, follow.eq_3, follow.eq_3]
      by_cases hup : first = Path.up
      · rw [if_pos hup, if_pos hup, ih]
      · rw [if_neg hup, if_neg hup]
        cases entries.lookup first with
        | some child => exact ih _ _
        | none =>
          cases rest with
          | nil => rfl
          | cons n rest => rfl

theorem locate_append (anchor : Anchor) (names : List Text) (name : Text) :
    d.locate ⟨anchor, names ++ [name]⟩ = match d.locate ⟨anchor, names⟩ with
      | .error fault => .error fault
      | .ok (.free _) => .error .missing
      | .ok (.taken here node) => follow d.root here node [name] := by
  unfold locate
  cases anchor with
  | relative | root | doubleRoot => exact follow_append _ _ _ _

/-- A place, free where nothing stands. -/
def placeAt (d : Disk) (names : List Text) : Place :=
  match d.root.at? names with
  | some node => .taken names node
  | none => .free names

theorem placeOf_nil (hd : d.Sound) (anchor : Anchor) :
    d.placeOf ⟨anchor, []⟩ = match anchor with
      | .relative => d.current
      | _ => [] := by
  rw [placeOf_eq hd]
  rfl

theorem kindOf?_nil (hd : d.Sound) (anchor : Anchor) : d.kindOf? ⟨anchor, []⟩ = some .dir := by
  unfold kindOf?
  rw [placeOf_nil hd]
  cases anchor with
  | relative => exact hd.current
  | root | doubleRoot => exact hd.root

theorem follow_singleton {here : List Text} {entries : List (Text × Node)}
    (h : d.root.at? here = some (.dir entries)) (name : Text) :
    follow d.root here (.dir entries) [name] =
      .ok (d.placeAt (if name = Path.up then here.dropLast else here ++ [name])) := by
  unfold placeAt
  rw [follow.eq_3]
  by_cases hup : name = Path.up
  · have habove := Node.isSome_at?_dropLast (Option.isSome_of_eq_some h)
    obtain ⟨node, hnode⟩ := Option.isSome_iff_exists.mp habove
    rw [if_pos hup, if_pos hup, hnode, follow]
    rfl
  · rw [if_neg hup, if_neg hup, Node.at?_child h]
    cases entries.lookup name with
    | some child => exact follow.eq_1 d.root (here ++ [name]) child
    | none => rfl

theorem placeOf_append (d : Disk) (anchor : Anchor) (names : List Text) (name : Text) :
    d.placeOf ⟨anchor, names ++ [name]⟩ =
      if name = Path.up then (d.placeOf ⟨anchor, names⟩).dropLast
      else d.placeOf ⟨anchor, names⟩ ++ [name] := by
  by_cases hup : name = Path.up
  · rw [if_pos hup, hup, placeOf_append_up]
  · rw [if_neg hup, placeOf_append_of_ne hup]

theorem locate_eq (hd : d.Sound) (p : Path) :
    d.locate p = (d.way p).map fun _ => d.placeAt (d.placeOf p) := by
  obtain ⟨anchor, names⟩ := p
  induction names using List.reverseRecOn with
  | nil =>
    obtain ⟨entries, hentries⟩ := Node.at?_of_kindAt?_dir (kindOf?_nil hd anchor)
    have hplace : d.placeAt (d.placeOf ⟨anchor, []⟩) =
        .taken (d.placeOf ⟨anchor, []⟩) (.dir entries) := by
      unfold placeAt
      rw [hentries]
    rw [way_nil, hplace]
    rw [placeOf_nil hd] at hentries ⊢
    unfold locate
    cases anchor with
    | relative =>
      simp only at hentries ⊢
      rw [hentries, follow]
      rfl
    | root | doubleRoot =>
      have hroot : d.root = .dir entries :=
        Option.some.inj ((Node.at?_nil d.root).symm.trans hentries)
      simp only
      rw [follow, hroot]
      rfl
  | append_singleton names name ih =>
    rw [locate_append, ih, way_append, kindOf?]
    cases d.way ⟨anchor, names⟩ with
    | error fault => rfl
    | ok u =>
      simp only [Except.map, placeAt]
      cases hat : d.root.at? (d.placeOf ⟨anchor, names⟩) with
      | none =>
        have hkind : d.root.kindAt? (d.placeOf ⟨anchor, names⟩) = none := by
          rw [Node.kindAt?, hat, Option.map_none]
        rw [hkind]
      | some node =>
        rw [Node.kindAt?_of_at? hat]
        cases node with
        | file content => rfl
        | dir entries =>
          simp only [Node.kind]
          rw [follow_singleton hat, placeOf_append]
          rfl

theorem read_eq (hd : d.Sound) (p : Path) :
    d.read p = match d.way p with
      | .error fault => .error ⟨fault, p.toText⟩
      | .ok () => match d.kindOf? p with
        | some (.file content) => .ok content
        | some .dir => .error ⟨.isDirectory, p.toText⟩
        | none => .error ⟨.missing, p.toText⟩ := by
  unfold read kindOf?
  rw [locate_eq hd]
  cases d.way p with
  | error fault => rfl
  | ok u =>
    simp only [Except.map, placeAt, Node.kindAt?]
    cases d.root.at? (d.placeOf p) with
    | none => rfl
    | some node => cases node <;> rfl

theorem node?_eq (hd : d.Sound) (p : Path) :
    d.node? p = match d.way p with
      | .error _ => none
      | .ok () => d.root.at? (d.placeOf p) := by
  unfold node?
  rw [locate_eq hd]
  cases d.way p with
  | error fault => rfl
  | ok u =>
    simp only [Except.map, placeAt]
    cases d.root.at? (d.placeOf p) with
    | none => rfl
    | some node => rfl

theorem run_makeDir_eq (hd : d.Sound) (p : Path) :
    (makeDir p).run d = match d.way p with
      | .error fault => (.error ⟨fault, p.toText⟩, d)
      | .ok () => match d.kindOf? p with
        | some _ => (.error ⟨.exists, p.toText⟩, d)
        | none => (.ok (), d.put (d.placeOf p) .emptyDir) := by
  unfold kindOf?
  rw [run_makeDir, locate_eq hd]
  cases d.way p with
  | error fault => rfl
  | ok u =>
    simp only [Except.map, placeAt, Node.kindAt?]
    cases d.root.at? (d.placeOf p) with
    | none => rfl
    | some node => rfl

theorem run_target_way (hd : d.Sound) (p : Path) :
    (target p).run d = (match d.way p with
      | .error fault => .error ⟨fault, p.toText⟩
      | .ok () => match d.kindOf? p with
        | some (.file content) => .ok (d.placeOf p, content)
        | some .dir => .error ⟨.isDirectory, p.toText⟩
        | none => .ok (d.placeOf p, []), d) := by
  unfold kindOf?
  rw [run_target_eq, locate_eq hd]
  cases d.way p with
  | error fault => rfl
  | ok u =>
    simp only [Except.map, placeAt, Node.kindAt?]
    cases d.root.at? (d.placeOf p) with
    | none => rfl
    | some node => cases node <;> rfl

end Disk

end LookupGen
