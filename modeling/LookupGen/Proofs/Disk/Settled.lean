import LookupGen.Proofs.Disk.Reopening
import LookupGen.Proofs.Sink
import LookupGen.Proofs.Table

/-!
# Settled paths

A path from the root without `..` leads to the node at its names, so what is read there is told by
what stands there. Every path that is resolved is one of these, and resolving it once more changes
nothing.
-/

namespace LookupGen

namespace Path

theorem up_not_mem_settleFrom {here names : List Text} (h : up ∉ here) :
    up ∉ settleFrom here names := by
  induction names generalizing here with
  | nil => exact h
  | cons name rest ih =>
    by_cases hname : name = up
    · rw [hname, settleFrom_cons_up]
      exact ih fun hmem => h (List.dropLast_subset _ hmem)
    · rw [settleFrom_cons_of_ne hname]
      apply ih
      intro hmem
      rcases List.mem_append.mp hmem with hmem | hmem
      · exact h hmem
      · exact hname (List.mem_singleton.mp hmem).symm

theorem up_not_mem_settle (names : List Text) : up ∉ settle names :=
  up_not_mem_settleFrom List.not_mem_nil

theorem settle_of_not_mem {names : List Text} (h : up ∉ names) : settle names = names :=
  settleFrom_of_not_mem h []

/-- A path from the root that does not go up. -/
structure Settled (p : Path) : Prop where
  anchor : p.anchor = .root
  names : up ∉ p.names

theorem Settled.eq {p : Path} (h : p.Settled) : p = ⟨.root, p.names⟩ := by
  rw [← h.anchor]

theorem Settled.child {p : Path} (h : p.Settled) {name : Text} (hname : name ≠ up) :
    (p.child name).Settled := by
  refine ⟨h.anchor, ?_⟩
  intro hmem
  rcases List.mem_append.mp hmem with hmem | hmem
  · exact h.names hmem
  · exact hname (List.mem_singleton.mp hmem).symm

theorem Settled.parent {p : Path} (h : p.Settled) : p.parent.Settled :=
  ⟨h.anchor, fun hmem => h.names (List.dropLast_subset _ hmem)⟩

end Path

namespace Disk

variable {files : List Text → Prop} {d d' : Disk} {p : Path}

theorem resolve_eq (d : Disk) (p : Path) : d.resolve p = ⟨.root, d.placeOf p⟩ := by
  unfold placeOf resolve Path.resolve
  cases p.anchor with
  | relative | root | doubleRoot => rfl

theorem settled_resolve (d : Disk) (p : Path) : (d.resolve p).Settled := by
  unfold resolve Path.resolve
  cases p.anchor with
  | relative | root | doubleRoot => exact ⟨rfl, Path.up_not_mem_settle _⟩

theorem placeOf_settled (d : Disk) (h : p.Settled) : d.placeOf p = p.names := by
  unfold placeOf resolve Path.resolve
  rw [h.anchor]
  exact Path.settle_of_not_mem h.names

theorem resolve_settled (d : Disk) (h : p.Settled) : d.resolve p = p := by
  rw [resolve_eq, placeOf_settled d h]
  exact h.eq.symm

theorem Grows.resolve_eq (h : Grows files d d') (p : Path) : d'.resolve p = d.resolve p := by
  rw [Disk.resolve_eq, Disk.resolve_eq, h.placeOf_eq]

theorem node?_settled (hd : d.Sound) (h : p.Settled) : d.node? p = d.root.at? p.names := by
  have hplace := placeOf_settled d h
  rw [node?_eq hd]
  cases hway : d.way p with
  | error fault =>
    have hnone := @kindOf?_of_way_error d p.anchor p.names h.names fault hway
    change d.root.kindAt? (d.placeOf p) = none at hnone
    rw [hplace, Node.kindAt?, Option.map_eq_none_iff] at hnone
    exact hnone.symm
  | ok u => rw [hplace]

theorem way_of_stands (h : p.Settled) {k : Node.Kind} (hkind : d.root.kindAt? p.names = some k) :
    d.way p = .ok () := by
  cases hway : d.way p with
  | ok u => rfl
  | error fault =>
    have hnone := @kindOf?_of_way_error d p.anchor p.names h.names fault hway
    change d.root.kindAt? (d.placeOf p) = none at hnone
    rw [placeOf_settled d h, hkind] at hnone
    cases hnone

theorem pathExists_settled (hd : d.Sound) (h : p.Settled) :
    d.pathExists p = (d.root.kindAt? p.names).isSome := by
  rw [pathExists, node?_settled hd h, Node.kindAt?, Option.isSome_map]

theorem isDir_settled (hd : d.Sound) (h : p.Settled) :
    d.isDir p = true ↔ d.root.kindAt? p.names = some .dir := by
  rw [isDir, node?_settled hd h, Node.kindAt?]
  cases d.root.at? p.names with
  | none => simp
  | some node => cases node <;> simp [Node.isDir, Node.kind]

theorem read_settled_file (hd : d.Sound) (h : p.Settled) {content : Bytes}
    (hkind : d.root.kindAt? p.names = some (.file content)) : d.read p = .ok content := by
  have hplace : d.kindOf? p = some (.file content) := by
    rw [kindOf?, placeOf_settled d h, hkind]
  rw [read_eq hd, way_of_stands h hkind, hplace]

theorem read_settled_dir (hd : d.Sound) (h : p.Settled)
    (hkind : d.root.kindAt? p.names = some .dir) : d.read p = .error ⟨.isDirectory, p.toText⟩ := by
  have hplace : d.kindOf? p = some .dir := by
    rw [kindOf?, placeOf_settled d h, hkind]
  rw [read_eq hd, way_of_stands h hkind, hplace]

theorem readText_settled_file (hd : d.Sound) (h : p.Settled) {content : Bytes}
    (hkind : d.root.kindAt? p.names = some (.file content)) :
    d.readText p = match Utf8.decode content with
      | .error e => .error (.encoding e)
      | .ok t => .ok (Text.unifyLineEnds t) := by
  have hread := read_settled_file hd h hkind
  cases hdecode : Utf8.decode content with
  | error e => simp only [readText, hread, hdecode]
  | ok t => simp only [readText, hread, hdecode]

theorem Grows.kindAt?_file (h : Grows files d d') {names : List Text} {content : Bytes}
    (hnames : ¬ files names) :
    d'.root.kindAt? names = some (.file content) ↔ d.root.kindAt? names = some (.file content) := by
  have hcontent := h.keeps.files names hnames
  unfold contentAt? at hcontent
  constructor
  · intro hkind
    rw [hkind] at hcontent
    cases hbefore : d.root.kindAt? names with
    | none =>
      rw [hbefore] at hcontent
      cases hcontent
    | some k =>
      cases k with
      | dir =>
        rw [hbefore] at hcontent
        cases hcontent
      | file content' =>
        rw [hbefore] at hcontent
        rw [Option.some.inj hcontent]
  · intro hkind
    obtain ⟨content', hkind'⟩ := h.file_of_file ⟨content, hkind⟩
    rw [hkind, hkind'] at hcontent
    rw [hkind', Option.some.inj hcontent]

/-- In every directory each name stands once, and none of them is `..`. -/
structure Plain (d : Disk) : Prop extends Sound d where
  entries : ∀ names entries, d.root.at? names = some (.dir entries) →
    (Table.keys entries).Nodup ∧ Path.up ∉ Table.keys entries

theorem Plain.at?_child (h : d.Plain) {names : List Text} {entries : List (Text × Node)}
    (hat : d.root.at? names = some (.dir entries)) {name : Text} {child : Node}
    (hmem : (name, child) ∈ entries) : d.root.at? (names ++ [name]) = some child := by
  rw [Node.at?_child hat]
  exact (Table.mem_iff_lookup (h.entries names entries hat).1).mp hmem

theorem Plain.up_not_mem (h : d.Plain) {names : List Text} {node : Node}
    (hat : d.root.at? names = some node) : Path.up ∉ names := by
  induction names using List.reverseRecOn generalizing node with
  | nil => exact List.not_mem_nil
  | append_singleton names name ih =>
    have habove := Node.kindAt?_above (Node.kindAt?_of_at? hat)
    obtain ⟨entries, hentries⟩ := Node.at?_of_kindAt?_dir habove
    rw [Node.at?_child hentries] at hat
    have hmem := (Table.mem_iff_lookup (h.entries names entries hentries).1).mpr hat
    intro hup
    rcases List.mem_append.mp hup with hup | hup
    · exact ih hentries hup
    · apply (h.entries names entries hentries).2
      rw [List.mem_singleton.mp hup]
      exact List.mem_map.mpr ⟨(name, node), hmem, rfl⟩

theorem plain_of_files {entries : List (Text × Node)} (hnames : (Table.keys entries).Nodup)
    (hup : Path.up ∉ Table.keys entries) (hfiles : ∀ e ∈ entries, e.2.isDir = false) :
    Plain ⟨.dir entries, []⟩ where
  current := Node.kindAt?_nil _
  settled := rfl
  entries := by
    intro names below hat
    cases names with
    | nil =>
      rw [Node.at?_nil] at hat
      obtain rfl := Node.dir.inj (Option.some.inj hat)
      exact ⟨hnames, hup⟩
    | cons name rest =>
      exfalso
      obtain ⟨child, hchild, hrest⟩ :=
        Option.bind_eq_some_iff.mp ((Node.at?_cons _ _ _).symm.trans hat)
      have hfile := hfiles (name, child) ((Table.mem_iff_lookup hnames).mpr hchild)
      cases child with
      | dir more => cases hfile
      | file content =>
        cases rest with
        | nil =>
          rw [Node.at?_nil] at hrest
          cases Option.some.inj hrest
        | cons n rest =>
          rw [Node.at?_cons] at hrest
          cases hrest

end Disk

end LookupGen
