import LookupGen.Proofs.Disk.Frame
import LookupGen.Proofs.Generation.Order
import LookupGen.Proofs.SourceReader

/-!
# Reading again

An attempt to read that fails leaves the types of the files before the one at fault in the reader,
and the next attempt adds all types once more. The copies do no harm: each of them is a type that
the last attempt reads too, so every name means what it means to a new reader, the elements of the
copies are among those of the last attempt, and a generation takes the last element of each name.
-/

namespace LookupGen

open EvalM (answer)

namespace Generation

variable {r : Rules} {stale es : List Element}

/-- Elements in front of a list in which they all occur change nothing about what counts. -/
theorem chosen_append_of_subset (h : ∀ e ∈ stale, e ∈ es) {name : Name} {e : Element} :
    Chosen r (stale ++ es) name e ↔ Chosen r es name e := by
  rw [chosen_iff, chosen_iff, List.reverse_append, List.find?_append]
  cases hfind : es.reverse.find? fun o =>
      isEligible r o && decide (Name.canonical o.name = name) with
  | some o => rfl
  | none =>
    rw [Option.none_or]
    have hstale : (stale.reverse.find? fun o =>
        isEligible r o && decide (Name.canonical o.name = name)) = none := by
      rw [List.find?_eq_none] at hfind ⊢
      intro o ho
      exact hfind o (List.mem_reverse.mpr (h o (List.mem_reverse.mp ho)))
    rw [hstale]

theorem found_append_of_subset (h : ∀ e ∈ stale, e ∈ es) :
    found r (stale ++ es) = found r es := by
  apply found_eq_of_chosen
  intro name e
  exact chosen_append_of_subset h

end Generation

/-- A fault of a file itself: it cannot be read, or it is no source text. -/
inductive SourceError.OfFile : SourceError → Prop where
  | unreadable (path : Path) (e : DiskError) : OfFile (.unreadable path e)
  | malformed (path : Path) (line : Nat) : OfFile (.malformed path line)

namespace SourceReader

variable {d d' : Disk} {p q : Program} {path : Path} {files : List Path} {known : List Name}

def parsed (d : Disk) (files : List Path) : List Path :=
  files.takeWhile fun path => (contents d path).isOk

theorem mem_of_mem_parsed (h : path ∈ parsed d files) : path ∈ files :=
  (List.takeWhile_prefix _).subset h

theorem declared_congr (h : d'.read path = d.read path) : declared d' path = declared d path := by
  unfold declared readFile
  rw [h]

theorem parsed_cons_of_ok {rest : List Path} (h : readFile d p path = .ok q) :
    parsed d (path :: rest) = path :: parsed d rest := by
  obtain ⟨c, hcontents, -⟩ := readFile_eq_ok h
  exact List.takeWhile_cons_of_pos (by rw [hcontents]; rfl)

theorem parsed_cons_of_error {rest : List Path} {e : SourceError}
    (h : readFile d p path = .error e) : parsed d (path :: rest) = [] := by
  rw [readFile_eq] at h
  unfold parsed
  cases hcontents : contents d path with
  | error e' => exact List.takeWhile_cons_of_neg (by rw [hcontents]; exact Bool.false_ne_true)
  | ok c =>
    rw [hcontents] at h
    cases h

theorem readFiles_error {e : SourceError} (h : readFiles d p files = (q, some e)) :
    q.known = p.known ∧ (p.Built → q.Built) ∧ q.types.map DeclaredType.unnumbered =
      p.types.map DeclaredType.unnumbered ++
        ((parsed d files).flatMap (declared d)).map DeclaredType.unnumbered := by
  induction files generalizing p with
  | nil => cases (Prod.mk.inj h).2
  | cons path rest ih =>
    rw [readFiles] at h
    cases hread : readFile d p path with
    | error e' =>
      rw [hread] at h
      obtain rfl := (Prod.mk.inj h).1
      rw [parsed_cons_of_error hread]
      exact ⟨rfl, id, (List.append_nil _).symm⟩
    | ok p₁ =>
      rw [hread] at h
      obtain ⟨hknown, hbuilt, htypes⟩ := ih h
      obtain ⟨hknown₁, htypes₁⟩ := readFile_types hread
      refine ⟨hknown.trans hknown₁, fun hp => hbuilt (built_readFile hp hread), ?_⟩
      rw [parsed_cons_of_ok hread, htypes, htypes₁, List.flatMap_cons, List.map_append,
        List.append_assoc]

/-- A reader after some attempts that have failed at a file, given the disk at each of them. Between
them no file changes that an attempt has read. -/
inductive Retried (files : List Path) (known : List Name) : List Disk → SourceReader → Prop where
  | start : Retried files known [] (ofFiles files known)
  | fail {ds : List Disk} {r r' : SourceReader} {d : Disk} {e : SourceError}
      (h : Retried files known ds r)
      (hkept : ∀ d' ∈ ds, ∀ path ∈ parsed d' files, d.read path = d'.read path)
      (hrun : elements d r = (.error e, r')) (hfault : e.OfFile) :
      Retried files known (ds ++ [d]) r'

structure Stale (files : List Path) (known : List Name) (ds : List Disk) (r : SourceReader) :
    Prop where
  reads : r.files = files
  known : r.program.known = known
  built : r.program.Built
  evaluation : r.evaluation = .empty
  found : r.found = none
  types : ∀ u ∈ r.program.types.map DeclaredType.unnumbered, ∃ d ∈ ds, ∃ path ∈ parsed d files,
    u ∈ (declared d path).map DeclaredType.unnumbered

theorem elements_error {r r' : SourceReader} {e : SourceError}
    (hrun : elements d r = (.error e, r')) (hfault : e.OfFile) :
    ∃ program, readFiles d r.program r.files = (program, some e) ∧ r' = { r with program } := by
  unfold elements at hrun
  split at hrun
  · cases (Prod.mk.inj hrun).1
  · split at hrun
    · rename_i program e' hread
      obtain ⟨he, rfl⟩ := Prod.mk.inj hrun
      obtain rfl := Except.error.inj he
      exact ⟨program, hread, rfl⟩
    · exfalso
      split at hrun
      · cases (Prod.mk.inj hrun).1
      · rename_i fault _ _
        obtain rfl := Except.error.inj (Prod.mk.inj hrun).1
        cases fault with
        | undecodable _ => cases hfault
        | notOneCharacter _ => cases hfault

theorem stale_start (files : List Path) (known : List Name) :
    Stale files known [] (ofFiles files known) where
  reads := rfl
  known := rfl
  built := .start known
  evaluation := rfl
  found := rfl
  types := fun _ hu => absurd hu List.not_mem_nil

theorem Stale.fail {ds : List Disk} {r r' : SourceReader} {e : SourceError}
    (h : Stale files known ds r) (hrun : elements d r = (.error e, r')) (hfault : e.OfFile) :
    Stale files known (ds ++ [d]) r' := by
  obtain ⟨program, hread, rfl⟩ := elements_error hrun hfault
  obtain ⟨hknown, hbuilt, htypes⟩ := readFiles_error hread
  refine ⟨h.reads, hknown.trans h.known, hbuilt h.built, h.evaluation, h.found, ?_⟩
  intro u hu
  rw [htypes, h.reads] at hu
  rcases List.mem_append.mp hu with hu | hu
  · obtain ⟨d', hd', hdeclared⟩ := h.types u hu
    exact ⟨d', List.mem_append_left _ hd', hdeclared⟩
  · obtain ⟨t, ht, rfl⟩ := List.mem_map.mp hu
    obtain ⟨path, hpath, ht⟩ := List.mem_flatMap.mp ht
    exact ⟨d, List.mem_append_right _ List.mem_cons_self, path, hpath, List.mem_map_of_mem ht⟩

theorem Retried.stale {ds : List Disk} {r : SourceReader} (h : Retried files known ds r) :
    Stale files known ds r := by
  induction h with
  | start => exact stale_start files known
  | fail _ _ hrun hfault ih => exact ih.fail hrun hfault

theorem find?_append_of_subset {α : Type} {stale fresh : List α} (h : ∀ t ∈ stale, t ∈ fresh)
    (f : α → Bool) : (stale ++ fresh).reverse.find? f = fresh.reverse.find? f := by
  rw [List.reverse_append, List.find?_append]
  cases hfind : fresh.reverse.find? f with
  | some t => rfl
  | none =>
    rw [Option.none_or, List.find?_eq_none] at *
    intro t ht
    exact hfind t (List.mem_reverse.mpr (h t (List.mem_reverse.mp ht)))

theorem answer_of_values {value : DeclaredType → List Element} (hp : p.WellScoped)
    (h : ∀ t ∈ p.types, p.typeAnswer t = .ok (value t.unnumbered)) :
    answer p.elements .empty = .ok ((p.types.map DeclaredType.unnumbered).flatMap value) := by
  rw [Program.answer_elements hp, mapM_of_ok h, List.flatMap_map]
  rfl

theorem twins_of_stale {stale : List DeclaredType} (hp : p.Built) (hq : q.Built)
    (hknown : p.known = q.known) (hstale : ∀ u ∈ stale, u ∈ q.types.map DeclaredType.unnumbered)
    (htypes : p.types.map DeclaredType.unnumbered = stale ++ q.types.map DeclaredType.unnumbered) :
    p.Twins q := by
  refine ⟨hp.wellScoped, hq.wellScoped, hknown, ?_⟩
  intro n
  rw [p.type?_unnumbered, q.type?_unnumbered, htypes, find?_append_of_subset hstale]

section Last

variable {ds : List Disk} {r : SourceReader} {es : List Element}

/-- The files that an attempt has read are still the same, so the last attempt reads their types. -/
theorem Stale.mem_types (h : Stale files known ds r)
    (hkept : ∀ d' ∈ ds, ∀ path ∈ parsed d' files, d.read path = d'.read path)
    (hread : readFiles d ⟨[], known⟩ files = (q, none)) {u : DeclaredType}
    (hu : u ∈ r.program.types.map DeclaredType.unnumbered) :
    u ∈ q.types.map DeclaredType.unnumbered := by
  obtain ⟨d', hd', path, hpath, hdeclared⟩ := h.types u hu
  rw [← declared_congr (hkept d' hd' path hpath)] at hdeclared
  rw [types_of_readFiles hread, List.map_flatMap]
  exact List.mem_flatMap.mpr ⟨path, mem_of_mem_parsed hpath, hdeclared⟩

/-- The elements of the last attempt are those of a new reader, after copies of some of them. -/
theorem Stale.elements_of_new (h : Stale files known ds r)
    (hkept : ∀ d' ∈ ds, ∀ path ∈ parsed d' files, d.read path = d'.read path)
    (hok : (elements d r).1 = .ok es) :
    ∃ es', (elements d (ofFiles files known)).1 = .ok es' ∧
      ∃ copies, es = copies ++ es' ∧ ∀ e ∈ copies, e ∈ es' := by
  obtain ⟨p, hread, hanswer⟩ := (elements_ok_iff_of_empty h.found h.evaluation).mp hok
  rw [h.reads] at hread
  obtain ⟨q, hread'⟩ : ∃ q, readFiles d ⟨[], known⟩ files = (q, none) :=
    (readFiles_iff d _ files).mpr ((readFiles_iff d r.program files).mp ⟨p, hread⟩)
  obtain ⟨hknown, htypes⟩ := readFiles_types hread
  rw [← types_of_readFiles hread'] at htypes
  have hcopies := fun u => h.mem_types (u := u) hkept hread'
  have htwins : p.Twins q := by
    apply twins_of_stale (built_readFiles h.built hread) (built_readFiles (.start known) hread') _
      hcopies htypes
    exact (hknown.trans h.known).trans (readFiles_types hread').1.symm
  have hmem : ∀ t' ∈ q.types, ∃ t ∈ p.types, t.unnumbered = t'.unnumbered := by
    intro t' ht'
    rw [← List.mem_map, htypes]
    exact List.mem_append_right _ (List.mem_map_of_mem ht')
  obtain ⟨value, hvalue, hvalue'⟩ := htwins.exists_values
    (fun t ht => Program.ok_of_answer_elements htwins.left hanswer ht) hmem
  have hes := answer_of_values htwins.left hvalue
  rw [hanswer, htypes, List.flatMap_append] at hes
  obtain rfl := Except.ok.inj hes
  refine ⟨_, elements_ok_iff.mpr ⟨q, hread', answer_of_values htwins.right hvalue'⟩, _, rfl, ?_⟩
  intro e he
  obtain ⟨u, hu, he⟩ := List.mem_flatMap.mp he
  exact List.mem_flatMap.mpr ⟨u, hcopies u hu, he⟩

/-- A reader whose attempts have failed, once it succeeds, gives a generation what a new reader
would give it: the same types are found, with the same elements, and all that comes of them is the
same. -/
theorem retried_as_new (h : Retried files known ds r)
    (hkept : ∀ d' ∈ ds, ∀ path ∈ parsed d' files, d.read path = d'.read path)
    (hok : (elements d r).1 = .ok es) :
    ∃ es', (elements d (ofFiles files known)).1 = .ok es' ∧
      (∃ copies, es = copies ++ es' ∧ ∀ e ∈ copies, e ∈ es') ∧
      ∀ rules, Generation.found rules es = Generation.found rules es' ∧
        ∀ p, (Generation.process rules es).run p = (Generation.process rules es').run p := by
  obtain ⟨es', hok', copies, rfl, hcopies⟩ := h.stale.elements_of_new hkept hok
  refine ⟨es', hok', ⟨copies, rfl, hcopies⟩, ?_⟩
  intro rules
  have hfound : Generation.found rules (copies ++ es') = Generation.found rules es' :=
    Generation.found_append_of_subset hcopies
  refine ⟨hfound, ?_⟩
  intro p
  rw [Generation.run_process, Generation.run_process, hfound]

end Last

def chain : List Path := [Path.ofText "A.java", Path.ofText "B.java"]

def chained (more : List (Text × Node)) : Disk :=
  ⟨.dir (("A.java", .file (tangled.content "class A\x7bstatic final String X=B.Y;\x7d")) ::
    more), []⟩

def broken : Disk := chained [("B.java", .file (tangled.content "class"))]

def gone : Disk := broken.remove (Path.ofText "B.java")

def whole : Disk :=
  chained [("B.java", .file (tangled.content "class B\x7bstatic final String Y=\"y\";\x7d"))]

def afterBroken : SourceReader := (elements broken (ofFiles chain [])).2

def afterGone : SourceReader := (elements gone afterBroken).2

def fault? : Except SourceError (List Element) → Option SourceError
  | .error e => some e
  | .ok _ => none

theorem eq_error_of_fault? {x : Except SourceError (List Element)} {e : SourceError}
    (h : fault? x = some e) : x = .error e := by
  cases x with
  | error e' => rw [Option.some.inj h]
  | ok es => cases h

theorem broken_fails : (elements broken (ofFiles chain [])).1 =
    .error (.malformed (Path.ofText "B.java") 1) :=
  eq_error_of_fault? (by decide +kernel)

theorem gone_fails : (elements gone afterBroken).1 =
    .error (.unreadable (Path.ofText "B.java") ⟨.missing, "B.java"⟩) :=
  eq_error_of_fault? (by decide +kernel)

theorem parsed_chain {d : Disk} (hd : d ∈ [broken, gone]) :
    parsed d chain = [Path.ofText "A.java"] := by
  rcases List.mem_cons.mp hd with rfl | hd
  · decide +kernel
  · obtain rfl := List.mem_singleton.mp hd
    decide +kernel

theorem read_gone : gone.read (Path.ofText "A.java") = broken.read (Path.ofText "A.java") := by
  have hd : broken.Sound := ⟨rfl, rfl⟩
  have hremoved : broken.read (Path.ofText "B.java") = .ok (tangled.content "class") := rfl
  have hother : broken.placeOf (Path.ofText "A.java") ≠ broken.placeOf (Path.ofText "B.java") := by
    decide
  exact (Disk.keeps_remove hd hremoved).1.read_eq hd hother rfl

theorem chain_retried : Retried chain [] [broken, gone] afterGone := by
  have hfirst : Retried chain [] [broken] afterBroken :=
    .fail .start (fun d' hd' => absurd hd' List.not_mem_nil) (Prod.ext broken_fails rfl)
      (.malformed _ _)
  refine .fail hfirst ?_ (Prod.ext gone_fails rfl) (.unreadable _ _)
  intro d' hd' path hpath
  obtain rfl := List.mem_singleton.mp hd'
  rw [parsed_chain List.mem_cons_self] at hpath
  obtain rfl := List.mem_singleton.mp hpath
  exact read_gone

theorem retried_as_new_chain :
    Retried chain [] [broken, gone] afterGone ∧
      (∀ d' ∈ [broken, gone], ∀ path ∈ parsed d' chain, whole.read path = d'.read path) ∧
      ∃ es, (elements whole afterGone).1 = .ok es ∧
        (es.flatMap fun e => e.name :: e.fields.filterMap fun f => f.constant.bind Value.text?) =
          ["A", "y", "A", "y", "A", "y", "B", "y"] ∧
        ∃ es', (elements whole (ofFiles chain [])).1 = .ok es' ∧
          ∀ rules, Generation.found rules es = Generation.found rules es' := by
  have hkept : ∀ d' ∈ [broken, gone], ∀ path ∈ parsed d' chain, whole.read path = d'.read path := by
    intro d' hd' path hpath
    rw [parsed_chain hd'] at hpath
    obtain rfl := List.mem_singleton.mp hpath
    rcases List.mem_cons.mp hd' with rfl | hd'
    · rfl
    · obtain rfl := List.mem_singleton.mp hd'
      exact read_gone.symm
  have hfound : ((elements whole afterGone).1.toOption.map fun es =>
      es.flatMap fun e => e.name :: e.fields.filterMap fun f => f.constant.bind Value.text?) =
        some (["A", "y", "A", "y", "A", "y", "B", "y"] : List Text) := by
    decide +kernel
  cases hok : (elements whole afterGone).1 with
  | error e =>
    rw [hok] at hfound
    cases hfound
  | ok es =>
    rw [hok] at hfound
    obtain ⟨es', hok', -, hsame⟩ := retried_as_new chain_retried hkept hok
    exact ⟨chain_retried, hkept, es, rfl, Option.some.inj hfound, es', hok',
      fun rules => (hsame rules).1⟩

end SourceReader

end LookupGen
