import LookupGen.Proofs.Generation.Order
import LookupGen.Proofs.Java.Outlined.Files
import LookupGen.Proofs.Program.Mirror
import LookupGen.Proofs.Program.Outline

/-!
# Elements as they are declared

The elements of source files are those of the declared types, one type after the other in the order
of the files. A type that is declared inside a method, an initializer or the body of a constant has
none, and a generation works on the types at the top of the files only.

This module does NOT say which constants have a value.
-/

namespace LookupGen

open Java (Glyph Item Outlines Token)

namespace Generation

def isTop (e : Element) : Bool := e.kind.isType && !e.nested

variable {r : Rules} {elements : List Element}

theorem found_filter_isTop (r : Rules) (elements : List Element) :
    found r (elements.filter isTop) = found r elements := by
  have hsame : (Element.annotatedWith r.marker (elements.filter isTop)).filter
      (isCandidate r.accepts) =
      (Element.annotatedWith r.marker elements).filter (isCandidate r.accepts) := by
    unfold Element.annotatedWith
    rw [List.filter_filter, List.filter_filter, List.filter_filter]
    refine List.filter_congr fun e _ => ?_
    unfold isCandidate isTop
    cases e.kind.isType && !e.nested <;> simp
  unfold found discover candidates
  rw [hsame]

theorem process_filter_isTop (r : Rules) (elements : List Element) (p : Progress) :
    (process r elements).run p = (process r (elements.filter isTop)).run p := by
  rw [run_process, run_process, found_filter_isTop]

end Generation

namespace Program

variable {p : Program} {ts : List Placed} {blocks : List Block}

theorem filter_blocks (h : List.Forall₂ p.Mirrors ts blocks)
    (hmethods : ∀ t ∈ ts, ∀ m ∈ t.methods, m.kind = .method ∨ m.kind = .constructor)
    {c : Element → Bool} (hc : ∀ e, e.kind.isType = false → c e = false) :
    (blocks.flatMap Block.elements).filter c = (blocks.map Block.own).filter c := by
  induction h with
  | nil => rfl
  | @cons t b ts blocks hfirst _ ih =>
    obtain ⟨ht, hts⟩ := List.forall_mem_cons.mp hmethods
    obtain ⟨u, -, -, hb⟩ := hfirst
    rw [List.flatMap_cons, List.filter_append, hb.filter_elements ht hc, ih hts, List.map_cons,
      List.filter_cons]
    split <;> rfl

theorem isType_own (h : List.Forall₂ p.Mirrors ts blocks) :
    ∀ e ∈ blocks.map Block.own, e.kind.isType = true := by
  have hall : List.Forall₂ (fun _ e => e.kind.isType = true) ts (blocks.map Block.own) := by
    refine List.forall₂_map_right_iff.mpr (h.imp ?_)
    rintro t b ⟨u, -, -, hb⟩
    rw [hb.kind]
    rfl
  exact forall_right hall

def topElements (ts : List Placed) (blocks : List Block) : List Element :=
  (ts.zip blocks).filterMap fun (t, b) => if t.around = [] then some b.own else none

theorem filter_isTop_own (h : List.Forall₂ p.Mirrors ts blocks) :
    (blocks.map Block.own).filter Generation.isTop = topElements ts blocks := by
  unfold topElements
  induction h with
  | nil => rfl
  | @cons t b ts blocks hfirst _ ih =>
    obtain ⟨u, -, -, hb⟩ := hfirst
    have htop : Generation.isTop b.own = decide (t.around = []) := by
      unfold Generation.isTop
      rw [hb.kind, hb.nested]
      cases t.around <;> rfl
    rw [List.map_cons, List.filter_cons, ih, List.zip_cons_cons, List.filterMap_cons, htop]
    by_cases haround : t.around = [] <;> simp [haround]

end Program

namespace SourceReader

variable {d : Disk} {files : List Path} {known : List Name} {es : List Element}

/-- A file holds some items. Its tokens declare them, and in whatever way these are read, they
declare the same types in the same places. -/
def Declares (d : Disk) (path : Path) (items : List Item) : Prop :=
  ∃ content, d.read path = .ok content ∧ Java.parseFile content = .ok items ∧
    Outlines (Token.read (Glyph.read content)) items ∧
    ∀ other, Outlines (Token.read (Glyph.read content)) other →
      (Placed.ofItems path.toText [] other).map Placed.place =
        (Placed.ofItems path.toText [] items).map Placed.place

theorem Reads.declares {path : Path} {items : List Item} (h : Reads d path items) :
    Declares d path items := by
  obtain ⟨content, hread, hparse⟩ := h
  have houtlines : Outlines (Token.read (Glyph.read content)) items := by
    unfold Java.parseFile at hparse
    dsimp only at hparse
    split at hparse
    · rename_i hitems
      obtain rfl := Except.ok.inj hparse
      exact Java.outlines_of_parseItems hitems
    · cases hparse
  exact ⟨content, hread, hparse, houtlines, fun _ hother =>
    Placed.places_of_fileTokens hother houtlines⟩

theorem methods_ofFiles {units : List (List Item)} (h : List.Forall₂ (Declares d) files units) :
    ∀ t ∈ Placed.ofFiles files units, ∀ m ∈ t.methods, m.kind = .method ∨
      m.kind = .constructor := by
  intro t ht m hm
  obtain ⟨⟨path, items⟩, hmem, ht⟩ := List.mem_flatMap.mp ht
  obtain ⟨content, -, -, htokens, -⟩ := List.forall₂_zip h hmem
  obtain ⟨us, -, htype⟩ := Placed.tokens_ofItems (fun d hd => htokens.types hd) t ht
  exact Placed.kind_of_mem_methods htype hm

/-- The elements that a new reader gives are the blocks of the types that its files declare, file
after file and an outer type before those inside it. No other type has an element, and a generation
takes the types at the top and no others. -/
theorem elements_mirror (h : (elements d (ofFiles files known)).1 = .ok es) :
    ∃ (p : Program) (units : List (List Item)) (blocks : List Block),
      readFiles d ⟨[], known⟩ files = (p, none) ∧
      List.Forall₂ (Declares d) files units ∧
      List.Forall₂ p.Mirrors (Placed.ofFiles files units) blocks ∧
      es = blocks.flatMap Block.elements ∧
      es.filter (fun e => e.kind.isType) = blocks.map Block.own ∧
      ∀ rules,
        let tops := Program.topElements (Placed.ofFiles files units) blocks
        Generation.found rules es = Generation.found rules tops ∧
          ∀ s, (Generation.process rules es).run s = (Generation.process rules tops).run s := by
  obtain ⟨p, hread, hanswer⟩ := elements_ok_iff.mp h
  obtain ⟨units, more, hreads, htypes, hstands⟩ := stands_readFiles hread
  obtain rfl : p.types = more := htypes.trans (List.nil_append more)
  have hdeclares : List.Forall₂ (Declares d) files units := hreads.imp fun _ _ h => h.declares
  have hmethods := methods_ofFiles hdeclares
  obtain ⟨blocks, rfl, hblocks⟩ := Program.exists_blocks_of_elements
    (built_readFiles (.start known) hread).wellScoped hstands hanswer
  refine ⟨p, units, blocks, hread, hdeclares, hblocks, rfl, ?_, ?_⟩
  · rw [Program.filter_blocks hblocks hmethods fun e he => he]
    exact List.filter_eq_self.mpr (Program.isType_own hblocks)
  · intro rules
    have htops : (blocks.flatMap Block.elements).filter Generation.isTop =
        Program.topElements (Placed.ofFiles files units) blocks := by
      have hno (e : Element) (he : e.kind.isType = false) : Generation.isTop e = false := by
        unfold Generation.isTop
        rw [he, Bool.false_and]
      rw [Program.filter_blocks hblocks hmethods hno, Program.filter_isTop_own hblocks]
    rw [← htops]
    exact ⟨(Generation.found_filter_isTop rules _).symm, Generation.process_filter_isTop rules _⟩

/-- Types inside types, and types inside a method, an initializer and the body of a constant. -/
def nested : Disk :=
  ⟨.dir [("A.java", .file (tangled.content (
      "package p;class A\x7b@K String f,g;void m()\x7bclass L\x7bclass M\x7b\x7d\x7d\x7d" ++
      "\x7bclass I\x7b\x7d\x7d" ++
      "enum E\x7bX\x7bclass B\x7b\x7d\x7d,Y;int y;class D\x7b\x7d\x7d@K A()\x7b\x7dint f;\x7d"))),
    ("R.java", .file
      (tangled.content "record R(int c)\x7b@interface N\x7bint v();\x7d\x7dinterface Q\x7b\x7d"))],
    []⟩

def nestedFiles : List Path := [.ofText "A.java", .ofText "R.java"]

theorem elements_mirror_nested :
    ∃ es, (elements nested (ofFiles nestedFiles [])).1 = .ok es ∧
      (es.map fun e => (e.name, e.nested, e.fields.map (·.name))) =
        ([("p.A.g", true, []), ("p.A", false, ["f", "g"]), ("p.A.A", true, []),
          ("p.A.E", true, ["X", "Y", "y"]), ("p.A.E.D", true, []), ("R", false, []),
          ("R.N", true, []), ("Q", false, [])] : List (Name × Bool × List Name)) ∧
      ∃ (p : Program) (units : List (List Item)) (blocks : List Block),
        List.Forall₂ (Declares nested) nestedFiles units ∧
        List.Forall₂ p.Mirrors (Placed.ofFiles nestedFiles units) blocks ∧
        es = blocks.flatMap Block.elements ∧
        es.filter (fun e => e.kind.isType) = blocks.map Block.own := by
  have hfound : ((elements nested (ofFiles nestedFiles [])).1.toOption.map fun es =>
      es.map fun e => (e.name, e.nested, e.fields.map (·.name))) =
        (some [("p.A.g", true, []), ("p.A", false, ["f", "g"]), ("p.A.A", true, []),
          ("p.A.E", true, ["X", "Y", "y"]), ("p.A.E.D", true, []), ("R", false, []),
          ("R.N", true, []), ("Q", false, [])] : Option (List (Name × Bool × List Name))) := by
    decide +kernel
  cases h : (elements nested (ofFiles nestedFiles [])).1 with
  | error e =>
    rw [h] at hfound
    cases hfound
  | ok es =>
    rw [h] at hfound
    obtain ⟨p, units, blocks, -, hdeclares, hblocks, hes, htypes, -⟩ := elements_mirror h
    exact ⟨es, rfl, Option.some.inj hfound, p, units, blocks, hdeclares, hblocks, hes, htypes⟩

end SourceReader

end LookupGen
