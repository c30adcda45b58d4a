import LookupGen.Proofs.Java.Segments
import LookupGen.Proofs.SourceReader.Unrelated

/-!
# Inserting a file

A file none of whose types is mentioned in the other files may be put anywhere between them. Whether
a type is mentioned is decided by the words of a file alone: by all of them, whatever they stand
for.
-/

namespace LookupGen

open Java (NameSpec)
open Name (IsWord)

variable {S : Name → Prop} {content : Bytes}

theorem Java.spelled_le_apart
    (hS : ∀ n, S n → IsWord n ∧ n ∉ Java.words (Java.Token.read (Java.Glyph.read content))) :
    (NameSpec.spelled (Java.Token.read (Java.Glyph.read content))).Le (.apart S) := by
  have hhead {E : List Token → Prop} {n : Name}
      (hn : Java.Spells (Java.Token.read (Java.Glyph.read content)) E n) : ¬ S n.head := by
    intro hs
    obtain ⟨hword, hnot⟩ := hS _ hs
    obtain ⟨us, after, hsubset, -, hstretch, hreads⟩ := exists_stretch hn
    exact hnot (words_subset hsubset (hstretch.head_mem_words hreads hword))
  constructor
  · exact fun n hn => isWord_of_mem_words hn
  · intro n hn
    refine ⟨hhead hn, fun hs => ?_⟩
    obtain ⟨hword, hnot⟩ := hS _ hs
    obtain ⟨us, after, hsubset, hus, hstretch, hreads⟩ := exists_stretch hn
    rcases hstretch.simple_of_operand hus hreads hword with hmem | hdangling
    · exact absurd (words_subset hsubset hmem) hnot
    · exact hdangling
  · exact fun n hn => hhead hn
  · exact fun n hn => isWord_of_mem_words hn
  · intro n hn
    obtain ⟨us, after, hsubset, hus, hstretch, hreads⟩ := exists_stretch hn
    obtain ⟨hended, hsegments⟩ := hstretch.segments_of_dotted hus hreads
    refine ⟨hended, fun hs => ?_, fun hword hs => ?_⟩
    · obtain ⟨hword, hnot⟩ := hS _ hs
      exact hnot (words_subset hsubset (hsegments hword).1)
    · obtain ⟨howner, hnot⟩ := hS _ hs
      exact hnot (words_subset hsubset ((hsegments hword).2 howner))

namespace SourceReader

variable {d : Disk} {path g : Path} {files₁ files₂ : List Path} {known : List Name}

/-- All words of a file; none if it cannot be read. -/
def identifiers (d : Disk) (path : Path) : List Name :=
  match d.read path with
  | .ok content => Java.words (Java.Token.read (Java.Glyph.read content))
  | .error _ => []

theorem fileApart_of_not_mem (hS : ∀ n, S n → IsWord n ∧ n ∉ identifiers d path) :
    FileApart S d path := by
  intro content items hread hparse item hitem
  have hwords : ∀ n, S n → IsWord n ∧
      n ∉ Java.words (Java.Token.read (Java.Glyph.read content)) := by
    intro n hn
    have hnot := hS n hn
    rwa [identifiers, hread] at hnot
  have hitems : Java.parseItems (Java.Token.read (Java.Glyph.read content)) = .ok items := by
    unfold Java.parseFile at hparse
    simp only at hparse
    split at hparse
    · rename_i all hall
      exact hall.trans hparse
    · cases hparse
  exact Java.Item.Meets.imp (Java.spelled_le_apart hwords)
    (Java.meets_of_parseItems hitems item hitem)

/-- A file between others changes none of their elements, if the simple name of no type of it is a
word of another file. -/
theorem elements_insert
    (hapart : ∀ t ∈ declared d g, ∀ path ∈ files₁ ++ files₂,
      t.scope.simpleName ∉ identifiers d path)
    {es : List Element} (h : (elements d (ofFiles (files₁ ++ g :: files₂) known)).1 = .ok es) :
    ∃ block : Path → List Element,
      (∀ path ∈ files₁ ++ g :: files₂, ∀ e ∈ block path, e.StandsIn path.toText) ∧
      es = files₁.flatMap block ++ block g ++ files₂.flatMap block ∧
      (elements d (ofFiles (files₁ ++ files₂) known)).1 =
        .ok (files₁.flatMap block ++ files₂.flatMap block) := by
  have hg : FileApart (fun _ => False) d g := fileApart_of_not_mem nofun
  apply elements_insert_of_apart hg ?_ h
  intro path hpath
  apply fileApart_of_not_mem
  intro n hn
  obtain ⟨t, ht, rfl⟩ := List.mem_map.mp hn
  have hnamed := (apart_of_mem_declared hg ht).1.scopes t.scope List.mem_cons_self
  exact ⟨hnamed.word, hapart t ht path hpath⟩

/-- Two files that each use a constant of the other, and one that neither of them mentions. -/
def bystander : Disk :=
  ⟨.dir [("A.java", .file (tangled.content "class A\x7bstatic final String X=B.Y,Z=\"z\";\x7d")),
    ("B.java", .file (tangled.content "class B\x7bstatic final String Y=\"y\"+A.Z;\x7d")),
    ("N.java", .file (tangled.content
      "class N\x7bclass Z1\x7bstatic final String W=\"w\"+A.X;\x7d\x7d"))], []⟩

theorem elements_insert_bystander :
    let a : Path := .ofText "A.java"
    let b : Path := .ofText "B.java"
    let g : Path := .ofText "N.java"
    (declaredWords bystander g = ["N", "Z1"]) ∧
    (∀ t ∈ declared bystander g, ∀ path ∈ [a] ++ [b],
      t.scope.simpleName ∉ identifiers bystander path) ∧
    ∃ es, (elements bystander (ofFiles ([a] ++ g :: [b]) [])).1 = .ok es ∧
      (es.flatMap fun e => e.name :: e.fields.filterMap fun f => f.constant.bind Value.text?) =
        ["A", "yz", "z", "N", "N.Z1", "wyz", "B", "yz"] ∧
      ∃ block : Path → List Element,
        (∀ path ∈ [a] ++ g :: [b], ∀ e ∈ block path, e.StandsIn path.toText) ∧
        es = [a].flatMap block ++ block g ++ [b].flatMap block ∧
        (elements bystander (ofFiles ([a] ++ [b]) [])).1 =
          .ok ([a].flatMap block ++ [b].flatMap block) := by
  intro a b g
  have hapart : ∀ t ∈ declared bystander g, ∀ path ∈ [a] ++ [b],
      t.scope.simpleName ∉ identifiers bystander path := by
    decide +kernel
  have hfound : ((elements bystander (ofFiles ([a] ++ g :: [b]) [])).1.toOption.map fun es =>
      es.flatMap fun e => e.name :: e.fields.filterMap fun f => f.constant.bind Value.text?) =
        some (["A", "yz", "z", "N", "N.Z1", "wyz", "B", "yz"] : List Text) := by
    decide +kernel
  cases h : (elements bystander (ofFiles ([a] ++ g :: [b]) [])).1 with
  | error e =>
    rw [h] at hfound
    cases hfound
  | ok es =>
    rw [h] at hfound
    exact ⟨by decide +kernel, hapart, es, rfl, Option.some.inj hfound, elements_insert hapart h⟩

end SourceReader

end LookupGen
