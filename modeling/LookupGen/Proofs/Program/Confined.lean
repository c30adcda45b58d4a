import LookupGen.Proofs.Java.Names
import LookupGen.Proofs.Name.Dotted
import LookupGen.Proofs.Program.Fields

/-!
# Names that are asked for

To resolve a name, and to find the field that it means, a program looks for types by their qualified
names. A part of a program is confined to some names if it looks for no others.
-/

namespace LookupGen

open Java (NameSpec)

namespace FileScope

/-- The qualified names that a simple name may stand for by the other files. -/
def around (file : FileScope) (n : Name) : List Name :=
  Name.within file.package n :: file.onDemandImports.map fun package => Text.join [package, ".", n]

def owners (file : FileScope) (n : Name) : List Name :=
  (lookupLast n file.staticImports).toList ++ file.staticOnDemandImports

end FileScope

namespace Program

variable (p : Program) (ask : Name → Prop)

/-- The names at a place whose meaning is found by looking for names in question alone. -/
def asks (site : Site) : NameSpec where
  field n := ∀ k ∈ site.file.owners n, ask k
  owner n := (∀ k ∈ site.file.around (Name.head n), ask k) ∧ ask (p.resolveType site n)
  type n := ∀ k ∈ site.file.around (Name.head n), ask k
  declared _ := True
  path _ := True

structure ConfinedField (f : FieldRef) : Prop where
  type : ∀ t, f.field.type = some t → t.Meets (p.asks ask f.site)
  initializer : ∀ e, f.field.initializer = some e → e.Meets (p.asks ask f.site)
  modifiers : f.field.modifiers.Meets (p.asks ask f.site)

structure ConfinedType (t : DeclaredType) : Prop where
  fields : ∀ f ∈ t.fieldRefs, p.ConfinedField ask f
  modifiers : t.modifiers.Meets (p.asks ask t.outerSite)
  methods : ∀ m ∈ t.methods, m.modifiers.Meets (p.asks ask t.site)

/-- A program that looks for names in question alone. -/
def Confined : Prop := ∀ t ∈ p.types, p.ConfinedType ask t

variable {p ask}

theorem Confined.field (h : p.Confined ask) {f : FieldRef} (hf : f ∈ p.fields) :
    p.ConfinedField ask f := by
  obtain ⟨t, ht, hmem⟩ := List.mem_flatMap.mp hf
  exact (h t ht).fields f hmem

theorem confined_of_all (p : Program) : p.Confined fun _ => True := by
  have hany (site : Site) : (p.asks (fun _ => True) site).Any :=
    ⟨fun _ _ _ => trivial, fun _ => ⟨fun _ _ => trivial, trivial⟩, fun _ _ _ => trivial⟩
  intro t _
  refine ⟨?_, Java.Modifiers.meets_of_any (hany _) _, fun m _ =>
    Java.Modifiers.meets_of_any (hany _) _⟩
  intro f _
  exact ⟨fun t _ => t.meets_of_any (hany _), fun e _ => e.meets_of_any (hany _),
    Java.Modifiers.meets_of_any (hany _) _⟩

end Program

end LookupGen
