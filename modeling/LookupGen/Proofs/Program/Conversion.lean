import LookupGen.Proofs.Program.Constants
import LookupGen.Proofs.Program.Simulation
import LookupGen.Proofs.Program.Represents

/-!
# Conversions that are left out

A field takes over the constant of its initializer with its type, where the language converts it to
the type that the field is declared with. So the constants are those of the reading without
conversions, and those of the language just where no field in use is converted. Literals are read
as in the language unless a Unicode escape in them is a part of an escape sequence.

Names mean the same in all readings.
-/

namespace LookupGen

open EvalM (answer)

namespace TypedValue

theorem shapeOf?_eq_some {type : Name} {s : Shape} (h : shapeOf? type = some s) :
    Program.mayBeConstant type = true ∧ decide (type = stringType) = decide (s = .text) := by
  unfold shapeOf? at h
  split at h
  · rename_i htype
    obtain rfl := Option.some.inj h
    exact ⟨by simp [Program.mayBeConstant, htype], by simp [htype]⟩
  · rename_i hstring
    split at h
    · rename_i htype
      obtain rfl := Option.some.inj h
      subst htype
      decide
    · split at h
      · rename_i htype
        obtain rfl := Option.some.inj h
        rcases htype with rfl | rfl | rfl <;> decide
      · cases h

end TypedValue

/-- The constant of a string literal represents the text that the literal has in the language. -/
def AgreesString (t : Text) : Prop :=
  ∀ u, Literal.stringLiteral? t = some u → (stringConstant t).Represents (.string u)

def AgreesCharacter (t : Text) : Prop :=
  ∀ u, Literal.characterLiteral? t = some u → (characterConstant t).Represents (.char u)

/-- All literals of the initializer are read as in the language. -/
def AgreeingLiterals (f : FieldRef) : Prop :=
  ∀ e ∈ f.field.initializer, e.AllLiterals AgreesString AgreesCharacter

/-- In no literal of the initializer a Unicode escape is a part of an escape sequence. -/
def PlainLiterals (f : FieldRef) : Prop :=
  ∀ e ∈ f.field.initializer,
    e.AllLiterals (Literal.plainString · = true) (Literal.plainCharacter · = true)

instance (f : FieldRef) : Decidable (PlainLiterals f) :=
  inferInstanceAs (Decidable (∀ e ∈ f.field.initializer, e.AllLiterals _ _))

theorem agreeingLiterals_of_plain {f : FieldRef} (h : PlainLiterals f) : AgreeingLiterals f := by
  intro e he
  apply allLiterals_imp _ _ (h e he)
  · exact fun t ht u hu => Constant.represents_stringConstant hu ht
  · exact fun t ht u hu => Constant.represents_characterConstant hu ht

theorem typed_simulates_shape :
    Semantics.typed.Simulates .unconverted (fun v w => v.shape = w.shape) (fun _ => True)
      (fun _ => True) where
  string _ v _ h := ⟨v, h, rfl⟩
  character _ v _ h := ⟨v, h, rfl⟩
  integer _ v h := ⟨v, h, rfl⟩
  boolean _ := rfl
  plus _ _ _ _ _ ha hb h := TypedValue.shape_plus ha hb h
  unary _ _ _ _ ha h := TypedValue.shape_unary ha h

theorem typed_simulates_eq :
    Semantics.typed.Simulates .unconverted Eq (fun _ => True) (fun _ => True) where
  string _ v _ h := ⟨v, h, rfl⟩
  character _ v _ h := ⟨v, h, rfl⟩
  integer _ v h := ⟨v, h, rfl⟩
  boolean _ := rfl
  plus _ _ _ _ v ha hb h := ⟨v, ha ▸ hb ▸ h, rfl⟩
  unary _ _ _ v ha h := ⟨v, ha ▸ h, rfl⟩

theorem unconverted_simulates_reading :
    Semantics.unconverted.Simulates .reading (fun v c => c.Represents v) AgreesString
      AgreesCharacter where
  string t v ht h := by
    obtain ⟨u, hu, rfl⟩ := Option.map_eq_some_iff.mp h
    exact ⟨_, rfl, ht u hu⟩
  character t v ht h := by
    obtain ⟨u, hu, rfl⟩ := Option.map_eq_some_iff.mp h
    exact ⟨_, rfl, ht u hu⟩
  integer t v h := Constant.represents_integerConstant h
  boolean b := .boolean b
  plus a a' b b' v ha hb h := by
    obtain ⟨c, hc, hrep⟩ := ha.plus hb h
    exact ⟨c, toOption_join_eq_some.mpr hc, hrep⟩
  unary op a a' v ha h := by
    obtain ⟨c, hc, hrep⟩ := ha.unary h
    exact ⟨c, toOption_join_eq_some.mpr hc, hrep⟩

namespace Program

variable {p : Program} {f : FieldRef} {v w : TypedValue}

/-- The value of the initializer is converted to another one. -/
def Converts (p : Program) (f : FieldRef) : Prop :=
  ∃ e type a v, f.field.initializer = some e ∧ p.fieldTypeName f = .ok type ∧
    p.Derives .typed (.expr f.site e) a ∧ TypedValue.convert type a = some v ∧ v ≠ a

/-- The field is answered with what stands for its value. -/
def Represented (p : Program) (f : FieldRef) : Prop :=
  ∃ c v, p.alone f = .ok (some c) ∧ p.Derives .typed (.field f) v ∧ c.Represents v

theorem unconverted_of_typed (h : p.Derives .typed (.field f) v) :
    ∃ w, p.Derives .unconverted (.field f) w ∧ v.shape = w.shape := by
  refine h.simulate typed_simulates_shape fun g _ e _ => ⟨allLiterals_true e, ?_⟩
  intro type a b x _ _ hab hconvert
  refine ⟨b, TypedValue.keep_of_convert hconvert hab, ?_⟩
  exact (TypedValue.shape_of_convert hconvert).2.trans hab

theorem unconverted_of_not_converts (h : p.Derives .typed (.field f) v)
    (hnot : ∀ g, Relation.ReflTransGen p.Uses f g → ¬p.Converts g) :
    p.Derives .unconverted (.field f) v := by
  obtain ⟨w, hw, rfl⟩ := h.simulate typed_simulates_eq fun g hg e hinit => by
    refine ⟨allLiterals_true e, ?_⟩
    rintro type a _ x htype ha rfl hconvert
    have hx : x = a := by
      by_contra hne
      exact hnot g hg ⟨e, type, a, x, hinit, htype, ha, hconvert, hne⟩
    exact ⟨a, TypedValue.keep_of_convert hconvert rfl, hx⟩
  exact hw

theorem reading_of_unconverted (h : p.Derives .unconverted (.field f) v)
    (hagree : ∀ g, Relation.ReflTransGen p.Uses f g → AgreeingLiterals g) :
    ∃ c, p.Derives .reading (.field f) c ∧ c.Represents v := by
  refine h.simulate unconverted_simulates_reading fun g hg e hinit => ?_
  refine ⟨hagree g hg e hinit, ?_⟩
  intro type a c x _ _ hac hkeep
  simp only [Semantics.unconverted, Semantics.typedWith, TypedValue.keep] at hkeep
  split at hkeep
  · rename_i hshape
    obtain rfl := Option.some.inj hkeep
    obtain ⟨hmay, hstring⟩ := TypedValue.shapeOf?_eq_some hshape
    refine ⟨c, ?_, hac⟩
    simp [Semantics.reading, hmay, fits, hstring, hac.isString_eq]
  · cases hkeep

theorem answer_eq_alone (hp : p.WellScoped) (hf : f ∈ p.fields) {fs : List FieldRef}
    (hfs : ∀ g ∈ fs, g ∈ p.fields) :
    answer (p.constant f) (demandAll p.constant fs .empty).2 = p.alone f := by
  have hbudget : p.fieldCount < p.fieldCount + 1 := Nat.lt_succ_self _
  have hrun := demandAll_run hp hbudget hfs remembers_empty
  exact (demand_step hp hbudget hf hrun.1).2

theorem alone_of_typed (hp : p.WellScoped) (hf : f ∈ p.fields)
    (h : p.Derives .typed (.field f) v)
    (hagree : ∀ g, Relation.ReflTransGen p.Uses f g → AgreeingLiterals g) :
    ∃ c w, p.alone f = .ok (some c) ∧ p.Derives .unconverted (.field f) w ∧ c.Represents w ∧
      v.shape = w.shape := by
  obtain ⟨w, hw, hshape⟩ := unconverted_of_typed h
  obtain ⟨c, hc, hrep⟩ := reading_of_unconverted hw hagree
  exact ⟨c, w, (alone_eq_some_iff hp hf).mpr hc, hw, hrep, hshape⟩

theorem unconverted_of_represented (hp : p.WellScoped) (hf : f ∈ p.fields)
    (h : p.Derives .typed (.field f) v)
    (hagree : ∀ g, Relation.ReflTransGen p.Uses f g → AgreeingLiterals g)
    (hrep : p.Represented f) : p.Derives .unconverted (.field f) v := by
  obtain ⟨c, v', hc, hv', hcv⟩ := hrep
  obtain rfl := h.unique hv'
  obtain ⟨d, w, hd, hw, hdw, -⟩ := alone_of_typed hp hf h hagree
  have hcd : c = d := Option.some.inj (Except.ok.inj (hc.symm.trans hd))
  rw [hcv.unique (hcd ▸ hdw)]
  exact hw

theorem not_converts_of_represented (hp : p.WellScoped) (hf : f ∈ p.fields)
    (h : p.Derives .typed (.field f) v)
    (hagree : ∀ g, Relation.ReflTransGen p.Uses f g → AgreeingLiterals g)
    (hrep : ∀ g, Relation.ReflTransGen p.Uses f g → p.Represented g) : ¬p.Converts f := by
  have hkeep : ∀ g, Relation.ReflTransGen p.Uses f g → ∀ x, p.Derives .typed (.field g) x →
      p.Derives .unconverted (.field g) x := by
    intro g hg x hx
    exact unconverted_of_represented hp (hp.mem_fields_of_uses hf hg) hx
      (fun k hk => hagree k (hg.trans hk)) (hrep g hg)
  rintro ⟨e, type, a, x, hinit, htype, ha, hconvert, hne⟩
  have hunconverted := hkeep f .refl v h
  cases h with
  | field _ _ hinit₁ htype₁ ha₁ hconvert₁ =>
    obtain rfl := Option.some.inj (hinit.symm.trans hinit₁)
    obtain rfl := Except.ok.inj (htype.symm.trans htype₁)
    obtain rfl := ha.unique ha₁
    obtain rfl := Option.some.inj (hconvert.symm.trans hconvert₁)
    obtain ⟨b, hb, rfl⟩ := ha.simulate_expr typed_simulates_eq (allLiterals_true e)
      fun g hg y hy => ⟨y, hkeep g (.single ⟨e, hinit, hg⟩) y hy, rfl⟩
    cases hunconverted with
    | field _ _ hinit₂ _ hb₂ hkeep₂ =>
      obtain rfl := Option.some.inj (hinit.symm.trans hinit₂)
      obtain rfl := hb.unique hb₂
      simp only [Semantics.unconverted, Semantics.typedWith, TypedValue.keep] at hkeep₂
      split at hkeep₂
      · exact hne (Option.some.inj hkeep₂).symm
      · cases hkeep₂

/-- The answer for a text is a text, and it is the text of the language just where the reading
without conversions comes to that. -/
theorem answer_of_typed (hp : p.WellScoped) (hf : f ∈ p.fields) {u : List (BitVec 16)}
    (h : p.Derives .typed (.field f) (.string u))
    (hagree : ∀ g, Relation.ReflTransGen p.Uses f g → AgreeingLiterals g) :
    ∃ t, (∀ fs : List FieldRef, (∀ g ∈ fs, g ∈ p.fields) →
        answer (p.constant f) (demandAll p.constant fs .empty).2 = .ok (some (.string t))) ∧
      (Utf16.units t = u ↔ p.Derives .unconverted (.field f) (.string u)) := by
  obtain ⟨c, w, hc, hw, hrep, hshape⟩ := alone_of_typed hp hf h hagree
  cases hrep with
  | string t =>
    refine ⟨t, fun fs hfs => (answer_eq_alone hp hf hfs).trans hc, ?_⟩
    constructor
    · rintro rfl
      exact hw
    · intro hu
      exact TypedValue.string.inj (hw.unique hu)
  | _ => cases hshape

/-- A field that has a text in the language, and all the fields that it uses. All their literals and
values come out right just where all literals are read as in the language and no field is converted.
Whatever was asked before, the field is then answered with its text; it suffices that the literals
are plain. If only the literals are read as in the language, the answer is right just where the
value does not depend on the conversions. -/
theorem constant_typed (hp : p.Built) (hf : f ∈ p.fields) {u : List (BitVec 16)}
    (h : p.Derives .typed (.field f) (.string u)) :
    ((∀ g, Relation.ReflTransGen p.Uses f g → AgreeingLiterals g ∧ p.Represented g) ↔
      ∀ g, Relation.ReflTransGen p.Uses f g → AgreeingLiterals g ∧ ¬p.Converts g) ∧
    ((∀ g, Relation.ReflTransGen p.Uses f g → AgreeingLiterals g) →
      ∃ t, (∀ fs : List FieldRef, (∀ g ∈ fs, g ∈ p.fields) →
          answer (p.constant f) (demandAll p.constant fs .empty).2 = .ok (some (.string t))) ∧
        (Utf16.units t = u ↔ p.Derives .unconverted (.field f) (.string u))) ∧
    ((∀ g, Relation.ReflTransGen p.Uses f g → PlainLiterals g ∧ ¬p.Converts g) →
      ∃ t, (∀ fs : List FieldRef, (∀ g ∈ fs, g ∈ p.fields) →
          answer (p.constant f) (demandAll p.constant fs .empty).2 = .ok (some (.string t))) ∧
        Utf16.units t = u) := by
  have hscoped := hp.wellScoped
  refine ⟨?_, answer_of_typed hscoped hf h, ?_⟩
  · constructor
    · intro hall g hg
      obtain ⟨x, hx⟩ := h.of_uses hg
      refine ⟨(hall g hg).1, ?_⟩
      exact not_converts_of_represented hscoped (hscoped.mem_fields_of_uses hf hg) hx
        (fun k hk => (hall k (hg.trans hk)).1) fun k hk => (hall k (hg.trans hk)).2
    · intro hall g hg
      obtain ⟨x, hx⟩ := h.of_uses hg
      have hmem := hscoped.mem_fields_of_uses hf hg
      have hunconverted := unconverted_of_not_converts hx fun k hk => (hall k (hg.trans hk)).2
      obtain ⟨d, hd, hdx⟩ :=
        reading_of_unconverted hunconverted fun k hk => (hall k (hg.trans hk)).1
      exact ⟨(hall g hg).1, d, x, (alone_eq_some_iff hscoped hmem).mpr hd, hx, hdx⟩
  · intro hall
    have hunconverted := unconverted_of_not_converts h fun g hg => (hall g hg).2
    obtain ⟨t, hanswer, hexact⟩ :=
      answer_of_typed hscoped hf h fun g hg => agreeingLiterals_of_plain (hall g hg).1
    exact ⟨t, hanswer, hexact.mpr hunconverted⟩

def oneClassFile (members : List (Java.TypeUse × Name × Java.Expr)) : List Java.Item :=
  [.type (.mk .ordinary .none "A" 1 (members.map fun (type, name, e) =>
    .fields ⟨[], true⟩ type [⟨name, 0, some e, 1⟩]))]

def oneClass (members : List (Java.TypeUse × Name × Java.Expr)) : Program :=
  match addFile ⟨[], []⟩ "A.java" (oneClassFile members) with
  | .ok p => p
  | .error _ => ⟨[], []⟩

theorem built_oneClass (members : List (Java.TypeUse × Name × Java.Expr)) :
    (oneClass members).Built :=
  @Built.addFile ⟨[], []⟩ _ "A.java" (oneClassFile members) (.start []) rfl

/-- Fields of several types, none of which is converted. -/
def promoted : Program := oneClass [
  (.other (.ok "int"), "N", .integer (.ok "0x7fff_ffff")),
  (.other (.ok "char"), "C", .character (.ok "'\\u0041'")),
  (.other (.ok "boolean"), "B", .unary .negation (.boolean false)),
  (.other (.ok "long"), "M",
    .unary .minus (.paren (.plus (.name "N") (.integer (.ok "1L"))))),
  (.named (.ok "String"), "S", .plus (.plus (.plus (.plus (.plus
    (.string (.ok "\"n\\75\\u0020\""))
    (.paren (.plus (.name "N") (.integer (.ok "1"))))) (.name "C"))
    (.paren (.plus (.field (.ok "A") "C") (.integer (.ok "1"))))) (.name "B")) (.name "M"))]

theorem constant_typed_promoted :
    ∃ f t, promoted.fields[4]? = some f ∧
      Utf16.units t = Utf16.units "n= -2147483648A66true-2147483648" ∧
      answer (promoted.constant f) (demandAll promoted.constant promoted.fields .empty).2 =
        .ok (some (.string t)) := by
  have hbuilt : promoted.Built := built_oneClass _
  have hplain : ∀ g ∈ promoted.fields, PlainLiterals g := by decide +kernel
  obtain ⟨f, hf, htyped, hkept⟩ : ∃ f, promoted.fields[4]? = some f ∧
      valueTo .typed promoted 3 f =
        some (.string (Utf16.units "n= -2147483648A66true-2147483648")) ∧
      valueTo .unconverted promoted 3 f =
        some (.string (Utf16.units "n= -2147483648A66true-2147483648")) :=
    ⟨_, rfl, by decide +kernel, by decide +kernel⟩
  have hmem := List.mem_of_getElem? hf
  obtain ⟨t, hanswer, hexact⟩ := (constant_typed hbuilt hmem (derives_of_valueTo htyped)).2.1
    fun g hg => agreeingLiterals_of_plain
      (hplain g (hbuilt.wellScoped.mem_fields_of_uses hmem hg))
  exact ⟨f, t, hf, hexact.mpr (derives_of_valueTo hkept), hanswer promoted.fields fun _ hg => hg⟩

/-- A `long` that is used as an `int`, and a Unicode escape that begins an escape sequence. -/
def widened : Program := oneClass [
  (.other (.ok "long"), "L", .integer (.ok "2147483647")),
  (.named (.ok "String"), "S", .plus (.string (.ok "\"\""))
    (.paren (.plus (.name "L") (.integer (.ok "1"))))),
  (.named (.ok "String"), "T", .string (.ok "\"\\u005cn\""))]

/-- Texts of the language that the answers differ from, each by one of the two causes. -/
theorem constant_ne_typed :
    widened.Built ∧ ∃ l s t, widened.fields = [l, s, t] ∧
      widened.Converts l ∧
      widened.Derives .typed (.field s) (.string (Utf16.units "2147483648")) ∧
      widened.alone s = .ok (some (.string "-2147483648")) ∧
      ¬PlainLiterals t ∧
      widened.Derives .typed (.field t) (.string (Utf16.units "\n")) ∧
      widened.alone t = .ok (some (.string "\\n")) := by
  refine ⟨built_oneClass _, _, _, _, rfl, ?_, ?_, ?_, ?_, ?_, ?_⟩
  · exact ⟨_, "long", .int 2147483647, .long 2147483647, rfl, rfl,
      .integer (by decide +kernel), by decide +kernel, by decide⟩
  · exact derives_of_valueTo (show valueTo .typed widened 2 _ = _ by decide +kernel)
  · decide +kernel
  · decide +kernel
  · exact derives_of_valueTo (show valueTo .typed widened 1 _ = _ by decide +kernel)
  · decide +kernel

end Program

end LookupGen
