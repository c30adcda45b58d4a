import LookupGen.Java.Grammar
import LookupGen.Proofs.Java.Takes

/-!
# Parsers that advance

Every rule of the grammar takes tokens from the front and leaves the others as they are. There is an
instance for each way to put parsers together, and from these one for each rule.
-/

namespace LookupGen.Java

namespace Parser

variable {α β : Type}

/-- A parser takes tokens from the front, if it takes any. -/
class Advances (p : Parser α) : Prop where
  suffix : ∀ {ts a rest}, Takes p ts a rest → rest <:+ ts

section Instances

variable {p q : Parser α} {f : α → Parser β}

instance (a : α) : Advances (pure a : Parser α) where
  suffix h := by
    obtain ⟨-, rfl⟩ := takes_pure.mp h
    exact List.suffix_rfl

instance Advances.bind [Advances p] [hf : ∀ a, Advances (f a)] : Advances (p >>= f) where
  suffix h := by
    obtain ⟨a, mid, hp, h⟩ := takes_bind.mp h
    exact ((hf a).suffix h).trans (Advances.suffix hp)

instance [Advances p] : Advances (ignore p) where
  suffix h := by
    obtain ⟨a, hp⟩ := takes_ignore.mp h
    exact Advances.suffix hp

instance : Advances (refuse : Parser α) where
  suffix h := absurd h not_takes_refuse

instance [Advances p] [Advances q] : Advances (orElse p q) where
  suffix h := by
    rcases takes_orElse h with h | h
    · exact Advances.suffix h
    · exact Advances.suffix h

instance [Advances p] : Advances (firstOf [p]) :=
  inferInstanceAs (Advances p)

instance {ps : List (Parser α)} [Advances p] [Advances (firstOf (q :: ps))] :
    Advances (firstOf (p :: q :: ps)) :=
  inferInstanceAs (Advances (orElse p (firstOf (q :: ps))))

instance (c : Prop) [Decidable c] [Advances p] [Advances q] : Advances (if c then p else q) := by
  split
  · infer_instance
  · infer_instance

instance [Advances p] : Advances (optional p) where
  suffix h := by
    rcases takes_optional h with ⟨a, -, h⟩ | ⟨-, rfl⟩
    · exact Advances.suffix h
    · exact List.suffix_rfl

instance [Advances p] : Advances (many p) where
  suffix h := by
    have hrepeats := repeats_of_many h
    clear h
    induction hrepeats with
    | stop ts => exact List.suffix_rfl
    | next hp _ ih => exact ih.trans (Advances.suffix hp)

instance {step : α → Parser α} [∀ a, Advances (step a)] (a : α) : Advances (iterate step a) where
  suffix h := by
    have hiterates := iterates_of_iterate h
    clear h
    induction hiterates with
    | stop ts a => exact List.suffix_rfl
    | next hstep _ ih => exact ih.trans (Advances.suffix hstep)

instance {separator : Parser β} [Advances p] [Advances separator] :
    Advances (separated p separator) :=
  inferInstanceAs (Advances (p >>= fun head => many (separator >>= fun _ => p) >>= fun more =>
    pure (head :: more)))

instance : Advances peek where
  suffix h := (takes_peek h).1 ▸ List.suffix_rfl

instance : Advances peekTwo where
  suffix h := (takes_peekTwo h).1 ▸ List.suffix_rfl

instance : Advances (lookahead p) where
  suffix h := takes_lookahead h ▸ List.suffix_rfl

instance (is : Token → Bool) : Advances (tokenWhere is) where
  suffix h := (takes_tokenWhere h).1 ▸ List.suffix_cons _ _

instance (s : String) : Advances (sign s) := inferInstanceAs (Advances (tokenWhere _))

instance (s : String) : Advances (keyword s) := inferInstanceAs (Advances (tokenWhere _))

instance : Advances identifier where
  suffix h := by
    obtain ⟨t, s, rfl, -⟩ := takes_identifier h
    exact List.suffix_cons _ _

instance [Advances p] : Advances (withSpan p) where
  suffix h := Advances.suffix (takes_withSpan h).1

instance (opening closing : String) [Advances p] : Advances (enclosed opening p closing) := by
  unfold enclosed
  infer_instance

instance [Advances p] : Advances (commaSeparated p) := by
  unfold commaSeparated
  infer_instance

instance : Advances qualifiedName := by
  unfold qualifiedName
  infer_instance

end Instances

end Parser

open Java.Parser (Advances)

-- A rule is a long chain of parsers, and every link of it counts.
set_option synthInstance.maxSize 20000

class Rules.Advance (r : Rules) : Prop where
  type : Advances r.type
  typeArguments : Advances r.typeArguments
  annotationUse : Advances r.annotationUse
  elementValue : Advances r.elementValue
  expression : Advances r.expression
  unary : Advances r.unary
  arrayInitializer : Advances r.arrayInitializer
  pattern : Advances r.pattern
  block : Advances r.block
  statement : Advances r.statement
  typeDeclaration : ∀ m line, Advances (r.typeDeclaration m line)
  members : ∀ kind, Advances (r.members kind)

attribute [instance] Rules.Advance.type Rules.Advance.typeArguments Rules.Advance.annotationUse
  Rules.Advance.elementValue Rules.Advance.expression Rules.Advance.unary
  Rules.Advance.arrayInitializer Rules.Advance.pattern Rules.Advance.block Rules.Advance.statement
  Rules.Advance.typeDeclaration Rules.Advance.members

section Rules

variable (r : Rules) [r.Advance]

instance : Advances (dimensions r) := by unfold dimensions; infer_instance
instance : Advances (typeSegment r) := by unfold typeSegment; infer_instance
instance : Advances (typeSegmentAfterDot r) := by unfold typeSegmentAfterDot; infer_instance
instance : Advances (simpleType r) := by unfold simpleType; infer_instance
instance : Advances (plainType r) := by
  unfold plainType
  have (n : Option Nat) (element : TypeUse) : Advances (match n with
    | some n => pure (.array element n)
    | none => pure element : Parser TypeUse) := by cases n <;> infer_instance
  infer_instance
instance : Advances (typeRule r) := by unfold typeRule; infer_instance
instance : Advances (wildcard r) := by unfold wildcard; infer_instance
instance : Advances (typeArgumentsRule r) := by unfold typeArgumentsRule; infer_instance
instance : Advances (typeParameters r) := by unfold typeParameters; infer_instance
instance : Advances (elementValueRule r) := by unfold elementValueRule; infer_instance
instance : Advances (elementPair r) := by unfold elementPair; infer_instance
instance : Advances (annotationArguments r) := by unfold annotationArguments; infer_instance
instance : Advances (annotationRule r) := by unfold annotationRule; infer_instance
instance : Advances nonSealed := by unfold nonSealed; infer_instance
instance : Advances (modifier r) := by
  unfold modifier
  refine @Advances.bind _ _ _ _ _ ?_
  rintro ⟨t, next⟩
  dsimp only
  split <;> infer_instance
instance : Advances (modifiers r) := by unfold modifiers; infer_instance

instance : Advances (arguments r) := by unfold arguments; infer_instance
instance : Advances (variableInitializer r) := by unfold variableInitializer; infer_instance
instance : Advances (arrayInitializerRule r) := by unfold arrayInitializerRule; infer_instance
instance : Advances (classBody r) := by unfold classBody; infer_instance
instance : Advances (creationRest r) := by unfold creationRest; infer_instance
instance : Advances (creation r) := by unfold creation; infer_instance
instance : Advances (methodReferenceRest r) := by unfold methodReferenceRest; infer_instance
instance : Advances (typeExpression r) := by unfold typeExpression; infer_instance
instance : Advances (patternRule r) := by unfold patternRule; infer_instance

section

variable (conditional : Parser Operand) [Advances conditional]

instance : Advances (caseOperand conditional) := by unfold caseOperand; infer_instance
instance : Advances (switchLabel r conditional) := by unfold switchLabel; infer_instance
instance : Advances (arrowBranch r) := by unfold arrowBranch; infer_instance
instance : Advances (switchBlock r conditional) := by unfold switchBlock; infer_instance
instance : Advances (switchExpression r conditional) := by unfold switchExpression; infer_instance
instance : Advances (memberAfterDot r owner) := by
  unfold memberAfterDot
  refine @Advances.bind _ _ _ _ _ ?_
  intro dot
  refine @Advances.bind _ _ _ _ _ ?_
  rintro ⟨t, next⟩
  dsimp only
  split <;> infer_instance
instance : Advances (suffix r owner) := by
  unfold suffix
  refine @Advances.bind _ _ _ _ _ ?_
  intro t
  split <;> infer_instance
instance : Advances (operandHead r conditional) := by
  unfold operandHead
  refine @Advances.bind _ _ _ _ _ ?_
  rintro ⟨t, next⟩
  dsimp only
  split <;> infer_instance
instance : Advances (primary r conditional) := by unfold primary; infer_instance

end

instance : Advances (lambdaParameters r) := by unfold lambdaParameters; infer_instance
instance : Advances (lambda r) := by unfold lambda; infer_instance
instance : Advances (cast r) := by unfold cast; infer_instance
instance : Advances unaryOp := by
  unfold unaryOp
  refine @Advances.bind _ _ _ _ _ ?_
  intro t
  dsimp only
  split <;> infer_instance
instance (conditional : Parser Operand) [Advances conditional] :
    Advances (unaryRule r conditional) := by
  unfold unaryRule
  refine @Advances.bind _ _ _ _ _ ?_
  intro t
  split <;> infer_instance
instance : Advances angles := by unfold angles; infer_instance
instance : Advances operatorSign := by
  unfold operatorSign
  refine @Advances.bind _ _ _ _ _ ?_
  intro t
  split <;> infer_instance
instance : Advances (typeTest r) := by unfold typeTest; infer_instance
instance (signs : List String) (next : Parser Operand) [Advances next] (left : Operand) :
    Advances (binaryStep r signs next left) := by
  unfold binaryStep
  infer_instance
instance (unary : Parser Operand) [Advances unary] (levels : List (List String)) :
    Advances (binary r unary levels) := by
  induction levels with
  | nil => assumption
  | cons signs tighter ih =>
    unfold binary
    infer_instance
instance (unary : Parser Operand) [Advances unary] : Advances (conditionalFrom r unary) := by
  unfold conditionalFrom
  infer_instance
instance : Advances (conditional r) := by unfold conditional; infer_instance
instance : Advances (expressionRule r) := by unfold expressionRule; infer_instance

instance : Advances (blockRule r) := by unfold blockRule; infer_instance
instance : Advances (variableName r) := by unfold variableName; infer_instance
instance : Advances (declarator r) := by unfold declarator; infer_instance
instance : Advances (declarators r) := by unfold declarators; infer_instance
instance : Advances (localVariables r) := by unfold localVariables; infer_instance
instance : Advances (condition r) := by unfold condition; infer_instance
instance : Advances (forRest r) := by unfold forRest; infer_instance
instance : Advances (catchClause r) := by unfold catchClause; infer_instance
instance : Advances (finallyClause r) := by unfold finallyClause; infer_instance
instance : Advances (resource r) := by unfold resource; infer_instance
instance : Advances (tryRest r) := by unfold tryRest; infer_instance

theorem advances_of_mem_keywordStatements {e : String × Parser Unit} (h : e ∈ keywordStatements r) :
    Advances e.2 := by
  simp only [keywordStatements, List.mem_cons, List.not_mem_nil, or_false] at h
  rcases h with rfl | rfl | rfl | rfl | rfl | rfl | rfl | rfl | rfl | rfl <;> infer_instance

instance : Advances (expressionStatement r) := by unfold expressionStatement; infer_instance
instance (s : String) (next : Option Token) : Advances (wordStatement r s next) := by
  unfold wordStatement
  split
  · rename_i rest hrest
    obtain ⟨before, after, heq, -⟩ := List.lookup_eq_some_iff.mp hrest
    have hmem : (s, rest) ∈ keywordStatements r := heq ▸ List.mem_append_right _ List.mem_cons_self
    have := advances_of_mem_keywordStatements r hmem
    infer_instance
  · infer_instance
instance : Advances moduleDirective := by unfold moduleDirective; infer_instance
instance : Advances (moduleDeclaration r) := by unfold moduleDeclaration; infer_instance
instance : Advances (packageDeclaration r) := by unfold packageDeclaration; infer_instance
instance : Advances importDeclaration := by unfold importDeclaration; infer_instance
instance : Advances (declaredType r) := by unfold declaredType; infer_instance
instance : Advances (statementRule r) := by
  unfold statementRule
  refine @Advances.bind _ _ _ _ _ ?_
  rintro ⟨t, next⟩
  dsimp only
  split <;> infer_instance

instance : Advances (parameter r) := by unfold parameter; infer_instance
instance : Advances (parameters r) := by unfold parameters; infer_instance
instance : Advances (typesAfter r word) := by unfold typesAfter; infer_instance
instance (m : Modifiers) (line : Nat) : Advances (typeDeclarationRule r m line) := by
  unfold typeDeclarationRule
  refine @Advances.bind _ _ _ _ _ ?_
  intro t
  dsimp only
  split <;> infer_instance
instance : Advances (throwsClause r) := by unfold throwsClause; infer_instance
instance : Advances (constructorCall r) := by unfold constructorCall; infer_instance
instance : Advances (constructorBody r) := by unfold constructorBody; infer_instance
instance : Advances (methodRest r m line) := by unfold methodRest; infer_instance
instance : Advances (constructorRest r m line) := by unfold constructorRest; infer_instance
instance : Advances (compactConstructorRest r m line) := by
  unfold compactConstructorRest; infer_instance
instance : Advances (elementRest r m line) := by unfold elementRest; infer_instance
instance : Advances (fieldsRest r m type) := by unfold fieldsRest; infer_instance
instance : Advances (typedMember r kind m line) := by unfold typedMember; infer_instance
instance : Advances (modifiedMember r kind) := by unfold modifiedMember; infer_instance
instance : Advances (member r kind) := by unfold member; infer_instance
instance : Advances (membersRule r kind) := by unfold membersRule; infer_instance
instance : Advances (looseMethod r) := by unfold looseMethod; infer_instance
instance : Advances (topLevel r) := by unfold topLevel; infer_instance

end Rules

instance (depth : Nat) : (rules depth).Advance := by
  induction depth with
  | zero =>
    have hrefuse (α : Type) : Advances (Parser.refuse : Parser α) := inferInstance
    exact ⟨hrefuse _, hrefuse _, hrefuse _, hrefuse _, hrefuse _, hrefuse _, hrefuse _, hrefuse _,
      hrefuse _, hrefuse _, fun _ _ => hrefuse _, fun _ => hrefuse _⟩
  | succ depth ih =>
    exact {
      type := inferInstanceAs (Advances (typeRule (rules depth)))
      typeArguments := inferInstanceAs (Advances (typeArgumentsRule (rules depth)))
      annotationUse := inferInstanceAs (Advances (annotationRule (rules depth)))
      elementValue := inferInstanceAs (Advances (elementValueRule (rules depth)))
      expression := inferInstanceAs (Advances (expressionRule (rules depth)))
      unary := inferInstanceAs (Advances (unaryRule (rules depth) (conditional (rules depth))))
      arrayInitializer := inferInstanceAs (Advances (arrayInitializerRule (rules depth)))
      pattern := inferInstanceAs (Advances (patternRule (rules depth)))
      block := inferInstanceAs (Advances (blockRule (rules depth)))
      statement := inferInstanceAs (Advances (statementRule (rules depth)))
      typeDeclaration := fun m line =>
        inferInstanceAs (Advances (typeDeclarationRule (rules depth) m line))
      members := fun kind => inferInstanceAs (Advances (membersRule (rules depth) kind)) }

end LookupGen.Java
