import LookupGen.Proofs.Java.Brackets

/-!
# Rules that balance

What each rule of the grammar takes has matching brackets: types, annotations and modifiers before a
body, expressions wherever braces may stand, statements and members among statements.
-/

namespace LookupGen.Java

open Java.Parser

-- A rule is a long chain of parsers, and every link of it counts.
set_option synthInstance.maxSize 20000

class Rules.Balance (r : Rules) : Prop where
  type : ∀ f, Balances f r.type
  typeArguments : ∀ f, Balances f r.typeArguments
  annotationUse : ∀ f, Balances f r.annotationUse
  elementValue : ∀ f [Surface.Loose f], Balances f r.elementValue
  expression : ∀ f [Surface.Loose f], Balances f r.expression
  unary : ∀ f [Surface.Loose f], Balances f r.unary
  arrayInitializer : ∀ f [Surface.Loose f], Balances f r.arrayInitializer
  pattern : ∀ f [Surface.Loose f], Balances f r.pattern
  block : ∀ f [Surface.Loose f], Balances f r.block
  statement : Balances .body r.statement
  typeDeclaration : ∀ m line, Balances .body (r.typeDeclaration m line)
  members : ∀ kind, Balances .body (r.members kind)

attribute [instance] Rules.Balance.type Rules.Balance.typeArguments Rules.Balance.annotationUse
  Rules.Balance.elementValue Rules.Balance.expression Rules.Balance.unary
  Rules.Balance.arrayInitializer Rules.Balance.pattern Rules.Balance.block Rules.Balance.statement
  Rules.Balance.typeDeclaration Rules.Balance.members

section Rules

variable (f : Surface) (r : Rules) [r.Balance]

instance : Balances f (dimensions r) := by unfold dimensions; infer_instance

instance (also : Token → Bool) : Balances f (tokenWhere fun t => isAnyWord t && also t) :=
  balances_tokenWhere_and admits_of_isAnyWord

instance : Balances f (typeSegment r) := by unfold typeSegment; infer_instance
instance : Balances f (typeSegmentAfterDot r) := by unfold typeSegmentAfterDot; infer_instance
instance : Balances f (simpleType r) := by unfold simpleType; infer_instance
instance : Balances f (plainType r) := by
  unfold plainType
  have (n : Option Nat) (element : TypeUse) : Balances f (match n with
    | some n => pure (.array element n)
    | none => pure element : Parser TypeUse) := by cases n <;> infer_instance
  infer_instance
instance : Balances f (typeRule r) := by unfold typeRule; infer_instance
instance : Balances f (wildcard r) := by unfold wildcard; infer_instance
instance : Balances f (typeArgumentsRule r) := by unfold typeArgumentsRule; infer_instance
instance : Balances f (typeParameters r) := by unfold typeParameters; infer_instance
instance [f.Loose] : Balances f (elementValueRule r) := by unfold elementValueRule; infer_instance
instance [f.Loose] : Balances f (elementPair r) := by unfold elementPair; infer_instance
instance : Balances f (annotationArguments r) := by unfold annotationArguments; infer_instance
instance : Balances f (annotationRule r) := by unfold annotationRule; infer_instance
instance [f.Loose] : Balances f nonSealed := by
  have hminus : Balances f (tokenWhere fun t => isSign "-" t && t.isJoined) :=
    balances_tokenWhere_and admits_of_isSign
  have hsealed : Balances f (tokenWhere fun t => isWord "sealed" t && t.isJoined) :=
    balances_tokenWhere_and admits_of_isWord
  unfold nonSealed
  infer_instance
instance [f.Loose] : Balances f (modifier r) := by
  unfold modifier
  refine balances_peekTwo ?_
  intro t next
  dsimp only
  split <;> exact Balances.at t
instance [f.Loose] : Balances f (modifiers r) := by unfold modifiers; infer_instance

instance : Balances f (arguments r) := by unfold arguments; infer_instance

section Expressions

variable [f.Loose]

instance : Balances f (variableInitializer r) := by unfold variableInitializer; infer_instance
instance : Balances f (arrayInitializerRule r) := by unfold arrayInitializerRule; infer_instance
instance : Balances f (classBody r) := by unfold classBody; infer_instance
instance : Balances f (creationRest r) := by unfold creationRest; infer_instance
instance : Balances f (creation r) := by unfold creation; infer_instance
instance : Balances f (methodReferenceRest r) := by unfold methodReferenceRest; infer_instance
instance : Balances f (typeExpression r) := by unfold typeExpression; infer_instance
instance : Balances f (patternRule r) := by unfold patternRule; infer_instance

section

variable (conditional : Parser Operand) [Balances .body conditional]

instance : Balances .body (caseOperand conditional) := by unfold caseOperand; infer_instance
instance : Balances .body (switchLabel r conditional) := by unfold switchLabel; infer_instance
instance : Balances .body (arrowBranch r) := by unfold arrowBranch; infer_instance
instance : Balances f (switchBlock r conditional) := by unfold switchBlock; infer_instance
instance : Balances f (switchExpression r conditional) := by unfold switchExpression; infer_instance
instance : Balances f (memberAfterDot r owner) := by
  unfold memberAfterDot
  refine @Balances.bind _ _ _ _ _ _ ?_
  intro dot
  refine balances_peekTwo ?_
  intro t next
  dsimp only
  split
  · rename_i hkind
    exact .bind (.token (by rw [hkind]; rfl) _)
  all_goals exact Balances.at t
instance : Balances f (suffix r owner) := by
  unfold suffix
  refine balances_peek ?_
  intro t
  split <;> exact Balances.at t
instance : Balances f (operandHead r conditional) := by
  unfold operandHead
  refine balances_peekTwo ?_
  intro t next
  have hliteral (h : f.admits t.kind = true) (o : Operand) : BalancesAt f t (do
      let _ ← tokenWhere fun _ => true
      pure o) := .bind (.token h _)
  dsimp only
  split
  case h_1 | h_2 | h_3 | h_4 | h_6 | h_7 | h_8 | h_9 =>
    rename_i hkind
    exact hliteral (by rw [hkind]; rfl) _
  case h_10 =>
    rename_i hkind
    split
    · exact hliteral (by rw [hkind]; rfl) _
    · exact Balances.at t
  all_goals exact Balances.at t
instance : Balances f (primary r conditional) := by unfold primary; infer_instance

end

instance : Balances f (lambdaParameters r) := by unfold lambdaParameters; infer_instance
instance : Balances f (lambda r) := by unfold lambda; infer_instance
instance : Balances f (cast r) := by unfold cast; infer_instance
instance : Balances f unaryOp := by
  unfold unaryOp
  refine balances_peek ?_
  intro t
  dsimp only
  split
  case h_5 => exact Balances.at t
  all_goals
    rename_i hkind
    exact .pure_bind (.bind (.token (by rw [hkind]; exact Surface.admits_loose rfl) _))
instance (conditional : Parser Operand) [Balances f conditional] [Balances .body conditional] :
    Balances f (unaryRule r conditional) := by
  unfold unaryRule
  refine balances_peek ?_
  intro t
  split
  case h_1 | h_2 =>
    rename_i hkind
    exact .bind (.token (by rw [hkind]; exact Surface.admits_loose rfl) _)
  all_goals exact Balances.at t

instance : Balances f angles := by
  have hjoined (s : String) [Admits f s] :
      Balances f (tokenWhere fun t => isSign s t && t.isJoined) :=
    balances_tokenWhere_and admits_of_isSign
  unfold angles
  infer_instance

/-- An operator is a sign, or what follows a closing angle. -/
theorem balanced_of_operatorSign {ts rest : List Token} {s : String}
    (h : Takes operatorSign ts s rest) (hs : f.admits (.sign s) = true) :
    ∃ us, ts = us ++ rest ∧ Balanced f us := by
  obtain ⟨t, mid, hpeek, hsign⟩ := takes_bind.mp h
  obtain ⟨rfl, hhead⟩ := takes_peek hpeek
  split at hsign
  · exact Balances.taken hsign
  · rename_i s' _ hkind
    obtain ⟨u, late, htoken, hpure⟩ := takes_bind.mp hsign
    obtain ⟨rfl, rfl⟩ := takes_pure.mp hpure
    obtain ⟨rfl, -⟩ := takes_tokenWhere htoken
    obtain rfl := Option.some.inj hhead
    exact ⟨[u], rfl, .token (by rw [hkind]; exact hs)⟩
  · exact absurd hsign not_takes_refuse

theorem balances_operator {α : Type} {k : String → Parser α} (c : String → Bool)
    (hc : ∀ s, c s = true → f.admits (.sign s) = true) [hk : ∀ s, Balances f (k s)] :
    Balances f (do
      let s ← lookahead operatorSign
      if c s then
        let _ ← operatorSign
        k s
      else refuse) where
  taken h := by
    obtain ⟨s, mid, hahead, hnext⟩ := takes_bind.mp h
    obtain rfl := takes_lookahead hahead
    split at hnext
    · rename_i hs
      obtain ⟨s', late, hsign, hlast⟩ := takes_bind.mp hnext
      obtain ⟨first, hfirst⟩ := exists_of_lookahead hahead
      obtain ⟨rfl, rfl⟩ := hfirst.unique hsign
      obtain ⟨us, hts, hus⟩ := balanced_of_operatorSign f hsign (hc s hs)
      exact balanced_bind hts hus ((hk s).taken hlast)
    · exact absurd hnext not_takes_refuse

instance : Balances f (typeTest r) := by unfold typeTest; infer_instance

def AdmitsAll (f : Surface) (signs : List String) : Prop := ∀ s ∈ signs, f.admits (.sign s) = true

theorem balances_binaryStep {signs : List String} (hsigns : AdmitsAll f signs)
    (next : Parser Operand) [Balances f next] (left : Operand) :
    Balances f (binaryStep r signs next left) := by
  unfold binaryStep
  refine @Balances.bind _ _ _ _ _ _ ?_
  intro t
  split
  · infer_instance
  · exact balances_operator f signs.contains fun s hs => hsigns s (List.contains_iff_mem.mp hs)

theorem balances_binary (unary : Parser Operand) [Balances f unary] {levels : List (List String)}
    (hlevels : ∀ signs ∈ levels, AdmitsAll f signs) : Balances f (binary r unary levels) := by
  induction levels with
  | nil => assumption
  | cons signs tighter ih =>
    obtain ⟨hsigns, htighter⟩ := List.forall_mem_cons.mp hlevels
    have htighter := ih htighter
    have hstep (left : Operand) := balances_binaryStep f r hsigns (binary r unary tighter) left
    unfold binary
    infer_instance

theorem admitsAll_binaryLevels : ∀ signs ∈ binaryLevels.reverse, AdmitsAll f signs := by
  have h : ∀ signs ∈ binaryLevels.reverse, AdmitsAll .expression signs := by
    unfold AdmitsAll
    decide
  exact fun signs hsigns s hs => Surface.admits_loose (h signs hsigns s hs)

theorem admitsAll_assignmentSigns : AdmitsAll f assignmentSigns := by
  have h : AdmitsAll .expression assignmentSigns := by
    unfold AdmitsAll
    decide
  exact fun s hs => Surface.admits_loose (h s hs)

instance (unary : Parser Operand) [Balances f unary] : Balances f (conditionalFrom r unary) := by
  have := balances_binary f r unary (admitsAll_binaryLevels f)
  unfold conditionalFrom
  infer_instance
instance : Balances f (conditional r) := by unfold conditional; infer_instance
instance : Balances f (expressionRule r) := by
  have hassign (left : Operand) : Balances f (do
      let s ← lookahead operatorSign
      if assignmentSigns.contains s && left.assignable then
        let _ ← operatorSign
        r.expression
      else refuse) := by
    refine balances_operator f (fun s => assignmentSigns.contains s && left.assignable) ?_
    intro s hs
    exact admitsAll_assignmentSigns f s (List.contains_iff_mem.mp (Bool.and_eq_true_iff.mp hs).1)
  unfold expressionRule
  infer_instance

end Expressions

instance [f.Loose] : Balances f (blockRule r) := by unfold blockRule; infer_instance
instance : Balances f (variableName r) := by unfold variableName; infer_instance
instance [f.Loose] : Balances f (declarator r) := by unfold declarator; infer_instance
instance [f.Loose] : Balances f (declarators r) := by unfold declarators; infer_instance
instance : Balances .body (localVariables r) := by unfold localVariables; infer_instance
instance : Balances f (condition r) := by unfold condition; infer_instance
instance : Balances .body (forRest r) := by unfold forRest; infer_instance
instance : Balances .body (catchClause r) := by unfold catchClause; infer_instance
instance : Balances .body (finallyClause r) := by unfold finallyClause; infer_instance
instance [f.Loose] : Balances f (resource r) := by unfold resource; infer_instance
instance : Balances .body (tryRest r) := by unfold tryRest; infer_instance

theorem balances_of_mem_keywordStatements {e : String × Parser Unit} (h : e ∈ keywordStatements r) :
    Balances .body e.2 := by
  simp only [keywordStatements, List.mem_cons, List.not_mem_nil, or_false] at h
  rcases h with rfl | rfl | rfl | rfl | rfl | rfl | rfl | rfl | rfl | rfl <;> infer_instance

instance : Balances .body (expressionStatement r) := by unfold expressionStatement; infer_instance
instance (s : String) (next : Option Token) : Balances .body (wordStatement r s next) := by
  unfold wordStatement
  split
  · rename_i rest hrest
    obtain ⟨before, after, heq, -⟩ := List.lookup_eq_some_iff.mp hrest
    have hmem : (s, rest) ∈ keywordStatements r := heq ▸ List.mem_append_right _ List.mem_cons_self
    have := balances_of_mem_keywordStatements r hmem
    infer_instance
  · infer_instance
instance : Balances .body moduleDirective := by unfold moduleDirective; infer_instance
instance : Balances .body (moduleDeclaration r) := by unfold moduleDeclaration; infer_instance
instance : Balances .body (packageDeclaration r) := by unfold packageDeclaration; infer_instance
instance : Balances .body importDeclaration := by unfold importDeclaration; infer_instance
instance : Balances .body (declaredType r) := by unfold declaredType; infer_instance
instance : Balances .body (statementRule r) := by
  unfold statementRule
  refine balances_peekTwo ?_
  intro t next
  dsimp only
  split <;> exact Balances.at t

instance : Balances .body (parameter r) := by unfold parameter; infer_instance
instance : Balances f (parameters r) := by unfold parameters; infer_instance
instance : Balances f (typesAfter r word) := by unfold typesAfter; infer_instance
instance (m : Modifiers) (line : Nat) : Balances .body (typeDeclarationRule r m line) := by
  unfold typeDeclarationRule
  refine balances_peek ?_
  intro t
  dsimp only
  split
  · rename_i hkind
    exact .bind (.token (by rw [hkind]; rfl) _)
  all_goals exact Balances.at t
instance : Balances f (throwsClause r) := by unfold throwsClause; infer_instance
instance : Balances .body (constructorCall r) := by unfold constructorCall; infer_instance
instance : Balances .body (constructorBody r) := by unfold constructorBody; infer_instance
instance : Balances .body (methodRest r m line) := by unfold methodRest; infer_instance
instance : Balances .body (constructorRest r m line) := by unfold constructorRest; infer_instance
instance : Balances .body (compactConstructorRest r m line) := by
  unfold compactConstructorRest; infer_instance
instance : Balances .body (elementRest r m line) := by unfold elementRest; infer_instance
instance : Balances .body (fieldsRest r m type) := by unfold fieldsRest; infer_instance
instance : Balances .body (typedMember r kind m line) := by unfold typedMember; infer_instance
instance : Balances .body (modifiedMember r kind) := by unfold modifiedMember; infer_instance
instance : Balances .body (member r kind) := by unfold member; infer_instance
instance : Balances .body (membersRule r kind) := by unfold membersRule; infer_instance
instance : Balances .body (looseMethod r) := by unfold looseMethod; infer_instance
instance : Balances .body (topLevel r) := by unfold topLevel; infer_instance

end Rules

instance (depth : Nat) : (rules depth).Balance := by
  induction depth with
  | zero =>
    have hrefuse (f : Surface) (α : Type) : Balances f (Parser.refuse : Parser α) := inferInstance
    exact ⟨fun f => hrefuse f _, fun f => hrefuse f _, fun f => hrefuse f _, fun f _ => hrefuse f _,
      fun f _ => hrefuse f _, fun f _ => hrefuse f _, fun f _ => hrefuse f _, fun f => hrefuse f _,
      fun f _ => hrefuse f _, hrefuse _ _, fun _ _ => hrefuse _ _, fun _ => hrefuse _ _⟩
  | succ depth ih =>
    exact {
      type := fun f => inferInstanceAs (Balances f (typeRule (rules depth)))
      typeArguments := fun f => inferInstanceAs (Balances f (typeArgumentsRule (rules depth)))
      annotationUse := fun f => inferInstanceAs (Balances f (annotationRule (rules depth)))
      elementValue := fun f _ => inferInstanceAs (Balances f (elementValueRule (rules depth)))
      expression := fun f _ => inferInstanceAs (Balances f (expressionRule (rules depth)))
      unary := fun f _ =>
        inferInstanceAs (Balances f (unaryRule (rules depth) (conditional (rules depth))))
      arrayInitializer := fun f _ =>
        inferInstanceAs (Balances f (arrayInitializerRule (rules depth)))
      pattern := fun f => inferInstanceAs (Balances f (patternRule (rules depth)))
      block := fun f _ => inferInstanceAs (Balances f (blockRule (rules depth)))
      statement := inferInstanceAs (Balances .body (statementRule (rules depth)))
      typeDeclaration := fun m line =>
        inferInstanceAs (Balances .body (typeDeclarationRule (rules depth) m line))
      members := fun kind => inferInstanceAs (Balances .body (membersRule (rules depth) kind)) }

end LookupGen.Java
