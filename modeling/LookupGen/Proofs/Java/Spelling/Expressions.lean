import LookupGen.Proofs.Java.Spelling.Types

/-!
# How names in expressions are spelled

A name in an expression is what stands before a dot, or a word after one. The operands of a chain
are followed one after another.
-/

namespace LookupGen.Java

open Java.Parser

variable {S : PartSpec} {file : List Token} {r : Rules} [r.Advance] (hr : r.Spelled S file)

include hr

theorem yields_variableInitializer :
    Yields file (variableInitializer r) (·.Holds S) := by
  unfold variableInitializer
  refine yields_bind fun t => ?_
  split
  · exact yields_bind fun _ => yields_pure trivial
  · exact hr.expression

section Operands

variable {owner : List Glyph} {conditional : Parser Operand} [Advances conditional]

omit hr in
theorem yields_memberAfterDot (howner : S.owner (Glyph.text owner)) :
    Yields file (memberAfterDot r owner) fun o => o.expr.Holds S := by
  unfold memberAfterDot
  refine yields_bind fun _ => yields_bind fun (t, next) => ?_
  dsimp only
  split
  · exact yields_bind fun _ => yields_pure trivial
  · exact yields_bind fun _ => yields_bind fun _ => yields_bind fun _ => yields_pure trivial
  · exact yields_bind fun _ => yields_pure trivial
  · refine yields_bind fun _ => yields_bind fun _ => ?_
    split
    · exact yields_bind fun _ => yields_pure trivial
    · refine yields_bind fun _ => yields_bind fun _ => yields_bind fun _ => yields_bind fun _ => ?_
      split
      · exact yields_bind fun _ => yields_pure trivial
      · exact yields_pure howner
  · refine yields_bind fun _ => ?_
    split
    · exact yields_bind fun _ => yields_pure trivial
    · exact yields_pure howner
  · exact yields_refuse

omit hr in
theorem yields_suffix (howner : S.owner (Glyph.text owner)) :
    Yields file (suffix r owner) fun o => o.expr.Holds S := by
  unfold suffix
  refine yields_bind fun t => ?_
  split
  · exact yields_memberAfterDot howner
  · exact yields_bind fun _ => yields_pure trivial
  · exact yields_bind fun _ => yields_pure trivial
  · exact yields_refuse

theorem yields_operandHead :
    Yields file (operandHead r conditional) fun o => o.expr.Holds S := by
  unfold operandHead
  refine yields_peekTwo.bind fun (t, next) ht => ?_
  dsimp only
  split
  · rename_i hkind
    exact yields_bind fun _ => yields_pure (hr.spec.string t ht hkind)
  · rename_i hkind
    exact yields_bind fun _ => yields_pure (hr.spec.character t ht hkind)
  · rename_i hkind
    exact yields_bind fun _ => yields_pure (hr.spec.integer t ht hkind)
  · exact yields_bind fun _ => yields_pure trivial
  · exact (hr.expression.enclosed _ _).bind fun _ he => yields_pure he
  · exact yields_bind fun _ => yields_pure trivial
  · exact yields_bind fun _ => yields_pure trivial
  · exact yields_bind fun _ => yields_pure trivial
  · exact yields_bind fun _ => yields_pure trivial
  · split
    · exact yields_bind fun _ => yields_pure trivial
    · exact yields_refuse
  · exact yields_bind fun _ => yields_pure trivial
  · exact yields_bind fun _ => yields_pure trivial
  · exact yields_refuse
  · split
    · exact yields_refuse
    · apply yields_identifier.bind
      intro n hn
      split
      · exact yields_bind fun _ => yields_pure trivial
      · exact yields_pure (hr.spec.field n hn)
  · exact yields_refuse

theorem takes_further {us mid rest : List Token} {next : Operand × List Glyph}
    (hus : OperandTokens us)
    (h : Takes (do
      let gap := (← peek).gap
      let (o, more) ← withSpan (suffix r (Token.span us))
      pure (o, Token.span us ++ gap ++ more)) mid next rest) :
    Takes (suffix r (Token.span us)) mid next.1 rest ∧ ∃ vs, mid = vs ++ rest ∧
      next.2 = Token.span (us ++ vs) ∧ OperandTokens (us ++ vs) := by
  obtain ⟨t, same, hpeek, hafter⟩ := takes_bind.mp h
  obtain ⟨⟨o, more⟩, late, hspan, hpure⟩ := takes_bind.mp hafter
  obtain ⟨rfl, rfl⟩ := takes_pure.mp hpure
  obtain ⟨rfl, hhead⟩ := takes_peek hpeek
  obtain ⟨hsuffix, hmore⟩ := takes_withSpan hspan
  obtain ⟨vs, rfl, hvs⟩ := ends_suffix hr.ended _ _ _ _ hsuffix
  refine ⟨hsuffix, vs, rfl, ?_, .inr (hvs.append us)⟩
  cases vs with
  | nil => exact absurd rfl hvs.ne_nil
  | cons v vs =>
    obtain rfl := Option.some.inj hhead
    have htake : (v :: vs ++ rest).take ((v :: vs ++ rest).length - rest.length) = v :: vs := by
      rw [List.length_append, Nat.add_sub_cancel, List.take_left]
    rw [htake] at hmore
    rw [Token.span_append hus.ne_nil, ← hmore]

theorem meets_of_iterates {ts us mid rest : List Token} {a b : Operand × List Glyph}
    {step : Operand × List Glyph → Parser (Operand × List Glyph)}
    (hstep : ∀ a, step a = do
      let gap := (← peek).gap
      let (o, more) ← withSpan (suffix r a.2)
      pure (o, a.2 ++ gap ++ more))
    (h : Iterates step mid a b rest) (hts : ts <:+ file) (hsplit : ts = us ++ mid)
    (hus : OperandTokens us) (hspan : a.2 = Token.span us) (ha : a.1.expr.Holds S) :
    b.1.expr.Holds S := by
  -- By induction on what follows the operand: the owner of a field is always the text of all
  -- tokens so far.
  induction h generalizing us with
  | stop => exact ha
  | @next mid late rest a b c htakes _ ih =>
    rw [hstep, hspan] at htakes
    obtain ⟨hsuffix, vs, rfl, hnext, hoperand⟩ := takes_further hr hus htakes
    have howner := hr.spec.owner us (infix_of_suffix (hsplit ▸ hts)) hus
    have hmid : vs ++ late <:+ file := (hsplit ▸ List.suffix_append us _).trans hts
    refine ih ?_ hoperand hnext ((yields_suffix howner).value hmid hsuffix)
    rw [hsplit, List.append_assoc]

theorem yields_primary :
    Yields file (primary r conditional) fun o => o.expr.Holds S := by
  constructor
  intro ts o rest hts htakes
  obtain ⟨⟨head, span⟩, mid, hhead, hafter⟩ := takes_bind.mp htakes
  obtain ⟨⟨o', span'⟩, late, hiterate, hpure⟩ := takes_bind.mp hafter
  obtain ⟨rfl, rfl⟩ := takes_pure.mp hpure
  obtain ⟨hhead, hspan⟩ := takes_withSpan hhead
  have hoperand : ∃ us, ts = us ++ mid ∧ OperandTokens us ∧ head.expr.Holds S := by
    rcases takes_orElse hhead with htyped | hhead
    · obtain ⟨t, same, hpeek, h⟩ := takes_bind.mp htyped
      obtain ⟨rfl, -⟩ := takes_peek hpeek
      split at h
      · obtain ⟨us, hus, hended⟩ := ((ends_typeExpression hr.ended).then_pure _) _ _ _ h
        obtain ⟨u, last, -, hpure⟩ := takes_bind.mp h
        obtain ⟨rfl, -⟩ := takes_pure.mp hpure
        exact ⟨us, hus, .inr hended, trivial⟩
      · exact absurd h not_takes_refuse
    · obtain ⟨us, hus, hoperand⟩ := operandTokens_of_operandHead hr.ended hhead
      exact ⟨us, hus, hoperand, (yields_operandHead hr).value hts hhead⟩
  obtain ⟨us, rfl, hus, hmeets⟩ := hoperand
  refine meets_of_iterates hr (fun _ => rfl) (iterates_of_iterate hiterate) hts rfl hus ?_ hmeets
  simpa using hspan

theorem yields_unaryRule :
    Yields file (unaryRule r conditional) fun o => o.expr.Holds S := by
  have hpostfixed : Yields file (do
      let o ← primary r conditional
      let marks ← many (Parser.orElse (sign "++") (sign "--"))
      pure (if marks.isEmpty then o else otherOperand)) fun o => o.expr.Holds S := by
    refine (yields_primary hr).bind ?_
    intro o ho
    refine yields_bind fun marks => yields_pure ?_
    split
    · exact ho
    · trivial
  have hoperator : Yields file (do
      let op ← unaryOp
      let o ← r.unary
      pure (⟨.unary op o.expr, false⟩ : Operand)) fun o => o.expr.Holds S :=
    yields_bind fun _ => hr.unary.bind fun _ ho => yields_pure ho
  unfold unaryRule
  refine yields_bind fun t => ?_
  split
  · exact yields_bind fun _ => yields_bind fun _ => yields_pure trivial
  · exact yields_bind fun _ => yields_bind fun _ => yields_pure trivial
  · exact hoperator
  · exact hoperator
  · exact hoperator
  · exact hoperator
  · dsimp only
    split
    · exact (yields_bind fun _ => yields_pure trivial).orElse hpostfixed
    · exact hpostfixed

end Operands

omit hr in
theorem yields_binaryStep {signs : List String} {next : Parser Operand} [Advances next]
    (hnext : Yields file next fun o => o.expr.Holds S) {left : Operand}
    (hleft : left.expr.Holds S) :
    Yields file (binaryStep r signs next left) fun o => o.expr.Holds S := by
  unfold binaryStep
  refine yields_bind fun t => ?_
  split
  · exact yields_bind fun _ => yields_pure trivial
  · refine yields_bind fun s => ?_
    split
    · refine yields_bind fun _ => hnext.bind ?_
      intro right hright
      apply yields_pure
      dsimp only
      split
      · exact ⟨hleft, hright⟩
      · trivial
    · exact yields_refuse

omit hr in
theorem yields_binary {unary : Parser Operand} [Advances unary]
    (hunary : Yields file unary fun o => o.expr.Holds S) (levels : List (List String)) :
    Yields file (binary r unary levels) fun o => o.expr.Holds S := by
  induction levels with
  | nil => exact hunary
  | cons signs tighter ih =>
    unfold binary
    exact ih.bind fun head hhead => .iterate (fun _ hleft => yields_binaryStep ih hleft) hhead

omit hr in
theorem yields_conditionalFrom {unary : Parser Operand} [Advances unary]
    (hunary : Yields file unary fun o => o.expr.Holds S) :
    Yields file (conditionalFrom r unary) fun o => o.expr.Holds S := by
  unfold conditionalFrom
  refine (yields_binary hunary _).bind ?_
  intro head hhead
  refine yields_bind fun t => ?_
  split
  · exact yields_bind fun _ => yields_bind fun _ => yields_bind fun _ => yields_bind fun _ =>
      yields_pure trivial
  · exact yields_pure hhead

theorem yields_expressionRule : Yields file (expressionRule r) (·.Holds S) := by
  have hplain : Yields file (do
      let left ← conditional r
      let assigned ← optional (do
        let s ← lookahead operatorSign
        if assignmentSigns.contains s && left.assignable then
          let _ ← operatorSign
          r.expression
        else refuse)
      pure (if assigned.isSome then .other else left.expr)) (·.Holds S) := by
    refine (yields_conditionalFrom hr.unary).bind ?_
    intro left hleft
    refine yields_bind fun assigned => yields_pure ?_
    split
    · trivial
    · exact hleft
  unfold expressionRule
  refine yields_bind fun (t, next) => ?_
  dsimp only
  split
  · exact (yields_bind fun _ => yields_pure trivial).orElse hplain
  · exact hplain

end LookupGen.Java
