import LookupGen.Proofs.Generation.Steps

/-!
# Writing lookup classes

A sink in memory takes each valid name once. So of a list of classes the first one of each valid
target is written, and each of the others is reported as an error. In a list in the order in which
classes are written, the first one of a target is the one with the smallest source name.
-/

namespace LookupGen

namespace Generation

/-- A generation that has put out some texts under the names that its sink has given out, and has
reported some errors. -/
structure Reached (p : Progress) (outputs : Table Name Text) (created : List Name)
    (errors : List Diagnostic) : Prop where
  sink : p.sink = ⟨.memory outputs, created⟩
  errors : Diagnostic.errors p.diagnostics = errors

variable {p : Progress} {outputs : Table Name Text} {created : List Name}
  {errors : List Diagnostic}

theorem Reached.record (h : Reached p outputs created errors) (level : Level) (text : Text) :
    Reached ((record level text).run p).2 outputs created errors := ⟨h.sink, h.errors⟩

theorem Reached.report_error (h : Reached p outputs created errors) {d : Diagnostic}
    (hd : d.severity = .error) :
    Reached ((report d).run p).2 outputs created (errors ++ [d]) := by
  refine ⟨h.sink, ?_⟩
  change Diagnostic.errors (p.diagnostics ++ [d]) = _
  rw [← h.errors]
  simp [Diagnostic.errors, List.filter_append, hd]

theorem Reached.report_other (h : Reached p outputs created errors) {d : Diagnostic}
    (hd : d.severity ≠ .error) : Reached ((report d).run p).2 outputs created errors := by
  refine ⟨h.sink, ?_⟩
  change Diagnostic.errors (p.diagnostics ++ [d]) = _
  rw [← h.errors]
  simp [Diagnostic.errors, List.filter_append, hd]

def refusal (target source : Name) : Diagnostic :=
  ⟨.error, Text.join ["Unable to generate source code file: ", target, ": ",
    if Name.isValid target then Text.join ["Attempt to recreate a file for type '", target, "'"]
    else Text.join ["Invalid type name '", target, "'"]], some source⟩

variable {r : Rules} {c : LookupClass} {text : Text}

theorem generate_written (h : Reached p outputs created errors)
    (hrender : c.render r.generator = some text) (hvalid : Name.isValid c.target = true)
    (hnew : c.target ∉ created) :
    ((generate r c).run p).1 = .ok true ∧
      Reached ((generate r c).run p).2 (Table.put c.target text outputs) (c.target :: created)
        errors := by
  have hcreate : p.sink.create c.target = .ok ⟨.memory outputs, c.target :: created⟩ := by
    rw [h.sink]
    simp [Sink.create, hvalid, hnew]
  have hdraft : draft r.generator c = ⟨[text], true⟩ := by
    unfold draft
    rw [hrender]
  have hwrite : (Sink.write c.target ⟨[text], true⟩ ⟨.memory outputs, c.target :: created⟩).run
      p.session.disk = (.ok ⟨.memory (Table.put c.target text outputs), c.target :: created⟩,
        p.session.disk) := by
    have hjoin : Text.join [text] = text := by simp [Text.join]
    conv_rhs => rw [← hjoin]
    rfl
  have hdeliver : (deliver r.generator c).run p =
      (.ok (),
        { p with sink := ⟨.memory (Table.put c.target text outputs), c.target :: created⟩ }) := by
    unfold deliver
    simp only [StateT.run_bind, StateT.run_get, pure_bind, hcreate, hdraft, hwrite]
    rfl
  unfold generate
  rw [StateT.run_bind, hdeliver]
  exact ⟨rfl, rfl, h.errors⟩

theorem generate_refused (h : Reached p outputs created errors) (hlog : r.errorLog = none)
    (hrefused : Name.isValid c.target = false ∨ c.target ∈ created) :
    ((generate r c).run p).1 = .ok false ∧
      Reached ((generate r c).run p).2 outputs created (errors ++ [refusal c.target c.source]) := by
  obtain ⟨e, hcreate, hmessage⟩ : ∃ e, p.sink.create c.target = .error e ∧
      (⟨.error, Text.join [failureHeading c, ": ", e.message], some c.source⟩ : Diagnostic) =
        refusal c.target c.source := by
    rw [h.sink]
    unfold Sink.create refusal
    cases hvalid : Name.isValid c.target with
    | false => exact ⟨_, rfl, by simp [Text.join, failureHeading, NameFault.message]⟩
    | true =>
      have hmem : c.target ∈ created := hrefused.resolve_left (by simp [hvalid])
      refine ⟨.repeated c.target, by simp [hmem], ?_⟩
      simp [Text.join, failureHeading, NameFault.message]
  have hdeliver : (deliver r.generator c).run p = (.error (.name e), p) := by
    unfold deliver
    simp only [StateT.run_bind, StateT.run_get, pure_bind, hcreate]
    rfl
  rw [← hmessage]
  unfold generate
  rw [StateT.run_bind, hdeliver]
  simp only [hlog]
  exact ⟨rfl, h.report_error rfl⟩

def divide (created : List Name) : List LookupClass → List LookupClass × List LookupClass
  | [] => ([], [])
  | c :: rest =>
    if Name.isValid c.target = true ∧ c.target ∉ created then
      ((c :: (divide (c.target :: created) rest).1), (divide (c.target :: created) rest).2)
    else ((divide created rest).1, c :: (divide created rest).2)

def written (r : Rules) (c : LookupClass) : Text := (c.render r.generator).getD []

theorem render_written (h : c.entries ≠ []) : c.render r.generator = some (written r c) := by
  unfold written LookupClass.render
  rw [if_neg (by simpa using h)]
  rfl

theorem generateAll_cons {rest : List LookupClass} {b : Bool} {generated failed : List Name}
    (hfirst : ((generate r c).run p).1 = .ok b)
    (hrest : ((generateAll r rest).run ((generate r c).run p).2).1 = .ok (generated, failed)) :
    (generateAll r (c :: rest)).run p =
      (.ok (if b then (c.target :: generated, failed) else (generated, c.target :: failed)),
        ((generateAll r rest).run ((generate r c).run p).2).2) := by
  rw [generateAll, StateT.run_bind]
  rcases hc : (generate r c).run p with ⟨answer, p'⟩
  rw [hc] at hfirst hrest
  simp only at hfirst hrest
  rw [hfirst]
  change StateT.run (generateAll r rest >>= _) p' = _
  rw [StateT.run_bind]
  rcases ha : (generateAll r rest).run p' with ⟨answers, p''⟩
  rw [ha] at hrest
  simp only at hrest
  rw [hrest]
  rfl

theorem generateAll_run (hlog : r.errorLog = none) {cs : List LookupClass}
    (hentries : ∀ c ∈ cs, c.entries ≠ []) (h : Reached p outputs created errors)
    (hkeys : Table.keys outputs ⊆ created) :
    ((generateAll r cs).run p).1 =
        .ok ((divide created cs).1.map (·.target), (divide created cs).2.map (·.target)) ∧
      Reached ((generateAll r cs).run p).2
        (outputs ++ (divide created cs).1.map fun c => (c.target, written r c))
        (((divide created cs).1.map (·.target)).reverse ++ created)
        (errors ++ (divide created cs).2.map fun c => refusal c.target c.source) := by
  induction cs generalizing p outputs created errors with
  | nil =>
    refine ⟨rfl, ?_⟩
    simp only [divide, List.map_nil, List.reverse_nil, List.nil_append, List.append_nil]
    exact h
  | cons c rest ih =>
    have hrest : ∀ d ∈ rest, d.entries ≠ [] := fun d hd => hentries d (List.mem_cons_of_mem c hd)
    by_cases hnew : Name.isValid c.target = true ∧ c.target ∉ created
    · obtain ⟨hanswer, hreached⟩ :=
        generate_written h (render_written (hentries c List.mem_cons_self)) hnew.1 hnew.2
      rw [Table.put_of_not_mem (fun hmem => hnew.2 (hkeys hmem))] at hreached
      have hkeys' : Table.keys (outputs ++ [(c.target, written r c)]) ⊆ c.target :: created := by
        intro t ht
        rw [Table.keys, List.map_append] at ht
        rcases List.mem_append.mp ht with ht | ht
        · exact List.mem_cons_of_mem _ (hkeys ht)
        · exact List.mem_cons.mpr (.inl (List.mem_singleton.mp ht))
      obtain ⟨hanswers, hlast⟩ := ih hrest hreached hkeys'
      rw [generateAll_cons hanswer hanswers]
      simp only [divide, if_pos hnew, List.map_cons, List.reverse_cons]
      refine ⟨rfl, ?_⟩
      simpa only [List.append_assoc, List.singleton_append, List.nil_append] using hlast
    · have hrefused : Name.isValid c.target = false ∨ c.target ∈ created := by
        by_cases hvalid : Name.isValid c.target = true
        · exact .inr (by_contra fun hmem => hnew ⟨hvalid, hmem⟩)
        · exact .inl (Bool.eq_false_iff.mpr hvalid)
      obtain ⟨hanswer, hreached⟩ := generate_refused h hlog hrefused
      obtain ⟨hanswers, hlast⟩ := ih hrest hreached hkeys
      rw [generateAll_cons hanswer hanswers]
      simp only [divide, if_neg hnew, List.map_cons]
      refine ⟨rfl, ?_⟩
      simpa only [List.append_assoc, List.singleton_append] using hlast

/-- The order in which classes are written, and no two of one source. -/
def Before (a b : LookupClass) : Prop :=
  a.target < b.target ∨ (a.target = b.target ∧ a.source < b.source)

/-- A class that is written: its name is valid, and no other class of the name has a smaller
source. -/
def Wins (cs : List LookupClass) (c : LookupClass) : Prop :=
  Name.isValid c.target = true ∧ ∀ d ∈ cs, d.target = c.target → c.source ≤ d.source

instance (cs : List LookupClass) (c : LookupClass) : Decidable (Wins cs c) :=
  inferInstanceAs (Decidable (_ ∧ _))

theorem wins_cons_self {c : LookupClass} {rest : List LookupClass} (h : ∀ d ∈ rest, Before c d) :
    Wins (c :: rest) c ↔ Name.isValid c.target = true := by
  refine ⟨fun hwins => hwins.1, fun hvalid => ⟨hvalid, ?_⟩⟩
  intro d hd htarget
  rcases List.mem_cons.mp hd with rfl | hd
  · exact le_refl _
  · rcases h d hd with hlt | ⟨-, hlt⟩
    · exact absurd htarget.symm (ne_of_lt hlt)
    · exact le_of_lt hlt

theorem wins_cons_iff {c d : LookupClass} {rest : List LookupClass} (h : Before c d) :
    Wins (c :: rest) d ↔ Wins rest d ∧ d.target ≠ c.target := by
  constructor
  · rintro ⟨hvalid, hmin⟩
    refine ⟨⟨hvalid, fun e he => hmin e (List.mem_cons_of_mem c he)⟩, ?_⟩
    intro htarget
    rcases h with hlt | ⟨-, hlt⟩
    · exact absurd htarget.symm (ne_of_lt hlt)
    · exact absurd (hmin c List.mem_cons_self htarget.symm) (not_le_of_gt hlt)
  · rintro ⟨⟨hvalid, hmin⟩, htarget⟩
    refine ⟨hvalid, ?_⟩
    intro e he heq
    rcases List.mem_cons.mp he with rfl | he
    · exact absurd heq.symm htarget
    · exact hmin e he heq

theorem divide_eq_filter {cs : List LookupClass} (hsorted : cs.Pairwise Before)
    (created : List Name) :
    divide created cs =
      (cs.filter fun c => decide (Wins cs c ∧ c.target ∉ created),
        cs.filter fun c => decide (¬ (Wins cs c ∧ c.target ∉ created))) := by
  induction cs generalizing created with
  | nil => rfl
  | cons c rest ih =>
    obtain ⟨hbefore, hrest⟩ := List.pairwise_cons.mp hsorted
    have hself : Wins (c :: rest) c ∧ c.target ∉ created ↔
        Name.isValid c.target = true ∧ c.target ∉ created := by rw [wins_cons_self hbefore]
    by_cases hnew : Name.isValid c.target = true ∧ c.target ∉ created
    · have hagree : ∀ d ∈ rest, (Wins (c :: rest) d ∧ d.target ∉ created ↔
          Wins rest d ∧ d.target ∉ c.target :: created) := by
        intro d hd
        rw [wins_cons_iff (hbefore d hd), List.mem_cons, not_or, and_assoc]
      rw [divide, if_pos hnew, ih hrest, List.filter_cons_of_pos (by simpa using hself.mpr hnew),
        List.filter_cons_of_neg (by simpa using hself.mpr hnew),
        List.filter_congr fun d hd => decide_eq_decide.mpr (hagree d hd),
        List.filter_congr fun d hd => decide_eq_decide.mpr (not_congr (hagree d hd))]
    · have hagree : ∀ d ∈ rest, (Wins (c :: rest) d ∧ d.target ∉ created ↔
          Wins rest d ∧ d.target ∉ created) := by
        intro d hd
        rw [wins_cons_iff (hbefore d hd)]
        constructor
        · rintro ⟨⟨hwins, -⟩, hfree⟩
          exact ⟨hwins, hfree⟩
        · rintro ⟨hwins, hfree⟩
          refine ⟨⟨hwins, ?_⟩, hfree⟩
          intro htarget
          exact hnew (htarget ▸ ⟨hwins.1, hfree⟩)
      rw [divide, if_neg hnew, ih hrest,
        List.filter_cons_of_neg (by rw [decide_eq_true_eq, hself]; exact hnew),
        List.filter_cons_of_pos (by rw [decide_eq_true_eq, hself]; exact hnew),
        List.filter_congr fun d hd => decide_eq_decide.mpr (hagree d hd),
        List.filter_congr fun d hd => decide_eq_decide.mpr (not_congr (hagree d hd))]

end Generation

end LookupGen
