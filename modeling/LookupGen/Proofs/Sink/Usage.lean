import LookupGen.Proofs.Sink
import LookupGen.Proofs.Table

/-!
# Sinks in use

Names are asked for, and texts are written through the handles of those that were given out. Any
number of writers may be open at a time, also several through one handle. A writer keeps its parts
to itself; they come to the sink when it is left, and they count only if it is left at its end.

The main statement says what a sink gives out and holds after any history of such actions. It does
NOT say what is on a disk while the writers of a sink below a directory are open.
-/

namespace LookupGen.Sink

/-- What is done with a sink. A writer is opened through the handle of a name and has a number, that
of the writers opened before it. The disk is the one that is there when a writer is left. -/
inductive Action where
  | create (name : Name)
  | start (name : Name)
  | put (writer : Nat) (part : Text)
  | leave (writer : Nat) (complete : Bool) (d : Disk)

/-- A writer: the name it writes for, its parts so far, and whether it has not been left yet. -/
structure Writer where
  name : Name
  parts : List Text
  isOpen : Bool

/-- A sink and all writers that were opened through its handles. -/
structure Usage where
  sink : Sink
  writers : List Writer

def written (s : Sink) (name : Name) (draft : Draft) (d : Disk) : Sink :=
  match (s.write name draft).run d with
  | (.ok s', _) => s'
  | (.error _, _) => s

namespace Writer

def add (part : Text) (w : Writer) : Writer :=
  if w.isOpen then { w with parts := w.parts ++ [part] } else w

@[simp] theorem name_add (part : Text) (w : Writer) : (w.add part).name = w.name := by
  unfold add
  split
  · rfl
  · rfl

def close (w : Writer) : Writer := { w with isOpen := false }

end Writer

namespace Usage

def openWriter? (u : Usage) (i : Nat) : Option Writer := u.writers[i]?.filter (·.isOpen)

/-- One action. What cannot be done, such as opening a writer without a handle or writing to one
that was left, changes nothing. -/
def step (u : Usage) : Action → Usage
  | .create name =>
    match u.sink.create name with
    | .ok sink => { u with sink := sink }
    | .error _ => u
  | .start name =>
    if u.sink.created.contains name then { u with writers := u.writers ++ [⟨name, [], true⟩] }
      else u
  | .put i part => { u with writers := u.writers.modify i (Writer.add part) }
  | .leave i complete d =>
    match u.openWriter? i with
    | some w => ⟨u.sink.written w.name ⟨w.parts, complete⟩ d, u.writers.modify i Writer.close⟩
    | none => u

def after (s : Sink) (history : List Action) : Usage := history.foldl step ⟨s, []⟩

/-- A request for a name was granted at some time. -/
def Granted (s : Sink) (history : List Action) (name : Name) : Prop :=
  ∃ before rest, history = before ++ .create name :: rest ∧
    ∃ s', (after s before).sink.create name = .ok s'

def completion? (u : Usage) : Action → Option (Name × Text)
  | .leave i true _ => (u.openWriter? i).map fun w => (w.name, Text.join w.parts)
  | _ => none

def completed (u : Usage) : List Action → List (Name × Text)
  | [] => []
  | a :: rest => (u.completion? a).toList ++ completed (u.step a) rest

def partFor? (i : Nat) : Action → Option Text
  | .put j part => if j = i then some part else none
  | _ => none

variable {u : Usage} {s : Sink} {store : Store} {history : List Action} {name : Name}

@[simp] theorem after_concat (s : Sink) (history : List Action) (a : Action) :
    after s (history ++ [a]) = (after s history).step a := by
  unfold after
  rw [List.foldl_append]
  rfl

theorem after_append (s : Sink) (history rest : List Action) :
    after s (history ++ rest) = rest.foldl step (after s history) := by
  unfold after
  rw [List.foldl_append]

@[simp] theorem created_written (s : Sink) (name : Name) (draft : Draft) (d : Disk) :
    (s.written name draft d).created = s.created := by
  unfold written
  split
  · rename_i s' d' hrun
    exact (write_sink hrun).1
  · rfl

theorem created_step (u : Usage) (a : Action) :
    (u.step a).sink.created = u.sink.created ∨
    ∃ name, a = .create name ∧ (∃ s, u.sink.create name = .ok s) ∧
      (u.step a).sink.created = name :: u.sink.created := by
  cases a with
  | create name =>
    rcases create_answers u.sink name with ⟨hnew, s', hs', -⟩ | ⟨-, e, he⟩
    · refine .inr ⟨name, rfl, ⟨s', hs'⟩, ?_⟩
      rw [step, create_of_new hnew]
    · left
      rw [step, he]
  | start name =>
    left
    rw [step]
    split
    · rfl
    · rfl
  | put i part => exact .inl rfl
  | leave i complete d =>
    left
    rw [step]
    cases u.openWriter? i with
    | none => rfl
    | some w => exact created_written u.sink w.name _ d

theorem subset_created_step (u : Usage) (a : Action) :
    u.sink.created ⊆ (u.step a).sink.created := by
  rcases created_step u a with h | ⟨name, -, -, h⟩
  · rw [h]
    exact List.Subset.refl _
  · rw [h]
    exact List.subset_cons_self name _

theorem mem_created_iff (store : Store) (history : List Action) (name : Name) :
    name ∈ (after ⟨store, []⟩ history).sink.created ↔ Granted ⟨store, []⟩ history name := by
  induction history using List.reverseRecOn with
  | nil =>
    apply iff_of_false List.not_mem_nil
    rintro ⟨before, rest, h, -⟩
    exact absurd h.symm (List.append_ne_nil_of_right_ne_nil _ (List.cons_ne_nil _ _))
  | append_singleton history a ih =>
    rw [after_concat]
    constructor
    · intro hmem
      have hold (h : name ∈ (after ⟨store, []⟩ history).sink.created) :
          Granted ⟨store, []⟩ (history ++ [a]) name := by
        obtain ⟨before, rest, rfl, hs⟩ := ih.mp h
        exact ⟨before, rest ++ [a], by rw [List.append_assoc, List.cons_append], hs⟩
      rcases created_step (after ⟨store, []⟩ history) a with h | ⟨other, rfl, hs, h⟩
      · exact hold (h ▸ hmem)
      · rw [h] at hmem
        rcases List.mem_cons.mp hmem with rfl | hmem
        · exact ⟨history, [], rfl, hs⟩
        · exact hold hmem
    · rintro ⟨before, rest, heq, hs⟩
      rcases List.eq_nil_or_concat rest with rfl | ⟨rest, b, rfl⟩
      · obtain ⟨rfl, rfl⟩ := List.append_singleton_inj.mp heq
        rcases create_answers (after ⟨store, []⟩ history).sink name with ⟨hnew, -⟩ | ⟨-, e, he⟩
        · rw [step, create_of_new hnew]
          exact List.mem_cons_self
        · obtain ⟨s', hs'⟩ := hs
          rw [he] at hs'
          cases hs'
      · rw [List.concat_eq_append, ← List.cons_append, ← List.append_assoc] at heq
        obtain ⟨rfl, rfl⟩ := List.append_singleton_inj.mp heq
        exact subset_created_step _ a (ih.mpr ⟨before, rest, rfl, hs⟩)

theorem step_create_of_error {e : NameFault} (h : u.sink.create name = .error e) :
    u.step (.create name) = u := by
  rw [step, h]

theorem openWriter?_eq_some {i : Nat} {w : Writer} (h : u.openWriter? i = some w) :
    u.writers[i]? = some w ∧ w.isOpen = true := Option.filter_eq_some_iff.mp h

theorem exists_of_mem_modify {ws : List Writer} {i : Nat} {f : Writer → Writer}
    (hf : ∀ w, (f w).name = w.name) {w : Writer} (h : w ∈ ws.modify i f) :
    ∃ v ∈ ws, v.name = w.name := by
  obtain ⟨j, hj⟩ := List.mem_iff_getElem?.mp h
  rw [List.getElem?_modify] at hj
  obtain ⟨v, hv, rfl⟩ := Option.map_eq_some_iff.mp hj
  refine ⟨v, List.mem_of_getElem? hv, ?_⟩
  split
  · exact (hf v).symm
  · rfl

theorem name_of_mem_step {a : Action} {w : Writer} (h : w ∈ (u.step a).writers) :
    (∃ v ∈ u.writers, v.name = w.name) ∨ w.name ∈ u.sink.created := by
  cases a with
  | create other =>
    rw [step] at h
    split at h
    · exact .inl ⟨w, h, rfl⟩
    · exact .inl ⟨w, h, rfl⟩
  | start other =>
    rw [step] at h
    split at h
    · rename_i hother
      rcases List.mem_append.mp h with h | h
      · exact .inl ⟨w, h, rfl⟩
      · rw [List.mem_singleton.mp h]
        exact .inr (List.contains_iff_mem.mp hother)
    · exact .inl ⟨w, h, rfl⟩
  | put i part => exact .inl (exists_of_mem_modify (Writer.name_add part) h)
  | leave i complete d =>
    rw [step] at h
    split at h
    · exact .inl (exists_of_mem_modify (f := Writer.close) (fun _ => rfl) h)
    · exact .inl ⟨w, h, rfl⟩

theorem name_mem_created (store : Store) (history : List Action) :
    ∀ w ∈ (after ⟨store, []⟩ history).writers,
      w.name ∈ (after ⟨store, []⟩ history).sink.created := by
  induction history using List.reverseRecOn with
  | nil => exact fun w hw => absurd hw List.not_mem_nil
  | append_singleton history a ih =>
    rw [after_concat]
    intro w hw
    apply subset_created_step
    rcases name_of_mem_step hw with ⟨v, hv, hname⟩ | hname
    · rw [← hname]
      exact ih v hv
    · exact hname

theorem getElem?_writers_step {i : Nat} {w : Writer} (hw : u.writers[i]? = some w)
    (hopen : w.isOpen = true) {a : Action} (ha : ∀ complete d, a ≠ .leave i complete d) :
    (u.step a).writers[i]? = some { w with parts := w.parts ++ (partFor? i a).toList } := by
  have hsame : ({ w with parts := w.parts ++ [] } : Writer) = w := by rw [List.append_nil]
  cases a with
  | create name =>
    rw [step]
    split
    · exact hw.trans (congrArg some hsame.symm)
    · exact hw.trans (congrArg some hsame.symm)
  | start name =>
    rw [step]
    split
    · obtain ⟨hi, -⟩ := List.getElem?_eq_some_iff.mp hw
      simp only
      rw [List.getElem?_append_left hi]
      exact hw.trans (congrArg some hsame.symm)
    · exact hw.trans (congrArg some hsame.symm)
  | put j part =>
    simp only [step, partFor?]
    rw [List.getElem?_modify, hw]
    by_cases hj : j = i
    · simp [hj, Writer.add, hopen]
    · simp [hj]
  | leave j complete d =>
    have hj : j ≠ i := fun hj => ha complete d (by rw [hj])
    rw [step]
    split
    · simp only
      rw [List.getElem?_modify, hw, Option.map_eq_map, Option.map_some, if_neg hj]
      exact congrArg some hsame.symm
    · exact hw.trans (congrArg some hsame.symm)

theorem getElem?_writers_start (hname : name ∈ u.sink.created) {between : List Action}
    (hbetween : ∀ complete d, .leave u.writers.length complete d ∉ between) :
    (between.foldl step (u.step (.start name))).writers[u.writers.length]? =
      some ⟨name, between.filterMap (partFor? u.writers.length), true⟩ := by
  induction between using List.reverseRecOn with
  | nil =>
    rw [List.foldl_nil, step, if_pos (List.contains_iff_mem.mpr hname)]
    exact List.getElem?_concat_length
  | append_singleton between a ih =>
    have hwriter := ih fun complete d hmem =>
      hbetween complete d (List.mem_append_left _ hmem)
    rw [List.foldl_concat, getElem?_writers_step hwriter rfl ?_, List.filterMap_append]
    · cases hpart : partFor? u.writers.length a with
      | none => simp [hpart]
      | some part => simp [hpart]
    · rintro complete d rfl
      exact hbetween complete d (List.mem_append_right _ (List.mem_singleton_self _))

variable {outputs : Table Name Text}

theorem store_step (h : u.sink.store = .memory outputs) (a : Action) :
    (u.step a).sink.store = .memory (Table.putAll (u.completion? a).toList outputs) := by
  cases a with
  | create name =>
    rcases create_answers u.sink name with ⟨-, s', hs', hstore⟩ | ⟨-, e, he⟩
    · rw [step, hs']
      exact hstore.trans h
    · rw [step_create_of_error he]
      exact h
  | start name =>
    rw [step]
    split
    · exact h
    · exact h
  | put i part => exact h
  | leave i complete d =>
    rw [step]
    cases hopen : u.openWriter? i with
    | none =>
      cases complete with
      | true => simpa [completion?, hopen, Table.putAll] using h
      | false => exact h
    | some w =>
      simp only [written, run_write_memory h]
      cases complete with
      | true => simp [completion?, hopen, Table.putAll]
      | false => rfl

theorem store_foldl_step (h : u.sink.store = .memory outputs) (history : List Action) :
    (history.foldl step u).sink.store = .memory (Table.putAll (u.completed history) outputs) := by
  induction history generalizing u outputs with
  | nil => exact h
  | cons a rest ih =>
    rw [List.foldl_cons, ih (store_step h a), completed, Table.putAll, Table.putAll, Table.putAll,
      List.foldl_append]

theorem outputs_after (history : List Action) :
    (after inMemory history).sink.outputs = Table.putAll (completed ⟨inMemory, []⟩ history) [] :=
  outputs_of_memory (store_foldl_step rfl history)

theorem store_after (history : List Action) :
    (after inMemory history).sink.store = .memory (after inMemory history).sink.outputs := by
  rw [outputs_after]
  exact store_foldl_step rfl history

theorem sink_step_leave (h : u.sink.store = .memory outputs) (i : Nat) (d : Disk) :
    (u.step (.leave i false d)).sink = u.sink := by
  rw [step]
  cases u.openWriter? i with
  | none => rfl
  | some w =>
    simp only [written, run_write_memory h]
    change (⟨.memory outputs, u.sink.created⟩ : Sink) = u.sink
    rw [← h]

theorem completion?_eq_some {a : Action} {e : Name × Text} (h : u.completion? a = some e) :
    ∃ i d w, a = .leave i true d ∧ u.openWriter? i = some w ∧ e = (w.name, Text.join w.parts) := by
  cases a with
  | create | start | put => cases h
  | leave i complete d =>
    cases complete with
    | false => cases h
    | true =>
      obtain ⟨w, hw, rfl⟩ := Option.map_eq_some_iff.mp h
      exact ⟨i, d, w, rfl, hw, rfl⟩

theorem lookup_outputs_step (h : u.sink.store = .memory outputs) {a : Action}
    (hname : (u.step a).sink.outputs.lookup name ≠ u.sink.outputs.lookup name) :
    ∃ i d w, a = .leave i true d ∧ u.openWriter? i = some w ∧ w.name = name := by
  rw [outputs_of_memory h, outputs_of_memory (store_step h a)] at hname
  cases hcompletion : u.completion? a with
  | none =>
    rw [hcompletion] at hname
    exact absurd rfl hname
  | some e =>
    obtain ⟨i, d, w, rfl, hw, rfl⟩ := completion?_eq_some hcompletion
    refine ⟨i, d, w, rfl, hw, ?_⟩
    by_contra hne
    rw [hcompletion] at hname
    exact hname (Table.lookup_put_of_ne (Ne.symm hne) _ outputs)

theorem keys_subset_created (history : List Action) :
    Table.keys (after inMemory history).sink.outputs ⊆ (after inMemory history).sink.created := by
  induction history using List.reverseRecOn with
  | nil => exact List.nil_subset _
  | append_singleton history a ih =>
    rw [after_concat, outputs_of_memory (store_step (store_after history) a)]
    intro name hname
    apply subset_created_step
    cases hcompletion : (after inMemory history).completion? a with
    | none =>
      rw [hcompletion] at hname
      exact ih hname
    | some e =>
      rw [hcompletion] at hname
      change name ∈ Table.keys (Table.put e.1 e.2 _) at hname
      by_cases hold : e.1 ∈ Table.keys (after inMemory history).sink.outputs
      · rw [Table.keys_put_of_mem hold] at hname
        exact ih hname
      · rw [Table.keys_put_of_not_mem hold] at hname
        rcases List.mem_append.mp hname with hname | hname
        · exact ih hname
        · obtain ⟨i, d, w, rfl, hw, rfl⟩ := completion?_eq_some hcompletion
          rw [List.mem_singleton.mp hname]
          have hwriter := (openWriter?_eq_some hw).1
          exact name_mem_created (.memory []) history w (List.mem_of_getElem? hwriter)

/-- A sink gives out a name just where it is valid and was not granted before; a request that is not
granted changes nothing. In memory it holds, after any history, the text that was completed last for
each name, in the order of the first ones, and all these names were granted. A text is completed
only where a writer is left at its end, and it is all that the writer got since it was opened. -/
theorem granted_and_kept (history : List Action) :
    (∀ store name,
      ((∃ s, (after ⟨store, []⟩ history).sink.create name = .ok s) ↔
        Name.isValid name = true ∧ ¬ Granted ⟨store, []⟩ history name) ∧
      ∀ e, (after ⟨store, []⟩ history).sink.create name = .error e →
        (after ⟨store, []⟩ history).step (.create name) = after ⟨store, []⟩ history) ∧
    (∀ name ∈ Table.keys (after inMemory history).sink.outputs, Granted inMemory history name) ∧
    (∀ name, (after inMemory history).sink.outputs.lookup name =
      (completed ⟨inMemory, []⟩ history).reverse.lookup name) ∧
    Table.keys (after inMemory history).sink.outputs =
      ((completed ⟨inMemory, []⟩ history).map (·.1)).eraseDups ∧
    (∀ i d, ((after inMemory history).step (.leave i false d)).sink =
      (after inMemory history).sink) ∧
    (∀ a name, ((after inMemory history).step a).sink.outputs.lookup name ≠
        (after inMemory history).sink.outputs.lookup name →
      ∃ i d w, a = .leave i true d ∧ (after inMemory history).openWriter? i = some w ∧
        w.name = name) ∧
    ∀ name between, Granted inMemory history name →
      (∀ complete d, .leave (after inMemory history).writers.length complete d ∉ between) →
      (after inMemory (history ++ .start name :: between)).openWriter?
          (after inMemory history).writers.length =
        some ⟨name, between.filterMap (partFor? (after inMemory history).writers.length),
          true⟩ := by
  refine ⟨?_, ?_, ?_, ?_, ?_, ?_, ?_⟩
  · intro store name
    refine ⟨?_, fun e => step_create_of_error⟩
    rw [← mem_created_iff]
    rcases create_answers (after ⟨store, []⟩ history).sink name with ⟨h, s', hs', -⟩ | ⟨h, e, he⟩
    · exact iff_of_true ⟨s', hs'⟩ h
    · refine iff_of_false ?_ h
      rintro ⟨s', hs'⟩
      rw [he] at hs'
      cases hs'
  · intro name hname
    exact (mem_created_iff (.memory []) history name).mp (keys_subset_created history hname)
  · intro name
    rw [outputs_after, Table.lookup_putAll]
  · rw [outputs_after, Table.keys_putAll]
  · exact fun i d => sink_step_leave (store_after history) i d
  · exact fun a name => lookup_outputs_step (store_after history)
  · intro name between hname hbetween
    have hcreated := (mem_created_iff (.memory []) history name).mpr hname
    have hwriter := getElem?_writers_start hcreated hbetween
    rw [openWriter?, after_append, List.foldl_cons]
    exact congrArg (Option.filter _) hwriter

/-- A name is asked for twice, and three of its writers are open at a time. The second one is left
at its end before the first one, and the third one breaks off. -/
def overlapping (d : Disk) : List Action :=
  [.create "q.A", .create "q.A", .start "q.A", .put 0 "one", .start "q.A", .start "q.A",
    .put 1 "two", .put 2 "three", .put 0 "more", .leave 1 true d, .put 1 "late", .leave 2 false d,
    .leave 0 true d]

theorem granted_and_kept_overlapping :
    Granted inMemory (overlapping ⟨.emptyDir, []⟩) "q.A" ∧
    (¬ ∃ s, (after inMemory (overlapping ⟨.emptyDir, []⟩)).sink.create "q.A" = .ok s) ∧
    (after inMemory (overlapping ⟨.emptyDir, []⟩)).sink.outputs.lookup (Text.ofString "q.A") =
      some "onemore" ∧
    (after inMemory
        ([.create "q.A"] ++ .start "q.A" :: [.put 1 "two", .put 0 "one"])).openWriter? 0 =
      some ⟨"q.A", ["one"], true⟩ := by
  have hkeys : (Text.ofString "q.A") ∈
      Table.keys (after inMemory (overlapping ⟨.emptyDir, []⟩)).sink.outputs := by decide +kernel
  obtain ⟨hcreate, hgranted, hlookup, -⟩ := granted_and_kept (overlapping ⟨.emptyDir, []⟩)
  obtain ⟨-, -, -, -, -, -, hwriter⟩ := granted_and_kept [.create "q.A"]
  have hfirst : Granted inMemory (overlapping ⟨.emptyDir, []⟩) "q.A" := hgranted _ hkeys
  refine ⟨hfirst, ?_, ?_, ?_⟩
  · intro h
    exact ((hcreate (.memory []) "q.A").1.mp h).2 hfirst
  · rw [hlookup]
    decide +kernel
  · refine hwriter "q.A" [.put 1 "two", .put 0 "one"] ?_ ?_
    · exact ⟨[], [], rfl, _, rfl⟩
    · intro complete d h
      simp at h

end Usage

end LookupGen.Sink
