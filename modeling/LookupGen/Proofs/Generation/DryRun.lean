import LookupGen.Proofs.Generation.Repeat
import LookupGen.Proofs.Generation.Shown

/-!
# Generations in memory and below a directory

A generation with a sink in memory goes the way of one with a sink below a directory, class by
class, as long as the latter meets no failure of the disk and all texts have a UTF-8 form: the same
names are given out, the same is reported, and a text that is kept in memory is that of a file.

This module does NOT speak of generations that break off.
-/

namespace LookupGen

open Text (hasSurrogate)

namespace Generation

open Session (Logs Grown)

variable {r : Rules} {c d : LookupClass} {cs : List LookupClass} {p q : Progress} {root : Path}
  {outputs : Table Name Text}

/-- A class that a generation comes to, with the state in which it does. -/
inductive Visits (r : Rules) : List LookupClass → Progress → LookupClass → Progress → Prop where
  | here {c : LookupClass} {rest : List LookupClass} {p : Progress} : Visits r (c :: rest) p c p
  | later {c d : LookupClass} {rest : List LookupClass} {p q : Progress} {written : Bool}
      (hanswer : ((generate r d).run p).1 = .ok written)
      (h : Visits r rest ((generate r d).run p).2 c q) : Visits r (d :: rest) p c q

/-- A generation that meets no failure of the disk and renders no text without a UTF-8 form. -/
structure Smooth (r : Rules) (cs : List LookupClass) (p : Progress) : Prop where
  disk : ∀ c q e, Visits r cs p c q → ((deliver r.generator c).run q).1 ≠ .error (.write (.disk e))
  texts : ∀ c q t, Visits r cs p c q → IsNew q c.target → c.render r.generator = some t →
    hasSurrogate t = false

theorem Smooth.tail (h : Smooth r (c :: cs) p) {written : Bool}
    (hanswer : ((generate r c).run p).1 = .ok written) : Smooth r cs ((generate r c).run p).2 :=
  ⟨fun c q e hvisits => h.disk c q e (.later hanswer hvisits),
    fun c q t hvisits => h.texts c q t (.later hanswer hvisits)⟩

theorem smooth_nil : Smooth r [] p := by
  constructor
  · intro c q e hvisits
    cases hvisits
  · intro c q t hvisits
    cases hvisits

theorem smooth_cons
    (hdisk : ∀ e, ((deliver r.generator c).run p).1 ≠ .error (.write (.disk e)))
    (htext : IsNew p c.target → ∀ t, c.render r.generator = some t → hasSurrogate t = false)
    (htail : Smooth r cs ((generate r c).run p).2) : Smooth r (c :: cs) p := by
  constructor
  · intro d q e hvisits
    cases hvisits with
    | here => exact hdisk e
    | later hanswer h => exact htail.disk d q e h
  · intro d q t hvisits hnew
    cases hvisits with
    | here => exact htext hnew t
    | later hanswer h => exact htail.texts d q t h hnew

theorem Smooth.delivered (h : Smooth r (c :: cs) q) (hstore : q.sink.store = .directory root)
    (hd : q.session.disk.Sound) (hnew : IsNew q c.target) :
    Opens q root c ∧ ((deliver r.generator c).run q).1 =
      match c.render r.generator with
      | none => .error (.noEntries c.target)
      | some _ => .ok () := by
  have hanswer := (@deliver_directory c q root r.generator hstore hd hnew).1
  cases hopen : ((Sink.openFile (Sink.pathOf root c.target)).run q.session.disk).1 with
  | error e =>
    rw [hopen] at hanswer
    exact absurd hanswer (h.disk c q e .here)
  | ok u =>
    rw [hopen] at hanswer
    refine ⟨⟨hnew, hopen⟩, hanswer.trans ?_⟩
    simp only
    unfold verdict
    cases hrender : c.render r.generator with
    | none => rfl
    | some t =>
      obtain ⟨content, hcontent⟩ := Utf8.encode_isOk_iff.mpr (h.texts c q t .here hnew hrender)
      simp only [hcontent]

/-- A generation in memory that goes the way of one below a directory. -/
structure Mirrors (root : Path) (outputs : Table Name Text) (p q : Progress) : Prop where
  memory : p.sink.store = .memory outputs
  directory : q.sink.store = .directory root
  created : p.sink.created = q.sink.created
  diagnostics : p.diagnostics = q.diagnostics
  nodup : (Table.keys outputs).Nodup
  named : ∀ x ∈ outputs, Name.isValid x.1 = true ∧ x.1 ∈ q.sink.created
  files : ∀ x ∈ outputs, ∃ content, Utf8.encode x.2 = .ok content ∧
    q.session.disk.contentAt? (q.session.disk.placeOf (Sink.pathOf root x.1)) = some content

theorem Mirrors.isNew_iff (h : Mirrors root outputs p q) (name : Name) :
    IsNew p name ↔ IsNew q name := by
  unfold IsNew
  rw [h.created]

theorem Mirrors.delivered (h : Mirrors root outputs p q) (hd : q.session.disk.Sound)
    (hsmooth : Smooth r (c :: cs) q) :
    ((deliver r.generator c).run p).1 = ((deliver r.generator c).run q).1 := by
  by_cases hnew : IsNew q c.target
  · have hnewp := (h.isNew_iff c.target).mpr hnew
    rw [(hsmooth.delivered h.directory hd hnew).2, deliver_memory h.memory hnewp]
    cases c.render r.generator with
    | none => rfl
    | some t => rfl
  · have hnewp := mt (h.isNew_iff c.target).mp hnew
    rw [deliver_of_not_new hnew, deliver_of_not_new hnewp]

def LogsElsewhere (r : Rules) (root : Path) (s : Session) : Prop :=
  ∀ name, Name.isValid name = true → ¬ Logs r.errorLog s (s.disk.placeOf (Sink.pathOf root name))

theorem LogsElsewhere.later {files : List Text → Prop} {s s' : Session} (h : LogsElsewhere r root s)
    (hgrown : Grown files s s') : LogsElsewhere r root s' := by
  intro name hvalid hlogs
  rw [hgrown.logs_iff, hgrown.grows.placeOf_eq] at hlogs
  exact h name hvalid hlogs

/-- The texts that were kept before a class still are those of their files when it is generated. -/
theorem Mirrors.files_later (h : Mirrors root outputs p q) (hd : q.session.disk.Sound)
    (hlogs : LogsElsewhere r root q.session) :
    ∀ x ∈ outputs, ∃ content, Utf8.encode x.2 = .ok content ∧
      ((generate r c).run q).2.session.disk.contentAt?
        (((generate r c).run q).2.session.disk.placeOf (Sink.pathOf root x.1)) = some content := by
  intro x hx
  obtain ⟨content, hencode, hcontent⟩ := h.files x hx
  obtain ⟨hvalid, hmem⟩ := h.named x hx
  refine ⟨content, hencode, ?_⟩
  rw [(grown_generate hd (covers_all r q) c).grows.placeOf_eq]
  refine ((generate_files h.directory hd (hlogs x.1 hvalid)).2 ?_).trans hcontent
  rintro ⟨⟨⟨hvalid', hnew⟩, -⟩, hplace⟩
  obtain hname := Sink.pathOf_injective hd hvalid hvalid' hplace
  exact hnew (hname ▸ hmem)

theorem Mirrors.file_new (h : Mirrors root outputs p q) (hd : q.session.disk.Sound)
    (hlogs : LogsElsewhere r root q.session) (hsmooth : Smooth r (c :: cs) q)
    (hnew : IsNew q c.target) {t : Text} (hrender : c.render r.generator = some t) :
    ∃ content, Utf8.encode t = .ok content ∧
      ((generate r c).run q).2.session.disk.contentAt?
        (((generate r c).run q).2.session.disk.placeOf (Sink.pathOf root c.target)) =
      some content := by
  obtain ⟨content, hcontent⟩ := Utf8.encode_isOk_iff.mpr (hsmooth.texts c q t .here hnew hrender)
  have hopens := (hsmooth.delivered h.directory hd hnew).1
  have hencoded : c.encoded? r.generator = some content := by
    rw [LookupClass.encoded?, hrender, Option.bind_some, hcontent]
    rfl
  refine ⟨content, hcontent, ?_⟩
  rw [(grown_generate hd (covers_all r q) c).grows.placeOf_eq]
  refine ((generate_files h.directory hd (hlogs c.target hnew.1)).1 hopens rfl).trans ?_
  rw [hencoded]
  rfl

theorem Mirrors.next (h : Mirrors root outputs p q) (hd : q.session.disk.Sound)
    (hlogs : LogsElsewhere r root q.session) (hsmooth : Smooth r (c :: cs) q)
    {outputs' : Table Name Text} (hnodup : (Table.keys outputs').Nodup)
    (hmemory : ((generate r c).run p).2.sink.store = .memory outputs')
    (hkept : ∀ x ∈ outputs', x ∈ outputs ∨
      (x.1 = c.target ∧ IsNew q c.target ∧ c.render r.generator = some x.2)) :
    Mirrors root outputs' ((generate r c).run p).2 ((generate r c).run q).2 := by
  have hcreatedp := (deliver_sink r.generator c p).1
  obtain ⟨hcreatedq, hstoreq⟩ := deliver_sink r.generator c q
  rw [← generate_sink] at hcreatedp hcreatedq hstoreq
  refine ⟨hmemory, (hstoreq root).mpr h.directory, ?_, ?_, hnodup, ?_, ?_⟩
  · rw [hcreatedp, hcreatedq, h.created]
    simp only [h.isNew_iff]
  · rw [generate_diagnostics, generate_diagnostics, h.diagnostics, h.delivered hd hsmooth]
  · intro x hx
    rw [hcreatedq]
    rcases hkept x hx with hx | ⟨hname, hnew, -⟩
    · obtain ⟨hvalid, hmem⟩ := h.named x hx
      refine ⟨hvalid, ?_⟩
      split
      · exact List.mem_cons_of_mem _ hmem
      · exact hmem
    · rw [hname, if_pos hnew]
      exact ⟨hnew.1, List.mem_cons_self⟩
  · intro x hx
    rcases hkept x hx with hx | ⟨hname, hnew, hrender⟩
    · exact h.files_later hd hlogs x hx
    · rw [hname]
      exact h.file_new hd hlogs hsmooth hnew hrender

theorem Mirrors.generated (h : Mirrors root outputs p q) (hd : q.session.disk.Sound)
    (hlogs : LogsElsewhere r root q.session) (hsmooth : Smooth r (c :: cs) q) :
    ∃ outputs', Mirrors root outputs' ((generate r c).run p).2 ((generate r c).run q).2 ∧
      Table.keys outputs' = Table.keys outputs ++
        if ((deliver r.generator c).run q).1.isOk then [c.target] else [] := by
  have hold {outputs' : Table Name Text} (heq : outputs' = outputs) : ∀ x ∈ outputs', x ∈ outputs ∨
      (x.1 = c.target ∧ IsNew q c.target ∧ c.render r.generator = some x.2) := by
    intro x hx
    exact .inl (heq ▸ hx)
  by_cases hnew : IsNew q c.target
  · have hmemory :=
      @deliver_memory c p r.generator outputs h.memory ((h.isNew_iff c.target).mpr hnew)
    rw [(hsmooth.delivered h.directory hd hnew).2]
    cases hrender : c.render r.generator with
    | none =>
      refine ⟨outputs, h.next hd hlogs hsmooth h.nodup ?_ (hold rfl), (List.append_nil _).symm⟩
      rw [generate_sink, hmemory, hrender]
    | some t =>
      have hfresh : c.target ∉ Table.keys outputs := by
        intro hmem
        obtain ⟨x, hx, hname⟩ := List.mem_map.mp hmem
        exact hnew.2 (hname ▸ (h.named x hx).2)
      have hkeys : Table.keys (outputs ++ [(c.target, t)]) = Table.keys outputs ++ [c.target] := by
        rw [Table.keys, List.map_append]
        rfl
      refine ⟨outputs ++ [(c.target, t)], h.next hd hlogs hsmooth ?_ ?_ ?_, hkeys⟩
      · rw [hkeys, ← List.concat_eq_append]
        exact h.nodup.concat hfresh
      · rw [generate_sink, hmemory, hrender]
        simp only
        rw [Table.put_of_not_mem hfresh]
      · intro x hx
        rcases List.mem_append.mp hx with hx | hx
        · exact .inl hx
        · obtain rfl := List.mem_singleton.mp hx
          exact .inr ⟨rfl, hnew, hrender⟩
  · refine ⟨outputs, h.next hd hlogs hsmooth h.nodup ?_ (hold rfl), ?_⟩
    · rw [generate_sink, deliver_of_not_new (mt (h.isNew_iff c.target).mp hnew)]
      exact h.memory
    · rw [deliver_of_not_new hnew]
      exact (List.append_nil _).symm

theorem written_eq {written : Bool} (h : ((generate r c).run p).1 = .ok written) :
    written = ((deliver r.generator c).run p).1.isOk := by
  rw [generate_answer] at h
  cases hdeliver : ((deliver r.generator c).run p).1 with
  | ok u =>
    rw [hdeliver] at h
    exact (Except.ok.inj h).symm
  | error f =>
    rw [hdeliver] at h
    cases hlog : r.errorLog with
    | none =>
      simp only [hlog] at h
      exact (Except.ok.inj h).symm
    | some path =>
      simp only [hlog] at h
      split at h
      · exact (Except.ok.inj h).symm
      · cases hencode : Utf8.encode (failureEntry c f).toText with
        | error e =>
          rw [hencode] at h
          cases h
        | ok content =>
          rw [hencode] at h
          exact (Except.ok.inj h).symm

theorem Mirrors.generatedAll (h : Mirrors root outputs p q) (hd : q.session.disk.Sound)
    (hlogs : LogsElsewhere r root q.session) (hsmooth : Smooth r cs q)
    {lists lists' : List Name × List Name} (hp : ((generateAll r cs).run p).1 = .ok lists)
    (hq : ((generateAll r cs).run q).1 = .ok lists') :
    lists = lists' ∧ ∃ outputs', Mirrors root outputs' ((generateAll r cs).run p).2
      ((generateAll r cs).run q).2 ∧ Table.keys outputs' = Table.keys outputs ++ lists.1 := by
  induction cs generalizing p q outputs lists lists' with
  | nil =>
    obtain rfl := Except.ok.inj hp
    exact ⟨Except.ok.inj hq, outputs, h, (List.append_nil _).symm⟩
  | cons c cs ih =>
    obtain ⟨written, rest, hfirst, hrest, rfl⟩ := generateAll_cons_ok hp
    obtain ⟨written', rest', hfirst', hrest', rfl⟩ := generateAll_cons_ok hq
    have hwritten := written_eq hfirst
    have hwritten' := written_eq hfirst'
    rw [h.delivered hd hsmooth, ← hwritten'] at hwritten
    obtain ⟨outputs₁, hmirrors, hkeys⟩ := h.generated hd hlogs hsmooth
    have hgrown := grown_generate hd (covers_all r q) c
    obtain ⟨rfl, outputs₂, hlast, hkeys₂⟩ := ih hmirrors (hgrown.sound hd) (hlogs.later hgrown)
      (hsmooth.tail hfirst') hrest hrest'
    rw [← hwritten'] at hkeys
    subst hwritten
    refine ⟨rfl, outputs₂, ?_, ?_⟩
    · rw [run_generateAll_cons, run_generateAll_cons, hfirst, hfirst']
      exact hlast
    · rw [hkeys₂, hkeys, List.append_assoc]
      cases written with
      | true => rfl
      | false => rfl

/-- A generation below a directory changes the files of the names that it generates, and no others
but the logs. -/
theorem Smooth.frame (hsmooth : Smooth r cs q) (hd : q.session.disk.Sound)
    (hstore : q.sink.store = .directory root) (hentries : ∀ c ∈ cs, c.entries ≠ [])
    {lists : List Name × List Name} (hrun : ((generateAll r cs).run q).1 = .ok lists)
    {names : List Text} (hlogs : ¬ Logs r.errorLog q.session names)
    (hother : ∀ name ∈ lists.1, names ≠ q.session.disk.placeOf (Sink.pathOf root name)) :
    ((generateAll r cs).run q).2.session.disk.contentAt? names =
      q.session.disk.contentAt? names := by
  induction cs generalizing q lists with
  | nil => rfl
  | cons c cs ih =>
    obtain ⟨written, rest, hfirst, hrest, rfl⟩ := generateAll_cons_ok hrun
    have hgrown := grown_generate hd (covers_all r q) c
    have hstores := (deliver_sink r.generator c q).2
    rw [← generate_sink] at hstores
    have hfile : ((generate r c).run q).2.session.disk.contentAt? names =
        q.session.disk.contentAt? names := by
      apply (generate_files hstore hd hlogs).2
      rintro ⟨⟨hnew, -⟩, hplace⟩
      have hrender := render_written (r := r) (hentries c List.mem_cons_self)
      have hdeliver := (hsmooth.delivered hstore hd hnew).2
      rw [hrender] at hdeliver
      have hwritten := written_eq hfirst
      rw [hdeliver] at hwritten
      obtain rfl : written = true := hwritten
      exact hother c.target List.mem_cons_self hplace
    rw [run_generateAll_cons, hfirst]
    refine (ih (hsmooth.tail hfirst) (hgrown.sound hd) ((hstores root).mpr hstore)
      (fun d hd => hentries d (List.mem_cons_of_mem c hd)) hrest
      (mt (hgrown.logs_iff _ names).mp hlogs) ?_).trans hfile
    intro name hname
    rw [hgrown.grows.placeOf_eq]
    apply hother name
    cases written with
    | true => exact List.mem_cons_of_mem _ hname
    | false => exact hname

end Generation

end LookupGen
