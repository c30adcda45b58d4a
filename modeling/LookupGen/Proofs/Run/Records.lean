import LookupGen.Proofs.Run.Reading

/-!
# Steps that make records

A run makes nothing but records until it begins to write. Records leave the disk as it is, but for
the file of the journal, which may get more at its end. So a run that fails before it writes,
whatever it fails at, changes nothing else.
-/

namespace LookupGen

namespace Disk

/-- A disk as it was, but for files at some places, to whose ends something may have been added. -/
structure Extends (places : List Text → Prop) (d d' : Disk) : Prop where
  current : d'.current = d.current
  nodes : ∀ names, d'.root.kindAt? names = d.root.kindAt? names ∨
    places names ∧ ∃ old more, d.root.kindAt? names = some (.file old) ∧
      d'.root.kindAt? names = some (.file (old ++ more))

variable {places places' : List Text → Prop} {d d' d'' : Disk} {p : Path}

theorem Extends.refl (places : List Text → Prop) (d : Disk) : Extends places d d :=
  ⟨rfl, fun _ => .inl rfl⟩

theorem Extends.trans (h : Extends places d d') (h' : Extends places d' d'') :
    Extends places d d'' := by
  refine ⟨h'.current.trans h.current, ?_⟩
  intro names
  rcases h.nodes names with hsame | ⟨hplace, old, more, hold, hmore⟩
  · rw [← hsame]
    exact h'.nodes names
  · rcases h'.nodes names with hsame' | ⟨-, old', more', hold', hmore'⟩
    · exact .inr ⟨hplace, old, more, hold, hsame'.trans hmore⟩
    · obtain rfl := Node.Kind.file.inj (Option.some.inj (hold'.symm.trans hmore))
      exact .inr ⟨hplace, old, more ++ more', hold, by rw [hmore', List.append_assoc]⟩

theorem Extends.mono (h : Extends places d d') (hle : ∀ names, places names → places' names) :
    Extends places' d d' := by
  refine ⟨h.current, ?_⟩
  intro names
  rcases h.nodes names with hsame | ⟨hplace, hmore⟩
  · exact .inl hsame
  · exact .inr ⟨hle names hplace, hmore⟩

theorem extends_append (hd : d.Sound) (hfile : d.isFile p = true) (content : Bytes) :
    Extends (· = d.placeOf p) d ((append p content).run d).2 := by
  obtain ⟨node, hnode, hkind⟩ := (Option.any_eq_true _ _).mp hfile
  unfold node? at hnode
  cases hlocate : d.locate p with
  | error fault =>
    rw [hlocate] at hnode
    cases hnode
  | ok place =>
    rw [hlocate] at hnode
    have hstands := stands_locate hd hlocate
    generalize d.placeOf p = names at hstands
    cases hstands with
    | free _ _ => cases hnode
    | @taken _ node' hat =>
      obtain rfl := Option.some.inj hnode
      cases node' with
      | dir entries => cases hkind
      | file old =>
        obtain ⟨above, name, rfl, habove⟩ := exists_above hd hat
        have hold := Node.kindAt?_of_at? hat
        have hrun : (append p content).run d =
            (.ok (), d.put (above ++ [name]) (.file (old ++ content))) := by
          unfold append
          rw [exceptT_run_bind, run_target_eq, hlocate]
          rfl
        rw [hrun]
        refine ⟨rfl, ?_⟩
        intro names
        by_cases hnames : names = above ++ [name]
        · subst hnames
          exact .inr ⟨rfl, old, content, hold, kindAt?_put_self habove name _⟩
        · refine .inl (kindAt?_put_of_ne habove ?_ (bare_file _) hnames)
          rw [hold]
          intro h
          cases h

end Disk

namespace Session

open Disk (Extends)

variable {s s' s'' : Session}

/-- The sessions that come from a session by records alone. -/
inductive Recorded (s : Session) : Session → Prop where
  | refl : Recorded s s
  | record {s' : Session} (h : Recorded s s') (level : Level) (part text : Text) :
      Recorded s ((Session.record level part text).run s').2

theorem Recorded.trans (h : Recorded s s') (h' : Recorded s' s'') : Recorded s s'' := by
  induction h' with
  | refl => exact h
  | record _ level part text ih => exact .record ih level part text

theorem Recorded.grown (h : Recorded s s') (hd : s.disk.Sound) : Grown (Logs none s) s s' := by
  induction h with
  | refl => exact .refl _ _
  | record _ level part text ih => exact ih.after (grown_record (ih.sound hd) none level part text)

theorem extends_record (hd : s.disk.Sound) (level : Level) (part text : Text) :
    Extends (Logs none s) s.disk ((record level part text).run s).2.disk := by
  change Extends _ _ (writeRecord s.journal ⟨level, part, text⟩ s.disk)
  unfold writeRecord
  split
  · rename_i path content hfile _
    split
    · rename_i hshown
      apply (Disk.extends_append hd (Bool.and_eq_true_iff.mp hshown).2 content).mono
      intro names hnames
      exact ⟨path, .inr hfile, hnames⟩
    · exact .refl _ _
  · exact .refl _ _

theorem Recorded.extends (h : Recorded s s') (hd : s.disk.Sound) :
    Extends (Logs none s) s.disk s'.disk := by
  induction h with
  | refl => exact .refl _ _
  | record hbefore level part text ih =>
    have hgrown := hbefore.grown hd
    apply ih.trans
    apply (extends_record (hgrown.sound hd) level part text).mono
    intro names
    exact (hgrown.logs_iff none names).mp

end Session

namespace Run

open Session (Recorded)

variable {α β : Type}

/-- A step that does nothing but make records, whatever it answers. -/
def OnlyRecords (m : RunM α) : Prop := ∀ s : Session, Recorded s (m.run s).2

theorem onlyRecords_pure (a : α) : OnlyRecords (pure a) := fun _ => .refl

theorem OnlyRecords.bind {m : RunM α} {k : α → RunM β} (hm : OnlyRecords m)
    (hk : ∀ a, OnlyRecords (k a)) : OnlyRecords (m >>= k) := by
  intro s
  have hfirst := hm s
  rw [exceptT_run_bind]
  cases hrun : m.run s with
  | mk answer s₁ =>
    rw [hrun] at hfirst
    cases answer with
    | error e => exact hfirst
    | ok a => exact hfirst.trans (hk a s₁)

theorem onlyRecords_get : OnlyRecords (get : RunM Session) := fun _ => .refl

theorem onlyRecords_record (level : Level) (part text : Text) :
    OnlyRecords (record level part text) :=
  fun _ => .record .refl level part text

theorem onlyRecords_orFail {ε : Type} (failure : ε → RunFailure) (x : Except ε α) :
    OnlyRecords (orFail failure x) := by
  intro s
  rw [run_orFail]
  exact .refl

theorem onlyRecords_loadConfig (path : Text) : OnlyRecords (loadConfig path) := by
  intro s
  rw [run_loadConfig]
  exact .refl

theorem onlyRecords_sourceFiles (c : Config) : OnlyRecords (sourceFiles c) := by
  apply onlyRecords_get.bind
  intro s
  apply (onlyRecords_orFail _ _).bind
  intro tree
  apply (onlyRecords_orFail _ _).bind
  intro files
  exact (onlyRecords_record _ _ _).bind fun _ => onlyRecords_pure files

theorem onlyRecords_locate (source : ElementSource) (c : Config) :
    OnlyRecords (locate source c) := by
  cases source with
  | given elements => exact onlyRecords_pure none
  | project => exact (onlyRecords_sourceFiles c).bind fun files => onlyRecords_pure (some files)

theorem onlyRecords_elements (source : ElementSource) (c : Config) (files : Option (List Path)) :
    OnlyRecords (Run.elements source c files) := by
  cases source with
  | given elements => exact onlyRecords_pure elements
  | project =>
    apply onlyRecords_get.bind
    intro s
    dsimp only
    apply (onlyRecords_orFail _ _).bind
    intro elements
    exact (onlyRecords_record _ _ _).bind fun _ => onlyRecords_pure elements

theorem onlyRecords_prepare (source : ElementSource) (path : Text) (outputDir : Option Path) :
    OnlyRecords (prepare source path outputDir) := by
  apply (onlyRecords_loadConfig path).bind
  intro set
  apply onlyRecords_get.bind
  intro s
  apply (onlyRecords_locate _ _).bind
  intro files
  apply (onlyRecords_record _ _ _).bind
  intro _
  exact (onlyRecords_elements _ _ _).bind fun elements => onlyRecords_pure _

end Run

end LookupGen
