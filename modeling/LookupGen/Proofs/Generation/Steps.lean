import LookupGen.Proofs.Except
import LookupGen.Proofs.Generation.Marked

/-!
# Steps of a generation

What an entry in the error log, the delivery of a lookup class and its generation do, each as one
equation on states: the answer and the state afterwards, for every sink and every disk.
-/

namespace LookupGen

theorem ErrorLog.run_add (path : Path) (e : LogEntry) (s : Session) :
    (add path e).run s =
      let s₁ := ((Session.onDisk (openFile path)).run s).2
      match ((Session.onDisk (openFile path)).run s).1 with
      | .error fault =>
        (.ok false,
          ((Session.record .warning Diagnostic.part (unwritableMessage path fault)).run s₁).2)
      | .ok () =>
        match Utf8.encode e.toText with
        | .error fault => (.error fault, s₁)
        | .ok content =>
          let s₂ := ((Session.onDisk (Disk.append path content)).run s₁).2
          match ((Session.onDisk (Disk.append path content)).run s₁).1 with
          | .error fault =>
            (.ok false,
              ((Session.record .warning Diagnostic.part (unwritableMessage path fault)).run s₂).2)
          | .ok () => (.ok true, s₂) := by
  rw [add, stateM_run_bind]
  cases ((Session.onDisk (openFile path)).run s).1 with
  | error fault => rfl
  | ok u =>
    simp only
    cases Utf8.encode e.toText with
    | error fault => rfl
    | ok content =>
      simp only [stateM_run_bind]
      cases ((Session.onDisk (Disk.append path content)).run _).1 with
      | error fault => rfl
      | ok u => rfl

namespace Generation

theorem run_inSession {α : Type} (m : SessionM α) (p : Progress) :
    (inSession m).run p = ((m.run p.session).1, { p with session := (m.run p.session).2 }) := rfl

theorem run_deliver (generator : Text) (c : LookupClass) (p : Progress) :
    (deliver generator c).run p =
      match p.sink.create c.target with
      | .error e => (.error (.name e), p)
      | .ok sink =>
        match (sink.write c.target (draft generator c)).run p.session.disk with
        | (.error e, disk) =>
          (.error (.write e), { p with session := { p.session with disk }, sink })
        | (.ok sink, disk) =>
          (if (draft generator c).complete then .ok () else .error (.noEntries c.target),
            { p with session := { p.session with disk }, sink }) := by
  unfold deliver
  simp only [StateT.run_bind, StateT.run_get, pure_bind]
  rcases p.sink.create c.target with e | sink
  · rfl
  · simp only
    rcases (sink.write c.target (draft generator c)).run p.session.disk with ⟨e | kept, disk⟩
    · rfl
    · rfl

def failureReport (c : LookupClass) (f : Failure) : Diagnostic :=
  ⟨.error, Text.join [failureHeading c, ": ", f.message], some c.source⟩

def failureEntry (c : LookupClass) (f : Failure) : LogEntry :=
  ⟨failureHeading c, f.label, f.message, true⟩

theorem run_generate (r : Rules) (c : LookupClass) (p : Progress) :
    (generate r c).run p =
      let p₁ := ((deliver r.generator c).run p).2
      match ((deliver r.generator c).run p).1 with
      | .ok () =>
        (.ok true, ((record .info (Text.join ["Generated ", c.target, " (",
          Text.ofNat c.entries.length, " constants)"])).run p₁).2)
      | .error f =>
        let p₂ := ((report (failureReport c f)).run p₁).2
        match r.errorLog with
        | none => (.ok false, p₂)
        | some path =>
          let added := (ErrorLog.add path (failureEntry c f)).run p₂.session
          (added.1.map fun _ => false, { p₂ with session := added.2 }) := by
  rw [generate, stateM_run_bind]
  cases ((deliver r.generator c).run p).1 with
  | ok u => rfl
  | error f =>
    simp only [stateM_run_bind]
    cases r.errorLog with
    | none => rfl
    | some path =>
      simp only [stateM_run_bind, run_inSession, failureReport, failureEntry]
      cases ((ErrorLog.add path _).run _).1 with
      | error fault => rfl
      | ok b => rfl

theorem run_generateAll_cons (r : Rules) (c : LookupClass) (rest : List LookupClass)
    (p : Progress) :
    (generateAll r (c :: rest)).run p =
      let p₁ := ((generate r c).run p).2
      match ((generate r c).run p).1 with
      | .error e => (.error e, p₁)
      | .ok written =>
        (((generateAll r rest).run p₁).1.map fun (generated, failed) =>
          if written then (c.target :: generated, failed) else (generated, c.target :: failed),
          ((generateAll r rest).run p₁).2) := by
  rw [generateAll, stateM_run_bind]
  cases ((generate r c).run p).1 with
  | error e => rfl
  | ok written =>
    simp only [stateM_run_bind]
    cases ((generateAll r rest).run _).1 with
    | error e => rfl
    | ok lists => rfl

theorem run_process (r : Rules) (elements : List Element) (p : Progress) :
    (process r elements).run p =
      let p₁ := ((record .debug (Text.join ["Discovered ",
        Text.ofNat (found r elements).length, " constant provider classes"])).run p).2
      match markedTypes r.marker (found r elements) with
      | .error e => (.error (.missingValue e), p₁)
      | .ok marked =>
        let extracted := (extractAll marked).run p₁
        let written := (generateAll r (LookupClass.sort extracted.1.1)).run extracted.2
        (match written.1 with
          | .error e => .error (.unrecordable e)
          | .ok (generated, failed) => .ok ⟨generated, failed, extracted.1.2⟩, written.2) := by
  unfold found
  rw [process, stateM_run_bind]
  cases markedTypes r.marker (discover r.accepts (Element.annotatedWith r.marker elements)) with
  | error e => rfl
  | ok marked =>
    simp only [stateM_run_bind]
    cases ((generateAll r (LookupClass.sort ((extractAll marked).run _).1.1)).run _).1 with
    | error e => rfl
    | ok lists => rfl

end Generation

end LookupGen
