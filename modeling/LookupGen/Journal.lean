import LookupGen.Disk.Changes

/-!
# Journal

What a run tells about itself: records on four levels. Those from a threshold on are shown, and
written to a file if there is one. A record that the file cannot take is passed over.
-/

namespace LookupGen

inductive Level where
  | debug
  | info
  | warning
  | error
  deriving DecidableEq, Repr

namespace Level

def rank : Level → Nat
  | debug => 0
  | info => 1
  | warning => 2
  | error => 3

def toName : Level → Text
  | debug => "DEBUG"
  | info => "INFO"
  | warning => "WARNING"
  | error => "ERROR"

end Level

structure Record where
  level : Level
  part : Text
  text : Text
  deriving DecidableEq, Repr

namespace Record

def shown (r : Record) : Text := Text.join ["[constgen] ", r.level.toName, " ", r.text, "\n"]

def written (time : Text) (r : Record) : Text :=
  Text.join [time, " ", r.level.toName, " constgen.", r.part, ": ", r.text, "\n"]

end Record

/-- The records of a run, those below the threshold included. -/
structure Journal where
  threshold : Level
  file : Option Path
  time : Text
  records : List Record

namespace Journal

def start (threshold : Level) (file : Option Path) (time : Text) : Journal :=
  ⟨threshold, file, time, []⟩

def shows (j : Journal) (r : Record) : Bool := j.threshold.rank ≤ r.level.rank

def shown (j : Journal) : Text := (j.records.filter j.shows).flatMap Record.shown

end Journal

structure Session where
  disk : Disk
  journal : Journal

abbrev SessionM := StateM Session

namespace Session

/-- The disk with a record in the file of a journal. The file is not made anew. -/
def writeRecord (j : Journal) (r : Record) (d : Disk) : Disk :=
  match j.file, Utf8.encode (r.written j.time) with
  | some path, .ok content =>
    if j.shows r && d.isFile path then ((Disk.append path content).run d).2 else d
  | _, _ => d

def record (level : Level) (part text : Text) : SessionM Unit := modify fun s =>
  let r : Record := ⟨level, part, text⟩
  { disk := writeRecord s.journal r s.disk
    journal := { s.journal with records := s.journal.records ++ [r] } }

def onDisk {α : Type} (m : DiskM α) : SessionM (Except DiskError α) := fun s =>
  let (result, disk) := m.run s.disk
  (result, { s with disk })

end Session

end LookupGen
