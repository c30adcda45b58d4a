import LookupGen.Journal
import LookupGen.Name

/-!
# Diagnostics

What a run has to say about the program that it reads. Each diagnostic also goes to the journal.
-/

namespace LookupGen

inductive Severity where
  | error
  | warning
  | note
  deriving DecidableEq, Repr

namespace Severity

def toName : Severity → Text
  | error => "ERROR"
  | warning => "WARNING"
  | note => "NOTE"

def ofName? (name : Text) : Option Severity :=
  [error, warning, note].find? fun s => decide (s.toName = name)

def unknownMessage (name : Text) : Text :=
  Text.join [Text.quoted name, " is not a valid DiagnosticKind"]

def level : Severity → Level
  | error => .error
  | warning => .warning
  | note => .info

end Severity

structure Diagnostic where
  severity : Severity
  text : Text
  element : Option Name
  deriving DecidableEq, Repr

namespace Diagnostic

def part : Text := "diagnostics"

def errors (ds : List Diagnostic) : List Diagnostic :=
  ds.filter fun d => decide (d.severity = .error)

def record (d : Diagnostic) : SessionM Unit := Session.record d.severity.level part d.text

end Diagnostic

end LookupGen
