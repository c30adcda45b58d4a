import LookupGen.Text.Encoding
import LookupGen.Yaml.Cursor

/-!
# Faults of documents

A document can break the rules of the language, and a value in it can break those of its type.
The first kind of fault is reported with what was being read, the problem, and the places of
both; the second with a sentence alone.
-/

namespace LookupGen.Yaml

inductive Activity where
  | nextToken
  | simpleKey
  | directive
  | directiveUri
  | alias
  | anchor
  | tag
  | tagUri
  | blockScalar
  | quotedScalar
  | doubleQuoted
  | node
  | blockNode
  | flowNode
  | blockSequence
  | blockMapping
  | flowSequence
  | flowMapping
  | singleDocument
  | firstAnchor (name : Text)
  | mapping
  | orderedMap
  | pairs
  deriving DecidableEq, Repr

def Activity.wording : Activity → Text
  | nextToken => "while scanning for the next token"
  | simpleKey => "while scanning a simple key"
  | directive => "while scanning a directive"
  | directiveUri => "while parsing a directive"
  | «alias» => "while scanning an alias"
  | anchor => "while scanning an anchor"
  | tag => "while scanning a tag"
  | tagUri => "while parsing a tag"
  | blockScalar => "while scanning a block scalar"
  | quotedScalar => "while scanning a quoted scalar"
  | doubleQuoted => "while scanning a double-quoted scalar"
  | node => "while parsing a node"
  | blockNode => "while parsing a block node"
  | flowNode => "while parsing a flow node"
  | blockSequence => "while parsing a block collection"
  | blockMapping => "while parsing a block mapping"
  | flowSequence => "while parsing a flow sequence"
  | flowMapping => "while parsing a flow mapping"
  | singleDocument => "expected a single document in the stream"
  | firstAnchor name =>
    Text.join ["found duplicate anchor ", Text.quoted name, "; first occurrence"]
  | mapping => "while constructing a mapping"
  | orderedMap => "while constructing an ordered map"
  | pairs => "while constructing pairs"

inductive Expectation where
  | word
  | digitOrDot
  | digitOrSpace
  | digit
  | space
  | commentOrBreak
  | closingBracket
  | blockIndicators
  | hexDigits (count : Nat)
  | exclamation
  | uri
  | uriDigits
  deriving DecidableEq, Repr

def Expectation.wording : Expectation → Text
  | word => "alphabetic or numeric character"
  | digitOrDot => "a digit or '.'"
  | digitOrSpace => "a digit or ' '"
  | digit => "a digit"
  | space => "' '"
  | commentOrBreak => "a comment or a line break"
  | closingBracket => "'>'"
  | blockIndicators => "chomping or indentation indicators"
  | hexDigits count =>
    Text.join ["escape sequence of ", Text.ofNat count, " hexadecimal numbers"]
  | exclamation => "'!'"
  | uri => "URI"
  | uriDigits => "URI escape sequence of 2 hexadecimal numbers"

inductive Problem where
  | noToken (c : CodePoint)
  | missingColon
  | notAllowed (what : Text)
  | unexpected (expected : Expectation) (found : CodePoint)
  | zeroIndentation
  | endOfStream
  | documentSeparator
  | unknownEscape (c : CodePoint)
  | badUri (e : Utf8.DecodeError)
  | unexpectedToken (expected verb found : Text)
  | duplicateVersion
  | wrongVersion
  | duplicateHandle (handle : Text)
  | undefinedHandle (handle : Text)
  | undefinedAlias (name : Text)
  | secondAnchor
  | secondDocument
  | unexpectedNode (expected found : Text)
  | severalItems (count : Nat)
  | unhashableKey
  | unknownTag (tag : Text)
  | binaryNotAscii (position size : Nat) (c : CodePoint)
  | binaryLoneDigit (count : Nat)
  | binaryPadding
  deriving DecidableEq, Repr

def shown (c : CodePoint) : Text := Text.quoted [c]

def Problem.wording : Problem → Text
  | noToken c => Text.join ["found character ", shown c, " that cannot start any token"]
  | missingColon => "could not find expected ':'"
  | notAllowed what => Text.join [what, " are not allowed here"]
  | unexpected expected found =>
    Text.join ["expected ", expected.wording, ", but found ", shown found]
  | zeroIndentation => "expected indentation indicator in the range 1-9, but found 0"
  | endOfStream => "found unexpected end of stream"
  | documentSeparator => "found unexpected document separator"
  | unknownEscape c => Text.join ["found unknown escape character ", shown c]
  | badUri e => e.message
  | unexpectedToken expected verb found =>
    Text.join ["expected ", expected, ", but ", verb, " ", Text.quoted found]
  | duplicateVersion => "found duplicate YAML directive"
  | wrongVersion => "found incompatible YAML document (version 1.* is required)"
  | duplicateHandle handle => Text.join ["duplicate tag handle ", Text.quoted handle]
  | undefinedHandle handle => Text.join ["found undefined tag handle ", Text.quoted handle]
  | undefinedAlias name => Text.join ["found undefined alias ", Text.quoted name]
  | secondAnchor => "second occurrence"
  | secondDocument => "but found another document"
  | unexpectedNode expected found => Text.join ["expected ", expected, ", but found ", found]
  | severalItems count =>
    Text.join ["expected a single mapping item, but found ", Text.ofNat count, " items"]
  | unhashableKey => "found unhashable key"
  | unknownTag tag => Text.join ["could not determine a constructor for the tag ", Text.quoted tag]
  | binaryNotAscii position size c =>
    Text.join ["failed to convert base64 data into ascii: 'ascii' codec can't encode ",
      Utf8.stretch "character" "characters" (Text.join ["'", Text.numberedEscape c, "'"])
        position size, ": ordinal not in range(128)"]
  | binaryLoneDigit count =>
    Text.join ["failed to decode base64 data: Invalid base64-encoded string: number of data ",
      "characters (", Text.ofNat count, ") cannot be 1 more than a multiple of 4"]
  | binaryPadding => "failed to decode base64 data: Incorrect padding"

inductive Error where
  | unacceptable (c : CodePoint) (position : Nat)
  | misread (activity : Option Activity) (since : Option Mark) (problem : Problem) (place : Mark)
  deriving DecidableEq, Repr

/-- How a fault of a document is reported. A place is shown once if activity and problem have
the same. -/
def Error.message (source : Text) : Error → Text
  | unacceptable c position =>
    Text.join ["unacceptable character #x", Text.hex 4 c.val,
      ": special characters are not allowed\n  in \"<unicode string>\", position ",
      Text.ofNat position]
  | misread activity since problem place =>
    let before := match since with
      | some m => if m.line = place.line ∧ m.column = place.column then [] else [m.message source]
      | none => []
    Text.joinWith "\n" ((activity.map Activity.wording).toList ++ before ++
      [problem.wording, place.message source])

inductive TimeField where
  | year
  | month
  | day
  | hour
  | minute
  | second
  deriving DecidableEq, Repr

inductive ValueFault where
  | notInteger (base : Nat) (literal : Text)
  | tooLong (digits : Nat)
  | notDecimal (literal : Text)
  | outOfRange (field : TimeField) (value : Nat)
  | offset (minutes : Int)
  | notCodePoint
  deriving DecidableEq, Repr

def TimeField.wording : TimeField → Nat → Text
  | year, n => Text.join ["year ", Text.ofNat n, " is out of range"]
  | month, _ => "month must be in 1..12"
  | day, _ => "day is out of range for month"
  | hour, _ => "hour must be in 0..23"
  | minute, _ => "minute must be in 0..59"
  | second, _ => "second must be in 0..59"

def shownOffset (minutes : Int) : Text :=
  let days := Int.fdiv minutes 1440
  let seconds := 60 * Int.fmod minutes 1440
  if seconds = 0 then Text.join ["days=", Text.ofInt days]
  else Text.join ["days=", Text.ofInt days, ", seconds=", Text.ofInt seconds]

/-- How a fault of a value is reported. Of a long literal only the front is shown. -/
def ValueFault.message : ValueFault → Text
  | notInteger base literal =>
    Text.join ["invalid literal for int() with base ", Text.ofNat base, ": ",
      (Text.quoted literal).take 200]
  | tooLong digits =>
    Text.join ["Exceeds the limit (4300 digits) for integer string conversion: value has ",
      Text.ofNat digits, " digits; use sys.set_int_max_str_digits() to increase the limit"]
  | notDecimal literal => Text.join ["could not convert string to float: ", Text.quoted literal]
  | outOfRange field value => field.wording value
  | offset minutes =>
    Text.join ["offset must be a timedelta strictly between -timedelta(hours=24) and ",
      "timedelta(hours=24), not datetime.timedelta(", shownOffset minutes, ")."]
  | notCodePoint => "chr() arg not in range(0x110000)"

inductive Failure where
  | document (e : Error)
  | value (e : ValueFault)
  | notTruthValue
  | noDigits
  | notTime
  | tooGreat
  deriving DecidableEq, Repr

def Failure.message (source : Text) : Failure → Text
  | document e => e.message source
  | value e => e.message
  | notTruthValue => "no truth value"
  | noDigits => "a number without digits"
  | notTime => "no date or time"
  | tooGreat => "a number that is too great"

end LookupGen.Yaml
