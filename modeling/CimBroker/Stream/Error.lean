import CimBroker.Stream.Id
import CimBroker.Text.Quoted

/-!
# Why records and streams are refused

`StreamError` lists every reason an arena operation, the serializer or the
decoder can fail. The decoder's reasons are the *decode failures*
(`StreamError.isDecodeFailure`): the input is malformed. The others report
a misuse of the arena or a graph that cannot be written.
-/

namespace CimBroker.Stream

/-- The two kinds of record. -/
inductive RecordKind where
  | classRecord
  | instanceRecord
deriving DecidableEq, Repr

/-- What is inconsistent in a record or in the tables of a stream. -/
inductive Corruption where
  /-- A record shorter than the thirty-two bytes of its header. -/
  | shortRecord (length : Nat)
  /-- The kind field holds the other kind, or no kind at all. -/
  | kindMismatch (expected : RecordKind) (found : Option RecordKind)
  /-- Header, slots and tokens need more bytes than the record has. -/
  | fixedTooLarge (fixed inUse : Nat)
  /-- A string slot points outside the heap. -/
  | slotOutsideHeap (slot offset length : Nat)
  /-- A class record with reference slots. -/
  | classWithReferences
  /-- A class name, namespace or property name is null or not UTF-8. -/
  | classSlotInvalid (slot : Nat)
  /-- An instance has another number of values than its class has properties. -/
  | valueCountMismatch (values : Nat) (className : String) (properties : Nat)
  /-- An instance's host or namespace is not UTF-8. -/
  | instanceSlotNotUtf8 (slot : Nat)
  /-- A class-resolution entry carries token zero. -/
  | zeroToken
deriving DecidableEq, Repr

/-- The name of a kind of record, as messages show it. -/
def RecordKind.name : RecordKind → String
  | .classRecord => "Class"
  | .instanceRecord => "Instance"

/-- The detail text of a corruption. -/
def Corruption.detail : Corruption → String
  | .shortRecord n => s!"record of {n} bytes is shorter than its header"
  | .kindMismatch e f =>
    let found := match f with
      | some k => "Some(" ++ k.name ++ ")"
      | none => "None"
    "expected " ++ e.name ++ " record, found " ++ found
  | .fixedTooLarge fixed inUse => s!"fixed region of {fixed} bytes exceeds record of {inUse} bytes"
  | .slotOutsideHeap slot offset length => s!"string slot {slot} ({offset}+{length}) outside heap"
  | .classWithReferences => "class record carries external references"
  | .classSlotInvalid slot => s!"class name slot {slot} is null or not UTF-8"
  | .valueCountMismatch values name props =>
    s!"instance has {values} values but class " ++ name ++ s!" has {props} properties"
  | .instanceSlotNotUtf8 slot => s!"instance name slot {slot} is not UTF-8"
  | .zeroToken => "class-resolution entry carries a zero token"

/-- Deepest reference chain the serializer follows. -/
def maxReferenceDepth : Nat := 1024

/-- A failure of an arena operation, of the serializer or of the decoder. -/
inductive StreamError where
  /-- The input ended before a field: where, how many bytes, how many were left. -/
  | truncated (offset needed available : Nat)
  /-- The stream does not start with `CIMS`. -/
  | invalidMagic (actual : List UInt8)
  /-- The stream has a version other than 1. -/
  | unsupportedVersion (version : Nat)
  | corruptRecord (what : Corruption)
  /-- A class-resolution entry points past the class table. -/
  | classIndexOutOfRange (index count : Nat)
  /-- A reference slot holds a token that the reference table lacks. -/
  | unresolvedReference (token : Nat)
  /-- A reference names an instance that does not come before its owner. -/
  | forwardReference (source target : Nat)
  /-- Bytes are left after the last instance. -/
  | trailingBytes (count : Nat)
  /-- A table or the class list has more entries than a 32-bit count holds. -/
  | countOverflow (count : Nat)
  /-- A record, or a string in it, would outgrow the 32-bit offsets of its slots. -/
  | recordTooLarge (size : Nat)
  /-- The serializer met an instance again while still inside it. -/
  | cyclicReference (inst : InstanceId)
  /-- A reference chain is deeper than the limit. -/
  | referenceTooDeep (limit : Nat)
  | unknownClass (cls : ClassId)
  | unknownInstance (inst : InstanceId)
  /-- The class has no property of this name. -/
  | unknownProperty (name : String)
  /-- A slot index past the record's slots. -/
  | invalidSlot (slot count : Nat)
deriving DecidableEq, Repr

/-- Decimal list of bytes in brackets, as `[67, 73, 77, 83]`. -/
def byteListText (bs : List UInt8) : String :=
  "[" ++ ", ".intercalate (bs.map fun b => toString b.toNat) ++ "]"

/-- The message of a failure. -/
def StreamError.message : StreamError → String
  | .truncated o n a => s!"truncated stream at offset {o}: need {n} bytes, {a} available"
  | .invalidMagic actual =>
    "invalid stream magic: expected [67, 73, 77, 83], got " ++ byteListText actual
  | .unsupportedVersion v => s!"unsupported stream version: {v}"
  | .corruptRecord c => "corrupt record: " ++ c.detail
  | .classIndexOutOfRange i n => s!"class index {i} out of range ({n} classes)"
  | .unresolvedReference t => s!"unresolved external reference token {t}"
  | .forwardReference s t => s!"reference from instance {s} to instance {t} is not backward"
  | .trailingBytes n => s!"{n} trailing bytes after last instance"
  | .countOverflow n => s!"section holds too many entries for the wire format: {n}"
  | .recordTooLarge n => s!"record too large: {n} bytes"
  | .cyclicReference i => "cyclic external reference through " ++ i.toText
  | .referenceTooDeep n => s!"reference chain deeper than {n}"
  | .unknownClass c => "unknown class " ++ c.toText
  | .unknownInstance i => "unknown instance " ++ i.toText
  | .unknownProperty name => "class has no property " ++ Text.quote name
  | .invalidSlot s n => s!"slot {s} out of range ({n} slots)"

/-- Whether the failure means malformed input, as opposed to a misuse of the
arena or a graph that cannot be written. -/
def StreamError.isDecodeFailure : StreamError → Bool
  | .truncated .. | .invalidMagic _ | .unsupportedVersion _ | .corruptRecord _
  | .classIndexOutOfRange .. | .unresolvedReference _ | .forwardReference .. | .trailingBytes _ => true
  | _ => false

end CimBroker.Stream
