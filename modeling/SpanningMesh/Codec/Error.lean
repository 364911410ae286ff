/-!
# What can be wrong with bytes

A `CodecError` is the one reason for which a value has no wire form or a run of
bytes has no value.  A field that runs past the end is `truncated`, and the error
says where and by how much.  Bytes that are all there and still mean nothing are
`malformed`, with the `Malformation` that was found.  Sizes that the format
cannot or may not carry are `tooLarge`.
-/

namespace SpanningMesh

/-- Deepest tree that is written or accepted, in nodes from the top to a leaf. -/
def maxTreeDepth : Nat := 128

/-- Why bytes that are all there have no meaning. -/
inductive Malformation where
  /-- The bytes of a text, which begin at an offset, are not UTF-8. -/
  | invalidText (offset : Nat)
  /-- Some bytes are left over after the last field. -/
  | trailing (count : Nat)
  | treeTooDeep
  | unknownStage (code : Int)
  | senderMismatch (sender top : UInt32)
  | wrongKind (found expected : UInt16)
  | notRaw
deriving Repr, DecidableEq

namespace Malformation

/-- What is said of a malformation. -/
def message : Malformation → String
  | invalidText offset => s!"invalid utf-8 in string at offset {offset}"
  | trailing count => s!"{count} trailing bytes after payload"
  | treeTooDeep => s!"node tree deeper than {maxTreeDepth}"
  | unknownStage code => s!"unknown time sync kind {code}"
  | senderMismatch sender top => s!"node sync from {sender} describes node {top}"
  | wrongKind found expected => s!"package type {found} is not {expected}"
  | notRaw => "payload is not opaque"

end Malformation

/-- Why a value could not be written or bytes could not be read. -/
inductive CodecError where
  /-- A field at an offset needs more bytes than are available there. -/
  | truncated (offset needed available : Nat)
  | malformed (why : Malformation)
  | unknownDelivery (code : UInt16)
  | tooLarge (size : Nat)
deriving Repr, DecidableEq

namespace CodecError

/-- What is said of an error. -/
def message : CodecError → String
  | truncated offset needed available =>
      s!"truncated frame: need {needed} bytes at offset {offset}, {available} available"
  | malformed why => s!"malformed frame: {why.message}"
  | unknownDelivery code => s!"unknown routing mode {code}"
  | tooLarge size => s!"size limit exceeded: {size}"

end CodecError

end SpanningMesh
