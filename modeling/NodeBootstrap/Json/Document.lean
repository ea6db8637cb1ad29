import NodeBootstrap.Json.Reader
import NodeBootstrap.Text.Utf8

/-!
# JSON documents from bytes

A document comes in one of the forms of Unicode; which one is seen from its first bytes.
-/

set_option autoImplicit false

namespace NodeBootstrap.Json

/-- Why bytes are no JSON document. -/
inductive Unreadable
  /-- The bytes are no text. -/
  | undecodable (fault : Encoding.DecodeFault)
  /-- The text is no JSON. -/
  | malformed (document : Text) (fault : Fault)
  deriving DecidableEq, Repr

/-- The words for it. -/
def Unreadable.message : Unreadable → Text
  | .undecodable fault => fault.message
  | .malformed document fault => fault.message document

/-- The value that a document in bytes holds. -/
def ofBytes (contents : Bytes) : Except Unreadable Json := do
  let document ← (decodeDetected contents).mapError .undecodable
  (ofText document).mapError (.malformed document)

end NodeBootstrap.Json
