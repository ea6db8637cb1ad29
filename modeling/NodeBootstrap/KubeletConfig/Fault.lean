import NodeBootstrap.Json.Reader
import NodeBootstrap.Text.Utf8
import NodeBootstrap.Value

/-!
# What can be wrong with a kubelet config

The causes for which a document is left alone, and their words.
-/

set_option autoImplicit false

namespace NodeBootstrap.KubeletConfig

/-- Why a kubelet config cannot be changed. -/
inductive Fault
  /-- The bytes are no UTF-8. -/
  | undecodable (fault : Encoding.DecodeFault)
  /-- The document does not begin with a brace. -/
  | notAnObject
  /-- A code point that has to come next does not. -/
  | expected (c : CodePoint) (offset : Nat)
  /-- A key or a value is no JSON. -/
  | malformed (document : Text) (fault : Json.Fault)
  /-- Something follows the object. -/
  | extraData (offset : Nat)
  /-- A field is missing somewhere on a path. -/
  | missingField (path : List Text)
  /-- A field on a path is no object. -/
  | fieldNotAnObject (key : Text)
  /-- The name of the certificate file is no text or names no file. -/
  | invalidCaFile (value : Json)

/-- The words for a fault. -/
def Fault.message : Fault → Text
  | .undecodable fault => text "could not parse kubelet config: " ++ fault.message
  | .notAnObject => text "kubelet config must be a JSON object"
  | .expected c offset =>
    text "could not parse kubelet config: expected " ++ Text.quoted [c] ++ text " at position " ++
      Text.ofNat offset
  | .malformed document fault =>
    text "could not parse kubelet config: " ++ fault.message document
  | .extraData offset => text "could not parse kubelet config: extra data at " ++ Text.ofNat offset
  | .missingField path =>
    text "kubelet config has no " ++ Text.join (text ".") path ++ text " field"
  | .fieldNotAnObject key => text "kubelet config " ++ key ++ text " is not an object"
  | .invalidCaFile value => text "invalid clientCAFile " ++ (Value.ofJson value).shown

end NodeBootstrap.KubeletConfig
