import NodeBootstrap.Json.Writer

/-!
# The cloud config

The cloud provider's config is a JSON object; the kubelet on Windows reads a flat form of it, one
entry a line in the order of the source. A text is written as it is and any other value as one line
of JSON.
-/

set_option autoImplicit false

namespace NodeBootstrap.CloudConfig

/-- The name of the file that is written. -/
def fileName : Text := text "cloud.conf"

/-- The flag that points the kubelet at it. -/
def flagName : Text := text "cloud-config"

/-- The value of an entry. -/
def formatValue : Json → Text
  | .string t => t
  | v => v.write .spaced

/-- One entry. -/
def entry (key : Text) (value : Json) : Text := key ++ text ": " ++ formatValue value

/-- The flat form of a config. -/
def render (entries : OrderedMap Text Json) : Text :=
  if entries.isEmpty then text "\x7b\n\x7d"
  else
    text "\x7b\n\t" ++ Text.join (text ",\n\t") (entries.map fun (k, v) => entry k v) ++
      text "\n\x7d"

end NodeBootstrap.CloudConfig
