import NodeBootstrap.Path.Slash
import NodeBootstrap.Text.Quoted

/-!
# The layout of an install directory

Where on the node things go: everything is below the install directory, the network plugins in one
directory of their own and their config in one below that.
-/

set_option autoImplicit false

namespace NodeBootstrap

/-- The layout below an install directory. -/
structure InstallLayout where
  installDirectory : Text
  deriving DecidableEq, Repr

namespace InstallLayout

/-- Where the network plugins go. -/
def cniDirectory (l : InstallLayout) : Text := Path.join l.installDirectory (text "cni")

/-- Where the config of the network plugins goes. -/
def cniConfigDirectory (l : InstallLayout) : Text := Path.join l.cniDirectory (text "config")

/-- Where the logs go. -/
def logDirectory (l : InstallLayout) : Text := Path.join l.installDirectory (text "log")

/-- A file in the install directory. -/
def file (l : InstallLayout) (name : Text) : Text := Path.join l.installDirectory name

/-- The text of a layout in messages. -/
def shown (l : InstallLayout) : Text :=
  text "InstallLayout(" ++ l.installDirectory.quoted ++ text ")"

end InstallLayout

end NodeBootstrap
