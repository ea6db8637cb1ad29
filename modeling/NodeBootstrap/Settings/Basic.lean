import NodeBootstrap.Value

/-!
# Settings

The settings of a run by name. Each has a default; a settings file and the overrides of the caller
change them. A setting can hold a value of any kind, and what uses one says whether it can.
-/

set_option autoImplicit false

namespace NodeBootstrap

/-- Settings by name. -/
abbrev Settings := OrderedMap Text Value

namespace Settings

/-- What holds unless something else is said. -/
def defaults : Settings := [
  (text "install_dir", .text (text "C:\\k")),
  (text "kubelet_service_name", .text (text "kubelet")),
  (text "pause_image", .text (text "mcr.microsoft.com/oss/kubernetes/pause:3.9")),
  (text "cert_dir", .text (text "c:\\var\\lib\\kubelet\\pki\\")),
  (text "default_verbosity", .text (text "3")),
  (text "service_timeout", .int 30),
  (text "service_tries", .int 10),
  (text "service_try_sleep", .int 2),
  (text "healthz_endpoint", .text (text "http://localhost:10248/healthz")),
  (text "healthz_tries", .int 20),
  (text "healthz_try_sleep", .int 5),
  (text "healthz_timeout", .int 5)]

/-- The value of a setting. -/
def value (s : Settings) (name : Text) : Value := (s.get? name).getD .null

/-- Settings with overrides; one without a value changes nothing. -/
def override (s : Settings) (overrides : List (Text × Value)) : Settings :=
  s.merge (overrides.filter fun e => !e.2.isNull)

def installDirectory (s : Settings) : Value := s.value (text "install_dir")

def serviceName (s : Settings) : Value := s.value (text "kubelet_service_name")

def pauseImage (s : Settings) : Value := s.value (text "pause_image")

def certificateDirectory (s : Settings) : Value := s.value (text "cert_dir")

def defaultVerbosity (s : Settings) : Value := s.value (text "default_verbosity")

def serviceTimeout (s : Settings) : Value := s.value (text "service_timeout")

def serviceTries (s : Settings) : Value := s.value (text "service_tries")

def serviceTrySleep (s : Settings) : Value := s.value (text "service_try_sleep")

def healthEndpoint (s : Settings) : Value := s.value (text "healthz_endpoint")

def healthTries (s : Settings) : Value := s.value (text "healthz_tries")

def healthTrySleep (s : Settings) : Value := s.value (text "healthz_try_sleep")

def healthTimeout (s : Settings) : Value := s.value (text "healthz_timeout")

end Settings

end NodeBootstrap
