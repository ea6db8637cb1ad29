import NodeBootstrap.Ignition.Rule
import NodeBootstrap.Proofs.Ignition.Materialized
import NodeBootstrap.Proofs.Json.Ascii
import NodeBootstrap.Proofs.Step
import NodeBootstrap.Proofs.Text.Utf8

/-!
# The flag of a cloud config that fails

The flag that points the kubelet at the cloud config is set before the flat form is turned into
bytes. A config that cannot be read therefore leaves the node as it was, but one that is read and
cannot be written (`Writable`) leaves the flag set with nothing for it to point at
(`extracts_extractCloudConfig`).

What cannot be written is told from the entries: keys and texts stand in the flat form as they are,
all other values in ASCII, so only half of a surrogate pair in the former stands in the way.
-/

set_option autoImplicit false

namespace NodeBootstrap

namespace CloudConfig

/-- A config whose keys and texts hold no half of a surrogate pair. -/
def Writable (entries : OrderedMap Text Json) : Prop :=
  ∀ e ∈ entries, (∀ c ∈ e.1, c.isSurrogate = false) ∧
    ∀ t, e.2 = .string t → ∀ c ∈ t, c.isSurrogate = false

theorem isSurrogate_formatValue {v : Json} :
    (∀ c ∈ formatValue v, c.isSurrogate = false) ↔
      ∀ t, v = .string t → ∀ c ∈ t, c.isSurrogate = false := by
  have hwritten : ∀ c ∈ v.write .spaced, c.isSurrogate = false := fun c hc =>
    (Json.printsInAscii_write v c hc).isSurrogate
  cases v with
  | string t => exact ⟨fun h _ heq => Json.string.inj heq ▸ h, fun h => h t rfl⟩
  | _ => exact iff_of_true hwritten nofun

theorem isSurrogate_entry {key : Text} {v : Json} :
    (∀ c ∈ entry key v, c.isSurrogate = false) ↔
      (∀ c ∈ key, c.isSurrogate = false) ∧
        ∀ t, v = .string t → ∀ c ∈ t, c.isSurrogate = false := by
  have hseparator : ∀ c ∈ text ": ", c.isSurrogate = false := by decide
  rw [entry, List.forall_mem_append, List.forall_mem_append, isSurrogate_formatValue,
    and_iff_left hseparator]

/-- The flat form of a config is text that UTF-8 can hold exactly if the config is writable. -/
theorem isSurrogate_render (entries : OrderedMap Text Json) :
    (∀ c ∈ render entries, c.isSurrogate = false) ↔ Writable entries := by
  rw [render]
  split
  next hempty =>
    have hnil := List.isEmpty_iff.mp hempty
    subst hnil
    exact iff_of_true (by decide) nofun
  next =>
    have hopening : ∀ c ∈ text "\x7b\n\t", c.isSurrogate = false := by decide
    have hclosing : ∀ c ∈ text "\n\x7d", c.isSurrogate = false := by decide
    have hseparator : ∀ c ∈ text ",\n\t", c.isSurrogate = false := by decide
    rw [List.forall_mem_append, List.forall_mem_append]
    constructor
    · rintro ⟨⟨-, hentries⟩, -⟩ e he
      apply isSurrogate_entry.mp
      intro c hc
      exact hentries c (Text.mem_join _ (List.mem_map_of_mem he) hc)
    · intro h
      refine ⟨⟨hopening, fun c hc => ?_⟩, hclosing⟩
      obtain hc | ⟨part, hpart, hc⟩ := Text.exists_of_mem_join hc
      · exact hseparator c hc
      · obtain ⟨e, he, rfl⟩ := List.mem_map.mp hpart
        exact isSurrogate_entry.mpr (h e he) c hc

end CloudConfig

namespace Ignition

open CloudConfig

/-- The flags of a node with the one that points at the cloud config. -/
def pointed (n : Node) (s : NodeState) : Flags :=
  s.kubeletFlags.set flagName (.text (n.layout.file fileName))

/-- What the extraction of a cloud config comes to, and what it leaves behind. -/
inductive Extracts (n : Node) (contents : Bytes) (s : NodeState) :
    Except Failure Bytes → NodeState → Prop
  /-- Of a config that cannot be read nothing is left. -/
  | unread {failure : Failure} (h : loadCloudConfig contents = .error failure) :
    Extracts n contents s (.error failure) s
  /-- Of a config that cannot be written the flag is left. -/
  | unwritten {entries : OrderedMap Text Json} {fault : Encoding.EncodeFault} {s' : NodeState}
    (read : loadCloudConfig contents = .ok entries) (unwritable : ¬ Writable entries)
    (flags : s'.kubeletFlags = pointed n s) :
    Extracts n contents s (.error (.unencodable fault)) s'
  | written {entries : OrderedMap Text Json} {bytes : Bytes} {s' : NodeState}
    (read : loadCloudConfig contents = .ok entries) (writable : Writable entries)
    (bytes_eq : Utf8.encode (render entries) = .ok bytes)
    (flags : s'.kubeletFlags = pointed n s) : Extracts n contents s (.ok bytes) s'

variable {n : Node} {s : NodeState}

/-- A config that is read sets the flag whatever becomes of its flat form. -/
theorem run_extractCloudConfig {contents : Bytes} {entries : OrderedMap Text Json}
    (h : loadCloudConfig contents = .ok entries) :
    ∃ s', s'.kubeletFlags = pointed n s ∧
      (extractCloudConfig n contents).run.run s = (encodeContents (render entries), s') := by
  rw [extractCloudConfig, h]
  exact ⟨_, rfl, run_ofExcept (encodeContents (render entries)) _⟩

/-- Extracting a cloud config leaves nothing of one that cannot be read, and the flag of one that
can. -/
theorem extracts_extractCloudConfig (contents : Bytes) :
    Extracts n contents s ((extractCloudConfig n contents).run.run s).1
      ((extractCloudConfig n contents).run.run s).2 := by
  cases hload : loadCloudConfig contents with
  | error failure =>
    have hrun : (extractCloudConfig n contents).run.run s = (.error failure, s) := by
      rw [extractCloudConfig, hload]
      rfl
    rw [hrun]
    exact .unread hload
  | ok entries =>
    obtain ⟨s', hflags, hrun⟩ := run_extractCloudConfig (n := n) (s := s) hload
    have hwritable := isSurrogate_render entries
    rw [hrun, encodeContents]
    obtain ⟨bytes, hencode, hplain⟩ | ⟨fault, hencode, hhalf⟩ :=
      Utf8.encode_cases (render entries)
    · rw [hencode]
      exact .written hload (hwritable.mp hplain) hencode hflags
    · rw [hencode]
      exact .unwritten hload (mt hwritable.mpr hhalf) hflags

/-- The contents of a file that is a cloud config: an unusable source leaves nothing, and what is
made of a usable one is what the extraction makes of its bytes. -/
theorem run_materialize_cloudConfig (source : Json) :
    (∃ fault, DataUri.decode source = .error fault ∧
      (materialize n source (some .cloudConfig)).run.run s =
        (.error (Failure.ofSourceFault fault), s)) ∨
    ∃ contents result s', DataUri.decode source = .ok contents ∧ Extracts n contents s result s' ∧
      (materialize n source (some .cloudConfig)).run.run s =
        (result.mapError .transform, s') := by
  unfold materialize
  cases hsource : DataUri.decode source with
  | error fault => exact .inl ⟨fault, rfl, rfl⟩
  | ok contents =>
    have hextracts := extracts_extractCloudConfig (n := n) (s := s) contents
    generalize hran : (extractCloudConfig n contents).run.run s = ran at hextracts
    obtain ⟨result, s'⟩ := ran
    refine .inr ⟨contents, result, s', rfl, hextracts, ?_⟩
    rw [mapError_ok, run_bind, run_ofExcept]
    dsimp only [applyTransform]
    rw [run_tryCatch, hran]
    cases result <;> rfl

/-- What a failed extraction leaves: nothing of a config that cannot be read, but the flag of one
that can be read and not be written. Bytes are the result exactly for a config that can be read and
written. The same holds of a file of the payload that is a cloud config. -/
theorem cloudConfig_flag (n : Node) (s : NodeState) :
    (∀ contents, Extracts n contents s ((extractCloudConfig n contents).run.run s).1
      ((extractCloudConfig n contents).run.run s).2) ∧
    ∀ source,
      (∃ fault, DataUri.decode source = .error fault ∧
        (materialize n source (some .cloudConfig)).run.run s =
          (.error (Failure.ofSourceFault fault), s)) ∨
      ∃ contents result s', DataUri.decode source = .ok contents ∧
        Extracts n contents s result s' ∧
          (materialize n source (some .cloudConfig)).run.run s =
            (result.mapError .transform, s') :=
  ⟨extracts_extractCloudConfig, run_materialize_cloudConfig⟩

/-- A config with half of a pair, written as an escape. -/
def halfConfig : String := "\x7b\"a\":\"\\ud800\"\x7d"

/-- Half of a pair can be read and not be written, so the flag is left to point at nothing. -/
theorem not_cloudConfig_flag_kept :
    ¬ ∀ (n : Node) (contents : Bytes) (s : NodeState) (failure : Failure),
      ((extractCloudConfig n contents).run.run s).1 = .error failure →
        ((extractCloudConfig n contents).run.run s).2.kubeletFlags = s.kubeletFlags := by
  intro hkept
  have hbytes : Utf8.ofLiteral halfConfig = _ := Utf8.ofLiteral_ofList _
  generalize hran : (extractCloudConfig briefNode (Utf8.ofLiteral halfConfig)).run.run briefState =
    ran
  have hfailed : ran.1.isOk = false := by
    rw [← hran, hbytes]
    decide +kernel
  have hflags : ran.2.kubeletFlags.keys = [flagName] := by
    rw [← hran, hbytes]
    decide +kernel
  have hsame := hkept briefNode (Utf8.ofLiteral halfConfig) briefState
  rw [hran] at hsame
  obtain ⟨result, s'⟩ := ran
  cases result with
  | ok bytes => cases hfailed
  | error failure =>
    rw [hsame failure rfl] at hflags
    cases hflags

end Ignition

end NodeBootstrap
