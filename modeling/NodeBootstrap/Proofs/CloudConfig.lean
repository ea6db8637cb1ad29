import NodeBootstrap.Proofs.Flag.Command
import NodeBootstrap.Proofs.Ignition.CloudConfigFlag
import NodeBootstrap.Proofs.Json.RoundTrip

/-!
# The flat form of a cloud config is read back

The flat form has no escapes, so what can be told from it depends on the entries. It is read in the
plainest way (`CloudConfig.entriesOf?`): the braces are dropped, and the rest is cut at every
`,\n\t` and each piece at its first `: `. Of a config that is `Legible` this gives back every key
with a text for its value (`CloudConfig.entriesOf?_extracted`).

Nothing inside of an entry is taken for a separator. A separator begins with two different code
points, so it is found neither in a text that does not hold these two side by side nor across the
end of such a text (`Text.cut?_append`); and an entry holds no line feed, whatever its value is,
because all but texts are written as one line of ASCII.

A key with a line feed or with `: ` in it, and a text with a line feed, are not told from what
surrounds them: of such configs nothing is said here.
-/

set_option autoImplicit false

namespace NodeBootstrap

/-! ## Cutting at a separator -/

namespace Text

/-- The text before the first place where a separator stands, and the text behind it there. -/
def cut? (separator : Text) : Text → Option (Text × Text)
  | [] => none
  | c :: rest =>
    match afterStart? (c :: rest) separator with
    | some behind => some ([], behind)
    | none => (cut? separator rest).map fun (before, behind) => (c :: before, behind)

variable {separator t before behind : Text}

theorem cut?_of_start (hne : t ≠ []) (h : afterStart? t separator = some behind) :
    cut? separator t = some ([], behind) := by
  obtain ⟨c, rest, rfl⟩ := List.exists_cons_of_ne_nil hne
  rw [cut?, h]

theorem cut?_of_not_start {c : CodePoint} {rest : Text} (h : ¬ separator <+: c :: rest) :
    cut? separator (c :: rest) =
      (cut? separator rest).map fun (before, behind) => (c :: before, behind) := by
  rw [cut?, Command.afterStart?_eq_none.mpr h]

/-- What is cut is the text before, the separator and the text behind. -/
theorem eq_of_cut? (h : cut? separator t = some (before, behind)) :
    t = before ++ (separator ++ behind) := by
  induction t generalizing before with
  | nil => cases h
  | cons c rest ih =>
    rw [cut?] at h
    split at h
    next hstart =>
      cases h
      rw [List.nil_append]
      exact Command.eq_of_afterStart? hstart
    next =>
      obtain ⟨⟨before', behind'⟩, hrest, heq⟩ := Option.map_eq_some_iff.mp h
      cases heq
      rw [ih hrest, List.cons_append]

theorem length_of_cut? (hne : separator ≠ []) (h : cut? separator t = some (before, behind)) :
    behind.length < t.length := by
  have hpos := List.length_pos_iff.mpr hne
  rw [eq_of_cut? h, List.length_append, List.length_append]
  omega

/-- The texts between the places where a separator stands, cut off one after the other. -/
def cutAll (separator : Text) (hne : separator ≠ []) (t : Text) : List Text :=
  match h : cut? separator t with
  | none => [t]
  | some (before, behind) =>
    have : behind.length < t.length := length_of_cut? hne h
    before :: cutAll separator hne behind
termination_by t.length

theorem cutAll_of_none (hne : separator ≠ []) (h : cut? separator t = none) :
    cutAll separator hne t = [t] := by
  rw [cutAll]
  split
  next => rfl
  next heq =>
    rw [h] at heq
    cases heq

theorem cutAll_of_some (hne : separator ≠ []) (h : cut? separator t = some (before, behind)) :
    cutAll separator hne t = before :: cutAll separator hne behind := by
  rw [cutAll]
  split
  next heq =>
    rw [h] at heq
    cases heq
  next heq =>
    rw [h] at heq
    cases heq
    rfl

section Apart

variable {a b : CodePoint}

/-- Without its first two code points side by side there is no separator. -/
theorem cut?_eq_none (hmark : [a, b] <+: separator) (h : ¬ [a, b] <:+: t) :
    cut? separator t = none := by
  induction t with
  | nil => rfl
  | cons c rest ih =>
    have hrest : ¬ [a, b] <:+: rest := fun hin => h (hin.trans (List.suffix_cons c rest).isInfix)
    have hstart : ¬ separator <+: c :: rest := fun hin => h (hmark.trans hin).isInfix
    rw [cut?_of_not_start hstart, ih hrest]
    rfl

/-- A separator that begins with two different code points does not reach across the end of a text
that does not hold these two side by side. -/
private theorem not_start (hmark : [a, b] <+: separator) (hne : a ≠ b) {c : CodePoint} {rest : Text}
    (h : ¬ [a, b] <:+: c :: rest) : ¬ separator <+: c :: (rest ++ (separator ++ behind)) := by
  intro hin
  obtain ⟨rfl, hnext⟩ := List.cons_prefix_cons.mp (hmark.trans hin)
  cases rest with
  | nil =>
    obtain ⟨others, rfl⟩ := hmark
    exact hne (List.cons_prefix_cons.mp hnext).1.symm
  | cons d rest =>
    obtain rfl : b = d := (List.cons_prefix_cons.mp hnext).1
    exact h (List.prefix_append [a, b] rest).isInfix

/-- So it is found behind such a text. -/
theorem cut?_append (hmark : [a, b] <+: separator) (hne : a ≠ b) (h : ¬ [a, b] <:+: before) :
    cut? separator (before ++ (separator ++ behind)) = some (before, behind) := by
  induction before with
  | nil =>
    obtain ⟨others, rfl⟩ := hmark
    exact cut?_of_start (List.cons_ne_nil _ _) (Command.afterStart?_append _ behind)
  | cons c rest ih =>
    have hrest : ¬ [a, b] <:+: rest := fun hin => h (hin.trans (List.suffix_cons c rest).isInfix)
    rw [List.cons_append, cut?_of_not_start (not_start hmark hne h), ih hrest]
    rfl

/-- Parts that are joined are cut apart again. -/
theorem cutAll_join (hmark : [a, b] <+: separator) (hne : a ≠ b) (hne' : separator ≠ [])
    {first : Text} {parts : List Text} (h : ∀ part ∈ first :: parts, ¬ [a, b] <:+: part) :
    cutAll separator hne' (Text.join separator (first :: parts)) = first :: parts := by
  induction parts generalizing first with
  | nil =>
    obtain ⟨hfirst, -⟩ := List.forall_mem_cons.mp h
    rw [join_singleton, cutAll_of_none hne' (cut?_eq_none hmark hfirst)]
  | cons next parts ih =>
    obtain ⟨hfirst, hparts⟩ := List.forall_mem_cons.mp h
    rw [join_cons_cons, cutAll_of_some hne' (cut?_append hmark hne hfirst), ih hparts]

end Apart

/-- What comes before an ending, if the text has it. -/
def beforeEnd? (t ending : Text) : Option Text :=
  (afterStart? t.reverse ending.reverse).map List.reverse

theorem beforeEnd?_append (front ending : Text) :
    beforeEnd? (front ++ ending) ending = some front := by
  rw [beforeEnd?, List.reverse_append, Command.afterStart?_append, Option.map_some,
    List.reverse_reverse]

end Text

/-! ## The flat form -/

namespace CloudConfig

/-- The keys of a flat form and the texts of their values: the braces dropped, the rest cut into
entries and each of these behind its key. -/
def entriesOf? (flat : Text) : Option (List (Text × Text)) := do
  let inner ← flat.afterStart? (text "\x7b\n\t")
  let body ← inner.beforeEnd? (text "\n\x7d")
  (Text.cutAll (text ",\n\t") (by decide) body).mapM (Text.cut? (text ": "))

/-- A text stands for a value: for a string that is the text itself, and for any other value one
line of printable ASCII that is a document of the same value. -/
def StandsFor (t : Text) : Json → Prop
  | .string s => t = s
  | v => t.PrintsInAscii ∧ ∃ w, Json.ofText t = .ok w ∧ Value.ofJson w = Value.ofJson v

/-- A config whose flat form can be read back. -/
structure Legible (entries : OrderedMap Text Json) : Prop where
  nonempty : entries ≠ []
  /-- Nowhere is there a floating-point number or half of a surrogate pair. -/
  exact : ∀ v ∈ (Json.object entries).parts, v.Exact
  keys_oneLine : ∀ e ∈ entries, .char '\n' ∉ e.1
  keys_uncut : ∀ e ∈ entries, ¬ text ": " <:+: e.1
  /-- Strings inside of other values may hold anything. -/
  texts_oneLine : ∀ e ∈ entries, ∀ t, e.2 = .string t → .char '\n' ∉ t

/-- What is to hold of a string can be decided of any value. -/
instance decidableForallString {p : Text → Prop} [DecidablePred p] :
    (v : Json) → Decidable (∀ t, v = .string t → p t)
  | .string t => decidable_of_iff (p t) ⟨fun h _ heq => Json.string.inj heq ▸ h, fun h => h t rfl⟩
  | .null | .bool _ | .number _ | .nan | .infinite _ | .array _ | .object _ => .isTrue nofun

variable {contents : Bytes} {entries : OrderedMap Text Json} {e : Text × Json}

theorem legible_iff :
    Legible entries ↔
      entries ≠ [] ∧ (∀ v ∈ (Json.object entries).parts, v.Exact) ∧
        (∀ e ∈ entries, .char '\n' ∉ e.1) ∧ (∀ e ∈ entries, ¬ text ": " <:+: e.1) ∧
        ∀ e ∈ entries, ∀ t, e.2 = .string t → .char '\n' ∉ t :=
  ⟨fun ⟨h₁, h₂, h₃, h₄, h₅⟩ => ⟨h₁, h₂, h₃, h₄, h₅⟩,
    fun ⟨h₁, h₂, h₃, h₄, h₅⟩ => ⟨h₁, h₂, h₃, h₄, h₅⟩⟩

/-- Whatever a config is loaded from, it is proper in every part. -/
theorem proper_of_loadCloudConfig (h : Ignition.loadCloudConfig contents = .ok entries) :
    ∀ v ∈ (Json.object entries).parts, v.Proper := by
  obtain ⟨config, hread, h⟩ := bind_eq_ok.mp h
  obtain ⟨document, -, hdocument⟩ := bind_eq_ok.mp (mapError_eq_ok.mp hread)
  split at h
  next =>
    cases h
    exact Json.proper_of_ofText (mapError_eq_ok.mp hdocument)
  next => cases h

/-- The text of a loaded value stands for it. -/
theorem standsFor_formatValue {v : Json} (h : ∀ w ∈ v.parts, w.Proper ∧ w.Exact) :
    StandsFor (formatValue v) v := by
  have hwritten : (v.write .spaced).PrintsInAscii ∧
      ∃ w, Json.ofText (v.write .spaced) = .ok w ∧ Value.ofJson w = Value.ofJson v :=
    ⟨Json.printsInAscii_write v, v.normal, Json.ofText_write h, Value.ofJson_normal v⟩
  cases v with
  | string t => rfl
  | _ => exact hwritten

theorem Legible.writable (h : Legible entries) : Writable entries := by
  obtain ⟨hkeys, hvalues⟩ := Json.forall_parts_object.mp h.exact
  refine fun e he => ⟨hkeys e he, fun t ht => ?_⟩
  have hvalue := hvalues e he e.2 (Json.mem_parts_self e.2)
  rw [ht] at hvalue
  exact hvalue

/-- An entry of a legible config is on one line. -/
theorem Legible.entry_oneLine (h : Legible entries) (he : e ∈ entries) :
    .char '\n' ∉ entry e.1 e.2 := by
  have hvalue : .char '\n' ∉ formatValue e.2 := by
    unfold formatValue
    split
    next t ht => exact h.texts_oneLine e he t ht
    next =>
      intro hmem
      exact absurd (Json.printsInAscii_write e.2 _ hmem) (by decide)
  rw [entry, List.mem_append, List.mem_append]
  rintro ((hmem | hmem) | hmem)
  · exact h.keys_oneLine e he hmem
  · exact absurd hmem (by decide)
  · exact hvalue hmem

/-- An entry of a legible config is cut behind its key. -/
theorem Legible.cut?_entry (h : Legible entries) (he : e ∈ entries) :
    Text.cut? (text ": ") (entry e.1 e.2) = some (e.1, formatValue e.2) := by
  have hmark : [.char ':', .char ' '] <+: text ": " := by decide
  rw [entry, List.append_assoc]
  exact Text.cut?_append hmark (by decide) (h.keys_uncut e he)

private theorem Legible.mapM_cut? (h : Legible entries) {es : List (Text × Json)}
    (hes : ∀ e ∈ es, e ∈ entries) :
    (es.map fun e => entry e.1 e.2).mapM (Text.cut? (text ": ")) =
      some (es.map fun e => (e.1, formatValue e.2)) := by
  induction es with
  | nil => rfl
  | cons e es ih =>
    obtain ⟨he, hes⟩ := List.forall_mem_cons.mp hes
    rw [List.map_cons, List.mapM_cons, h.cut?_entry he, ih hes]
    rfl

/-- The entries of a legible config are cut apart. -/
private theorem Legible.cutAll_join (h : Legible entries) (hne : text ",\n\t" ≠ []) :
    Text.cutAll (text ",\n\t") hne
        (Text.join (text ",\n\t") (entries.map fun e => entry e.1 e.2)) =
      entries.map fun e => entry e.1 e.2 := by
  have hmark : [.char ',', .char '\n'] <+: text ",\n\t" := by decide
  have hparts : ∀ part ∈ entries.map (fun e => entry e.1 e.2),
      ¬ [.char ',', .char '\n'] <:+: part := by
    intro part hpart hin
    obtain ⟨e, he, rfl⟩ := List.mem_map.mp hpart
    exact h.entry_oneLine he (hin.subset (List.mem_cons_of_mem _ List.mem_cons_self))
  obtain ⟨first, rest, hcons⟩ := List.exists_cons_of_ne_nil h.nonempty
  rw [hcons, List.map_cons] at hparts ⊢
  exact Text.cutAll_join hmark (by decide) hne hparts

/-- The flat form of a legible config gives back the keys and the texts of the values. -/
theorem Legible.entriesOf?_render (h : Legible entries) :
    entriesOf? (render entries) = some (entries.map fun e => (e.1, formatValue e.2)) := by
  have hempty : entries.isEmpty = false := List.isEmpty_eq_false_iff.mpr h.nonempty
  rw [render, hempty, if_neg Bool.false_ne_true, entriesOf?, List.append_assoc,
    Command.afterStart?_append]
  simp only [Option.bind_eq_bind, Option.bind_some, Text.beforeEnd?_append]
  rw [h.cutAll_join, h.mapM_cut? fun _ he => he]

/-- **The flat form of a cloud config is read back.** Every legible config that is loaded is
extracted, and the bytes hold its keys in their order, each with a text that stands for its value,
whatever separators and escapes the value holds. -/
theorem entriesOf?_extracted (n : Node) (s : NodeState)
    (hload : Ignition.loadCloudConfig contents = .ok entries) (h : Legible entries) :
    ∃ bytes s' flat,
      (Ignition.extractCloudConfig n contents).run.run s = (.ok bytes, s') ∧
        Utf8.decode bytes = .ok flat ∧
        entriesOf? flat = some (entries.map fun e => (e.1, formatValue e.2)) ∧
        ∀ e ∈ entries, StandsFor (formatValue e.2) e.2 := by
  obtain ⟨s', -, hrun⟩ := Ignition.run_extractCloudConfig (n := n) (s := s) hload
  obtain ⟨bytes, hbytes⟩ :=
    (Utf8.exists_encode_iff (render entries)).mpr ((isSurrogate_render entries).mpr h.writable)
  have hproper := (Json.forall_parts_object.mp (proper_of_loadCloudConfig hload)).2
  have hexact := (Json.forall_parts_object.mp h.exact).2
  refine ⟨bytes, s', render entries, ?_, Utf8.decode_encode hbytes, h.entriesOf?_render,
    fun e he => standsFor_formatValue fun w hw => ⟨hproper e he w hw, hexact e he w hw⟩⟩
  rw [hrun, Ignition.encodeContents, hbytes]
  rfl

/-! ## A brief config -/

/-- A config with separators, an escape that joins two halves, a zero with a sign and a number beyond
any machine word. -/
def briefConfig : String :=
  "\x7b\"a:\":\"b: c,\\t\"," ++
  "\"d\":\x7b\"e,\\n\\tf: \":[\"\\ud83d\\ude00\",-0,36893488147419103232]\x7d\x7d"

/-- Its entries as they are read back. -/
def briefEntries : List (Text × Text) := [
  (text "a:", text "b: c,\t"),
  (text "d",
    text "\x7b\"e,\\n\\tf: \": [\"\\ud83d\\ude00\", 0, 36893488147419103232]\x7d")]

theorem entriesOf?_extracted_brief :
    ∃ entries bytes s' flat,
      Ignition.loadCloudConfig (Utf8.ofLiteral briefConfig) = .ok entries ∧ Legible entries ∧
        (Ignition.extractCloudConfig Ignition.briefNode (Utf8.ofLiteral briefConfig)).run.run
          Ignition.briefState = (.ok bytes, s') ∧
        Utf8.decode bytes = .ok flat ∧ entriesOf? flat = some briefEntries ∧
        ∀ e ∈ entries, StandsFor (formatValue e.2) e.2 := by
  have hbytes : Utf8.ofLiteral briefConfig = _ :=
    Utf8.ofLiteral_append (Utf8.ofLiteral_ofList _) (Utf8.ofLiteral_ofList _)
  have hloads : (Ignition.loadCloudConfig (Utf8.ofLiteral briefConfig)).isOk = true := by
    rw [hbytes]
    decide +kernel
  have hlegible : ∀ entries, Ignition.loadCloudConfig (Utf8.ofLiteral briefConfig) = .ok entries →
      Legible entries ∧ entries.map (fun e => (e.1, formatValue e.2)) = briefEntries := by
    simp only [hbytes, legible_iff]
    decide +kernel
  cases hload : Ignition.loadCloudConfig (Utf8.ofLiteral briefConfig) with
  | error failure =>
    rw [hload] at hloads
    cases hloads
  | ok entries =>
    obtain ⟨h, hentries⟩ := hlegible entries hload
    obtain ⟨bytes, s', flat, hrun, hdecode, hread, hstands⟩ :=
      entriesOf?_extracted Ignition.briefNode Ignition.briefState hload h
    rw [hentries] at hread
    exact ⟨entries, bytes, s', flat, rfl, h, hrun, hdecode, hread, hstands⟩

end CloudConfig

end NodeBootstrap
