import Mathlib.Data.List.Basic
import NodeBootstrap.Proofs.Flag.ArgumentLine
import NodeBootstrap.Proofs.Flag.Command
import NodeBootstrap.Proofs.Node.KubeletFlags

/-!
# The start command of a node

The start command is the program and its arguments: those that every start command has, and the
flags that the node has collected. The names of the arguments are distinct, and all values but those
of the two flags that are carried over from the Linux kubelet are fixed or determined by the node
(`Kubelet.Commands`). That much holds of the arguments as they are put together.

The service is started with their text, in which a value with blanks stands in quotes and a quote
in a value stands as it is. So a value that is carried over can leave its quotes and come to flags
of its own. What the text is read as is said by `Kubelet.Reads`: the arguments that were put
together, exactly if no value has a quote in it, nor a backslash in front of the quote that closes
it (`Kubelet.Contained`). Then the flags that are read have distinct names too, and none is from
the unit but the two. Without that condition neither holds (`Node.not_collected_after`).
-/

set_option autoImplicit false

namespace NodeBootstrap

open OrderedMap Ignition ArgumentLine

variable {n : Node} {test : Text → Except Failure Bool} {first flags : Flags}
  {nodeIp : Option Text}

namespace Kubelet

/-- The arguments that every start command has. One has no value. -/
def fixedArguments (n : Node) : List (Text × Option Value) :=
  let file (name : String) : Value := .text (n.layout.file (text name))
  [(text "config", some (file "kubelet.conf")),
    (text "bootstrap-kubeconfig", some (file "bootstrap-kubeconfig")),
    (text "kubeconfig", some (file "kubeconfig")),
    (text "pod-infra-container-image", some n.settings.pauseImage),
    (text "cert-dir", some n.settings.certificateDirectory),
    (text "windows-service", none),
    (text "logtostderr", some (.text (text "false"))),
    (text "log-file", some (.text (Path.join n.layout.logDirectory (text "kubelet.log")))),
    (text "register-with-taints", some (.text windowsTaint)),
    (text "node-labels", some (.text windowsLabel))]

/-- The names of the arguments that every start command has. -/
def fixedNames : List Text :=
  [text "config", text "bootstrap-kubeconfig", text "kubeconfig", text "pod-infra-container-image",
    text "cert-dir", text "windows-service", text "logtostderr", text "log-file",
    text "register-with-taints", text "node-labels"]

/-- The arguments of the start command: the fixed ones and then the flags. -/
def arguments (n : Node) (flags : Flags) : List (Text × Option Value) :=
  fixedArguments n ++ flags.map fun e => (e.1, some e.2)

/-- An argument as text. -/
def renderArgument : Text × Option Value → Except KindFault Text
  | (name, some value) => renderFlag name value
  | (name, none) => .ok (text "--" ++ name)

/-- The start command is the program and its arguments. -/
theorem command_eq (n : Node) (flags : Flags) :
    command n flags = do
      let words ← (arguments n flags).mapM renderArgument
      return Text.join (text " ") (quotedPath (n.layout.file programName) :: words) := by
  have hfixed : command n flags = (do
      let words ← (.ok (quotedPath (n.layout.file programName)) ::
        (fixedArguments n).map renderArgument).mapM id
      let collected ← if flags.isEmpty then pure [] else pure [← flags.render]
      return Text.join (text " ") (words ++ collected)) := rfl
  have hrender : flags.render = (do
      let words ← (flags.map fun e => (e.1, some e.2)).mapM renderArgument
      return Text.join (text " ") words) := by
    rw [List.mapM_map]
    rfl
  rw [hfixed, arguments, List.mapM_cons, List.mapM_map, List.mapM_append]
  cases hfixedWords : (fixedArguments n).mapM renderArgument with
  | error fault =>
    have hwords : (fixedArguments n).mapM (id ∘ renderArgument) = .error fault := hfixedWords
    rw [hwords]
    rfl
  | ok words =>
    have hwords : (fixedArguments n).mapM (id ∘ renderArgument) = .ok words := hfixedWords
    rw [hwords]
    cases flags with
    | nil => rfl
    | cons flag flags =>
      rw [hrender, List.map_cons, List.mapM_cons]
      cases renderArgument (flag.1, some flag.2) with
      | error fault => rfl
      | ok word =>
        cases (flags.map fun e => (e.1, some e.2)).mapM renderArgument with
        | error fault => rfl
        | ok more => exact congrArg Except.ok (Text.join_append_join _ _ _ words more)

/-- The flags that a node determines, in the order in which a walk and then the network plugins set
them. -/
def determined (n : Node) (nodeIp : Option Text) : Flags :=
  ofOption Node.nodeIpFlag ((nodeIp.filter (!·.isEmpty)).map .text) ++
    (CloudConfig.flagName, .text (n.layout.file CloudConfig.fileName)) ::
      (Cni.flags n.layout).map fun f => (f.1, .text f.2)

/-- What the start command with some flags is like. -/
structure Commands (n : Node) (nodeIp : Option Text) (flags : Flags) : Prop where
  /-- It can fail for the values of the settings, and is the program and its arguments otherwise. -/
  command : command n flags = do
    let words ← (arguments n flags).mapM renderArgument
    return Text.join (text " ") (quotedPath (n.layout.file programName) :: words)
  distinct : ((arguments n flags).map Prod.fst).Nodup
  /-- What is not carried over is fixed or determined by the node. -/
  own : ∀ a ∈ arguments n flags, a.1 ∈ carriedOver ∨ a ∈ arguments n (determined n nodeIp)
  texts : ∀ e ∈ flags, ∃ value, e.2 = .text value

theorem nodup_argumentNames {flags : Flags} (hnames : ∀ name ∈ flags.keys, name ∈ collectableNames)
    (hdistinct : flags.keys.Nodup) : ((arguments n flags).map Prod.fst).Nodup := by
  have hsplit : (arguments n flags).map Prod.fst = fixedNames ++ flags.keys := by
    rw [arguments, List.map_append, List.map_map]
    rfl
  have hapart : ∀ name ∈ fixedNames, name ∉ collectableNames := by decide
  rw [hsplit]
  refine List.nodup_append.mpr ⟨by decide, hdistinct, fun name hfixed other hflag heq => ?_⟩
  exact hapart name hfixed (hnames name (heq ▸ hflag))

theorem Commands.of_gathers (h : Gathers n first flags)
    (hfirst : Node.firstFlagsBy test nodeIp = .ok first) : Commands n nodeIp flags where
  command := command_eq n flags
  distinct := nodup_argumentNames (h.collected hfirst).names h.distinct
  own := by
    intro a ha
    rcases List.mem_append.mp ha with hfixed | hflag
    · exact .inr (List.mem_append_left _ hfixed)
    · obtain ⟨e, he, rfl⟩ := List.mem_map.mp hflag
      have howned : e ∈ determined n nodeIp → (e.1, some e.2) ∈ arguments n (determined n nodeIp) :=
        fun howned => List.mem_append_right _ (List.mem_map_of_mem howned)
      rcases h.known e he with hold | rfl | hplugin | hcarried
      · rw [firstFlags_eq_ok hfirst] at hold
        exact .inr (howned (List.mem_append_left _ hold))
      · exact .inr (howned (List.mem_append_right _ List.mem_cons_self))
      · exact .inr (howned (List.mem_append_right _ (List.mem_cons_of_mem _ hplugin)))
      · exact .inl hcarried.1
  texts := by
    intro e he
    rcases h.known e he with hold | rfl | hplugin | hcarried
    · rw [firstFlags_eq_ok hfirst] at hold
      cases haddress : nodeIp.filter (!·.isEmpty) with
      | none =>
        rw [haddress] at hold
        exact absurd hold List.not_mem_nil
      | some address =>
        rw [haddress] at hold
        cases List.mem_singleton.mp hold
        exact ⟨address, rfl⟩
    · exact ⟨_, rfl⟩
    · obtain ⟨f, -, rfl⟩ := List.mem_map.mp hplugin
      exact ⟨f.2, rfl⟩
    · exact hcarried.2

/-! ## The text of the start command -/

/-- The program as a piece of the start command. -/
def programPiece (n : Node) : Piece :=
  ⟨[], .char ' ' ∈ n.layout.file programName, n.layout.file programName⟩

/-- An argument as a piece of the start command. -/
def argumentPiece : Text × Option Value → Piece
  | (name, some value) =>
    ⟨text "--" ++ name ++ text "=", value.needsQuotes.toOption.getD false, value.display⟩
  | (name, none) => ⟨text "--" ++ name, false, []⟩

/-- The start command in its pieces. -/
def pieces (n : Node) (flags : Flags) : List Piece :=
  programPiece n :: (arguments n flags).map argumentPiece

/-- An argument as it is read: without a value it has an empty one. -/
def shown (argument : Text × Option Value) : Text × Text :=
  (argument.1, (argument.2.map Value.display).getD [])

/-- The flags that a program reads off its command line, behind its own path. -/
def flagsOn (doubling : Doubling) (line : Text) : List (Text × Text) :=
  ((split doubling line).drop 1).filterMap Command.flagOf?

/-- A value that stays in the quotes that it is written in, if it is: it has none of its own, and no
backslash comes to stand in front of the closing one. -/
def Contained (value : Text) : Prop :=
  .char '"' ∉ value ∧ ((value.isEmpty || value.any CodePoint.isBlank) = true →
    value.getLast? ≠ some (.char '\\'))

/-- What programs read off the start command with some flags. -/
structure Reads (n : Node) (nodeIp : Option Text) (flags : Flags) (line : Text) : Prop where
  /-- They read the arguments that are meant exactly if every value is sealed in its piece. -/
  exact : (∀ doubling, split doubling line = (pieces n flags).map Piece.meant) ↔
    ∀ p ∈ pieces n flags, p.Sealed
  /-- Where all that is the node's own is sealed, that is up to the values that are carried over. -/
  carried : (∀ p ∈ pieces n (determined n nodeIp), p.Sealed) →
    ((∀ p ∈ pieces n flags, p.Sealed) ↔
      ∀ e ∈ flags, e.1 ∈ carriedOver → ∃ value, e.2 = .text value ∧ Contained value)
  distinct : (∀ p ∈ pieces n flags, p.Sealed) →
    ∀ doubling, ((flagsOn doubling line).map Prod.fst).Nodup
  /-- What is not carried over is fixed or determined by the node. -/
  own : (∀ p ∈ pieces n flags, p.Sealed) → ∀ doubling, ∀ f ∈ flagsOn doubling line,
    f.1 ∈ carriedOver ∨ f ∈ (arguments n (determined n nodeIp)).map shown

variable {line : Text}

theorem sealed_text (name value : Text) :
    (argumentPiece (name, some (.text value))).Sealed ↔ Contained value := by
  refine ⟨fun h => ⟨h.quotes, h.last⟩, fun ⟨hquotes, hlast⟩ => ⟨hquotes, hlast, ?_⟩⟩
  intro hbare c hc
  have hblank : value.any CodePoint.isBlank = false := (Bool.or_eq_false_iff.mp hbare).2
  have hnot : c.isBlank = false := Bool.eq_false_iff.mpr fun h =>
    Bool.false_ne_true (hblank.symm.trans (List.any_eq_true.mpr ⟨c, hc, h⟩))
  refine Bool.eq_false_iff.mpr fun hseparator => ?_
  simp only [isSeparator, Bool.or_eq_true, decide_eq_true_eq] at hseparator
  rcases hseparator with rfl | rfl <;> cases hnot

theorem written_programPiece (n : Node) :
    (programPiece n).written = quotedPath (n.layout.file programName) := by
  unfold programPiece quotedPath Piece.written
  simp only [decide_eq_true_eq, List.nil_append]
  split
  next => simp [text]
  next => rfl

theorem eq_written {argument : Text × Option Value} {word : Text}
    (h : renderArgument argument = .ok word) : word = (argumentPiece argument).written := by
  obtain ⟨name, value⟩ := argument
  cases value with
  | none =>
    cases h
    exact (List.append_nil _).symm
  | some value =>
    obtain ⟨inQuotes, hquotes, h⟩ := bind_eq_ok.mp h
    dsimp only [argumentPiece, Piece.written]
    rw [hquotes]
    cases inQuotes with
    | true =>
      cases h
      simp [Except.toOption, text]
    | false =>
      cases h
      simp [Except.toOption]

theorem eq_map_written {items : List (Text × Option Value)} {words : List Text}
    (h : items.mapM renderArgument = .ok words) :
    words = (items.map argumentPiece).map Piece.written := by
  induction items generalizing words with
  | nil =>
    cases h
    rfl
  | cons item items ih =>
    rw [List.mapM_cons] at h
    obtain ⟨word, hword, h⟩ := bind_eq_ok.mp h
    obtain ⟨more, hmore, h⟩ := bind_eq_ok.mp h
    cases h
    rw [eq_written hword, ih hmore, List.map_cons, List.map_cons]

/-- The start command is its pieces on one line. -/
theorem line_of_command (h : command n flags = .ok line) :
    line = ArgumentLine.line (pieces n flags) := by
  rw [command_eq] at h
  obtain ⟨words, hwords, h⟩ := bind_eq_ok.mp h
  cases h
  rw [ArgumentLine.line, pieces, List.map_cons, written_programPiece, ← eq_map_written hwords]

/-- What is in a name is in every path that it ends. -/
theorem mem_file (n : Node) {name : Text} {c : CodePoint} (hc : c ∈ name) :
    c ∈ n.layout.file name := by
  unfold InstallLayout.file Path.join
  split
  next => exact hc
  next =>
    split
    next => exact List.mem_append_right _ hc
    next => exact List.mem_append_right _ hc

/-- The names of arguments hold nothing that means anything on a command line or in a flag. -/
theorem plain_names : ∀ name ∈ fixedNames ++ collectableNames, ∀ c ∈ name,
    (c ≠ .char '\\' ∧ c ≠ .char '"' ∧ isSeparator c = false) ∧ c ≠ .char '=' := by
  decide

theorem regular_programPiece (n : Node) : (programPiece n).Regular where
  front := List.forall_mem_nil _
  some _ := ⟨.char 'k', @mem_file n programName (.char 'k') (by decide), rfl⟩

theorem regular_argumentPiece {argument : Text × Option Value}
    (hname : argument.1 ∈ fixedNames ++ collectableNames) : (argumentPiece argument).Regular := by
  obtain ⟨name, value⟩ := argument
  have hplain : ∀ c ∈ text "--" ++ name,
      c ≠ .char '\\' ∧ c ≠ .char '"' ∧ isSeparator c = false :=
    List.forall_mem_append.mpr ⟨by decide, fun c hc => (plain_names name hname c hc).1⟩
  have hdash : ∀ more : Text, ∃ c ∈ text "--" ++ name ++ more, isSeparator c = false :=
    fun _ => ⟨.char '-', List.mem_cons_self, rfl⟩
  cases value with
  | none => exact ⟨hplain, fun _ => hdash []⟩
  | some value =>
    refine ⟨List.forall_mem_append.mpr ⟨hplain, by decide⟩, fun _ => ?_⟩
    rw [Piece.meant, argumentPiece, List.append_assoc]
    exact hdash _

/-- The argument that a piece is written for is the flag. -/
theorem flagOf?_meant {argument : Text × Option Value} (hname : .char '=' ∉ argument.1) :
    Command.flagOf? (argumentPiece argument).meant = some (shown argument) := by
  obtain ⟨name, value⟩ := argument
  cases value with
  | none =>
    have hmeant : (argumentPiece (name, none)).meant = text "--" ++ name := List.append_nil _
    rw [hmeant, Command.flagOf?, Command.afterStart?_append, Option.map_some,
      Command.splitOnce_of_not_mem hname]
    rfl
  | some value =>
    have hmeant : (argumentPiece (name, some value)).meant =
        text "--" ++ (name ++ .char '=' :: value.display) := by
      simp [Piece.meant, argumentPiece, text]
    rw [hmeant, Command.flagOf?, Command.afterStart?_append, Option.map_some,
      Command.splitOnce_append hname]
    rfl

theorem name_mem_of_mem_arguments (hnames : ∀ name ∈ flags.keys, name ∈ collectableNames)
    {argument : Text × Option Value} (h : argument ∈ arguments n flags) :
    argument.1 ∈ fixedNames ++ collectableNames := by
  rcases List.mem_append.mp h with hfixed | hflag
  · exact List.mem_append_left _ (List.mem_map_of_mem (f := Prod.fst) hfixed)
  · obtain ⟨e, he, rfl⟩ := List.mem_map.mp hflag
    exact List.mem_append_right _ (hnames _ (List.mem_map_of_mem he))

theorem regular_pieces (hnames : ∀ name ∈ flags.keys, name ∈ collectableNames) :
    ∀ p ∈ pieces n flags, p.Regular := by
  refine List.forall_mem_cons.mpr ⟨regular_programPiece n, fun p hp => ?_⟩
  obtain ⟨argument, hargument, rfl⟩ := List.mem_map.mp hp
  exact regular_argumentPiece (name_mem_of_mem_arguments hnames hargument)

/-- Where all values are sealed, the flags that are read are the arguments. -/
theorem flagsOn_line (hnames : ∀ name ∈ flags.keys, name ∈ collectableNames)
    (hsealed : ∀ p ∈ pieces n flags, p.Sealed) (doubling : Doubling) :
    flagsOn doubling (ArgumentLine.line (pieces n flags)) = (arguments n flags).map shown := by
  have hname : ∀ argument ∈ arguments n flags, .char '=' ∉ argument.1 := by
    intro argument hargument hequals
    exact (plain_names _ (name_mem_of_mem_arguments hnames hargument) _ hequals).2 rfl
  rw [flagsOn, split_line (regular_pieces hnames) hsealed, pieces, List.map_cons, List.drop_one,
    List.tail_cons, List.map_map, List.filterMap_map]
  exact List.filterMap_eq_map_iff_forall_eq_some.mpr fun argument hargument =>
    flagOf?_meant (hname argument hargument)

/-- What is not carried over is written like the node's own. -/
theorem sealed_pieces_iff (hcommands : Commands n nodeIp flags)
    (hown : ∀ p ∈ pieces n (determined n nodeIp), p.Sealed) :
    (∀ p ∈ pieces n flags, p.Sealed) ↔
      ∀ e ∈ flags, e.1 ∈ carriedOver → ∃ value, e.2 = .text value ∧ Contained value := by
  constructor
  · intro h e he _
    obtain ⟨value, hvalue⟩ := hcommands.texts e he
    have hmem : (e.1, some e.2) ∈ arguments n flags :=
      List.mem_append_right _ (List.mem_map_of_mem he)
    have hpiece := h _ (List.mem_cons_of_mem _ (List.mem_map_of_mem hmem))
    rw [hvalue] at hpiece
    exact ⟨value, hvalue, (sealed_text _ _).mp hpiece⟩
  · intro h p hp
    have hownArgument : ∀ a ∈ arguments n (determined n nodeIp), (argumentPiece a).Sealed :=
      fun a ha => hown _ (List.mem_cons_of_mem _ (List.mem_map_of_mem ha))
    rcases List.mem_cons.mp hp with rfl | hp
    · exact hown _ List.mem_cons_self
    · obtain ⟨a, ha, rfl⟩ := List.mem_map.mp hp
      rcases List.mem_append.mp ha with hfixed | hflag
      · exact hownArgument a (List.mem_append_left _ hfixed)
      · obtain ⟨e, he, rfl⟩ := List.mem_map.mp hflag
        rcases hcommands.own _ ha with hname | hown
        · obtain ⟨value, hvalue, hcontained⟩ := h e he hname
          rw [hvalue]
          exact (sealed_text _ _).mpr hcontained
        · exact hownArgument _ hown

theorem Reads.of_commands (hnames : ∀ name ∈ flags.keys, name ∈ collectableNames)
    (hcommands : Commands n nodeIp flags) (h : command n flags = .ok line) :
    Reads n nodeIp flags line := by
  obtain rfl := line_of_command h
  refine ⟨split_line_iff (regular_pieces hnames), sealed_pieces_iff hcommands,
    fun hsealed doubling => ?_, fun hsealed doubling f hf => ?_⟩
  · rw [flagsOn_line hnames hsealed, List.map_map]
    exact hcommands.distinct
  · rw [flagsOn_line hnames hsealed] at hf
    obtain ⟨argument, hargument, rfl⟩ := List.mem_map.mp hf
    exact (hcommands.own argument hargument).imp_right fun hown => List.mem_map_of_mem hown

end Kubelet

/-- A node that is made for an address collects, whatever is done with it and however it ends, no
flags but those of `Collected`. So the start command has no argument twice, and none of the Linux
kubelet but the two that are carried over. That is said of the arguments as they are put together;
of those that are read off the text it holds where every value is sealed, which is also the exact
condition for the arguments to be read that were put together. For a node whose own values are
sealed it is a condition on the two values that are carried over. -/
theorem Node.collected_after (n : Node) (test : Text → Except Failure Bool)
    (nodeIp : Option Text) (first : Flags)
    (hfirst : Node.firstFlagsBy test nodeIp = .ok first) (host : Host)
    (operations : List (Host × Operation)) :
    Collected n test nodeIp (n.after ⟨host, first, []⟩ operations).kubeletFlags ∧
      Kubelet.Commands n nodeIp (n.after ⟨host, first, []⟩ operations).kubeletFlags ∧
        ∀ line, Kubelet.command n (n.after ⟨host, first, []⟩ operations).kubeletFlags = .ok line →
          Kubelet.Reads n nodeIp (n.after ⟨host, first, []⟩ operations).kubeletFlags line := by
  have hstart : Gathers n first (NodeState.mk host first []).kubeletFlags := gathers_first n hfirst
  have hafter := hstart.after operations
  have hcommands := Kubelet.Commands.of_gathers hafter hfirst
  exact ⟨hafter.collected hfirst, hcommands, fun line hline =>
    .of_commands (hafter.collected hfirst).names hcommands hline⟩

/-- The flags of a node with an address of its own, once the flags of the network plugins are set
and the kubelet is installed from a payload without a unit. -/
def briefCollected : Flags :=
  (Kubelet.briefNode.after ⟨Host.empty, [(Node.nodeIpFlag, .text (text "10.0.0.1"))], []⟩
    [(Host.empty, .updateFlags []), (Kubelet.briefHost, .install)]).kubeletFlags

/-- The verbosity is the only flag that is carried over, and the start command is read as it is
meant. -/
theorem Node.collected_after_brief :
    Node.firstFlagsBy Node.testAddress (some (text "10.0.0.1")) =
        .ok [(Node.nodeIpFlag, .text (text "10.0.0.1"))] ∧
      Collected Kubelet.briefNode Node.testAddress (some (text "10.0.0.1")) briefCollected ∧
      Kubelet.Commands Kubelet.briefNode (some (text "10.0.0.1")) briefCollected ∧
      briefCollected.keys = Node.nodeIpFlag :: (Cni.flagNames ++ [verbosityFlag]) ∧
      ∃ line, Kubelet.command Kubelet.briefNode briefCollected = .ok line ∧ ∀ doubling,
        split doubling line = (Kubelet.pieces Kubelet.briefNode briefCollected).map Piece.meant ∧
          ((Kubelet.flagsOn doubling line).map Prod.fst).Nodup := by
  have hfirst : Node.firstFlagsBy Node.testAddress (some (text "10.0.0.1")) =
      .ok [(Node.nodeIpFlag, .text (text "10.0.0.1"))] := rfl
  obtain ⟨hcollected, hcommands, hreads⟩ := Node.collected_after Kubelet.briefNode _ _ _ hfirst
    Host.empty [(Host.empty, .updateFlags []), (Kubelet.briefHost, .install)]
  obtain ⟨hkeys, hsealed, hrendered⟩ :
      briefCollected.keys = Node.nodeIpFlag :: (Cni.flagNames ++ [verbosityFlag]) ∧
        (∀ p ∈ Kubelet.pieces Kubelet.briefNode briefCollected, p.Sealed) ∧
          (Kubelet.command Kubelet.briefNode briefCollected).isOk = true := by
    decide +kernel
  refine ⟨hfirst, hcollected, hcommands, hkeys, ?_⟩
  cases hcommand : Kubelet.command Kubelet.briefNode briefCollected with
  | error fault =>
    rw [hcommand] at hrendered
    exact nomatch hrendered
  | ok line =>
    have hread := hreads line hcommand
    exact ⟨line, rfl, fun doubling =>
      ⟨hread.exact.mpr hsealed doubling, hread.distinct hsealed doubling⟩⟩

/-- A payload with a unit that has a start command, which is written as in JSON. -/
def payloadOf (command : String) : Bytes :=
  Utf8.ofLiteral "\x7b\"systemd\":\x7b\"units\":[\x7b\"name\":\"kubelet.service\"," ++
    (Utf8.ofLiteral "\"contents\":\"ExecStart=" ++ (Utf8.ofLiteral command ++
      Utf8.ofLiteral "\"\x7d]\x7d\x7d"))

/-- A verbosity that leaves its quotes. -/
def leavingPayload : Bytes := payloadOf "k --v='3\\\" --anonymous-auth=\\\"true'"

/-- A cloud provider that leaves its quotes. -/
def repeatingPayload : Bytes := payloadOf "k --cloud-provider='a\\\" --v=\\\"9'"

/-- The flags of a node behind a walk through a payload. -/
def flagsAfterWalk (contents : Bytes) : Flags :=
  (Kubelet.briefNode.after ⟨Host.empty, [], []⟩
    [(Host.empty, .walk contents defaultRules)]).kubeletFlags

/-- The names that are read off the start command for some flags. -/
def namesFor (flags : Flags) (doubling : Doubling) : Option (List Text) :=
  (Kubelet.command Kubelet.briefNode flags).toOption.map fun line =>
    (Kubelet.flagsOn doubling line).map Prod.fst

/-- The condition that values are sealed matters. A value that is carried over can close the quotes
that it is written in, and what follows is read as flags of its own: one that is there already, or
one of the unit that is not carried over. Whatever a program makes of quotes side by side, it reads
them so. -/
theorem Node.not_collected_after :
    (¬ ∃ doubling, ∀ (n : Node) (test : Text → Except Failure Bool) (nodeIp : Option Text)
      (first : Flags) (host : Host) (operations : List (Host × Operation)) (line : Text),
      Node.firstFlagsBy test nodeIp = .ok first →
      Kubelet.command n (n.after ⟨host, first, []⟩ operations).kubeletFlags = .ok line →
        ((Kubelet.flagsOn doubling line).map Prod.fst).Nodup) ∧
    ¬ ∃ doubling, ∀ (n : Node) (test : Text → Except Failure Bool) (nodeIp : Option Text)
      (first : Flags) (host : Host) (operations : List (Host × Operation)) (line : Text),
      Node.firstFlagsBy test nodeIp = .ok first →
      Kubelet.command n (n.after ⟨host, first, []⟩ operations).kubeletFlags = .ok line →
        ∀ f ∈ Kubelet.flagsOn doubling line, f.1 ∈ Kubelet.fixedNames ++ collectableNames := by
  have hfirst : Node.firstFlagsBy Node.testAddress none = .ok [] := rfl
  constructor
  · rintro ⟨doubling, h⟩
    have hrepeated : ∀ doubling, (namesFor (flagsAfterWalk repeatingPayload) doubling).any
        (fun names => ¬ names.Nodup) = true := by
      decide +kernel
    obtain ⟨names, hnames, hnot⟩ := (Option.any_eq_true _ _).mp (hrepeated doubling)
    obtain ⟨line, hline, rfl⟩ := Option.map_eq_some_iff.mp hnames
    exact of_decide_eq_true hnot (h _ _ _ _ _ _ line hfirst (eq_ok_of_toOption hline))
  · rintro ⟨doubling, h⟩
    have hleft : ∀ doubling, (namesFor (flagsAfterWalk leavingPayload) doubling).any
        (fun names => ¬ ∀ name ∈ names, name ∈ Kubelet.fixedNames ++ collectableNames) =
          true := by
      decide +kernel
    obtain ⟨names, hnames, hnot⟩ := (Option.any_eq_true _ _).mp (hleft doubling)
    obtain ⟨line, hline, rfl⟩ := Option.map_eq_some_iff.mp hnames
    exact of_decide_eq_true hnot
      (List.forall_mem_map.mpr (h _ _ _ _ _ _ line hfirst (eq_ok_of_toOption hline)))

end NodeBootstrap
