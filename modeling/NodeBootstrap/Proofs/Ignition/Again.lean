import NodeBootstrap.Proofs.FileTree.Beside
import NodeBootstrap.Proofs.Ignition.Materialized

/-!
# A walk that is made again

A walk reads what it wrote before: the verbosity, which it sets only if there is none, and the flag
that a cloud config is looked for by. It may also stop at any file. Made again through the same
payload it does the same and stops at the same file, and the files and flags stay as they are
(`walk_again`).

The two walks are followed side by side. Each step comes to the same in both (`Pairs`), for it looks
at nothing but what both have in common: the directories, which no walk changes, and the flags of
the unit. Whether a file can be written is a matter of directories; the refusal also depends on
where files are, but there the first walk ends, in the state that the second began in. What the two
add to the flags is the same (`told`), and adding it twice is adding it once (`told_told`).
-/

set_option autoImplicit false

namespace NodeBootstrap

open OrderedMap FileTree

/-- The flags of a node: those of the kubelet and those of the unit. -/
abbrev NodeFlags := Flags × OrderedMap Text Text

def NodeState.flags (s : NodeState) : NodeFlags := (s.kubeletFlags, s.unitFlags)

/-! ## Hosts side by side -/

/-- Two hosts whose files are side by side, and that log alike. -/
structure Host.Beside (first again s t : Host) : Prop where
  threshold : s.journal.threshold = first.journal.threshold
  thresholdOther : t.journal.threshold = first.journal.threshold
  file : s.journal.file = first.journal.file
  fileOther : t.journal.file = first.journal.file
  files : first.files.Beside first.LogsAt again.files s.files t.files

/-- A line that both log is a line behind each of the log files. -/
theorem FileTree.Beside.appendLine {hidden : List Text → Prop} {first again s t : FileTree}
    {file : Text} (h : first.Beside hidden again s t) (hhidden : hidden (Path.reached file))
    (line : LogLine) :
    first.Beside hidden again (Host.appendLine s file line) (Host.appendLine t file line) := by
  unfold Host.appendLine
  split
  next => exact h
  next => exact (pairs_change (.inl hhidden) s t h).states

theorem Host.Beside.logged {first again s t : Host} (h : first.Beside again s t)
    (level : LogLevel) (message : Text) :
    first.Beside again (s.logged level message) (t.logged level message) := by
  unfold Host.logged
  rw [h.threshold, h.thresholdOther]
  split
  next => exact h
  next =>
    refine ⟨h.threshold, h.thresholdOther, h.file, h.fileOther, ?_⟩
    dsimp only
    rw [h.file, h.fileOther]
    cases hfile : first.journal.file with
    | none => exact h.files
    | some file => exact h.files.appendLine ⟨file, hfile, rfl⟩ _

namespace Ignition

/-! ## The flags that a walk adds -/

/-- The entry that sets the verbosity behind the flags that are carried over, unless one is set that
is not empty. -/
def verbosityEntry (n : Node) (declared : OrderedMap Text Text) (flags : Flags) : Flags :=
  if (((flags.merge (carriedFlags declared)).get? verbosityFlag).getD .null).isEmptyOrZero then
    [(verbosityFlag, .text n.defaultVerbosity)]
  else []

/-- The entry that a transformation sets. -/
def cloudConfigEntry (n : Node) (transform : Option Transform) : Flags :=
  if transform = some .cloudConfig then
    [(CloudConfig.flagName, .text (n.layout.file CloudConfig.fileName))]
  else []

/-- The flags of the kubelet behind a walk: with those of the unit that are carried over, with a
verbosity, and with the one for a cloud config. -/
def told (n : Node) (declared : OrderedMap Text Text) (transform : Option Transform)
    (flags : Flags) : Flags :=
  withCloudConfig n transform (withVerbosity n (flags.merge (carriedFlags declared)))

variable {n : Node} {declared : OrderedMap Text Text} {transform : Option Transform} {flags : Flags}

theorem withVerbosity_merge (flags : Flags) :
    withVerbosity n (flags.merge (carriedFlags declared)) =
      (flags.merge (carriedFlags declared)).merge (verbosityEntry n declared flags) := by
  unfold withVerbosity verbosityEntry
  split
  next => rfl
  next => rfl

theorem withCloudConfig_eq (flags : Flags) :
    withCloudConfig n transform flags = flags.merge (cloudConfigEntry n transform) := by
  unfold withCloudConfig cloudConfigEntry
  split
  next => rfl
  next => rfl

/-- All that a walk sets is set in one go. -/
theorem told_eq (flags : Flags) :
    told n declared transform flags = flags.merge (carriedFlags declared ++
      (verbosityEntry n declared flags ++ cloudConfigEntry n transform)) := by
  rw [told, withCloudConfig_eq, withVerbosity_merge, merge_append, merge_append]

theorem lastOf_cloudConfigEntry : lastOf (cloudConfigEntry n transform) verbosityFlag = none := by
  refine lastOf_eq_none.mpr fun e he => ?_
  unfold cloudConfigEntry at he
  split at he
  next =>
    obtain rfl := List.mem_singleton.mp he
    show CloudConfig.flagName ≠ verbosityFlag
    decide
  next => cases he

/-- A walk that is made again sets the verbosity as it did, unless it need not set it any more. -/
theorem verbosityEntry_told (flags : Flags) :
    verbosityEntry n declared (told n declared transform flags) = verbosityEntry n declared flags ∨
      lastOf (carriedFlags declared) verbosityFlag = none ∧
        verbosityEntry n declared flags = [(verbosityFlag, .text n.defaultVerbosity)] ∧
          verbosityEntry n declared (told n declared transform flags) = [] := by
  have hfound : ∀ flags : Flags, (flags.merge (carriedFlags declared)).get? verbosityFlag =
      (lastOf (carriedFlags declared) verbosityFlag).or (flags.get? verbosityFlag) :=
    fun flags => get?_merge flags _ _
  have hset : (told n declared transform flags).get? verbosityFlag =
      (lastOf (verbosityEntry n declared flags) verbosityFlag).or
        ((flags.merge (carriedFlags declared)).get? verbosityFlag) := by
    rw [told_eq, get?_merge, lastOf_append, lastOf_append, lastOf_cloudConfigEntry, Option.none_or,
      Option.or_assoc, hfound]
  cases hdeclared : lastOf (carriedFlags declared) verbosityFlag with
  | some value =>
    left
    rw [verbosityEntry, verbosityEntry, hfound, hfound, hdeclared, Option.some_or, Option.some_or]
  | none =>
    have hkept : ∀ flags : Flags, (flags.merge (carriedFlags declared)).get? verbosityFlag =
        flags.get? verbosityFlag := fun flags => by rw [hfound, hdeclared, Option.none_or]
    by_cases hempty : ((flags.get? verbosityFlag).getD .null).isEmptyOrZero = true
    · have hentry : verbosityEntry n declared flags =
          [(verbosityFlag, .text n.defaultVerbosity)] := by
        rw [verbosityEntry, hkept, if_pos hempty]
      rw [hentry]
      unfold verbosityEntry
      split
      next => exact .inl rfl
      next => exact .inr ⟨rfl, rfl, rfl⟩
    · left
      have hentry : verbosityEntry n declared flags = [] := by
        rw [verbosityEntry, hkept, if_neg hempty]
      rw [hentry, lastOf_nil, Option.none_or, hkept] at hset
      rw [hentry, verbosityEntry, hkept, hset, if_neg hempty]

/-- What a walk adds to the flags it adds once. -/
theorem told_told (flags : Flags) :
    told n declared transform (told n declared transform flags) =
      told n declared transform flags := by
  rw [told_eq (told n declared transform flags)]
  rcases verbosityEntry_told flags with hsame | ⟨hnone, hset, hunset⟩
  · rw [hsame, told_eq, merge_merge_self]
  · -- the entry for the verbosity is left out now; the others set what is there
    refine merge_eq_self fun name hname => ?_
    rw [hunset, List.nil_append] at hname ⊢
    obtain ⟨value, hvalue⟩ := Option.ne_none_iff_exists'.mp (lastOf_ne_none.mpr hname)
    have hother : ∀ e ∈ [(verbosityFlag, Value.text n.defaultVerbosity)], e.1 ≠ name := by
      intro e he heq
      rw [List.mem_singleton.mp he] at heq
      subst heq
      rw [lastOf_append, lastOf_cloudConfigEntry, Option.none_or, hnone] at hvalue
      cases hvalue
    rw [hvalue, told_eq, get?_merge, hset, lastOf_append, lastOf_append, lastOf_eq_none.mpr hother,
      Option.or_none, ← lastOf_append, hvalue, Option.some_or]

/-- The flag for a cloud config is set once, however often it is set. -/
theorem set_withCloudConfig (flags : Flags) :
    OrderedMap.set (withCloudConfig n transform flags) CloudConfig.flagName
        (.text (n.layout.file CloudConfig.fileName)) =
      withCloudConfig n (some .cloudConfig) flags := by
  have hset : withCloudConfig n (some .cloudConfig) flags =
      flags.set CloudConfig.flagName (.text (n.layout.file CloudConfig.fileName)) := if_pos rfl
  rw [hset, withCloudConfig]
  split
  next => exact set_set flags _ _ _
  next => rfl

/-! ## Walks side by side -/

/-- The files of both are of the same kinds. -/
def FilesAlike (s t : NodeState) : Prop := s.host.files.SameKinds t.host.files

/-- The flags with those that a unit declares. -/
def taking (declared : OrderedMap Text Text) (f : NodeFlags) : NodeFlags :=
  (f.1.merge (carriedFlags declared), f.2.merge declared)

/-- The flags with a verbosity. -/
def verbose (n : Node) (f : NodeFlags) : NodeFlags := (withVerbosity n f.1, f.2)

/-- Two nodes on hosts side by side, with flags that are related. -/
structure Alongside (first again : Host) (P : NodeFlags → NodeFlags → Prop) (s t : NodeState) :
    Prop where
  host : first.Beside again s.host t.host
  flags : P s.flags t.flags

/-- Flags that are known. -/
def Are (f f' one other : NodeFlags) : Prop := one = f ∧ other = f'

/-- Flags while the files are gone through: those of the unit are the same in both, and the flag for
a cloud config is set in both or in none. -/
def Within (n : Node) (f f' one other : NodeFlags) : Prop :=
  f.2 = f'.2 ∧ ∃ transform, one = (withCloudConfig n transform f.1, f.2) ∧
    other = (withCloudConfig n transform f'.1, f'.2)

section Steps

variable {first again : Host} {P : NodeFlags → NodeFlags → Prop} {f f' : NodeFlags}
  {R E : NodeState → NodeState → Prop} {rules : Rules} {contents : Bytes} {α : Type}

theorem pairs_ofExcept (result : Except Failure α) (hE : ∀ s t, R s t → E s t) :
    Pairs FilesAlike R (NodeStep.ofExcept result) (fun a s t => result = .ok a ∧ R s t) E := by
  cases result with
  | ok a => exact pairs_pure a fun _ _ h => ⟨rfl, h⟩
  | error failure => exact pairs_throw failure hE

theorem pairs_nodeLog (level : LogLevel) (message : Text) :
    Pairs FilesAlike (Alongside first again P) (NodeStep.log level message)
      (fun _ => Alongside first again P) E :=
  fun _ _ h => .ended ⟨h.host.logged level message, h.flags⟩

/-- A file is written on both hosts or on none. -/
theorem pairs_writeContents (path : Text) (contents : Bytes) :
    KeepsPace FilesAlike (Alongside first again P) (writeContents path contents) := by
  intro s t h
  have hwrite : Alike SameKinds
      (fun _ => first.files.Beside first.LogsAt again.files)
      (first.files.Beside first.LogsAt again.files)
      ((FileTree.write path contents).run.run s.host.files)
      ((FileTree.write path contents).run.run t.host.files) :=
    pairs_change (.inr fun _ _ => rfl) _ _ h.host.files
  show Alike FilesAlike _ _ ((NodeStep.ofHost (Host.onFiles _ _)).run.run s)
    ((NodeStep.ofHost (Host.onFiles _ _)).run.run t)
  rw [run_ofHost, run_onFiles, run_ofHost, run_onFiles]
  generalize (FileTree.write path contents).run.run s.host.files = one at hwrite ⊢
  generalize (FileTree.write path contents).run.run t.host.files = other at hwrite ⊢
  have hfiles : ∀ {files files' : FileTree},
      first.files.Beside first.LogsAt again.files files files' →
      Alongside first again P { s with host := { s.host with files } }
        { t with host := { t.host with files := files' } } := fun hfiles =>
    ⟨⟨h.host.threshold, h.host.thresholdOther, h.host.file, h.host.fileOther, hfiles⟩, h.flags⟩
  cases hwrite with
  | ended hbeside => exact .ended (hfiles hbeside)
  | failed hbeside hsame =>
    refine .failed (hfiles hbeside) fun hkinds => ?_
    rw [hsame hkinds]

/-! ## Going through the files -/

theorem pairs_applyTransform (transform : Transform) :
    KeepsPace FilesAlike (Alongside first again (Within n f f'))
      (applyTransform n transform contents) := by
  cases transform with
  | kubeletConfig =>
    exact (pairs_ofExcept _ fun _ _ h => h).ending fun _ _ _ h => h.2
  | cloudConfig =>
    refine pairs_bind (pairs_ofExcept _ fun _ _ h => h) fun entries => Pairs.knowing fun _ => ?_
    refine pairs_bind (Q := fun _ => Alongside first again (Within n f f'))
      (pairs_modify _ ?_) fun _ => ?_
    · rintro s t ⟨hhost, hunits, transform, hs, ht⟩
      obtain ⟨hflags, hunit⟩ := Prod.mk.inj hs
      obtain ⟨hflags', hunit'⟩ := Prod.mk.inj ht
      refine ⟨hhost, hunits, some .cloudConfig, Prod.ext ?_ hunit, Prod.ext ?_ hunit'⟩
      · show OrderedMap.set s.kubeletFlags _ _ = _
        rw [hflags, set_withCloudConfig]
      · show OrderedMap.set t.kubeletFlags _ _ = _
        rw [hflags', set_withCloudConfig]
    refine pairs_bind (pairs_nodeLog _ _) fun _ => ?_
    exact (pairs_ofExcept _ fun _ _ h => h).ending fun _ _ _ h => h.2

theorem pairs_materialize (source : Json) (transform : Option Transform) :
    KeepsPace FilesAlike (Alongside first again (Within n f f'))
      (materialize n source transform) := by
  refine pairs_bind (pairs_ofExcept _ fun _ _ h => h) fun contents => Pairs.knowing fun _ => ?_
  cases transform with
  | none => exact pairs_pure _ fun _ _ h => h
  | some transform => exact pairs_rename (pairs_applyTransform transform)

theorem pairs_materializeEntry (path : Text) (rule : Rule) (members : OrderedMap Text Json) :
    KeepsPace FilesAlike (Alongside first again (Within n f f'))
      (materializeEntry n path rule members) := by
  refine pairs_get ?_ fun s => ?_
  · rintro s t ⟨-, hunits, transform, hs, ht⟩
    have hunit : s.unitFlags = t.unitFlags :=
      (congrArg Prod.snd hs).trans (hunits.trans (congrArg Prod.snd ht).symm)
    rw [hunit]
  · split
    next => exact pairs_nodeLog _ _
    next =>
      refine pairs_bind (pairs_ofExcept _ fun _ _ h => h) fun source => Pairs.knowing fun _ => ?_
      refine pairs_bind (pairs_materialize source _) fun contents => ?_
      exact pairs_bind (pairs_writeContents _ _) fun _ => pairs_nodeLog _ _

theorem pairs_walkEntry (entry : Json) :
    KeepsPace FilesAlike (Alongside first again (Within n f f')) (walkEntry n rules entry) := by
  cases entry with
  | object members =>
    refine pairs_bind (pairs_ofExcept _ fun _ _ h => h) fun found => Pairs.knowing fun _ => ?_
    cases found with
    | none => exact pairs_pure _ fun _ _ h => h
    | some found => exact pairs_materializeEntry found.1 found.2 members
  | _ => exact pairs_throw _ fun _ _ h => h

theorem pairs_walkEntries (document : Json) :
    KeepsPace FilesAlike (Alongside first again (Within n f f'))
      (do
        let entries ← NodeStep.ofExcept (files document)
        forIn entries PUnit.unit fun entry _ => do
          walkEntry n rules entry
          pure (ForInStep.yield PUnit.unit)
        pure () : NodeStep Unit) := by
  refine pairs_bind (pairs_ofExcept _ fun _ _ h => h) fun entries => Pairs.knowing fun _ => ?_
  refine pairs_bind (pairs_forIn fun entry => ?_) fun _ => pairs_pure _ fun _ _ h => h
  exact pairs_bind (pairs_walkEntry entry) fun _ => pairs_pure _ fun _ _ h => h

/-! ## Taking the flags -/

/-- The flags of the unit are taken on both. -/
theorem pairs_readUnit (unit : Json) :
    Pairs FilesAlike (Alongside first again (Are f f')) (readUnit n unit rules)
      (fun found s t => ∃ list, flagsOfUnit unit = .ok list ∧
        found = extendRules rules (ofList list) ∧
        Alongside first again (Are (taking (ofList list) f) (taking (ofList list) f')) s t)
      (Alongside first again (Are f f')) := by
  refine pairs_bind (pairs_ofExcept _ fun _ _ h => h) fun contents => ?_
  refine Pairs.knowing fun hcontents => ?_
  unfold flagsOfUnit
  rw [hcontents, ok_bind]
  cases hcommand : UnitFile.execStart? contents with
  | none =>
    refine pairs_bind (pairs_nodeLog _ _) fun _ => ?_
    exact pairs_pure _ fun s t h => ⟨[], rfl, rfl, h⟩
  | some command =>
    refine pairs_bind (pairs_ofExcept _ fun _ _ h => h) fun found => Pairs.knowing fun hfound => ?_
    obtain ⟨list, hlist, rfl⟩ := declaredFlags_eq_ok hfound
    refine pairs_bind (Q := fun _ => Alongside first again
      (Are (taking (ofList list) f) (taking (ofList list) f'))) (pairs_modify _ ?_) fun _ => ?_
    · rintro s t ⟨hhost, rfl, rfl⟩
      exact ⟨hhost, rfl, rfl⟩
    · dsimp only
      split
      next =>
        exact pairs_bind (pairs_nodeLog _ _) fun _ =>
          pairs_pure _ fun s t h => ⟨list, hlist, rfl, h⟩
      next => exact pairs_pure _ fun s t h => ⟨list, hlist, rfl, h⟩

theorem run_ensureVerbosity (n : Node) (s : NodeState) :
    (ensureVerbosity n).run.run s =
      (.ok (), { s with kubeletFlags := withVerbosity n s.kubeletFlags }) := by
  unfold ensureVerbosity withVerbosity
  rw [run_get_bind]
  dsimp only
  split
  next => rfl
  next => rfl

theorem pairs_ensureVerbosity :
    Pairs FilesAlike (Alongside first again (Are f f')) (ensureVerbosity n)
      (fun _ => Alongside first again (Are (verbose n f) (verbose n f'))) E := by
  rintro s t ⟨hhost, rfl, rfl⟩
  rw [run_ensureVerbosity, run_ensureVerbosity]
  exact .ended ⟨hhost, rfl, rfl⟩

/-! ## The whole walk -/

/-- The unit in a payload declares some flags. -/
def Declares (contents : Bytes) (list : List (Text × Text)) : Prop :=
  ∃ document, load contents = .ok document ∧ declaredIn document = .ok list

/-- Flags behind a walk: as they were if it stopped before it took any, or with all that it adds. -/
def Gathered (n : Node) (contents : Bytes) (f f' one other : NodeFlags) : Prop :=
  one = f ∧ other = f' ∨
    ∃ list transform, Declares contents list ∧
      one = (told n (ofList list) transform f.1, f.2.merge (ofList list)) ∧
        other = (told n (ofList list) transform f'.1, f'.2.merge (ofList list))

/-- Behind the unit both do the same with the flags that they have taken. -/
theorem pairs_walkFiles {list : List (Text × Text)} (hlist : Declares contents list)
    (hunits : f.2.merge (ofList list) = f'.2.merge (ofList list)) (document : Json) :
    Pairs FilesAlike
      (Alongside first again (Are (taking (ofList list) f) (taking (ofList list) f')))
      (walkFiles n document rules)
      (fun _ => Alongside first again (Gathered n contents f f'))
      (Alongside first again (Gathered n contents f f')) := by
  have hentries := @pairs_walkEntries n first again (verbose n (taking (ofList list) f))
    (verbose n (taking (ofList list) f')) rules document
  have hwithin : ∀ s t, Alongside first again
      (Within n (verbose n (taking (ofList list) f)) (verbose n (taking (ofList list) f'))) s t →
      Alongside first again (Gathered n contents f f') s t := by
    rintro s t ⟨hhost, -, transform, hs, ht⟩
    exact ⟨hhost, .inr ⟨list, transform, hlist, hs, ht⟩⟩
  refine pairs_bind pairs_ensureVerbosity fun _ => ?_
  exact hentries.mono (fun s t h => ⟨h.host, hunits, none, h.flags⟩) (fun _ => hwithin) hwithin

/-- A walk does the same on both. -/
theorem pairs_walk (n : Node) (contents : Bytes) (rules : Rules)
    (hunits : ∀ list, Declares contents list →
      f.2.merge (ofList list) = f'.2.merge (ofList list)) :
    Pairs FilesAlike (Alongside first again (Are f f')) (walk n contents rules)
      (fun _ => Alongside first again (Gathered n contents f f'))
      (Alongside first again (Gathered n contents f f')) := by
  have hbegun : ∀ s t, Alongside first again (Are f f') s t →
      Alongside first again (Gathered n contents f f') s t :=
    fun s t h => ⟨h.host, .inl h.flags⟩
  rw [walk_eq]
  refine pairs_bind (pairs_ofExcept _ hbegun) fun document => Pairs.knowing fun hdocument => ?_
  refine pairs_bind (pairs_ofExcept _ hbegun) fun unit => Pairs.knowing fun hunit => ?_
  cases unit with
  | none =>
    have hlist : Declares contents [] := ⟨document, hdocument, declaredIn_of_none hunit⟩
    exact pairs_bind (pairs_nodeLog _ _) fun _ =>
      pairs_walkFiles hlist (hunits [] hlist) document
  | some unit =>
    refine pairs_bind ((pairs_readUnit unit).failing hbegun) fun found => ?_
    rintro s t ⟨list, hflags, -, h⟩
    have hlist : Declares contents list :=
      ⟨document, hdocument, (declaredIn_of_some hunit).trans hflags⟩
    exact pairs_walkFiles hlist (hunits list hlist) document s t h

end Steps

/-- What a payload declares is a matter of the payload. -/
theorem Declares.unique {contents : Bytes} {list list' : List (Text × Text)}
    (h : Declares contents list) (h' : Declares contents list') : list = list' := by
  obtain ⟨document, hdocument, hlist⟩ := h
  obtain ⟨document', hdocument', hlist'⟩ := h'
  cases hdocument.symm.trans hdocument'
  exact Except.ok.inj (hlist.symm.trans hlist')

/-- Where one walk ends with the flags that the other began with, the other leaves them. -/
theorem Gathered.eq {contents : Bytes} {f f' other : NodeFlags}
    (h : Gathered n contents f f' f' other) : other = f' := by
  rcases h with ⟨-, h⟩ | ⟨list, transform, -, h, h'⟩
  · exact h
  · rw [h', h, told_told, merge_merge_self]

/-- A walk through a payload, however it ended, made again from where it ended: the result is the
same, and so are the flags and the files, but for the file that the host logs to. The install
directory is taken to be relative to the working directory, for an absolute path names nothing. -/
theorem walk_again {n : Node} {contents : Bytes} {rules : Rules} {s s' : NodeState}
    {result : Except Failure Unit} (hquiet : s.host.files.troubles = [])
    (hrun : (walk n contents rules).run.run s = (result, s')) :
    ∃ s'', (walk n contents rules).run.run s' = (result, s'') ∧
      s''.kubeletFlags = s'.kubeletFlags ∧ s''.unitFlags = s'.unitFlags ∧
        ∀ place, ¬ s.host.LogsAt place →
          s''.host.files.at? place = s'.host.files.at? place := by
  -- the first walk beside itself shows what a walk keeps
  have hself : Alongside s.host s.host (Gathered n contents s.flags s.flags) s' s' := by
    have halike := pairs_walk n contents rules (fun _ _ => rfl) s s
      ⟨⟨rfl, rfl, rfl, rfl, Beside.refl _ hquiet hquiet fun _ => Iff.rfl⟩, rfl, rfl⟩
    rw [hrun] at halike
    exact halike.states
  have hunits : ∀ list, Declares contents list →
      s.flags.2.merge (ofList list) = s'.flags.2.merge (ofList list) := by
    intro list hlist
    rcases hself.flags with ⟨hflags, -⟩ | ⟨list', transform, hlist', hflags, -⟩
    · rw [hflags]
    · rw [hflags, hlist.unique hlist', merge_merge_self]
  have hbegun : s.host.Beside s'.host s.host s'.host :=
    ⟨rfl, hself.host.threshold, rfl, hself.host.file,
      Beside.refl _ hquiet hself.host.files.quiet hself.host.files.kept⟩
  -- and the second beside the first ends where that began
  have halike := pairs_walk n contents rules hunits s s' ⟨hbegun, rfl, rfl⟩
  rw [hrun] at halike
  have hend := halike.states
  have hresult := halike.result fun h => h.host.files.sameKinds
  refine ⟨((walk n contents rules).run.run s').2, Prod.ext hresult.symm rfl, ?_, ?_, ?_⟩
  · exact congrArg Prod.fst hend.flags.eq
  · exact congrArg Prod.snd hend.flags.eq
  · exact fun place hplace => hend.host.files.at?_eq hplace

/-- A payload with a file, and behind it an entry that is no object. -/
def brokenPayload : String :=
  "\x7b\"storage\":\x7b\"files\":[\x7b\"path\":\"/etc/kubernetes/kubeconfig\"," ++
  "\"contents\":\x7b\"source\":\"data:,x\"\x7d\x7d,1]\x7d\x7d"

/-- A walk that writes the file and fails at the entry behind it, and the same walk again. -/
theorem walk_again_brief :
    briefState.host.files.troubles = [] ∧
      ∃ failure s' s'',
        (walk briefNode (Utf8.ofLiteral brokenPayload) defaultRules).run.run briefState =
            (.error failure, s') ∧
          s'.host.files.read (text "k/bootstrap-kubeconfig") = .ok [0x78] ∧
          (walk briefNode (Utf8.ofLiteral brokenPayload) defaultRules).run.run s' =
              (.error failure, s'') ∧
            s''.kubeletFlags = s'.kubeletFlags ∧ s''.unitFlags = s'.unitFlags ∧
              ∀ place, s''.host.files.at? place = s'.host.files.at? place := by
  have hbytes : Utf8.ofLiteral brokenPayload = _ :=
    Utf8.ofLiteral_append (Utf8.ofLiteral_ofList _) (Utf8.ofLiteral_ofList _)
  have hquiet : briefState.host.files.troubles = [] := rfl
  have hran :
      ((walk briefNode (Utf8.ofLiteral brokenPayload) defaultRules).run.run briefState).1.isOk =
          false ∧
        (((walk briefNode (Utf8.ofLiteral brokenPayload) defaultRules).run.run
          briefState).2.host.files.read (text "k/bootstrap-kubeconfig")).toOption = some [0x78] := by
    rw [hbytes]
    decide +kernel
  refine ⟨hquiet, ?_⟩
  cases hrun : (walk briefNode (Utf8.ofLiteral brokenPayload) defaultRules).run.run briefState with
  | mk result s' =>
    rw [hrun] at hran
    obtain ⟨hfails, hread⟩ := hran
    cases result with
    | ok _ => cases hfails
    | error failure =>
      obtain ⟨s'', hagain, hkubelet, hunit, hfiles⟩ := walk_again hquiet hrun
      have hnolog : ∀ place, ¬ briefState.host.LogsAt place :=
        fun place ⟨_, hfile, _⟩ => nomatch hfile
      exact ⟨failure, s', s'', rfl, eq_ok_of_toOption hread, hagain, hkubelet, hunit,
        fun place => hfiles place (hnolog place)⟩

end Ignition

end NodeBootstrap
