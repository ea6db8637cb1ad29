import NodeBootstrap.Program
import NodeBootstrap.Proofs.Health
import NodeBootstrap.Proofs.Node.CniDialogue

/-!
# The exit status of a run

A run that configures the network plugins ends with the status 0 exactly if all it said to the
service control program went through and, where it is to wait for the kubelet, that became healthy
within the requests that are made (`configureCni_run`).
-/

set_option autoImplicit false

namespace NodeBootstrap

/-! ## Waiting for the kubelet -/

namespace Health

/-- Whether one of the first answers is that of a healthy kubelet. If the clock refuses the pauses,
no answer but the first is waited for. -/
def Answered (clock : Clock) (trySleep : Value) (tries : Nat) (responses : List Response) : Prop :=
  ∃ j < tries, responses[j]? = some (.status healthyStatus) ∧
    (0 < j → clock.refusal? trySleep = none)

variable {endpoint trials trySleep timeout : Value} {tries : Nat} {responses : List Response}
  {clock : Clock} {failure : Failure} {first h : Host} {d : Dialogue}

theorem not_answered_zero : ¬ Answered clock trySleep 0 responses := fun ⟨_, hj, _⟩ =>
  absurd hj (Nat.not_lt_zero _)

theorem answerAt_eq_status {i : Nat} {code : Int} :
    answerAt responses i = .status code ↔ responses[i]? = some (.status code) := by
  rw [answerAt]
  cases responses[i]? with
  | none => simp
  | some response => exact Option.some_inj.symm

theorem answerAt_ne_broken (hbroken : .broken ∉ responses) (i : Nat) :
    answerAt responses i ≠ .broken := by
  rw [answerAt]
  cases hresponse : responses[i]? with
  | none => simp
  | some response =>
    rintro rfl
    exact hbroken (List.mem_of_getElem? hresponse)

theorem answered_of_taken (hclock : clock.refusal? trySleep = none)
    (hbroken : .broken ∉ responses) :
    Answered clock trySleep tries responses ↔ ∃ i < tries,
      answerAt responses i = .status healthyStatus ∧ ∀ j < i, answerAt responses j ≠ .broken := by
  simp only [Answered, answerAt_eq_status, ne_eq, answerAt_ne_broken hbroken, not_false_eq_true,
    implies_true, and_true, hclock]

/-- Whether the first answer, if there is a request, is that of a healthy kubelet. -/
def AnsweredAtOnce (tries : Nat) (responses : List Response) : Prop :=
  0 < tries ∧ answerAt responses 0 = .status healthyStatus

theorem answered_of_refused (hclock : clock.refusal? trySleep = some failure) :
    Answered clock trySleep tries responses ↔ AnsweredAtOnce tries responses := by
  rw [AnsweredAtOnce, answerAt_eq_status]
  constructor
  · rintro ⟨j, hj, hanswer, hpaused⟩
    obtain rfl : j = 0 := Nat.eq_zero_of_not_pos fun hpos => by
      rw [hclock] at hpaused
      exact nomatch hpaused hpos
    exact ⟨hj, hanswer⟩
  · exact fun ⟨htries, hanswer⟩ => ⟨0, htries, hanswer, nofun⟩

/-- What is left by an asking that says nothing and finds the kubelet healthy exactly if `P`. -/
def Finds (first : Host) (d : Dialogue) (P : Prop) (healthy : Bool) (h : Host) : Prop :=
  first.Said d h ∧ (healthy = true ↔ P)

/-- What is left by one that breaks off, which it does only without `P`. -/
def Misses (first : Host) (d : Dialogue) (P : Prop) (h : Host) : Prop := first.Said d h ∧ ¬ P

theorem Finds.of_not {P : Prop} (hsaid : first.Said d h) (hnot : ¬ P) :
    Finds first d P false h := ⟨hsaid, iff_of_false Bool.false_ne_true hnot⟩

/-- Behind an answer that does not decide nothing more is asked if the clock refuses the pause. -/
theorem pollFrom_again_refused {P : Prop} (endpoint timeout : Value) (tries : Nat)
    (hclock : h.clock.refusal? trySleep = some failure) (hsaid : first.Said d h) (hnot : ¬ P) :
    Ends (Finds first d P) (Misses first d P)
      ((do
        if 0 < tries then Host.sleep trySleep
        pollFrom endpoint trySleep timeout tries).run.run h) := by
  by_cases hmore : 0 < tries
  · rw [if_pos hmore, run_bind, Host.run_sleep_refused hclock]
    exact ⟨hsaid, hnot⟩
  · obtain rfl : tries = 0 := Nat.eq_zero_of_not_pos hmore
    exact .of_not hsaid hnot

/-- Where the clock refuses the pauses, the kubelet is asked once at most. -/
theorem pollFrom_refused (endpoint timeout : Value) (tries : Nat)
    (hclock : h.clock.refusal? trySleep = some failure) :
    Ends (Finds h [] (AnsweredAtOnce tries h.responses))
      (Misses h [] (AnsweredAtOnce tries h.responses))
      ((pollFrom endpoint trySleep timeout tries).run.run h) := by
  cases tries with
  | zero => exact .of_not (Host.Told.refl h).toSaid fun hanswer => Nat.lt_irrefl 0 hanswer.1
  | succ tries =>
    have hasked := asked_requested endpoint trySleep timeout h
    generalize hafter : h.requested endpoint timeout = asked at hasked
    have hkept : ∀ level message, h.Said [] (asked.logged level message) := fun level message =>
      have hlogged := hasked.logged level message
      (Host.Told.refl h).toSaid.kept hlogged.calls hlogged.control
    have hstop : ∀ level message, ¬ AnsweredAtOnce (tries + 1) h.responses →
        Ends (Finds h [] (AnsweredAtOnce (tries + 1) h.responses))
          (Misses h [] (AnsweredAtOnce (tries + 1) h.responses))
          ((do
            if 0 < tries then Host.sleep trySleep
            pollFrom endpoint trySleep timeout tries).run.run (asked.logged level message)) :=
      fun level message => pollFrom_again_refused endpoint timeout tries
        ((hasked.logged level message).clock ▸ hclock) (hkept level message)
    rw [pollFrom, run_bind, run_request, hafter]
    dsimp only
    cases hanswer : answerAt h.responses 0 with
    | broken =>
      exact ⟨(Host.Told.refl h).toSaid.kept hasked.calls hasked.control, fun hhealthy =>
        Response.noConfusion (hanswer.symm.trans hhealthy.2)⟩
    | unreachable kind =>
      exact hstop _ _ fun hhealthy => Response.noConfusion (hanswer.symm.trans hhealthy.2)
    | status code =>
      dsimp only
      split
      next hcode =>
        subst hcode
        exact ⟨hkept _ _, iff_of_true rfl ⟨Nat.succ_pos _, hanswer⟩⟩
      next hcode =>
        exact hstop _ _ fun hhealthy =>
          hcode (Response.status.inj (hanswer.symm.trans hhealthy.2))

theorem poll_refused {n : Int} (endpoint timeout : Value) (htries : trials.asCount? = some n)
    (hclock : h.clock.refusal? trySleep = some failure) :
    Ends (Finds h [] (AnsweredAtOnce n.toNat h.responses))
      (Misses h [] (AnsweredAtOnce n.toNat h.responses))
      ((poll endpoint trials trySleep timeout).run.run h) := by
  unfold poll
  rw [htries]
  dsimp only
  have hasked : Spec (fun host => host = h) (pollFrom endpoint trySleep timeout n.toNat)
      (Finds h [] (AnsweredAtOnce n.toNat h.responses))
      (Misses h [] (AnsweredAtOnce n.toNat h.responses)) := by
    rintro _ rfl
    exact pollFrom_refused endpoint timeout n.toNat hclock
  refine spec_bind hasked (fun healthy => ?_) h rfl
  cases healthy with
  | true => exact spec_pure _ fun _ hlast => hlast
  | false =>
    refine spec_bind (spec_modify _ fun last hlast => ?_) fun _ => spec_pure _ fun _ h => h
    obtain ⟨hcalls, hcontrol, -⟩ := last.logged_kept .error _
    exact ⟨hlast.1.kept hcalls hcontrol, hlast.2⟩

/-- The kubelet is found healthy exactly if one of the answers says so, and nothing is said to the
service control program meanwhile. -/
theorem poll_ends (endpoint trials trySleep timeout : Value) (hsaid : first.Said d h)
    (hbroken : .broken ∉ h.responses) :
    Ends (Finds first d (Answered h.clock trySleep trials.limit h.responses))
      (Misses first d (Answered h.clock trySleep trials.limit h.responses))
      ((poll endpoint trials trySleep timeout).run.run h) := by
  unfold Value.limit
  cases htries : trials.asCount? with
  | none =>
    unfold poll
    rw [htries]
    exact ⟨hsaid, not_answered_zero⟩
  | some count =>
    cases hclock : h.clock.refusal? trySleep with
    | some failure =>
      rw [answered_of_refused hclock]
      refine (poll_refused endpoint timeout htries hclock).mono ?_ ?_
      · rintro healthy last ⟨hlast, hhealthy⟩
        exact ⟨List.append_nil d ▸ hsaid.trans hlast, hhealthy⟩
      · rintro last ⟨hlast, hnot⟩
        exact ⟨List.append_nil d ▸ hsaid.trans hlast, hnot⟩
    | none =>
      have hverdict : Verdict endpoint trySleep timeout h _ _ := verdict_poll htries h hclock
      have hhealthy := hverdict.healthy_iff
      rw [← answered_of_taken hclock hbroken] at hhealthy
      generalize (poll endpoint trials trySleep timeout).run.run h = ended at hverdict hhealthy ⊢
      cases hverdict with
      | healthy _ _ _ hasked =>
        exact ⟨hsaid.kept hasked.calls hasked.control, iff_of_true rfl (hhealthy.mp rfl)⟩
      | broken _ _ hanswer _ => exact absurd hanswer (answerAt_ne_broken hbroken _)
      | unhealthy _ hasked =>
        exact .of_not (hsaid.kept hasked.calls hasked.control) fun hanswered =>
          Bool.false_ne_true (Except.ok.inj (hhealthy.mpr hanswered))

end Health

/-! ## Carrying an invocation out -/

namespace Program

open CommandLine Health

/-- The node that is configured. -/
def cniNode (settings : Settings) (layout : InstallLayout) (path config : Text) : Node :=
  ⟨settings, layout, none, none, some path, some config⟩

/-- Everything was run and went through, and if that is asked for the kubelet became healthy. -/
def Succeeds (i : Invocation) (settings : Settings) (layout : InstallLayout) (path config : Text)
    (clock : Clock) (responses : List Response) (d : Dialogue) : Prop :=
  Cni.Completed (cniNode settings layout path config) d ∧ (i.waitForKubelet = true →
    Answered clock settings.healthTrySleep settings.healthTries.limit responses)

variable {i : Invocation} {settings : Settings} {layout : InstallLayout} {path config : Text}
  {first : Host} {d : Dialogue} {clock : Clock} {responses : List Response}
  {libraries : Libraries}

theorem silent_openLog (layout : InstallLayout) (debug create : Bool) :
    Silent id (openLog layout debug create) := by
  have hwarn : ∀ directory reason, Silent id (warnNoLogFile directory reason) :=
    fun _ _ => silent_log _ _
  refine silent_bind (silent_modify fun _ => ⟨rfl, rfl, rfl, rfl⟩) fun _ first d => ?_
  refine spec_bind spec_get fun h => ?_
  rintro _ ⟨rfl, hs⟩
  split
  next => exact hwarn _ _ first d h hs
  next =>
    generalize (createLogFile layout.logDirectory).run.run h.files = made
    obtain ⟨result, files⟩ := made
    have hkept : first.Told d { h with files } :=
      ⟨hs.toSaid.kept rfl rfl, hs.responses, hs.clock⟩
    cases result with
    | ok path =>
      have hset : Silent id (setLogFile path) := silent_modify fun _ => ⟨rfl, rfl, rfl, rfl⟩
      exact hset first d _ hkept
    | error fault =>
      cases fault with
      | nul => exact hkept
      | unencodable fault => exact hkept
      | refused reason path => exact hwarn _ _ first d _ hkept
      | sameFile source destination => exact hwarn _ _ first d _ hkept

/-- An action ends on the host as it ends on its node. -/
theorem spec_act_ends {P E : Host → Prop} {Q : Unit → Host → Prop} {action : Action} {n : Node}
    {flags : Flags} (hnode : nodeOf libraries settings layout action = .ok (n, flags))
    (h : ∀ host, P host → Ends (fun a s => Q a s.host) (fun s => E s.host)
      ((onNode action n).run.run ⟨host, flags, []⟩)) :
    Spec P (act libraries settings layout action) Q E := by
  unfold act
  rw [hnode]
  have hlift : Spec P (liftM (.ok (n, flags) : Except Failure (Node × Flags)) : HostStep _)
      (fun a host => a = (n, flags) ∧ P host) E := fun _ hhost => ⟨rfl, hhost⟩
  refine spec_bind hlift fun _ => Spec.knowing ?_
  rintro rfl
  refine spec_bind spec_get ?_
  intro host
  rintro _ ⟨rfl, hhost⟩
  have hend := h host hhost
  generalize (onNode action n).run.run ⟨host, flags, []⟩ = result at hend ⊢
  obtain ⟨result, state⟩ := result
  cases result with
  | ok a => exact hend
  | error failure => exact hend

theorem tells_act (libraries : Libraries) (settings : Settings) (layout : InstallLayout)
    (path config : Text) :
    Tells id (act libraries settings layout (.configureCni path config))
      (fun _ d => Cni.Completed (cniNode settings layout path config) d)
      fun d => ¬ Cni.Completed (cniNode settings layout path config) d := by
  intro h
  have hconfigure := (Cni.tells_configure (cniNode settings layout path config)).weaken
    (fun _ _ => And.right) fun _ => And.right
  refine spec_act_ends (P := fun host => host = h) rfl ?_ h rfl
  rintro _ rfl
  exact hconfigure ⟨_, [], []⟩

/-- What is carried out comes to its end exactly if it succeeds. -/
theorem spec_perform (haction : i.action = .configureCni path config)
    (hbroken : .broken ∉ first.responses) :
    Spec (first.Told []) (perform libraries i settings layout)
      (fun healthy h => ∃ d, first.Said d h ∧
        (healthy = true ↔ Succeeds i settings layout path config first.clock first.responses d))
      fun h => ∃ d, first.Said d h ∧
        ¬ Succeeds i settings layout path config first.clock first.responses d := by
  unfold perform
  rw [haction]
  refine spec_bind (((tells_act libraries settings layout path config).spec first []).failing ?_)
    fun _ => ?_
  · rintro h ⟨d, hd, hnot⟩
    exact ⟨d, hd.toSaid, fun hsucceeds => hnot hsucceeds.1⟩
  rintro h ⟨d, hd, hcompleted⟩
  split
  next hwait =>
    have hpoll := poll_ends settings.healthEndpoint settings.healthTries settings.healthTrySleep
      settings.healthTimeout hd.toSaid (hd.responses ▸ hbroken)
    rw [hd.responses, hd.clock] at hpoll
    refine hpoll.mono ?_ ?_
    · rintro healthy h' ⟨hsaid, hhealthy⟩
      refine ⟨d, hsaid, hhealthy.trans ⟨fun hanswered => ⟨hcompleted, fun _ => hanswered⟩, ?_⟩⟩
      exact fun hsucceeds => hsucceeds.2 hwait
    · rintro h' ⟨hsaid, hnot⟩
      exact ⟨d, hsaid, fun hsucceeds => hnot (hsucceeds.2 hwait)⟩
  next hwait =>
    exact ⟨d, hd.toSaid, iff_of_true rfl ⟨hcompleted, fun h => absurd h hwait⟩⟩

theorem spec_saidLog {p : Dialogue → Prop} {E : Host → Prop} (level : LogLevel) (message : Text) :
    Spec (fun h => ∃ d, first.Said d h ∧ p d) (Host.log level message)
      (fun _ h => ∃ d, first.Said d h ∧ p d) E := by
  refine spec_modify _ ?_
  rintro h ⟨d, hd, hp⟩
  obtain ⟨hcalls, hcontrol, -⟩ := h.logged_kept level message
  exact ⟨d, hd.kept hcalls hcontrol, hp⟩

/-- Whether a failure is logged or goes on, nothing is said. -/
theorem spec_report {p : Dialogue → Prop} (before : Text) (failure : Failure) :
    Spec (fun h => ∃ d, first.Said d h ∧ p d) (report before failure)
      (fun _ h => ∃ d, first.Said d h ∧ p d) fun h => ∃ d, first.Said d h ∧ p d := by
  unfold report
  split
  next => exact spec_saidLog _ _
  next => exact spec_throw _ fun _ h => h

/-! ## The status -/

/-- What is left of a run once the log is open. -/
def finish (libraries : Libraries) (i : Invocation) (settings : Settings)
    (layout : InstallLayout) : HostStep Nat :=
  tryCatch
    (do
      if ← perform libraries i settings layout then
        Host.log .info (i.action.name ++ text " completed successfully")
        return 0
      else return 1)
    fun failure => do
      report (i.action.name ++ text " failed: ") failure
      return 1

/-- A status that is returned inside of `try` is the value of what is tried. -/
theorem runBy_eq (libraries : Libraries) (i : Invocation) :
    runBy libraries i = (do
      match settingsOf libraries i (← get).files with
      | .error failure =>
        report [] failure
        return 1
      | .ok settings =>
        let layout ← Node.layoutOf settings.installDirectory
        openLog layout i.debug (installs i.action)
        finish libraries i settings layout) := by
  unfold runBy
  refine bind_congr fun h => ?_
  cases settingsOf libraries i h.files with
  | error failure => rfl
  | ok settings =>
    refine bind_congr fun layout => bind_congr fun _ => ?_
    funext h
    show StateT.run (ExceptT.run _) h = (finish libraries i settings layout).run.run h
    rw [finish, run_bind, run_tryCatch, run_tryCatch, run_bind, run_bind]
    generalize (perform libraries i settings layout).run.run h = ended
    obtain ⟨result, last⟩ := ended
    cases result with
    | ok healthy => cases healthy <;> rfl
    | error failure =>
      dsimp only
      rw [run_bind, run_bind]
      generalize (report (i.action.name ++ text " failed: ") failure).run.run last = reported
      obtain ⟨result, last⟩ := reported
      cases result <;> rfl

/-- With the log open, a run ends with the status 0 exactly if it succeeds. -/
theorem spec_finish (haction : i.action = .configureCni path config)
    (hbroken : .broken ∉ first.responses) :
    Spec (first.Told []) (finish libraries i settings layout)
      (fun status h => ∃ d, first.Said d h ∧
        (status = 0 ↔ Succeeds i settings layout path config first.clock first.responses d))
      fun h => ∃ d, first.Said d h ∧
        ¬ Succeeds i settings layout path config first.clock first.responses d := by
  refine spec_tryCatch (spec_bind (spec_perform haction hbroken) fun healthy => ?_)
    fun failure => spec_bind (spec_report _ _) fun _ => spec_pure _ ?_
  · cases healthy with
    | true =>
      refine spec_bind (spec_saidLog _ _) fun _ => spec_pure _ ?_
      rintro h ⟨d, hd, hsucceeds⟩
      exact ⟨d, hd, iff_of_true rfl (hsucceeds.mp rfl)⟩
    | false =>
      refine spec_pure _ ?_
      rintro h ⟨d, hd, hsucceeds⟩
      exact ⟨d, hd, iff_of_false Nat.one_ne_zero fun h => nomatch hsucceeds.mpr h⟩
  · rintro h ⟨d, hd, hnot⟩
    exact ⟨d, hd, iff_of_false Nat.one_ne_zero hnot⟩

/-- The settings give a layout, and with it a run succeeds. -/
def Accomplishes (i : Invocation) (settings : Settings) (path config : Text)
    (clock : Clock) (responses : List Response) (d : Dialogue) : Prop :=
  ∃ layout, Node.layoutOf settings.installDirectory = .ok layout ∧
    Succeeds i settings layout path config clock responses d

theorem accomplishes_iff (hlayout : Node.layoutOf settings.installDirectory = .ok layout) :
    Accomplishes i settings path config clock responses d ↔
      Succeeds i settings layout path config clock responses d := by
  constructor
  · rintro ⟨layout', hlayout', hsucceeds⟩
    obtain rfl := Except.ok.inj (hlayout'.symm.trans hlayout)
    exact hsucceeds
  · exact fun hsucceeds => ⟨layout, hlayout, hsucceeds⟩

/-- Where nothing was said, nothing was accomplished. -/
theorem not_accomplishes_nil : ¬ Accomplishes i settings path config clock responses [] := by
  rintro ⟨layout, -, hcompleted, -⟩
  exact Cni.not_completed (List.forall_mem_nil _) hcompleted

theorem spec_runBy (haction : i.action = .configureCni path config)
    (hsettings : settingsOf libraries i first.files = .ok settings)
    (hbroken : .broken ∉ first.responses) :
    Spec (fun h => h = first) (runBy libraries i)
      (fun status h => ∃ d, first.Said d h ∧
        (status = 0 ↔ Accomplishes i settings path config first.clock first.responses d))
      fun h => ∃ d, first.Said d h ∧
        ¬ Accomplishes i settings path config first.clock first.responses d := by
  rw [runBy_eq]
  refine spec_bind spec_get fun h => ?_
  rintro _ ⟨rfl, rfl⟩
  rw [hsettings]
  dsimp only
  cases hlayout : Node.layoutOf settings.installDirectory with
  | error failure => exact ⟨[], (Host.Told.refl h).toSaid, not_accomplishes_nil⟩
  | ok layout =>
    have hopen : Spec (h.Told []) (openLog layout i.debug (installs i.action))
        (fun _ => h.Told []) fun last => ∃ d, h.Said d last ∧
          ¬ Accomplishes i settings path config h.clock h.responses d :=
      (silent_openLog layout i.debug (installs i.action) h []).failing fun _ htold =>
        ⟨[], htold.toSaid, not_accomplishes_nil⟩
    simp only [accomplishes_iff hlayout] at hopen ⊢
    exact spec_bind hopen (fun _ => spec_finish haction hbroken) h (.refl h)

/-- Whether a run ends with the status 0. -/
theorem runBy_ends {h : Host} (haction : i.action = .configureCni path config)
    (hsettings : settingsOf libraries i h.files = .ok settings) (hbroken : .broken ∉ h.responses) :
    ∃ d, h.Said d ((runBy libraries i).run.run h).2 ∧
      (((runBy libraries i).run.run h).1 = .ok 0 ↔
        Accomplishes i settings path config h.clock h.responses d) := by
  have hend := spec_runBy haction hsettings hbroken h rfl
  generalize (runBy libraries i).run.run h = ended at hend ⊢
  obtain ⟨result, last⟩ := ended
  cases result with
  | ok status =>
    obtain ⟨d, hd, hstatus⟩ := hend
    exact ⟨d, hd, by rw [Except.ok.injEq, hstatus]⟩
  | error failure =>
    obtain ⟨d, hd, hnot⟩ := hend
    exact ⟨d, hd, iff_of_false nofun hnot⟩

/-- Configuring the network plugins, whatever the service control program answers: what is said to
it keeps to the order, and exactly if all went through the step succeeds. A run of the program for
it, whatever its libraries are, ends with the status 0 exactly if in addition the kubelet became
healthy where it was waited for. A clock that refuses the pauses ends the waiting behind the first
request. -/
theorem configureCni_run :
    (∀ (n : Node) (s : NodeState), ∃ d, s.host.Said d ((Cni.configure n).run.run s).2.host ∧
      Cni.Restarts n d ∧ (((Cni.configure n).run.run s).1 = .ok () ↔ Cni.Completed n d)) ∧
    ∀ (libraries : Libraries) (i : Invocation) (h : Host) (settings : Settings)
      (path config : Text), i.action = .configureCni path config →
        settingsOf libraries i h.files = .ok settings → .broken ∉ h.responses →
          ∃ d, h.Said d ((runBy libraries i).run.run h).2 ∧
            (((runBy libraries i).run.run h).1 = .ok 0 ↔ ∃ layout,
              Node.layoutOf settings.installDirectory = .ok layout ∧
                Cni.Completed (cniNode settings layout path config) d ∧
                  (i.waitForKubelet = true →
                    ∃ j < settings.healthTries.limit,
                      h.responses[j]? = some (.status Health.healthyStatus) ∧
                        (0 < j → h.clock.refusal? settings.healthTrySleep = none))) := by
  refine ⟨fun n s => ?_, fun _ _ _ _ _ _ haction hsettings hbroken =>
    runBy_ends haction hsettings hbroken⟩
  have hend := Cni.tells_configure n s
  generalize (Cni.configure n).run.run s = ended at hend ⊢
  obtain ⟨result, last⟩ := ended
  cases result with
  | ok _ =>
    obtain ⟨d, hd, hcourse, hcompleted⟩ := hend
    exact ⟨d, hd.toSaid, hcourse.restarts, iff_of_true rfl hcompleted⟩
  | error failure =>
    obtain ⟨d, hd, hcourse, hnot⟩ := hend
    exact ⟨d, hd.toSaid, hcourse.restarts, iff_of_false nofun hnot⟩

/-! ## A brief run -/

def briefInvocation : Invocation where
  settingsFile := none
  installDirectory := some (text "k")
  debug := false
  action := .configureCni (text "p") (text "c")
  waitForKubelet := true

/-- The answers of a program that does all it is told. -/
def briefAnswers : List ProcessResult := [
  .finished 0 (text "BINARY_PATH_NAME : kubelet.exe"), .finished 0 [],
  .finished 0 (text "STATE : 1 STOPPED"), .finished 0 [], .finished 0 [],
  .finished 0 (text "STATE : 4 RUNNING")]

def briefHost : Host :=
  { Host.empty with
    files := ⟨[([text "k"], .directory), ([text "p"], .directory),
      ([text "p", text "a"], .file []), ([text "c"], .file [])], []⟩
    control := .script briefAnswers
    clock := .usual
    responses := [.status 503, .status 200] }

theorem configureCni_run_brief :
    briefInvocation.action = .configureCni (text "p") (text "c") ∧
      .broken ∉ briefHost.responses ∧ ∃ settings,
        settingsOf .own briefInvocation briefHost.files = .ok settings ∧
          ((run briefInvocation).run.run briefHost).1 = .ok 0 ∧
            ∃ d layout, briefHost.Said d ((run briefInvocation).run.run briefHost).2 ∧
              Cni.Completed (cniNode settings layout (text "p") (text "c")) d := by
  have hbroken : .broken ∉ briefHost.responses := by decide
  have hran : ((runBy .own briefInvocation).run.run briefHost).1 = .ok 0 :=
    eq_ok_of_toOption (by decide +kernel)
  have hsettings : settingsOf .own briefInvocation briefHost.files = .ok _ := rfl
  obtain ⟨d, hd, hstatus⟩ :=
    configureCni_run.2 .own briefInvocation briefHost _ _ _ rfl hsettings hbroken
  obtain ⟨layout, -, hcompleted, -⟩ := hstatus.mp hran
  exact ⟨rfl, hbroken, _, hsettings, hran, d, layout, hd, hcompleted⟩

end Program

end NodeBootstrap
