import NodeBootstrap.Node.Cni
import NodeBootstrap.Proofs.Service.Dialogue

/-!
# What is said while the network plugins are configured

Configuring looks the service up, stops it, gives it its new start command and starts it, and asks
for its state behind the stop and behind the start. Whatever the service control program answers, a
run keeps to this order and breaks off somewhere in it (`Course`); it succeeds exactly if it has
come to the end of it (`Completed`). In particular the start command is never changed before the
service is known to have stopped, and the service is never started with a command that was not
changed (`Restarts`).
-/

set_option autoImplicit false

namespace NodeBootstrap.Cni

/-! ## Silent steps -/

section Silent

theorem silent_nodeLog (level : LogLevel) (message : Text) :
    Silent NodeState.host (NodeStep.log level message) := silent_ofHost (silent_log level message)

theorem silent_requirePath (area : PathFault → Failure) (path : Option Text) :
    Silent NodeState.host (requirePath area path) := by
  cases path with
  | none => exact silent_throw _
  | some path => exact silent_bind (silent_ofHost (silent_onFiles _ _)) fun _ => silent_pure _

theorem silent_checkInputs (n : Node) : Silent NodeState.host (checkInputs n) := by
  refine silent_bind (silent_requirePath _ _) fun directory => silent_bind silent_get fun _ => ?_
  refine silent_unless (silent_bind (silent_requirePath _ _) fun plugins => ?_)
  refine silent_bind silent_get fun _ => silent_unless ?_
  refine silent_bind (silent_requirePath _ _) fun config => silent_bind silent_get fun _ => ?_
  split
  next => exact silent_throw _
  next => exact silent_pure _

theorem silent_ensureDirectories (n : Node) : Silent NodeState.host (ensureDirectories n) := by
  refine silent_bind silent_get fun _ => ?_
  split
  next => exact silent_pure _
  next => exact silent_bind (silent_nodeLog _ _) fun _ => silent_ofHost (silent_onFiles _ _)

theorem silent_copyInto (directory source : Text) :
    Silent NodeState.host (copyInto directory source) :=
  silent_bind (silent_ofHost (silent_onFiles _ _)) fun _ => silent_pure _

theorem silent_pluginFiles (n : Node) : Silent NodeState.host (pluginFiles n) := by
  refine silent_bind (silent_ofHost (silent_onFiles _ _)) fun names => ?_
  cases n.cniPath with
  | none =>
    dsimp only
    split
    next => exact silent_pure _
    next => exact silent_throw _
  | some directory => exact silent_bind silent_get fun _ => silent_pure _

theorem silent_copyFiles (n : Node) : Silent NodeState.host (copyFiles n) := by
  refine silent_bind (silent_pluginFiles n) fun files => silent_unless ?_
  refine silent_bind (silent_forIn fun source => ?_) fun _ => ?_
  · exact silent_bind (silent_copyInto _ _) fun _ => silent_pure _
  · refine silent_bind (silent_nodeLog _ _) fun _ => ?_
    cases n.cniConfig with
    | none => exact silent_throw _
    | some config => exact silent_bind (silent_copyInto _ _) fun _ => silent_nodeLog _ _

end Silent

/-! ## The course of a run -/

open ServiceManager

/-- The runs up to the queries behind the stop. -/
def untilStopped (n : Node) (lookUp stop : ProcessResult) (asked : List ProcessResult) : Dialogue :=
  (lookUpWords n.serviceName, lookUp) :: (stopWords n.serviceName, stop) ::
    queries n.serviceName asked

/-- The dialogues that can be, by how far they go. -/
inductive Course (n : Node) : Dialogue → Prop
  | unnamed (hname : ¬ n.Named) : Course n []
  | lookingUp (lookUp : ProcessResult) : Course n [(lookUpWords n.serviceName, lookUp)]
  | stopping (lookUp stop : ProcessResult) {asked : List ProcessResult}
    (hasked : asked.length ≤ n.services.limit)
    (hnone : ∀ result ∈ asked, ¬ result.Reports ServiceState.stopped) :
    Course n (untilStopped n lookUp stop asked)
  | changing {command : Text} {lookUp : ProcessResult} (stop change : ProcessResult)
    {asked : List ProcessResult} (hcommand : lookUp.Prints command)
    (hasked : asked.length ≤ n.services.limit) (hstopped : Reaches ServiceState.stopped asked) :
    Course n (untilStopped n lookUp stop asked ++
      [(changeWords n.serviceName (updatedCommand n.layout command), change)])
  | starting {command output : Text} {lookUp : ProcessResult} (stop start : ProcessResult)
    {asked asked' : List ProcessResult} (hcommand : lookUp.Prints command)
    (hasked : asked.length ≤ n.services.limit) (hstopped : Reaches ServiceState.stopped asked)
    (hasked' : asked'.length ≤ n.services.limit) :
    Course n (untilStopped n lookUp stop asked ++
      (changeWords n.serviceName (updatedCommand n.layout command), .finished 0 output) ::
        (startWords n.serviceName, start) :: queries n.serviceName asked')

/-- All the runs: the service is asked `k` times whether it has stopped and `m` times whether it
runs. -/
def sequence (name command : Text) (k m : Nat) : List (List Text) :=
  (lookUpWords name :: stopWords name :: List.replicate k (queryWords name)) ++
    changeWords name command :: startWords name :: List.replicate m (queryWords name)

/-- A dialogue in which everything was run and went through, and the service runs. -/
structure Completed (n : Node) (d : Dialogue) : Prop where
  calls : ∃ command k m, 1 ≤ k ∧ k ≤ n.services.limit ∧ 1 ≤ m ∧ m ≤ n.services.limit ∧
    d.map Prod.fst = sequence n.serviceName command k m
  codes : ∀ e ∈ d, ∃ code output, e.2 = .finished code output ∧
    (code = 0 ∨ (e.1 = stopWords n.serviceName ∧ code = notActive) ∨
      (e.1 = startWords n.serviceName ∧ code = alreadyRunning))
  last : ∃ result, d.getLast? = some (queryWords n.serviceName, result) ∧
    result.Reports ServiceState.running

/-- What was said before the start command is changed: the last query is the first that reports the
service to have stopped, and the new command is the one that was looked up, updated. -/
def BeforeChange (n : Node) (command : Text) (before : Dialogue) : Prop :=
  ∃ current lookUp stop asked last, lookUp.Prints current ∧
    command = updatedCommand n.layout current ∧
      before = untilStopped n lookUp stop (asked ++ [last]) ∧
        last.Reports ServiceState.stopped ∧
          ∀ result ∈ asked, ¬ result.Reports ServiceState.stopped

/-- The order in which a service is changed and started. -/
structure Restarts (n : Node) (d : Dialogue) : Prop where
  /-- The runs come in their order. -/
  order : 1 ≤ n.services.limit → ∃ command k m, 1 ≤ k ∧ k ≤ n.services.limit ∧
    1 ≤ m ∧ m ≤ n.services.limit ∧ d.map Prod.fst <+: sequence n.serviceName command k m
  /-- If the state may never be asked for, the service is stopped at most. -/
  unasked : n.services.limit = 0 →
    d.map Prod.fst <+: [lookUpWords n.serviceName, stopWords n.serviceName]
  /-- The start command is changed once the service is known to have stopped. -/
  changed : ∀ before command result after,
    d = before ++ (changeWords n.serviceName command, result) :: after →
      BeforeChange n command before
  /-- The service is started right behind the change of its start command. -/
  started : ∀ before result after, d = before ++ (startWords n.serviceName, result) :: after →
    ∃ first command output,
      before = first ++ [(changeWords n.serviceName command, .finished 0 output)]

variable {n : Node} {d : Dialogue}

/-! ## Where a verb stands -/

/-- The verb of a run. -/
def verb? (e : List Text × ProcessResult) : Option Text := e.1.head?

theorem verb?_untilStopped {verb : Text}
    (hverb : verb ∉ [text "qc", text "stop", text "query"]) (lookUp stop : ProcessResult)
    (asked : List ProcessResult) : ∀ e ∈ untilStopped n lookUp stop asked, verb? e ≠ some verb := by
  obtain ⟨hlookUp, hverb⟩ := List.forall_mem_cons.mp fun v hv (heq : v = verb) => hverb (heq ▸ hv)
  obtain ⟨hstop, hquery⟩ := List.forall_mem_cons.mp hverb
  have hquery := List.forall_mem_singleton.mp hquery
  refine List.forall_mem_cons.mpr ⟨fun h => hlookUp (Option.some.inj h),
    List.forall_mem_cons.mpr ⟨fun h => hstop (Option.some.inj h), fun e he => ?_⟩⟩
  obtain ⟨result, -, rfl⟩ := List.mem_map.mp he
  exact fun h => hquery (Option.some.inj h)

theorem verb?_queries {verb name : Text} (hverb : verb ≠ text "query")
    (asked : List ProcessResult) : ∀ e ∈ queries name asked, verb? e ≠ some verb := by
  intro e he
  obtain ⟨result, -, rfl⟩ := List.mem_map.mp he
  exact fun h => hverb (Option.some.inj h).symm

/-- A list is taken apart in one way only at an item of a kind that is there once. -/
theorem eq_of_append_cons {α : Type} {p : α → Prop} {front back before after : List α} {a b : α}
    (hfront : ∀ x ∈ front, ¬ p x) (hback : ∀ x ∈ back, ¬ p x) (hb : p b)
    (h : front ++ a :: back = before ++ b :: after) : before = front ∧ b = a := by
  induction front generalizing before with
  | nil =>
    cases before with
    | nil => exact ⟨rfl, (List.cons.inj h).1.symm⟩
    | cons x before =>
      refine absurd hb (hback b ?_)
      rw [(List.cons.inj h).2]
      exact List.mem_append_right _ List.mem_cons_self
  | cons first front ih =>
    obtain ⟨hfirst, hfront⟩ := List.forall_mem_cons.mp hfront
    cases before with
    | nil => exact absurd ((List.cons.inj h).1 ▸ hb) hfirst
    | cons x before =>
      obtain ⟨hsame, hrest⟩ := List.cons.inj h
      obtain ⟨hbefore, hb⟩ := ih hfront hrest
      exact ⟨by rw [hbefore, hsame], hb⟩

theorem not_mem_of_verb? {words : List Text} {result : ProcessResult} {before after : Dialogue}
    (hnone : ∀ e ∈ d, verb? e ≠ words.head?) : d ≠ before ++ (words, result) :: after := by
  rintro rfl
  exact hnone _ (List.mem_append_right _ List.mem_cons_self) rfl

/-! ## A course keeps to the order -/

theorem map_queries (name : Text) (results : List ProcessResult) :
    (queries name results).map Prod.fst = List.replicate results.length (queryWords name) := by
  rw [queries, List.map_map]
  exact List.map_const' ..

theorem map_untilStopped (lookUp stop : ProcessResult) (asked : List ProcessResult) :
    (untilStopped n lookUp stop asked).map Prod.fst =
      lookUpWords n.serviceName :: stopWords n.serviceName ::
        List.replicate asked.length (queryWords n.serviceName) := by
  rw [untilStopped, List.map_cons, List.map_cons, map_queries]

theorem replicate_isPrefix {α : Type} {k m : Nat} (h : k ≤ m) (a : α) :
    List.replicate k a <+: List.replicate m a :=
  ⟨List.replicate (m - k) a, by rw [List.replicate_append_replicate, Nat.add_sub_cancel' h]⟩

theorem Course.order (h : Course n d) (hlimit : 1 ≤ n.services.limit) :
    ∃ command k m, 1 ≤ k ∧ k ≤ n.services.limit ∧ 1 ≤ m ∧ m ≤ n.services.limit ∧
      d.map Prod.fst <+: sequence n.serviceName command k m := by
  cases h with
  | unnamed _ => exact ⟨[], 1, 1, Nat.le_refl _, hlimit, Nat.le_refl _, hlimit, _, rfl⟩
  | lookingUp lookUp =>
    exact ⟨[], 1, 1, Nat.le_refl _, hlimit, Nat.le_refl _, hlimit, _, rfl⟩
  | @stopping lookUp stop asked hasked hnone =>
    refine ⟨[], max 1 asked.length, 1, Nat.le_max_left .., Nat.max_le.mpr ⟨hlimit, hasked⟩,
      Nat.le_refl _, hlimit, ?_⟩
    rw [map_untilStopped]
    refine List.IsPrefix.trans ?_ (List.prefix_append _ _)
    rw [List.prefix_cons_inj, List.prefix_cons_inj]
    exact replicate_isPrefix (Nat.le_max_right ..) _
  | @changing command lookUp stop change asked hcommand hasked hstopped =>
    refine ⟨updatedCommand n.layout command, asked.length, 1, hstopped.length_pos, hasked,
      Nat.le_refl _, hlimit, ?_⟩
    rw [List.map_append, map_untilStopped]
    exact (List.prefix_append_right_inj _).mpr ⟨_, rfl⟩
  | @starting command output lookUp stop start asked asked' hcommand hasked hstopped hasked' =>
    refine ⟨updatedCommand n.layout command, asked.length, max 1 asked'.length,
      hstopped.length_pos, hasked, Nat.le_max_left .., Nat.max_le.mpr ⟨hlimit, hasked'⟩, ?_⟩
    rw [List.map_append, map_untilStopped, List.map_cons, List.map_cons, map_queries]
    refine (List.prefix_append_right_inj _).mpr ?_
    rw [List.prefix_cons_inj, List.prefix_cons_inj]
    exact replicate_isPrefix (Nat.le_max_right ..) _

theorem Course.unasked (h : Course n d) (hlimit : n.services.limit = 0) :
    d.map Prod.fst <+: [lookUpWords n.serviceName, stopWords n.serviceName] := by
  have hnever : ∀ {asked : List ProcessResult}, asked.length ≤ n.services.limit →
      Reaches ServiceState.stopped asked → False := fun hasked hstopped => by
    have hpos := hstopped.length_pos
    omega
  cases h with
  | unnamed _ => exact List.nil_prefix
  | lookingUp lookUp => exact ⟨_, rfl⟩
  | @stopping lookUp stop asked hasked hnone =>
    have hnil : asked = [] := List.length_eq_zero_iff.mp (Nat.le_zero.mp (hlimit ▸ hasked))
    rw [hnil]
    exact ⟨[], rfl⟩
  | changing stop change hcommand hasked hstopped => exact (hnever hasked hstopped).elim
  | starting stop start hcommand hasked hstopped hasked' => exact (hnever hasked hstopped).elim

/-- Where a course goes on with a change of the start command, that is the only one. -/
theorem beforeChange_of_append {current command : Text} {lookUp stop change result : ProcessResult}
    {asked : List ProcessResult} {back before after : Dialogue} (hcommand : lookUp.Prints current)
    (hstopped : Reaches ServiceState.stopped asked)
    (hback : ∀ e ∈ back, verb? e ≠ some (text "config"))
    (hd : untilStopped n lookUp stop asked ++
        (changeWords n.serviceName (updatedCommand n.layout current), change) :: back =
      before ++ (changeWords n.serviceName command, result) :: after) :
    BeforeChange n command before := by
  obtain ⟨rfl, hsame⟩ := eq_of_append_cons (p := fun e => verb? e = some (text "config"))
    (verb?_untilStopped (by decide) lookUp stop asked) hback rfl hd
  obtain ⟨asked, last, rfl, hlast, hasked⟩ := hstopped.split
  have hwords : changeWords n.serviceName command =
    changeWords n.serviceName (updatedCommand n.layout current) := congrArg Prod.fst hsame
  refine ⟨current, lookUp, stop, asked, last, hcommand, ?_, rfl, hlast, hasked⟩
  simpa [changeWords] using hwords

theorem Course.changed (h : Course n d) {before after : Dialogue} {command : Text}
    {result : ProcessResult}
    (hd : d = before ++ (changeWords n.serviceName command, result) :: after) :
    BeforeChange n command before := by
  cases h with
  | unnamed _ => exact absurd hd (not_mem_of_verb? (List.forall_mem_nil _))
  | lookingUp lookUp =>
    refine absurd hd (not_mem_of_verb? (List.forall_mem_singleton.mpr ?_))
    exact (by decide : some (text "qc") ≠ some (text "config"))
  | stopping lookUp stop =>
    exact absurd hd (not_mem_of_verb? (verb?_untilStopped (by decide) _ _ _))
  | changing stop change hcommand hasked hstopped =>
    exact beforeChange_of_append hcommand hstopped (List.forall_mem_nil _) hd
  | starting stop start hcommand hasked hstopped hasked' =>
    refine beforeChange_of_append hcommand hstopped (List.forall_mem_cons.mpr ⟨?_, ?_⟩) hd
    · exact (by decide : some (text "start") ≠ some (text "config"))
    · exact verb?_queries (by decide) _

/-- Before the start nothing is started. -/
theorem verb?_changing {current : Text} {lookUp stop change : ProcessResult}
    {asked : List ProcessResult} :
    ∀ e ∈ untilStopped n lookUp stop asked ++ [(changeWords n.serviceName current, change)],
      verb? e ≠ some (text "start") :=
  List.forall_mem_append.mpr ⟨verb?_untilStopped (by decide) _ _ _,
    List.forall_mem_singleton.mpr (by decide : some (text "config") ≠ some (text "start"))⟩

theorem Course.started (h : Course n d) {before after : Dialogue} {result : ProcessResult}
    (hd : d = before ++ (startWords n.serviceName, result) :: after) :
    ∃ first command output,
      before = first ++ [(changeWords n.serviceName command, .finished 0 output)] := by
  cases h with
  | unnamed _ => exact absurd hd (not_mem_of_verb? (List.forall_mem_nil _))
  | lookingUp lookUp =>
    refine absurd hd (not_mem_of_verb? (List.forall_mem_singleton.mpr ?_))
    exact (by decide : some (text "qc") ≠ some (text "start"))
  | stopping lookUp stop =>
    exact absurd hd (not_mem_of_verb? (verb?_untilStopped (by decide) _ _ _))
  | changing stop change => exact absurd hd (not_mem_of_verb? verb?_changing)
  | @starting command output lookUp stop start asked asked' =>
    rw [List.append_cons] at hd
    obtain ⟨hbefore, -⟩ := eq_of_append_cons (p := fun e => verb? e = some (text "start"))
      verb?_changing (verb?_queries (by decide) _) rfl hd
    exact ⟨_, _, _, hbefore⟩

theorem Course.restarts (h : Course n d) : Restarts n d :=
  ⟨h.order, h.unasked, fun _ _ _ _ => h.changed, fun _ _ _ => h.started⟩

/-! ## Coming to the end -/

/-- Without a start nothing is complete. -/
theorem not_completed (hnone : ∀ e ∈ d, verb? e ≠ some (text "start")) : ¬ Completed n d := by
  intro h
  obtain ⟨command, k, m, -, -, -, -, hcalls⟩ := h.calls
  have hmem : startWords n.serviceName ∈ d.map Prod.fst := by
    rw [hcalls]
    exact List.mem_append_right _ (List.mem_cons_of_mem _ List.mem_cons_self)
  obtain ⟨e, he, hwords⟩ := List.mem_map.mp hmem
  exact hnone e he (congrArg List.head? hwords)

/-- A start behind which no query reports the service to run completes nothing. -/
theorem not_completed_of_unreached {command : Text} {lookUp stop change start : ProcessResult}
    {asked asked' : List ProcessResult}
    (hnone : ∀ result ∈ asked', ¬ result.Reports ServiceState.running) :
    ¬ Completed n (untilStopped n lookUp stop asked ++
      (changeWords n.serviceName command, change) ::
        (startWords n.serviceName, start) :: queries n.serviceName asked') := by
  intro h
  obtain ⟨result, hlast, hreports⟩ := h.last
  rw [List.append_cons, List.getLast?_append, List.getLast?_cons, Option.some_or,
    Option.some.injEq] at hlast
  cases hqueries : (queries n.serviceName asked').getLast? with
  | none =>
    rw [hqueries] at hlast
    exact absurd (congrArg verb? hlast) (by decide : some (text "start") ≠ some (text "query"))
  | some e =>
    rw [hqueries] at hlast
    obtain ⟨result', hmem, he⟩ := List.mem_map.mp (List.mem_of_getLast? hqueries)
    cases he.trans hlast
    exact hnone result hmem hreports

theorem completed {command output : Text} {lookUp stop start : ProcessResult}
    {asked asked' : List ProcessResult} (hcommand : lookUp.Prints command)
    (hstop : stop.Accepted [notActive]) (hasked : asked.length ≤ n.services.limit)
    (hstopped : Reaches ServiceState.stopped asked) (hstart : start.Accepted [alreadyRunning])
    (hasked' : asked'.length ≤ n.services.limit) (hrunning : Reaches ServiceState.running asked') :
    Completed n (untilStopped n lookUp stop asked ++
      (changeWords n.serviceName (updatedCommand n.layout command), .finished 0 output) ::
        (startWords n.serviceName, start) :: queries n.serviceName asked') := by
  refine ⟨⟨updatedCommand n.layout command, asked.length, asked'.length, hstopped.length_pos,
    hasked, hrunning.length_pos, hasked', ?_⟩, ?_, ?_⟩
  · rw [List.map_append, map_untilStopped, List.map_cons, List.map_cons, map_queries]
    rfl
  · have hqueries : ∀ {state : Text} {results : List ProcessResult}, Reaches state results →
        ∀ e ∈ queries n.serviceName results, ∃ code output, e.2 = .finished code output ∧
          (code = 0 ∨ (e.1 = stopWords n.serviceName ∧ code = notActive) ∨
            (e.1 = startWords n.serviceName ∧ code = alreadyRunning)) := by
      intro state results hreaches e he
      obtain ⟨result, hmem, rfl⟩ := List.mem_map.mp he
      obtain ⟨output, rfl⟩ := hreaches.accepted result hmem
      exact ⟨0, output, rfl, .inl rfl⟩
    obtain ⟨printed, rfl, -⟩ := hcommand
    obtain ⟨stopCode, stopOutput, rfl, hstop⟩ := hstop
    obtain ⟨startCode, startOutput, rfl, hstart⟩ := hstart
    refine List.forall_mem_append.mpr ⟨List.forall_mem_cons.mpr ⟨⟨0, printed, rfl, .inl rfl⟩,
      List.forall_mem_cons.mpr ⟨⟨stopCode, stopOutput, rfl, ?_⟩, hqueries hstopped⟩⟩,
      List.forall_mem_cons.mpr ⟨⟨0, output, rfl, .inl rfl⟩,
        List.forall_mem_cons.mpr ⟨⟨startCode, startOutput, rfl, ?_⟩, hqueries hrunning⟩⟩⟩
    · exact hstop.imp_right fun hmem => .inl ⟨rfl, List.mem_singleton.mp hmem⟩
    · exact hstart.imp_right fun hmem => .inr ⟨rfl, List.mem_singleton.mp hmem⟩
  · obtain ⟨before, last, rfl, hlast, -⟩ := hrunning.split
    refine ⟨last, ?_, hlast⟩
    rw [queries, List.map_append, List.map_singleton, ← List.cons_append, ← List.cons_append,
      ← List.append_assoc, List.getLast?_append]
    rfl

/-! ## A run -/

theorem tells_updateFlags (command : Text) :
    Tells NodeState.host (updateFlags n command)
      (fun newCommand d => d = [] ∧ newCommand = updatedCommand n.layout command)
      fun _ => False := fun s => ⟨[], .refl s.host, rfl, rfl⟩

/-- Whatever the program answers, configuring takes one of the courses, and it succeeds exactly if
it comes to the end. -/
theorem tells_configure (n : Node) :
    Tells NodeState.host (configure n) (fun _ d => Course n d ∧ Completed n d)
      fun d => Course n d ∧ ¬ Completed n d := by
  have hm : n.services.connected = true := rfl
  have hlookedUp : ∀ lookUp, Course n [(lookUpWords n.serviceName, lookUp)] ∧
      ¬ Completed n [(lookUpWords n.serviceName, lookUp)] := fun lookUp =>
    ⟨.lookingUp lookUp, not_completed (List.forall_mem_singleton.mpr
      (by decide : some (text "qc") ≠ some (text "start")))⟩
  obtain ⟨-, hrequire⟩ | ⟨hnot, hrequire⟩ := n.requireName_cases
  case inr =>
    rw [configure, hrequire]
    exact tells_throw _ ⟨.unnamed hnot, not_completed (List.forall_mem_nil _)⟩
  rw [configure, hrequire]
  refine tells_bind (tells_ofHost (tells_startCommand? hm)) ?_ ?_
  · rintro _ ⟨lookUp, rfl⟩
    exact hlookedUp lookUp
  rintro found _ ⟨lookUp, rfl, hfound, -⟩
  cases found with
  | none => exact tells_throw _ (hlookedUp lookUp)
  | some command =>
  have hcommand := hfound command rfl
  refine tells_after (silent_checkInputs n) (hlookedUp lookUp) fun _ => ?_
  refine tells_after (silent_ensureDirectories n) (hlookedUp lookUp) fun _ => ?_
  refine tells_after (silent_copyFiles n) (hlookedUp lookUp) fun _ => ?_
  refine tells_bind (tells_updateFlags command) nofun ?_
  rintro _ _ ⟨rfl, rfl⟩
  refine tells_bind (tells_ofHost (tells_stop hm)) ?_ ?_
  · rintro _ ⟨stop, asked, rfl, hasked, hnone⟩
    exact ⟨.stopping lookUp stop hasked hnone, not_completed (verb?_untilStopped (by decide) _ _ _)⟩
  rintro _ _ ⟨stop, asked, rfl, hstop, hasked, hstopped⟩
  refine tells_bind (tells_ofHost (tells_setStartCommand hm _)) ?_ ?_
  · rintro _ ⟨change, rfl⟩
    exact ⟨.changing stop change hcommand hasked hstopped, not_completed verb?_changing⟩
  rintro _ _ ⟨output, rfl⟩
  refine tells_bind (tells_ofHost (tells_start hm)) ?_ ?_
  · rintro _ ⟨start, asked', rfl, hasked', hnone⟩
    exact ⟨.starting stop start hcommand hasked hstopped hasked', not_completed_of_unreached hnone⟩
  rintro _ _ ⟨start, asked', rfl, hstart, hasked', hrunning⟩
  refine (tells_ofHost (tells_log _ _)).weaken ?_ fun _ h => h
  rintro _ _ rfl
  rw [List.append_nil]
  exact ⟨.starting stop start hcommand hasked hstopped hasked',
    completed hcommand hstop hasked hstopped hstart hasked' hrunning⟩

end NodeBootstrap.Cni
