import NodeBootstrap.Proofs.Service.Runs

/-!
# Starting and stopping a service

A service is started or stopped by a command, and asked for its state behind it. What the command
came to decides first; behind one that went through, the first query does that does not report
another state than the one waited for. `ServiceManager.start_stop_exact` says for any results how
it ends, which commands were run by then and how many pauses there were.

The results are those that the control has for the commands, one after the other
(`ServiceControl.reply`), so nothing is said about where they come from. Runs that break off for a
reason that nobody handles are left out: their failure is not one of services.
-/

set_option autoImplicit false

namespace NodeBootstrap

/-- What a command comes to when it was run a number of times before. -/
def ServiceControl.reply (control : ServiceControl) (words : List Text) : Nat → ProcessResult
  | 0 => (control.run words).1
  | j + 1 => (control.run words).2.reply words j

/-- A query that reports another state. -/
def ProcessResult.Other (state : Text) (result : ProcessResult) : Prop :=
  ∃ current, result.Reports current ∧ current ≠ state

/-- The query with a number is the first that reports a state, and those before report others. -/
def ReachedAt (state : Text) (asked : Nat → ProcessResult) (i : Nat) : Prop :=
  (∀ j < i, (asked j).Other state) ∧ (asked i).Reports state

/-- Behind one run of a command its results are the later ones. -/
theorem Host.Spent.reply {first h : Host} {words : List Text} {pauses : List Value}
    (hspent : first.Spent [words] pauses h) (j : Nat) :
    h.control.reply words j = first.control.reply words (j + 1) := by
  rw [hspent.control]
  rfl

section Reports

variable {state : Text} {result : ProcessResult}

theorem ProcessResult.Reports.not_other (h : result.Reports state) : ¬ result.Other state := by
  rintro ⟨current, hcurrent, hne⟩
  exact hne (hcurrent.unique h)

theorem ProcessResult.not_other_of_none (h : ∀ current, ¬ result.Reports current) :
    ¬ result.Other state := fun ⟨current, hcurrent, _⟩ => h current hcurrent

theorem ProcessResult.Reports.other {current : Text} (h : result.Reports current)
    (hne : current ≠ state) : result.Other state := ⟨current, h, hne⟩

/-- At most one query is the first that reports a state. -/
theorem ReachedAt.unique {asked : Nat → ProcessResult} {i k : Nat} (hi : ReachedAt state asked i)
    (hk : ReachedAt state asked k) : i = k := by
  apply first_unique (p := fun j => ¬ (asked j).Other state)
  · exact hi.2.not_other
  · exact fun j hj => not_not_intro (hi.1 j hj)
  · exact hk.2.not_other
  · exact fun j hj => not_not_intro (hk.1 j hj)

/-- Where a query reports no state at all, none behind others is the first that reports one. -/
theorem not_reachedAt_of_none {asked : Nat → ProcessResult} {i k : Nat}
    (hbefore : ∀ j < k, (asked j).Other state) (hnone : ∀ current, ¬ (asked k).Reports current) :
    ¬ ReachedAt state asked i := by
  rintro ⟨hothers, hreports⟩
  rcases Nat.lt_trichotomy i k with hlt | rfl | hlt
  · exact hreports.not_other (hbefore i hlt)
  · exact hnone state hreports
  · exact ProcessResult.not_other_of_none hnone (hothers k hlt)

end Reports

namespace ServiceManager

variable {m : ServiceManager} {name state : Text} {words : List Text} {allowed : List Int}
  {first h : Host}

/-! ## One query -/

theorem queryState_reports (hm : m.connected = true) {current : Text}
    (hreports : (h.control.run (queryWords name)).1.Reports current) :
    (m.queryState name).run.run h = (.ok current, h.ran program (queryWords name)) := by
  obtain ⟨output, hreply, hstate⟩ := hreports
  unfold queryState
  rw [run_bind, show [text "query", name] = queryWords name from rfl,
    run_accepted hm hreply (.inl rfl)]
  dsimp only
  rw [hstate]
  rfl

/-- A query that reports no state is a failure of the services. -/
theorem queryState_unknown (hm : m.connected = true)
    (hbroken : (h.control.run (queryWords name)).1 ≠ .broken)
    (hnone : ∀ current, ¬ (h.control.run (queryWords name)).1.Reports current) :
    ∃ fault, (m.queryState name).run.run h =
      (.error (.service fault), h.ran program (queryWords name)) := by
  unfold queryState
  rw [run_bind, show [text "query", name] = queryWords name from rfl]
  by_cases haccepted : (h.control.run (queryWords name)).1.Accepted []
  · obtain ⟨code, output, hreply, hcode⟩ := haccepted
    obtain rfl : code = 0 := hcode.resolve_right List.not_mem_nil
    rw [run_accepted hm hreply (.inl rfl)]
    dsimp only
    cases hstate : ServiceOutput.state? (Text.stripped output) with
    | none => exact ⟨_, rfl⟩
    | some current => exact absurd ⟨output, hreply, hstate⟩ (hnone current)
  · obtain ⟨fault, hrun⟩ := run_refused hm hbroken haccepted
    rw [hrun]
    exact ⟨fault, rfl⟩

/-! ## Waiting for a state -/

/-- How waiting for a state ends, by the query that decides. -/
inductive Waited (m : ServiceManager) (name state : Text) (first : Host) (limit : Nat) :
    Except Failure Unit × Host → Prop
  | reached {i : Nat} {last : Host} (hi : i < limit)
    (hreached : ReachedAt state (first.control.reply (queryWords name)) i)
    (hspent : first.Spent (List.replicate (i + 1) (queryWords name)) (List.replicate i m.trySleep)
      last) :
    Waited m name state first limit (.ok (), last)
  | unknown {i : Nat} {fault : ServiceFault} {last : Host} (hi : i < limit)
    (hbefore : ∀ j < i, (first.control.reply (queryWords name) j).Other state)
    (hnone : ∀ current, ¬ (first.control.reply (queryWords name) i).Reports current)
    (hspent : first.Spent (List.replicate (i + 1) (queryWords name)) (List.replicate i m.trySleep)
      last) :
    Waited m name state first limit (.error (.service fault), last)
  | exhausted {last : Host}
    (hothers : ∀ j < limit, (first.control.reply (queryWords name) j).Other state)
    (hspent : first.Spent (List.replicate limit (queryWords name))
      (List.replicate limit m.trySleep) last) :
    Waited m name state first limit (.error (.service (.stateNotReached name state)), last)

/-- Where the first query reports another state, the others decide. -/
theorem Waited.again {ended : Except Failure Unit × Host} {limit : Nat}
    (hspent : first.Spent [queryWords name] [m.trySleep] h)
    (hother : (first.control.reply (queryWords name) 0).Other state)
    (hrest : Waited m name state h limit ended) :
    Waited m name state first (limit + 1) ended := by
  have hbefore : ∀ {n : Nat}, (∀ j < n, (h.control.reply (queryWords name) j).Other state) →
      ∀ j < n + 1, (first.control.reply (queryWords name) j).Other state := by
    intro n hn
    rw [Nat.forall_lt_succ_left]
    exact ⟨hother, fun j hj => hspent.reply j ▸ hn j hj⟩
  cases hrest with
  | @reached i last hi hreached hlast =>
    exact .reached (Nat.succ_lt_succ hi) ⟨hbefore hreached.1, hspent.reply i ▸ hreached.2⟩
      (hspent.trans hlast)
  | @unknown i fault last hi hothers hnone hlast =>
    exact .unknown (Nat.succ_lt_succ hi) (hbefore hothers) (hspent.reply i ▸ hnone)
      (hspent.trans hlast)
  | exhausted hothers hlast => exact .exhausted (hbefore hothers) (hspent.trans hlast)

theorem waited_waitFor (hm : m.connected = true) (tries : Int) (left : Nat)
    (hclock : h.clock.refusal? m.trySleep = none)
    (hbroken : ∀ j < left, h.control.reply (queryWords name) j ≠ .broken) :
    Waited m name state h left ((m.waitFor name state tries left).run.run h) := by
  induction left generalizing h with
  | zero => exact .exhausted (fun j hj => absurd hj (Nat.not_lt_zero j)) (.refl h)
  | succ left ih =>
    have hbefore : ∀ j < 0, (h.control.reply (queryWords name) j).Other state :=
      fun j hj => absurd hj (Nat.not_lt_zero j)
    have hran := h.spent_ran (queryWords name)
    unfold waitFor
    rw [run_bind]
    by_cases hknown : ∃ current, (h.control.run (queryWords name)).1.Reports current
    · obtain ⟨current, hcurrent⟩ := hknown
      rw [queryState_reports hm hcurrent]
      dsimp only
      by_cases hsame : current = state
      · rw [if_pos hsame]
        exact .reached (Nat.succ_pos _) ⟨hbefore, hsame ▸ hcurrent⟩ hran
      · have hagain : ∀ (level : LogLevel) (message : Text),
            Waited m name state h (left + 1)
              ((do
                Host.sleep m.trySleep
                m.waitFor name state tries left).run.run
                  ((h.ran program (queryWords name)).logged level message)) := by
          intro level message
          have hlogged := hran.trans (Host.spent_logged _ level message)
          have hspent := hlogged.trans (Host.spent_pause _ m.trySleep)
          rw [run_bind, Host.run_sleep (hlogged.clock ▸ hclock)]
          apply Waited.again hspent (hcurrent.other hsame)
          apply ih (hspent.clock ▸ hclock)
          intro j hj
          exact hspent.reply j ▸ hbroken (j + 1) (Nat.succ_lt_succ hj)
        rw [if_neg hsame, run_bind, Host.run_log]
        exact hagain _ _
    · obtain ⟨fault, hrun⟩ := queryState_unknown hm (hbroken 0 (Nat.succ_pos _))
        (not_exists.mp hknown)
      rw [hrun]
      exact .unknown (Nat.succ_pos _) hbefore (not_exists.mp hknown) hran

/-- How a command ends that is to bring a service to a state. What the command itself came to
decides whether the service is asked for its state. -/
structure Brought (m : ServiceManager) (name : Text) (words : List Text) (state : Text)
    (already : Int) (limit : Nat) (first : Host) (ended : Except Failure Unit × Host) : Prop where
  /-- It succeeds exactly if the command goes through and the state is reached. -/
  succeeds_iff : ended.1 = .ok () ↔ (first.control.run words).1.Accepted [already] ∧
    ∃ i < limit, ReachedAt state ((first.control.run words).2.reply (queryWords name)) i
  /-- Then the query that reports it is the last, and a pause was made behind each before. -/
  succeeded : ended.1 = .ok () → ∀ i < limit,
    ReachedAt state ((first.control.run words).2.reply (queryWords name)) i →
      first.Spent (words :: List.replicate (i + 1) (queryWords name)) (List.replicate i m.trySleep)
        ended.2
  /-- It fails in one way, and what decides that is the last that is run: the command, a query that
  reports no state or the last query that is allowed. -/
  failed : ended.1 ≠ .ok () → ∃ fault k p, ended.1 = .error (.service fault) ∧ k ≤ limit ∧
    p ≤ limit ∧
    first.Spent (words :: List.replicate k (queryWords name)) (List.replicate p m.trySleep)
      ended.2 ∧
    (k = 0 ∧ p = 0 ∧ ¬ (first.control.run words).1.Accepted [already] ∨
      (first.control.run words).1.Accepted [already] ∧
        (∀ j < p, ((first.control.run words).2.reply (queryWords name) j).Other state) ∧
        (k = limit ∧ p = limit ∨
          k = p + 1 ∧ ∀ current,
            ¬ ((first.control.run words).2.reply (queryWords name) p).Reports current))

theorem Brought.of_refused {already : Int} {limit : Nat} {fault : ServiceFault}
    (hnot : ¬ (first.control.run words).1.Accepted [already]) (hspent : first.Spent [words] [] h) :
    Brought m name words state already limit first (.error (.service fault), h) where
  succeeds_iff := iff_of_false nofun fun haccepted => hnot haccepted.1
  succeeded := nofun
  failed _ := ⟨fault, 0, 0, rfl, Nat.zero_le _, Nat.zero_le _, hspent, .inl ⟨rfl, rfl, hnot⟩⟩

theorem Brought.of_waited {already : Int} {limit : Nat} {ended : Except Failure Unit × Host}
    (haccepted : (first.control.run words).1.Accepted [already])
    (hspent : first.Spent [words] [] h) (hwaited : Waited m name state h limit ended) :
    Brought m name words state already limit first ended := by
  have hreply : h.control.reply = (first.control.run words).2.reply := by
    rw [hspent.control]
    rfl
  cases hwaited with
  | @reached i last hi hreached hlast =>
    rw [hreply] at hreached
    refine ⟨iff_of_true rfl ⟨haccepted, i, hi, hreached⟩, ?_, fun hne => absurd rfl hne⟩
    intro _ k _ hk
    obtain rfl := hreached.unique hk
    exact hspent.trans hlast
  | @unknown i fault last hi hbefore hnone hlast =>
    rw [hreply] at hbefore hnone
    refine ⟨iff_of_false nofun ?_, nofun, fun _ => ?_⟩
    · rintro ⟨-, k, -, hk⟩
      exact not_reachedAt_of_none hbefore hnone hk
    · exact ⟨fault, i + 1, i, rfl, hi, Nat.le_of_lt hi, hspent.trans hlast,
        .inr ⟨haccepted, hbefore, .inr ⟨rfl, hnone⟩⟩⟩
  | exhausted hothers hlast =>
    rw [hreply] at hothers
    refine ⟨iff_of_false nofun ?_, nofun, fun _ => ?_⟩
    · rintro ⟨-, k, hk, hreached⟩
      exact hreached.2.not_other (hothers k hk)
    · exact ⟨_, limit, limit, rfl, Nat.le_refl _, Nat.le_refl _, hspent.trans hlast,
        .inr ⟨haccepted, hothers, .inl ⟨rfl, rfl⟩⟩⟩

/-- A command that is to bring a service to a state, and the waiting for that. -/
theorem brought_bring (hm : m.connected = true) {n : Int} (htries : m.tries.asCount? = some n)
    (hclock : first.clock.refusal? m.trySleep = none) (level : LogLevel) (message : Text)
    (already : Int)
    (hgiven : (first.control.run words).1 ≠ .broken)
    (hasked : ∀ j < n.toNat, (first.control.run words).2.reply (queryWords name) j ≠ .broken) :
    Brought m name words state already n.toNat first
      ((do
        Host.log level message
        let _ ← m.run words [already]
        m.waitForState name state).run.run first) := by
  obtain ⟨-, hcontrol, -⟩ := first.logged_kept level message
  have hran := (first.spent_logged level message).trans (Host.spent_ran _ words)
  rw [run_bind, Host.run_log]
  dsimp only
  rw [← hcontrol] at hgiven
  rw [run_bind]
  by_cases haccepted : (first.control.run words).1.Accepted [already]
  · obtain ⟨code, output, hreply, hcode⟩ := haccepted
    rw [run_accepted hm (hcontrol.symm ▸ hreply) hcode]
    apply Brought.of_waited ⟨code, output, hreply, hcode⟩ hran
    unfold waitForState
    rw [htries]
    apply waited_waitFor hm _ _ (hran.clock ▸ hclock)
    rw [hran.control]
    exact hasked
  · obtain ⟨fault, hrun⟩ := run_refused hm hgiven (hcontrol.symm ▸ haccepted)
    rw [hrun]
    exact .of_refused haccepted hran

/-- What starting and stopping a service comes to, for any results of the commands and any pause
that the clock takes. -/
theorem start_stop_exact (hm : m.connected = true) {n : Int} (htries : m.tries.asCount? = some n)
    (h : Host) (hclock : h.clock.refusal? m.trySleep = none) (name : Text) :
    ((h.control.run (stopWords name)).1 ≠ .broken →
      (∀ j < n.toNat, (h.control.run (stopWords name)).2.reply (queryWords name) j ≠ .broken) →
        Brought m name (stopWords name) ServiceState.stopped notActive n.toNat h
          ((m.stop name).run.run h)) ∧
    ((h.control.run (startWords name)).1 ≠ .broken →
      (∀ j < n.toNat, (h.control.run (startWords name)).2.reply (queryWords name) j ≠ .broken) →
        Brought m name (startWords name) ServiceState.running alreadyRunning n.toNat h
          ((m.start name).run.run h)) := by
  constructor
  · intro hgiven hasked
    exact brought_bring hm htries hclock .info _ _ hgiven hasked
  · intro hgiven hasked
    exact brought_bring hm htries hclock .info _ _ hgiven hasked

/-- A manager that asks twice. -/
def briefManager : ServiceManager := ⟨.int 30, .int 2, .int 5, true⟩

/-- A control under which a service runs at the second query. -/
def startingHost : Host :=
  { Host.empty with
    clock := .usual
    control := .script [.finished 0 [], .finished 0 (text "STATE : 2 START_PENDING"),
      .finished 0 (text "STATE : 4 RUNNING")] }

/-- There the service is started with one pause, and not stopped. -/
theorem start_stop_exact_starting :
    briefManager.connected = true ∧ briefManager.tries.asCount? = some 2 ∧
      startingHost.clock.refusal? briefManager.trySleep = none ∧
      ((briefManager.start (text "k")).run.run startingHost).1 = .ok () ∧
      startingHost.Spent
        [startWords (text "k"), queryWords (text "k"), queryWords (text "k")] [.int 5]
        ((briefManager.start (text "k")).run.run startingHost).2 ∧
      ¬ ((briefManager.stop (text "k")).run.run startingHost).1 = .ok () := by
  obtain ⟨hstop, hstart⟩ :=
    start_stop_exact (m := briefManager) rfl (n := 2) rfl startingHost rfl (text "k")
  have hstarted := hstart (by decide) (by decide)
  have hstopped := hstop (by decide) (by decide)
  have hpending : (ProcessResult.finished 0 (text "STATE : 2 START_PENDING")).Reports
      (text "START_PENDING") := ⟨_, rfl, by decide +kernel⟩
  have hrunning : (ProcessResult.finished 0 (text "STATE : 4 RUNNING")).Reports
      ServiceState.running := ⟨_, rfl, by decide +kernel⟩
  have hreached : ReachedAt ServiceState.running
      ((startingHost.control.run (startWords (text "k"))).2.reply (queryWords (text "k"))) 1 := by
    refine ⟨?_, hrunning⟩
    intro j hj
    obtain rfl : j = 0 := Nat.lt_one_iff.mp hj
    exact hpending.other (by decide)
  have hok := hstarted.succeeds_iff.mpr ⟨⟨0, [], rfl, .inl rfl⟩, 1, by decide, hreached⟩
  refine ⟨rfl, rfl, rfl, hok, hstarted.succeeded hok 1 (by decide) hreached, ?_⟩
  intro hok'
  obtain ⟨-, i, hi, -, hreports⟩ := hstopped.succeeds_iff.mp hok'
  match i, hi with
  | 0, _ => exact absurd (hreports.unique hpending) (by decide)
  | 1, _ => exact absurd (hreports.unique hrunning) (by decide)

end ServiceManager

end NodeBootstrap
