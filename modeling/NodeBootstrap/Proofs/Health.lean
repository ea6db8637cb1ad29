import NodeBootstrap.Health
import NodeBootstrap.Proofs.Service.Dialogue

/-!
# Asking for the health of the kubelet

The kubelet is asked until an answer decides: that of a healthy kubelet ends the asking with success,
and a request that breaks off lets the failure through. `Health.poll_exact` says for any answers how
the asking ends, and how many requests and pauses it has made by then: one request for each answer
that was looked at and one pause between each two of them. The record of the host has them in their
order (`Health.inTurn`), so no pause is behind the last request.

The answers are as many as a host has; behind them the kubelet cannot be reached
(`Health.answerAt`). The length of the pauses is one that the clock takes.
-/

set_option autoImplicit false

namespace NodeBootstrap.Health

/-- The answer to a request by its number. When the answers are used up, the kubelet cannot be
reached. -/
def answerAt (responses : List Response) (j : Nat) : Response :=
  responses[j]?.getD (.unreachable (text "ConnectionError"))

/-- An answer that ends the asking. -/
def Decides (response : Response) : Prop := response = .status healthyStatus ∨ response = .broken

instance (response : Response) : Decidable (Decides response) :=
  inferInstanceAs (Decidable (_ ∨ _))

/-- Each of `p` requests with a pause behind it, and then those that are left of `k` requests; of
`p + 1` requests that is the last one, with nothing behind it. -/
def inTurn (request pause : Deed) (k p : Nat) : List Deed :=
  (List.replicate p [request, pause]).flatten ++ List.replicate (k - p) request

/-- A host on which the kubelet was asked `k` times since another, with `p` pauses. -/
structure Asked (endpoint trySleep timeout : Value) (first : Host) (k p : Nat) (h : Host) :
    Prop where
  requests : h.requests = first.requests ++ List.replicate k (endpoint, timeout)
  sleeps : h.sleeps = first.sleeps ++ List.replicate p trySleep
  deeds : h.deeds = first.deeds ++ inTurn (.request endpoint timeout) (.pause trySleep) k p
  /-- No other answers have been looked at. -/
  responses : h.responses = first.responses.drop k
  calls : h.calls = first.calls
  control : h.control = first.control
  clock : h.clock = first.clock

/-- How the asking ends, by the answer that decides. -/
inductive Verdict (endpoint trySleep timeout : Value) (first : Host) (tries : Nat) :
    Except Failure Bool × Host → Prop
  | healthy {i : Nat} {last : Host} (hi : i < tries)
    (hbefore : ∀ j < i, ¬ Decides (answerAt first.responses j))
    (hanswer : answerAt first.responses i = .status healthyStatus)
    (hasked : Asked endpoint trySleep timeout first (i + 1) i last) :
    Verdict endpoint trySleep timeout first tries (.ok true, last)
  | broken {i : Nat} {last : Host} (hi : i < tries)
    (hbefore : ∀ j < i, ¬ Decides (answerAt first.responses j))
    (hanswer : answerAt first.responses i = .broken)
    (hasked : Asked endpoint trySleep timeout first (i + 1) i last) :
    Verdict endpoint trySleep timeout first tries (.error .environment, last)
  | unhealthy {last : Host} (hnone : ∀ j < tries, ¬ Decides (answerAt first.responses j))
    (hasked : Asked endpoint trySleep timeout first tries (tries - 1) last) :
    Verdict endpoint trySleep timeout first tries (.ok false, last)

variable {endpoint trials trySleep timeout : Value} {first h h' : Host} {k p tries : Nat}

/-! ## What is recorded -/

theorem answerAt_tail (responses : List Response) (j : Nat) :
    answerAt responses.tail j = answerAt responses (j + 1) := by
  rw [answerAt, answerAt, List.getElem?_tail]

theorem answerAt_zero (responses : List Response) :
    responses.headD (.unreachable (text "ConnectionError")) = answerAt responses 0 := by
  cases responses <;> rfl

theorem inTurn_succ (request pause : Deed) (k p : Nat) :
    inTurn request pause (k + 1) (p + 1) = [request, pause] ++ inTurn request pause k p := by
  rw [inTurn, inTurn, List.replicate_succ, List.flatten_cons, List.append_assoc,
    Nat.add_sub_add_right]

theorem Asked.refl (h : Host) : Asked endpoint trySleep timeout h 0 0 h :=
  ⟨(List.append_nil _).symm, (List.append_nil _).symm, (List.append_nil _).symm, rfl, rfl, rfl, rfl⟩

/-- Asking goes on behind a request and a pause. -/
theorem Asked.trans (h₁ : Asked endpoint trySleep timeout first 1 1 h)
    (h₂ : Asked endpoint trySleep timeout h k p h') :
    Asked endpoint trySleep timeout first (k + 1) (p + 1) h' where
  requests := by rw [h₂.requests, h₁.requests, List.append_assoc]; rfl
  sleeps := by rw [h₂.sleeps, h₁.sleeps, List.append_assoc]; rfl
  deeds := by rw [h₂.deeds, h₁.deeds, List.append_assoc, inTurn_succ _ _ k p]; rfl
  responses := by rw [h₂.responses, h₁.responses, List.drop_drop, Nat.add_comm]
  calls := h₂.calls.trans h₁.calls
  control := h₂.control.trans h₁.control
  clock := h₂.clock.trans h₁.clock

/-- A log line is neither a request nor a pause. -/
theorem Asked.logged (ha : Asked endpoint trySleep timeout first k p h) (level : LogLevel)
    (message : Text) : Asked endpoint trySleep timeout first k p (h.logged level message) := by
  obtain ⟨hcalls, hcontrol, hresponses, hclock⟩ := h.logged_kept level message
  obtain ⟨hsleeps, hrequests, hdeeds⟩ := h.logged_record level message
  exact ⟨hrequests.trans ha.requests, hsleeps.trans ha.sleeps, hdeeds.trans ha.deeds,
    hresponses.trans ha.responses, hcalls.trans ha.calls, hcontrol.trans ha.control,
    hclock.trans ha.clock⟩

/-- A pause behind the only request so far. -/
theorem Asked.paused (ha : Asked endpoint trySleep timeout first 1 0 h) :
    Asked endpoint trySleep timeout first 1 1 (h.paused trySleep) where
  requests := ha.requests
  sleeps := by rw [Host.paused, ha.sleeps, List.append_assoc]; rfl
  deeds := by rw [Host.paused, ha.deeds, List.append_assoc]; rfl
  responses := ha.responses
  calls := ha.calls
  control := ha.control
  clock := ha.clock

theorem asked_requested (endpoint trySleep timeout : Value) (h : Host) :
    Asked endpoint trySleep timeout h 1 0 (h.requested endpoint timeout) :=
  ⟨rfl, (List.append_nil _).symm, rfl, List.drop_one.symm, rfl, rfl, rfl⟩

/-- A request takes the next answer. -/
theorem run_request (endpoint timeout : Value) (h : Host) :
    (Host.request endpoint timeout).run.run h =
      (.ok (answerAt h.responses 0), h.requested endpoint timeout) := by
  rw [← answerAt_zero]
  rfl

/-! ## The course of the asking -/

/-- Where the first answer does not decide, the others do. -/
theorem Verdict.again {ended : Except Failure Bool × Host} (hmore : 0 < tries)
    (hasked : Asked endpoint trySleep timeout first 1 1 h)
    (hundecided : ¬ Decides (answerAt first.responses 0))
    (hrest : Verdict endpoint trySleep timeout h tries ended) :
    Verdict endpoint trySleep timeout first (tries + 1) ended := by
  have hanswer : ∀ j, answerAt h.responses j = answerAt first.responses (j + 1) := by
    intro j
    rw [hasked.responses, List.drop_one, answerAt_tail]
  have hbefore : ∀ {n : Nat}, (∀ j < n, ¬ Decides (answerAt h.responses j)) →
      ∀ j < n + 1, ¬ Decides (answerAt first.responses j) := by
    intro n hn
    rw [Nat.forall_lt_succ_left]
    exact ⟨hundecided, fun j hj => hanswer j ▸ hn j hj⟩
  cases hrest with
  | @healthy i last hi hnone hhealthy hlast =>
    exact .healthy (Nat.succ_lt_succ hi) (hbefore hnone) (hanswer i ▸ hhealthy)
      (hasked.trans hlast)
  | @broken i last hi hnone hbroken hlast =>
    exact .broken (Nat.succ_lt_succ hi) (hbefore hnone) (hanswer i ▸ hbroken) (hasked.trans hlast)
  | unhealthy hnone hlast =>
    have hall := hasked.trans hlast
    rw [Nat.sub_add_cancel hmore] at hall
    exact .unhealthy (hbefore hnone) hall

theorem verdict_pollFrom (endpoint trySleep timeout : Value) (tries : Nat) (h : Host)
    (hclock : h.clock.refusal? trySleep = none) :
    Verdict endpoint trySleep timeout h tries
      ((pollFrom endpoint trySleep timeout tries).run.run h) := by
  induction tries generalizing h with
  | zero => exact .unhealthy (fun j hj => absurd hj (Nat.not_lt_zero j)) (.refl h)
  | succ tries ih =>
    have hasked := asked_requested endpoint trySleep timeout h
    generalize hafter : h.requested endpoint timeout = asked at hasked
    have hagain : ∀ (level : LogLevel) (message : Text),
        ¬ Decides (answerAt h.responses 0) →
          Verdict endpoint trySleep timeout h (tries + 1)
            ((do
              if 0 < tries then Host.sleep trySleep
              pollFrom endpoint trySleep timeout tries).run.run (asked.logged level message)) := by
      intro level message hundecided
      have hlogged := hasked.logged level message
      by_cases hmore : 0 < tries
      · have hpaused := hlogged.paused
        rw [if_pos hmore, run_bind, Host.run_sleep (hlogged.clock ▸ hclock)]
        exact .again hmore hpaused hundecided (ih _ (hpaused.clock ▸ hclock))
      · obtain rfl : tries = 0 := Nat.eq_zero_of_not_pos hmore
        rw [if_neg hmore]
        exact .unhealthy (Nat.forall_lt_succ_left.mpr ⟨hundecided, nofun⟩) hlogged
    rw [pollFrom, run_bind, run_request, hafter]
    dsimp only
    cases hanswer : answerAt h.responses 0 with
    | broken =>
      exact .broken (Nat.succ_pos _) (fun j hj => absurd hj (Nat.not_lt_zero j)) hanswer hasked
    | unreachable kind =>
      rw [run_bind, Host.run_log]
      apply hagain
      rw [hanswer]
      simp [Decides]
    | status code =>
      dsimp only
      split
      next hcode =>
        subst hcode
        exact .healthy (Nat.succ_pos _) (fun j hj => absurd hj (Nat.not_lt_zero j)) hanswer
          (hasked.logged .info (text "Kubelet is healthy"))
      next hcode =>
        rw [run_bind, Host.run_log]
        apply hagain
        rw [hanswer]
        simp [Decides, hcode]

theorem verdict_poll {n : Int} (htries : trials.asCount? = some n) (h : Host)
    (hclock : h.clock.refusal? trySleep = none) :
    Verdict endpoint trySleep timeout h n.toNat
      ((poll endpoint trials trySleep timeout).run.run h) := by
  have hverdict := verdict_pollFrom endpoint trySleep timeout n.toNat h hclock
  unfold poll
  rw [htries]
  dsimp only
  rw [run_bind]
  generalize (pollFrom endpoint trySleep timeout n.toNat).run.run h = ended at hverdict ⊢
  cases hverdict with
  | healthy hi hbefore hanswer hasked => exact .healthy hi hbefore hanswer hasked
  | broken hi hbefore hanswer hasked => exact .broken hi hbefore hanswer hasked
  | unhealthy hnone hasked => exact .unhealthy hnone (hasked.logged .error _)

/-! ## What the answers decide -/

section Verdict

variable {ended : Except Failure Bool × Host} {i : Nat}

/-- The first answer of a healthy kubelet ends the asking. -/
theorem Verdict.of_healthy (hverdict : Verdict endpoint trySleep timeout first tries ended)
    (hi : i < tries) (hanswer : answerAt first.responses i = .status healthyStatus)
    (hbefore : ∀ j < i, ¬ Decides (answerAt first.responses j)) :
    ended.1 = .ok true ∧ Asked endpoint trySleep timeout first (i + 1) i ended.2 := by
  cases hverdict with
  | healthy _ hbefore' hanswer' hasked =>
    obtain rfl := first_unique (.inl hanswer) hbefore (.inl hanswer') hbefore'
    exact ⟨rfl, hasked⟩
  | broken _ hbefore' hanswer' _ =>
    obtain rfl := first_unique (.inl hanswer) hbefore (.inr hanswer') hbefore'
    cases hanswer.symm.trans hanswer'
  | unhealthy hnone _ => exact absurd (.inl hanswer) (hnone i hi)

/-- A request that breaks off lets its failure through. -/
theorem Verdict.of_broken (hverdict : Verdict endpoint trySleep timeout first tries ended)
    (hi : i < tries) (hanswer : answerAt first.responses i = .broken)
    (hbefore : ∀ j < i, ¬ Decides (answerAt first.responses j)) :
    ended.1 = .error .environment ∧ Asked endpoint trySleep timeout first (i + 1) i ended.2 := by
  cases hverdict with
  | healthy _ hbefore' hanswer' _ =>
    obtain rfl := first_unique (.inr hanswer) hbefore (.inl hanswer') hbefore'
    cases hanswer.symm.trans hanswer'
  | broken _ hbefore' hanswer' hasked =>
    obtain rfl := first_unique (.inr hanswer) hbefore (.inr hanswer') hbefore'
    exact ⟨rfl, hasked⟩
  | unhealthy hnone _ => exact absurd (.inr hanswer) (hnone i hi)

theorem Verdict.of_undecided (hverdict : Verdict endpoint trySleep timeout first tries ended)
    (hnone : ∀ j < tries, ¬ Decides (answerAt first.responses j)) :
    ended.1 = .ok false ∧ Asked endpoint trySleep timeout first tries (tries - 1) ended.2 := by
  cases hverdict with
  | healthy hi _ hanswer _ => exact absurd (.inl hanswer) (hnone _ hi)
  | broken hi _ hanswer _ => exact absurd (.inr hanswer) (hnone _ hi)
  | unhealthy _ hasked => exact ⟨rfl, hasked⟩

/-- The kubelet is found healthy exactly if it answers so before a request breaks off. -/
theorem Verdict.healthy_iff (hverdict : Verdict endpoint trySleep timeout first tries ended) :
    ended.1 = .ok true ↔ ∃ i < tries, answerAt first.responses i = .status healthyStatus ∧
      ∀ j < i, answerAt first.responses j ≠ .broken := by
  cases hverdict with
  | healthy hi hbefore hanswer _ =>
    refine iff_of_true rfl ⟨_, hi, hanswer, ?_⟩
    intro j hj hbroken
    exact hbefore j hj (.inr hbroken)
  | @broken k _ hi hbefore hanswer _ =>
    refine iff_of_false nofun ?_
    rintro ⟨i, _, hhealthy, hunbroken⟩
    rcases Nat.lt_trichotomy i k with hlt | rfl | hlt
    · exact hbefore i hlt (.inl hhealthy)
    · cases hhealthy.symm.trans hanswer
    · exact hunbroken k hlt hanswer
  | unhealthy hnone _ =>
    refine iff_of_false nofun ?_
    rintro ⟨i, hi, hhealthy, -⟩
    exact hnone i hi (.inl hhealthy)

end Verdict

/-- How asking for the health of the kubelet ends, and what was done by then, in its order: requests
with a pause between each two, and none behind the last. -/
theorem poll_exact {n : Int} (htries : trials.asCount? = some n) (h : Host)
    (hclock : h.clock.refusal? trySleep = none) :
    let answer := answerAt h.responses
    let ended := (poll endpoint trials trySleep timeout).run.run h
    (ended.1 = .ok true ↔ ∃ i < n.toNat, answer i = .status healthyStatus ∧
      ∀ j < i, answer j ≠ .broken) ∧
    (∀ i < n.toNat, answer i = .status healthyStatus → (∀ j < i, ¬ Decides (answer j)) →
      ended.1 = .ok true ∧ Asked endpoint trySleep timeout h (i + 1) i ended.2) ∧
    ((∀ j < n.toNat, ¬ Decides (answer j)) →
      ended.1 = .ok false ∧ Asked endpoint trySleep timeout h n.toNat (n - 1).toNat ended.2) ∧
    (∀ i < n.toNat, answer i = .broken → (∀ j < i, ¬ Decides (answer j)) →
      ended.1 = .error .environment ∧
        Asked endpoint trySleep timeout h (i + 1) i ended.2) := by
  intro answer ended
  have hverdict : Verdict endpoint trySleep timeout h n.toNat ended :=
    verdict_poll htries h hclock
  have hpauses : (n - 1).toNat = n.toNat - 1 := by omega
  refine ⟨hverdict.healthy_iff, ?_, ?_, ?_⟩
  · intro i hi hanswer hbefore
    exact hverdict.of_healthy hi hanswer hbefore
  · intro hnone
    rw [hpauses]
    exact hverdict.of_undecided hnone
  · intro i hi hanswer hbefore
    exact hverdict.of_broken hi hanswer hbefore

/-- A host whose kubelet starts slowly: it is healthy at the third request. -/
def slowHost : Host :=
  { Host.empty with
    clock := .usual
    responses := [.unreachable (text "ConnectTimeout"), .status 503, .status 200, .broken] }

/-- Of five requests three are made, with a pause between each two. -/
theorem poll_exact_slow :
    (Value.int 5).asCount? = some 5 ∧ slowHost.clock.refusal? (.int 30) = none ∧
      ((poll .null (.int 5) (.int 30) .null).run.run slowHost).1 = .ok true ∧
      Asked .null (.int 30) .null slowHost 3 2
        ((poll .null (.int 5) (.int 30) .null).run.run slowHost).2 := by
  refine ⟨rfl, rfl, ?_⟩
  have hexact := @poll_exact .null (.int 5) (.int 30) .null 5 rfl slowHost rfl
  apply hexact.2.1 2 (by decide) rfl
  decide

end NodeBootstrap.Health
