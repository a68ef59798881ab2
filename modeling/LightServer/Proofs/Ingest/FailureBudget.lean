import LightServer.Proofs.Ingest.Ledger

/-!
# The budget of failures

Failed fetches and failed offers draw on one budget, which each stored block
refills by one, and which is carried from round to round. The failures that are
counted are a fold over the calls of a round, `unforgiven`, so that the calls
alone tell when a round is abandoned. A failure that is not counted any more was
forgiven for a stored block of its own. From this comes the bound on the failures
of a round, however failures, blocks and reorgs follow each other in it.
-/

namespace LightServer.Ingest

namespace Call

def isFailure : Call → Bool
  | fetched _ (.error _) => true
  | offered _ (.error (.encoding _ _)) => true
  | _ => false

def isStore : Call → Bool
  | offered _ (.ok (.stored _)) => true
  | _ => false

/-- A failure is counted, and a stored block makes up for one. -/
def charge (k : Nat) (call : Call) : Nat :=
  if call.isFailure then k + 1 else if call.isStore then k - 1 else k

end Call

def failures (calls : List Call) : Nat := calls.countP Call.isFailure

def stores (calls : List Call) : Nat := calls.countP Call.isStore

/-- The number of failures that no stored block has made up for, of `k` that were counted before
the calls and those among them. -/
def unforgiven (k : Nat) (calls : List Call) : Nat := calls.foldl Call.charge k

/-- Between the turns of one round there is no rest. -/
def Unrested {ω : Type} (_ _ : ω) : Prop := False

variable {ω : Type} {c : Config} {env : Environment ω} {rests : ω → ω → Prop} {s s' s₀ : State}
  {w w' w₀ : ω} {v v' : ω × List Call} {t : Turn} {start fuel k : Nat} {calls : List Call}
  {call : Call} {result : Except Error Outcome}

section Calls

theorem failures_cons (call : Call) (calls : List Call) :
    failures (call :: calls) = failures calls + if call.isFailure then 1 else 0 :=
  List.countP_cons

theorem stores_cons (call : Call) (calls : List Call) :
    stores (call :: calls) = stores calls + if call.isStore then 1 else 0 :=
  List.countP_cons

theorem unforgiven_cons (k : Nat) (call : Call) (calls : List Call) :
    unforgiven k (call :: calls) = unforgiven (call.charge k) calls := rfl

theorem unforgiven_append (k : Nat) (calls calls' : List Call) :
    unforgiven k (calls ++ calls') = unforgiven (unforgiven k calls) calls' :=
  List.foldl_append

theorem Call.isStore_eq_false (h : call.isFailure = true) : call.isStore = false := by
  rcases call with ⟨_, _ | _⟩ | ⟨_, (_ | _) | _ | _⟩ <;> first | rfl | cases h

theorem Call.charge_failure (k : Nat) (h : call.isFailure = true) : call.charge k = k + 1 :=
  if_pos h

theorem Call.charge_store (k : Nat) (hfailure : call.isFailure = false)
    (hstore : call.isStore = true) : call.charge k = k - 1 := by
  rw [charge, hfailure, hstore]
  rfl

theorem Call.charge_other (k : Nat) (hfailure : call.isFailure = false)
    (hstore : call.isStore = false) : call.charge k = k := by
  rw [charge, hfailure, hstore]
  rfl

/-- Each failure is still counted, or there is a stored block that made up for it. -/
theorem failures_add_le (k : Nat) (calls : List Call) :
    failures calls + k ≤ unforgiven k calls + stores calls := by
  induction calls generalizing k with
  | nil => exact Nat.le_of_eq (Nat.zero_add k)
  | cons call calls ih =>
      have h := ih (call.charge k)
      rw [failures_cons, stores_cons, unforgiven_cons]
      cases hfailure : call.isFailure with
      | true =>
          rw [call.charge_failure k hfailure] at h ⊢
          simp only [call.isStore_eq_false hfailure, if_true, Bool.false_eq_true, if_false]
          omega
      | false =>
          cases hstore : call.isStore with
          | true =>
              rw [call.charge_store k hfailure hstore] at h ⊢
              simp only [if_true, Bool.false_eq_true, if_false]
              omega
          | false =>
              rw [call.charge_other k hfailure hstore] at h ⊢
              simp only [Bool.false_eq_true, if_false]
              omega

/-- Without a stored block nothing is forgiven. -/
theorem unforgiven_of_stores_eq_zero (k : Nat) (hstores : stores calls = 0) :
    unforgiven k calls = k + failures calls := by
  induction calls generalizing k with
  | nil => rfl
  | cons call calls ih =>
      rw [stores_cons, Nat.add_eq_zero_iff] at hstores
      have hstore : call.isStore = false := by simpa using hstores.2
      rw [unforgiven_cons, ih _ hstores.1, failures_cons]
      cases hfailure : call.isFailure with
      | true =>
          rw [call.charge_failure k hfailure, if_pos rfl]
          omega
      | false =>
          rw [call.charge_other k hfailure hstore, if_neg Bool.false_ne_true]
          omega

/-- Without a failure each stored block forgives one of before. -/
theorem unforgiven_of_failures_eq_zero (k : Nat) (hfailures : failures calls = 0) :
    unforgiven k calls = k - stores calls := by
  induction calls generalizing k with
  | nil => rfl
  | cons call calls ih =>
      rw [failures_cons, Nat.add_eq_zero_iff] at hfailures
      have hfailure : call.isFailure = false := by simpa using hfailures.2
      rw [unforgiven_cons, ih _ hfailures.1, stores_cons]
      cases hstore : call.isStore with
      | true =>
          rw [call.charge_store k hfailure hstore, if_pos rfl]
          omega
      | false =>
          rw [call.charge_other k hfailure hstore, if_neg Bool.false_ne_true]
          omega

end Calls

def isAbandoned : Except Error Outcome → Bool
  | .ok .abandoned => true
  | _ => false

def Turn.isAbandoned : Turn → Bool
  | goOn _ => false
  | finished result _ => Ingest.isAbandoned result

def State.retry (step k : Nat) (s : State) : State := { s.rewind step with failureCount := k }

inductive Charged (c : Config) (s : State) : List Call → Turn → Prop where
  | failed {calls : List Call} (hfailures : failures calls = 1) (hstores : stores calls = 0)
      (hleft : s.failureCount + 1 < c.maxFailures) :
      Charged c s calls (.goOn (s.retry c.rewindStep (s.failureCount + 1)))
  | abandoned {calls : List Call} (hfailures : failures calls = 1) (hstores : stores calls = 0)
      (hspent : s.failureCount + 1 = c.maxFailures) :
      Charged c s calls (.finished (.ok .abandoned) (s.retry c.rewindStep 0))
  | stored {calls : List Call} (hfailures : failures calls = 0) (hstores : stores calls = 1) :
      Charged c s calls (.goOn (s.rewind c.rewindStep).stored)
  | passed {calls : List Call} {t : Turn} (hfailures : failures calls = 0)
      (hstores : stores calls = 0) (hsame : t.state.failureCount = s.failureCount)
      (hgoes : t.isAbandoned = false) : Charged c s calls t

section Turns

theorem State.height_retry (step k : Nat) (s : State) :
    (s.retry step k).height = (s.rewind step).height := rfl

theorem State.rewind_retry (step k : Nat) (s : State) :
    (s.retry step k).rewind step = s.retry step k := by
  have hpending : (s.retry step k).rewindPending = false := rewindPending_rewind step s
  exact rewind_of_not_pending hpending step

/-- A failure abandons the round exactly when it uses up what is left of the budget. -/
theorem afterFailure_rewind (hleft : s.failureCount < c.maxFailures) :
    (s.failureCount + 1 = c.maxFailures ∧ afterFailure c (s.rewind c.rewindStep) =
      .finished (.ok .abandoned) (s.retry c.rewindStep 0)) ∨
    (s.failureCount + 1 < c.maxFailures ∧ afterFailure c (s.rewind c.rewindStep) =
      .goOn (s.retry c.rewindStep (s.failureCount + 1))) := by
  have hcount : (s.rewind c.rewindStep).failure.failureCount = s.failureCount + 1 := by
    rw [State.failure, State.failureCount_rewind]
  unfold afterFailure
  rw [hcount]
  split
  next hspent => exact .inl ⟨Nat.le_antisymm hleft hspent, rfl⟩
  next hmore =>
    rw [State.failure, State.failureCount_rewind]
    exact .inr ⟨Nat.not_le.mp hmore, rfl⟩

theorem Charged.of_afterFailure (hfailures : failures calls = 1) (hstores : stores calls = 0)
    (hleft : s.failureCount < c.maxFailures) :
    Charged c s calls (afterFailure c (s.rewind c.rewindStep)) := by
  rcases afterFailure_rewind hleft with ⟨hspent, h⟩ | ⟨hmore, h⟩
  · rw [h]
    exact .abandoned hfailures hstores hspent
  · rw [h]
    exact .failed hfailures hstores hmore

/-- What a turn does to the failures that are counted is in its calls. -/
theorem exists_charged_of_turn (hleft : s.failureCount < c.maxFailures)
    (hturn : turn c env.noting s v = (t, v')) :
    ∃ calls, v'.2 = v.2 ++ calls ∧ Charged c s calls t := by
  have hsame := State.failureCount_rewind c.rewindStep s
  have hcase := turned_of_turn hturn
  cases hcase with
  | stopped => exact ⟨[], (List.append_nil _).symm, .passed rfl rfl rfl rfl⟩
  | tooDeep => exact ⟨[], (List.append_nil _).symm, .passed rfl rfl hsame rfl⟩
  | caughtUp hfetch => exact ⟨_, calls_of_fetch hfetch, .passed rfl rfl hsame rfl⟩
  | @failed v₁ e hfetch =>
      have hcalls : v₁.2 = v.2 ++ [.fetched (s.rewind c.rewindStep).height (.error e)] :=
        calls_of_fetch hfetch
      exact ⟨_, hcalls, .of_afterFailure rfl rfl hleft⟩
  | @offered _ _ b outcome hfetch hadd =>
      let x := (s.rewind c.rewindStep).height
      refine ⟨[.fetched x (.ok (some b)), .offered x outcome], ?_, ?_⟩
      · rw [calls_countSome, calls_of_add hadd, calls_of_fetch hfetch, List.append_assoc]
        rfl
      · rcases outcome with (⟨_, _⟩ | ⟨_, _⟩) | (_ | _)
        · exact .of_afterFailure rfl rfl hleft
        · exact .passed rfl rfl hsame rfl
        · exact .stored rfl rfl
        · exact .passed rfl rfl hsame rfl

/-- What is counted after calls that began with `k` failures: either they have used up the budget,
and the count starts over as the round is abandoned, or the count is theirs, and something is left
of the budget. -/
inductive Settled (c : Config) (k : Nat) (calls : List Call) : Bool → Nat → Prop where
  | spent (hspent : unforgiven k calls = c.maxFailures) : Settled c k calls true 0
  | left (hleft : unforgiven k calls < c.maxFailures) :
      Settled c k calls false (unforgiven k calls)

variable {abandoned : Bool} {m n : Nat} {calls' : List Call}

theorem Settled.lt (h : Settled c k calls abandoned n) (hpos : 0 < c.maxFailures) :
    n < c.maxFailures := by
  cases h with
  | spent => exact hpos
  | left hleft => exact hleft

theorem Settled.eq (h : Settled c k calls abandoned n) :
    n = if abandoned then 0 else unforgiven k calls := by
  cases h <;> rfl

theorem Settled.spent_iff (h : Settled c k calls abandoned n) :
    abandoned = true ↔ unforgiven k calls = c.maxFailures := by
  cases h with
  | spent hspent => exact iff_of_true rfl hspent
  | left hleft => exact iff_of_false Bool.false_ne_true (Nat.ne_of_lt hleft)

/-- A failure beyond what was left of the budget takes a stored block. -/
theorem Settled.failures_le (h : Settled c k calls abandoned n)
    (hk : k < c.maxFailures) : failures calls ≤ c.maxFailures - k + stores calls := by
  have hbudget : unforgiven k calls ≤ c.maxFailures := by
    cases h with
    | spent hspent => exact Nat.le_of_eq hspent
    | left hleft => exact Nat.le_of_lt hleft
  have hfailures := failures_add_le k calls
  omega

/-- As long as the round is not abandoned, the calls that follow are charged on top. -/
theorem Settled.trans (h : Settled c k calls false m) (h' : Settled c m calls' abandoned n) :
    Settled c k (calls ++ calls') abandoned n := by
  cases h with
  | left _ =>
    cases h' with
    | spent hspent => exact .spent (by rw [unforgiven_append, hspent])
    | left hleft =>
        rw [← unforgiven_append] at hleft ⊢
        exact .left hleft

theorem settled_of_eq (hcount : unforgiven k calls = t.state.failureCount)
    (hgoes : t.isAbandoned = false) (hleft : t.state.failureCount < c.maxFailures) :
    Settled c k calls t.isAbandoned t.state.failureCount := by
  rw [hgoes, ← hcount]
  exact .left (hcount ▸ hleft)

theorem Charged.settled (h : Charged c s calls t) (hleft : s.failureCount < c.maxFailures) :
    Settled c s.failureCount calls t.isAbandoned t.state.failureCount := by
  cases h with
  | failed hfailures hstores hmore =>
      have hcount := unforgiven_of_stores_eq_zero s.failureCount hstores
      rw [hfailures] at hcount
      exact settled_of_eq hcount rfl hmore
  | abandoned hfailures hstores hspent =>
      have hcount := unforgiven_of_stores_eq_zero s.failureCount hstores
      rw [hfailures] at hcount
      exact .spent (hcount.trans hspent)
  | stored hfailures hstores =>
      have hcount := unforgiven_of_failures_eq_zero s.failureCount hfailures
      have hstored : (s.rewind c.rewindStep).stored.failureCount = s.failureCount - 1 := by
        rw [State.stored, State.failureCount_rewind]
      rw [hstores] at hcount
      refine settled_of_eq (hcount.trans hstored.symm) rfl ?_
      exact Nat.lt_of_le_of_lt (Nat.le_trans (Nat.le_of_eq hstored) (Nat.sub_le _ 1)) hleft
  | passed hfailures hstores hsame hgoes =>
      have hcount := unforgiven_of_failures_eq_zero s.failureCount hfailures
      rw [hstores] at hcount
      exact settled_of_eq (hcount.trans hsame.symm) hgoes (hsame ▸ hleft)

end Turns

section Rounds

/-- Writing down the calls changes nothing: every turn has its notes. -/
theorem exists_settled_of_turn (hleft : s.failureCount < c.maxFailures)
    (hturn : turn c env s w = (t, w')) (past : List Call) :
    ∃ calls, turn c env.noting s (w, past) = (t, (w', past ++ calls)) ∧
      Charged c s calls t ∧
      Settled c s.failureCount calls t.isAbandoned t.state.failureCount := by
  obtain ⟨all, hnoted⟩ := exists_noting_of_turn hturn past
  obtain ⟨calls, hcalls, hcharged⟩ := exists_charged_of_turn hleft hnoted
  rw [show all = past ++ calls from hcalls] at hnoted
  exact ⟨calls, hnoted, hcharged, hcharged.settled hleft⟩

theorem exists_settled_of_pollRound (hpos : 0 < c.maxFailures)
    (hleft : s.failureCount < c.maxFailures)
    (hround : pollRound c env fuel s w = some (result, s', w')) (past : List Call) :
    ∃ calls, pollRound c env.noting fuel s (w, past) = some (result, s', (w', past ++ calls)) ∧
      Settled c s.failureCount calls (isAbandoned result) s'.failureCount := by
  induction fuel generalizing s w past with
  | zero => cases hround
  | succ fuel ih =>
      unfold pollRound at hround ⊢
      split at hround
      next hturn =>
        cases hround
        obtain ⟨calls, hnoted, -, hsettled⟩ := exists_settled_of_turn hleft hturn past
        rw [hnoted]
        exact ⟨calls, rfl, hsettled⟩
      next s₁ w₁ hturn =>
        obtain ⟨calls, hnoted, -, hsettled⟩ := exists_settled_of_turn hleft hturn past
        obtain ⟨calls', hrest, hsettled'⟩ := ih (hsettled.lt hpos) hround (past ++ calls)
        rw [hnoted]
        rw [List.append_assoc] at hrest
        exact ⟨calls ++ calls', hrest, hsettled.trans hsettled'⟩

theorem Visits.exists_settled (hleft : s₀.failureCount < c.maxFailures)
    (hvisit : Visits c env Unrested s₀ w₀ s w) :
    ∃ calls, Visits c env.noting Unrested s₀ (w₀, []) s (w, calls) ∧
      Settled c s₀.failureCount calls false s.failureCount := by
  induction hvisit with
  | start => exact ⟨[], .start, .left hleft⟩
  | goOn _ hturn ih =>
      obtain ⟨past, hvisit', hpast⟩ := ih
      have hleft' := hpast.lt (Nat.zero_lt_of_lt hleft)
      obtain ⟨calls, hnoted, -, hsettled⟩ := exists_settled_of_turn hleft' hturn past
      exact ⟨past ++ calls, hvisit'.goOn hnoted, hpast.trans hsettled⟩
  | round _ _ hrests => exact hrests.elim

/-- Over all rounds, something is left of the budget whenever a turn begins. -/
theorem Visits.failureCount_lt (hleft : s₀.failureCount < c.maxFailures)
    (hvisit : Visits c env rests s₀ w₀ s w) : s.failureCount < c.maxFailures := by
  have hpos := Nat.zero_lt_of_lt hleft
  induction hvisit with
  | start => exact hleft
  | goOn _ hturn ih =>
      obtain ⟨calls, -, -, hsettled⟩ := exists_settled_of_turn ih hturn []
      exact hsettled.lt hpos
  | round _ hturn _ ih =>
      obtain ⟨calls, -, -, hsettled⟩ := exists_settled_of_turn ih hturn []
      exact hsettled.lt hpos

/-- The block at the height `x` cannot be had, or it is there and cannot be stored. -/
def FailsAt (env : Environment ω) (x : Nat) (w : ω) : Prop :=
  (∃ e, (env.fetch x w).1 = .error e) ∨
    ∃ b w₁ y e, env.fetch x w = (.ok (some b), w₁) ∧ (env.add x b w₁).1 = .error (.encoding y e)

/-- At a height that fails, a turn that gets as far as the fetch is a failure. -/
theorem turn_of_failsAt (hfails : FailsAt env (s.rewind c.rewindStep).height w)
    (hturn : turn c env s w = (t, w')) :
    t = .finished (.ok .stopped) s ∨
      (c.maxReorgRounds < s.reorgCount ∧ ∃ e, t = .finished (.error e) (s.rewind c.rewindStep)) ∨
      t = afterFailure c (s.rewind c.rewindStep) := by
  have hcase := turned_of_turn hturn
  cases hcase with
  | stopped => exact .inl rfl
  | tooDeep hdeep => exact .inr (.inl ⟨hdeep, _, rfl⟩)
  | caughtUp hfetch =>
      rcases hfails with ⟨e, he⟩ | ⟨b, w₁, y, e, hb, -⟩
      · rw [hfetch] at he
        cases he
      · rw [hfetch] at hb
        cases hb
  | failed => exact .inr (.inr rfl)
  | @offered w₁ _ b outcome hfetch hadd =>
      rcases hfails with ⟨e, he⟩ | ⟨b', w₁', y, e, hb, hencoding⟩
      · rw [hfetch] at he
        cases he
      · rw [hfetch] at hb
        cases hb
        rw [hadd] at hencoding
        cases hencoding
        exact .inr (.inr rfl)

/-- A height that fails as often as it is asked for ends the round within what is left of the
budget, and it is the height that the next round asks for. -/
theorem exists_pollRound_of_failsAt (hleft : s.failureCount < c.maxFailures)
    (hfails : ∀ s' w', Visits c env Unrested s w s' w' →
      FailsAt env (s.rewind c.rewindStep).height w') :
    ∃ result s' w',
      pollRound c env (c.maxFailures - s.failureCount) s w = some (result, s', w') ∧
        (s'.rewind c.rewindStep).height = (s.rewind c.rewindStep).height ∧
        (result = .ok .abandoned ∨ result = .ok .stopped ∨ c.maxReorgRounds < s.reorgCount) := by
  -- each failure leaves one less of the budget, and the next turn asks for the same height
  generalize hleeway : c.maxFailures - s.failureCount = n
  induction n generalizing s w with
  | zero => omega
  | succ n ih =>
      rcases hturn : turn c env s w with ⟨t, w₁⟩
      unfold pollRound
      rw [hturn]
      rcases turn_of_failsAt (hfails s w .start) hturn with rfl | ⟨hdeep, e, rfl⟩ | rfl
      · exact ⟨_, _, _, rfl, rfl, .inr (.inl rfl)⟩
      · exact ⟨_, _, _, rfl, by rw [State.rewind_rewind], .inr (.inr hdeep)⟩
      · rcases afterFailure_rewind hleft with ⟨hspent, h⟩ | ⟨hmore, h⟩
        · rw [h]
          exact ⟨_, _, _, rfl, by rw [State.rewind_retry, State.height_retry], .inl rfl⟩
        · rw [h] at hturn ⊢
          have hleeway' : c.maxFailures - (s.failureCount + 1) = n := by omega
          have hfails' : ∀ s' w',
              Visits c env Unrested (s.retry c.rewindStep (s.failureCount + 1)) w₁ s' w' →
                FailsAt env ((s.retry c.rewindStep (s.failureCount + 1)).rewind
                  c.rewindStep).height w' := by
            intro s' w' hvisit
            rw [State.rewind_retry, State.height_retry]
            exact hfails s' w' (hvisit.of_goOn hturn)
          obtain ⟨result, s', w', hround, hheight, hends⟩ := ih hmore hfails' hleeway'
          rw [State.rewind_retry, State.height_retry] at hheight
          refine ⟨result, s', w', hround, hheight, ?_⟩
          rwa [State.retry, State.reorgCount_rewind] at hends

end Rounds

theorem isAbandoned_iff : isAbandoned result = true ↔ result = .ok .abandoned := by
  rcases result with e | _ | _ | _ <;> simp [isAbandoned]

/-- What the budget says of a turn that begins here, of the round, of its end, and of a height that
fails for good. -/
structure Budget (c : Config) (env : Environment ω) (s : State) (w : ω) : Prop where
  left : s.failureCount < c.maxFailures
  charged : ∀ t w', turn c env s w = (t, w') → ∃ calls,
    turn c env.noting s (w, []) = (t, (w', calls)) ∧ Charged c s calls t
  going : ∀ s' w', Visits c env Unrested s w s' w' → ∃ calls,
    Visits c env.noting Unrested s (w, []) s' (w', calls) ∧
      s'.failureCount = unforgiven s.failureCount calls ∧ s'.failureCount < c.maxFailures ∧
      failures calls ≤ c.maxFailures - s.failureCount + stores calls
  finished : ∀ fuel result s' w', pollRound c env fuel s w = some (result, s', w') → ∃ calls,
    pollRound c env.noting fuel s (w, []) = some (result, s', (w', calls)) ∧
      (result = .ok .abandoned ↔ unforgiven s.failureCount calls = c.maxFailures) ∧
      s'.failureCount = (if isAbandoned result then 0 else unforgiven s.failureCount calls) ∧
      s'.failureCount < c.maxFailures ∧
      failures calls ≤ c.maxFailures - s.failureCount + stores calls
  ends : (∀ s' w', Visits c env Unrested s w s' w' →
      FailsAt env (s.rewind c.rewindStep).height w') →
    ∃ result s' w', pollRound c env (c.maxFailures - s.failureCount) s w = some (result, s', w') ∧
      (s'.rewind c.rewindStep).height = (s.rewind c.rewindStep).height ∧
      (result = .ok .abandoned ∨ result = .ok .stopped ∨ c.maxReorgRounds < s.reorgCount)

/-- However long an ingestor runs, over whatever source and cache, the failures that no stored
block has made up for are within the budget, and a round is abandoned by the failure that uses it
up, at the height that failed. -/
theorem budget_of_visits (hpos : 0 < c.maxFailures)
    (hvisit : Visits c env rests (.start start) w₀ s w) : Budget c env s w := by
  have hleft : s.failureCount < c.maxFailures := hvisit.failureCount_lt hpos
  exact {
    left := hleft
    charged := by
      intro t w' hturn
      obtain ⟨calls, hnoted, hcharged, -⟩ := exists_settled_of_turn hleft hturn []
      exact ⟨calls, hnoted, hcharged⟩
    going := by
      intro s' w' hvisit'
      obtain ⟨calls, hnoted, hsettled⟩ := hvisit'.exists_settled hleft
      exact ⟨calls, hnoted, hsettled.eq, hsettled.lt hpos, hsettled.failures_le hleft⟩
    finished := by
      intro fuel result s' w' hround
      obtain ⟨calls, hnoted, hsettled⟩ := exists_settled_of_pollRound hpos hleft hround []
      exact ⟨calls, hnoted, isAbandoned_iff.symm.trans hsettled.spent_iff, hsettled.eq,
        hsettled.lt hpos, hsettled.failures_le hleft⟩
    ends := exists_pollRound_of_failsAt hleft }

/-- Surroundings in which a block comes second only, and is stored, and fourth, and cannot be
stored. The world counts the fetches. -/
def faulty : Environment Nat where
  stopped _ := false
  fetch _ i :=
    (if i = 1 ∨ i = 3 then .ok (some default) else .error (.transport "no answer"), i + 1)
  add x _ i := (if i = 2 then .ok (.stored none) else .error (.encoding x ⟨"too long"⟩), i)
  count _ i := i

def faultyCalls : List Call :=
  [.fetched 7 (.error (.transport "no answer")), .fetched 7 (.ok (some default)),
    .offered 7 (.ok (.stored none)), .fetched 8 (.error (.transport "no answer")),
    .fetched 8 (.ok (some default)), .offered 8 (.error (.encoding 8 ⟨"too long"⟩)),
    .fetched 8 (.error (.transport "no answer"))]

theorem visits_faulty :
    Visits .default faulty (fun _ _ => True) (.start 7) 0 ⟨8, 0, 0, false⟩ 5 := by
  have hfirst : turn .default faulty (.start 7) 0 = (.goOn ⟨7, 0, 1, false⟩, 1) := rfl
  have hstored : turn .default faulty ⟨7, 0, 1, false⟩ 1 = (.goOn ⟨8, 0, 0, false⟩, 2) := rfl
  have hsecond : turn .default faulty ⟨8, 0, 0, false⟩ 2 = (.goOn ⟨8, 0, 1, false⟩, 3) := rfl
  have hthird : turn .default faulty ⟨8, 0, 1, false⟩ 3 = (.goOn ⟨8, 0, 2, false⟩, 4) := rfl
  have hlast : turn .default faulty ⟨8, 0, 2, false⟩ 4 =
      (.finished (.ok .abandoned) ⟨8, 0, 0, false⟩, 5) := rfl
  exact ((((Visits.start.goOn hfirst).goOn hstored).goOn hsecond).goOn hthird).round hlast trivial

/-- The round after it is abandoned at once, with three failures at the same height. -/
theorem budget_of_visits_faulty :
    0 < Config.default.maxFailures ∧
      Visits .default faulty (fun _ _ => True) (.start 7) 0 ⟨8, 0, 0, false⟩ 5 ∧
      Budget .default faulty (.start 7) 0 ∧ Budget .default faulty ⟨8, 0, 0, false⟩ 5 ∧
      pollRound .default faulty.noting 5 (.start 7) (0, []) =
        some (.ok .abandoned, ⟨8, 0, 0, false⟩, (5, faultyCalls)) ∧
      failures faultyCalls = 4 ∧ stores faultyCalls = 1 ∧ unforgiven 0 faultyCalls = 3 ∧
      pollRound .default faulty 3 ⟨8, 0, 0, false⟩ 5 =
        some (.ok .abandoned, ⟨8, 0, 0, false⟩, 8) := by
  have hpos : 0 < Config.default.maxFailures := by decide
  have hstart : Visits .default faulty (fun _ _ => True) (.start 7) 0 (.start 7) 0 := .start
  exact ⟨hpos, visits_faulty, budget_of_visits hpos hstart, budget_of_visits hpos visits_faulty,
    rfl, rfl, rfl, rfl, rfl⟩

end LightServer.Ingest
