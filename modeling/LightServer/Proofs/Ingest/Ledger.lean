import LightServer.Proofs.Ingest.Visits

/-!
# The ledger of rewinds

`Environment.noting` writes down what the ingestor asks of its surroundings and
what it is answered, whatever these surroundings are. Between two stored blocks
these notes decide where the ingestor is: each reorg has brought it down by one
rewind step, once and for all, and nothing else moves it as long as no gap is
met. So the notes of such a stretch tell the height of each fetch, and they tell
when the ingestor gives up.
-/

namespace LightServer.Ingest

inductive Call where
  | fetched (height : Nat) (reply : Except Node.SourceError (Option CompactBlock))
  | offered (height : Nat) (outcome : Except CacheError AddOutcome)

namespace Call

/-- The call neither stored its block nor met a gap. -/
def Steady : Call → Prop
  | offered _ (.ok (.stored _)) => False
  | offered _ (.error (.heightGap _ _)) => False
  | _ => True

def isReorg : Call → Bool
  | offered _ (.ok .reorgDetected) => true
  | _ => false

end Call

def reorgs (calls : List Call) : Nat := calls.countP Call.isReorg

def Environment.noting {ω : Type} (env : Environment ω) : Environment (ω × List Call) where
  stopped v := env.stopped v.1
  fetch height v :=
    let (reply, w) := env.fetch height v.1
    (reply, (w, v.2 ++ [.fetched height reply]))
  add height b v :=
    let (outcome, w) := env.add height b v.1
    (outcome, (w, v.2 ++ [.offered height outcome]))
  count e v := (env.count e v.1, v.2)

/-- The calls end with the stretch `since`, which began at the height `h` when the ingestor was set
up to start there, or when the block below was stored. Since then nothing was stored, and no gap
was met. -/
inductive Stretch (start : Nat) : Nat → List Call → List Call → Prop where
  | created {since : List Call} (hsteady : ∀ o ∈ since, o.Steady) :
      Stretch start start since since
  | stored {since : List Call} (past : List Call) (x : Nat) (evicted : Option Nat)
      (hsteady : ∀ o ∈ since, o.Steady) :
      Stretch start (x + 1) since (past ++ [.offered x (.ok (.stored evicted))] ++ since)

variable {ω : Type} {c : Config} {env : Environment ω} {s s' : State} {w w' w₀ : ω}
  {v v' : ω × List Call}
  {start h x : Nat} {since since' calls calls' : List Call} {call : Call}
  {reply : Except Node.SourceError (Option CompactBlock)}
  {outcome : Except CacheError AddOutcome} {t : Turn}

section Stretch

theorem reorgs_concat (calls : List Call) (call : Call) :
    reorgs (calls ++ [call]) = reorgs calls + if call.isReorg then 1 else 0 := by
  rw [reorgs, List.countP_append, List.countP_singleton]
  rfl

/-- A stretch that ends with one more call is the stretch before it, or it begins there. -/
theorem Stretch.of_concat (hstretch : Stretch start h since (calls ++ [call])) :
    (∃ since', since = since' ++ [call] ∧ call.Steady ∧ Stretch start h since' calls) ∨
      (since = [] ∧ ∃ x evicted, call = .offered x (.ok (.stored evicted)) ∧ h = x + 1) := by
  generalize hcalls : calls ++ [call] = all at hstretch
  cases hstretch with
  | created hsteady =>
      subst hcalls
      have hlast := hsteady call (List.mem_append_right _ (List.mem_singleton.mpr rfl))
      exact Or.inl ⟨calls, rfl, hlast, .created fun o ho => hsteady o (List.mem_append_left _ ho)⟩
  | stored past x evicted hsteady =>
      rcases List.eq_nil_or_concat since with rfl | ⟨since', last, rfl⟩
      · rw [List.append_nil] at hcalls
        obtain ⟨-, hlast⟩ := List.append_inj' hcalls rfl
        exact Or.inr ⟨rfl, x, evicted, List.singleton_inj.mp hlast, rfl⟩
      · rw [List.concat_eq_append] at hcalls hsteady ⊢
        rw [← List.append_assoc] at hcalls
        obtain ⟨rfl, hlast⟩ := List.append_inj' hcalls rfl
        obtain rfl := List.singleton_inj.mp hlast
        have hcall := hsteady call (List.mem_append_right _ (List.mem_singleton.mpr rfl))
        exact Or.inl ⟨since', rfl, hcall, .stored past x evicted
          fun o ho => hsteady o (List.mem_append_left _ ho)⟩

/-- What came first in a stretch is a stretch that began at the same height. -/
theorem Stretch.exists_of_isPrefix (hstretch : Stretch start h since calls)
    (hpre : since' <+: since) :
    ∃ calls', Stretch start h since' calls' ∧
      ∀ rest, since' ++ rest <+: since → calls' ++ rest <+: calls := by
  have hmem : ∀ o, o ∈ since' → o ∈ since := fun _ => (hpre.subset ·)
  cases hstretch with
  | created hsteady =>
      exact ⟨since', .created fun o ho => hsteady o (hmem o ho), fun _ => id⟩
  | stored past x evicted hsteady =>
      refine ⟨_, .stored past x evicted fun o ho => hsteady o (hmem o ho), fun rest hrest => ?_⟩
      rw [List.append_assoc _ since' rest]
      exact (List.prefix_append_right_inj _).mpr hrest

end Stretch

/-- The state is where the calls say: it asks for the height at which the stretch began, less a
step for each reorg, and it has counted these reorgs. -/
def Placed (step start : Nat) (s : State) (calls : List Call) : Prop :=
  ∀ h since, Stretch start h since calls →
    (s.rewind step).height = h - reorgs since * step ∧ s.reorgCount = reorgs since

def Fetches (step start : Nat) (calls : List Call) : Prop :=
  ∀ past x reply, past ++ [.fetched x reply] <+: calls → ∀ h since, Stretch start h since past →
    x = h - reorgs since * step

variable {step : Nat}

theorem placed_start (step start : Nat) : Placed step start (.start start) [] := by
  intro h since hstretch
  generalize hcalls : ([] : List Call) = calls at hstretch
  cases hstretch with
  | created =>
      subst hcalls
      rw [State.rewind_of_not_pending rfl]
      exact ⟨by simp [State.start, reorgs], rfl⟩
  | stored => simp at hcalls

/-- The place hangs on the height that is asked for and on the count of reorgs. -/
theorem Placed.frame (hs : Placed step start s calls)
    (hasked : (s'.rewind step).height = (s.rewind step).height)
    (hcount : s'.reorgCount = s.reorgCount) : Placed step start s' calls := by
  intro h since hstretch
  rw [hasked, hcount]
  exact hs h since hstretch

theorem Placed.rewind (hs : Placed step start s calls) :
    Placed step start (s.rewind step) calls :=
  hs.frame (by rw [State.rewind_rewind]) (State.reorgCount_rewind step s)

theorem Placed.afterFailure (hs : Placed step start s calls) :
    Placed step start (afterFailure c s).state calls := by
  obtain ⟨n, hstate⟩ := exists_state_afterFailure c s
  rw [hstate]
  exact hs.frame (s.height_rewind_failureCount step n) rfl

/-- A call that is no reorg and after which the stretch goes on does not move the state. -/
theorem Placed.concat (hs : Placed step start s calls) (hreorg : call.isReorg = false)
    (hstored : ∀ x evicted, call ≠ .offered x (.ok (.stored evicted))) :
    Placed step start s (calls ++ [call]) := by
  intro h since hstretch
  rcases hstretch.of_concat with ⟨since', rfl, -, hstretch'⟩ | ⟨-, x, evicted, hcall, -⟩
  · rw [reorgs_concat, hreorg]
    exact hs h since' hstretch'
  · exact absurd hcall (hstored x evicted)

theorem Placed.concat_fetched (hs : Placed step start s calls) (x : Nat)
    (reply : Except Node.SourceError (Option CompactBlock)) :
    Placed step start s (calls ++ [.fetched x reply]) :=
  hs.concat rfl nofun

theorem Placed.concat_stored (s : State) (calls : List Call) (evicted : Option Nat) :
    Placed step start s.stored (calls ++ [.offered s.height (.ok (.stored evicted))]) := by
  intro h since hstretch
  rcases hstretch.of_concat with ⟨since', rfl, hsteady, -⟩ | ⟨rfl, x, evicted, hcall, rfl⟩
  · exact hsteady.elim
  · cases hcall
    rw [State.rewind_of_not_pending rfl]
    exact ⟨by simp [State.stored, reorgs], rfl⟩

theorem Placed.concat_reorg (hs : Placed step start s calls) (hpending : s.rewindPending = false) :
    Placed step start s.reorg (calls ++ [.offered x (.ok .reorgDetected)]) := by
  intro h since hstretch
  rcases hstretch.of_concat with ⟨since', rfl, -, hstretch'⟩ | ⟨-, x, evicted, hcall, -⟩
  · obtain ⟨hheight, hcount⟩ := hs h since' hstretch'
    rw [State.rewind_of_not_pending hpending] at hheight
    have hback : (s.reorg.rewind step).height = s.height - step := rfl
    have hnext : s.reorg.reorgCount = s.reorgCount + 1 := rfl
    rw [reorgs_concat, hback, hnext, hheight, hcount, Nat.sub_sub, ← Nat.succ_mul]
    exact ⟨rfl, rfl⟩
  · cases hcall

/-- Beyond a gap the calls say nothing about the state until the next block is stored. -/
theorem Placed.concat_gap (s : State) (calls : List Call) (x expected got : Nat) :
    Placed step start s (calls ++ [.offered x (.error (.heightGap expected got))]) := by
  intro h since hstretch
  rcases hstretch.of_concat with ⟨since', rfl, hsteady, -⟩ | ⟨-, y, evicted, hcall, -⟩
  · exact hsteady.elim
  · cases hcall

theorem Placed.afterAdd (hs : Placed step start s calls) (hpending : s.rewindPending = false)
    (outcome : Except CacheError AddOutcome) :
    Placed step start (afterAdd c s outcome).1.state (calls ++ [.offered s.height outcome]) := by
  rcases outcome with (e | expected) | (evicted | _)
  · exact hs.afterFailure.concat rfl nofun
  · exact .concat_gap _ calls s.height expected _
  · exact .concat_stored s calls evicted
  · exact hs.concat_reorg hpending

theorem Fetches.concat_fetched (hf : Fetches step start calls) (hs : Placed step start s calls)
    (reply : Except Node.SourceError (Option CompactBlock)) :
    Fetches step start (calls ++ [.fetched (s.rewind step).height reply]) := by
  intro past x reply' hpast h since hstretch
  rcases List.prefix_concat_iff.mp hpast with hsame | hbefore
  · obtain ⟨rfl, hlast⟩ := List.append_inj' hsame rfl
    cases hlast
    exact (hs h since hstretch).1
  · exact hf past x reply' hbefore h since hstretch

theorem Fetches.concat_offered (hf : Fetches step start calls) (x : Nat)
    (outcome : Except CacheError AddOutcome) :
    Fetches step start (calls ++ [.offered x outcome]) := by
  intro past y reply hpast h since hstretch
  rcases List.prefix_concat_iff.mp hpast with hsame | hbefore
  · obtain ⟨-, hlast⟩ := List.append_inj' hsame rfl
    cases hlast
  · exact hf past y reply hbefore h since hstretch

structure Noted (c : Config) (start : Nat) (s : State) (calls : List Call) : Prop where
  placed : Placed c.rewindStep start s calls
  fetches : Fetches c.rewindStep start calls
  bounded : s.reorgCount ≤ c.maxReorgRounds + 1

theorem reorgCount_afterFailure (c : Config) (s : State) :
    (afterFailure c s).state.reorgCount = s.reorgCount := by
  obtain ⟨n, hstate⟩ := exists_state_afterFailure c s
  rw [hstate]

theorem reorgCount_afterAdd_le (c : Config) (s : State)
    (outcome : Except CacheError AddOutcome) :
    (afterAdd c s outcome).1.state.reorgCount ≤ s.reorgCount + 1 := by
  rcases outcome with (e | expected) | (evicted | _)
  · exact Nat.le_succ_of_le (Nat.le_of_eq (reorgCount_afterFailure c s))
  · exact Nat.le_succ _
  · exact Nat.zero_le _
  · exact Nat.le_refl _

/-- A turn meets one reorg at most. -/
theorem reorgCount_le_of_turn (hturn : turn c env s w = (t, w')) :
    t.state.reorgCount ≤ s.reorgCount + 1 := by
  have hcount := State.reorgCount_rewind c.rewindStep s
  have hcase := turned_of_turn hturn
  cases hcase with
  | stopped => exact Nat.le_succ _
  | tooDeep | caughtUp => exact Nat.le_succ_of_le (Nat.le_of_eq hcount)
  | failed =>
      rw [reorgCount_afterFailure, hcount]
      exact Nat.le_succ _
  | offered =>
      rw [← hcount]
      exact reorgCount_afterAdd_le c _ _

theorem turn_of_lt (hrun : env.stopped w = false) (hdeep : c.maxReorgRounds < s.reorgCount) :
    turn c env s w = (.finished (.error (.reorgTooDeep s.reorgCount (s.rewind c.rewindStep).height))
      (s.rewind c.rewindStep), w) := by
  have hcount := State.reorgCount_rewind c.rewindStep s
  rw [turn, hrun, if_neg Bool.false_ne_true, ← hcount, if_neg]
  rw [State.ReorgBounded, hcount]
  exact Nat.not_le.mpr hdeep

theorem turn_of_le (hrun : env.stopped w = false) (hle : s.reorgCount ≤ c.maxReorgRounds) :
    turn c env s w = fetchAndAdd c env (s.rewind c.rewindStep) w := by
  rw [turn, hrun, if_neg Bool.false_ne_true, if_pos]
  rw [State.ReorgBounded, State.reorgCount_rewind]
  exact hle

theorem stopped_noting (hrun : ∀ w, env.stopped w = false) (v : ω × List Call) :
    env.noting.stopped v = false := hrun v.1

theorem calls_of_fetch (hfetch : env.noting.fetch x v = (reply, v')) :
    v'.2 = v.2 ++ [.fetched x reply] := by
  cases hfetch
  rfl

theorem calls_of_add {b : CompactBlock} (hadd : env.noting.add x b v = (outcome, v')) :
    v'.2 = v.2 ++ [.offered x outcome] := by
  cases hadd
  rfl

theorem calls_countSome (e : Option Event) (v : ω × List Call) :
    (env.noting.countSome e v).2 = v.2 := by
  cases e <;> rfl

theorem Noted.of_turn (hs : Noted c start s calls)
    (hrun : ∀ w, env.stopped w = false) (hturn : turn c env.noting s (w, calls) = (t, v)) :
    Noted c start t.state v.2 := by
  have hplaced := hs.placed.rewind
  have hfetched := hs.fetches.concat_fetched hs.placed
  have hcount := State.reorgCount_rewind c.rewindStep s
  have hbounded : t.state.reorgCount ≤ c.maxReorgRounds + 1 := by
    by_cases hle : s.reorgCount ≤ c.maxReorgRounds
    · exact Nat.le_trans (reorgCount_le_of_turn hturn) (Nat.succ_le_succ hle)
    · rw [turn_of_lt (stopped_noting hrun _) (Nat.not_le.mp hle)] at hturn
      cases hturn
      exact Nat.le_trans (Nat.le_of_eq hcount) hs.bounded
  have hcase := turned_of_turn hturn
  cases hcase with
  | stopped => exact hs
  | tooDeep => exact ⟨hplaced, hs.fetches, hbounded⟩
  | caughtUp hfetch =>
      rw [calls_of_fetch hfetch]
      exact ⟨hplaced.concat_fetched _ _, hfetched _, hbounded⟩
  | @failed v₁ e hfetch =>
      have hcalls : (env.noting.count .fetchFailed v₁).2 =
          calls ++ [.fetched (s.rewind c.rewindStep).height (.error e)] := calls_of_fetch hfetch
      rw [hcalls]
      exact ⟨hplaced.afterFailure.concat_fetched _ _, hfetched _, hbounded⟩
  | @offered _ _ _ outcome hfetch hadd =>
      rw [calls_countSome, calls_of_add hadd, calls_of_fetch hfetch]
      refine ⟨?_, (hfetched _).concat_offered _ _, hbounded⟩
      exact (hplaced.concat_fetched _ _).afterAdd (State.rewindPending_rewind _ s) outcome

/-- Between two rounds anything may happen, but the ingestor makes no calls. -/
def Idles (v v' : ω × List Call) : Prop := v'.2 = v.2

theorem Visits.noted (hrun : ∀ w, env.stopped w = false)
    (hvisit : Visits c env.noting Idles (.start start) (w₀, []) s v) : Noted c start s v.2 := by
  induction hvisit with
  | start =>
      refine ⟨placed_start _ _, ?_, Nat.zero_le _⟩
      intro past x reply hpast
      simp at hpast
  | goOn _ hturn ih => exact ih.of_turn hrun hturn
  | round _ hturn hrests ih =>
      rw [hrests]
      exact ih.of_turn hrun hturn

theorem exists_noting_of_fetchAndAdd (h : fetchAndAdd c env s w = (t, w')) (calls : List Call) :
    ∃ calls', fetchAndAdd c env.noting s (w, calls) = (t, (w', calls')) := by
  rcases hfetch : env.fetch s.height w with ⟨reply, w₁⟩
  have hnoted : env.noting.fetch s.height (w, calls) =
      (reply, (w₁, calls ++ [.fetched s.height reply])) := by
    simp only [Environment.noting, hfetch]
  unfold fetchAndAdd at h ⊢
  rw [hfetch] at h
  rw [hnoted]
  rcases reply with e | _ | b
  · cases h
    exact ⟨_, rfl⟩
  · cases h
    exact ⟨_, rfl⟩
  · rcases hadd : env.add s.height b w₁ with ⟨outcome, w₂⟩
    simp only [hadd] at h
    cases h
    simp only [Environment.noting, hadd]
    cases (afterAdd c s outcome).2 with
    | none => exact ⟨_, rfl⟩
    | some e => exact ⟨_, rfl⟩

theorem exists_noting_of_turn (h : turn c env s w = (t, w')) (calls : List Call) :
    ∃ calls', turn c env.noting s (w, calls) = (t, (w', calls')) := by
  have hstopped : env.noting.stopped (w, calls) = env.stopped w := rfl
  unfold turn at h ⊢
  rw [hstopped]
  split at h
  next hstop =>
    rw [if_pos hstop]
    cases h
    exact ⟨calls, rfl⟩
  next hstop =>
    rw [if_neg hstop]
    simp only at h ⊢
    split at h
    next hbound =>
      rw [if_pos hbound]
      exact exists_noting_of_fetchAndAdd h calls
    next hdeep =>
      rw [if_neg hdeep]
      cases h
      exact ⟨calls, rfl⟩

/-- Writing down the calls changes nothing: every run has its notes. -/
theorem Visits.exists_noting {rests : ω → ω → Prop}
    (hvisit : Visits c env rests (.start start) w₀ s w) :
    ∃ calls, Visits c env.noting (fun v v' => rests v.1 v'.1 ∧ v'.2 = v.2) (.start start) (w₀, [])
      s (w, calls) := by
  induction hvisit with
  | start => exact ⟨[], .start⟩
  | goOn _ hturn ih =>
      obtain ⟨calls, hnoted⟩ := ih
      obtain ⟨calls', hturn'⟩ := exists_noting_of_turn hturn calls
      exact ⟨calls', hnoted.goOn hturn'⟩
  | round _ hturn hrests ih =>
      obtain ⟨calls, hnoted⟩ := ih
      obtain ⟨calls', hturn'⟩ := exists_noting_of_turn hturn calls
      exact ⟨calls', hnoted.round hturn' ⟨hrests, rfl⟩⟩

theorem exists_calls_fetchAndAdd (c : Config) (env : Environment ω) (s : State)
    (v : ω × List Call) :
    ∃ reply rest, (fetchAndAdd c env.noting s v).2.2 = v.2 ++ .fetched s.height reply :: rest := by
  unfold fetchAndAdd
  split
  next hfetch => exact ⟨_, [], calls_of_fetch hfetch⟩
  next v' hfetch =>
    have hcalls : (env.noting.count .fetchFailed v').2 = v'.2 := rfl
    exact ⟨_, [], hcalls.trans (calls_of_fetch hfetch)⟩
  next b v' hfetch =>
    generalize hadd : env.noting.add s.height b v' = added
    obtain ⟨outcome, v''⟩ := added
    refine ⟨.ok (some b), [.offered s.height outcome], ?_⟩
    rw [calls_countSome, calls_of_add hadd, calls_of_fetch hfetch, List.append_assoc]
    rfl

/-- What a stretch says of the fetches in it, of the next turn, and of the end of the run. -/
structure Ledger (c : Config) (env : Environment ω) (h : Nat) (since : List Call) (s : State)
    (w : ω) (calls : List Call) : Prop where
  fetches : ∀ past x reply, past ++ [.fetched x reply] <+: since →
    x = h - reorgs past * c.rewindStep
  bounded : reorgs since ≤ c.maxReorgRounds + 1
  next : reorgs since ≤ c.maxReorgRounds → ∃ reply rest,
    (turn c env.noting s (w, calls)).2.2 =
      calls ++ .fetched (h - reorgs since * c.rewindStep) reply :: rest
  error_iff : (∃ e s' v, turn c env.noting s (w, calls) = (.finished (.error e) s', v)) ↔
    reorgs since = c.maxReorgRounds + 1
  gives_up : reorgs since = c.maxReorgRounds + 1 → ∃ s', ∀ fuel,
    pollRound c env.noting (fuel + 1) s (w, calls) = some (.error (.reorgTooDeep
      (c.maxReorgRounds + 1) (h - (c.maxReorgRounds + 1) * c.rewindStep)), s', (w, calls)) ∧
    ∀ w', pollRound c env.noting (fuel + 1) s' (w', calls) = some (.error (.reorgTooDeep
      (c.maxReorgRounds + 1) (h - (c.maxReorgRounds + 1) * c.rewindStep)), s', (w', calls))

theorem pollRound_of_lt (hrun : env.stopped w = false) (hdeep : c.maxReorgRounds < s.reorgCount)
    (fuel : Nat) :
    pollRound c env (fuel + 1) s w = some (.error (.reorgTooDeep s.reorgCount
      (s.rewind c.rewindStep).height), s.rewind c.rewindStep, w) := by
  rw [pollRound, turn_of_lt hrun hdeep]

/-- However long an ingestor runs, over whatever source and cache, in a stretch without a stored
block and without a gap each reorg brings it down by one rewind step exactly, and it gives up, for
good, at the first reorg beyond those that it tolerates. -/
theorem ledger_of_visits (hrun : ∀ w, env.stopped w = false)
    (hvisit : Visits c env.noting Idles (.start start) (w₀, []) s (w, calls))
    (hstretch : Stretch start h since calls) : Ledger c env h since s w calls := by
  obtain ⟨hplaced, hfetches, hbounded⟩ := hvisit.noted hrun
  obtain ⟨hheight, hcount⟩ := hplaced h since hstretch
  have hnext : reorgs since ≤ c.maxReorgRounds → turn c env.noting s (w, calls) =
      fetchAndAdd c env.noting (s.rewind c.rewindStep) (w, calls) :=
    fun hle => turn_of_le (stopped_noting hrun _) (hcount ▸ hle)
  exact {
    fetches := by
      intro past x reply hpast
      have hpre := (List.prefix_append past _).trans hpast
      obtain ⟨calls', hstretch', hcalls'⟩ := hstretch.exists_of_isPrefix hpre
      exact hfetches calls' x reply (hcalls' _ hpast) h past hstretch'
    bounded := hcount ▸ hbounded
    next := by
      intro hle
      rw [hnext hle, ← hheight]
      exact exists_calls_fetchAndAdd c env (s.rewind c.rewindStep) (w, calls)
    error_iff := by
      constructor
      · rintro ⟨e, s', v, hturn⟩
        have hdeep := lt_reorgCount_of_turn hturn
        omega
      · intro hdeep
        have hdeep' : c.maxReorgRounds < s.reorgCount := by omega
        exact ⟨_, _, _, turn_of_lt (stopped_noting hrun _) hdeep'⟩
    gives_up := by
      intro hdeep
      have hdeep' : c.maxReorgRounds < s.reorgCount := by omega
      have hcount' := State.reorgCount_rewind c.rewindStep s
      refine ⟨s.rewind c.rewindStep, fun fuel => ⟨?_, fun w' => ?_⟩⟩
      · rw [pollRound_of_lt (stopped_noting hrun _) hdeep', hheight, hcount, hdeep]
      · rw [pollRound_of_lt (stopped_noting hrun _) (hcount'.symm ▸ hdeep'), State.rewind_rewind,
          hheight, hcount', hcount, hdeep] }

/-- Surroundings in which no block ever extends the cache. The second fetch fails, and at the third
one there is no block. The world counts the fetches. -/
def barren : Environment Nat where
  stopped _ := false
  fetch _ i :=
    (if i = 1 then .error (.transport "no answer") else .ok (if i = 2 then none else some default),
      i + 1)
  add _ _ i := (.ok .reorgDetected, i)
  count _ i := i

def barrenCalls : List Call :=
  [.fetched 25 (.ok (some default)), .offered 25 (.ok .reorgDetected),
    .fetched 15 (.error (.transport "no answer")), .fetched 15 (.ok none),
    .fetched 15 (.ok (some default)), .offered 15 (.ok .reorgDetected)]

def impatient : Config := { Config.default with maxReorgRounds := 1 }

theorem visits_barren :
    Visits impatient barren.noting Idles (.start 25) (0, []) ⟨15, 2, 1, true⟩ (4, barrenCalls) := by
  have hfirst : turn impatient barren.noting (.start 25) (0, []) =
      (.goOn ⟨25, 1, 0, true⟩, (1, barrenCalls.take 2)) := rfl
  have hfailed : turn impatient barren.noting ⟨25, 1, 0, true⟩ (1, barrenCalls.take 2) =
      (.goOn ⟨15, 1, 1, false⟩, (2, barrenCalls.take 3)) := rfl
  have hround : turn impatient barren.noting ⟨15, 1, 1, false⟩ (2, barrenCalls.take 3) =
      (.finished (.ok .caughtUp) ⟨15, 1, 1, false⟩, (3, barrenCalls.take 4)) := rfl
  have hsecond : turn impatient barren.noting ⟨15, 1, 1, false⟩ (3, barrenCalls.take 4) =
      (.goOn ⟨15, 2, 1, true⟩, (4, barrenCalls)) := rfl
  have hrest : Idles (3, barrenCalls.take 4) (3, barrenCalls.take 4) := rfl
  exact (((Visits.start.goOn hfirst).goOn hfailed).round hround hrest).goOn hsecond

/-- After the second reorg that ingestor gives up at the height 5. -/
theorem ledger_of_visits_barren :
    (∀ i, barren.stopped i = false) ∧
      Visits impatient barren.noting Idles (.start 25) (0, []) ⟨15, 2, 1, true⟩ (4, barrenCalls) ∧
      Stretch 25 25 barrenCalls barrenCalls ∧ reorgs barrenCalls = 2 ∧
      Ledger impatient barren 25 barrenCalls ⟨15, 2, 1, true⟩ 4 barrenCalls ∧
      ∃ s', pollRound impatient barren.noting 1 ⟨15, 2, 1, true⟩ (4, barrenCalls) =
        some (.error (.reorgTooDeep 2 5), s', (4, barrenCalls)) := by
  have hstretch : Stretch 25 25 barrenCalls barrenCalls :=
    .created (by simp [barrenCalls, Call.Steady])
  have hledger := ledger_of_visits (fun _ => rfl) visits_barren hstretch
  obtain ⟨s', hs'⟩ := hledger.gives_up rfl
  exact ⟨fun _ => rfl, visits_barren, hstretch, rfl, hledger, s', (hs' 0).1⟩

end LightServer.Ingest
