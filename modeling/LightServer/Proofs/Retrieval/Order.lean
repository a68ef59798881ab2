import LightServer.Proofs.Retrieval.Delivery

/-!
# In which order a stream is read

Looks at the cache and answers of the node come between all the other moves, and
each look finds the cache as it is at that moment. The reads of a course are
therefore traced to the moves that they were made of: every read has its own
looks and its own answer, later reads have later ones. What a reader has taken
is the results of the reads at the first heights of the range, all of them
blocks, and after these one error at most. This holds whatever the reader, the
deadline and the cache do in between, and after the error nothing more comes.
-/

namespace LightServer.Retrieval

/-- The moves that bring the read of a height to a phase. -/
inductive Reads (height : Nat) : List Move → ReadPhase → Prop where
  | begin : Reads height [] .looking
  | found {k : Cache} {item : Item} (hfirst : firstLook height k = some item) :
      Reads height [.look k] (.done item)
  | missed {k : Cache} (hfirst : firstLook height k = none) : Reads height [.look k] .checking
  | refused {k k' : Cache} {e : Error} (hfirst : firstLook height k = none)
      (hsecond : secondLook height k' = .error e) :
      Reads height [.look k, .look k'] (.done (.error e))
  | asked {k k' : Cache} {tip : Nat} (hfirst : firstLook height k = none)
      (hsecond : secondLook height k' = .ok tip) : Reads height [.look k, .look k'] .asking
  | answered {k k' : Cache} {tip : Nat} (reply : Except Node.SourceError (Option CompactBlock))
      (hfirst : firstLook height k = none) (hsecond : secondLook height k' = .ok tip) :
      Reads height [.look k, .look k', .answer reply] (.done (settle height reply))

/-- A look brings a read on, unless it comes too late to matter. -/
theorem Reads.look {height : Nat} {part : List Move} {phase : ReadPhase}
    (h : Reads height part phase) (k : Cache) :
    Reads height (part ++ [.look k]) (phase.look height k) ∨ phase.look height k = phase := by
  cases h with
  | begin =>
      cases hfirst : firstLook height k with
      | some item =>
          simp only [ReadPhase.look, hfirst]
          exact Or.inl (.found hfirst)
      | none =>
          simp only [ReadPhase.look, hfirst]
          exact Or.inl (.missed hfirst)
  | missed hfirst =>
      cases hsecond : secondLook height k with
      | ok tip =>
          simp only [ReadPhase.look, hsecond]
          exact Or.inl (.asked hfirst hsecond)
      | error e =>
          simp only [ReadPhase.look, hsecond]
          exact Or.inl (.refused hfirst hsecond)
  | found | refused | asked | answered => exact Or.inr rfl

theorem Reads.answer {height : Nat} {part : List Move} (h : Reads height part .asking)
    (reply : Except Node.SourceError (Option CompactBlock)) :
    Reads height (part ++ [.answer reply]) (.done (settle height reply)) := by
  cases h with
  | asked hfirst hsecond => exact .answered reply hfirst hsecond

structure ReadTrace where
  height : Nat
  item : Item
  moves : List Move
  reads : Reads height moves (.done item)

namespace Course

variable {c c' : Course} {m : Move} {ms past : List Move} {done : List ReadTrace}
  {part : List Move} {height : Nat} {phase : ReadPhase} {item : Item}
  {prior : List (Nat × Item)} {rest : List Item}

/-- The finished reads were made of the moves, one read after the other, and `part` is what the
read at which the producer is was made of until now. -/
structure Traces (ms : List Move) (c : Course) (done : List ReadTrace) (part : List Move) :
    Prop where
  reads : c.reads = done.map fun x => (x.height, x.item)
  moves : (done.flatMap ReadTrace.moves ++ part).Sublist ms
  current : ∀ height phase, c.range.producer = .reading height phase → Reads height part phase

/-- A move that has no part in a read. -/
theorem Traces.pass (h : c.Traces ms done part) (m : Move) (hreads : c'.reads = c.reads)
    (hcurrent : ∀ height phase, c'.range.producer = .reading height phase →
      c.range.producer = .reading height phase) :
    c'.Traces (ms ++ [m]) done part where
  reads := hreads.trans h.reads
  moves := h.moves.trans (List.sublist_append_left ms [m])
  current := fun height phase hproducer => h.current height phase (hcurrent height phase hproducer)

/-- A move that brings the read on. -/
theorem Traces.advance (h : c.Traces ms done part) (hreads : c'.reads = c.reads)
    (hproducer : c'.range.producer = .reading height phase)
    (hpart : Reads height (part ++ [m]) phase) : c'.Traces (ms ++ [m]) done (part ++ [m]) where
  reads := hreads.trans h.reads
  moves := by
    rw [← List.append_assoc]
    exact h.moves.append_right [m]
  current := by
    intro height' phase' hproducer'
    rw [hproducer] at hproducer'
    cases hproducer'
    exact hpart

theorem Traces.of_look (h : c.Traces ms done part) (k : Cache)
    (hproducer : c.range.producer = .reading height phase) (hreads : c'.reads = c.reads)
    (hproducer' : c'.range.producer = .reading height (phase.look height k)) :
    ∃ part', c'.Traces (ms ++ [.look k]) done part' := by
  rcases (h.current height phase hproducer).look k with hpart | hidle
  · exact ⟨_, h.advance hreads hproducer' hpart⟩
  · -- the read is past its looks, and this one is no part of it
    rw [hidle, ← hproducer] at hproducer'
    exact ⟨_, h.pass (.look k) hreads fun _ _ hreading => hproducer'.symm.trans hreading⟩

theorem Traces.of_offer (h : c.Traces ms done part)
    (hproducer : c.range.producer = .reading height (.done item))
    (hreads : c'.reads = c.reads ++ [(height, item)])
    (hproducer' : c'.range.producer = .sending height item) :
    c'.Traces (ms ++ [.offer]) (done ++ [⟨height, item, part, h.current _ _ hproducer⟩]) [] where
  reads := by
    rw [hreads, h.reads, List.map_append]
    rfl
  moves := by
    have hmoves := h.moves.trans (List.sublist_append_left ms [.offer])
    simpa using hmoves
  current := by
    intro _ _ hreading
    rw [hproducer'] at hreading
    cases hreading

/-- A read that begins is made of nothing yet. -/
theorem Traces.of_read (h : c.Traces ms done part) (hreads : c'.reads = c.reads)
    (hproducer' : c'.range.producer = .reading height .looking) :
    c'.Traces (ms ++ [.proceed]) done [] where
  reads := hreads.trans h.reads
  moves := by
    rw [List.append_nil]
    exact (List.sublist_append_left _ part).trans
      (h.moves.trans (List.sublist_append_left ms [.proceed]))
  current := by
    intro _ _ hreading
    rw [hproducer'] at hreading
    cases hreading
    exact .begin

theorem Traces.of_step (h : c.Traces ms done part) (hstep : Step c m c') :
    ∃ done' part', c'.Traces (ms ++ [m]) done' part' := by
  cases hstep with
  | read => exact ⟨_, _, h.of_read rfl rfl⟩
  | look k hproducer => exact ⟨_, h.of_look k hproducer rfl rfl⟩
  | answer reply hproducer =>
      exact ⟨_, _, h.advance rfl rfl ((h.current _ _ hproducer).answer reply)⟩
  | offer hproducer => exact ⟨_, _, h.of_offer hproducer rfl rfl⟩
  | idle | take | close | drop => exact ⟨_, _, h.pass _ rfl fun _ _ => id⟩
  | complete | leave | cut | cancel | sendBlock | sendError | tell | silence =>
      exact ⟨_, _, h.pass _ rfl nofun⟩

theorem Traces.run (h : c.Traces past done part) (ms : List Move) :
    ∃ done' part', (c.run ms).Traces (past ++ ms) done' part' := by
  induction ms generalizing c past done part with
  | nil =>
      rw [List.append_nil]
      exact ⟨done, part, h⟩
  | cons m ms ih =>
      obtain ⟨done', part', h'⟩ := h.of_step (step_step m c)
      rw [List.append_cons]
      exact ih h'

theorem traces_run (capacity start stop : Nat) (ms : List Move) :
    ∃ done part, ((begin capacity start stop).run ms).Traces ms done part := by
  have hbegin : (begin capacity start stop).Traces [] [] [] := ⟨rfl, List.Sublist.refl _, nofun⟩
  exact hbegin.run ms

/-- The blocks that were sent are those of the first finished reads. An error that was sent after
them is what the next read gave, or tells of the deadline of the next height. -/
structure Tells (c : Course) (prior : List (Nat × Item)) (rest : List Item) : Prop where
  sends : c.Sends prior rest
  first : prior <+: c.reads
  ends : rest = [] ∨ ∃ height e, c.range.heights[prior.length]? = some height ∧
    rest = [.error e] ∧
      (e = .deadlineExceeded height ∨ prior ++ [(height, .error e)] <+: c.reads)

theorem Tells.frame (h : c.Tells prior rest) (hheights : c'.range.heights = c.range.heights)
    (hsent : c'.sent = c.sent) (hreads : c.reads <+: c'.reads) : c'.Tells prior rest where
  sends := h.sends.frame hheights hsent
  first := h.first.trans hreads
  ends := by
    refine h.ends.imp_right ?_
    rintro ⟨height, e, hheight, hrest, hwhy⟩
    exact ⟨height, e, hheights ▸ hheight, hrest, hwhy.imp_right fun hread => hread.trans hreads⟩

/-- The item that is being sent comes after the blocks of the reads before it. -/
theorem Stage.tells_of_sending (h : Stage c) (hproducer : c.range.producer = .sending height item) :
    ∃ prior, prior <+: c.reads ∧ c.range.heights[prior.length]? = some height ∧ c.Sends prior [] ∧
      (c.reads = prior ++ [(height, item)] ∨ item = .error (.deadlineExceeded height)) := by
  cases h with
  | @sending _ _ prior hp _ hheight hreads hsends =>
      rw [hp] at hproducer
      cases hproducer
      exact ⟨prior, ⟨_, hreads.symm⟩, hheight, hsends, Or.inl hreads⟩
  | cutting hp hheight hsends =>
      rw [hp] at hproducer
      cases hproducer
      exact ⟨c.reads, List.prefix_refl _, hheight, hsends, Or.inr rfl⟩
  | next hp | reading hp | complete hp | failed hp | silenced hp | cancelled hp =>
      rw [hp] at hproducer
      cases hproducer

theorem Tells.of_step (h : c.Tells prior rest) (hstage : Stage c) (hstep : Step c m c') :
    ∃ prior' rest', c'.Tells prior' rest' := by
  cases hstep with
  | offer hproducer => exact ⟨prior, rest, h.frame rfl rfl (List.prefix_append _ _)⟩
  | sendBlock hproducer =>
      obtain ⟨before, _, hheight, hsends, hreads | hcut⟩ := hstage.tells_of_sending hproducer
      · exact ⟨_, [], hsends.snoc rfl hheight rfl, ⟨[], by simp [hreads]⟩, Or.inl rfl⟩
      · cases hcut
  | @sendError height e hproducer =>
      obtain ⟨before, hbefore, hheight, hsends, hwhy⟩ := hstage.tells_of_sending hproducer
      refine ⟨before, _, hsends.concat rfl rfl, hbefore, Or.inr ⟨height, e, hheight, rfl, ?_⟩⟩
      rcases hwhy with hreads | hcut
      · exact Or.inr ⟨[], by simp [hreads]⟩
      · cases hcut
        exact Or.inl rfl
  | @tell height item hproducer =>
      -- the item in hand is given up, so that its height is the one that the error tells of
      obtain ⟨before, hbefore, hheight, hsends, -⟩ := hstage.tells_of_sending hproducer
      exact ⟨before, _, hsends.concat rfl rfl, hbefore,
        Or.inr ⟨height, _, hheight, rfl, Or.inl rfl⟩⟩
  | _ => exact ⟨prior, rest, h.frame rfl rfl (List.prefix_refl _)⟩

theorem tells_run (capacity start stop : Nat) (ms : List Move) :
    ∃ prior rest, ((begin capacity start stop).run ms).Tells prior rest := by
  have hrun : Stage ((begin capacity start stop).run ms) ∧
      ∃ prior rest, ((begin capacity start stop).run ms).Tells prior rest := by
    refine run_induction (P := fun c => Stage c ∧ ∃ prior rest, c.Tells prior rest)
      ⟨stage_begin capacity start stop, [], [], ⟨rfl, by simp, rfl⟩, List.prefix_refl _,
        Or.inl rfl⟩ ?_ ms
    rintro m c ⟨hstage, prior, rest, h⟩
    exact ⟨hstage.of_step (step_step m c), h.of_step hstage (step_step m c)⟩
  exact hrun.2

/-- Nothing reaches the reader but what was sent, in order. -/
def Keeps (c : Course) : Prop := c.range.taken ++ c.range.buffer <+: c.sent

theorem Keeps.of_step (h : Keeps c) (hdelivers : Delivers c) (hstep : Step c m c') : Keeps c' := by
  cases hstep with
  | sendBlock _ hopen | sendError _ hopen | tell _ hopen =>
      refine ⟨[], ?_⟩
      simp only [← hdelivers hopen, List.append_assoc, List.append_nil]
  | @take item rest hbuffer =>
      have hsame : c.range.taken ++ [item] ++ rest = c.range.taken ++ c.range.buffer := by
        rw [hbuffer, List.append_assoc]
        rfl
      unfold Keeps
      rw [hsame]
      exact h
  | drop =>
      -- what was in the buffer is lost, but what came before it was sent before it
      refine List.IsPrefix.trans ?_ h
      exact List.prefix_append_right_inj _ |>.mpr (List.nil_prefix)
  | _ => exact h

theorem keeps_run (capacity start stop : Nat) (ms : List Move) :
    Keeps ((begin capacity start stop).run ms) := by
  have hrun : Delivers ((begin capacity start stop).run ms) ∧
      Keeps ((begin capacity start stop).run ms) := by
    refine run_induction (P := fun c => Delivers c ∧ Keeps c)
      ⟨fun _ => rfl, [], rfl⟩ ?_ ms
    rintro m c ⟨hdelivers, h⟩
    exact ⟨hdelivers.of_step (step_step m c), h.of_step hdelivers (step_step m c)⟩
  exact hrun.2

theorem run_append (ms more : List Move) (c : Course) : c.run (ms ++ more) = (c.run ms).run more :=
  List.foldl_append

theorem heights_of_step (hstep : Step c m c') : c'.range.heights = c.range.heights := by
  cases hstep <;> rfl

theorem heights_run (ms : List Move) (c : Course) : (c.run ms).range.heights = c.range.heights :=
  run_induction (P := fun c' => c'.range.heights = c.range.heights) rfl
    (fun m c' h => (heights_of_step (step_step m c')).trans h) ms

theorem taken_prefix_of_step (hstep : Step c m c') : c.range.taken <+: c'.range.taken := by
  cases hstep with
  | take => exact List.prefix_append _ _
  | _ => exact List.prefix_refl _

/-- What the reader has taken stays taken. -/
theorem taken_prefix_run (ms : List Move) (c : Course) :
    c.range.taken <+: (c.run ms).range.taken :=
  run_induction (P := fun c' => c.range.taken <+: c'.range.taken) (List.prefix_refl _)
    (fun m c' h => h.trans (taken_prefix_of_step (step_step m c'))) ms

end Course

/-- A range has no height twice. -/
theorem Range.nodup_heights (r : Range) : r.heights.Nodup := by
  refine List.pairwise_map.mpr (List.Pairwise.imp_of_mem ?_ List.pairwise_lt_range)
  intro i j hi hj hlt
  rw [List.mem_range, span] at hi hj
  by_cases hup : r.start ≤ r.stop
  · rw [if_pos hup, if_pos hup]
    omega
  · rw [if_neg hup, if_neg hup]
    omega

namespace ReadTrace

variable {done done' : List ReadTrace} {last last' : Option Error} {xs : List Item}
  {hs : List Nat} {ms : List Move} {e : Error}

/-- The results of finished reads, and the error that ended them, if there is one. -/
def received (done : List ReadTrace) (last : Option Error) : List Item :=
  done.map ReadTrace.item ++ last.toList.map .error

theorem prefix_received_iff :
    xs <+: received done last ↔
      xs <+: done.map ReadTrace.item ∨ xs = received done last := by
  cases last with
  | none =>
      rw [received, Option.toList_none, List.map_nil, List.append_nil]
      exact ⟨Or.inl, fun h => h.elim id fun heq => ⟨[], by rw [heq, List.append_nil]⟩⟩
  | some e => exact List.prefix_concat_iff.trans or_comm

/-- The reads gave blocks at the first of the heights, each is made of moves of its own, and an
error after them is what the next read gave, or it tells of the deadline of the next height. -/
structure Account (hs : List Nat) (ms : List Move) (done : List ReadTrace)
    (last : Option Error) : Prop where
  first : done.map ReadTrace.height = hs.take done.length
  blocks : ∀ x ∈ done, ∃ b, x.item = .ok b
  moves : (done.flatMap ReadTrace.moves).Sublist ms
  ends : ∀ e, last = some e → ∃ height, hs[done.length]? = some height ∧
    (e = .deadlineExceeded height ∨ ∃ x : ReadTrace, x.height = height ∧ x.item = .error e ∧
      (done.flatMap ReadTrace.moves ++ x.moves).Sublist ms)

theorem sublist_flatMap_moves (h : done' <+: done) :
    (done'.flatMap ReadTrace.moves).Sublist (done.flatMap ReadTrace.moves) := by
  obtain ⟨others, rfl⟩ := h
  rw [List.flatMap_append]
  exact List.sublist_append_left _ _

theorem Account.of_isPrefix (h : Account hs ms done last) (hdone : done' <+: done) :
    Account hs ms done' none where
  first := by
    obtain ⟨others, rfl⟩ := hdone
    have hfirst := congrArg (List.take done'.length) h.first
    rw [List.map_append, List.take_append_of_le_length (by simp), List.take_take,
      List.take_of_length_le (by simp)] at hfirst
    rw [hfirst, Nat.min_eq_left (by simp)]
  blocks := fun x hx => h.blocks x (hdone.subset hx)
  moves := (sublist_flatMap_moves hdone).trans h.moves
  ends := nofun

/-- What came first is accounted for in the same way. -/
theorem Account.exists_of_isPrefix (h : Account hs ms done last)
    (hreceived : xs <+: received done last) :
    ∃ done' last', Account hs ms done' last' ∧ xs = received done' last' := by
  rcases prefix_received_iff.mp hreceived with hblocks | heq
  · obtain ⟨done', hdone, rfl⟩ := List.prefix_map_iff.mp hblocks
    exact ⟨done', none, h.of_isPrefix hdone, (List.append_nil _).symm⟩
  · exact ⟨done, last, h, heq⟩

/-- Nothing comes after an error. -/
theorem Account.received_eq_of_isPrefix (h : Account hs ms done' last')
    (hreceived : received done (some e) <+: received done' last') :
    received done (some e) = received done' last' := by
  rcases prefix_received_iff.mp hreceived with hblocks | heq
  · have hmem : .error e ∈ done'.map ReadTrace.item :=
      hblocks.subset (by simp [received])
    obtain ⟨x, hx, herror⟩ := List.mem_map.mp hmem
    obtain ⟨b, hb⟩ := h.blocks x hx
    rw [hb] at herror
    cases herror
  · exact heq

end ReadTrace

namespace Course

variable {c : Course} {ms : List Move} {done blocks : List ReadTrace} {part : List Move}
  {prior : List (Nat × Item)} {rest : List Item}

theorem Traces.account (h : c.Traces ms done part) (hblocks : blocks <+: done)
    (hsends : c.Sends (blocks.map fun x => (x.height, x.item)) rest) :
    ReadTrace.Account c.range.heights ms blocks none where
  first := by
    have hheights := hsends.heights
    rwa [List.map_map, List.length_map] at hheights
  blocks := fun x hx => hsends.blocks _ (List.mem_map_of_mem hx)
  moves := (ReadTrace.sublist_flatMap_moves hblocks).trans
    ((List.sublist_append_left _ part).trans h.moves)
  ends := nofun

/-- What was sent is accounted for by the reads. -/
theorem Traces.exists_account (h : c.Traces ms done part) (htells : c.Tells prior rest) :
    ∃ blocks last, ReadTrace.Account c.range.heights ms blocks last ∧
      c.sent = ReadTrace.received blocks last := by
  obtain ⟨hsends, hfirst, hends⟩ := htells
  rw [h.reads] at hfirst hends
  obtain ⟨blocks, hblocks, rfl⟩ := List.prefix_map_iff.mp hfirst
  have hsent : ∀ last : Option Error, rest = last.toList.map .error →
      c.sent = ReadTrace.received blocks last := by
    rintro last rfl
    rw [hsends.sent, List.map_map]
    rfl
  have haccount := h.account hblocks hsends
  rcases hends with hnone | ⟨height, e, hheight, hrest, hwhy⟩
  · exact ⟨blocks, none, haccount, hsent none hnone⟩
  · refine ⟨blocks, some e, { haccount with ends := ?_ }, hsent (some e) hrest⟩
    rintro e' ⟨⟩
    rw [List.length_map] at hheight
    refine ⟨height, hheight, hwhy.imp_right fun hread => ?_⟩
    obtain ⟨others, rfl⟩ := hblocks
    rw [List.map_append, List.prefix_append_right_inj] at hread
    obtain ⟨next, hnext, hmap⟩ := List.prefix_map_iff.mp hread
    obtain ⟨x, rfl, hx⟩ := List.map_eq_singleton_iff.mp hmap.symm
    obtain ⟨rfl, hitem⟩ := Prod.mk.inj hx
    refine ⟨x, rfl, hitem, ?_⟩
    have hmoves := ReadTrace.sublist_flatMap_moves
      ((List.prefix_append_right_inj blocks).mpr hnext)
    rw [List.flatMap_append, List.flatMap_singleton] at hmoves
    exact hmoves.trans ((List.sublist_append_left _ part).trans h.moves)

/-- A reader gets the blocks that the reads of the first heights gave, no height being left out
or read twice, then one error at most, and after the error nothing. -/
theorem taken_run_eq_received (capacity start stop : Nat) (ms : List Move) :
    ∃ done last,
      ReadTrace.Account (Range.begin capacity start stop).heights ms done last ∧
      (done.map ReadTrace.height).Nodup ∧
      ((begin capacity start stop).run ms).range.taken = ReadTrace.received done last ∧
      (last.isSome = true → ∀ more, ((begin capacity start stop).run (ms ++ more)).range.taken =
        ((begin capacity start stop).run ms).range.taken) := by
  have haccount : ∀ ms, ∃ done last,
      ReadTrace.Account (Range.begin capacity start stop).heights ms done last ∧
        ((begin capacity start stop).run ms).range.taken = ReadTrace.received done last := by
    intro ms
    obtain ⟨done, part, htraces⟩ := traces_run capacity start stop ms
    obtain ⟨prior, rest, htells⟩ := tells_run capacity start stop ms
    obtain ⟨blocks, last, hblocks, hsent⟩ := htraces.exists_account htells
    have hkeeps := keeps_run capacity start stop ms
    unfold Keeps at hkeeps
    rw [hsent] at hkeeps
    rw [heights_run] at hblocks
    exact hblocks.exists_of_isPrefix ((List.prefix_append _ _).trans hkeeps)
  obtain ⟨done, last, hdone, htaken⟩ := haccount ms
  refine ⟨done, last, hdone, ?_, htaken, fun hlast more => ?_⟩
  · rw [hdone.first]
    exact (Range.nodup_heights _).sublist (List.take_sublist _ _)
  · obtain ⟨done', last', hdone', htaken'⟩ := haccount (ms ++ more)
    obtain ⟨e, rfl⟩ := Option.isSome_iff_exists.mp hlast
    have hgrows := taken_prefix_run more ((begin capacity start stop).run ms)
    rw [← run_append, htaken, htaken'] at hgrows
    rw [htaken, htaken', hdone'.received_eq_of_isPrefix hgrows]

end Course

end LightServer.Retrieval
