import LightServer.Proofs.Ingest.Intake
import LightServer.Proofs.Ingest.Visits

/-!
# The pace of the ingestor

The height that the ingestor asks for and the window of its cache move on their
own. As long as nobody else writes to the cache they keep pace: the height is
never beyond the one that the cache takes next, and every reorg that was counted
since a block was last stored has brought it down by a rewind step, until it is
at the first cached height or below. There every block is stored, so the reorgs
in a row go back by less than the cache has room for.
-/

namespace LightServer.Ingest

open Cache

variable {c : Config} {step limit : Nat} {P Q : Nat → CompactBlock → Prop} {s s' : State}
  {w : Cache} {first : Nat} {bs : List CompactBlock} {b : CompactBlock}

structure Near (step limit : Nat) (s : State) (first next : Nat) : Prop where
  le_next : s.height ≤ next
  near : (s.rewind step).height ≤ first ∨
    (s.rewind step).height + s.reorgCount * step ≤ first + limit

/-- The ingestor and the cache keep pace, and what is cached has the property `P`. -/
structure Pace (step limit : Nat) (P : Nat → CompactBlock → Prop) (s : State) (w : Cache) :
    Prop where
  codec : w.codec = .standard
  capacity : w.capacity = limit
  shallow : s.reorgCount * step < limit + step
  run : (w.window = none ∧ w.entries = ∅) ∨ ∃ first bs, w.Holds first bs ∧
    Near step limit s first (first + bs.length) ∧ ∀ g y, blockAt? first bs g = some y → P g y

theorem pace_empty (step start maxEntries : Nat) (P : Nat → CompactBlock → Prop) :
    Pace step (max maxEntries 1) P (.start start) (.empty .standard maxEntries) where
  codec := rfl
  capacity := rfl
  shallow := by
    rw [State.start, Nat.zero_mul]
    omega
  run := Or.inl ⟨rfl, rfl⟩

theorem Pace.mono (h : Pace step limit P s w) (hPQ : ∀ g y, P g y → Q g y) :
    Pace step limit Q s w where
  codec := h.codec
  capacity := h.capacity
  shallow := h.shallow
  run := h.run.imp_right fun ⟨first, bs, hc, hnear, hblocks⟩ =>
    ⟨first, bs, hc, hnear, fun g y hy => hPQ g y (hblocks g y hy)⟩

/-- The pace hangs on the heights and the reorgs of the state alone. -/
theorem Pace.frame (h : Pace step limit P s w) (hheight : s'.height ≤ s.height)
    (hasked : (s'.rewind step).height = (s.rewind step).height)
    (hcount : s'.reorgCount = s.reorgCount) : Pace step limit P s' w where
  codec := h.codec
  capacity := h.capacity
  shallow := by
    rw [hcount]
    exact h.shallow
  run := by
    refine h.run.imp_right ?_
    rintro ⟨first, bs, hc, ⟨hle, hnear⟩, hblocks⟩
    refine ⟨first, bs, hc, ⟨Nat.le_trans hheight hle, ?_⟩, hblocks⟩
    rwa [hasked, hcount]

theorem Pace.rewind (h : Pace step limit P s w) : Pace step limit P (s.rewind step) w := by
  refine h.frame (State.height_rewind_le step s) ?_ (State.reorgCount_rewind step s)
  rw [State.rewind_of_not_pending (State.rewindPending_rewind step s)]

/-- A block was put at the height that was asked for, which is now the last one of the run. -/
theorem Pace.stored (hcodec : w.codec = .standard) (hcapacity : w.capacity = limit)
    (hc : w.Holds first bs) (hend : first + bs.length = s.height + 1)
    (hroom : s.height + 1 ≤ first + limit)
    (hblocks : ∀ g y, blockAt? first bs g = some y → P g y) : Pace step limit P s.stored w where
  codec := hcodec
  capacity := hcapacity
  shallow := by
    have hpos := w.capacity_pos
    rw [State.stored, Nat.zero_mul]
    omega
  run := by
    refine Or.inr ⟨first, bs, hc, ⟨Nat.le_of_eq hend.symm, Or.inr ?_⟩, hblocks⟩
    rw [State.rewind_of_not_pending rfl, State.stored, Nat.zero_mul]
    exact hroom

/-- A reorg goes back by a step for the count that it adds. -/
theorem Pace.reorg (hcodec : w.codec = .standard) (hcapacity : w.capacity = limit)
    (hc : w.Holds first bs) (hend : first + bs.length = s.height) (hlow : first < s.height)
    (hnear : s.height + s.reorgCount * step ≤ first + limit)
    (hblocks : ∀ g y, blockAt? first bs g = some y → P g y) : Pace step limit P s.reorg w where
  codec := hcodec
  capacity := hcapacity
  shallow := by
    rw [State.reorg, Nat.succ_mul]
    omega
  run := by
    refine Or.inr ⟨first, bs, hc, ⟨Nat.le_of_eq hend.symm, ?_⟩, hblocks⟩
    have hasked : (s.reorg.rewind step).height = s.height - step := rfl
    have hcount : s.reorg.reorgCount * step = s.reorgCount * step + step := Nat.succ_mul _ _
    rw [hasked, hcount]
    omega

/-- An offer at the height that is asked for is stored, or it is a reorg. In both cases the
ingestor and the cache keep pace. -/
theorem Pace.of_add (h : Pace step limit P s w) (hpending : s.rewindPending = false)
    (hb : P s.height b) :
    ∃ w', (∃ evicted, w.add s.height b = (.ok (.stored evicted), w') ∧
        Pace step limit P s.stored w') ∨
      (w.add s.height b = (.ok .reorgDetected, w') ∧ Pace step limit P s.reorg w') := by
  have hdata := encode_of_standard h.codec b
  have hcodec := (codec_add s.height b w).trans h.codec
  have hcapacity := (capacity_add s.height b w).trans h.capacity
  have hpos := w.capacity_pos
  rw [h.capacity] at hpos
  rcases h.run with ⟨hwindow, hentries⟩ | ⟨first, bs, hc, ⟨hle, hnear⟩, hblocks⟩
  · obtain ⟨w', hadd, hc'⟩ := add_of_fresh (h := s.height) hwindow hentries hdata
    rw [hadd] at hcodec hcapacity
    refine ⟨w', Or.inl ⟨none, hadd, Pace.stored hcodec hcapacity hc' rfl (by omega) ?_⟩⟩
    intro g y hy
    obtain ⟨rfl, rfl⟩ := blockAt?_singleton_eq_some_iff.mp hy
    exact hb
  rw [State.rewind_of_not_pending hpending] at hnear
  have hoffer := hc.offer hdata s.height
  generalize w.add s.height b = r at hoffer hcodec hcapacity ⊢
  cases hoffer with
  | @below w' hlow hc' =>
      refine ⟨w', Or.inl ⟨none, rfl, Pace.stored hcodec hcapacity hc' rfl (by omega) ?_⟩⟩
      intro g y hy
      obtain ⟨rfl, rfl⟩ := blockAt?_singleton_eq_some_iff.mp hy
      exact hb
  | @onTop w' hlow hhigh hroom _ hc' =>
      have hlength : (bs.take (s.height - first)).length = s.height - first :=
        List.length_take_of_le (by omega)
      rw [h.capacity] at hroom
      refine ⟨w', Or.inl ⟨none, rfl, Pace.stored hcodec hcapacity hc' ?_ (by omega) ?_⟩⟩
      · rw [List.length_append, hlength, List.length_singleton]
        omega
      · intro g y hy
        rw [blockAt?_concat, blockAt?_take, hlength, Nat.add_sub_cancel' hlow] at hy
        rcases hy with ⟨-, hy⟩ | ⟨rfl, rfl⟩
        · exact hblocks g y hy
        · exact hb
  | @pushOut w' hend hfull _ hc' =>
      have hlength := hc.length_pos
      rw [h.capacity] at hfull
      refine ⟨w', Or.inl ⟨some first, rfl, Pace.stored hcodec hcapacity hc' ?_ (by omega) ?_⟩⟩
      · rw [List.length_append, List.length_tail, List.length_singleton]
        omega
      · intro g y hy
        rw [blockAt?_concat, blockAt?_tail, List.length_tail] at hy
        rcases hy with ⟨-, hy⟩ | ⟨hg, rfl⟩
        · exact hblocks g y hy
        · rw [hg, show first + 1 + (bs.length - 1) = s.height by omega]
          exact hb
  | @reorg w' hlow hhigh hb' hc' =>
      have hlength : (bs.take (s.height - first)).length = s.height - first :=
        List.length_take_of_le (by omega)
      -- a block is left below the height, so that this is not the first cached one
      have hpast : first < s.height := by
        have hleft := hc'.length_pos
        omega
      refine ⟨w', Or.inr ⟨rfl, Pace.reorg hcodec hcapacity hc' ?_ hpast (by omega) ?_⟩⟩
      · rw [hlength]
        omega
      · intro g y hy
        exact hblocks g y (blockAt?_take.mp hy).2
  | gap hgap => omega

theorem Pace.add_ne_heightGap (h : Pace step limit P s w) (b : CompactBlock) {expected got : Nat} :
    (w.add (s.rewind step).height b).1 ≠ .error (.heightGap expected got) := by
  have htrue := h.rewind.mono (Q := fun _ _ => True) fun _ _ _ => trivial
  obtain ⟨w', ⟨evicted, hadd, -⟩ | ⟨hadd, -⟩⟩ :=
    htrue.of_add (b := b) (State.rewindPending_rewind step s) trivial
  · rw [hadd]
    exact nofun
  · rw [hadd]
    exact nofun

/-- The height is at most the one after the last cached height. -/
theorem Pace.height_le (h : Pace step limit P s w) {last : Nat}
    (hlast : w.latestHeight = some last) : s.height ≤ last + 1 := by
  rcases h.run with ⟨hwindow, -⟩ | ⟨first, bs, hc, hnear, -⟩
  · rw [latestHeight, hwindow] at hlast
    cases hlast
  · have hle := hnear.le_next
    have hpos := hc.length_pos
    rw [hc.latestHeight_eq] at hlast
    cases hlast
    omega

/-- Every entry is that of a block with the property, which readers get if it can be read back. -/
theorem Pace.exists_of_entry (h : Pace step limit P s w) {g : Nat} {e : Entry}
    (he : w.entries[g]? = some e) :
    ∃ y, P g y ∧ e.hash = y.hash ∧ (y.Storable → w.get g = .ok (some y)) := by
  rcases h.run with ⟨-, hentries⟩ | ⟨first, bs, hc, -, hblocks⟩
  · rw [hentries, Std.ExtTreeMap.getElem?_empty] at he
    cases he
  have hin : first ≤ g ∧ g < first + bs.length := by
    refine Decidable.by_contra fun hout => ?_
    rw [hc.spans.outside g (by omega)] at he
    cases he
  obtain ⟨y, hy⟩ := exists_blockAt?_iff.mpr hin
  obtain ⟨-, hi⟩ := blockAt?_eq_some_iff.mp hy
  obtain ⟨e', he', -, hhash⟩ := hc.spans.kept (g - first) y hi
  rw [Nat.add_sub_cancel' hin.1, he] at he'
  cases he'
  refine ⟨y, hblocks g y hy, hhash, fun hstorable => ?_⟩
  have hget := hc.get_add hi (by
    rw [h.codec]
    exact EntryCodec.faithful_standard hstorable)
  rwa [Nat.add_sub_cancel' hin.1] at hget

theorem Pace.afterFailure (h : Pace step limit P s w) :
    Pace step limit P (afterFailure c s).state w := by
  obtain ⟨n, hstate⟩ := exists_state_afterFailure c s
  rw [hstate]
  exact h.frame (Nat.le_refl _) (s.height_rewind_failureCount step n) rfl

section Turn

variable {ω : Type} {env : Environment ω} {cache : ω → Cache} {R : ω → Nat → CompactBlock → Prop}
  {rests : ω → ω → Prop} {s₀ : State} {v v' v₀ : ω} {t : Turn}

/-- The world remembers of a block at a height that it has the property `R`, once the block was
fetched there. -/
structure Environment.Remembers (env : Environment ω) (R : ω → Nat → CompactBlock → Prop) :
    Prop where
  fetched : ∀ height v b v', env.fetch height v = (.ok (some b), v') → R v' height b
  fetch : ∀ height v g y, R v g y → R (env.fetch height v).2 g y
  add : ∀ height b v g y, R v g y → R (env.add height b v).2 g y
  count : ∀ e v g y, R v g y → R (env.count e v) g y

theorem Environment.Remembers.countSome (hremembers : env.Remembers R) (e : Option Event) (v : ω)
    (g : Nat) (y : CompactBlock) (h : R v g y) : R (env.countSome e v) g y := by
  cases e with
  | none => exact h
  | some e => exact hremembers.count e v g y h

/-- The ingestor and the cache that it feeds keep pace in every turn. -/
theorem Pace.of_turn (hfeeds : env.Feeds cache) (hremembers : env.Remembers R)
    (h : Pace c.rewindStep limit (R v) s (cache v)) (hturn : turn c env s v = (t, v')) :
    Pace c.rewindStep limit (R v') t.state (cache v') := by
  have hfetched : Pace c.rewindStep limit (R (env.fetch (s.rewind c.rewindStep).height v).2)
      (s.rewind c.rewindStep) (cache (env.fetch (s.rewind c.rewindStep).height v).2) := by
    rw [hfeeds.fetch]
    exact h.rewind.mono (hremembers.fetch _ v)
  have hcase := turned_of_turn hturn
  cases hcase with
  | stopped => exact h
  | tooDeep => exact h.rewind
  | caughtUp hfetch =>
      rw [hfetch] at hfetched
      exact hfetched
  | failed hfetch =>
      rw [hfetch] at hfetched
      rw [hfeeds.count]
      exact hfetched.afterFailure.mono (hremembers.count _ _)
  | @offered v₁ v₂ b outcome hfetch hadd =>
      have hb := hremembers.fetched _ _ _ _ hfetch
      have houtcome := hfeeds.add_outcome (s.rewind c.rewindStep).height b v₁
      have hcache := hfeeds.add_cache (s.rewind c.rewindStep).height b v₁
      have hmono := hremembers.add (s.rewind c.rewindStep).height b v₁
      rw [hfetch] at hfetched
      rw [hadd] at houtcome hcache hmono
      simp only at houtcome hcache hmono
      rw [cache_countSome hfeeds, hcache]
      refine Pace.mono ?_ (hremembers.countSome _ v₂)
      refine Pace.mono ?_ hmono
      obtain ⟨w', ⟨evicted, hstored, hpace⟩ | ⟨hreorg, hpace⟩⟩ :=
        hfetched.of_add (State.rewindPending_rewind _ s) hb
      · rw [houtcome, hstored]
        exact hpace
      · rw [houtcome, hreorg]
        exact hpace

/-- The ingestor and the cache that it alone writes to keep pace from the beginning on. -/
theorem Visits.pace (hfeeds : env.Feeds cache) (hremembers : env.Remembers R)
    (hrests : ∀ v v', rests v v' → cache v' = cache v ∧ ∀ g y, R v g y → R v' g y)
    (hstart : Pace c.rewindStep limit (R v₀) s₀ (cache v₀))
    (hvisit : Visits c env rests s₀ v₀ s v) : Pace c.rewindStep limit (R v) s (cache v) := by
  induction hvisit with
  | start => exact hstart
  | goOn _ hturn ih => exact ih.of_turn hfeeds hremembers hturn
  | round _ hturn hrest ih =>
      obtain ⟨hcache, hmono⟩ := hrests _ _ hrest
      rw [hcache]
      exact (ih.of_turn hfeeds hremembers hturn).mono hmono

end Turn

end LightServer.Ingest
