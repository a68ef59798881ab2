import LightServer.Proofs.Ingest.Intake

/-!
# Storms of rewinds

A source that contradicts itself has a block that does not name the one below it
as its parent. A round that comes to it goes back by the rewind step, finds
again what it has already stored, climbs to the same place, and goes back again.
The limit of the reorgs in a row is of no use against this, because the count
starts over with each stored block. `Storms` describes the heights from which
that happens, and from every other height a round over a source that ends
somewhere returns.
-/

namespace LightServer.Ingest

open Cache

def Joined (source : Nat → FetchReply) (height : Nat) : Prop :=
  ∃ a b, source height = .ok (some a) ∧ source (height + 1) = .ok (some b) ∧ b.Extends a.hash

/-- The source has blocks at the height and above it, and they are not linked. -/
def Torn (source : Nat → FetchReply) (height : Nat) : Prop :=
  ∃ a b, source height = .ok (some a) ∧ source (height + 1) = .ok (some b) ∧ ¬ b.Extends a.hash

/-- Going up from a height, the first place that is not joined is torn, and it is at `top`. -/
structure Breaks (source : Nat → FetchReply) (height top : Nat) : Prop where
  le : height ≤ top
  joined : ∀ h, height ≤ h → h < top → Joined source h
  torn : Torn source top

/-- From the height a round goes up and back forever. -/
inductive Storms (source : Nat → FetchReply) (step : Nat) : Nat → Prop where
  | again {height top : Nat} (hbreaks : Breaks source height top) (hle : height ≤ top + 1 - step) :
      Storms source step height
  | back {height top : Nat} (hbreaks : Breaks source height top)
      (hstorms : Storms source step (top + 1 - step)) : Storms source step height

/-- Nothing in the cache can make the block at the height a reorg: the cache is untouched, or it
holds blocks of the source beyond that height. -/
inductive Ready (source : Nat → FetchReply) (height : Nat) (w : Cache) : Prop where
  | fresh (hcodec : w.codec = .standard) (hwindow : w.window = none) (hentries : w.entries = ∅)
  | behind {next : Nat} (hfrom : HoldsFrom source next w) (hlt : height < next)

def Returns {ω : Type} (c : Config) (env : Environment ω) (s : State) (w : ω) : Prop :=
  ∃ result s' w', Ends c env s w (result, s', w') ∧
    (result = .ok .caughtUp ∨ result = .ok .abandoned ∨
      ∃ rounds height, result = .error (.reorgTooDeep rounds height))

section Climb

variable {c : Config} {source : Nat → FetchReply} {s : State} {w : Cache}
  {x k f top : Nat} {b : CompactBlock}

theorem Leads.returns {n : Nat} {s' : State} {w' : Cache}
    (h : Leads c (fixedSource source) n s w s' w') (hr : Returns c (fixedSource source) s' w') :
    Returns c (fixedSource source) s w := by
  obtain ⟨result, s'', w'', hends, hresult⟩ := hr
  exact ⟨result, s'', w'', h.ends hends, hresult⟩

theorem Joined.source_eq (h : Joined source x) : ∃ b, source x = .ok (some b) := by
  obtain ⟨a, b, ha, -, -⟩ := h
  exact ⟨a, ha⟩

theorem Torn.source_eq (h : Torn source x) : ∃ b, source x = .ok (some b) := by
  obtain ⟨a, b, ha, -, -⟩ := h
  exact ⟨a, ha⟩

theorem Breaks.source_eq (h : Breaks source x top) : ∃ b, source x = .ok (some b) := by
  rcases Nat.eq_or_lt_of_le h.le with rfl | hlt
  · exact h.torn.source_eq
  · exact (h.joined x (Nat.le_refl x) hlt).source_eq

/-- A block that was stored before is stored again. -/
theorem Ready.leads (hready : Ready source x w) (hs : s.Asks c.rewindStep x k f)
    (hk : k ≤ c.maxReorgRounds) (hx : source x = .ok (some b)) :
    ∃ w', Leads c (fixedSource source) 1 s w (State.stored ⟨x, k, f, false⟩) w' ∧
      HoldsFrom source (x + 1) w' := by
  cases hready with
  | fresh hcodec hwindow hentries => exact leads_of_fresh hwindow hentries hcodec hs hk hx
  | behind hfrom hlt =>
      obtain ⟨hcodec, first, bs, hc, hend, hblocks⟩ := hfrom
      refine leads_of_fits hc hcodec hs hk hx (by omega) (fun g y _ hy => hblocks g y hy)
        fun g y hg hy => ?_
      have hbelow := exists_blockAt?_iff.mp ⟨_, hy⟩
      obtain ⟨q, hq⟩ : ∃ q, blockAt? first bs (g + 1) = some q :=
        exists_blockAt?_iff.mpr (by omega)
      -- the cached block at the height is the one that the source offers again
      have hqx := hblocks (g + 1) q hq
      rw [← hg, hx] at hqx
      cases hqx
      exact hc.extends_blockAt? hy hq

/-- Along joined heights every block is stored. -/
theorem HoldsFrom.leads_of_joined {n : Nat} (hfrom : HoldsFrom source (x + 1) w)
    (hs : s.Asks c.rewindStep (x + 1) 0 f) (hjoined : ∀ h, x ≤ h → h < x + n → Joined source h) :
    ∃ s' w' f', Leads c (fixedSource source) n s w s' w' ∧
      s'.Asks c.rewindStep (x + n + 1) 0 f' ∧ HoldsFrom source (x + n + 1) w' := by
  induction n generalizing s w x f with
  | zero => exact ⟨s, w, f, Leads.refl s w, hs, hfrom⟩
  | succ n ih =>
      obtain ⟨a, b, ha, hb, hext⟩ := hjoined x (Nat.le_refl x) (by omega)
      obtain ⟨w₁, hleads₁, hfrom₁⟩ := hfrom.leads_of_extends hs (Nat.zero_le _) hb
        fun g y hg hy => by
          cases hg
          rw [ha] at hy
          cases hy
          exact hext
      obtain ⟨s', w', f', hleads, hs', hfrom'⟩ := ih hfrom₁ (State.asks_stored _ (x + 1) 0 f)
        fun h hxh hhn => hjoined h (by omega) (by omega)
      have hwhole := hleads₁.trans hleads
      rw [Nat.add_comm 1 n] at hwhole
      rw [show x + 1 + n + 1 = x + (n + 1) + 1 by omega] at hs' hfrom'
      exact ⟨s', w', f', hwhole, hs', hfrom'⟩

/-- A round goes up to the first place that is not joined. -/
theorem Ready.leads_of_joined (hready : Ready source x w) (hs : s.Asks c.rewindStep x k f)
    (hk : k ≤ c.maxReorgRounds) (hx : source x = .ok (some b)) (hle : x ≤ top)
    (hjoined : ∀ h, x ≤ h → h < top → Joined source h) :
    ∃ n s' w' f', 0 < n ∧ Leads c (fixedSource source) n s w s' w' ∧
      s'.Asks c.rewindStep (top + 1) 0 f' ∧ HoldsFrom source (top + 1) w' := by
  obtain ⟨n, rfl⟩ := Nat.exists_eq_add_of_le hle
  obtain ⟨w₁, hleads₁, hfrom₁⟩ := hready.leads hs hk hx
  obtain ⟨s', w', f', hleads, hs', hfrom'⟩ :=
    hfrom₁.leads_of_joined (State.asks_stored _ x k f) hjoined
  exact ⟨1 + n, s', w', f', by omega, hleads₁.trans hleads, hs', hfrom'⟩

/-- A torn place sends the round back to where nothing can be a reorg. -/
theorem HoldsFrom.leads_of_torn (hfrom : HoldsFrom source (top + 1) w)
    (hs : s.Asks c.rewindStep (top + 1) k f) (hk : k ≤ c.maxReorgRounds) (hstep : 0 < c.rewindStep)
    (htorn : Torn source top) :
    ∃ w', Leads c (fixedSource source) 1 s w (State.reorg ⟨top + 1, k, f, false⟩) w' ∧
      Ready source (top + 1 - c.rewindStep) w' := by
  obtain ⟨hcodec, first, bs, hc, hend, hblocks⟩ := hfrom
  obtain ⟨a, b, ha, hb, hmisfit⟩ := htorn
  have hpos := hc.length_pos
  obtain ⟨p, hp⟩ : ∃ p, blockAt? first bs top = some p :=
    exists_blockAt?_iff.mpr (by omega)
  have hpa := hblocks top p hp
  rw [ha] at hpa
  cases hpa
  obtain ⟨w', bs', hleads, hcodec', hc', hend', hcontents⟩ :=
    leads_of_misfit hc hcodec hs hk hb hp hmisfit
  have hfrom' : HoldsFrom source (top + 1) w' :=
    ⟨hcodec', first, bs', hc', hend', fun g y hy => hblocks g y ((hcontents g y).mp hy).2⟩
  exact ⟨w', hleads, Ready.behind hfrom' (by omega)⟩

end Climb

section Storm

variable {c : Config} {source : Nat → FetchReply} {s : State} {w : Cache} {x k f top : Nat}

/-- One cycle of a storm: up to the torn place and back. -/
theorem Ready.leads_of_breaks (hready : Ready source x w) (hs : s.Asks c.rewindStep x k f)
    (hk : k ≤ c.maxReorgRounds) (hstep : 0 < c.rewindStep) (hbreaks : Breaks source x top) :
    ∃ n s' w' f', 0 < n ∧ Leads c (fixedSource source) n s w s' w' ∧
      s'.Asks c.rewindStep (top + 1 - c.rewindStep) 1 f' ∧
      Ready source (top + 1 - c.rewindStep) w' := by
  obtain ⟨b, hb⟩ := hbreaks.source_eq
  obtain ⟨n, s₁, w₁, f₁, hpos, hleads₁, hs₁, hfrom₁⟩ :=
    hready.leads_of_joined hs hk hb hbreaks.le hbreaks.joined
  obtain ⟨w₂, hleads₂, hready₂⟩ := hfrom₁.leads_of_torn hs₁ (Nat.zero_le _) hstep hbreaks.torn
  exact ⟨n + 1, _, w₂, f₁, by omega, hleads₁.trans hleads₂, State.asks_reorg _ _ _ _, hready₂⟩

/-- After a cycle of a storm the next one begins. -/
theorem Storms.exists_breaks (h : Storms source c.rewindStep x) (hstep : 0 < c.rewindStep) :
    ∃ top, Breaks source x top ∧ Storms source c.rewindStep (top + 1 - c.rewindStep) := by
  cases h with
  | @again _ top hbreaks hle =>
      have hbreaks' : Breaks source (top + 1 - c.rewindStep) top := {
        le := by omega
        joined := fun h hh hlt => hbreaks.joined h (Nat.le_trans hle hh) hlt
        torn := hbreaks.torn }
      exact ⟨top, hbreaks, Storms.again hbreaks' (Nat.le_refl _)⟩
  | @back _ top hbreaks hstorms => exact ⟨top, hbreaks, hstorms⟩

/-- A storm has no end. -/
theorem Storms.pollRound_eq_none (hstorms : Storms source c.rewindStep x)
    (hstep : 0 < c.rewindStep) (hrounds : 0 < c.maxReorgRounds) (hready : Ready source x w)
    (hs : s.Asks c.rewindStep x k f) (hk : k ≤ c.maxReorgRounds) (fuel : Nat) :
    pollRound c (fixedSource source) fuel s w = none := by
  refine pollRound_eq_none_of_progress (I := fun s w => ∃ x k f, s.Asks c.rewindStep x k f ∧
    k ≤ c.maxReorgRounds ∧ Ready source x w ∧ Storms source c.rewindStep x) ?_ fuel
    ⟨x, k, f, hs, hk, hready, hstorms⟩
  rintro s w ⟨x, k, f, hs, hk, hready, hstorms⟩
  obtain ⟨top, hbreaks, hstorms'⟩ := hstorms.exists_breaks hstep
  obtain ⟨n, s', w', f', hpos, hleads, hs', hready'⟩ :=
    hready.leads_of_breaks hs hk hstep hbreaks
  exact ⟨n, s', w', hpos, hleads, _, 1, f', hs', hrounds, hready', hstorms'⟩

/-- Above every height there is a first place that is not joined, if the source ends somewhere. -/
theorem exists_not_joined {T : Nat} (hfinite : ∀ h, T < h → source h = .ok none) (x : Nat) :
    ∃ top, x ≤ top ∧ (∀ h, x ≤ h → h < top → Joined source h) ∧ ¬ Joined source top := by
  induction hleft : T + 1 - x generalizing x with
  | zero =>
      refine ⟨x, Nat.le_refl x, fun h hxh hhx => absurd hxh (Nat.not_le.mpr hhx), ?_⟩
      intro hjoined
      obtain ⟨b, hb⟩ := hjoined.source_eq
      rw [hfinite x (by omega)] at hb
      cases hb
  | succ n ih =>
      by_cases hx : Joined source x
      · obtain ⟨top, hle, hjoined, htop⟩ := ih (x + 1) (by omega)
        refine ⟨top, by omega, fun h hxh hht => ?_, htop⟩
        rcases Nat.eq_or_lt_of_le hxh with rfl | hlt
        · exact hx
        · exact hjoined h hlt hht
      · exact ⟨x, Nat.le_refl x, fun h hxh hhx => absurd hxh (Nat.not_le.mpr hhx), hx⟩

theorem returns_of_none (hs : s.Asks c.rewindStep x k f) (hk : k ≤ c.maxReorgRounds)
    (hx : source x = .ok none) : Returns c (fixedSource source) s w :=
  ⟨_, _, _, ends_of_none hs hk hx, Or.inl rfl⟩

theorem returns_of_error {e : Node.SourceError} (hs : s.Asks c.rewindStep x k f)
    (hk : k ≤ c.maxReorgRounds) (hx : source x = .error e) :
    Returns c (fixedSource source) s w :=
  ⟨_, _, _, ends_of_error hs hk hx, Or.inr (Or.inl rfl)⟩

theorem returns_of_tooDeep (hs : s.Asks c.rewindStep x k f) (hk : c.maxReorgRounds < k) :
    Returns c (fixedSource source) s w :=
  ⟨_, _, _, ends_of_tooDeep hs hk, Or.inr (Or.inr ⟨k, x, rfl⟩)⟩

/-- Without a storm each rewind goes to a lower height than the one before, so the round
returns. -/
theorem Ready.returns {T : Nat} (hfinite : ∀ h, T < h → source h = .ok none)
    (hstep : 0 < c.rewindStep) (hready : Ready source x w) (hs : s.Asks c.rewindStep x k f)
    (hk : k ≤ c.maxReorgRounds)
    (hcalm : ¬ (0 < c.maxReorgRounds ∧ Storms source c.rewindStep x)) :
    Returns c (fixedSource source) s w := by
  induction x using Nat.strongRecOn generalizing s w k f with
  | ind x ih =>
      obtain ⟨top, hle, hjoined, htop⟩ := exists_not_joined hfinite x
      match hx : source x with
      | .ok none => exact returns_of_none hs hk hx
      | .error e => exact returns_of_error hs hk hx
      | .ok (some b) =>
          obtain ⟨n, s₁, w₁, f₁, -, hleads₁, hs₁, hfrom₁⟩ :=
            hready.leads_of_joined hs hk hx hle hjoined
          refine hleads₁.returns ?_
          match habove : source (top + 1) with
          | .ok none => exact returns_of_none hs₁ (Nat.zero_le _) habove
          | .error e => exact returns_of_error hs₁ (Nat.zero_le _) habove
          | .ok (some d) =>
              obtain ⟨a, ha⟩ := hfrom₁.source_last
              have htorn : Torn source top :=
                ⟨a, d, ha, habove, fun hext => htop ⟨a, d, ha, habove, hext⟩⟩
              have hbreaks : Breaks source x top := ⟨hle, hjoined, htorn⟩
              obtain ⟨w₂, hleads₂, hready₂⟩ :=
                hfrom₁.leads_of_torn hs₁ (Nat.zero_le _) hstep htorn
              have hs₂ := State.asks_reorg c.rewindStep (top + 1) 0 f₁
              refine hleads₂.returns ?_
              by_cases hrounds : 0 < c.maxReorgRounds
              · have hback : top + 1 - c.rewindStep < x :=
                  Nat.not_le.mp fun hagain => hcalm ⟨hrounds, Storms.again hbreaks hagain⟩
                exact ih _ hback hready₂ hs₂ hrounds fun hstorm =>
                  hcalm ⟨hrounds, Storms.back hbreaks hstorm.2⟩
              · exact returns_of_tooDeep hs₂ (by omega)

theorem Config.rewindStep_pos (hvalid : c.validate = .ok ()) : 0 < c.rewindStep := by
  rcases Nat.eq_zero_or_pos c.rewindStep with hzero | hpos
  · unfold validate at hvalid
    rw [if_pos hzero] at hvalid
    split at hvalid <;> cases hvalid
  · exact hpos

theorem returns_iff_fixedSource {ω : Type} {env : Environment ω} {cache : ω → Cache}
    (hfeeds : env.Feeds cache) (hserves : env.Serves source) {w : ω} :
    Returns c (fixedSource source) s (cache w) ↔ Returns c env s w := by
  constructor
  · rintro ⟨result, s', k, hends, hresult⟩
    obtain ⟨w', -, hends'⟩ := (ends_iff_fixedSource hfeeds hserves).mp hends
    exact ⟨result, s', w', hends', hresult⟩
  · rintro ⟨result, s', w', hends, hresult⟩
    exact ⟨result, s', cache w', (ends_iff_fixedSource hfeeds hserves).mpr ⟨w', rfl, hends⟩,
      hresult⟩

end Storm

end LightServer.Ingest

namespace LightServer.Server.Assembly

open Ingest

section Round

variable {ν : Type} {p : NodeAccess ν} {source : Nat → FetchReply} {c : Ingest.Config}
  {w : CatchUp ν} {start maxEntries : Nat}

theorem pollRound_eq_none_of_storms (hp : p.Answers source) (hstep : 0 < c.rewindStep)
    (hcache : w.backend.cache = .empty .standard maxEntries) (hrounds : 0 < c.maxReorgRounds)
    (hstorms : Storms source c.rewindStep start) (fuel : Nat) :
    pollRound c (catchUpEnvironment p) fuel (.start start) w = none := by
  have hready : Ready source start w.backend.cache := by
    rw [hcache]
    exact Ready.fresh rfl rfl rfl
  refine (pollRound_eq_none_iff_fixedSource (feeds_catchUpEnvironment p)
    (serves_catchUpEnvironment hp)).mp ?_
  exact hstorms.pollRound_eq_none hstep hrounds hready (State.asks_start _ start) (Nat.zero_le _)
    fuel

/-- Over a source that ends somewhere, a round on an empty cache returns exactly when its start
is not one of the heights from which the rewinds go on forever. -/
theorem returns_iff_not_storms {T : Nat} (hp : p.Answers source)
    (hfinite : ∀ h, T < h → source h = .ok none) (hvalid : c.validate = .ok ())
    (hcache : w.backend.cache = .empty .standard maxEntries) :
    Returns c (catchUpEnvironment p) (.start start) w ↔
      ¬ (0 < c.maxReorgRounds ∧ Storms source c.rewindStep start) := by
  have hstep := Ingest.Config.rewindStep_pos hvalid
  constructor
  · rintro ⟨result, s', w', ⟨fuel, hfuel⟩, -⟩ ⟨hrounds, hstorms⟩
    rw [pollRound_eq_none_of_storms hp hstep hcache hrounds hstorms fuel] at hfuel
    cases hfuel
  · intro hcalm
    refine (returns_iff_fixedSource (feeds_catchUpEnvironment p)
      (serves_catchUpEnvironment hp)).mp ?_
    have hready : Ready source start w.backend.cache := by
      rw [hcache]
      exact Ready.fresh rfl rfl rfl
    exact hready.returns hfinite hstep (State.asks_start _ start) (Nat.zero_le _) hcalm

end Round

def tornSource : Nat → FetchReply
  | 0 => .ok (some (Sample.marked 0 1 0))
  | 1 => .ok (some (Sample.marked 1 2 9))
  | _ => .ok none

def freshServer : CatchUp Unit := ⟨⟨(), .empty .standard 100, {}, 0⟩, false⟩

theorem tornSource_of_lt (h : Nat) (hh : 1 < h) : tornSource h = .ok none := by
  match h, hh with
  | h + 2, _ => rfl

theorem torn_tornSource : Torn tornSource 0 :=
  ⟨Sample.marked 0 1 0, Sample.marked 1 2 9, rfl, rfl, by decide⟩

theorem returns_iff_not_storms_of_tornSource :
    (∀ h, 1 < h → tornSource h = .ok none) ∧ Ingest.Config.default.validate = .ok () ∧
      (Returns .default (catchUpEnvironment (.ofSource tornSource)) (.start 1) freshServer ↔
        ¬ (0 < 10 ∧ Storms tornSource 10 1)) :=
  ⟨tornSource_of_lt, rfl, returns_iff_not_storms (NodeAccess.answers_ofSource tornSource)
    tornSource_of_lt rfl rfl⟩

/-- With the default settings a round over two blocks that are not linked never returns. -/
theorem pollRound_tornSource_eq_none :
    (∀ h, 1 < h → tornSource h = .ok none) ∧ Ingest.Config.default.validate = .ok () ∧
      ∀ fuel, pollRound .default (catchUpEnvironment (.ofSource tornSource)) fuel (.start 0)
        freshServer = none := by
  have hbreaks : Breaks tornSource 0 0 := {
    le := Nat.le_refl 0
    joined := fun h _ hlt => absurd hlt (Nat.not_lt_zero h)
    torn := torn_tornSource }
  refine ⟨tornSource_of_lt, rfl, fun fuel => ?_⟩
  exact pollRound_eq_none_of_storms (NodeAccess.answers_ofSource tornSource) (by decide) rfl
    (by decide) (Storms.again hbreaks (Nat.zero_le _)) fuel

end LightServer.Server.Assembly
