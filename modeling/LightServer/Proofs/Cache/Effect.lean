import LightServer.Proofs.Cache.View

/-!
# The effect of an offer

Where the height of an offered block lies among the cached heights decides what
becomes of it, together with the hash of the block cached just below. `AddEffect`
tells the four cases apart by what readers see: the outcome, the window afterwards,
and below the height the same blocks as before. A reorg within the window has already
cut the window off when it is found. A reorg at the end of it and a gap leave the
cache as it is, and so does a block that the codec refuses, whichever codec it is.
-/

namespace LightServer

namespace Cache

variable {c c' : Cache} {first first' h : Nat} {bs bs' : List CompactBlock} {b : CompactBlock}
  {evicted : Option Nat}

/-- Of `c` the cache `c'` has kept what lies below `h`, in a window from `first` to `last`, and
it has nothing outside of that window. -/
structure Leaves (c : Cache) (h first last : Nat) (c' : Cache) : Prop where
  bounds : c'.bounds = some (first, last)
  inside : ∀ k, first ≤ k → k ≤ last → ∃ x, c'.get k = .ok (some x)
  outside : ∀ k, ¬ (first ≤ k ∧ k ≤ last) → c'.get k = .ok none
  below : ∀ k, first ≤ k → k ≤ last → k < h → c'.get k = c.get k

/-- The block is stored, as the last one of a window that begins at `first`. -/
def StoresAt (c : Cache) (h : Nat) (b : CompactBlock) (evicted : Option Nat) (first : Nat) : Prop :=
  ∃ c', c.add h b = (.ok (.stored evicted), c') ∧ c'.get h = .ok (some b) ∧ c.Leaves h first h c'

/-- Within a window from `first` on the block may take the place at `h`: there is nothing below,
or it extends the block there. -/
def Joins (c : Cache) (first h : Nat) (b : CompactBlock) : Prop :=
  h = first ∨ ∃ p, c.get (h - 1) = .ok (some p) ∧ b.prevHash = p.hash

structure AddEffect (c : Cache) (h : Nat) (b : CompactBlock) : Prop where
  below : (∀ first last, c.bounds = some (first, last) → h < first) → c.StoresAt h b none h
  within : ∀ first last, c.bounds = some (first, last) → first ≤ h → h ≤ last →
    (c.Joins first h b → c.StoresAt h b none first) ∧
    (¬ c.Joins first h b →
      ∃ c', c.add h b = (.ok .reorgDetected, c') ∧ c.Leaves h first (h - 1) c')
  next : ∀ first last, c.bounds = some (first, last) → h = last + 1 →
    ∃ p, c.get last = .ok (some p) ∧
      (b.prevHash ≠ p.hash → c.add h b = (.ok .reorgDetected, c)) ∧
      (b.prevHash = p.hash → last + 1 - first = c.capacity →
        c.StoresAt h b (some first) (first + 1)) ∧
      (b.prevHash = p.hash → last + 1 - first ≠ c.capacity → c.StoresAt h b none first)
  beyond : ∀ first last, c.bounds = some (first, last) → last + 1 < h →
    c.add h b = (.error (.heightGap (last + 1) h), c)

theorem Filled.leaves {limit last : Nat} (hc' : c'.Filled limit first last)
    (hbelow : ∀ k x, k < h → c'.get k = .ok (some x) → c.get k = .ok (some x)) :
    c.Leaves h first last c' where
  bounds := hc'.bounds
  inside k hlow hhigh := (hc'.get_some k).mpr ⟨hlow, hhigh⟩
  outside k hk := (hc'.get_none k).mpr hk
  below k hlow hhigh hk := by
    obtain ⟨x, hx⟩ := (hc'.get_some k).mpr ⟨hlow, hhigh⟩
    rw [hx, hbelow k x hk hx]

/-- At the end of the run nothing is cut off before the link is checked. -/
theorem Holds.add_eq_self_of_not_extends {data : Bytes} (hc : c.Holds first bs)
    (hdata : c.codec.encode b = .ok data) (hb : ¬ b.ExtendsLast bs) :
    c.add (first + bs.length) b = (.ok .reorgDetected, c) := by
  have hroom : makeRoom (first + bs.length) (Window.span first bs.length) c.entries =
      .ok (Window.span first bs.length, c.entries) := by
    unfold makeRoom
    rw [Window.first_span, Window.next_span, if_neg (by omega),
      if_neg (by simp [Window.mem_span]), if_neg (by omega)]
  have hwindow : some (Window.span first bs.length) = c.window := hc.window.symm
  unfold add
  simp only [hdata, hc.window, Option.getD_some, hroom,
    if_neg (mt (hc.spans.fitsAbove_iff b).mp hb)]
  rw [hwindow]

/-- The cache keeps blocks in the standard form, and all blocks that it holds can be kept so. -/
structure Stocked (c : Cache) (first : Nat) (bs : List CompactBlock) : Prop where
  holds : c.Holds first bs
  codec : c.codec = .standard
  storable : ∀ x ∈ bs, x.Storable

namespace Stocked

theorem of_add {r : Except CacheError AddOutcome}
    (hadd : c.add h b = (r, c')) (hcodec : c.codec = .standard) (hc' : c'.Holds first' bs')
    (hstorable : ∀ x ∈ bs', x.Storable) : c'.Stocked first' bs' :=
  ⟨hc', (codec_eq_of_add hadd).trans hcodec, hstorable⟩

theorem faithful (hc : c.Stocked first bs) : ∀ x ∈ bs, c.codec.Faithful x := by
  intro x hx
  rw [hc.codec]
  exact EntryCodec.faithful_standard (hc.storable x hx)

theorem encode_eq (hc : c.Stocked first bs) (b : CompactBlock) :
    c.codec.encode b = .ok (Encoding.encode b) := by
  rw [hc.codec]
  rfl

theorem filled (hc : c.Stocked first bs) :
    c.Filled c.capacity first (first + bs.length - 1) :=
  hc.holds.filled hc.faithful

theorem get_iff (hc : c.Stocked first bs) {k : Nat} {x : CompactBlock} :
    c.get k = .ok (some x) ↔ blockAt? first bs k = some x :=
  hc.holds.get_eq_some_iff hc.faithful

/-- What is stored goes on top of a run that was there before. -/
theorem storesAt (hc' : c'.Stocked first' (bs' ++ [b])) (hend : first' + bs'.length = h)
    (hadd : c.add h b = (.ok (.stored evicted), c'))
    (hbelow : ∀ k x, blockAt? first' bs' k = some x → c.get k = .ok (some x)) :
    c.StoresAt h b evicted first' := by
  have hfilled := hc'.filled
  rw [List.length_append, List.length_singleton, ← Nat.add_assoc, hend] at hfilled
  refine ⟨c', hadd, hc'.get_iff.mpr (blockAt?_concat.mpr (.inr ⟨hend.symm, rfl⟩)),
    hfilled.leaves fun k x hk hx => ?_⟩
  rcases blockAt?_concat.mp (hc'.get_iff.mp hx) with hold | ⟨hlast, -⟩
  · exact hbelow k x hold
  · omega

theorem storesAt_singleton (hc' : c'.Stocked h [b])
    (hadd : c.add h b = (.ok (.stored none), c')) : c.StoresAt h b none h := by
  have hstocked : c'.Stocked h ([] ++ [b]) := hc'
  refine hstocked.storesAt rfl hadd fun k x hx => ?_
  obtain ⟨-, hnil⟩ := blockAt?_eq_some_iff.mp hx
  cases hnil

/-- The block joins the run exactly if it extends what is left of it below the height. -/
theorem joins_iff (hc : c.Stocked first bs) (hlow : first ≤ h) (hhigh : h ≤ first + bs.length) :
    c.Joins first h b ↔ b.ExtendsLast (bs.take (h - first)) := by
  rw [extendsLast_take_iff hlow hhigh]
  constructor
  · rintro (rfl | ⟨p, hp, hlink⟩) g x hg hx
    · obtain ⟨hle, -⟩ := blockAt?_eq_some_iff.mp hx
      omega
    · subst hg
      rw [Nat.add_sub_cancel, hc.get_iff, hx] at hp
      cases hp
      exact hlink
  · intro hextends
    rcases Nat.eq_or_lt_of_le hlow with rfl | hlt
    · exact .inl rfl
    · obtain ⟨p, hp⟩ : ∃ p, blockAt? first bs (h - 1) = some p :=
        exists_blockAt?_iff.mpr ⟨by omega, by omega⟩
      exact .inr ⟨p, hc.get_iff.mpr hp, hextends (h - 1) p (by omega) hp⟩

theorem below (hc : c.Stocked first bs) (hb : b.Storable) (hlow : h < first) :
    c.StoresAt h b none h := by
  obtain ⟨c', hadd, hc'⟩ := hc.holds.add_below (hc.encode_eq b) hlow
  exact storesAt_singleton (.of_add hadd hc.codec hc' (List.forall_mem_singleton.mpr hb)) hadd

theorem within (hc : c.Stocked first bs) (hb : b.Storable) (hlow : first ≤ h)
    (hhigh : h < first + bs.length) :
    (c.Joins first h b → c.StoresAt h b none first) ∧
    (¬ c.Joins first h b →
      ∃ c', c.add h b = (.ok .reorgDetected, c') ∧ c.Leaves h first (h - 1) c') := by
  have hlength : (bs.take (h - first)).length = h - first := List.length_take_of_le (by omega)
  have hstorable : ∀ x ∈ bs.take (h - first), x.Storable := fun x hx =>
    hc.storable x (List.mem_of_mem_take hx)
  have hbounded := hc.holds.bounded
  rw [hc.joins_iff hlow (Nat.le_of_lt hhigh)]
  constructor
  · intro hextends
    obtain ⟨c', hadd, hc'⟩ := hc.holds.add_of_extends (hc.encode_eq b) hlow (Nat.le_of_lt hhigh)
      (by omega) hextends
    have hstocked := of_add hadd hc.codec hc'
      (List.forall_mem_append.mpr ⟨hstorable, List.forall_mem_singleton.mpr hb⟩)
    exact hstocked.storesAt (by omega) hadd fun k x hx => hc.get_iff.mpr (blockAt?_take.mp hx).2
  · intro hmisfit
    obtain ⟨c', hadd, hc'⟩ := hc.holds.add_of_not_extends (hc.encode_eq b) hlow
      (Nat.le_of_lt hhigh) hmisfit
    have hstocked := of_add hadd hc.codec hc' hstorable
    have hfilled := hstocked.filled
    rw [hlength, Nat.add_sub_cancel' hlow] at hfilled
    exact ⟨c', hadd, hfilled.leaves fun k x _ hx =>
      hc.get_iff.mpr (blockAt?_take.mp (hstocked.get_iff.mp hx)).2⟩

/-- A block extends the whole run exactly if it names the block below as its parent. -/
theorem extendsLast_iff (hc : c.Stocked first bs) (hend : h = first + bs.length)
    {p : CompactBlock} (hp : c.get (h - 1) = .ok (some p)) :
    b.ExtendsLast bs ↔ b.prevHash = p.hash := by
  have hpos := hc.holds.length_pos
  have hwhole : bs.take (h - first) = bs := List.take_of_length_le (by omega)
  rw [← hwhole, ← hc.joins_iff (by omega) (by omega), Joins, hp]
  constructor
  · rintro (hfirst | ⟨q, hq, hlink⟩)
    · omega
    · cases hq
      exact hlink
  · exact fun hlink => .inr ⟨p, rfl, hlink⟩

theorem next (hc : c.Stocked first bs) (hb : b.Storable) (hend : h = first + bs.length) :
    ∃ p, c.get (h - 1) = .ok (some p) ∧
      (b.prevHash ≠ p.hash → c.add h b = (.ok .reorgDetected, c)) ∧
      (b.prevHash = p.hash → bs.length = c.capacity → c.StoresAt h b (some first) (first + 1)) ∧
      (b.prevHash = p.hash → bs.length ≠ c.capacity → c.StoresAt h b none first) := by
  have hpos := hc.holds.length_pos
  have hbounded := hc.holds.bounded
  obtain ⟨p, hp⟩ : ∃ p, blockAt? first bs (h - 1) = some p :=
    exists_blockAt?_iff.mpr ⟨by omega, by omega⟩
  have hget : c.get (h - 1) = .ok (some p) := hc.get_iff.mpr hp
  have hwhole : bs.take (h - first) = bs := List.take_of_length_le (by omega)
  have hextends : b.ExtendsLast bs ↔ b.prevHash = p.hash := hc.extendsLast_iff hend hget
  refine ⟨p, hget, fun hne => ?_, fun hlink hfull => ?_, fun hlink hroom => ?_⟩
  · rw [hend]
    exact hc.holds.add_eq_self_of_not_extends (hc.encode_eq b) (mt hextends.mp hne)
  · obtain ⟨x, rest, rfl⟩ := List.exists_cons_of_ne_nil hc.holds.ne_nil
    obtain ⟨c', hadd, hc'⟩ := hc.holds.add_of_extends_of_full (hc.encode_eq b) hfull
      (hextends.mpr hlink)
    rw [← hend] at hadd
    have hstorable := (List.forall_mem_cons.mp hc.storable).2
    have hstocked := of_add hadd hc.codec hc'
      (List.forall_mem_append.mpr ⟨hstorable, List.forall_mem_singleton.mpr hb⟩)
    rw [List.length_cons] at hend
    refine hstocked.storesAt (by omega) hadd fun k y hy => hc.get_iff.mpr ?_
    have htail : blockAt? (first + 1) (x :: rest).tail k = some y := hy
    exact (blockAt?_tail.mp htail).2
  · obtain ⟨c', hadd, hc'⟩ := hc.holds.add_of_extends (h := h) (hc.encode_eq b) (by omega)
      (by omega) (by omega) (by rwa [hwhole, hextends])
    rw [hwhole] at hc'
    have hstocked := of_add hadd hc.codec hc'
      (List.forall_mem_append.mpr ⟨hc.storable, List.forall_mem_singleton.mpr hb⟩)
    exact hstocked.storesAt hend.symm hadd fun k x hx => hc.get_iff.mpr hx

theorem addEffect (hc : c.Stocked first bs) (hb : b.Storable) (h : Nat) : AddEffect c h b := by
  have hpos := hc.holds.length_pos
  have hbounds := hc.holds.bounds_eq
  have hend : first + bs.length - 1 + 1 = first + bs.length := by omega
  constructor
  · intro hbelow
    exact hc.below hb (hbelow _ _ hbounds)
  · intro first₀ last hsome hlow hhigh
    rw [hbounds] at hsome
    cases hsome
    exact hc.within hb hlow (by omega)
  · intro first₀ last hsome hnext
    rw [hbounds] at hsome
    cases hsome
    have hsize : first + bs.length - 1 + 1 - first = bs.length := by omega
    rw [hsize, ← Nat.sub_eq_of_eq_add hnext]
    exact hc.next hb (by omega)
  · intro first₀ last hsome hgap
    rw [hbounds] at hsome
    cases hsome
    rw [hend] at hgap ⊢
    exact hc.holds.add_gap (hc.encode_eq b) hgap

end Stocked

theorem addEffect_of_fresh (hwindow : c.window = none) (hentries : c.entries = ∅)
    (hcodec : c.codec = .standard) (hb : b.Storable) (h : Nat) : AddEffect c h b := by
  have hbounds : c.bounds = none := by rw [bounds, hwindow]; rfl
  have hencode : c.codec.encode b = .ok (Encoding.encode b) := by rw [hcodec]; rfl
  obtain ⟨c', hadd, hc'⟩ := add_of_fresh (h := h) hwindow hentries hencode
  have hstocked := Stocked.of_add hadd hcodec hc' (List.forall_mem_singleton.mpr hb)
  constructor
  · exact fun _ => hstocked.storesAt_singleton hadd
  all_goals
    intro first last hsome
    rw [hbounds] at hsome
    cases hsome

/-- The height of an offered block and the block cached below it decide the outcome and the window
afterwards, and below the height nothing else changes. A block that the codec refuses leaves any
cache as it is. -/
theorem addEffect_of_reachable (hc : c.Reachable) (hb : b.Storable) (h : Nat) :
    AddEffect c h b ∧ ∀ (d : Cache) (err : CodecError), d.codec.encode b = .error err →
      d.add h b = (.error (.encoding h err), d) := by
  refine ⟨?_, fun d err herr => add_of_encode_error herr⟩
  cases hc.sound with
  | fresh hwindow hentries => exact addEffect_of_fresh hwindow hentries hc.codec_eq hb h
  | filled holds hstorable => exact Stocked.addEffect ⟨holds, hc.codec_eq, hstorable⟩ hb h

def residentBlock : CompactBlock := Sample.block 0 5 (Octets.zero 32)

def childBlock : CompactBlock := Sample.block 0 6 residentBlock.hash

def crampedCache : Cache := (empty .standard 1).addAll [(5, residentBlock)]

def strictCache : Cache := empty (.refusing [6] []) 1

theorem reachable_crampedCache : crampedCache.Reachable :=
  ⟨1, _, List.forall_mem_singleton.mpr (Sample.storable_block _ _ _), rfl⟩

theorem holds_crampedCache : crampedCache.Holds 5 [residentBlock] := by
  obtain ⟨c, hadd, hc⟩ := add_of_fresh (c := empty .standard 1) (h := 5) (b := residentBlock)
    rfl rfl rfl
  have hlast : crampedCache = c := by
    rw [crampedCache, addAll_cons, hadd]
    rfl
  rw [hlast]
  exact hc

/-- The next block pushes out the only one that there is, unless it is refused. -/
theorem addEffect_of_crampedCache :
    crampedCache.Reachable ∧ childBlock.Storable ∧ crampedCache.StoresAt 6 childBlock (some 5) 6 ∧
      strictCache.add 6 childBlock = (.error (.encoding 6 ⟨"refused"⟩), strictCache) := by
  have hchild : childBlock.Storable := Sample.storable_block _ _ _
  have hget : crampedCache.get 5 = .ok (some residentBlock) :=
    holds_crampedCache.get_add (i := 0) rfl
      (EntryCodec.faithful_standard (Sample.storable_block _ _ _))
  obtain ⟨heffect, hrefused⟩ := addEffect_of_reachable reachable_crampedCache hchild 6
  obtain ⟨p, hp, -, hpush, -⟩ := heffect.next 5 5 holds_crampedCache.bounds_eq rfl
  rw [hget] at hp
  cases hp
  exact ⟨reachable_crampedCache, hchild, hpush rfl rfl, hrefused strictCache ⟨"refused"⟩ rfl⟩

end Cache

end LightServer
