import LightServer.Backend.Ingest
import LightServer.Proofs.Cache.View
import LightServer.Proofs.Retrieval.Client

/-!
# Clients side by side

`Traffic` is a backend with all clients that it has had. Their steps come in any order, and
in between blocks are offered to the cache, time passes, the readers of the streams do what
they want, and the node goes its own way. What is seen of a height that a client reads is
remembered as a `Reading`: when the cache was looked at, for which heights the node was
called, and what came back. The moment of a look is told by the offers that had been made
until then. Nothing that is remembered has an influence on a step.

`Tells` lists the readings that there are, one case for each stage that a client comes
through, and no order of steps leads to any other.
-/

namespace LightServer.Backend

open LightServer.Retrieval

variable {ν : Type}

/-- Something that is seen of a reading. A look comes after the offers `past`. -/
inductive Glimpse where
  | looked (past : List (Nat × CompactBlock))
  | called (height : Nat)
  | returned (item : Item)

def Glimpse.call? : Glimpse → Option Nat
  | called height => some height
  | _ => none

def Glimpse.past? : Glimpse → Option (List (Nat × CompactBlock))
  | looked past => some past
  | _ => none

/-- All that is seen of a height that a client reads, from first to last. -/
structure Reading where
  height : Nat
  seen : List Glimpse

namespace Reading

def calls (r : Reading) : List Nat := r.seen.filterMap Glimpse.call?

/-- The moments of the looks, each as the offers until then. -/
def moments (r : Reading) : List (List (Nat × CompactBlock)) := r.seen.filterMap Glimpse.past?

end Reading

/-- What is seen of a step after the offers `past` in which the node is called for the heights
`called`. -/
def Stage.glimpses (past : List (Nat × CompactBlock)) (called : List Nat) (g : Stage)
    (after : Option Stage) : List Glimpse :=
  (if g.looks then [.looked past] else []) ++ called.map .called ++
    ((after.bind Stage.answer?).map Glimpse.returned).toList

/-- The readings of a client after a step, the latest one first. -/
def remember (past : List (Nat × CompactBlock)) (called : List Nat) :
    Option Stage → Option Stage → List Reading → List Reading
  | none, some g, rs => ⟨g.height, []⟩ :: rs
  | some g, after, r :: rs => { r with seen := r.seen ++ g.glimpses past called after } :: rs
  | _, _, rs => rs

structure Visitor (ν : Type) where
  client : Client (ν × List Nat)
  readings : List Reading

def Visitor.calls (v : Visitor ν) : List Nat := v.readings.flatMap Reading.calls

inductive Gesture where
  | take
  | close
  | drop

namespace Gesture

def range : Gesture → Range → Range
  | take, r => r.take
  | close, r => r.close
  | drop, r => r.drop

def client (g : Gesture) : Client ν → Client ν
  | .request q => .request q
  | .stream st => .stream (st.withRange (g.range st.range))

end Gesture

/-- What can happen to a backend and its clients. A client that was given up makes no more steps. -/
inductive Happening (ν : Type) where
  | add (height : Nat) (b : CompactBlock)
  | wait (moment : Nat)
  | elsewhere (world : ν)
  | get (height : Nat)
  | stream (capacity start stop deadline : Nat)
  | work (i : Nat)
  | gesture (i : Nat) (g : Gesture)

def Happening.offer? : Happening ν → Option (Nat × CompactBlock)
  | add height b => some (height, b)
  | _ => none

/-- A backend with its clients. The heights that the node was called for are kept beside its
world. -/
structure Traffic (ν : Type) where
  backend : Backend (ν × List Nat)
  offers : List (Nat × CompactBlock)
  visitors : List (Visitor ν)

namespace Traffic

def begin (s : Backend ν) : Traffic ν where
  backend := { s with world := (s.world, []) }
  offers := []
  visitors := []

def log (t : Traffic ν) : List Nat := t.backend.world.2

def come (v : Visitor ν) (t : Traffic ν) : Traffic ν := { t with visitors := t.visitors ++ [v] }

def work (p : NodeAccess ν) (i : Nat) (t : Traffic ν) : Traffic ν :=
  match t.visitors[i]? with
  | none => t
  | some v =>
      match v.client.step? p.logging t.backend with
      | none => t
      | some (client, s) =>
          let called := s.world.2.drop t.log.length
          let readings := remember t.offers called v.client.stage? client.stage? v.readings
          { t with backend := s, visitors := t.visitors.set i ⟨client, readings⟩ }

def gesture (i : Nat) (g : Gesture) (t : Traffic ν) : Traffic ν :=
  match t.visitors[i]? with
  | none => t
  | some v => { t with visitors := t.visitors.set i { v with client := g.client v.client } }

def after (p : NodeAccess ν) : Happening ν → Traffic ν → Traffic ν
  | .add height b, t =>
      { t with backend := (t.backend.addBlock height b).2, offers := t.offers ++ [(height, b)] }
  | .wait moment, t => { t with backend := t.backend.waitUntil moment }
  | .elsewhere world, t => { t with backend := { t.backend with world := (world, t.log) } }
  | .get height, t => t.come ⟨.request (.begin height), [⟨height, []⟩]⟩
  | .stream capacity start stop deadline, t =>
      t.come ⟨.stream (openStream capacity start stop deadline), []⟩
  | .work i, t => t.work p i
  | .gesture i g, t => t.gesture i g

def run (p : NodeAccess ν) (es : List (Happening ν)) (t : Traffic ν) : Traffic ν :=
  es.foldl (fun t e => t.after p e) t

end Traffic

/-- The block at a height was not there after the offers `past`, and the cache is looked at a second
time after the offers `later`. -/
structure Misses (c₀ : Cache) (offers : List (Nat × CompactBlock)) (height : Nat)
    (past later : List (Nat × CompactBlock)) : Prop where
  earlier : past <+: later
  latest : later <+: offers
  missing : firstLook height (c₀.addAll past) = none

/-- What can be seen of a reading by the time that its client is at a phase, with a fetch under way
if `calling`. The cache was made from `c₀`, and `offers` are all the offers until now. -/
inductive Tells (c₀ : Cache) (offers : List (Nat × CompactBlock)) (height : Nat) :
    ReadPhase → Bool → List Glimpse → Prop where
  | begun : Tells c₀ offers height .looking false []
  | found {past : List (Nat × CompactBlock)} {item : Item} (hpast : past <+: offers)
      (hlook : firstLook height (c₀.addAll past) = some item) :
      Tells c₀ offers height (.done item) false [.looked past, .returned item]
  | missed {past : List (Nat × CompactBlock)} (hmiss : Misses c₀ offers height past offers) :
      Tells c₀ offers height .checking false [.looked past]
  | refused {past later : List (Nat × CompactBlock)} {e : Error}
      (hmiss : Misses c₀ offers height past later)
      (hcheck : secondLook height (c₀.addAll later) = .error e) :
      Tells c₀ offers height (.done (.error e)) false
        [.looked past, .looked later, .returned (.error e)]
  | cleared {past later : List (Nat × CompactBlock)} {tip : Nat}
      (hmiss : Misses c₀ offers height past later)
      (hcheck : secondLook height (c₀.addAll later) = .ok tip) :
      Tells c₀ offers height .asking false [.looked past, .looked later]
  | called {past later : List (Nat × CompactBlock)} {tip : Nat}
      (hmiss : Misses c₀ offers height past later)
      (hcheck : secondLook height (c₀.addAll later) = .ok tip) :
      Tells c₀ offers height .asking true [.looked past, .looked later, .called height]
  | answered {past later : List (Nat × CompactBlock)} {tip : Nat}
      (hmiss : Misses c₀ offers height past later)
      (hcheck : secondLook height (c₀.addAll later) = .ok tip) (reply : FetchReply) :
      Tells c₀ offers height (.done (settle height reply)) false
        [.looked past, .looked later, .called height, .returned (settle height reply)]

variable {c₀ : Cache} {offers offers' : List (Nat × CompactBlock)} {height : Nat}
  {phase : ReadPhase} {calling : Bool} {seen : List Glimpse} {called : List Nat}

theorem Misses.mono {past later : List (Nat × CompactBlock)}
    (h : Misses c₀ offers height past later) (hmore : offers <+: offers') :
    Misses c₀ offers' height past later :=
  ⟨h.earlier, h.latest.trans hmore, h.missing⟩

/-- More offers are nothing to a reading. -/
theorem Tells.mono (h : Tells c₀ offers height phase calling seen) (hmore : offers <+: offers') :
    Tells c₀ offers' height phase calling seen := by
  cases h with
  | begun => exact .begun
  | found hpast hlook => exact .found (hpast.trans hmore) hlook
  | missed hmiss => exact .missed ⟨hmiss.earlier.trans hmore, List.prefix_refl _, hmiss.missing⟩
  | refused hmiss hcheck => exact .refused (hmiss.mono hmore) hcheck
  | cleared hmiss hcheck => exact .cleared (hmiss.mono hmore) hcheck
  | called hmiss hcheck => exact .called (hmiss.mono hmore) hcheck
  | answered hmiss hcheck reply => exact .answered (hmiss.mono hmore) hcheck reply

/-- A step within a reading leads from one of its stages to another. -/
theorem Tells.progress {g : Stage} (h : Tells c₀ offers height phase calling seen)
    (hstep : Progress (c₀.addAll offers) (some ⟨height, phase, calling⟩) (some g) called) :
    g.height = height ∧ Tells c₀ offers height g.phase g.calling
      (seen ++ Stage.glimpses offers called ⟨height, phase, calling⟩ (some g)) := by
  cases hstep with
  | looks =>
      cases h
      refine ⟨rfl, ?_⟩
      simp only [ReadPhase.look]
      split
      next hlook => exact .found (List.prefix_refl _) hlook
      next hlook => exact .missed ⟨List.prefix_refl _, List.prefix_refl _, hlook⟩
  | checks =>
      cases h with
      | missed hmiss =>
          refine ⟨rfl, ?_⟩
          simp only [ReadPhase.look]
          split
          next hcheck => exact .cleared hmiss hcheck
          next hcheck => exact .refused hmiss hcheck
  | calls =>
      cases h with
      | cleared hmiss hcheck => exact ⟨rfl, .called hmiss hcheck⟩
  | waits =>
      cases h with
      | called hmiss hcheck => exact ⟨rfl, .called hmiss hcheck⟩
  | answers _ reply =>
      cases h with
      | called hmiss hcheck => exact ⟨rfl, .answered hmiss hcheck reply⟩

/-- Each reading is told, and the latest one up to the stage at which its client is. -/
structure Told (c₀ : Cache) (offers : List (Nat × CompactBlock)) (stage : Option Stage)
    (rs : List Reading) : Prop where
  each : ∀ r ∈ rs, ∃ phase calling, Tells c₀ offers r.height phase calling r.seen
  latest : ∀ g ∈ stage, ∃ r rest, rs = r :: rest ∧ r.height = g.height ∧
    Tells c₀ offers g.height g.phase g.calling r.seen

variable {stage stage' : Option Stage} {rs : List Reading}

theorem Told.mono (h : Told c₀ offers stage rs) (hmore : offers <+: offers') :
    Told c₀ offers' stage rs where
  each r hr := by
    obtain ⟨phase, calling, htells⟩ := h.each r hr
    exact ⟨phase, calling, htells.mono hmore⟩
  latest g hg := by
    obtain ⟨r, rest, hrs, hheight, htells⟩ := h.latest g hg
    exact ⟨r, rest, hrs, hheight, htells.mono hmore⟩

theorem Told.begins (h : ∀ r ∈ rs, ∃ phase calling, Tells c₀ offers r.height phase calling r.seen)
    (height : Nat) : Told c₀ offers (some ⟨height, .looking, false⟩) (⟨height, []⟩ :: rs) where
  each r hr := by
    rcases List.mem_cons.mp hr with rfl | hold
    · exact ⟨.looking, false, .begun⟩
    · exact h r hold
  latest := by
    rintro g ⟨⟩
    exact ⟨⟨height, []⟩, rs, rfl, rfl, .begun⟩

/-- What is remembered of a step is told. -/
theorem Told.progress (h : Told c₀ offers stage rs)
    (hstep : Progress (c₀.addAll offers) stage stage' called) :
    Told c₀ offers stage' (remember offers called stage stage' rs) := by
  cases stage with
  | none =>
      cases hstep with
      | idles => exact h
      | begins height => exact Told.begins h.each height
  | some g =>
      obtain ⟨r, rest, rfl, hheight, htells⟩ := h.latest g rfl
      have hrest : ∀ r' ∈ rest, ∃ phase calling,
          Tells c₀ offers r'.height phase calling r'.seen :=
        fun r' hr' => h.each r' (List.mem_cons_of_mem r hr')
      cases stage' with
      | none =>
          cases hstep with
          | leaves _ hlooks =>
              have hnothing : g.glimpses offers [] none = [] := by simp [Stage.glimpses, hlooks]
              refine ⟨fun r' hr' => ?_, nofun⟩
              rw [remember, hnothing, List.append_nil] at hr'
              exact h.each r' hr'
      | some g' =>
          obtain ⟨hsame, htells'⟩ := htells.progress hstep
          rw [← hheight] at hsame htells'
          refine ⟨fun r' hr' => ?_, ?_⟩
          · rcases List.mem_cons.mp hr' with rfl | hold
            · exact ⟨g'.phase, g'.calling, htells'⟩
            · exact hrest r' hold
          · rintro g'' ⟨⟩
            rw [hsame]
            exact ⟨_, rest, rfl, rfl, htells'⟩

theorem calls_glimpses (past : List (Nat × CompactBlock)) (called : List Nat) (g : Stage)
    (after : Option Stage) : (g.glimpses past called after).filterMap Glimpse.call? = called := by
  have hlooked : (if g.looks then [Glimpse.looked past] else []).filterMap Glimpse.call? = [] := by
    split <;> rfl
  have hcalled : (called.map Glimpse.called).filterMap Glimpse.call? = called := by
    rw [List.filterMap_map]
    exact List.filterMap_some
  have hreturned : ((after.bind Stage.answer?).map Glimpse.returned).toList.filterMap
      Glimpse.call? = [] := by
    cases after.bind Stage.answer? <;> rfl
  rw [Stage.glimpses, List.filterMap_append, List.filterMap_append, hlooked, hcalled, hreturned,
    List.nil_append, List.append_nil]

/-- A step adds to the calls that are remembered those that it makes. -/
theorem Told.perm_calls (h : Told c₀ offers stage rs)
    (hstep : Progress (c₀.addAll offers) stage stage' called) :
    ((remember offers called stage stage' rs).flatMap Reading.calls).Perm
      (rs.flatMap Reading.calls ++ called) := by
  cases stage with
  | none =>
      cases hstep with
      | idles =>
          rw [List.append_nil]
          exact .refl _
      | begins height =>
          rw [List.append_nil]
          exact .refl _
  | some g =>
      obtain ⟨r, rest, rfl, -, -⟩ := h.latest g rfl
      have hcalls : (Reading.mk r.height (r.seen ++ g.glimpses offers called stage')).calls =
          r.calls ++ called := by
        rw [Reading.calls, List.filterMap_append, calls_glimpses, Reading.calls]
      rw [remember, List.flatMap_cons, List.flatMap_cons, hcalls, List.append_assoc,
        List.append_assoc]
      exact List.Perm.append_left _ List.perm_append_comm

structure Visitor.Kept (c₀ : Cache) (offers : List (Nat × CompactBlock)) (v : Visitor ν) : Prop where
  sane : v.client.Sane
  told : Told c₀ offers v.client.stage? v.readings

/-- What holds of the cache, of the list of calls and of every client at any moment. -/
structure Traffic.Kept (c₀ : Cache) (t : Traffic ν) : Prop where
  cache : t.backend.cache = c₀.addAll t.offers
  calls : (t.visitors.flatMap Visitor.calls).Perm t.log
  visitors : ∀ v ∈ t.visitors, v.Kept c₀ t.offers

theorem Visitor.kept_request (c₀ : Cache) (offers : List (Nat × CompactBlock)) (height : Nat) :
    Visitor.Kept c₀ offers (⟨.request (.begin height), [⟨height, []⟩]⟩ : Visitor ν) where
  sane := nofun
  told := Told.begins (fun _ hr => absurd hr List.not_mem_nil) height

theorem Visitor.kept_stream (c₀ : Cache) (offers : List (Nat × CompactBlock))
    (capacity start stop deadline : Nat) :
    Visitor.Kept c₀ offers
      (⟨.stream (openStream capacity start stop deadline), []⟩ : Visitor ν) where
  sane := nofun
  told := ⟨nofun, nofun⟩

theorem stage?_gesture (g : Gesture) (cl : Client ν) : (g.client cl).stage? = cl.stage? := by
  cases cl with
  | request q => rfl
  | stream st =>
      cases g with
      | take =>
          simp only [Gesture.client, Gesture.range, Client.stage?, Stream.withRange, Range.take]
          split <;> rfl
      | close => rfl
      | drop => rfl

theorem pending_gesture (g : Gesture) (cl : Client ν) : (g.client cl).pending = cl.pending := by
  cases cl <;> rfl

/-- The reader of a stream does nothing to its producer. -/
theorem Visitor.Kept.gesture {v : Visitor ν} (h : v.Kept c₀ offers) (g : Gesture) :
    Visitor.Kept c₀ offers { v with client := g.client v.client } where
  sane := by
    intro f hf
    rw [pending_gesture] at hf
    rw [stage?_gesture]
    exact h.sane f hf
  told := by
    rw [stage?_gesture]
    exact h.told

theorem Visitor.Kept.mono {v : Visitor ν} (h : v.Kept c₀ offers) (hmore : offers <+: offers') :
    v.Kept c₀ offers' := ⟨h.sane, h.told.mono hmore⟩

theorem Visitor.perm_calls_set {vs : List (Visitor ν)} {v v' : Visitor ν} {i : Nat}
    (hv : vs[i]? = some v) (hcalls : v'.calls.Perm (v.calls ++ called)) :
    ((vs.set i v').flatMap Visitor.calls).Perm (vs.flatMap Visitor.calls ++ called) := by
  induction vs generalizing i with
  | nil => cases hv
  | cons w vs ih =>
      cases i with
      | zero =>
          cases hv
          rw [List.set_cons_zero, List.flatMap_cons, List.flatMap_cons, List.append_assoc]
          refine (hcalls.append_right _).trans ?_
          rw [List.append_assoc]
          exact List.Perm.append_left _ List.perm_append_comm
      | succ i =>
          rw [List.set_cons_succ, List.flatMap_cons, List.flatMap_cons, List.append_assoc]
          exact List.Perm.append_left _ (ih hv)

namespace Traffic

theorem kept_begin (s : Backend ν) : Kept s.cache (begin s) where
  cache := rfl
  calls := .refl _
  visitors _ hv := absurd hv List.not_mem_nil

variable {t : Traffic ν} {p : NodeAccess ν}

theorem Kept.come (h : Kept c₀ t) {v : Visitor ν} (hv : v.Kept c₀ t.offers) (hcalls : v.calls = []) :
    Kept c₀ (t.come v) := by
  refine ⟨h.cache, ?_, fun v' hv' => ?_⟩
  · rw [Traffic.come, List.flatMap_append, List.flatMap_singleton, hcalls, List.append_nil]
    exact h.calls
  · rcases List.mem_append.mp hv' with hold | hnew
    · exact h.visitors v' hold
    · rw [List.mem_singleton.mp hnew]
      exact hv

theorem Kept.work (h : Kept c₀ t) (p : NodeAccess ν) (i : Nat) : Kept c₀ (t.work p i) := by
  unfold Traffic.work
  split
  · exact h
  next v hv =>
    split
    · exact h
    next client s hstep =>
      obtain ⟨hsane, htold⟩ := h.visitors v (List.mem_of_getElem? hv)
      obtain ⟨called, hadv⟩ := Client.advances hsane hstep
      -- a step only adds to the list of calls, so what is new in it is what was called for
      have hcalled : s.world.2.drop t.log.length = called := by
        rw [hadv.log]
        exact List.drop_left
      have hprogress := hadv.progress
      rw [h.cache] at hprogress
      simp only [hcalled]
      refine ⟨hadv.cache.trans h.cache, ?_, fun v' hv' => ?_⟩
      · have hcalls : (Visitor.calls ⟨client, remember t.offers called v.client.stage? client.stage?
            v.readings⟩).Perm (v.calls ++ called) := htold.perm_calls hprogress
        refine (Visitor.perm_calls_set hv hcalls).trans ((h.calls.append_right called).trans ?_)
        rw [log, log, hadv.log]
      · rcases List.mem_or_eq_of_mem_set hv' with hold | rfl
        · exact h.visitors v' hold
        · exact ⟨hadv.sane, htold.progress hprogress⟩

theorem Kept.gesture (h : Kept c₀ t) (i : Nat) (g : Gesture) : Kept c₀ (t.gesture i g) := by
  unfold Traffic.gesture
  split
  · exact h
  next v hv =>
    refine ⟨h.cache, ?_, fun v' hv' => ?_⟩
    · have hsame : Visitor.calls { v with client := g.client v.client } = v.calls ++ [] :=
        (List.append_nil _).symm
      have hset := Visitor.perm_calls_set hv (.of_eq hsame)
      rw [List.append_nil] at hset
      exact hset.trans h.calls
    · rcases List.mem_or_eq_of_mem_set hv' with hold | rfl
      · exact h.visitors v' hold
      · exact (h.visitors v (List.mem_of_getElem? hv)).gesture g

theorem Kept.add (h : Kept c₀ t) (p : NodeAccess ν) (height : Nat) (b : CompactBlock) :
    Kept c₀ (t.after p (.add height b)) where
  cache := by
    have hadd : (t.after p (.add height b)).backend.cache =
        (t.backend.cache.add height b).2 := rfl
    have hoffers : c₀.addAll (t.offers ++ [(height, b)]) =
        ((c₀.addAll t.offers).add height b).2 := List.foldl_append
    rw [hadd, h.cache]
    exact hoffers.symm
  calls := h.calls
  visitors v hv := (h.visitors v hv).mono (List.prefix_append _ _)

theorem Kept.after (h : Kept c₀ t) (p : NodeAccess ν) (e : Happening ν) :
    Kept c₀ (t.after p e) := by
  cases e with
  | add height b => exact h.add p height b
  | wait moment => exact ⟨h.cache, h.calls, h.visitors⟩
  | elsewhere world => exact ⟨h.cache, h.calls, h.visitors⟩
  | get height => exact h.come (Visitor.kept_request c₀ t.offers height) rfl
  | stream capacity start stop deadline =>
      exact h.come (Visitor.kept_stream c₀ t.offers capacity start stop deadline) rfl
  | work i => exact h.work p i
  | gesture i g => exact h.gesture i g

theorem Kept.run (h : Kept c₀ t) (p : NodeAccess ν) (es : List (Happening ν)) :
    Kept c₀ (t.run p es) := by
  induction es generalizing t with
  | nil => exact h
  | cons e es ih => exact ih (h.after p e)

end Traffic
end LightServer.Backend
