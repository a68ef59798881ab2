import LightServer.Proofs.Wire.Reading

/-!
# Walks over bytes

A reader has no position: it is given what is left. A walk has all the bytes and a cursor,
and does its arithmetic in machine words. It stops where a result does not fit a word or a
slice reaches outside the bytes, and it notes what it reads, where it goes, which counts it
accepts, and each item of a list that it begins. A walk follows a reader if it ends as the
reader does, with the cursor at what the reader leaves, and if all its notes hold. So a
walk that follows a reader never stops for a reason of its own. Walks follow readers step
by step.
-/

namespace LightServer.Wire

inductive Stop where
  | refused (e : ParseError)
  | overflow
  | outside
  deriving DecidableEq

inductive Note where
  | sliced (start stop : Nat)
  | moved (pos : Nat)
  | counted (pos n size : Nat)
  | began
  deriving DecidableEq

/-- The note is about something inside `length` bytes: what is read is there, the cursor is not
behind the end, and the items that are counted fit into what is left. -/
def Note.Holds (length : Nat) : Note → Prop
  | sliced start stop => start ≤ stop ∧ stop ≤ length
  | moved pos => pos ≤ length
  | counted pos n size => n * size ≤ length - pos
  | began => True

structure Track where
  pos : Nat
  notes : List Note

def Track.start : Track := ⟨0, []⟩

structure Walked (α : Type) where
  outcome : Except Stop α
  track : Track

/-- A computation with a cursor over bytes. -/
def Walk (α : Type) := Bytes → Track → Walked α

namespace Walk

def andThen {α β : Type} (m : Walk α) (f : α → Walk β) : Walk β := fun data t =>
  match m data t with
  | ⟨.ok x, t'⟩ => f x data t'
  | ⟨.error e, t'⟩ => ⟨.error e, t'⟩

instance : Monad Walk where
  pure x := fun _ t => ⟨.ok x, t⟩
  bind := andThen

def stop {α : Type} (e : Stop) : Walk α := fun _ t => ⟨.error e, t⟩

def refuse {α : Type} (e : ParseError) : Walk α := stop (.refused e)

/-- A result of arithmetic, which has to fit a machine word. -/
def word (n : Nat) : Walk Nat := if n ≤ Text.maxWord64 then pure n else stop .overflow

def note (a : Note) : Walk Unit := fun _ t => ⟨.ok (), ⟨t.pos, t.notes ++ [a]⟩⟩

def position : Walk Nat := fun _ t => ⟨.ok t.pos, t⟩

def moveTo (pos : Nat) : Walk Unit := fun _ t => ⟨.ok (), ⟨pos, t.notes ++ [.moved pos]⟩⟩

def remaining : Walk Nat := fun data t =>
  if t.pos ≤ data.length then ⟨.ok (data.length - t.pos), t⟩ else ⟨.error .overflow, t⟩

def slice (start stop : Nat) : Walk Bytes := fun data t =>
  if start ≤ stop ∧ stop ≤ data.length then
    ⟨.ok ((data.take stop).drop start), ⟨t.pos, t.notes ++ [.sliced start stop]⟩⟩
  else ⟨.error .outside, t⟩

def fill (n : Nat) (s : Bytes) : Walk (Octets n) :=
  match Octets.ofBytes? n s with
  | some x => pure x
  | none => stop .outside

def take (n : Nat) (field : String) : Walk (Octets n) := do
  let left ← remaining
  if left < n then refuse (.unexpectedEnd field n left)
  else do
    let start ← position
    let stop ← word (start + n)
    let s ← slice start stop
    moveTo stop
    fill n s

def skip (n : Nat) (field : String) : Walk Unit := do
  let _ ← take n field

def number (n : Nat) (field : String) : Walk Nat := do
  return (← take n field).toNat

def atLeast (low value : Nat) : Walk Nat :=
  if value < low then refuse .nonCanonicalSize else pure value

def compactSize (field : String) : Walk Nat := do
  let first ← number 1 field
  if first = 0xFD then do atLeast 0xFD (← number 2 field)
  else if first = 0xFE then do atLeast 0x10000 (← number 4 field)
  else if first = 0xFF then do atLeast 0x100000000 (← number 8 field)
  else pure first

/-- Accepts a count of items that have at least `size` bytes each, one at least. What they need
together is the largest word if it does not fit a word. -/
def accept (field : String) (size n : Nat) : Walk Nat := do
  let needed := min (n * max size 1) Text.maxWord64
  let left ← remaining
  if left < needed then refuse (.unexpectedEnd field needed left)
  else do
    note (.counted (← position) n size)
    return n

def count (field : String) (size : Nat) : Walk Nat := do
  accept field size (← compactSize field)

def varBytes (field : String) : Walk Bytes := do
  let n ← count field 1
  return (← take n field).bytes

def item {α : Type} (m : Walk α) : Walk α := do
  note .began
  m

def times {α : Type} (m : Walk α) : Nat → Walk (List α)
  | 0 => pure []
  | n + 1 => do
      let x ← item m
      let xs ← times m n
      return x :: xs

def list {α : Type} (field : String) (size : Nat) (m : Walk α) : Walk (List α) := do
  times m (← count field size)

def spanned {α : Type} (m : Walk α) : Walk (α × Bytes) := do
  let start ← position
  let x ← m
  let span ← slice start (← position)
  return (x, span)

variable {α β γ δ : Type} {data : Bytes} {t : Track}

/-- From where it is, the walk goes as the reader does on the bytes from there on, and has what `φ`
makes of the value that the reader has. -/
structure FollowsAt (data : Bytes) (t : Track) (φ : α → β) (m : Walk β) (r : Reader α) : Prop where
  outcome : (m data t).outcome = ((r (data.drop t.pos)).outcome.map φ).mapError .refused
  rest : (r (data.drop t.pos)).rest = data.drop (m data t).track.pos
  onward : t.pos ≤ (m data t).track.pos
  inside : (m data t).track.pos ≤ data.length
  notes : ∃ new, (m data t).track.notes = t.notes ++ new ∧ (∀ a ∈ new, a.Holds data.length) ∧
    new.count .began = (r (data.drop t.pos)).items

/-- The walk goes as the reader does wherever it begins. -/
def Follows (data : Bytes) (φ : α → β) (m : Walk β) (r : Reader α) : Prop :=
  ∀ t : Track, t.pos ≤ data.length → FollowsAt data t φ m r

section Bind

variable {φ : α → β} {ψ : γ → δ} {m : Walk β} {r : Reader α} {f : β → Walk δ} {g : α → Reader γ}

theorem bind_of_ok {x : β} {t' : Track} (h : m data t = ⟨.ok x, t'⟩) :
    (m >>= f) data t = f x data t' := by
  change andThen m f data t = _
  unfold andThen
  rw [h]

theorem bind_of_error {e : Stop} {t' : Track} (h : m data t = ⟨.error e, t'⟩) :
    (m >>= f) data t = ⟨.error e, t'⟩ := by
  change andThen m f data t = _
  unfold andThen
  rw [h]

/-- What comes after a value begins where the value ends. -/
theorem FollowsAt.bind (h : FollowsAt data t φ m r)
    (hf : ∀ x t', r.Yields (data.drop t.pos) x (data.drop t'.pos) → t'.pos ≤ data.length →
      FollowsAt data t' ψ (f (φ x)) (g x)) :
    FollowsAt data t ψ (m >>= f) (r >>= g) := by
  obtain ⟨houtcome, hrest, honward, hinside, new, hnew, hholds, hbegan⟩ := h
  cases hr : (r (data.drop t.pos)).outcome with
  | error e =>
      have hm : m data t = ⟨.error (.refused e), (m data t).track⟩ := by
        rw [hr] at houtcome
        exact congrArg (Walked.mk · (m data t).track) houtcome
      have hwalk : (m >>= f) data t = ⟨.error (.refused e), (m data t).track⟩ := bind_of_error hm
      have hread := Reader.bind_of_error (f := g) hr
      refine ⟨?_, ?_, ?_, ?_, new, ?_, hholds, ?_⟩ <;> simp only [hwalk, hread]
      · rfl
      · exact hrest
      · exact honward
      · exact hinside
      · exact hnew
      · exact hbegan
  | ok x =>
      have hm : m data t = ⟨.ok (φ x), (m data t).track⟩ := by
        rw [hr] at houtcome
        exact congrArg (Walked.mk · (m data t).track) houtcome
      have hwalk : (m >>= f) data t = f (φ x) data (m data t).track := bind_of_ok hm
      have hread := Reader.bind_of_ok (f := g) hr
      -- the reader left what is after the cursor, so both go on from the same place
      rw [hrest] at hread
      obtain ⟨houtcome', hrest', honward', hinside', new', hnew', hholds', hbegan'⟩ :=
        hf x (m data t).track ⟨hr, hrest⟩ hinside
      refine ⟨?_, ?_, ?_, ?_, new ++ new', ?_, List.forall_mem_append.mpr ⟨hholds, hholds'⟩, ?_⟩ <;>
        simp only [hwalk, hread]
      · exact houtcome'
      · exact hrest'
      · exact Nat.le_trans honward honward'
      · exact hinside'
      · rw [hnew', hnew, List.append_assoc]
      · rw [List.count_append, hbegan, hbegan']

theorem Follows.bind (h : Follows data φ m r) (hf : ∀ x, Follows data ψ (f (φ x)) (g x)) :
    Follows data ψ (m >>= f) (r >>= g) :=
  fun t ht => (h t ht).bind fun x t' _ ht' => hf x t' ht'

end Bind

section Steps

variable {φ : α → β} {x : α} {m : Walk β} {r : Reader α} {n size : Nat} {field : String}

/-- One step of a walk and what the reader does there. -/
theorem FollowsAt.of_eq {o : Except ParseError α} {pos : Nat} {l : List Note}
    (hm : m data t = ⟨(o.map φ).mapError .refused, ⟨pos, t.notes ++ l⟩⟩)
    (hr : r (data.drop t.pos) = ⟨o, data.drop pos, l.count .began⟩)
    (honward : t.pos ≤ pos) (hinside : pos ≤ data.length)
    (hholds : ∀ a ∈ l, a.Holds data.length) : FollowsAt data t φ m r := by
  refine ⟨?_, ?_, ?_, ?_, l, ?_, hholds, ?_⟩ <;> simp only [hm, hr]
  · exact honward
  · exact hinside

/-- A step that stays where it is and notes nothing. -/
theorem FollowsAt.of_still {o : Except ParseError α} (ht : t.pos ≤ data.length)
    (hm : m data t = ⟨(o.map φ).mapError .refused, t⟩)
    (hr : r (data.drop t.pos) = ⟨o, data.drop t.pos, 0⟩) : FollowsAt data t φ m r :=
  .of_eq (l := []) (by rw [hm, List.append_nil]) hr (Nat.le_refl _) ht nofun

theorem follows_pure (φ : α → β) (x : α) : Follows data φ (pure (φ x)) (pure x) := fun _ ht =>
  .of_still ht rfl rfl

theorem follows_refuse (φ : α → β) (e : ParseError) :
    Follows data φ (refuse e) (Reader.refuse e) := fun _ ht => .of_still ht rfl rfl

theorem follows_began : Follows data id (note .began) Reader.beginItem := fun _ ht =>
  .of_eq (o := .ok ()) (l := [.began]) rfl rfl (Nat.le_refl _) ht
    (List.forall_mem_singleton.mpr trivial)

/-- Arithmetic and looks at the cursor leave no trace. -/
theorem FollowsAt.silent {m : Walk γ} {f : γ → Walk β} {y : γ} (hm : m data t = ⟨.ok y, t⟩)
    (h : FollowsAt data t φ (f y) r) : FollowsAt data t φ (m >>= f) r := by
  obtain ⟨houtcome, hrest, honward, hinside, hnotes⟩ := h
  constructor <;> rwa [bind_of_ok hm]

theorem remaining_eq (ht : t.pos ≤ data.length) :
    remaining data t = ⟨.ok (data.length - t.pos), t⟩ := if_pos ht

theorem word_eq (hn : n ≤ Text.maxWord64) : word n data t = ⟨.ok n, t⟩ := by
  rw [word, if_pos hn]
  rfl

theorem take_of_lt (ht : t.pos ≤ data.length) (hn : data.length - t.pos < n) :
    take n field data t =
      ⟨.error (.refused (.unexpectedEnd field n (data.length - t.pos))), t⟩ := by
  rw [take, bind_of_ok (remaining_eq ht), if_pos hn]
  rfl

theorem take_of_le {x : Octets n} {rest : Bytes} (hdata : data.length < Text.maxWord64)
    (ht : t.pos ≤ data.length) (hx : data.drop t.pos = x.bytes ++ rest) :
    take n field data t = ⟨.ok x, ⟨t.pos + n,
      t.notes ++ [.sliced t.pos (t.pos + n), .moved (t.pos + n)]⟩⟩ := by
  have hlength := congrArg List.length hx
  rw [List.length_drop, List.length_append, x.length_eq] at hlength
  have hposition : position data t = ⟨.ok t.pos, t⟩ := rfl
  have hword : word (t.pos + n) data t = ⟨.ok (t.pos + n), t⟩ := word_eq (by omega)
  have hslice : slice t.pos (t.pos + n) data t =
      ⟨.ok x.bytes, ⟨t.pos, t.notes ++ [.sliced t.pos (t.pos + n)]⟩⟩ := by
    rw [slice, if_pos ⟨by omega, by omega⟩, List.drop_take, hx, Nat.add_sub_cancel_left,
      List.take_left' x.length_eq]
  have hfill : fill n x.bytes = pure x := by
    rw [fill, Octets.ofBytes?_bytes]
  rw [take, bind_of_ok (remaining_eq ht), if_neg (by omega), bind_of_ok hposition,
    bind_of_ok hword, bind_of_ok hslice, hfill,
    List.append_cons t.notes (.sliced t.pos (t.pos + n)) [.moved (t.pos + n)]]
  rfl

theorem follows_take (hdata : data.length < Text.maxWord64) (n : Nat) (field : String) :
    Follows data id (take n field) (Reader.take n field) := by
  intro t ht
  cases htake : Octets.take? n (data.drop t.pos) with
  | none =>
      have hn := Octets.take?_eq_none_iff.mp htake
      rw [List.length_drop] at hn
      refine .of_still (o := .error _) ht (take_of_lt ht hn) ?_
      rw [Reader.take, htake, List.length_drop]
  | some p =>
      obtain ⟨x, rest⟩ := p
      have hx := Octets.eq_append_of_take? htake
      have hlength := congrArg List.length hx
      rw [List.length_drop, List.length_append, x.length_eq] at hlength
      have hrest : rest = data.drop (t.pos + n) := by
        rw [← List.drop_drop, hx, List.drop_left' x.length_eq]
      have hend : t.pos + n ≤ data.length := by omega
      refine .of_eq (o := .ok x) (take_of_le hdata ht hx) ?_ (Nat.le_add_right _ _) hend ?_
      · rw [Reader.take, htake, hrest]
        rfl
      · exact List.forall_mem_cons.mpr
          ⟨⟨Nat.le_add_right _ _, hend⟩, List.forall_mem_singleton.mpr hend⟩

theorem Follows.map (h : Follows data φ m r) (ψ : β → δ) :
    Follows data (fun x => ψ (φ x)) (m >>= fun y => pure (ψ y)) r := by
  have hbind : Follows data (fun x => ψ (φ x)) (m >>= fun y => pure (ψ y)) (r >>= pure) :=
    h.bind fun x => follows_pure (fun x => ψ (φ x)) x
  rwa [Reader.bind_pure_eq] at hbind

theorem follows_skip (hdata : data.length < Text.maxWord64) (n : Nat) (field : String) :
    Follows data (fun _ => ()) (skip n field) (Reader.take n field) :=
  (follows_take hdata n field).map fun _ => ()

theorem follows_number (hdata : data.length < Text.maxWord64) (n : Nat) (field : String) :
    Follows data id (number n field) (Reader.number n field) :=
  (follows_take hdata n field).bind fun _ => follows_pure _ _

theorem follows_atLeast (low value : Nat) :
    Follows data id (atLeast low value) (Reader.atLeast low value) := by
  unfold atLeast Reader.atLeast
  split
  · exact follows_refuse _ _
  · exact follows_pure _ _

theorem follows_compactSize (hdata : data.length < Text.maxWord64) (field : String) :
    Follows data id (compactSize field) (Reader.compactSize field) := by
  refine (follows_number hdata 1 field).bind fun first => ?_
  rw [id_eq]
  by_cases hFD : first = 0xFD
  · subst hFD
    exact (follows_number hdata 2 field).bind fun _ => follows_atLeast _ _
  by_cases hFE : first = 0xFE
  · subst hFE
    exact (follows_number hdata 4 field).bind fun _ => follows_atLeast _ _
  by_cases hFF : first = 0xFF
  · subst hFF
    exact (follows_number hdata 8 field).bind fun _ => follows_atLeast _ _
  rw [if_neg hFD, if_neg hFE, if_neg hFF]
  split
  · exact absurd rfl hFD
  · exact absurd rfl hFE
  · exact absurd rfl hFF
  · exact follows_pure _ _

/-- What is left has fewer bytes than a word can express, so nothing is lost when the largest word
stands for what is needed. -/
theorem follows_count (hdata : data.length < Text.maxWord64) (field : String) (size : Nat) :
    Follows data id (count field size) (Reader.count field size) := by
  refine (follows_compactSize hdata field).bind fun n => ?_
  intro t ht
  by_cases hfits : n * max size 1 ≤ data.length - t.pos
  · have hnot : ¬ data.length - t.pos < min (n * max size 1) Text.maxWord64 := by omega
    have hread : Bytes.reaches (n * max size 1) (data.drop t.pos) = true := by
      rwa [Bytes.reaches_iff, List.length_drop]
    have hsize : n * size ≤ n * max size 1 := Nat.mul_le_mul_left n (Nat.le_max_left size 1)
    refine .of_eq (o := .ok n) (l := [.counted t.pos n size]) ?_ (if_pos hread) (Nat.le_refl _) ht
      (List.forall_mem_singleton.mpr (Nat.le_trans hsize hfits))
    rw [id_eq, accept, bind_of_ok (remaining_eq ht), if_neg hnot]
    rfl
  · have hlt : data.length - t.pos < min (n * max size 1) Text.maxWord64 := by omega
    have hread : ¬ Bytes.reaches (n * max size 1) (data.drop t.pos) = true := by
      rwa [Bytes.reaches_iff, List.length_drop]
    refine .of_still (o := .error _) ht ?_ (if_neg hread)
    rw [id_eq, accept, bind_of_ok (remaining_eq ht), if_pos hlt, List.length_drop]
    rfl

theorem follows_varBytes (hdata : data.length < Text.maxWord64) (field : String) :
    Follows data id (varBytes field) (Reader.varBytes field) :=
  (follows_count hdata field 1).bind fun n => (follows_take hdata n field).bind fun _ =>
    follows_pure _ _

theorem Follows.item (h : Follows data φ m r) : Follows data φ (item m) (Reader.item r) :=
  follows_began.bind fun _ => h

theorem Follows.times (h : Follows data φ m r) :
    ∀ n, Follows data (List.map φ) (times m n) (Reader.times r n)
  | 0 => follows_pure (List.map φ) []
  | n + 1 => h.item.bind fun x => (Follows.times h n).bind fun xs =>
      follows_pure (List.map φ) (x :: xs)

theorem Follows.list (hdata : data.length < Text.maxWord64) (h : Follows data φ m r)
    (field : String) (size : Nat) :
    Follows data (List.map φ) (list field size m) (Reader.list field size r) :=
  (follows_count hdata field size).bind h.times

/-- What a walk passes over while it reads a value is what is written for the value. -/
theorem Follows.spanned {P : α → Prop} {w : α → Bytes} (h : Follows data φ m r)
    (hr : r.Accepts P w) : Follows data (fun x => (φ x, w x)) (spanned m) r := by
  intro t ht
  rw [← Reader.bind_pure_eq r]
  refine .silent (y := t.pos) rfl ((h t ht).bind fun x t' hyields ht' => ?_)
  obtain ⟨-, hspan⟩ := (hr _ _ _).mp hyields
  have hlength := congrArg List.length hspan
  rw [List.length_append, List.length_drop, List.length_drop] at hlength
  have hslice : slice t.pos t'.pos data t' =
      ⟨.ok (w x), ⟨t'.pos, t'.notes ++ [.sliced t.pos t'.pos]⟩⟩ := by
    rw [slice, if_pos ⟨by omega, ht'⟩, List.drop_take, hspan, List.take_left' (by omega)]
  refine .of_eq (o := .ok x) (l := [.sliced t.pos t'.pos]) ?_ rfl (Nat.le_refl _) ht'
    (List.forall_mem_singleton.mpr ⟨by omega, ht'⟩)
  have hposition : position data t' = ⟨.ok t'.pos, t'⟩ := rfl
  exact (bind_of_ok hposition).trans (bind_of_ok hslice)

end Steps

end Walk

end LightServer.Wire
