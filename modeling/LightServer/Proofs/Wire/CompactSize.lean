import LightServer.Proofs.Wire.Reading
import LightServer.Sample.RawBlocks
import Mathlib.Logic.ExistsUnique

/-!
# Compact sizes in all their forms

A number has up to four compact sizes: a byte alone, or two, four or eight bytes
behind a mark. `Encodes` holds of all of them alike, and which one is the shortest is a
comparison of lengths. Every byte string begins with a compact size or stops inside one,
so what comes of reading it is known once it is known for these: the shortest one is
taken, a longer one is refused whatever its form is, and a beginning is refused for the
bytes that are missing. The sizes in sample blocks are written by a function of their
own. They have no form of eight bytes, and are read back as far as four bytes are enough.
-/

namespace LightServer

/-- A string that is too short for its type can be filled up. -/
theorem Octets.exists_isPrefix {k : Nat} {s : Bytes} (hs : s.length ≤ k) :
    ∃ x : Octets k, s <+: x.bytes := by
  have hlength : (s ++ List.replicate (k - s.length) 0).length = k := by
    rw [List.length_append, List.length_replicate]
    omega
  exact ⟨⟨_, hlength⟩, List.prefix_append _ _⟩

namespace Wire

variable {n : Nat} {s code rest : Bytes}

/-- The forms of a compact size: a byte alone, or two, four or eight bytes behind a mark. -/
inductive SizeForm where
  | bare
  | two
  | four
  | eight
  deriving DecidableEq, Repr

namespace SizeForm

variable {f g : SizeForm}

def mark : SizeForm → Bytes
  | bare => []
  | two => [0xFD]
  | four => [0xFE]
  | eight => [0xFF]

def width : SizeForm → Nat
  | bare => 1
  | two => 2
  | four => 4
  | eight => 8

/-- The numbers of the form are below this bound. A byte alone is none of the marks. -/
def bound : SizeForm → Nat
  | bare => 0xFD
  | two => 0x10000
  | four => 0x100000000
  | eight => 0x10000000000000000

def low : SizeForm → Nat
  | bare => 0
  | two => bare.bound
  | four => two.bound
  | eight => four.bound

def size (f : SizeForm) : Nat := f.mark.length + f.width

def write (f : SizeForm) (n : Nat) : Bytes := f.mark ++ Bytes.leBytes f.width n

@[simp] theorem length_write (f : SizeForm) (n : Nat) : (f.write n).length = f.size := by
  rw [write, List.length_append, Bytes.length_leBytes, size]

theorem size_mem (f : SizeForm) : f.size ∈ [1, 3, 5, 9] := by
  cases f <;> decide

theorem low_le_bound (f : SizeForm) : f.low ≤ f.bound := by
  cases f <;> decide

theorem bound_le_sizeBound (f : SizeForm) : f.bound ≤ sizeBound := by
  cases f <;> decide

theorem bound_eq_pow (hf : f ≠ bare) : f.bound = Nat.pow 256 f.width := by
  cases f with
  | bare => exact absurd rfl hf
  | two => rfl
  | four => rfl
  | eight => rfl

theorem length_mark (hf : f ≠ bare) : f.mark.length = 1 := by
  cases f with
  | bare => exact absurd rfl hf
  | two => rfl
  | four => rfl
  | eight => rfl

/-- A form that has room for what is too large for the forms before `f` is not shorter than `f`. -/
theorem size_le_of_low_lt_bound (h : f.low < g.bound) : f.size ≤ g.size := by
  revert h
  cases f <;> cases g <;> decide

theorem exists_mark_eq {b : UInt8} (hb : 0xFD ≤ b.toNat) :
    ∃ f : SizeForm, f ≠ bare ∧ f.mark = [b] := by
  have hlt := b.toNat_lt
  have hlast : b.toNat = 0xFD ∨ b.toNat = 0xFE ∨ b.toNat = 0xFF := by omega
  rcases hlast with hFD | hFE | hFF
  · exact ⟨two, by decide, congrArg (fun c => [c]) (UInt8.toNat_inj.mp hFD).symm⟩
  · exact ⟨four, by decide, congrArg (fun c => [c]) (UInt8.toNat_inj.mp hFE).symm⟩
  · exact ⟨eight, by decide, congrArg (fun c => [c]) (UInt8.toNat_inj.mp hFF).symm⟩

theorem lt_low_iff : n < f.low ↔ ∃ g : SizeForm, n < g.bound ∧ g.size < f.size := by
  constructor
  · intro hn
    cases f with
    | bare => exact absurd hn (Nat.not_lt_zero n)
    | two => exact ⟨bare, hn, by decide⟩
    | four => exact ⟨two, hn, by decide⟩
    | eight => exact ⟨four, hn, by decide⟩
  · rintro ⟨g, hg, hshorter⟩
    refine Nat.lt_of_not_le fun hlow => ?_
    exact Nat.not_lt.mpr (size_le_of_low_lt_bound (Nat.lt_of_le_of_lt hlow hg)) hshorter

theorem exists_form (hn : n < sizeBound) : ∃ f : SizeForm, f.low ≤ n ∧ n < f.bound := by
  by_cases hone : n < bare.bound
  · exact ⟨bare, Nat.zero_le n, hone⟩
  by_cases htwo : n < two.bound
  · exact ⟨two, Nat.le_of_not_lt hone, htwo⟩
  by_cases hfour : n < four.bound
  · exact ⟨four, Nat.le_of_not_lt htwo, hfour⟩
  exact ⟨eight, Nat.le_of_not_lt hfour, hn⟩

theorem compactSize_eq_write (hlow : f.low ≤ n) (hn : n < f.bound) : compactSize n = f.write n := by
  unfold compactSize
  cases f with
  | bare => exact if_pos hn
  | two => exact (if_neg (Nat.not_lt.mpr hlow)).trans (if_pos hn)
  | four =>
      have hone : 0xFD ≤ n := Nat.le_trans (by decide) hlow
      rw [if_neg (Nat.not_lt.mpr hone)]
      exact (if_neg (Nat.not_lt.mpr hlow)).trans (if_pos hn)
  | eight =>
      have hone : 0xFD ≤ n := Nat.le_trans (by decide) hlow
      have htwo : 0x10000 ≤ n := Nat.le_trans (by decide) hlow
      rw [if_neg (Nat.not_lt.mpr hone), if_neg (Nat.not_lt.mpr htwo)]
      exact if_neg (Nat.not_lt.mpr hlow)

/-- Behind a mark every string of the right length is a number. -/
theorem toNat_lt_bound (hf : f ≠ bare) (x : Octets f.width) : x.toNat < f.bound := by
  rw [bound_eq_pow hf]
  exact x.toNat_lt

theorem write_toNat (x : Octets f.width) : f.write x.toNat = f.mark ++ x.bytes := by
  have hx := congrArg Octets.bytes x.ofNat_toNat
  rw [write]
  exact congrArg (f.mark ++ ·) hx

end SizeForm

def Encodes (code : Bytes) (n : Nat) : Prop := ∃ f : SizeForm, n < f.bound ∧ code = f.write n

/-- The bytes are a compact size of the number, and no other one is shorter. -/
def IsShortest (code : Bytes) (n : Nat) : Prop :=
  Encodes code n ∧ ∀ other, Encodes other n → code.length ≤ other.length

def IsOverlong (code : Bytes) (n : Nat) : Prop :=
  Encodes code n ∧ ∃ other, Encodes other n ∧ other.length < code.length

/-- The bytes stop inside a compact size, where `needed` bytes are asked for and `remaining` are
there. The first byte is asked for alone, and the others together. -/
def StopsInside (s : Bytes) (needed remaining : Nat) : Prop :=
  ∃ n code, Encodes code n ∧ s <+: code ∧ s.length < code.length ∧
    (s = [] ∧ needed = 1 ∧ remaining = 0 ∨
      code.length = needed + 1 ∧ s.length = remaining + 1)

theorem isShortest_iff : IsShortest code n ↔ n < sizeBound ∧ code = compactSize n := by
  constructor
  · rintro ⟨⟨f, hn, rfl⟩, hshortest⟩
    have hlow : f.low ≤ n := by
      refine Nat.le_of_not_lt fun hlow => ?_
      obtain ⟨g, hg, hshorter⟩ := SizeForm.lt_low_iff.mp hlow
      have hle := hshortest (g.write n) ⟨g, hg, rfl⟩
      rw [SizeForm.length_write, SizeForm.length_write] at hle
      exact Nat.not_lt.mpr hle hshorter
    exact ⟨Nat.lt_of_lt_of_le hn f.bound_le_sizeBound, (SizeForm.compactSize_eq_write hlow hn).symm⟩
  · rintro ⟨hn, rfl⟩
    obtain ⟨f, hlow, hbound⟩ := SizeForm.exists_form hn
    rw [SizeForm.compactSize_eq_write hlow hbound]
    refine ⟨⟨f, hbound, rfl⟩, ?_⟩
    rintro _ ⟨g, hg, rfl⟩
    rw [SizeForm.length_write, SizeForm.length_write]
    refine Nat.le_of_not_lt fun hshorter => ?_
    exact Nat.not_lt.mpr hlow (SizeForm.lt_low_iff.mpr ⟨g, hg, hshorter⟩)

theorem isOverlong_iff : IsOverlong code n ↔ ∃ f : SizeForm, n < f.low ∧ code = f.write n := by
  constructor
  · rintro ⟨⟨f, hn, rfl⟩, _, ⟨g, hg, rfl⟩, hshorter⟩
    rw [SizeForm.length_write, SizeForm.length_write] at hshorter
    exact ⟨f, SizeForm.lt_low_iff.mpr ⟨g, hg, hshorter⟩, rfl⟩
  · rintro ⟨f, hlow, rfl⟩
    obtain ⟨g, hg, hshorter⟩ := SizeForm.lt_low_iff.mp hlow
    refine ⟨⟨f, Nat.lt_of_lt_of_le hlow f.low_le_bound, rfl⟩, g.write n, ⟨g, hg, rfl⟩, ?_⟩
    rwa [SizeForm.length_write, SizeForm.length_write]

/-- Bytes behind a mark that are too few for a number are the beginning of one. -/
theorem stopsInside_of_lt {f : SizeForm} (hf : f ≠ .bare) (hs : s.length < f.width) :
    StopsInside (f.mark ++ s) f.width s.length := by
  obtain ⟨x, hx⟩ := Octets.exists_isPrefix (Nat.le_of_lt hs)
  have hmark := SizeForm.length_mark hf
  refine ⟨x.toNat, f.write x.toNat, ⟨f, SizeForm.toNat_lt_bound hf x, rfl⟩, ?_, ?_, .inr ⟨?_, ?_⟩⟩
  · rw [SizeForm.write_toNat, List.prefix_append_right_inj]
    exact hx
  · rw [SizeForm.length_write, SizeForm.size, List.length_append]
    omega
  · rw [SizeForm.length_write, SizeForm.size, hmark, Nat.add_comm]
  · rw [List.length_append, hmark, Nat.add_comm]

theorem stopsInside_nil : StopsInside [] 1 0 :=
  ⟨0, SizeForm.bare.write 0, ⟨.bare, by decide, rfl⟩, List.nil_prefix, by decide,
    .inl ⟨rfl, rfl, rfl⟩⟩

/-- What stops inside a compact size is empty or has the whole mark. -/
theorem StopsInside.cases {needed remaining : Nat} (h : StopsInside s needed remaining) :
    (s = [] ∧ needed = 1 ∧ remaining = 0) ∨
      ∃ (f : SizeForm) (t : Bytes), f ≠ .bare ∧ s = f.mark ++ t ∧ t.length < f.width ∧
        needed = f.width ∧ remaining = t.length := by
  obtain ⟨n, _, ⟨f, -, rfl⟩, hprefix, hlt, hempty | ⟨hneeded, hremaining⟩⟩ := h
  · exact .inl hempty
  rw [SizeForm.length_write] at hlt hneeded
  have hf : f ≠ .bare := by
    rintro rfl
    have hsize : SizeForm.bare.size = 1 := rfl
    omega
  have hmark := SizeForm.length_mark hf
  -- both begin what was cut, and the mark is as short as a string can be that is not empty
  have hbegins : f.mark <+: s := by
    refine List.prefix_of_prefix_length_le (List.prefix_append _ _) hprefix ?_
    omega
  obtain ⟨t, rfl⟩ := hbegins
  rw [SizeForm.size, hmark] at hlt hneeded
  rw [List.length_append, hmark] at hlt hremaining
  exact .inr ⟨f, t, hf, rfl, by omega, by omega, by omega⟩

/-- A byte string is empty, stops behind a mark, or begins with a number in one of the forms. -/
theorem sizeFront_cases (s : Bytes) :
    s = [] ∨
      (∃ (f : SizeForm) (t : Bytes), f ≠ .bare ∧ t.length < f.width ∧ s = f.mark ++ t) ∨
      ∃ (f : SizeForm) (n : Nat) (rest : Bytes), n < f.bound ∧ s = f.write n ++ rest := by
  cases s with
  | nil => exact .inl rfl
  | cons b t =>
      -- a byte that is no mark is a number, and a mark tells how many bytes one has
      by_cases hb : b.toNat < 0xFD
      · have hbyte : SizeForm.bare.write b.toNat = [b] := by
          simp [SizeForm.write, SizeForm.mark, SizeForm.width, Bytes.leBytes]
        refine .inr (.inr ⟨.bare, b.toNat, t, hb, ?_⟩)
        rw [hbyte]
        rfl
      obtain ⟨f, hf, hmark⟩ := SizeForm.exists_mark_eq (Nat.le_of_not_lt hb)
      have hs : b :: t = f.mark ++ t := by
        rw [hmark]
        rfl
      rw [hs]
      cases htake : Octets.take? f.width t with
      | none => exact .inr (.inl ⟨f, t, hf, Octets.take?_eq_none_iff.mp htake, rfl⟩)
      | some p =>
          obtain ⟨x, rest⟩ := p
          obtain rfl := Octets.eq_append_of_take? htake
          refine .inr (.inr ⟨f, x.toNat, rest, SizeForm.toNat_lt_bound hf x, ?_⟩)
          rw [SizeForm.write_toNat, List.append_assoc]

namespace Reader

variable {field : String}

theorem yields_byte (b : UInt8) (s : Bytes) : (number 1 field).Yields (b :: s) b.toNat s := by
  refine yields_number.mpr ⟨b.toNat_lt, ?_⟩
  simp [Bytes.leBytes]

/-- Behind its mark a form is a number of its width that has no shorter form. -/
theorem refuses_mark_append {f : SizeForm} {e : ParseError} (hf : f ≠ .bare)
    (h : (number f.width field >>= fun v => atLeast f.low v).Refuses s e) :
    (compactSize field).Refuses (f.mark ++ s) e := by
  cases f with
  | bare => exact absurd rfl hf
  | two => exact (yields_byte 0xFD s).bind_refuses h
  | four => exact (yields_byte 0xFE s).bind_refuses h
  | eight => exact (yields_byte 0xFF s).bind_refuses h

theorem refuses_overlong {f : SizeForm} (hlow : n < f.low) (rest : Bytes) :
    (compactSize field).Refuses (f.write n ++ rest) .nonCanonicalSize := by
  have hf : f ≠ .bare := by
    rintro rfl
    exact Nat.not_lt_zero n hlow
  have hn : n < Nat.pow 256 f.width := by
    rw [← SizeForm.bound_eq_pow hf]
    exact Nat.lt_of_lt_of_le hlow f.low_le_bound
  have hnumber : (number f.width field).Yields (Bytes.leBytes f.width n ++ rest) n rest :=
    yields_number.mpr ⟨hn, rfl⟩
  rw [SizeForm.write, List.append_assoc]
  refine refuses_mark_append hf (hnumber.bind_refuses ?_)
  rw [atLeast, if_pos hlow]
  exact refuses_refuse

theorem refuses_of_stopsInside {needed remaining : Nat} (h : StopsInside s needed remaining) :
    (compactSize field).Refuses s (.unexpectedEnd field needed remaining) := by
  obtain ⟨rfl, rfl, rfl⟩ | ⟨f, t, hf, rfl, hlt, rfl, rfl⟩ := h.cases
  · exact (refuses_number Nat.zero_lt_one).bind _
  · exact refuses_mark_append hf ((refuses_number hlt).bind _)

/-- One of three things comes of reading a compact size. -/
theorem compactSize_cases (field : String) (s : Bytes) :
    (∃ n rest, (compactSize field).Yields s n rest) ∨
      ((compactSize field).Refuses s .nonCanonicalSize ∧ ∃ n code, IsOverlong code n ∧ code <+: s) ∨
      ∃ needed remaining, (compactSize field).Refuses s (.unexpectedEnd field needed remaining) ∧
        StopsInside s needed remaining := by
  obtain rfl | ⟨f, t, hf, hlt, rfl⟩ | ⟨f, n, rest, hn, rfl⟩ := sizeFront_cases s
  · exact .inr (.inr ⟨1, 0, refuses_of_stopsInside stopsInside_nil, stopsInside_nil⟩)
  · have hstops := stopsInside_of_lt hf hlt
    exact .inr (.inr ⟨f.width, t.length, refuses_of_stopsInside hstops, hstops⟩)
  · by_cases hlow : n < f.low
    · exact .inr (.inl ⟨refuses_overlong hlow rest, n, f.write n, isOverlong_iff.mpr ⟨f, hlow, rfl⟩,
        List.prefix_append _ _⟩)
    · have hcode := SizeForm.compactSize_eq_write (Nat.le_of_not_lt hlow) hn
      have hbound := Nat.lt_of_lt_of_le hn f.bound_le_sizeBound
      exact .inl ⟨n, rest, yields_compactSize.mpr ⟨hbound, by rw [hcode]⟩⟩

/-- A compact size is refused for being longer than another one, or for stopping before its end. -/
theorem refuses_compactSize {e : ParseError} :
    (compactSize field).Refuses s e ↔
      (e = .nonCanonicalSize ∧ ∃ n code, IsOverlong code n ∧ code <+: s) ∨
        ∃ needed remaining, e = .unexpectedEnd field needed remaining ∧
          StopsInside s needed remaining := by
  constructor
  · intro h
    obtain ⟨n, rest, hyields⟩ | ⟨hrefuses, hoverlong⟩ | ⟨needed, remaining, hrefuses, hstops⟩ :=
      compactSize_cases field s
    · exact absurd h hyields.not_refuses
    · exact .inl ⟨h.unique hrefuses, hoverlong⟩
    · exact .inr ⟨needed, remaining, h.unique hrefuses, hstops⟩
  · rintro (⟨rfl, n, code, hcode, rest, rfl⟩ | ⟨needed, remaining, rfl, hstops⟩)
    · obtain ⟨f, hlow, rfl⟩ := isOverlong_iff.mp hcode
      exact refuses_overlong hlow rest
    · exact refuses_of_stopsInside hstops

example : (compactSize "tx count" [0xFD, 0xFC, 0x00, 0x07]).outcome = .error .nonCanonicalSize :=
  rfl

/-- At a position the reader takes the shortest compact size of a number if that stands there, and
goes on right behind it. It refuses a longer one for its length and the beginning of one for the
bytes that are missing, and refuses nothing else. -/
structure ReadsShortest (r : Reader Nat) (field : String) (data : Bytes) (pos : Nat) : Prop where
  yields_iff : ∀ n rest, r.Yields (data.drop pos) n rest ↔
    ∃ code, IsShortest code n ∧ code <+: data.drop pos ∧ rest = data.drop (pos + code.length)
  refuses_iff : ∀ e, r.Refuses (data.drop pos) e ↔
    (e = .nonCanonicalSize ∧ ∃ n code, IsOverlong code n ∧ code <+: data.drop pos) ∨
      ∃ needed remaining, e = .unexpectedEnd field needed remaining ∧
        StopsInside (data.drop pos) needed remaining

theorem readsShortest_compactSize (field : String) (data : Bytes) (pos : Nat) :
    (compactSize field).ReadsShortest field data pos where
  yields_iff n rest := by
    rw [yields_compactSize]
    constructor
    · rintro ⟨hn, hdata⟩
      refine ⟨Wire.compactSize n, isShortest_iff.mpr ⟨hn, rfl⟩, ⟨rest, hdata.symm⟩, ?_⟩
      rw [← List.drop_drop, hdata, List.drop_left]
    · rintro ⟨code, hcode, hprefix, rfl⟩
      obtain ⟨hn, rfl⟩ := isShortest_iff.mp hcode
      refine ⟨hn, ?_⟩
      rw [← List.drop_drop]
      exact (List.prefix_iff_eq_append.mp hprefix).symm
  refuses_iff _ := refuses_compactSize

end Reader

end Wire

namespace Sample

open Wire

theorem sizeBytes_eq {n : Nat} (hn : n < 0x100000000) : sizeBytes n = compactSize n := by
  unfold sizeBytes compactSize
  by_cases hone : n < 0xFD
  · rw [if_pos (Nat.le_of_lt_succ hone), if_pos hone]
    rfl
  rw [if_neg (mt Nat.lt_succ_of_le hone), if_neg hone]
  by_cases htwo : n < 0x10000
  · rw [if_pos (Nat.le_of_lt_succ htwo), if_pos htwo]
  rw [if_neg (mt Nat.lt_succ_of_le htwo), if_neg htwo, if_pos hn]

theorem length_sizeBytes_le (n : Nat) : (sizeBytes n).length ≤ 5 := by
  unfold sizeBytes
  split
  · simp
  · split <;> simp

theorem length_compactSize_of_le {n : Nat} (hn : 0x100000000 ≤ n) : (compactSize n).length = 9 := by
  unfold compactSize
  rw [if_neg (by omega), if_neg (by omega), if_neg (by omega)]
  simp

theorem yields_sizeBytes_iff {field : String} {n : Nat} {rest : Bytes} :
    (Reader.compactSize field).Yields (sizeBytes n ++ rest) n rest ↔ n < 0x100000000 := by
  rw [Reader.yields_compactSize]
  constructor
  · rintro ⟨-, hbytes⟩
    refine Nat.lt_of_not_le fun hn => ?_
    have hlength := congrArg List.length (List.append_cancel_right hbytes)
    have hle := length_sizeBytes_le n
    rw [length_compactSize_of_le hn] at hlength
    omega
  · intro hn
    rw [sizeBytes_eq hn]
    exact ⟨Nat.lt_trans hn (by decide), rfl⟩

end Sample

namespace Wire

/-- Each number of up to eight bytes has exactly one shortest compact size, of one, three, five or
nine bytes, and at every position of every input that is what is read. The sizes of sample blocks
are the shortest ones for all numbers below `2 ^ 32`, and no larger number is read back from
them. -/
theorem compactSize_canonical (field : String) :
    (∀ n, (∃! code, IsShortest code n) ↔ n < sizeBound) ∧
    (∀ n code, IsShortest code n → code.length ∈ [1, 3, 5, 9]) ∧
    (∀ data pos, (Reader.compactSize field).ReadsShortest field data pos) ∧
    (∀ n, n < 0x100000000 → Sample.sizeBytes n = compactSize n) ∧
    ∀ n rest, (Reader.compactSize field).Yields (Sample.sizeBytes n ++ rest) n rest ↔
      n < 0x100000000 := by
  refine ⟨fun n => ?_, ?_, Reader.readsShortest_compactSize field, fun n => Sample.sizeBytes_eq,
    fun n rest => Sample.yields_sizeBytes_iff⟩
  · constructor
    · rintro ⟨code, hcode, -⟩
      exact (isShortest_iff.mp hcode).1
    · intro hn
      refine ⟨compactSize n, isShortest_iff.mpr ⟨hn, rfl⟩, fun code hcode => ?_⟩
      exact (isShortest_iff.mp hcode).2
  · rintro n _ ⟨⟨f, -, rfl⟩, -⟩
    rw [SizeForm.length_write]
    exact f.size_mem

end Wire

end LightServer
