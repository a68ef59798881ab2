import LightServer.Proofs.Wire.SampleBlocks

/-!
# Blocks that are cut off or continued

A reader that takes a value from a byte string goes the same way on every prefix
of it, until it asks for more bytes than the prefix has. For a single reader that
is a comparison of lengths. A count is compared with fewer bytes on the prefix than
on the whole, so it may be refused there earlier than its items would be, but again
because bytes are missing. Sequences of readers inherit it, and with them the reader of
blocks. Since that one also insists that nothing follows, no block is the
beginning of another.
-/

namespace LightServer.Wire

namespace Reader

variable {α β : Type} {s rest : Bytes} {n : Nat}

/-- The reader refuses `s` because it has too few bytes. -/
def RunsOut (r : Reader α) (s : Bytes) : Prop :=
  ∃ field needed remaining, r.Refuses s (.unexpectedEnd field needed remaining)

/-- On the beginning of a byte string from which it takes a value, the reader takes the same value
or runs out of bytes. -/
def Lockstep (r : Reader α) : Prop :=
  ∀ ⦃cut tail x rest⦄, r.Yields (cut ++ tail) x rest →
    (∃ mid, rest = mid ++ tail ∧ r.Yields cut x mid) ∨ r.RunsOut cut

theorem RunsOut.bind {r : Reader α} (h : r.RunsOut s) (f : α → Reader β) :
    (r >>= f).RunsOut s := by
  obtain ⟨field, needed, remaining, hrefuses⟩ := h
  exact ⟨field, needed, remaining, hrefuses.bind f⟩

theorem Yields.bind_runsOut {r : Reader α} {f : α → Reader β} {x : α} (h : r.Yields s x rest)
    (hf : (f x).RunsOut rest) : (r >>= f).RunsOut s := by
  obtain ⟨field, needed, remaining, hrefuses⟩ := hf
  exact ⟨field, needed, remaining, h.bind_refuses hrefuses⟩

theorem Lockstep.bind {r : Reader α} {f : α → Reader β} (hr : r.Lockstep)
    (hf : ∀ x, (f x).Lockstep) : (r >>= f).Lockstep := by
  intro cut tail y rest h
  obtain ⟨x, mid, hx, hy⟩ := yields_bind.mp h
  rcases hr hx with ⟨first, rfl, hcut⟩ | hout
  · rcases hf x hy with ⟨second, hrest, hsecond⟩ | hout
    · exact .inl ⟨second, hrest, yields_bind.mpr ⟨x, first, hcut, hsecond⟩⟩
    · exact .inr (hcut.bind_runsOut hout)
  · exact .inr (hout.bind f)

theorem lockstep_pure (a : α) : (pure a : Reader α).Lockstep := by
  intro cut tail x rest h
  obtain ⟨rfl, rfl⟩ := yields_pure.mp h
  exact .inl ⟨cut, rfl, yields_pure.mpr ⟨rfl, rfl⟩⟩

theorem lockstep_refuse (e : ParseError) : (refuse e : Reader α).Lockstep :=
  fun _ _ _ _ h => absurd h not_yields_refuse

theorem lockstep_take (n : Nat) (field : String) : (take n field).Lockstep := by
  intro cut tail x rest h
  rw [yields_take] at h
  cases hcut : Octets.take? n cut with
  | some p =>
      obtain ⟨y, mid⟩ := p
      obtain rfl := Octets.eq_append_of_take? hcut
      rw [List.append_assoc] at h
      obtain ⟨hbytes, hrest⟩ := List.append_inj h (y.length_eq.trans x.length_eq.symm)
      obtain rfl := Octets.ext hbytes
      exact .inl ⟨mid, hrest.symm, yields_take.mpr rfl⟩
  | none => exact .inr ⟨field, n, cut.length, refuses_take (Octets.take?_eq_none_iff.mp hcut)⟩

theorem lockstep_number (n : Nat) (field : String) : (number n field).Lockstep :=
  (lockstep_take n field).bind fun _ => lockstep_pure _

theorem lockstep_atLeast (low value : Nat) : (atLeast low value).Lockstep := by
  unfold atLeast
  split
  · exact lockstep_refuse _
  · exact lockstep_pure _

theorem lockstep_compactSize (field : String) : (compactSize field).Lockstep := by
  refine (lockstep_number 1 field).bind fun first => ?_
  split
  · exact (lockstep_number 2 field).bind fun _ => lockstep_atLeast _ _
  · exact (lockstep_number 4 field).bind fun _ => lockstep_atLeast _ _
  · exact (lockstep_number 8 field).bind fun _ => lockstep_atLeast _ _
  · exact lockstep_pure _

theorem Yields.runsOut_count {field : String} {size : Nat} (h : (compactSize field).Yields s n rest)
    (hshort : rest.length < n * max size 1) : (count field size).RunsOut s := by
  refine h.bind_runsOut ⟨field, min (n * max size 1) Text.maxWord64, rest.length, ?_⟩
  simp only [Refuses]
  rw [if_neg fun hreaches => Nat.not_le_of_lt hshort (Bytes.reaches_iff.mp hreaches)]

/-- What is left of the prefix may be too short for the items, though what is left of the whole is
not. -/
theorem lockstep_count (field : String) (size : Nat) : (count field size).Lockstep := by
  intro cut tail n rest h
  obtain ⟨hn, -, hbytes⟩ := yields_count.mp h
  have hsize : (compactSize field).Yields (cut ++ tail) n rest :=
    yields_compactSize.mpr ⟨hn, hbytes⟩
  rcases lockstep_compactSize field hsize with ⟨mid, hrest, hcut⟩ | hout
  · rcases Nat.lt_or_ge mid.length (n * max size 1) with hshort | hfits
    · exact .inr (hcut.runsOut_count hshort)
    · exact .inl ⟨mid, hrest, yields_count.mpr ⟨hn, hfits, (yields_compactSize.mp hcut).2⟩⟩
  · exact .inr (hout.bind _)

theorem lockstep_varBytes (field : String) : (varBytes field).Lockstep :=
  (lockstep_count field 1).bind fun n => (lockstep_take n field).bind fun _ => lockstep_pure _

theorem Lockstep.item {r : Reader α} (hr : r.Lockstep) : (item r).Lockstep := by
  intro cut tail x rest h
  rcases hr (yields_item.mp h) with ⟨mid, hrest, hcut⟩ | ⟨field, needed, remaining, hrefuses⟩
  · exact .inl ⟨mid, hrest, yields_item.mpr hcut⟩
  · have hbegin : beginItem.Yields cut () cut := ⟨rfl, rfl⟩
    exact .inr ⟨field, needed, remaining, hbegin.bind_refuses hrefuses⟩

theorem Lockstep.times {r : Reader α} (hr : r.Lockstep) : ∀ n, (times r n).Lockstep
  | 0 => lockstep_pure _
  | n + 1 => hr.item.bind fun _ => (Lockstep.times hr n).bind fun _ => lockstep_pure _

theorem Lockstep.list {r : Reader α} (hr : r.Lockstep) (field : String) (size : Nat) :
    (list field size r).Lockstep :=
  (lockstep_count field size).bind hr.times

end Reader

open Reader

theorem Input.lockstep_read : Input.read.Lockstep :=
  (lockstep_take _ _).bind fun _ => (lockstep_take _ _).bind fun _ =>
    (lockstep_varBytes _).bind fun _ => (lockstep_take _ _).bind fun _ => lockstep_pure _

theorem Output.lockstep_read : Output.read.Lockstep :=
  (lockstep_take _ _).bind fun _ => (lockstep_varBytes _).bind fun _ => lockstep_pure _

theorem JoinSplits.lockstep_read (size : Nat) : (JoinSplits.read size).Lockstep :=
  (lockstep_count _ _).bind fun _ => (lockstep_take _ _).bind fun _ =>
    (lockstep_take _ _).bind fun _ => lockstep_pure _

namespace Transaction

theorem lockstep_readShielded (v : Version) (size : Nat) (counted each : String) :
    (readShielded v size counted each).Lockstep := by
  unfold readShielded
  split
  · exact (lockstep_take size each).list counted size
  · exact lockstep_pure _

theorem lockstep_readJoinSplits (v : Version) : (readJoinSplits v).Lockstep := by
  unfold readJoinSplits
  split
  · exact JoinSplits.lockstep_read _
  · exact lockstep_pure _

theorem lockstep_readBody (v : Version) : (readBody v).Lockstep :=
  (lockstep_take _ _).bind fun _ => (Input.lockstep_read.list _ _).bind fun _ =>
    (Output.lockstep_read.list _ _).bind fun _ => (lockstep_take _ _).bind fun _ =>
      (lockstep_take _ _).bind fun _ => (lockstep_take _ _).bind fun _ =>
        (lockstep_readShielded _ _ _ _).bind fun _ => (lockstep_readShielded _ _ _ _).bind fun _ =>
          (lockstep_readJoinSplits _).bind fun _ => (lockstep_take _ _).bind fun _ =>
            lockstep_pure _

theorem lockstep_read : Transaction.read.Lockstep := by
  refine (lockstep_number _ _).bind fun header => ?_
  split
  · exact lockstep_readBody _
  · exact lockstep_refuse _

end Transaction

theorem Header.lockstep_read : Header.read.Lockstep :=
  (lockstep_take _ _).bind fun _ => (lockstep_take _ _).bind fun _ =>
    (lockstep_take _ _).bind fun _ => (lockstep_take _ _).bind fun _ =>
      (lockstep_take _ _).bind fun _ => (lockstep_take _ _).bind fun _ =>
        (lockstep_take _ _).bind fun _ => (lockstep_varBytes _).bind fun _ => lockstep_pure _

namespace Block

variable {height : Nat} {b : Block} {raw cut extra : Bytes}

theorem lockstep_readCoinbase (height : Nat) : (readCoinbase height).Lockstep := by
  refine Transaction.lockstep_read.bind fun t => ?_
  split
  · exact lockstep_pure _
  · exact lockstep_refuse _

theorem lockstep_readTransactions (height n : Nat) : (readTransactions height n).Lockstep := by
  cases n with
  | zero => exact lockstep_refuse _
  | succ n =>
      exact (lockstep_readCoinbase height).item.bind fun _ =>
        (Transaction.lockstep_read.times n).bind fun _ => lockstep_pure _

theorem lockstep_readEnd : readEnd.Lockstep := by
  intro cut tail u rest h
  obtain ⟨hnil, rfl⟩ := yields_readEnd.mp h
  obtain ⟨rfl, rfl⟩ := List.append_eq_nil_iff.mp hnil
  exact .inl ⟨[], rfl, yields_readEnd.mpr ⟨rfl, rfl⟩⟩

theorem lockstep_read (height : Nat) : (Block.read height).Lockstep :=
  Header.lockstep_read.bind fun _ => (lockstep_count _ _).bind fun _ =>
    (lockstep_readTransactions _ _).bind fun _ => lockstep_readEnd.bind fun _ => lockstep_pure _

/-- A reader of blocks leaves nothing, so on a proper beginning it cannot take the same way to the
end. -/
theorem runsOut_read_of_cut (h : (Block.read height).Yields raw b rest) (hcut : cut <+: raw)
    (hne : cut ≠ raw) : (Block.read height).RunsOut cut := by
  obtain ⟨tail, rfl⟩ := hcut
  rcases lockstep_read height h with ⟨mid, hmid, -⟩ | hout
  · obtain ⟨-, -, -, rfl⟩ := yields_read.mp h
    obtain ⟨-, rfl⟩ := List.append_eq_nil_iff.mp hmid.symm
    exact absurd (List.append_nil cut).symm hne
  · exact hout

/-- Everything up to the end of the block is read as if nothing followed. -/
theorem refuses_read_append (h : (Block.read height).Yields raw b rest) (hextra : extra ≠ []) :
    (Block.read height).Refuses (raw ++ extra) (.trailingBytes extra.length) := by
  obtain ⟨hb, hopens, rfl, -⟩ := yields_read.mp h
  have hfits := mul_length_le_length_flatMap fun t (_ : t ∈ b.transactions) =>
    t.four_le_length_encode
  have hheader : Header.read.Yields (b.encode ++ extra) b.header
      (listBytes Transaction.encode b.transactions ++ extra) :=
    (Header.accepts_read _ _ _).mpr ⟨hb.header, List.append_assoc _ _ _⟩
  have hcount : (Reader.count "tx count" 4).Yields
      (listBytes Transaction.encode b.transactions ++ extra) b.transactions.length
      (b.transactions.flatMap Transaction.encode ++ extra) := by
    refine yields_count.mpr ⟨hb.count, ?_, List.append_assoc _ _ _⟩
    rw [List.length_append]
    exact Nat.le_add_right_of_le hfits
  have htransactions : (readTransactions height b.transactions.length).Yields
      (b.transactions.flatMap Transaction.encode ++ extra) b.transactions extra :=
    yields_readTransactions.mpr ⟨rfl, hopens, hb.transactions, rfl⟩
  have hend : readEnd.Refuses extra (.trailingBytes extra.length) := by
    unfold Refuses readEnd
    rw [if_neg (by rwa [List.isEmpty_iff])]
  exact hheader.bind_refuses (hcount.bind_refuses (htransactions.bind_refuses (hend.bind _)))

/-- The height plays no part in where a block ends. -/
theorem OpensWithCoinbase.zero (h : b.OpensWithCoinbase height) : b.OpensWithCoinbase 0 := by
  obtain ⟨t, ts, i, hts, hinputs, hhash, hindex, -⟩ := h
  exact ⟨t, ts, i, hts, hinputs, hhash, hindex, fun hpos => absurd hpos (Nat.lt_irrefl 0)⟩

end Block

section Parse

variable {raw cut extra longer : Bytes} {height other : UInt64} {x y : CompactBlock}

theorem parse_eq_error_of_cut (h : parse raw height = .ok x) (hcut : cut <+: raw)
    (hne : cut ≠ raw) :
    ∃ field needed remaining, parse cut height = .error (.unexpectedEnd field needed remaining) := by
  obtain ⟨b, rest, hread, -⟩ := parse_eq_ok_iff_yields.mp h
  obtain ⟨field, needed, remaining, hrefuses⟩ := Block.runsOut_read_of_cut hread hcut hne
  unfold Refuses at hrefuses
  refine ⟨field, needed, remaining, ?_⟩
  rw [parse, hrefuses]
  rfl

theorem parse_append_eq_error (h : parse raw height = .ok x) (hextra : extra ≠ []) :
    parse (raw ++ extra) height = .error (.trailingBytes extra.length) := by
  obtain ⟨b, rest, hread, -⟩ := parse_eq_ok_iff_yields.mp h
  have hrefuses := Block.refuses_read_append hread hextra
  unfold Refuses at hrefuses
  rw [parse, hrefuses]
  rfl

theorem exists_parse_zero (h : parse raw height = .ok x) : ∃ y, parse raw 0 = .ok y := by
  obtain ⟨b, hb, hraw, hopens, -⟩ := parse_eq_ok_iff_compact.mp h
  exact ⟨_, parse_eq_ok_iff_compact.mpr ⟨b, hb, hraw, hopens.zero, rfl⟩⟩

theorem eq_of_isPrefix_of_parse (h : parse raw height = .ok x) (hlonger : parse longer other = .ok y)
    (hpre : raw <+: longer) : raw = longer := by
  obtain ⟨extra, rfl⟩ := hpre
  obtain ⟨z, hz⟩ := exists_parse_zero h
  obtain ⟨w, hw⟩ := exists_parse_zero hlonger
  cases extra with
  | nil => exact (List.append_nil raw).symm
  | cons c cs =>
      rw [parse_append_eq_error hz (List.cons_ne_nil c cs)] at hw
      cases hw

end Parse

/-- Of the bytes of a block nothing can be cut off, and nothing can follow them. Whatever is cut
off, bytes are missing, and whatever follows is trailing. So no bytes that parse, at whatever
height, begin with other bytes that do. -/
theorem parse_cut_or_continued {raw : Bytes} {height : UInt64} {x : CompactBlock}
    (h : parse raw height = .ok x) :
    (∀ cut, cut <+: raw → cut ≠ raw → ∃ field needed remaining,
      parse cut height = .error (.unexpectedEnd field needed remaining)) ∧
    (∀ extra, extra ≠ [] → parse (raw ++ extra) height = .error (.trailingBytes extra.length)) ∧
    ∀ longer other y, parse longer other = .ok y → raw <+: longer → raw = longer :=
  ⟨fun _ hcut hne => parse_eq_error_of_cut h hcut hne,
    fun _ hextra => parse_append_eq_error h hextra,
    fun _ _ _ hlonger hpre => eq_of_isPrefix_of_parse h hlonger hpre⟩

def bareBlock : Block := Sample.blockOf (Octets.fill 32 7) 1600000000 419200 []

theorem wellFormed_bareBlock : bareBlock.WellFormed :=
  Sample.wellFormed_blockOf (by decide) (List.forall_mem_nil _)

theorem parse_encode_bareBlock :
    parse bareBlock.encode 419200 = .ok (bareBlock.compact 419200) := by
  have hopens : bareBlock.OpensWithCoinbase (419200 : UInt64).toNat := Sample.opens_blockOf
  exact parse_eq_ok_iff_compact.mpr ⟨bareBlock, wellFormed_bareBlock, rfl, hopens, rfl⟩

theorem encode_header_ne (b : Block) : b.header.encode ≠ b.encode := by
  intro h
  have hcount := one_le_length_compactSize b.transactions.length
  have hlength := congrArg List.length h
  simp only [Block.encode, listBytes, List.length_append] at hlength
  omega

/-- A header is cut off before the count, and two bytes more are trailing. -/
theorem parse_cut_or_continued_bareBlock :
    parse bareBlock.encode 419200 = .ok (bareBlock.compact 419200) ∧
    (∃ field needed remaining, parse bareBlock.header.encode 419200 =
      .error (.unexpectedEnd field needed remaining)) ∧
    parse (bareBlock.encode ++ [0, 0]) 419200 = .error (.trailingBytes 2) := by
  obtain ⟨hcut, hcontinued, -⟩ := parse_cut_or_continued parse_encode_bareBlock
  exact ⟨parse_encode_bareBlock, hcut _ (List.prefix_append _ _) (encode_header_ne bareBlock),
    hcontinued [0, 0] (List.cons_ne_nil 0 [0])⟩

end LightServer.Wire
