import LightServer.Proofs.Wire.Reading
import LightServer.Wire.Block

/-!
# The grammar of serialized blocks

The writers of inputs, outputs, transactions and blocks give a grammar, once it
is said which values they are meant for: all counts and lengths have to have a
compact size, and a part that the version of a transaction lacks has to be
empty. For such values each reader accepts exactly what the writer writes. The
only conditions that a block has to meet beyond the grammar are those on its
first transaction.
-/

namespace LightServer.Wire

open Reader

variable {s rest : Bytes}

def Input.WellFormed (i : Input) : Prop := i.script.length < sizeBound

def Output.WellFormed (o : Output) : Prop := o.script.length < sizeBound

theorem Input.accepts_read : Input.read.Accepts Input.WellFormed Input.encode := by
  intro s i rest
  simp only [Input.read, Input.encode, Input.WellFormed, yields_bind, yields_pure, yields_take,
    yields_varBytes, List.append_assoc]
  constructor
  · rintro ⟨prevHash, _, rfl, prevIndex, _, rfl, script, _, ⟨hscript, rfl⟩, sequence, _, rfl, rfl,
      rfl⟩
    exact ⟨hscript, rfl⟩
  · rintro ⟨hscript, rfl⟩
    exact ⟨i.prevHash, _, rfl, i.prevIndex, _, rfl, i.script, _, ⟨hscript, rfl⟩, i.sequence, _,
      rfl, rfl, rfl⟩

theorem Output.accepts_read : Output.read.Accepts Output.WellFormed Output.encode := by
  intro s o rest
  simp only [Output.read, Output.encode, Output.WellFormed, yields_bind, yields_pure, yields_take,
    yields_varBytes, List.append_assoc]
  constructor
  · rintro ⟨value, _, rfl, script, _, ⟨hscript, rfl⟩, rfl, rfl⟩
    exact ⟨hscript, rfl⟩
  · rintro ⟨hscript, rfl⟩
    exact ⟨o.value, _, rfl, o.script, _, ⟨hscript, rfl⟩, rfl, rfl⟩

theorem Input.minSize_le_length_encode (i : Input) : minSize ≤ i.encode.length := by
  have hscript := one_le_length_varBytes i.script
  simp only [minSize, encode, List.length_append, Octets.length_eq]
  omega

theorem Output.minSize_le_length_encode (o : Output) : minSize ≤ o.encode.length := by
  have hscript := one_le_length_varBytes o.script
  simp only [minSize, encode, List.length_append, Octets.length_eq]
  omega

theorem Version.ofHeader?_eq_some_iff {n : Nat} {v : Version} :
    ofHeader? n = some v ↔ n = v.header := by
  constructor
  · intro h
    have hfound := List.find?_some h
    exact (beq_iff_eq.mp hfound).symm
  · rintro rfl
    cases v <;> rfl

namespace JoinSplits

variable {size : Nat}

theorem yields_read {j : JoinSplits size} (hsize : 0 < size) :
    (read size).Yields s j rest ↔ j.count < sizeBound ∧ s = j.encode ++ rest := by
  simp only [read, encode, yields_bind, yields_pure, yields_count, yields_take, List.append_assoc]
  constructor
  · rintro ⟨count, _, ⟨hcount, -, rfl⟩, body, _, rfl, closing, _, rfl, rfl, rfl⟩
    exact ⟨hcount, rfl⟩
  · rintro ⟨hcount, rfl⟩
    refine ⟨j.count, _, ⟨hcount, ?_, rfl⟩, j.body, _, rfl, j.closing, _, rfl, rfl, rfl⟩
    rw [Nat.max_eq_left hsize, List.length_append, Octets.length_eq]
    exact Nat.le_add_right _ _

/-- Without a joinsplit there is nothing to tell apart. -/
theorem eq_none_of_count {j : JoinSplits size} (h : j.count = 0) : j = none size := by
  obtain ⟨count, body, closing⟩ := j
  cases h
  have hempty : ∀ {n : Nat} (x y : Octets n), n = 0 → x = y := by
    rintro n x y rfl
    ext1
    rw [List.eq_nil_of_length_eq_zero x.length_eq, List.eq_nil_of_length_eq_zero y.length_eq]
  rw [hempty body (Octets.zero _) (Nat.zero_mul size), hempty closing (Octets.zero _) rfl]
  rfl

end JoinSplits

/-- The counts of the transaction have compact sizes, and so have its scripts. Of what its version
lacks there is nothing. -/
structure Transaction.WellFormed (t : Transaction) : Prop where
  inputs : t.inputs.length < sizeBound ∧ ∀ i ∈ t.inputs, i.WellFormed
  outputs : t.outputs.length < sizeBound ∧ ∀ o ∈ t.outputs, o.WellFormed
  spends : t.spends.length < sizeBound
  shieldedOutputs : t.shieldedOutputs.length < sizeBound
  joinSplits : t.joinSplits.count < sizeBound
  without_shielded : t.version.hasShielded = false → t.spends = [] ∧ t.shieldedOutputs = []
  without_joinSplits : t.version.hasJoinSplits = false → t.joinSplits.count = 0

namespace Transaction

variable {t : Transaction} {v : Version}

theorem yields_readShielded {size : Nat} {counted each : String} {xs : List (Octets size)}
    (hsize : 0 < size) :
    (readShielded v size counted each).Yields s xs rest ↔
      xs.length < sizeBound ∧ (v.hasShielded = false → xs = []) ∧
        s = (if v.hasShielded then listBytes Octets.bytes xs else []) ++ rest := by
  have haccepts := accepts_take size each
  unfold readShielded
  cases v.hasShielded with
  | true =>
      simp only [if_true]
      rw [haccepts.yields_list hsize fun x _ => Nat.le_of_eq x.length_eq.symm]
      simp
  | false =>
      simp only [Bool.false_eq_true, if_false, yields_pure, List.nil_append]
      constructor
      · rintro ⟨rfl, rfl⟩
        exact ⟨sizeBound_pos, fun _ => rfl, rfl⟩
      · rintro ⟨-, hnil, rfl⟩
        exact ⟨hnil trivial, rfl⟩

theorem yields_readJoinSplits {j : JoinSplits v.joinSplitSize} :
    (readJoinSplits v).Yields s j rest ↔
      j.count < sizeBound ∧ (v.hasJoinSplits = false → j.count = 0) ∧
        s = (if v.hasJoinSplits then j.encode else []) ++ rest := by
  unfold readJoinSplits
  cases hv : v.hasJoinSplits with
  | true =>
      have hsize : 0 < v.joinSplitSize := by
        cases v <;> first | decide | cases hv
      simp only [if_true]
      rw [JoinSplits.yields_read hsize]
      simp
  | false =>
      simp only [Bool.false_eq_true, if_false, yields_pure, List.nil_append]
      constructor
      · rintro ⟨rfl, rfl⟩
        exact ⟨sizeBound_pos, fun _ => rfl, rfl⟩
      · rintro ⟨-, hnone, rfl⟩
        exact ⟨JoinSplits.eq_none_of_count (hnone trivial), rfl⟩

def encodeBody (t : Transaction) : Bytes :=
  t.group.bytes ++ (listBytes Input.encode t.inputs ++ (listBytes Output.encode t.outputs ++
    (t.lockTime.bytes ++ (t.expiry.bytes ++ (t.balance.bytes ++
      ((if t.version.hasShielded then listBytes Octets.bytes t.spends else []) ++
        ((if t.version.hasShielded then listBytes Octets.bytes t.shieldedOutputs else []) ++
          ((if t.version.hasJoinSplits then t.joinSplits.encode else []) ++
            t.bindingSignature.bytes))))))))

theorem encode_eq (t : Transaction) :
    t.encode = Bytes.leBytes 4 t.version.header ++ t.encodeBody := by
  unfold encode encodeBody
  cases t.version.hasShielded <;> simp only [List.append_assoc, List.nil_append, if_true,
    Bool.false_eq_true, if_false]

theorem yields_readBody :
    (readBody v).Yields s t rest ↔ t.version = v ∧ t.WellFormed ∧ s = t.encodeBody ++ rest := by
  unfold readBody encodeBody
  simp (disch := decide) only [yields_bind, yields_pure, yields_take, yields_readShielded,
    yields_readJoinSplits,
    Input.accepts_read.yields_list (show 0 < Input.minSize by decide)
      fun i _ => i.minSize_le_length_encode,
    Output.accepts_read.yields_list (show 0 < Output.minSize by decide)
      fun o _ => o.minSize_le_length_encode, List.append_assoc]
  constructor
  · rintro ⟨group, _, rfl, inputs, _, ⟨hinputs, hinput, rfl⟩, outputs, _, ⟨houtputs, houtput, rfl⟩,
      lockTime, _, rfl, expiry, _, rfl, balance, _, rfl, spends, _, ⟨hspends, hnospends, rfl⟩,
      shielded, _, ⟨hshielded, hnoshielded, rfl⟩, joinSplits, _, ⟨hjoinSplits, hnojoinSplits, rfl⟩,
      signature, _, rfl, rfl, rfl⟩
    refine ⟨rfl, ?_, rfl⟩
    exact {
      inputs := ⟨hinputs, hinput⟩
      outputs := ⟨houtputs, houtput⟩
      spends := hspends
      shieldedOutputs := hshielded
      joinSplits := hjoinSplits
      without_shielded := fun hv => ⟨hnospends hv, hnoshielded hv⟩
      without_joinSplits := hnojoinSplits }
  · rintro ⟨rfl, ht, rfl⟩
    exact ⟨t.group, _, rfl, t.inputs, _, ⟨ht.inputs.1, ht.inputs.2, rfl⟩, t.outputs, _,
      ⟨ht.outputs.1, ht.outputs.2, rfl⟩, t.lockTime, _, rfl, t.expiry, _, rfl, t.balance, _, rfl,
      t.spends, _, ⟨ht.spends, fun hv => (ht.without_shielded hv).1, rfl⟩, t.shieldedOutputs, _,
      ⟨ht.shieldedOutputs, fun hv => (ht.without_shielded hv).2, rfl⟩, t.joinSplits, _,
      ⟨ht.joinSplits, ht.without_joinSplits, rfl⟩, t.bindingSignature, _, rfl, rfl, rfl⟩

theorem accepts_read : Transaction.read.Accepts WellFormed encode := by
  intro s t rest
  have hbound : t.version.header < Nat.pow 256 4 := by
    cases t.version <;> decide
  simp only [Transaction.read, yields_bind, yields_number]
  constructor
  · rintro ⟨header, mid, ⟨hheader, rfl⟩, hbody⟩
    split at hbody
    next version hversion =>
      obtain ⟨rfl, ht, rfl⟩ := yields_readBody.mp hbody
      obtain rfl := Version.ofHeader?_eq_some_iff.mp hversion
      exact ⟨ht, by rw [encode_eq, List.append_assoc]⟩
    next => exact absurd hbody not_yields_refuse
  · rintro ⟨ht, rfl⟩
    rw [encode_eq, List.append_assoc]
    refine ⟨t.version.header, _, ⟨hbound, rfl⟩, ?_⟩
    rw [Version.ofHeader?_eq_some_iff.mpr rfl]
    exact yields_readBody.mpr ⟨rfl, ht, rfl⟩

theorem four_le_length_encode (t : Transaction) : 4 ≤ t.encode.length := by
  rw [encode_eq, List.length_append, Bytes.length_leBytes]
  exact Nat.le_add_right _ _

end Transaction

def Header.WellFormed (h : Header) : Prop := h.solution.length < sizeBound

theorem Header.accepts_read : Header.read.Accepts Header.WellFormed Header.encode := by
  intro s h rest
  simp only [Header.read, Header.encode, Header.WellFormed, yields_bind, yields_pure, yields_take,
    yields_varBytes, List.append_assoc]
  constructor
  · rintro ⟨version, _, rfl, prevHash, _, rfl, merkleRoot, _, rfl, saplingRoot, _, rfl, time, _, rfl,
      bits, _, rfl, nonce, _, rfl, solution, _, ⟨hsolution, rfl⟩, rfl, rfl⟩
    exact ⟨hsolution, rfl⟩
  · rintro ⟨hsolution, rfl⟩
    exact ⟨h.version, _, rfl, h.prevHash, _, rfl, h.merkleRoot, _, rfl, h.saplingRoot, _, rfl,
      h.time, _, rfl, h.bits, _, rfl, h.nonce, _, rfl, h.solution, _, ⟨hsolution, rfl⟩, rfl, rfl⟩

namespace Block

variable {height n : Nat} {ts : List Transaction} {b : Block}

structure WellFormed (b : Block) : Prop where
  header : b.header.WellFormed
  count : b.transactions.length < sizeBound
  transactions : ∀ t ∈ b.transactions, t.WellFormed

def OpensAt (height : Nat) (ts : List Transaction) : Prop :=
  ∃ t, ts.head? = some t ∧ coinbaseFault? height t = none

theorem yields_readCoinbase {t : Transaction} :
    (readCoinbase height).Yields s t rest ↔
      coinbaseFault? height t = none ∧ t.WellFormed ∧ s = t.encode ++ rest := by
  unfold readCoinbase
  simp only [yields_bind, Transaction.accepts_read _ _ _]
  constructor
  · rintro ⟨x, mid, ⟨hx, rfl⟩, hcheck⟩
    split at hcheck
    next hfault =>
      obtain ⟨rfl, rfl⟩ := yields_pure.mp hcheck
      exact ⟨hfault, hx, rfl⟩
    next => exact absurd hcheck not_yields_refuse
  · rintro ⟨hfault, ht, rfl⟩
    refine ⟨t, rest, ⟨ht, rfl⟩, ?_⟩
    rw [hfault]
    exact yields_pure.mpr ⟨rfl, rfl⟩

theorem yields_readTransactions :
    (readTransactions height n).Yields s ts rest ↔
      ts.length = n ∧ OpensAt height ts ∧ (∀ t ∈ ts, t.WellFormed) ∧
        s = ts.flatMap Transaction.encode ++ rest := by
  cases n with
  | zero =>
      refine iff_of_false not_yields_refuse ?_
      rintro ⟨hlength, ⟨t, ht, -⟩, -⟩
      rw [List.length_eq_zero_iff.mp hlength] at ht
      cases ht
  | succ n =>
      simp only [readTransactions, yields_bind, yields_pure, yields_item, yields_readCoinbase,
        Transaction.accepts_read.yields_times]
      constructor
      · rintro ⟨t, _, ⟨hfault, ht, rfl⟩, others, _, ⟨rfl, hothers, rfl⟩, rfl, rfl⟩
        refine ⟨rfl, ⟨t, rfl, hfault⟩, List.forall_mem_cons.mpr ⟨ht, hothers⟩, ?_⟩
        rw [List.flatMap_cons, List.append_assoc]
      · rintro ⟨hlength, ⟨t, hhead, hfault⟩, hts, rfl⟩
        obtain ⟨others, rfl⟩ := List.head?_eq_some_iff.mp hhead
        rw [List.forall_mem_cons] at hts
        rw [List.flatMap_cons, List.append_assoc]
        exact ⟨t, _, ⟨hfault, hts.1, rfl⟩, others, _, ⟨Nat.succ.inj hlength, hts.2, rfl⟩, rfl, rfl⟩

theorem yields_readEnd {u : Unit} : readEnd.Yields s u rest ↔ s = [] ∧ rest = [] := by
  unfold Yields readEnd
  cases s with
  | nil => simp [eq_comm]
  | cons x s => simp

/-- A reader of blocks yields exactly the well-formed ones that open with a coinbase for the
height, each from its serialization and with nothing after it. -/
theorem yields_read :
    (Block.read height).Yields s b rest ↔
      b.WellFormed ∧ OpensAt height b.transactions ∧ s = b.encode ∧ rest = [] := by
  unfold Block.read Block.encode listBytes
  simp only [yields_bind, yields_pure, yields_count, yields_readTransactions, yields_readEnd,
    Header.accepts_read _ _ _]
  constructor
  · rintro ⟨header, _, ⟨hheader, rfl⟩, n, _, ⟨hn, -, rfl⟩, ts, _, ⟨rfl, hopens, hts, rfl⟩, u, _,
      ⟨rfl, rfl⟩, rfl, rfl⟩
    rw [List.append_nil]
    exact ⟨⟨hheader, hn, hts⟩, hopens, rfl, rfl⟩
  · rintro ⟨hb, hopens, rfl, rfl⟩
    -- each transaction has the four bytes that its count asks for
    have hfits := mul_length_le_length_flatMap fun t (_ : t ∈ b.transactions) =>
      t.four_le_length_encode
    exact ⟨b.header, _, ⟨hb.header, rfl⟩, b.transactions.length, _, ⟨hb.count, hfits, rfl⟩,
      b.transactions, [], ⟨rfl, hopens, hb.transactions, (List.append_nil _).symm⟩, (), [],
      ⟨rfl, rfl⟩, rfl, rfl⟩

/-- What is wrong with the first transaction is found before anything after it is read. -/
theorem refuses_readTransactions {t : Transaction} {e : ParseError} (ht : t.WellFormed)
    (hfault : coinbaseFault? height t = some e) :
    (readTransactions height (n + 1)).Refuses (t.encode ++ rest) e := by
  have hread : Transaction.read.Yields (t.encode ++ rest) t rest :=
    (Transaction.accepts_read _ _ _).mpr ⟨ht, rfl⟩
  have hcoinbase : (readCoinbase height).Refuses (t.encode ++ rest) e := by
    refine hread.bind_refuses ?_
    rw [hfault]
    exact refuses_refuse
  have hbegin : beginItem.Yields (t.encode ++ rest) () (t.encode ++ rest) := ⟨rfl, rfl⟩
  unfold readTransactions
  refine Refuses.bind ?_ _
  unfold item
  exact hbegin.bind_refuses hcoinbase

/-- A well-formed block is refused for what is wrong with its first transaction. -/
theorem refuses_read {t : Transaction} {e : ParseError} (hb : b.WellFormed)
    (hts : b.transactions = t :: ts) (hfault : coinbaseFault? height t = some e) :
    (Block.read height).Refuses b.encode e := by
  have hfits := mul_length_le_length_flatMap fun t (_ : t ∈ b.transactions) =>
    t.four_le_length_encode
  have hheader : Header.read.Yields b.encode b.header
      (listBytes Transaction.encode b.transactions) :=
    (Header.accepts_read _ _ _).mpr ⟨hb.header, rfl⟩
  have hcount : (Reader.count "tx count" 4).Yields (listBytes Transaction.encode b.transactions)
      b.transactions.length (b.transactions.flatMap Transaction.encode) :=
    yields_count.mpr ⟨hb.count, hfits, rfl⟩
  have ht : t.WellFormed := hb.transactions t (hts ▸ List.mem_cons_self)
  refine hheader.bind_refuses (hcount.bind_refuses (Refuses.bind ?_ _))
  rw [hts, List.length_cons, List.flatMap_cons]
  exact refuses_readTransactions ht hfault

end Block

end LightServer.Wire
