import LightServer.Node.Failure
import LightServer.Proofs.Text.Literal

/-!
# Failures in text

A failure is read from a text with a colon if what stands before the first colon is, up to
blanks around it, a literal of a code, and its message is what stands after this colon without
the blanks around it. Any other text is a message as a whole. A failure is displayed so that
it is read back with its message trimmed. Since what is read from text is trimmed already, it
is read back as it is.
-/

namespace LightServer.Node

variable {c : Char} {s l r : List Char} {code : Int} {raw : String} {f : Failure}

theorem splitOnce_eq_some_iff : splitOnce c s = some (l, r) ↔ s = l ++ c :: r ∧ c ∉ l := by
  induction s generalizing l r with
  | nil => simp [splitOnce]
  | cons d s ih =>
      by_cases hd : d = c
      · subst hd
        cases l with
        | nil => simp [splitOnce]
        | cons d' l =>
            simp only [splitOnce]
            refine iff_of_false nofun fun ⟨h, hnot⟩ => hnot ?_
            rw [List.head_eq_of_cons_eq h]
            exact List.mem_cons_self
      · simp only [splitOnce, if_neg hd, Option.map_eq_some_iff, Prod.exists, ih]
        cases l with
        | nil =>
            refine iff_of_false (by simp) fun ⟨h, _⟩ => hd ?_
            exact List.head_eq_of_cons_eq h
        | cons d' l =>
            simp only [Prod.mk.injEq, List.cons.injEq, List.cons_append, List.mem_cons, not_or]
            constructor
            · rintro ⟨l', r', ⟨rfl, hnot⟩, ⟨rfl, rfl⟩, rfl⟩
              exact ⟨⟨rfl, rfl⟩, Ne.symm hd, hnot⟩
            · rintro ⟨⟨rfl, rfl⟩, -, hnot⟩
              exact ⟨l, r, ⟨rfl, hnot⟩, ⟨rfl, rfl⟩, rfl⟩

theorem splitOnce_eq_none_iff : splitOnce c s = none ↔ c ∉ s := by
  induction s with
  | nil => simp [splitOnce]
  | cons d s ih =>
      unfold splitOnce
      rw [List.mem_cons, not_or, ← ih]
      split
      next hd => exact iff_of_false nofun fun h => h.1 hd.symm
      next hd =>
        rw [Option.map_eq_none_iff]
        exact (and_iff_right (Ne.symm hd)).symm

def Int64 (code : Int) : Prop := -(Text.maxInt64 + 1 : Int) ≤ code ∧ code ≤ Text.maxInt64

instance (code : Int) : Decidable (Int64 code) := inferInstanceAs (Decidable (_ ∧ _))

/-- The text begins with a literal of the code, which may stand between blanks and comes in
front of a colon. -/
def TellsCode (s : List Char) (code : Int) : Prop :=
  ∃ l literal r message, s = l ++ literal ++ r ++ ':' :: message ∧
    (∀ c ∈ l ++ r, Text.isBlank c = true) ∧ Text.IsLiteral literal code

/-- There is no colon, or what stands before the first one is no literal of 64 bits, whatever
blanks are around it. -/
def LacksCode (s : List Char) : Prop :=
  ∀ before after, s = before ++ ':' :: after → ':' ∉ before →
    ¬ ∃ code, Text.IsLiteral (Text.trimBlanks before) code ∧ Int64 code

namespace Failure

/-- The parts that a failure is read from. -/
theorem parse_eq_ok_iff : parse raw = .ok f ↔ ∃ before after,
    raw.toList = before ++ ':' :: after ∧ ':' ∉ before ∧
      Text.IsLiteral (Text.trimBlanks before) f.code ∧ Int64 f.code ∧
      f.message = String.ofList (Text.trimBlanks after) := by
  constructor
  · intro h
    unfold parse at h
    split at h
    next => cases h
    next before after hsplit =>
      split at h
      next => cases h
      next n hn =>
        cases h
        obtain ⟨htext, hcolon⟩ := splitOnce_eq_some_iff.mp hsplit
        obtain ⟨hliteral, hrange⟩ := Text.readInt_eq_ok_iff.mp hn
        exact ⟨before, after, htext, hcolon, hliteral, hrange, rfl⟩
  · rintro ⟨before, after, htext, hcolon, hliteral, hrange, hmessage⟩
    have hread : Text.readInt Text.maxInt64 (Text.trimBlanks before) = .ok f.code :=
      Text.readInt_eq_ok_iff.mpr ⟨hliteral, hrange⟩
    unfold parse
    rw [splitOnce_eq_some_iff.mpr ⟨htext, hcolon⟩]
    simp only [hread, ← hmessage]

theorem exists_parse_eq_ok_iff :
    (∃ message, parse raw = .ok ⟨code, message⟩) ↔ TellsCode raw.toList code ∧ Int64 code := by
  simp only [parse_eq_ok_iff]
  constructor
  · rintro ⟨_, before, after, htext, -, hliteral, hrange, -⟩
    obtain ⟨l, r, hbefore, hblank⟩ := Text.exists_append_trimBlanks before
    refine ⟨⟨l, _, r, after, ?_, hblank, hliteral⟩, hrange⟩
    rw [← hbefore, htext]
  · rintro ⟨⟨l, literal, r, message, htext, hblank, hliteral⟩, hrange⟩
    have hcolon : ':' ∉ l ++ literal ++ r := by
      intro hmem
      obtain hmem | hmem : ':' ∈ l ++ r ∨ ':' ∈ literal := by grind
      · cases hblank ':' hmem
      · exact (hliteral.of_mem hmem).2 rfl
    refine ⟨_, l ++ literal ++ r, message, htext, hcolon, ?_, hrange, rfl⟩
    rwa [hliteral.isTrimmed.trimBlanks_append hblank]

/-- A code other than the catch-all one is read from text that tells it. -/
theorem code_ofText_eq_iff (hcode : code ≠ miscellaneous) :
    (ofText raw).code = code ↔ TellsCode raw.toList code ∧ Int64 code := by
  rw [← exists_parse_eq_ok_iff]
  unfold ofText
  cases parse raw with
  | error fault => exact iff_of_false (Ne.symm hcode) (by simp)
  | ok f =>
      constructor
      · rintro rfl
        exact ⟨f.message, rfl⟩
      · rintro ⟨message, h⟩
        cases h
        rfl

example : (ofText " -08 : a: b").code = -8 := by decide

theorem ofText_eq_of_parse (h : parse raw = .ok f) : ofText raw = f := by
  rw [ofText, h]

theorem ofText_of_not_parse (h : ∀ f, parse raw ≠ .ok f) :
    ofText raw = ⟨miscellaneous, Text.trimmed raw⟩ := by
  unfold ofText
  split
  next f hf => exact absurd hf (h f)
  next => rfl

theorem lacksCode_iff : LacksCode raw.toList ↔ ∀ f, parse raw ≠ .ok f := by
  simp only [ne_eq, parse_eq_ok_iff]
  constructor
  · rintro h f ⟨before, after, htext, hcolon, hliteral, hrange, -⟩
    exact h before after htext hcolon ⟨f.code, hliteral, hrange⟩
  · rintro h before after htext hcolon ⟨code, hliteral, hrange⟩
    exact h ⟨code, _⟩ ⟨before, after, htext, hcolon, hliteral, hrange, rfl⟩

/-- A failure is displayed with its code in front of the first colon, and one blank before its
message. -/
theorem parse_display (h : Int64 f.code) :
    parse f.display = .ok ⟨f.code, Text.trimmed f.message⟩ := by
  have hliteral := Text.isLiteral_decimalInt f.code
  refine parse_eq_ok_iff.mpr
    ⟨(Text.decimalInt f.code).toList, ' ' :: f.message.toList, ?_, ?_, ?_, h, ?_⟩
  · simp [display]
  · exact fun hmem => (hliteral.of_mem hmem).2 rfl
  · rwa [hliteral.isTrimmed.trimBlanks_eq]
  · rw [Text.trimBlanks_cons (by decide), Text.trimmed]

/-- What is read from text has a code of 64 bits and a trimmed message. -/
theorem int64_and_trimmed_ofText (raw : String) :
    Int64 (ofText raw).code ∧ Text.trimmed (ofText raw).message = (ofText raw).message := by
  cases hparse : parse raw with
  | ok f =>
      obtain ⟨before, after, -, -, -, hrange, hmessage⟩ := parse_eq_ok_iff.mp hparse
      rw [ofText_eq_of_parse hparse]
      refine ⟨hrange, ?_⟩
      have htrimmed : f.message = Text.trimmed (String.ofList after) := by
        rw [hmessage, Text.trimmed, String.toList_ofList]
      rw [htrimmed, Text.trimmed_trimmed]
  | error fault =>
      have hnone : ∀ f, parse raw ≠ .ok f := by simp [hparse]
      have hcode : Int64 miscellaneous := by decide
      rw [ofText_of_not_parse hnone]
      exact ⟨hcode, Text.trimmed_trimmed raw⟩

theorem ofText_display_ofText (raw : String) : ofText (ofText raw).display = ofText raw := by
  obtain ⟨hrange, htrimmed⟩ := int64_and_trimmed_ofText raw
  rw [ofText_eq_of_parse (parse_display hrange), htrimmed]

/-- The message of a failure that was read has a colon less than the text. -/
theorem message_ne_of_parse (h : parse raw = .ok f) : f.message ≠ Text.trimmed raw := by
  obtain ⟨before, after, htext, -, -, -, hmessage⟩ := parse_eq_ok_iff.mp h
  intro heq
  have hcount : (Text.trimBlanks after).count ':' = (Text.trimBlanks raw.toList).count ':' := by
    rw [hmessage, Text.trimmed, String.ofList_inj] at heq
    rw [heq]
  have hcolon : Text.isBlank ':' = false := by decide
  rw [Text.count_trimBlanks hcolon, Text.count_trimBlanks hcolon, htext, List.count_append,
    List.count_cons_self] at hcount
  omega

theorem ofText_eq_miscellaneous_iff :
    ofText raw = ⟨miscellaneous, Text.trimmed raw⟩ ↔ LacksCode raw.toList := by
  rw [lacksCode_iff]
  constructor
  · intro h f hparse
    rw [ofText_eq_of_parse hparse] at h
    exact message_ne_of_parse hparse (congrArg Failure.message h)
  · exact ofText_of_not_parse

/-- A failure with a code of 64 bits is read back from its text with its message trimmed, and as
it is if its message is trimmed already. What is read from any text is read back as it is from
its own text, and it is the whole text, trimmed, with the code -1 exactly if the text lacks
a code. -/
theorem parse_display_and_ofText_stable :
    (∀ code message, Int64 code →
      parse (display ⟨code, message⟩) = .ok ⟨code, Text.trimmed message⟩ ∧
        (Text.IsTrimmed message.toList → parse (display ⟨code, message⟩) = .ok ⟨code, message⟩)) ∧
    ∀ raw, ofText (ofText raw).display = ofText raw ∧
      (ofText raw = ⟨-1, Text.trimmed raw⟩ ↔ LacksCode raw.toList) := by
  refine ⟨fun code message hcode => ?_, fun raw => ?_⟩
  · have hread : parse (display ⟨code, message⟩) = .ok ⟨code, Text.trimmed message⟩ :=
      parse_display (f := ⟨code, message⟩) hcode
    refine ⟨hread, fun htrimmed => ?_⟩
    rw [hread, Text.trimmed, htrimmed.trimBlanks_eq, String.ofList_toList]
  · exact ⟨ofText_display_ofText raw, ofText_eq_miscellaneous_iff⟩

/-- The least code, and a message that looks like a failure again. -/
theorem parse_display_and_ofText_stable_leastCode :
    Int64 (-9223372036854775808) ∧ Text.IsTrimmed "26: 18: bad".toList ∧
      parse (display ⟨-9223372036854775808, "26: 18: bad"⟩) =
        .ok ⟨-9223372036854775808, "26: 18: bad"⟩ := by
  have hcode : Int64 (-9223372036854775808) := by decide
  have htrimmed : Text.IsTrimmed "26: 18: bad".toList := Text.isTrimmed_of_ends rfl rfl rfl rfl
  exact ⟨hcode, htrimmed, (parse_display_and_ofText_stable.1 _ _ hcode).2 htrimmed⟩

end Failure

end LightServer.Node
