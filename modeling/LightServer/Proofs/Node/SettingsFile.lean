import LightServer.Node.Config
import LightServer.Proofs.Node.FailureText
import Mathlib.Data.List.Induction

/-!
# The settings file of the node

A line assigns a value to a key if it has an `=` before any comment, whatever blanks are
around the two. What a file sets is told by the last line for each key alone. So a file can be
reworded: lines that set nothing come and go, a line is written with other blanks or another
comment, and lines for different keys change places. Settings that are written as lines, in
any order, are read back.
-/

namespace LightServer.Node.Config

open Text

variable {key key' value value' host user password : String} {line line' : List Char}
  {before after ls ls' : List (List Char)} {text text' : String} {s : List Char} {port : Nat}
  {xs ys : List (String × String)}

def settingKeys : List String := ["rpcuser", "rpcpassword", "rpcbind", "rpcport", "testnet"]

/-- The line assigns the value to the key. In front of any comment, the key is what stands before
the first `=` and the value is what stands after it, without the blanks around them. -/
def Assigns (line : List Char) (key value : String) : Prop :=
  ∃ k v comment, line = k ++ '=' :: v ++ comment ∧ '=' ∉ k ∧ '#' ∉ k ++ v ∧
    (∀ c ∈ comment.head?, c = '#') ∧ String.ofList (trimBlanks k) = key ∧
    String.ofList (trimBlanks v) = value

/-- Of the lines, the last one that assigns something to the key assigns the value. -/
def Sets (ls : List (List Char)) (key value : String) : Prop :=
  ∃ before line after, ls = before ++ line :: after ∧ Assigns line key value ∧
    ∀ l ∈ after, ∀ v, ¬ Assigns l key v

/-- The text is made of the lines, with a line feed after each one, though perhaps not after the
last one. -/
def HasLines (text : String) (ls : List (List Char)) : Prop :=
  (∀ l ∈ ls, '\n' ∉ l) ∧ ∃ tail, (tail = [] ∨ tail = ['\n']) ∧
    text.toList ++ tail = ls.flatMap (· ++ ['\n'])

def NamesHost (ls : List (List Char)) (host : String) : Prop :=
  Sets ls "rpcbind" host ∨ (∀ h, ¬ Sets ls "rpcbind" h) ∧ host = "127.0.0.1"

def SetsPort (ls : List (List Char)) (port : Nat) : Prop :=
  ∃ value, Sets ls "rpcport" value ∧ IsUnsigned value.toList port ∧ port ≤ maxWord16

/-- The port is the one that the lines set, or that of the network if they set none. -/
def NamesPort (ls : List (List Char)) (port : Nat) : Prop :=
  SetsPort ls port ∨ (∀ n, ¬ SetsPort ls n) ∧
    (Sets ls "testnet" "1" ∧ port = 18232 ∨ ¬ Sets ls "testnet" "1" ∧ port = 8232)

structure Settles (ls : List (List Char)) (c : Config) : Prop where
  url : ∃ host port, c.url = "http://" ++ host ++ ":" ++ decimal port ∧ NamesHost ls host ∧
    NamesPort ls port
  user : ∀ u, c.user = some u ↔ Sets ls "rpcuser" u
  password : ∀ p, c.password = some p ↔ Sets ls "rpcpassword" p
  requestTimeout : c.requestTimeout = .ofSeconds 30
  connectTimeout : c.connectTimeout = .ofSeconds 5

structure Draft where
  user : Option String
  password : Option String
  host : String
  port : Option Nat
  onTestNet : Bool

namespace Draft

def start : Draft := ⟨none, none, "127.0.0.1", none, false⟩

def assign (d : Draft) (key value : String) : Draft :=
  if key = "rpcuser" then { d with user := some value }
  else if key = "rpcpassword" then { d with password := some value }
  else if key = "rpcbind" then { d with host := value }
  else if key = "rpcport" then { d with port := port? value }
  else if key = "testnet" then { d with onTestNet := value == "1" }
  else d

def read (d : Draft) (line : List Char) : Draft :=
  match assignment? line with
  | some (key, value) => d.assign key value
  | none => d

def finish (d : Draft) : Config :=
  { default with
    url := endpoint d.host (d.port.getD (if d.onTestNet then testPort else mainPort))
    user := d.user
    password := d.password }

def ofAssignments (xs : List (String × String)) : Draft where
  user := lastValue? "rpcuser" xs
  password := lastValue? "rpcpassword" xs
  host := (lastValue? "rpcbind" xs).getD "127.0.0.1"
  port := (lastValue? "rpcport" xs).bind port?
  onTestNet := lastValue? "testnet" xs == some "1"

end Draft

/-- The line sets nothing: it is blank, or has no equals sign at all, or is a comment, or it is for
a key that is not read. -/
inductive Idle (line : List Char) : Prop
  | blank (h : ∀ c ∈ line, isBlank c = true)
  | bare (h : '=' ∉ line)
  | comment {l s : List Char} (h : line = l ++ '#' :: s) (hblank : ∀ c ∈ l, isBlank c = true)
  | unknown {key value : String} (h : Assigns line key value) (hkey : key ∉ settingKeys)

/-- The ways in which a file can be rewritten without an effect. -/
inductive Reworded : List (List Char) → List (List Char) → Prop
  | refl (ls : List (List Char)) : Reworded ls ls
  | symm {ls ls' : List (List Char)} (h : Reworded ls ls') : Reworded ls' ls
  | trans {ls ls' ls'' : List (List Char)} (h : Reworded ls ls') (h' : Reworded ls' ls'') :
      Reworded ls ls''
  | insert {line : List Char} (before after : List (List Char)) (h : Idle line) :
      Reworded (before ++ after) (before ++ line :: after)
  | respell {line line' : List Char} {key value : String} (before after : List (List Char))
      (h : Assigns line key value) (h' : Assigns line' key value) :
      Reworded (before ++ line :: after) (before ++ line' :: after)
  | swap {line line' : List Char} {key key' value value' : String} (before after : List (List Char))
      (h : Assigns line key value) (h' : Assigns line' key' value') (hne : key ≠ key') :
      Reworded (before ++ line :: line' :: after) (before ++ line' :: line :: after)

def render (key value : String) : List Char := (key ++ "=" ++ value).toList

def settingLines (user password host : String) (port : Nat) : List (List Char) :=
  [render "rpcuser" user, render "rpcpassword" password, render "rpcbind" host,
    render "rpcport" (decimal port)]

/-- A value that a line can have: it has no comment, no line feed and no blanks around it. -/
structure Plain (value : String) : Prop where
  comment_not_mem : '#' ∉ value.toList
  newline_not_mem : '\n' ∉ value.toList
  isTrimmed : IsTrimmed value.toList

section Assignments

/-- That a line is trimmed before it is split makes no difference. -/
theorem assignment?_eq (line : List Char) :
    assignment? line = (splitOnce '=' (line.takeWhile (· ≠ '#'))).map fun (k, v) =>
      (String.ofList (trimBlanks k), String.ofList (trimBlanks v)) := by
  have hblank : isBlank '=' = false := by decide
  unfold assignment?
  generalize line.takeWhile (· ≠ '#') = cut
  cases hsplit : splitOnce '=' cut with
  | none =>
      have hnot : splitOnce '=' (trimBlanks cut) = none := by
        refine splitOnce_eq_none_iff.mpr fun hmem => splitOnce_eq_none_iff.mp hsplit ?_
        obtain ⟨l, r, hcut, -⟩ := exists_append_trimBlanks cut
        rw [hcut]
        exact List.mem_append_left _ (List.mem_append_right _ hmem)
      simp only [hnot, Option.map_none]
  | some kv =>
      obtain ⟨k, v⟩ := kv
      obtain ⟨rfl, hk⟩ := splitOnce_eq_some_iff.mp hsplit
      have hsplit' : splitOnce '=' (trimBlanks (k ++ '=' :: v)) =
          some (k.dropWhile isBlank, trimBlanksEnd v) := by
        refine splitOnce_eq_some_iff.mpr ⟨trimBlanks_append_cons hblank k v, fun hmem => hk ?_⟩
        exact (List.dropWhile_sublist _).subset hmem
      simp only [hsplit', Option.map_some, trimBlanks_dropWhile, trimBlanks_trimBlanksEnd]

theorem takeWhile_append_comment {comment : List Char} (hs : '#' ∉ s)
    (hcomment : ∀ c ∈ comment.head?, c = '#') : (s ++ comment).takeWhile (· ≠ '#') = s := by
  have hall : ∀ c ∈ s, decide (c ≠ '#') = true := by
    intro c hc
    exact decide_eq_true fun heq => hs (heq ▸ hc)
  rw [List.takeWhile_append_of_pos hall]
  cases comment with
  | nil => rw [List.takeWhile_nil, List.append_nil]
  | cons c comment =>
      obtain rfl := hcomment c rfl
      rw [List.takeWhile_cons_of_neg (by decide), List.append_nil]

theorem assignment?_eq_some_iff :
    assignment? line = some (key, value) ↔ Assigns line key value := by
  simp only [assignment?_eq, Option.map_eq_some_iff, Prod.exists, splitOnce_eq_some_iff,
    Prod.mk.injEq]
  constructor
  · rintro ⟨k, v, ⟨hcut, hk⟩, hkey, hvalue⟩
    refine ⟨k, v, line.dropWhile (· ≠ '#'), ?_, hk, ?_, ?_, hkey, hvalue⟩
    · rw [← hcut, List.takeWhile_append_dropWhile]
    · have hnone : '#' ∉ k ++ '=' :: v := by
        intro hmem
        rw [← hcut] at hmem
        have hne := List.all_eq_true.mp List.all_takeWhile '#' hmem
        simp at hne
      grind
    · intro c hc
      have hhead := List.head?_dropWhile_not (fun c => decide (c ≠ '#')) line
      rw [Option.mem_def.mp hc] at hhead
      simpa using hhead
  · rintro ⟨k, v, comment, rfl, hk, hnone, hcomment, hkey, hvalue⟩
    have hcut : '#' ∉ k ++ '=' :: v := by grind
    exact ⟨k, v, ⟨takeWhile_append_comment hcut hcomment, hk⟩, hkey, hvalue⟩

theorem not_assigns_of_assignment?_eq_none (h : assignment? line = none) :
    ¬ Assigns line key value := by
  rw [← assignment?_eq_some_iff, h]
  exact nofun

theorem Assigns.equals_mem (h : Assigns line key value) : '=' ∈ line := by
  obtain ⟨k, v, comment, rfl, -⟩ := h
  exact List.mem_append_left _ (List.mem_append_right _ List.mem_cons_self)

theorem Assigns.unique (h : Assigns line key value) (h' : Assigns line key' value') :
    key = key' ∧ value = value' := by
  rw [← assignment?_eq_some_iff] at h h'
  rw [h, Option.some.injEq, Prod.mk.injEq] at h'
  exact h'

end Assignments

section Lines

theorem linesOf_append_cons (h : '\n' ∉ line) (s : List Char) :
    linesOf (line ++ '\n' :: s) = line :: linesOf s := by
  induction line with
  | nil => rw [List.nil_append, linesOf, if_pos rfl]
  | cons c line ih =>
      obtain ⟨hc, hline⟩ := not_or.mp (mt List.mem_cons.mpr h)
      rw [List.cons_append, linesOf, if_neg (Ne.symm hc), ih hline]

theorem linesOf_flatMap (h : ∀ l ∈ ls, '\n' ∉ l) : linesOf (ls.flatMap (· ++ ['\n'])) = ls := by
  induction ls with
  | nil => rfl
  | cons l ls ih =>
      obtain ⟨hl, hls⟩ := List.forall_mem_cons.mp h
      rw [List.flatMap_cons, List.append_assoc, List.singleton_append, linesOf_append_cons hl,
        ih hls]

/-- A line feed at the end ends the last line, or makes an empty one. -/
theorem linesOf_concat (s : List Char) :
    linesOf (s ++ ['\n']) = linesOf s ∨ linesOf (s ++ ['\n']) = linesOf s ++ [[]] := by
  induction s with
  | nil => exact .inr rfl
  | cons c s ih =>
      simp only [List.cons_append, linesOf]
      by_cases hc : c = '\n'
      · simp only [if_pos hc, List.cons_append, List.cons.injEq, true_and]
        exact ih
      · simp only [if_neg hc]
        obtain ih | ih := ih
        · exact .inl (by rw [ih])
        · cases hs : linesOf s with
          | nil => exact .inl (by rw [ih, hs]; rfl)
          | cons l ls => exact .inr (by rw [ih, hs]; rfl)

theorem newline_not_mem_of_mem_linesOf (s : List Char) : ∀ l ∈ linesOf s, '\n' ∉ l := by
  induction s with
  | nil => exact nofun
  | cons c s ih =>
      unfold linesOf
      split
      next => exact List.forall_mem_cons.mpr ⟨List.not_mem_nil, ih⟩
      next hc =>
        split
        next => simpa using Ne.symm hc
        next l ls hs =>
          obtain ⟨hl, hls⟩ := List.forall_mem_cons.mp (hs ▸ ih)
          refine List.forall_mem_cons.mpr ⟨?_, hls⟩
          rw [List.mem_cons, not_or]
          exact ⟨Ne.symm hc, hl⟩

/-- Every text is made of lines. -/
theorem hasLines_linesOf (text : String) : HasLines text (linesOf text.toList) := by
  refine ⟨newline_not_mem_of_mem_linesOf _, ?_⟩
  generalize text.toList = s
  induction s with
  | nil => exact ⟨[], .inl rfl, rfl⟩
  | cons c s ih =>
      obtain ⟨tail, htail, hs⟩ := ih
      unfold linesOf
      split
      next hc =>
        subst hc
        exact ⟨tail, htail, congrArg ('\n' :: ·) hs⟩
      next =>
        split
        next hnil =>
          -- nothing follows the character, so it is the last line
          rw [hnil] at hs
          obtain ⟨rfl, -⟩ := List.append_eq_nil_iff.mp hs
          exact ⟨['\n'], .inr rfl, rfl⟩
        next l ls hl =>
          rw [hl] at hs
          exact ⟨tail, htail, congrArg (c :: ·) hs⟩

theorem assignments_eq (h : HasLines text ls) : assignments text = ls.filterMap assignment? := by
  obtain ⟨hls, tail, htail, htext⟩ := h
  have hempty : assignment? [] = none := by decide
  have hlines := congrArg (fun s => (linesOf s).filterMap assignment?) htext
  simp only [linesOf_flatMap hls] at hlines
  rw [assignments, ← hlines]
  obtain rfl | rfl := htail
  · rw [List.append_nil]
  · obtain hconcat | hconcat := linesOf_concat text.toList
    · rw [hconcat]
    · rw [hconcat, List.filterMap_append]
      simp only [List.filterMap_cons, hempty, List.filterMap_nil, List.append_nil]

end Lines

section LastValue

theorem lastValue?_append :
    lastValue? key (xs ++ ys) = (lastValue? key ys).or (lastValue? key xs) := by
  simp only [lastValue?, List.reverse_append, List.find?_append, Option.map_or]

theorem lastValue?_cons : lastValue? key ((key', value) :: xs) =
    (lastValue? key xs).or (if key' = key then some value else none) := by
  rw [← List.singleton_append, lastValue?_append]
  simp only [lastValue?, List.reverse_singleton, List.find?_singleton, beq_iff_eq]
  congr 1
  split <;> rfl

theorem lastValue?_nil : lastValue? key [] = none := rfl

/-- What a line adds to the lines before it. -/
theorem sets_concat : Sets (ls ++ [line]) key value ↔
    Assigns line key value ∨ (∀ v, ¬ Assigns line key v) ∧ Sets ls key value := by
  constructor
  · rintro ⟨before, l, after, hls, hl, hafter⟩
    obtain rfl | ⟨after, last, rfl⟩ := after.eq_nil_or_concat
    · obtain ⟨rfl, hlast⟩ := List.append_inj' hls rfl
      obtain rfl := List.head_eq_of_cons_eq hlast
      exact .inl hl
    · rw [List.concat_eq_append] at hls hafter
      rw [← List.cons_append, ← List.append_assoc] at hls
      obtain ⟨rfl, hlast⟩ := List.append_inj' hls rfl
      obtain rfl := List.head_eq_of_cons_eq hlast
      obtain ⟨hafter, hline⟩ := List.forall_mem_append.mp hafter
      exact .inr ⟨List.forall_mem_singleton.mp hline, before, l, after, rfl, hl, hafter⟩
  · rintro (hline | ⟨hline, before, l, after, rfl, hl, hafter⟩)
    · exact ⟨ls, line, [], rfl, hline, nofun⟩
    · refine ⟨before, l, after ++ [line], by simp, hl, ?_⟩
      exact List.forall_mem_append.mpr ⟨hafter, List.forall_mem_singleton.mpr hline⟩

theorem lastValue?_eq_some_iff :
    lastValue? key (ls.filterMap assignment?) = some value ↔ Sets ls key value := by
  induction ls using List.reverseRecOn with
  | nil => exact iff_of_false nofun fun ⟨_, _, _, hls, _⟩ => by simp at hls
  | append_singleton ls line ih =>
      rw [List.filterMap_append, lastValue?_append, sets_concat, ← ih]
      cases hline : assignment? line with
      | none =>
          have hnot {v : String} : ¬ Assigns line key v := not_assigns_of_assignment?_eq_none hline
          simp only [List.filterMap_cons, hline, List.filterMap_nil, hnot, false_or,
            not_false_eq_true, implies_true, true_and]
          rfl
      | some kv =>
          obtain ⟨k, v⟩ := kv
          have hassigns := assignment?_eq_some_iff.mp hline
          simp only [List.filterMap_cons, hline, List.filterMap_nil, lastValue?_cons,
            lastValue?_nil, Option.none_or]
          by_cases hk : k = key
          · subst hk
            have hnot : ¬ ∀ v, ¬ Assigns line k v := fun hnone => hnone v hassigns
            simp only [if_true, Option.some_or, Option.some.injEq, hnot, false_and, or_false]
            constructor
            · rintro rfl
              exact hassigns
            · exact fun h => (hassigns.unique h).2
          · have hnot {w : String} : ¬ Assigns line key w := fun h => hk (hassigns.unique h).1
            simp only [if_neg hk, Option.none_or, hnot, false_or, not_false_eq_true, implies_true,
              true_and]

/-- Each further assignment overwrites one setting. -/
theorem Draft.ofAssignments_concat (xs : List (String × String)) (key value : String) :
    ofAssignments (xs ++ [(key, value)]) = (ofAssignments xs).assign key value := by
  have hlast (k : String) : lastValue? k (xs ++ [(key, value)]) =
      (if key = k then some value else none).or (lastValue? k xs) := by
    rw [lastValue?_append, lastValue?_cons, lastValue?_nil, Option.none_or]
  unfold ofAssignments assign
  simp only [hlast]
  split
  next huser => simp [huser]
  split
  next hpassword => simp [hpassword]
  split
  next hhost => simp [hhost]
  split
  next hport => simp [hport]
  split
  next => simp
  next => rfl

/-- What a file sets is the same when it is read line by line. -/
theorem Draft.foldl_read (ls : List (List Char)) :
    ls.foldl read start = ofAssignments (ls.filterMap assignment?) := by
  induction ls using List.reverseRecOn with
  | nil => rfl
  | append_singleton ls line ih =>
      rw [List.foldl_append, List.foldl_cons, List.foldl_nil, ih, List.filterMap_append, read]
      cases hline : assignment? line with
      | none => simp only [List.filterMap_cons, hline, List.filterMap_nil, List.append_nil]
      | some kv =>
          simp only [List.filterMap_cons, hline, List.filterMap_nil]
          exact (ofAssignments_concat _ _ _).symm

theorem finish_ofAssignments (text : String) :
    (Draft.ofAssignments (assignments text)).finish = ofText text := by
  simp only [Draft.finish, Draft.ofAssignments, ofText, portOf, beq_iff_eq]

end LastValue

section Settings

theorem ofText_eq_finish_foldl (h : HasLines text ls) :
    ofText text = (ls.foldl Draft.read .start).finish := by
  rw [Draft.foldl_read, ← assignments_eq h, finish_ofAssignments]

/-- The settings depend on the last value for each key alone. -/
theorem ofText_eq_of_lastValue?_eq (h : ∀ key ∈ settingKeys,
    lastValue? key (assignments text) = lastValue? key (assignments text')) :
    ofText text = ofText text' := by
  simp only [settingKeys, List.forall_mem_cons] at h
  obtain ⟨huser, hpassword, hbind, hport, htestnet, -⟩ := h
  simp only [ofText, portOf, huser, hpassword, hbind, hport, htestnet]

theorem port?_eq_some_iff : port? value = some port ↔
    IsUnsigned value.toList port ∧ port ≤ maxWord16 := by
  rw [port?, ← readNat_eq_ok_iff]
  cases readNat maxWord16 value.toList <;> simp [Except.toOption]

theorem namesHost_of_hasLines (h : HasLines text ls) :
    NamesHost ls ((lastValue? "rpcbind" (assignments text)).getD "127.0.0.1") := by
  simp only [NamesHost, ← lastValue?_eq_some_iff, ← assignments_eq h]
  cases lastValue? "rpcbind" (assignments text) with
  | none => exact .inr ⟨nofun, rfl⟩
  | some host => exact .inl rfl

theorem namesPort_of_hasLines (h : HasLines text ls) :
    NamesPort ls (portOf (assignments text)) := by
  have hsets (n : Nat) :
      SetsPort ls n ↔ (lastValue? "rpcport" (assignments text)).bind port? = some n := by
    simp only [SetsPort, ← lastValue?_eq_some_iff, ← assignments_eq h, Option.bind_eq_some_iff,
      port?_eq_some_iff]
  simp only [NamesPort, hsets, ← lastValue?_eq_some_iff, ← assignments_eq h, portOf]
  cases (lastValue? "rpcport" (assignments text)).bind port? with
  | some n => exact .inl rfl
  | none =>
      refine .inr ⟨nofun, ?_⟩
      split
      next htest => exact .inl ⟨htest, rfl⟩
      next htest => exact .inr ⟨htest, rfl⟩

theorem settles_of_hasLines (h : HasLines text ls) : Settles ls (ofText text) where
  url := ⟨_, _, rfl, namesHost_of_hasLines h, namesPort_of_hasLines h⟩
  user u := by
    rw [← lastValue?_eq_some_iff, ← assignments_eq h]
    rfl
  password p := by
    rw [← lastValue?_eq_some_iff, ← assignments_eq h]
    rfl
  requestTimeout := rfl
  connectTimeout := rfl

theorem ofText_eq_of_sets_iff (h : HasLines text ls) (h' : HasLines text' ls')
    (hsets : ∀ key ∈ settingKeys, ∀ value, Sets ls key value ↔ Sets ls' key value) :
    ofText text = ofText text' := by
  refine ofText_eq_of_lastValue?_eq fun key hkey => ?_
  rw [assignments_eq h, assignments_eq h']
  refine Option.ext fun value => ?_
  rw [lastValue?_eq_some_iff, lastValue?_eq_some_iff]
  exact hsets key hkey value

end Settings

section Rewording

theorem Idle.not_assigns (h : Idle line) (hkey : key ∈ settingKeys) :
    ¬ Assigns line key value := by
  cases h with
  | blank hblank =>
      intro hassigns
      cases hblank '=' hassigns.equals_mem
  | bare hnot => exact fun hassigns => hnot hassigns.equals_mem
  | @comment l s hline hblank =>
      have hmark : '#' ∉ l := fun hmem => by cases hblank '#' hmem
      have hequals : '=' ∉ l := fun hmem => by cases hblank '=' hmem
      rw [← assignment?_eq_some_iff, assignment?_eq, hline,
        takeWhile_append_comment hmark (by simp), splitOnce_eq_none_iff.mpr hequals]
      exact nofun
  | unknown hother hnot =>
      intro hassigns
      obtain ⟨rfl, -⟩ := hother.unique hassigns
      exact hnot hkey

/-- Rewording a file keeps the last value for each key that is read. -/
theorem lastValue?_eq_of_reworded (h : Reworded ls ls') (hkey : key ∈ settingKeys) :
    lastValue? key (ls.filterMap assignment?) = lastValue? key (ls'.filterMap assignment?) := by
  induction h with
  | refl ls => rfl
  | symm _ ih => exact ih.symm
  | trans _ _ ih ih' => exact ih.trans ih'
  | @insert line before after hidle =>
      cases hline : assignment? line with
      | none => simp only [List.filterMap_append, List.filterMap_cons, hline]
      | some kv =>
          obtain ⟨k, v⟩ := kv
          have hne : k ≠ key := by
            rintro rfl
            exact hidle.not_assigns hkey (assignment?_eq_some_iff.mp hline)
          simp only [List.filterMap_append, List.filterMap_cons, hline, lastValue?_append,
            lastValue?_cons, if_neg hne, Option.or_none]
  | respell before after h h' =>
      simp only [List.filterMap_append, List.filterMap_cons, assignment?_eq_some_iff.mpr h,
        assignment?_eq_some_iff.mpr h']
  | @swap line line' k k' v v' before after h h' hne =>
      simp only [List.filterMap_append, List.filterMap_cons, assignment?_eq_some_iff.mpr h,
        assignment?_eq_some_iff.mpr h', lastValue?_append, lastValue?_cons]
      by_cases hk : k = key
      · rw [if_pos hk, if_neg fun hk' => hne (hk.trans hk'.symm), Option.or_none, Option.or_none]
      · rw [if_neg hk, Option.or_none, Option.or_none]

theorem ofText_eq_of_reworded (h : HasLines text ls) (h' : HasLines text' ls')
    (hreworded : Reworded ls ls') : ofText text = ofText text' := by
  refine ofText_eq_of_lastValue?_eq fun key hkey => ?_
  rw [assignments_eq h, assignments_eq h']
  exact lastValue?_eq_of_reworded hreworded hkey

end Rewording

section Rendering

theorem assigns_render (hkey : key ∈ settingKeys) (hvalue : Plain value) :
    Assigns (render key value) key value := by
  have hkeys : ∀ k ∈ settingKeys, '=' ∉ k.toList ∧ '#' ∉ k.toList ∧
      String.ofList (trimBlanks k.toList) = k := by decide
  obtain ⟨hequals, hmark, htrimmed⟩ := hkeys key hkey
  refine ⟨key.toList, value.toList, [], ?_, hequals, ?_, nofun, htrimmed, ?_⟩
  · simp [render]
  · rw [List.mem_append, not_or]
    exact ⟨hmark, hvalue.comment_not_mem⟩
  · rw [hvalue.isTrimmed.trimBlanks_eq, String.ofList_toList]

theorem newline_not_mem_render (hkey : key ∈ settingKeys) (hvalue : Plain value) :
    '\n' ∉ render key value := by
  have hkeys : ∀ k ∈ settingKeys, '\n' ∉ k.toList := by decide
  simp [render, hkeys key hkey, hvalue.newline_not_mem]

theorem plain_decimal (n : Nat) : Plain (decimal n) := by
  have hdigit : ∀ c ∈ (decimal n).toList, c.isDigit = true := by
    rw [decimal, String.toList_ofList]
    exact (isNumeral_toDigits n).isDigit
  have hnot {c : Char} (hc : c.isDigit = false) : c ∉ (decimal n).toList := by
    intro hmem
    rw [hdigit c hmem] at hc
    cases hc
  exact ⟨hnot rfl, hnot rfl, isTrimmed_of_forall fun c hc => isBlank_of_isDigit (hdigit c hc)⟩

theorem mem_of_lastValue? (h : lastValue? key xs = some value) : (key, value) ∈ xs := by
  obtain ⟨⟨k, v⟩, hfound, rfl⟩ := Option.map_eq_some_iff.mp h
  obtain rfl : k = key := by simpa using List.find?_some hfound
  exact List.mem_reverse.mp (List.mem_of_find?_eq_some hfound)

theorem exists_lastValue?_of_mem (h : (key, value) ∈ xs) : ∃ v, lastValue? key xs = some v := by
  have hfound : (xs.reverse.find? fun x => x.1 == key).isSome :=
    List.find?_isSome.mpr ⟨_, List.mem_reverse.mpr h, beq_self_eq_true key⟩
  obtain ⟨x, hx⟩ := Option.isSome_iff_exists.mp hfound
  exact ⟨x.2, by rw [lastValue?, hx, Option.map_some]⟩

/-- Where a key has one value only, that is the last one. -/
theorem lastValue?_of_perm (h : xs.Perm ys) (hmem : (key, value) ∈ ys)
    (hunique : ∀ v, (key, v) ∈ ys → v = value) : lastValue? key xs = some value := by
  obtain ⟨v, hv⟩ := exists_lastValue?_of_mem (h.mem_iff.mpr hmem)
  rw [hv, hunique v (h.mem_iff.mp (mem_of_lastValue? hv))]

theorem filterMap_settingLines (huser : Plain user) (hpassword : Plain password)
    (hhost : Plain host) (port : Nat) :
    (settingLines user password host port).filterMap assignment? =
      [("rpcuser", user), ("rpcpassword", password), ("rpcbind", host),
        ("rpcport", decimal port)] := by
  have hread (k : String) {v : String} (hk : k ∈ settingKeys) (hv : Plain v) :
      assignment? (render k v) = some (k, v) :=
    assignment?_eq_some_iff.mpr (assigns_render hk hv)
  simp only [settingLines, List.filterMap_cons, List.filterMap_nil,
    hread "rpcuser" (by decide) huser, hread "rpcpassword" (by decide) hpassword,
    hread "rpcbind" (by decide) hhost, hread "rpcport" (by decide) (plain_decimal port)]

/-- Settings that are written as lines, in any order, are read back. -/
theorem ofText_of_perm_settingLines (huser : Plain user) (hpassword : Plain password)
    (hhost : Plain host) (hport : port ≤ maxWord16)
    (hperm : ls.Perm (settingLines user password host port)) (h : HasLines text ls) :
    ofText text = { default with
      url := endpoint host port
      user := some user
      password := some password } := by
  have hpairs := hperm.filterMap assignment?
  rw [filterMap_settingLines huser hpassword hhost, ← assignments_eq h] at hpairs
  have hlast {k v : String} (hmem : (k, v) ∈ [("rpcuser", user), ("rpcpassword", password),
      ("rpcbind", host), ("rpcport", decimal port)]) (hk : ∀ w, (k, w) ∈ [("rpcuser", user),
        ("rpcpassword", password), ("rpcbind", host), ("rpcport", decimal port)] → w = v) :
      lastValue? k (assignments text) = some v := lastValue?_of_perm hpairs hmem hk
  have hread : port? (decimal port) = some port :=
    port?_eq_some_iff.mpr ⟨isUnsigned_decimal port, hport⟩
  simp only [ofText, portOf, hlast (k := "rpcuser") (v := user) (by simp) (by simp),
    hlast (k := "rpcpassword") (v := password) (by simp) (by simp),
    hlast (k := "rpcbind") (v := host) (by simp) (by simp),
    hlast (k := "rpcport") (v := decimal port) (by simp) (by simp), Option.bind_some, hread,
    Option.getD_some]

/-- The lines of some settings make a text, in any order. -/
theorem exists_hasLines_of_perm (huser : Plain user) (hpassword : Plain password)
    (hhost : Plain host) (hperm : ls.Perm (settingLines user password host port)) :
    ∃ text, HasLines text ls := by
  refine ⟨String.ofList (ls.flatMap (· ++ ['\n'])), fun l hl => ?_, [], .inl rfl, ?_⟩
  · have hline := hperm.mem_iff.mp hl
    simp only [settingLines, List.mem_cons, List.not_mem_nil, or_false] at hline
    obtain rfl | rfl | rfl | rfl := hline
    · exact newline_not_mem_render (by decide) huser
    · exact newline_not_mem_render (by decide) hpassword
    · exact newline_not_mem_render (by decide) hhost
    · exact newline_not_mem_render (by decide) (plain_decimal port)
  · rw [String.toList_ofList, List.append_nil]

end Rendering

/-- A file is read line by line, and what it sets is told by the last line for each of its keys. So
any two files in which these agree make the same settings, and so do files that are reworded.
Settings that are written as lines, in any order, are read back. -/
theorem settles_and_keeps_and_rereads :
    (∀ text, ∃ ls, HasLines text ls) ∧
    (∀ text ls, HasLines text ls →
      ofText text = (ls.foldl Draft.read .start).finish ∧ Settles ls (ofText text)) ∧
    (∀ text text' ls ls', HasLines text ls → HasLines text' ls' →
      (∀ key ∈ settingKeys, ∀ value, Sets ls key value ↔ Sets ls' key value) →
        ofText text = ofText text') ∧
    (∀ text text' ls ls', HasLines text ls → HasLines text' ls' → Reworded ls ls' →
      ofText text = ofText text') ∧
    ∀ user password host port ls, Plain user → Plain password → Plain host → port ≤ 65535 →
      ls.Perm (settingLines user password host port) →
        (∃ text, HasLines text ls) ∧ ∀ text, HasLines text ls →
          ofText text = { default with
            url := "http://" ++ host ++ ":" ++ decimal port
            user := some user
            password := some password } :=
  ⟨fun text => ⟨_, hasLines_linesOf text⟩,
    fun _ _ h => ⟨ofText_eq_finish_foldl h, settles_of_hasLines h⟩,
    fun _ _ _ _ => ofText_eq_of_sets_iff, fun _ _ _ _ => ofText_eq_of_reworded,
    fun _ _ _ _ _ huser hpassword hhost hport hperm =>
      ⟨exists_hasLines_of_perm huser hpassword hhost hperm,
        fun _ h => ofText_of_perm_settingLines huser hpassword hhost hport hperm h⟩⟩

def terseText : String := "rpcbind=10.0.0.2\ntestnet=1\n"

/-- The same settings with a comment, with blanks, in the other order, and without a line feed at
the end. -/
def wordyText : String := "# a=b\n testnet = 1 # test\nrpcbind=10.0.0.2"

def upturnedText : String := "rpcport=18555\nrpcbind=10.0.0.2\nrpcpassword=a=b: c\nrpcuser=alice\n"

def terseLines : List (List Char) := ["rpcbind=10.0.0.2".toList, "testnet=1".toList]

def wordyLines : List (List Char) :=
  ["# a=b".toList, " testnet = 1 # test".toList, "rpcbind=10.0.0.2".toList]

theorem reworded_wordyLines : Reworded terseLines wordyLines := by
  have hbind : Assigns "rpcbind=10.0.0.2".toList "rpcbind" "10.0.0.2" :=
    assignment?_eq_some_iff.mp (by decide)
  have htest : Assigns "testnet=1".toList "testnet" "1" := assignment?_eq_some_iff.mp (by decide)
  have htest' : Assigns " testnet = 1 # test".toList "testnet" "1" :=
    assignment?_eq_some_iff.mp (by decide)
  have hnote : Idle "# a=b".toList := .comment (l := []) rfl (List.forall_mem_nil _)
  exact ((Reworded.swap [] [] hbind htest (by decide)).trans
    (.respell [] ["rpcbind=10.0.0.2".toList] htest htest')).trans (.insert [] _ hnote)

theorem sets_wordyLines_iff (hkey : key ∈ settingKeys) :
    Sets terseLines key value ↔ Sets wordyLines key value := by
  rw [← lastValue?_eq_some_iff, ← lastValue?_eq_some_iff,
    lastValue?_eq_of_reworded reworded_wordyLines hkey]

theorem hasLines_upturnedText :
    HasLines upturnedText (settingLines "alice" "a=b: c" "10.0.0.2" 18555).reverse :=
  ⟨by decide, [], .inl rfl, by decide⟩

/-- The two files make the same settings, and the settings of the third one are read back. -/
theorem settles_and_keeps_and_rereads_of_files :
    HasLines terseText terseLines ∧ HasLines wordyText wordyLines ∧
    ofText terseText = (terseLines.foldl Draft.read .start).finish ∧
    Settles terseLines (ofText terseText) ∧
    (∀ key ∈ settingKeys, ∀ value, Sets terseLines key value ↔ Sets wordyLines key value) ∧
    ofText terseText = ofText wordyText ∧
    Reworded wordyLines terseLines ∧ ofText wordyText = ofText terseText ∧
    Plain "alice" ∧ Plain "a=b: c" ∧ Plain "10.0.0.2" ∧
    HasLines upturnedText (settingLines "alice" "a=b: c" "10.0.0.2" 18555).reverse ∧
    ofText upturnedText = { default with
      url := "http://" ++ "10.0.0.2" ++ ":" ++ decimal 18555
      user := some "alice"
      password := some "a=b: c" } := by
  obtain ⟨-, hsettles, hkeeps, hreworded, hrereads⟩ := settles_and_keeps_and_rereads
  have hterse : HasLines terseText terseLines := ⟨by decide, [], .inl rfl, by decide⟩
  have hwordy : HasLines wordyText wordyLines := ⟨by decide, ['\n'], .inr rfl, by decide⟩
  have hsets : ∀ key ∈ settingKeys, ∀ value,
      Sets terseLines key value ↔ Sets wordyLines key value :=
    fun _ hkey _ => sets_wordyLines_iff hkey
  have huser : Plain "alice" :=
    ⟨by decide, by decide, isTrimmed_of_ends rfl rfl rfl rfl⟩
  have hpassword : Plain "a=b: c" :=
    ⟨by decide, by decide, isTrimmed_of_ends rfl rfl rfl rfl⟩
  have hhost : Plain "10.0.0.2" :=
    ⟨by decide, by decide, isTrimmed_of_ends rfl rfl rfl rfl⟩
  obtain ⟨-, hreread⟩ :=
    hrereads _ _ _ 18555 _ huser hpassword hhost (by decide) (List.reverse_perm _)
  obtain ⟨hfold, hterseSettles⟩ := hsettles _ _ hterse
  exact ⟨hterse, hwordy, hfold, hterseSettles, hsets, hkeeps _ _ _ _ hterse hwordy hsets,
    reworded_wordyLines.symm, hreworded _ _ _ _ hwordy hterse reworded_wordyLines.symm, huser,
    hpassword, hhost, hasLines_upturnedText, hreread _ hasLines_upturnedText⟩

end LightServer.Node.Config
