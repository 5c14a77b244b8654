import Mathlib.Data.List.TakeWhile

/-! # Texts in lines

Reading a text line by line from a stream with state bits, and writing lines. -/
namespace LineStream

variable {text rest line : List UInt8} {ls : List (List UInt8)}

def newline : UInt8 := 0x0A

/-- The lines of a text. The last one is what stands behind the last newline. -/
def lines (text : List UInt8) : List (List UInt8) := text.splitOn newline

def unlines (ls : List (List UInt8)) : List UInt8 := ls.flatMap fun l => l ++ [newline]

def Ended (text : List UInt8) : Prop := text = [] ∨ text.getLast? = some newline

instance (text : List UInt8) : Decidable (Ended text) := inferInstanceAs (Decidable (_ ∨ _))

/-- The lines of a file: a newline ends a line, and the last one may do without. -/
def fileLines (text : List UInt8) : List (List UInt8) :=
  if Ended text then (lines text).dropLast else lines text

/-- An input stream, with the bits for the end of the text and for a read that got nothing. -/
structure InStream where
  rest : List UInt8
  eof : Bool
  fail : Bool

namespace InStream

def ofText (text : List UInt8) : InStream := ⟨text, false, false⟩

/-- `std::getline(s, line)`. A stream that is not good leaves the string as it is. -/
def getline (s : InStream) (line : List UInt8) : List UInt8 × InStream :=
  if s.eof || s.fail then (line, { s with fail := true })
  else
    let text := s.rest.takeWhile (· ≠ newline)
    match s.rest.dropWhile (· ≠ newline) with
    | [] => (text, ⟨[], true, text.isEmpty⟩)
    | _ :: rest => (text, ⟨rest, false, false⟩)

def left (s : InStream) : ℕ := if s.eof || s.fail then 0 else s.rest.length + 1

end InStream

section Lines

@[simp] theorem lines_nil : lines [] = [[]] := rfl

theorem lines_ne_nil (text : List UInt8) : lines text ≠ [] := List.splitOn_ne_nil newline text

theorem lines_single (h : newline ∉ text) : lines text = [text] := List.splitOn_eq_singleton h

theorem lines_append (h : newline ∉ line) (rest : List UInt8) :
    lines (line ++ newline :: rest) = line :: lines rest :=
  List.splitOn_append_cons_self_of_not_mem h rest

@[elab_as_elim]
theorem line_induction {motive : List UInt8 → Prop}
    (single : ∀ text, newline ∉ text → motive text)
    (append : ∀ line rest, newline ∉ line → motive rest → motive (line ++ newline :: rest))
    (text : List UInt8) : motive text := by
  by_cases h : newline ∈ text
  · obtain ⟨line, rest, htext, hline⟩ := List.eq_append_cons_of_mem h
    have hshorter : rest.length < text.length := by
      rw [htext, List.length_append, List.length_cons]
      omega
    rw [htext]
    exact append line rest hline (line_induction single append rest)
  · exact single text h
termination_by text.length

theorem mem_lines {l : List UInt8} (h : l ∈ lines text) : newline ∉ l := by
  induction text using line_induction with
  | single text hno =>
    rw [lines_single hno, List.mem_singleton] at h
    rwa [h]
  | append line rest hline ih =>
    rw [lines_append hline, List.mem_cons] at h
    rcases h with rfl | hrest
    · exact hline
    · exact ih hrest

@[simp] theorem unlines_nil : unlines [] = [] := rfl

@[simp] theorem unlines_cons (l : List UInt8) (ls : List (List UInt8)) :
    unlines (l :: ls) = l ++ newline :: unlines ls := by
  simp [unlines]

@[simp] theorem unlines_append (ls ls' : List (List UInt8)) :
    unlines (ls ++ ls') = unlines ls ++ unlines ls' := List.flatMap_append

theorem lines_unlines (h : ∀ l ∈ ls, newline ∉ l) : lines (unlines ls) = ls ++ [[]] := by
  induction ls with
  | nil => rfl
  | cons l ls ih =>
    rw [List.forall_mem_cons] at h
    rw [unlines_cons, lines_append h.1, ih h.2]
    rfl

theorem ended_append (line rest : List UInt8) :
    Ended (line ++ newline :: rest) ↔ Ended rest := by
  unfold Ended
  cases rest with
  | nil => simp
  | cons c rest => simp [List.getLast?_append]

theorem ended_iff (text : List UInt8) :
    Ended text ↔ (lines text).getLast (lines_ne_nil text) = [] := by
  induction text using line_induction with
  | single text hno =>
    simp only [lines_single hno, List.getLast_singleton]
    unfold Ended
    refine or_iff_left fun hlast => ?_
    exact hno (List.mem_of_getLast? hlast)
  | append line rest hline ih =>
    simp only [lines_append hline]
    rw [ended_append, ih, List.getLast_cons (lines_ne_nil rest)]

theorem lines_ended (h : Ended text) : lines text = fileLines text ++ [[]] := by
  have hlast := List.dropLast_concat_getLast (lines_ne_nil text)
  rw [(ended_iff text).mp h] at hlast
  rw [fileLines, if_pos h, hlast]

theorem lines_open (h : ¬Ended text) : lines text = fileLines text := by
  rw [fileLines, if_neg h]

theorem ended_unlines (ls : List (List UInt8)) : Ended (unlines ls) := by
  induction ls with
  | nil => exact .inl rfl
  | cons l ls ih =>
    rw [unlines_cons, ended_append]
    exact ih

theorem fileLines_unlines (h : ∀ l ∈ ls, newline ∉ l) : fileLines (unlines ls) = ls := by
  rw [fileLines, if_pos (ended_unlines ls), lines_unlines h, List.dropLast_concat]

end Lines

namespace InStream

variable {s : InStream}

theorem takes_line (h : newline ∉ line) : ∀ c ∈ line, decide (c ≠ newline) = true := by
  intro c hc
  apply decide_eq_true
  rintro rfl
  exact h hc

theorem getline_append (h : newline ∉ line) (rest old : List UInt8) :
    (ofText (line ++ newline :: rest)).getline old = (line, ofText rest) := by
  have htake : (line ++ newline :: rest).takeWhile (· ≠ newline) = line := by
    rw [List.takeWhile_append_of_pos (takes_line h), List.takeWhile_cons_of_neg (by simp),
      List.append_nil]
  have hdrop : (line ++ newline :: rest).dropWhile (· ≠ newline) = newline :: rest := by
    rw [List.dropWhile_append_of_pos (takes_line h), List.dropWhile_cons_of_neg (by simp)]
  unfold getline ofText
  dsimp only
  rw [htake, hdrop]
  rfl

theorem getline_single (h : newline ∉ text) (old : List UInt8) :
    (ofText text).getline old = (text, ⟨[], true, text.isEmpty⟩) := by
  unfold getline ofText
  dsimp only
  rw [List.takeWhile_eq_self_iff.mpr (takes_line h), List.dropWhile_eq_nil_iff.mpr (takes_line h)]
  rfl

theorem getline_ended (h : s.eof = true) (old : List UInt8) :
    s.getline old = (old, { s with fail := true }) := by
  unfold getline
  rw [h]
  rfl

theorem left_getline (s : InStream) (line : List UInt8) : (s.getline line).2.left ≤ s.left ∧
    ((!s.fail && !s.eof) = true → (s.getline line).2.left < s.left) := by
  cases hended : s.eof || s.fail with
  | true =>
    have hline : (s.getline line).2 = { s with fail := true } := by
      rw [getline, hended]
      rfl
    have hleft : (s.getline line).2.left = 0 := by
      rw [hline, left, Bool.or_true]
      rfl
    rw [hleft]
    refine ⟨Nat.zero_le _, fun hgood => ?_⟩
    rw [← Bool.not_or, Bool.or_comm, hended] at hgood
    cases hgood
  | false =>
    have hless : (s.getline line).2.left < s.left := by
      have hsuffix := (List.dropWhile_suffix (l := s.rest) (· ≠ newline)).length_le
      have hleft : s.left = s.rest.length + 1 := by
        rw [left, hended]
        rfl
      rw [hleft]
      unfold getline
      rw [hended, if_neg Bool.false_ne_true]
      dsimp only
      split
      · exact Nat.succ_pos _
      · next rest hrest =>
        rw [hrest, List.length_cons] at hsuffix
        exact Nat.succ_le_succ hsuffix
    exact ⟨hless.le, fun _ => hless⟩

end InStream

end LineStream
