import FileTransfer.ClientStart
import Mathlib.Data.List.Perm.Basic

/-! # One line of a file

`WriteAtLine` and `GetLine` of a `FileHandler`, at any line of any text, and what their names
say of that line. Both count lines in an `int`. -/
namespace FileLines

open ByteField LineStream ClientConfig
open ClientStart (readLines lineAt)

section Definitions

/-- A handler of a file that exists: its text, and whether it opens for reading and then for
writing. -/
structure FileHandler where
  text : Bytes
  opens : Bool
  reopens : Bool

/-- The loop of `WriteAtLine`, `none` when its `int i` overflows -/
def collectInt (content : Bytes) (lineNum : ℕ) (s : InStream) (line : Bytes) (i : ℕ) :
    Option (List Bytes) :=
  if !s.fail && !s.eof || i ≤ lineNum then
    if i + 1 < 2 ^ 31 then
      let next := s.getline line
      (collectInt content lineNum next.2 next.1 (i + 1)).map fun fileContentVec =>
        (if next.1 = [] then [] else [next.1]) ++ (if lineNum = i then [content] else []) ++
          fileContentVec
    else none
  else some []
termination_by 2 ^ 31 - i

/-- `WriteAtLine`: its result and the text of the file. On a stream that does not open again
nothing is written. -/
def FileHandler.writeAtLine (f : FileHandler) (content : Bytes) (lineNum : ℕ) :
    Option (Bool × Bytes) :=
  if f.opens then
    (collectInt content lineNum (.ofText f.text) [] 0).map fun fileContentVec =>
      (true, if f.reopens then unlines fileContentVec else f.text)
  else some (false, f.text)

/-- `GetLine`, whose `int i` counts up to `lineNum + 1` -/
def FileHandler.getLine (f : FileHandler) (lineNum : ℕ) : Option Bytes :=
  if f.opens then
    if lineNum + 1 < 2 ^ 31 then
      some ((readLines (lineNum + 1) (.ofText f.text) []).getD lineNum [])
    else none
  else some []

/-- Line `n` is the content, the other lines stand where they were, and nothing is there more
often than among these. Empty lines may fill the way to a line behind the end. -/
structure LineWritten (before after : List Bytes) (n : ℕ) (content : Bytes) : Prop where
  written : after[n]? = some content
  others : ∀ m l, m ≠ n → before[m]? = some l → after[m]? = some l
  once : ∀ l, l ≠ [] → after.count l ≤ (content :: before.eraseIdx n).count l

variable (f : FileHandler) (content : Bytes) (n : ℕ)

/-- `WriteAtLine` ends, and after it returns true the line is written. -/
def WritesLine : Prop :=
  match f.writeAtLine content n with
  | none => False
  | some (false, _) => True
  | some (true, text) => LineWritten (fileLines f.text) (fileLines text) n content

/-- `GetLine` returns the line, and an empty string where there is none. -/
def ReadsLine : Prop := f.getLine n = some (((fileLines f.text)[n]?).getD [])

/-- There is room for line `n`, and no other line is empty: it is an empty line itself, or the
end of a file whose last line is ended. -/
def Room (text : Bytes) : Prop :=
  (∀ m, m ≠ n → (fileLines text)[m]? ≠ some []) ∧
    ((fileLines text)[n]? = some [] ∨ n = (fileLines text).length ∧ Ended text)

/-- When `WriteAtLine` writes the line: the index stays in its `int`, and there is room for the
line, or nothing is written and the line is the content already. -/
def Writable : Prop :=
  f.opens = true → max (lines f.text).length (n + 1) < 2 ^ 31 ∧
    if f.reopens = true then Room n f.text else (fileLines f.text)[n]? = some content

/-- When `GetLine` reads the line: there is one, or the last line is ended. -/
def Readable : Prop :=
  if f.opens = true then
    n + 1 < 2 ^ 31 ∧ (n < (fileLines f.text).length ∨ Ended f.text)
  else ((fileLines f.text)[n]?).getD [] = []

end Definitions

section Loop

variable {content old line : Bytes} {k i : ℕ} {s : InStream}

theorem collectInt_next {p : Prop} [Decidable p]
    (hgoes : (!s.fail && !s.eof || decide (i ≤ k)) = true)
    (hrest : i + 1 < 2 ^ 31 → collectInt content k (s.getline old).2 (s.getline old).1 (i + 1) =
      if p then some (collect content k (s.getline old).2 (s.getline old).1 (i + 1)) else none) :
    collectInt content k s old i =
      if i + 1 < 2 ^ 31 ∧ p then some (collect content k s old i) else none := by
  rw [collectInt, if_pos hgoes, collect, if_pos hgoes]
  by_cases hlt : i + 1 < 2 ^ 31
  · rw [if_pos hlt]
    dsimp only
    rw [hrest hlt]
    by_cases hp : p
    · have hboth : i + 1 < 2 ^ 31 ∧ p := ⟨hlt, hp⟩
      rw [if_pos hp, if_pos hboth]
      rfl
    · have hnot : ¬(i + 1 < 2 ^ 31 ∧ p) := fun h => hp h.2
      rw [if_neg hp, if_neg hnot]
      rfl
  · rw [if_neg hlt, if_neg fun h => hlt h.1]

theorem collectInt_ended (h : s.eof = true) (hi : i < 2 ^ 31) :
    collectInt content k s line i =
      if max i (k + 1) < 2 ^ 31 then some (collect content k s line i) else none := by
  induction hn : k + 1 - i generalizing i s with
  | zero =>
    have hends : ¬(!s.fail && !s.eof || decide (i ≤ k)) = true := by
      rw [h, Bool.not_true, Bool.and_false, Bool.false_or, decide_eq_true_eq]
      omega
    rw [collectInt, if_neg hends, collect, if_neg hends, if_pos (by omega)]
  | succ n ih =>
    have hgoes : (!s.fail && !s.eof || decide (i ≤ k)) = true := by
      rw [decide_eq_true (by omega), Bool.or_true]
    have hbound : (i + 1 < 2 ^ 31 ∧ max (i + 1) (k + 1) < 2 ^ 31) ↔ max i (k + 1) < 2 ^ 31 := by
      omega
    rw [@collectInt_next content line k i s (max (i + 1) (k + 1) < 2 ^ 31) _ hgoes]
    · exact if_congr hbound rfl rfl
    · intro hlt
      rw [InStream.getline_ended h]
      exact @ih (i + 1) { s with fail := true } h hlt (by omega)

theorem collectInt_ofText (text old : Bytes) : collectInt content k (.ofText text) old i =
    if max (i + (lines text).length) (k + 1) < 2 ^ 31 then
      some (collect content k (.ofText text) old i)
    else none := by
  induction text using line_induction generalizing i old with
  | single text hno =>
    have hbound : (i + 1 < 2 ^ 31 ∧ max (i + 1) (k + 1) < 2 ^ 31) ↔
        max (i + (lines text).length) (k + 1) < 2 ^ 31 := by
      rw [lines_single hno, List.length_singleton]
      omega
    rw [@collectInt_next content old k i _ (max (i + 1) (k + 1) < 2 ^ 31) _ rfl]
    · exact if_congr hbound rfl rfl
    · intro hlt
      rw [InStream.getline_single hno]
      exact collectInt_ended rfl hlt
  | append line rest hline ih =>
    have hbound : (i + 1 < 2 ^ 31 ∧ max (i + 1 + (lines rest).length) (k + 1) < 2 ^ 31) ↔
        max (i + (lines (line ++ newline :: rest)).length) (k + 1) < 2 ^ 31 := by
      rw [lines_append hline, List.length_cons]
      omega
    rw [@collectInt_next content old k i _
      (max (i + 1 + (lines rest).length) (k + 1) < 2 ^ 31) _ rfl]
    · exact if_congr hbound rfl rfl
    · intro hlt
      rw [InStream.getline_append hline]
      exact ih line

end Loop

section Insertion

variable {text content : Bytes} {ls : List Bytes} {n : ℕ}

theorem upTo_eq (hne : ls ≠ []) (k : ℕ) : upTo k ls =
    ls.take (k + 1) ++ List.replicate (k + 1 - ls.length) (ls.getLast hne) := by
  fun_induction upTo k ls with
  | case1 => exact absurd rfl hne
  | case2 l ls => simp
  | case3 k l ih =>
    rw [ih (List.cons_ne_nil l [])]
    simp [List.replicate_succ]
  | case4 k l ls hne' ih =>
    have hls : ls ≠ [] := hne'
    rw [ih hls, List.getLast_cons hls]
    simp

theorem kept_eq_self (h : [] ∉ ls) : kept ls = ls := by
  refine List.filter_eq_self.mpr fun l hl => ?_
  cases l with
  | nil => exact absurd hl h
  | cons c l => rfl

theorem kept_blanks (k : ℕ) : kept (List.replicate k []) = [] := by
  refine List.filter_eq_nil_iff.mpr fun l hl => ?_
  rw [List.eq_of_mem_replicate hl]
  exact Bool.false_ne_true

theorem inserted_within (h : n < (fileLines text).length) : inserted content n (lines text) =
    kept ((fileLines text).take (n + 1)) ++
      content :: kept ((fileLines text).drop (n + 1)) := by
  have hle : n + 1 ≤ (fileLines text).length := h
  rw [inserted, upTo_eq (lines_ne_nil text)]
  by_cases hend : Ended text
  · simp only [lines_ended hend]
    rw [List.take_append_of_le_length hle, List.drop_append_of_le_length hle, kept_append _ [[]],
      List.length_append, List.length_singleton, Nat.sub_eq_zero_of_le (by omega)]
    simp [kept]
  · simp only [lines_open hend]
    rw [Nat.sub_eq_zero_of_le hle, List.replicate_zero, List.append_nil]

theorem inserted_ended (h : (fileLines text).length ≤ n) (hend : Ended text) :
    inserted content n (lines text) = kept (fileLines text) ++ [content] := by
  have hlength : (fileLines text ++ [[]]).length ≤ n + 1 := by
    rw [List.length_append, List.length_singleton]
    omega
  rw [inserted, upTo_eq (lines_ne_nil text)]
  simp only [lines_ended hend]
  rw [List.take_of_length_le hlength, List.drop_of_length_le hlength, kept_append, kept_append,
    List.getLast_concat, kept_blanks, List.append_nil]
  simp [kept]

theorem inserted_open (h : (fileLines text).length ≤ n) (hopen : ¬Ended text) :
    ∃ last, last ≠ [] ∧ inserted content n (lines text) = kept (fileLines text) ++
      List.replicate (n + 1 - (fileLines text).length) last ++ [content] := by
  have hlast := (ended_iff text).not.mp hopen
  refine ⟨_, hlast, ?_⟩
  have hkept : ∀ k, kept (List.replicate k ((lines text).getLast (lines_ne_nil text))) =
      List.replicate k ((lines text).getLast (lines_ne_nil text)) := by
    intro k
    exact kept_eq_self fun hblank => hlast (List.eq_of_mem_replicate hblank).symm
  rw [inserted, upTo_eq (lines_ne_nil text), kept_append, hkept]
  simp only [lines_open hopen]
  rw [List.take_of_length_le (by omega), List.drop_of_length_le (by omega)]
  rfl

end Insertion

section Writing

variable {text content : Bytes} {before front back : List Bytes} {n : ℕ}

theorem getElem?_blank (hfront : [] ∉ front) (hback : [] ∉ back) {m : ℕ}
    (h : (front ++ content :: back)[m]? = some []) : m = front.length ∧ content = [] := by
  rcases lt_trichotomy m front.length with hlt | rfl | hgt
  · rw [List.getElem?_append_left hlt] at h
    exact absurd (List.mem_of_getElem? h) hfront
  · rw [List.getElem?_append_right le_rfl, Nat.sub_self, List.getElem?_cons_zero,
      Option.some.injEq] at h
    exact ⟨rfl, h⟩
  · have hroom : m - front.length = m - front.length - 1 + 1 := by omega
    rw [List.getElem?_append_right hgt.le, hroom, List.getElem?_cons_succ] at h
    exact absurd (List.mem_of_getElem? h) hback

/-- Empty lines are dropped, so that only line `n` can be one. -/
theorem others_of_written (hfront : [] ∉ front) (hback : [] ∉ back)
    (h : LineWritten before (front ++ content :: back) n content) (m : ℕ) (hm : m ≠ n) :
    before[m]? ≠ some [] := by
  intro hblank
  obtain ⟨hplace, hcontent⟩ := getElem?_blank hfront hback (h.others m [] hm hblank)
  have hwritten := h.written
  nth_rewrite 2 [hcontent] at hwritten
  exact hm (hplace.trans (getElem?_blank hfront hback hwritten).1.symm)

theorem blank_notMem_kept (ls : List Bytes) : [] ∉ kept ls := fun h => (mem_kept.mp h).2 rfl

theorem written_set (h : n < before.length) (content : Bytes) :
    LineWritten before (before.set n content) n content where
  written := List.getElem?_set_self h
  others m l hm hl := by rw [List.getElem?_set_ne hm.symm, hl]
  once l _ := ((List.set_perm_cons_eraseIdx h content).count_eq l).le

theorem written_concat (before : List Bytes) (content : Bytes) :
    LineWritten before (before ++ [content]) before.length content where
  written := List.getElem?_concat_length
  others m l _ hl := by
    obtain ⟨hlt, -⟩ := List.getElem?_eq_some_iff.mp hl
    rw [List.getElem?_append_left hlt, hl]
  once l _ := by
    rw [List.eraseIdx_of_length_le le_rfl]
    exact ((List.perm_append_singleton content before).count_eq l).le

theorem written_same : LineWritten before before n content ↔ before[n]? = some content := by
  constructor
  · intro h
    exact h.written
  · intro h
    obtain ⟨hlt, rfl⟩ := List.getElem?_eq_some_iff.mp h
    exact ⟨h, fun m l _ hl => hl, fun l _ =>
      ((List.getElem_cons_eraseIdx_perm hlt).count_eq l).ge⟩

theorem not_written_behind (hlt : n < before.length) (hne : before[n] ≠ []) :
    ¬LineWritten before (before.take (n + 1) ++ content :: before.drop (n + 1)) n content := by
  intro h
  have hsame : before[n] = content := by
    have hwritten := h.written
    rw [List.getElem?_append_left (by simp; omega), List.getElem?_take_of_lt (by omega),
      List.getElem?_eq_getElem hlt, Option.some.injEq] at hwritten
    exact hwritten
  have hcount := h.once before[n] hne
  have hperm := (List.getElem_cons_eraseIdx_perm hlt).count_eq before[n]
  have hsplit := congrArg (List.count before[n]) (List.take_append_drop (n + 1) before)
  rw [List.count_append] at hsplit
  rw [← hsame, hperm, List.count_append, List.count_cons_self] at hcount
  omega

theorem not_written_again {last : Bytes} (hle : before.length ≤ n) (hne : last ≠ []) :
    ¬LineWritten before
      (before ++ List.replicate (n + 1 - before.length) last ++ [content]) n content := by
  intro h
  have hcount := h.once last hne
  rw [List.eraseIdx_of_length_le hle] at hcount
  simp only [List.count_append, List.count_replicate_self, List.count_cons, List.count_nil]
    at hcount
  omega

theorem blank_notMem (h : ∀ m, m ≠ n → before[m]? ≠ some []) (hn : before[n]? ≠ some []) :
    [] ∉ before := by
  intro hmem
  obtain ⟨m, hm⟩ := List.mem_iff_getElem?.mp hmem
  by_cases hmn : m = n
  · exact hn (hmn ▸ hm)
  · exact h m hmn hm

theorem within_iff (hlt : n < before.length) :
    LineWritten before (kept (before.take (n + 1)) ++ content :: kept (before.drop (n + 1)))
      n content ↔ (∀ m, m ≠ n → before[m]? ≠ some []) ∧ before[n]? = some [] := by
  constructor
  · intro h
    have hothers := others_of_written (blank_notMem_kept _) (blank_notMem_kept _) h
    refine ⟨hothers, ?_⟩
    by_contra hne
    have hnone := blank_notMem hothers hne
    rw [kept_eq_self fun hmem => hnone (List.mem_of_mem_take hmem),
      kept_eq_self fun hmem => hnone (List.mem_of_mem_drop hmem)] at h
    rw [List.getElem?_eq_getElem hlt, Option.some.injEq] at hne
    exact not_written_behind hlt hne h
  · rintro ⟨hothers, hblank⟩
    have hfront : [] ∉ before.take n := by
      intro hmem
      obtain ⟨m, hm⟩ := List.mem_iff_getElem?.mp hmem
      obtain ⟨hlength, -⟩ := List.getElem?_eq_some_iff.mp hm
      rw [List.length_take] at hlength
      rw [List.getElem?_take_of_lt (by omega)] at hm
      exact hothers m (by omega) hm
    have hbehind : [] ∉ before.drop (n + 1) := by
      intro hmem
      obtain ⟨m, hm⟩ := List.mem_iff_getElem?.mp hmem
      rw [List.getElem?_drop] at hm
      exact hothers (n + 1 + m) (by omega) hm
    have htake : kept (before.take (n + 1)) = before.take n := by
      rw [List.take_add_one, hblank, kept_append, kept_eq_self hfront]
      exact List.append_nil _
    have hset : before.take n ++ content :: before.drop (n + 1) = before.set n content := by
      rw [List.set_eq_take_append_cons_drop, if_pos hlt]
    rw [htake, kept_eq_self hbehind, hset]
    exact written_set hlt content

theorem ended_written_iff (hle : before.length ≤ n) :
    LineWritten before (kept before ++ [content]) n content ↔
      (∀ m, m ≠ n → before[m]? ≠ some []) ∧ n = before.length := by
  have hnone : before[n]? ≠ some [] := by
    rw [List.getElem?_eq_none hle]
    exact (Option.some_ne_none []).symm
  constructor
  · intro h
    have hothers := others_of_written (blank_notMem_kept _) List.not_mem_nil h
    rw [kept_eq_self (blank_notMem hothers hnone)] at h
    obtain ⟨hlt, -⟩ := List.getElem?_eq_some_iff.mp h.written
    rw [List.length_append, List.length_singleton] at hlt
    exact ⟨hothers, by omega⟩
  · rintro ⟨hothers, rfl⟩
    rw [kept_eq_self (blank_notMem hothers hnone)]
    exact written_concat before content

/-- What the loop collects has line `n` written exactly when there was room for it. -/
theorem written_iff_room :
    LineWritten (fileLines text) (inserted content n (lines text)) n content ↔ Room n text := by
  unfold Room
  by_cases hlt : n < (fileLines text).length
  · rw [inserted_within hlt, within_iff hlt, or_iff_left fun h => hlt.ne h.1]
  · have hle := not_lt.mp hlt
    have hnone : (fileLines text)[n]? = none := List.getElem?_eq_none hle
    by_cases hend : Ended text
    · rw [inserted_ended hle hend, ended_written_iff hle, hnone]
      simp [hend]
    · obtain ⟨last, hlast, hinserted⟩ := inserted_open hle hend
      rw [hinserted, hnone]
      refine iff_of_false (fun h => ?_) (by simp [hend])
      have hother : [] ∉ kept (fileLines text) ++
          List.replicate (n + 1 - (fileLines text).length) last := by
        rw [List.mem_append, not_or]
        exact ⟨blank_notMem_kept _, fun hmem => hlast (List.eq_of_mem_replicate hmem).symm⟩
      have hothers := others_of_written hother List.not_mem_nil h
      rw [kept_eq_self (blank_notMem hothers (by simp [hnone]))] at h
      exact not_written_again hle hlast h

theorem newline_notMem_inserted (h : newline ∉ content) :
    ∀ l ∈ inserted content n (lines text), newline ∉ l := by
  intro l hl
  rw [inserted, List.mem_append, List.mem_cons] at hl
  rcases hl with hfront | rfl | hback
  · exact mem_lines (mem_upTo (mem_kept.mp hfront).1)
  · exact h
  · exact mem_lines (List.mem_of_mem_drop (mem_kept.mp hback).1)

theorem writeAtLine_opens {f : FileHandler} (h : f.opens = true) (content : Bytes) (n : ℕ) :
    f.writeAtLine content n = if max (lines f.text).length (n + 1) < 2 ^ 31 then
      some (true, if f.reopens then unlines (inserted content n (lines f.text)) else f.text)
    else none := by
  rw [FileHandler.writeAtLine, if_pos h, collectInt_ofText, Nat.zero_add, collect_ofText,
    if_pos (Nat.zero_le n), Nat.sub_zero]
  by_cases hbound : max (lines f.text).length (n + 1) < 2 ^ 31
  · rw [if_pos hbound, if_pos hbound]
    rfl
  · rw [if_neg hbound, if_neg hbound]
    rfl

theorem writeAtLine_config {f : FileHandler} (hopens : f.opens = true) (hreopens : f.reopens = true)
    (hbound : max (lines f.text).length (n + 1) < 2 ^ 31) (content : Bytes) :
    f.writeAtLine content n =
      (writeAtLine (some f.text) content n).map fun text => (true, text) := by
  rw [writeAtLine_opens hopens, if_pos hbound, if_pos hreopens, writeAtLine_some]
  rfl

/-- A file of whole lines has room behind them, as the file of the client has for its id and then
for its key. -/
theorem room_unlines {ls : List Bytes} (h : ∀ l ∈ ls, l ≠ [] ∧ newline ∉ l) :
    Room ls.length (unlines ls) := by
  unfold Room
  rw [fileLines_unlines fun l hl => (h l hl).2]
  refine ⟨fun m _ hblank => ?_, .inr ⟨rfl, ended_unlines ls⟩⟩
  exact (h [] (List.mem_of_getElem? hblank)).1 rfl

/-- Main theorem: the calls of `WriteAtLine` that write their line. -/
theorem writesLine_iff (f : FileHandler) (h : newline ∉ content) (n : ℕ) :
    WritesLine f content n ↔ Writable f content n := by
  unfold WritesLine Writable
  by_cases hopens : f.opens = true
  · rw [writeAtLine_opens hopens, imp_iff_right hopens]
    by_cases hbound : max (lines f.text).length (n + 1) < 2 ^ 31
    · rw [if_pos hbound, and_iff_right hbound]
      dsimp only
      by_cases hreopens : f.reopens = true
      · rw [if_pos hreopens, if_pos hreopens, fileLines_unlines (newline_notMem_inserted h),
          written_iff_room]
      · rw [if_neg hreopens, if_neg hreopens, written_same]
    · rw [if_neg hbound]
      exact iff_of_false id fun hboth => hbound hboth.1
  · rw [FileHandler.writeAtLine, if_neg hopens]
    exact iff_of_true trivial fun hopens' => absurd hopens' hopens

theorem writesLine_iff_name :
    WritesLine ⟨unlines [[0x61]], true, true⟩ [0x62] uuidLineIndex := by
  refine (writesLine_iff _ (by decide) uuidLineIndex).mpr fun _ => ⟨by decide, ?_⟩
  exact @room_unlines [[0x61]] (by decide)

theorem not_writesLine_behind : ¬∀ (f : FileHandler) (content : Bytes) (n : ℕ),
    newline ∉ content → WritesLine f content n := by
  intro h
  have hwrites := h ⟨[0x61, newline], true, true⟩ [0x62] 0 (by decide)
  unfold WritesLine at hwrites
  rw [writeAtLine_opens rfl, if_pos (by decide)] at hwrites
  have hwritten := hwrites.written
  revert hwritten
  decide

end Writing

section Reading

/-- `GetLine` is that of the configuration, as long as its index stays in its `int`. -/
theorem getLine_opens {f : FileHandler} (h : f.opens = true) (n : ℕ) :
    f.getLine n = if n + 1 < 2 ^ 31 then some (ClientStart.getLine f.text true n) else none := by
  rw [FileHandler.getLine, if_pos h]
  rfl

theorem lineAt_eq_iff (text : Bytes) (n : ℕ) : lineAt text n = ((fileLines text)[n]?).getD [] ↔
    n < (fileLines text).length ∨ Ended text := by
  unfold lineAt
  by_cases hend : Ended text
  · refine iff_of_true ?_ (.inr hend)
    rw [(ended_iff text).mp hend, lines_ended hend]
    rcases lt_trichotomy n (fileLines text).length with hlt | rfl | hgt
    · rw [List.getElem?_append_left hlt]
    · simp
    · rw [List.getElem?_eq_none (by simp; omega), List.getElem?_eq_none hgt.le]
  · have hlast := (ended_iff text).not.mp hend
    rw [or_iff_left hend]
    generalize (lines text).getLast (lines_ne_nil text) = last at hlast ⊢
    rw [lines_open hend]
    by_cases hlt : n < (fileLines text).length
    · rw [List.getElem?_eq_getElem hlt]
      exact iff_of_true rfl hlt
    · rw [List.getElem?_eq_none (not_lt.mp hlt)]
      exact iff_of_false hlast hlt

/-- Main theorem: the calls of `GetLine` that read their line. -/
theorem readsLine_iff (f : FileHandler) (n : ℕ) : ReadsLine f n ↔ Readable f n := by
  unfold ReadsLine Readable
  by_cases hopens : f.opens = true
  · rw [getLine_opens hopens, if_pos hopens, ClientStart.getLine_eq]
    by_cases hbound : n + 1 < 2 ^ 31
    · rw [if_pos hbound, and_iff_right hbound, Option.some.injEq]
      exact lineAt_eq_iff f.text n
    · rw [if_neg hbound]
      exact iff_of_false (Option.some_ne_none _).symm fun hboth => hbound hboth.1
  · rw [FileHandler.getLine, if_neg hopens, if_neg hopens, Option.some.injEq]
    exact eq_comm

/-- `a` alone, without a newline: its line is returned for the next one too. -/
theorem not_readsLine_open : ¬∀ (f : FileHandler) (n : ℕ), ReadsLine f n := by
  intro h
  have hreads := h ⟨[0x61], true, true⟩ 1
  unfold ReadsLine at hreads
  revert hreads
  decide

end Reading

end FileLines
