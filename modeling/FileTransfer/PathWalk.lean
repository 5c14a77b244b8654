import FileTransfer.ByteField
import Mathlib.Data.List.Induction
import Mathlib.Logic.Function.Basic

/-! # Path resolution and directory trees

A location is the list of names from the root. Resolution of `..` is by cancelling, so
a sequence of moves has a normal form: some levels up, then names down. A tree carries
the proof that everything in it has a directory above it. -/
namespace PathWalk

open ByteField (Bytes)

section Moves

variable {α : Type}

inductive Move (α : Type) where
  | up
  | down (a : α)
  deriving DecidableEq, Repr

def moveFrom (loc : List α) : Move α → List α
  | .up => loc.dropLast
  | .down a => loc ++ [a]

def resolve (loc : List α) (ms : List (Move α)) : List α := ms.foldl moveFrom loc

@[simp] theorem resolve_nil (loc : List α) : resolve loc [] = loc := rfl
@[simp] theorem resolve_cons (loc : List α) (m : Move α) (ms : List (Move α)) :
    resolve loc (m :: ms) = resolve (moveFrom loc m) ms := rfl

theorem resolve_append (loc : List α) (ms ns : List (Move α)) :
    resolve loc (ms ++ ns) = resolve (resolve loc ms) ns := List.foldl_append

@[simp] theorem resolve_downs (loc names : List α) :
    resolve loc (names.map .down) = loc ++ names := by
  induction names generalizing loc with
  | nil => simp
  | cons a names ih => simp [moveFrom, ih]

def normalStep (n : ℕ × List α) : Move α → ℕ × List α
  | .up => if n.2.isEmpty then (n.1 + 1, []) else (n.1, n.2.dropLast)
  | .down a => (n.1, n.2 ++ [a])

/-- The moves with every `..` cancelled: levels up, then names down. -/
def normal (ms : List (Move α)) : ℕ × List α := ms.foldl normalStep (0, [])

def climb (loc : List α) (n : ℕ × List α) : List α := loc.take (loc.length - n.1) ++ n.2

theorem climb_normalStep (loc : List α) (n : ℕ × List α) (m : Move α) :
    climb loc (normalStep n m) = moveFrom (climb loc n) m := by
  obtain ⟨k, ds⟩ := n
  cases m with
  | down a => simp [climb, normalStep, moveFrom]
  | up =>
    rcases List.eq_nil_or_concat ds with rfl | ⟨ds, d, rfl⟩
    · simp only [climb, normalStep, moveFrom, List.isEmpty_nil, if_true, List.append_nil]
      rw [List.dropLast_eq_take, List.length_take, List.take_take]
      congr 1
      omega
    · simp [climb, normalStep, moveFrom, ← List.append_assoc]

theorem resolve_eq_climb (loc : List α) (ms : List (Move α)) :
    resolve loc ms = climb loc (normal ms) := by
  induction ms using List.reverseRecOn with
  | nil => simp [normal, climb]
  | append_singleton ms m ih =>
    rw [resolve_append, ih, resolve_cons, resolve_nil, ← climb_normalStep, normal, normal,
      List.foldl_append]
    rfl

def StrictlyInside (dir loc : List α) : Prop := ∃ names, names ≠ [] ∧ loc = dir ++ names

instance [DecidableEq α] (dir loc : List α) : Decidable (StrictlyInside dir loc) :=
  decidable_of_iff (dir <+: loc ∧ dir ≠ loc) (by
    constructor
    · rintro ⟨⟨names, rfl⟩, hne⟩
      exact ⟨names, by rintro rfl; simp at hne, rfl⟩
    · rintro ⟨names, hne, rfl⟩
      exact ⟨⟨names, rfl⟩, by simpa using hne⟩)

/-- Going up `k` levels and down `ds` stays strictly inside a directory exactly when `ds`
re-enters the `k` levels that were left and goes on. -/
theorem strictlyInside_climb (dir : List α) (k : ℕ) (ds : List α) :
    StrictlyInside dir (climb dir (k, ds)) ↔
      StrictlyInside (dir.drop (dir.length - k)) ds := by
  have hsplit : dir = dir.take (dir.length - k) ++ dir.drop (dir.length - k) :=
    (List.take_append_drop _ _).symm
  constructor
  · rintro ⟨names, hne, h⟩
    refine ⟨names, hne, ?_⟩
    rw [climb] at h
    conv_rhs at h => rw [hsplit, List.append_assoc]
    exact List.append_cancel_left h
  · rintro ⟨names, hne, rfl⟩
    refine ⟨names, hne, ?_⟩
    rw [climb]
    dsimp only
    rw [← List.append_assoc, List.take_append_drop]

end Moves

section Text

def slash : UInt8 := 0x2F
def dot : UInt8 := 0x2E

abbrev Loc := List Bytes

/-- The move a path component stands for; empty components and `.` stand still. -/
def moveOf (component : Bytes) : Option (Move Bytes) :=
  if component = [] ∨ component = [dot] then none
  else if component = [dot, dot] then some .up
  else some (.down component)

def moves (path : Bytes) : List (Move Bytes) := (path.splitOn slash).filterMap moveOf

def Plain (name : Bytes) : Prop :=
  name ≠ [] ∧ slash ∉ name ∧ name ≠ [dot] ∧ name ≠ [dot, dot]

instance (name : Bytes) : Decidable (Plain name) :=
  inferInstanceAs (Decidable (_ ∧ _ ∧ _ ∧ _))

/-- A location that its text names again. -/
abbrev Folder := { loc : Loc // ∀ name ∈ loc, Plain name }

def Folder.root : Folder := ⟨[], List.forall_mem_nil _⟩

theorem moveOf_plain {name : Bytes} (h : Plain name) : moveOf name = some (.down name) := by
  obtain ⟨h₁, -, h₃, h₄⟩ := h
  simp [moveOf, h₁, h₃, h₄]

theorem moves_plain {name : Bytes} (h : Plain name) : moves name = [.down name] := by
  rw [moves, List.splitOn_eq_singleton h.2.1]
  simp [moveOf_plain h]

theorem moves_slash (a b : Bytes) : moves (a ++ slash :: b) = moves a ++ moves b := by
  rw [moves, List.splitOn_append_cons_self, List.filterMap_append]
  rfl

def render : Loc → Bytes
  | [] => [slash]
  | [name] => slash :: name
  | name :: names => slash :: name ++ render names

theorem render_cons {name : Bytes} {names : Loc} (h : names ≠ []) :
    render (name :: names) = slash :: name ++ render names := by
  cases names with
  | nil => exact absurd rfl h
  | cons => rfl

theorem render_eq_slash (loc : Loc) : ∃ text, render loc = slash :: text := by
  match loc with
  | [] => exact ⟨_, rfl⟩
  | [name] => exact ⟨name, rfl⟩
  | name :: next :: names => exact ⟨_, rfl⟩

theorem render_snoc {loc : Loc} (h : loc ≠ []) (name : Bytes) :
    render (loc ++ [name]) = render loc ++ slash :: name := by
  induction loc with
  | nil => exact absurd rfl h
  | cons a loc ih =>
    rw [List.cons_append, render_cons (List.append_ne_nil_of_right_ne_nil _ (by simp))]
    cases loc with
    | nil => simp [render]
    | cons b loc =>
      have hb : render (a :: b :: loc) = slash :: a ++ render (b :: loc) := rfl
      rw [ih (by simp), hb, List.append_assoc]

theorem moves_render {loc : Loc} (h : ∀ name ∈ loc, Plain name) :
    moves (render loc) = loc.map .down := by
  induction loc with
  | nil => decide
  | cons a loc ih =>
    have ha := moves_plain (h a (by simp))
    cases loc with
    | nil =>
      have hs := moves_slash [] a
      rw [List.nil_append] at hs
      rw [render, hs, ha]
      rfl
    | cons b loc =>
      have hs := moves_slash [] a
      obtain ⟨text, ht⟩ := render_eq_slash (b :: loc)
      have hi := ih (fun name hn => h name (by simp [hn]))
      have ht' := moves_slash [] text
      rw [List.nil_append] at hs ht'
      have hnil : moves [] = [] := by decide
      rw [ht, ht', hnil, List.nil_append] at hi
      rw [render_cons (by simp), ht, moves_slash, hs, ha, hi, hnil]
      simp

theorem render_injective {loc loc' : Loc} (h : ∀ name ∈ loc, Plain name)
    (h' : ∀ name ∈ loc', Plain name) (heq : render loc = render loc') : loc = loc' := by
  have hm := congrArg moves heq
  rw [moves_render h, moves_render h'] at hm
  exact List.map_injective_iff.mpr (fun a b hab => by injection hab) hm

theorem getLast?_render {loc : Loc} (h : ∀ name ∈ loc, Plain name) (hne : loc ≠ []) :
    (render loc).getLast? ≠ some slash := by
  induction loc with
  | nil => exact absurd rfl hne
  | cons a loc ih =>
    have ha := h a (by simp)
    cases loc with
    | nil =>
      rw [render, List.getLast?_cons_of_ne_nil ha.1]
      exact fun hl => ha.2.1 (List.mem_of_getLast? hl)
    | cons b loc =>
      obtain ⟨text, ht⟩ := render_eq_slash (b :: loc)
      have hi := ih (fun name hn => h name (by simp [hn])) (by simp)
      rw [render_cons (by simp), List.getLast?_append_of_ne_nil _ (by simp [ht])]
      exact hi

/-- `os.path.join(base, name)`: an absolute second argument replaces the first. -/
def joinPath (base name : Bytes) : Bytes :=
  if name.head? = some slash then name
  else if base = [] ∨ base.getLast? = some slash then base ++ name
  else base ++ slash :: name

theorem joinPath_relative {loc : Loc} (h : ∀ name ∈ loc, Plain name) (hne : loc ≠ [])
    {name : Bytes} (hname : name.head? ≠ some slash) :
    joinPath (render loc) name = render loc ++ slash :: name := by
  obtain ⟨text, ht⟩ := render_eq_slash loc
  rw [joinPath, if_neg hname, if_neg]
  rintro (h' | h')
  · simp [ht] at h'
  · exact getLast?_render h hne h'

theorem head?_plain {name : Bytes} (h : Plain name) : name.head? ≠ some slash :=
  fun hh => h.2.1 (List.mem_of_head? hh)

theorem joinPath_render {loc : Loc} (h : ∀ name ∈ loc, Plain name) {name : Bytes}
    (hname : Plain name) : joinPath (render loc) name = render (loc ++ [name]) := by
  by_cases hne : loc = []
  · subst hne
    rw [joinPath, if_neg (head?_plain hname)]
    simp [render]
  · rw [joinPath_relative h hne (head?_plain hname), render_snoc hne]

end Text

section Trees

variable {ν κ : Type} [DecidableEq ν]

inductive Node (κ : Type) where
  | dir
  | file (content : κ)
  deriving DecidableEq, Repr

structure Tree (ν κ : Type) where
  node : List ν → Option (Node κ)
  root : node [] = some .dir
  closed : ∀ loc a, node (loc ++ [a]) ≠ none → node loc = some .dir

namespace Tree

omit [DecidableEq ν]

def empty : Tree ν κ where
  node loc := if loc.isEmpty then some .dir else none
  root := rfl
  closed loc a h := absurd (by simp) h

def isDir (t : Tree ν κ) (loc : List ν) : Bool :=
  match t.node loc with
  | some .dir => true
  | _ => false

theorem isDir_iff (t : Tree ν κ) (loc : List ν) :
    t.isDir loc = true ↔ t.node loc = some .dir := by
  unfold isDir
  split <;> simp_all

/-- Physical resolution: every location on the way must be a directory. -/
def walk (t : Tree ν κ) : List ν → List (Move ν) → Option (List ν)
  | loc, [] => if t.isDir loc then some loc else none
  | loc, m :: ms => if t.isDir loc then walk t (moveFrom loc m) ms else none

theorem walk_eq_some {t : Tree ν κ} {loc : List ν} {ms : List (Move ν)} {p : List ν}
    (h : t.walk loc ms = some p) : p = resolve loc ms ∧ t.isDir p = true := by
  induction ms generalizing loc with
  | nil =>
    simp only [walk] at h
    split at h
    · cases h; exact ⟨rfl, ‹_›⟩
    · cases h
  | cons m ms ih =>
    simp only [walk] at h
    split at h
    · exact ih h
    · cases h

theorem walk_congr {t u : Tree ν κ} (h : ∀ loc, u.isDir loc = t.isDir loc) (loc : List ν)
    (ms : List (Move ν)) : u.walk loc ms = t.walk loc ms := by
  induction ms generalizing loc with
  | nil => simp only [walk, h]
  | cons m ms ih => simp only [walk, h, ih]

theorem isDir_front {t : Tree ν κ} {front back : List ν} (h : t.isDir (front ++ back) = true) :
    t.isDir front = true := by
  induction back using List.reverseRecOn with
  | nil => simpa using h
  | append_singleton back a ih =>
    rw [isDir_iff, ← List.append_assoc] at h
    refine ih ((isDir_iff t _).mpr (t.closed _ a ?_))
    rw [h]
    exact Option.some_ne_none _

theorem walk_downs {t : Tree ν κ} {base loc : List ν} (h : t.isDir (base ++ loc) = true) :
    t.walk base (loc.map .down) = some (base ++ loc) := by
  induction loc generalizing base with
  | nil =>
    rw [List.append_nil] at h ⊢
    exact if_pos h
  | cons a loc ih =>
    have hstep : base ++ a :: loc = base ++ [a] ++ loc := by simp
    rw [List.map_cons, walk, if_pos (isDir_front h), hstep]
    rw [hstep] at h
    exact ih h

end Tree

/-- Put a node under a directory, in the place of nothing or of a file. -/
def Tree.put (t : Tree ν κ) (parent : List ν) (a : ν) (n : Node κ)
    (hp : t.isDir parent = true) (hn : t.isDir (parent ++ [a]) = false) : Tree ν κ where
  node := Function.update t.node (parent ++ [a]) (some n)
  root := by
    rw [Function.update_of_ne (by simp), t.root]
  closed := by
    intro loc b h
    have hpd := (t.isDir_iff parent).mp hp
    by_cases hb : loc ++ [b] = parent ++ [a]
    · have hl : loc = parent := by simpa using congrArg List.dropLast hb
      rw [hl, Function.update_of_ne (by simp), hpd]
    · rw [Function.update_of_ne hb] at h
      have hd := t.closed loc b h
      have hne : loc ≠ parent ++ [a] := by
        rintro rfl
        rw [(t.isDir_iff _).mpr hd] at hn
        cases hn
      rw [Function.update_of_ne hne, hd]

/-- `os.mkdir`: fails when the parent is missing or the name is taken. -/
def Tree.mkdir (t : Tree ν κ) (parent : List ν) (a : ν) : Option (Tree ν κ) :=
  if h : t.isDir parent = true ∧ (t.node (parent ++ [a])).isNone then
    some (t.put parent a .dir h.1 (by
      have hn := Option.isNone_iff_eq_none.mp h.2
      simp [Tree.isDir, hn]))
  else none

/-- `open(.., 'wb')` and the bytes that reach the file: fails on a missing parent and on
a directory. -/
def Tree.write (t : Tree ν κ) (parent : List ν) (a : ν) (content : κ) : Option (Tree ν κ) :=
  if h : t.isDir parent = true ∧ t.isDir (parent ++ [a]) = false then
    some (t.put parent a (.file content) h.1 h.2)
  else none

theorem Tree.mkdir_eq_some {t u : Tree ν κ} {parent : List ν} {a : ν}
    (h : t.mkdir parent a = some u) :
    t.isDir parent = true ∧ t.node (parent ++ [a]) = none ∧
      u.node = Function.update t.node (parent ++ [a]) (some .dir) := by
  unfold Tree.mkdir at h
  split at h
  · next hc => cases h; exact ⟨hc.1, Option.isNone_iff_eq_none.mp hc.2, rfl⟩
  · cases h

theorem Tree.mkdir_of_free {t : Tree ν κ} {parent : List ν} {a : ν}
    (hp : t.isDir parent = true) (hn : t.node (parent ++ [a]) = none) :
    ∃ u, t.mkdir parent a = some u := by
  rw [Tree.mkdir, dif_pos ⟨hp, by rw [hn]; rfl⟩]
  exact ⟨_, rfl⟩

theorem Tree.mkdir_of_taken {t : Tree ν κ} {parent : List ν} {a : ν}
    (hn : t.node (parent ++ [a]) ≠ none) : t.mkdir parent a = none := by
  rw [Tree.mkdir, dif_neg]
  rintro ⟨-, h⟩
  exact hn (Option.isNone_iff_eq_none.mp h)

theorem Tree.write_eq_some {t u : Tree ν κ} {parent : List ν} {a : ν} {content : κ}
    (h : t.write parent a content = some u) :
    t.isDir parent = true ∧ t.isDir (parent ++ [a]) = false ∧
      u.node = Function.update t.node (parent ++ [a]) (some (.file content)) := by
  unfold Tree.write at h
  split at h
  · next hc => cases h; exact ⟨hc.1, hc.2, rfl⟩
  · cases h

theorem Tree.write_of_dir {t : Tree ν κ} {parent : List ν} {a : ν} (content : κ)
    (hp : t.isDir parent = true) (hn : t.isDir (parent ++ [a]) = false) :
    ∃ u, t.write parent a content = some u := by
  rw [Tree.write, dif_pos ⟨hp, hn⟩]
  exact ⟨_, rfl⟩

end Trees

section OpenTarget

variable {κ : Type}

/-- The directory and the name that `open(path, 'wb')` works on. A path that ends in `/`,
`.` or `..` names no file. -/
def openTarget (t : Tree Bytes κ) (path : Bytes) : Option (Loc × Bytes) :=
  match (path.splitOn slash).getLast?.bind moveOf with
  | some (.down name) =>
    (t.walk [] ((path.splitOn slash).dropLast.filterMap moveOf)).map fun dir => (dir, name)
  | _ => none

theorem openTarget_eq_some {t : Tree Bytes κ} {path : Bytes} {dir : Loc} {name : Bytes}
    (h : openTarget t path = some (dir, name)) :
    resolve [] (moves path) = dir ++ [name] ∧ t.isDir dir = true := by
  unfold openTarget at h
  split at h
  · next last hlast =>
    obtain ⟨comp, hcomp, hm⟩ := Option.bind_eq_some_iff.mp hlast
    obtain ⟨d, hwalk, hd⟩ := Option.map_eq_some_iff.mp h
    cases hd
    obtain ⟨hres, hdir⟩ := Tree.walk_eq_some hwalk
    have hsplit : path.splitOn slash = (path.splitOn slash).dropLast ++ [comp] :=
      (List.dropLast_append_getLast? comp hcomp).symm
    refine ⟨?_, hdir⟩
    rw [moves, hsplit, List.filterMap_append, resolve_append, ← hres]
    simp [hm, moveFrom]
  · cases h

theorem openTarget_render {t : Tree Bytes κ} {loc : Loc} {name : Bytes}
    (hloc : ∀ a ∈ loc, Plain a) (hne : loc ≠ []) (hname : Plain name)
    (hdir : t.isDir loc = true) : openTarget t (render (loc ++ [name])) = some (loc, name) := by
  have hsplit : (render (loc ++ [name])).splitOn slash = (render loc).splitOn slash ++ [name] := by
    rw [render_snoc hne, List.splitOn_append_cons_self, List.splitOn_eq_singleton hname.2.1]
  have hmoves : ((render loc).splitOn slash).filterMap moveOf = loc.map .down := moves_render hloc
  rw [openTarget, hsplit, List.getLast?_concat, Option.bind_some, moveOf_plain hname]
  dsimp only
  rw [List.dropLast_concat, hmoves, @Tree.walk_downs _ _ t [] loc hdir]
  rfl

theorem openTarget_congr {t u : Tree Bytes κ} (h : ∀ loc, u.isDir loc = t.isDir loc)
    (path : Bytes) : openTarget u path = openTarget t path := by
  unfold openTarget
  split
  · rw [Tree.walk_congr h]
  · rfl

end OpenTarget

end PathWalk
