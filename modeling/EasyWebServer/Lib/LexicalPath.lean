import Mathlib.Data.List.Basic

/-!
# Lexical resolution of paths

A path is a list of characters that a separator cuts into components.  The empty
component and `.` stay in a directory, `..` goes to its parent, and every other
component is a name.  A directory is the list of the names from the root to it, and
the parent of the root is the root.  No file system is consulted, so this is what a
path means where no name is a symbolic link.

`Relative` is the normal form of a list of components: a number of steps up, and the
names behind them.  `walk_eq` says that following the components is applying their
normal form, and `below_walk_iff` is the confinement rule: which relative paths lead
from a directory to a place below it.
-/

namespace EasyWebServer

namespace LexicalPath

variable {α : Type*}

/-- A component of a path. -/
inductive Component (α : Type*) where
  | here
  | up
  | name (a : α)
  deriving DecidableEq, Repr

/-- Follow one component from a directory. -/
def follow (dir : List α) : Component α → List α
  | .here => dir
  | .up => dir.dropLast
  | .name a => dir ++ [a]

/-- Follow the components one after another. -/
def walk (dir : List α) (cs : List (Component α)) : List α := cs.foldl follow dir

theorem walk_append (dir : List α) (cs ds : List (Component α)) :
    walk dir (cs ++ ds) = walk (walk dir cs) ds :=
  List.foldl_append

/-- `dir` lies below `root`: `root` is a proper prefix of it. -/
def Below (root dir : List α) : Prop := root <+: dir ∧ root ≠ dir

instance [DecidableEq α] (root dir : List α) : Decidable (Below root dir) :=
  inferInstanceAs (Decidable (_ ∧ _))

/-- A common first part does not matter. -/
theorem below_append_iff (dir a b : List α) : Below (dir ++ a) (dir ++ b) ↔ Below a b :=
  and_congr (List.prefix_append_right_inj dir)
    (not_congr (by rw [List.append_cancel_left_eq]))

theorem not_below_self (dir : List α) : ¬Below dir dir := fun h => h.2 rfl

/-! ## The normal form of a relative path -/

/-- A relative path in normal form: first `ups` steps to the parent, then the
names. -/
structure Relative (α : Type*) where
  ups : Nat
  names : List α
  deriving DecidableEq, Repr

namespace Relative

/-- One more component behind a normal form.  A `..` cancels the last name, and goes
up when there is none. -/
def snoc (r : Relative α) : Component α → Relative α
  | .here => r
  | .up =>
      if r.names.isEmpty then { r with ups := r.ups + 1 }
      else { r with names := r.names.dropLast }
  | .name a => { r with names := r.names ++ [a] }

/-- The directory that a relative path leads to. -/
def applyTo (r : Relative α) (dir : List α) : List α :=
  dir.take (dir.length - r.ups) ++ r.names

theorem applyTo_snoc (r : Relative α) (c : Component α) (dir : List α) :
    (r.snoc c).applyTo dir = follow (r.applyTo dir) c := by
  cases c with
  | here => rfl
  | name a => simp only [snoc, applyTo, follow, List.append_assoc]
  | up =>
      unfold snoc applyTo follow
      simp only
      split
      · rename_i hnames
        rw [List.isEmpty_iff.mp hnames, List.append_nil, List.append_nil, List.dropLast_eq_take,
          List.take_take, List.length_take]
        simp only
        congr 1
        omega
      · rename_i hnames
        rw [List.dropLast_append_of_ne_nil (fun h => hnames (List.isEmpty_iff.mpr h))]

/-- A relative path leads below the directory it starts from exactly when its names
lead below the part of the directory that the steps up have left. -/
theorem below_applyTo_iff (r : Relative α) (root : List α) :
    Below root (r.applyTo root) ↔ Below (root.drop (root.length - r.ups)) r.names := by
  unfold applyTo
  generalize root.length - r.ups = n
  calc Below root (root.take n ++ r.names)
      ↔ Below (root.take n ++ root.drop n) (root.take n ++ r.names) := by
        rw [List.take_append_drop]
    _ ↔ Below (root.drop n) r.names := below_append_iff _ _ _

end Relative

/-- The normal form of a list of components. -/
def relative (cs : List (Component α)) : Relative α := cs.foldl Relative.snoc ⟨0, []⟩

/-- Following components is applying their normal form. -/
theorem walk_eq (dir : List α) (cs : List (Component α)) :
    walk dir cs = (relative cs).applyTo dir := by
  have hfold : ∀ r : Relative α,
      walk (r.applyTo dir) cs = (cs.foldl Relative.snoc r).applyTo dir := by
    induction cs with
    | nil => exact fun r => rfl
    | cons c cs ih =>
        intro r
        rw [List.foldl_cons, ← ih, Relative.applyTo_snoc]
        rfl
  have hzero : (Relative.mk 0 []).applyTo dir = dir := by
    rw [Relative.applyTo, Nat.sub_zero, List.take_length, List.append_nil]
  calc walk dir cs = walk ((Relative.mk 0 []).applyTo dir) cs := by rw [hzero]
    _ = (relative cs).applyTo dir := hfold _

/-- The confinement rule. -/
theorem below_walk_iff (root : List α) (cs : List (Component α)) :
    Below root (walk root cs) ↔
      Below (root.drop (root.length - (relative cs).ups)) (relative cs).names := by
  rw [walk_eq]
  exact (relative cs).below_applyTo_iff root

/-! ## The components of a path -/

section Characters

variable {χ : Type*} [DecidableEq χ] (sep dot : χ)

/-- What a word between two separators means. -/
def component (word : List χ) : Component (List χ) :=
  if word = [] ∨ word = [dot] then .here
  else if word = [dot, dot] then .up
  else .name word

/-- The components of a path. -/
def components (path : List χ) : List (Component (List χ)) :=
  (path.splitOn sep).map (component dot)

theorem components_append (path rest : List χ) :
    components sep dot (path ++ sep :: rest) =
      components sep dot path ++ components sep dot rest := by
  simp only [components, List.splitOn_append_cons_self, List.map_append]

/-- The place that an absolute path denotes. -/
def resolve (path : List χ) : List (List χ) := walk [] (components sep dot path)

/-- A path behind a directory is followed from the directory. -/
theorem resolve_append (root rest : List χ) :
    resolve sep dot (root ++ sep :: rest) =
      walk (resolve sep dot root) (components sep dot rest) := by
  rw [resolve, components_append, walk_append]
  rfl

/-- The relative path `rest` stays below the directory `root`.  With `m` the number
of steps up in its normal form, its names begin with the last `m` names of `root`,
and there is at least one more. -/
def StaysBelow (root rest : List χ) : Prop :=
  let dir := resolve sep dot root
  let r := relative (components sep dot rest)
  Below (dir.drop (dir.length - r.ups)) r.names

instance (root rest : List χ) : Decidable (StaysBelow sep dot root rest) := by
  unfold StaysBelow
  infer_instance

/-- A path behind a directory resolves to a place below the directory exactly when
the relative part stays below it. -/
theorem below_resolve_iff (root rest : List χ) :
    Below (resolve sep dot root) (resolve sep dot (root ++ sep :: rest)) ↔
      StaysBelow sep dot root rest := by
  rw [resolve_append]
  exact below_walk_iff _ _

end Characters

end LexicalPath

end EasyWebServer
