/-!
# Locations

A `Location` is a place on a disk: the names on the way from the root to it. Its depth is kept with
the names, so two locations at different depths are told apart without a look at the names.

* `Location.root`, `Location.child`, `Location.parent` : the places themselves;
* `Location.step` : the place that a component of a path leads to;
* `Location.names`, `Location.ofNames` : from and to the names from the root down;
* `Location.text` : the written form.
-/

namespace HackVm

/-- A place on a disk. -/
structure Location where
  /-- The number of names. -/
  depth : Nat
  /-- The names, the innermost one first. -/
  trail : List String
  depth_eq : depth = trail.length
deriving DecidableEq, Repr

namespace Location

def root : Location := ⟨0, [], rfl⟩

def child (l : Location) (name : String) : Location :=
  ⟨l.depth + 1, name :: l.trail, by rw [l.depth_eq, List.length_cons]⟩

/-- The directory of a place. The root is in itself. -/
def parent (l : Location) : Location :=
  ⟨l.depth - 1, l.trail.tail, by rw [l.depth_eq, List.length_tail]⟩

def name? (l : Location) : Option String := l.trail.head?

/-- Where a component of a path leads: `..` to the directory of the place, a name into it. -/
def step (l : Location) (part : String) : Location := if part = ".." then l.parent else l.child part

def names (l : Location) : List String := l.trail.reverse

def ofNames (names : List String) : Location := names.foldl child root

def text (l : Location) : String := "/" ++ "/".intercalate l.names

theorem eq_of_names_eq {l m : Location} (h : l.names = m.names) : l = m := by
  obtain ⟨i, s, hi⟩ := l
  obtain ⟨j, t, hj⟩ := m
  have : s = t := List.reverse_inj.1 h
  subst this hi hj
  rfl

@[simp]
theorem names_child (l : Location) (name : String) : (l.child name).names = l.names ++ [name] :=
  List.reverse_cons

@[simp]
theorem parent_child (l : Location) (name : String) : (l.child name).parent = l := rfl

@[simp]
theorem name?_child (l : Location) (name : String) : (l.child name).name? = some name := rfl

theorem child_ne_root (l : Location) (name : String) : l.child name ≠ root := by
  simp [child, root]

theorem names_ofNames (names : List String) : (ofNames names).names = names := by
  have h : ∀ l : Location, (names.foldl child l).names = l.names ++ names := by
    induction names with
    | nil => simp
    | cons n ns ih =>
      intro l
      rw [List.foldl_cons, ih, names_child, List.append_assoc, List.singleton_append]
  exact h root

end Location

end HackVm
