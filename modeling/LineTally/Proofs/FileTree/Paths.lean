import LineTally.FileTree.Path
import Mathlib.Data.List.Induction

/-!
# Paths below a path

A walk makes the path of an entry from the path of its directory, and the file system reads that
path again from its names. This file says that the two fit: joining a name **adds one name** and
changes nothing else a path says (`names_join`, `isAbsolute_join`, `endsInSlash_join`), for any
spelling of the directory — `src`, `src/`, `src//` and `/` alike.

`Path.through` is the path that a walk gives to what it reaches through some names. Different names
give different paths (`through_injective`), so a list of paths below a root may be read as a list
of names without losing anything.
-/

set_option autoImplicit false

namespace LineTally

/-! ## Cutting a list at a separator -/

theorem separated_of_notMem {α : Type} [DecidableEq α] {c : α} {xs : List α} (h : c ∉ xs) :
    separated c xs = [xs] := by
  induction xs with
  | nil => rfl
  | cons x rest ih =>
    obtain ⟨hx, hrest⟩ := not_or.mp (mt List.mem_cons.mpr h)
    rw [separated, if_neg (Ne.symm hx), ih hrest]

theorem separated_append {α : Type} [DecidableEq α] (c : α) (xs ys : List α) :
    separated c (xs ++ c :: ys) = separated c xs ++ separated c ys := by
  induction xs with
  | nil => simp [separated]
  | cons x rest ih =>
    rw [List.cons_append, separated, separated, ih]
    split
    · rfl
    · obtain ⟨first, others, hs⟩ := List.exists_cons_of_ne_nil (separated_ne_nil c rest)
      rw [hs]
      rfl

/-! ## Names that an entry can have -/

theorem Name.isProper_iff {name : Name} :
    name.isProper = true ↔ name ≠ [] ∧ name.length ≤ Name.maxLength ∧ Path.slash ∉ name ∧
      0 ∉ name ∧ name ≠ Name.dot ∧ name ≠ Name.dotDot := by
  simp [Name.isProper, and_assoc]

namespace Path

/-! ## One name more -/

/-- Joining puts one slash before the name; a slash that ends the directory's path is that slash. -/
theorem join_shape (path : Path) (name : Name) :
    ∃ stem, path.join name = stem ++ slash :: name ∧ (path = stem ∨ path = stem ++ [slash]) := by
  unfold join
  by_cases h : path.endsInSlash = true
  · rw [if_pos h]
    unfold endsInSlash at h
    obtain ⟨stem, rfl⟩ := List.getLast?_eq_some_iff.mp (beq_iff_eq.mp h)
    exact ⟨stem, List.append_cons stem slash name ▸ rfl, Or.inr rfl⟩
  · rw [if_neg h]
    exact ⟨path, rfl, Or.inl rfl⟩

theorem names_append_slash (path rest : Path) :
    names (path ++ slash :: rest) = names path ++ names rest := by
  unfold names
  rw [separated_append, List.filter_append]

theorem names_of_isProper {name : Name} (h : name.isProper = true) : names name = [name] := by
  obtain ⟨hne, _, hslash, _⟩ := Name.isProper_iff.mp h
  unfold names
  rw [separated_of_notMem hslash]
  simp [hne]

/-- **A joined path has one name more.** -/
theorem names_join {name : Name} (path : Path) (h : name.isProper = true) :
    (path.join name).names = path.names ++ [name] := by
  obtain ⟨stem, hjoin, hpath⟩ := join_shape path name
  rw [hjoin, names_append_slash, names_of_isProper h]
  rcases hpath with rfl | rfl
  · rfl
  · have hnil : names ([] : Path) = [] := rfl
    rw [names_append_slash, hnil, List.append_nil]

theorem isAbsolute_join {path : Path} (name : Name) (h : path ≠ []) :
    (path.join name).isAbsolute = path.isAbsolute := by
  obtain ⟨stem, hjoin, hpath⟩ := join_shape path name
  rw [hjoin]
  unfold isAbsolute
  rcases hpath with rfl | rfl
  · obtain ⟨b, rest, rfl⟩ := List.exists_cons_of_ne_nil h
    rfl
  · cases stem <;> rfl

theorem endsInSlash_join {name : Name} (path : Path) (h : name.isProper = true) :
    (path.join name).endsInSlash = false := by
  obtain ⟨hne, _, hslash, _⟩ := Name.isProper_iff.mp h
  obtain ⟨stem, hjoin, _⟩ := join_shape path name
  unfold endsInSlash
  have hlast : name.getLast hne ≠ slash := fun heq => hslash (heq ▸ List.getLast_mem hne)
  rw [hjoin, List.append_cons, List.getLast?_append, List.getLast?_eq_some_getLast hne]
  simpa using hlast

theorem join_ne_nil (path : Path) (name : Name) : path.join name ≠ [] := by
  obtain ⟨stem, hjoin, _⟩ := join_shape path name
  rw [hjoin]
  simp

theorem notMem_join {b : UInt8} {path : Path} {name : Name} (hb : b ≠ slash) (hpath : b ∉ path)
    (hname : b ∉ name) : b ∉ path.join name := by
  obtain ⟨stem, hjoin, hstem⟩ := join_shape path name
  have hnot : b ∉ stem := by
    rcases hstem with rfl | rfl
    · exact hpath
    · exact fun hmem => hpath (List.mem_append_left _ hmem)
  rw [hjoin]
  simp [hnot, hb, hname]

/-! ## Several names more -/

/-- The path of what is reached from `root` through some names, one entry after the other. -/
def through (root : Path) (names : List Name) : Path := names.foldl join root

@[simp] theorem through_nil (root : Path) : root.through [] = root := rfl

theorem through_append (root : Path) (ns ms : List Name) :
    root.through (ns ++ ms) = (root.through ns).through ms := List.foldl_append

theorem through_concat (root : Path) (ns : List Name) (name : Name) :
    root.through (ns ++ [name]) = (root.through ns).join name := through_append root ns [name]

theorem through_ne_nil {root : Path} (ns : List Name) (h : root ≠ []) : root.through ns ≠ [] := by
  induction ns using List.reverseRecOn with
  | nil => exact h
  | append_singleton ns name _ =>
    rw [through_concat]
    exact join_ne_nil _ _

theorem names_through {ns : List Name} (root : Path) (h : ∀ name ∈ ns, name.isProper = true) :
    (root.through ns).names = root.names ++ ns := by
  induction ns using List.reverseRecOn with
  | nil => rw [through_nil, List.append_nil]
  | append_singleton ns name ih =>
    have hinit : ∀ name ∈ ns, name.isProper = true := fun n hn =>
      h n (List.mem_append_left _ hn)
    have hlast : name.isProper = true := h name (by simp)
    rw [through_concat, names_join _ hlast, ih hinit, List.append_assoc]

theorem isAbsolute_through {root : Path} (ns : List Name) (h : root ≠ []) :
    (root.through ns).isAbsolute = root.isAbsolute := by
  induction ns using List.reverseRecOn with
  | nil => rfl
  | append_singleton ns name ih =>
    rw [through_concat, isAbsolute_join _ (through_ne_nil ns h), ih]

theorem notMem_through {b : UInt8} {root : Path} {ns : List Name} (hb : b ≠ slash)
    (hroot : b ∉ root) (hns : ∀ name ∈ ns, b ∉ name) : b ∉ root.through ns := by
  induction ns using List.reverseRecOn with
  | nil => exact hroot
  | append_singleton ns name ih =>
    rw [through_concat]
    exact notMem_join hb (ih fun n hn => hns n (List.mem_append_left _ hn)) (hns name (by simp))

/-- **Different names lead to different paths**, whatever the root's spelling. -/
theorem through_injective {root : Path} {ns ms : List Name}
    (hns : ∀ name ∈ ns, name.isProper = true) (hms : ∀ name ∈ ms, name.isProper = true)
    (h : root.through ns = root.through ms) : ns = ms := by
  have hnames : root.names ++ ns = root.names ++ ms := by
    rw [← names_through root hns, ← names_through root hms, h]
  exact List.append_cancel_left hnames

end Path

end LineTally
