import LineTally.Proofs.FileTree.Finding
import Mathlib.Data.List.Perm.Basic
import Mathlib.Data.List.Sort

/-!
# Trees that differ in contents only

Nothing that is asked of a tree on the way to a file looks into a file. Two trees are **alike**
(`FileTree.Alike`) if they have the same items at the same places, with the same permissions and
the same targets of links, and any bytes in their files. Every question has the same answer in both
then: what a path leads to (`Alike.find_cases`), what a listing says (`Alike.list_eq`), how far a
walk can get (`Alike.walkDepth`'s two factors), and whether a file can be read, and if not, why not
(`Alike.read_cases`). Only the content that reading gives is left open.
-/

set_option autoImplicit false

namespace LineTally

namespace Item

/-- The same item, but for the content of a file. -/
inductive Alike : Item → Item → Prop
  | file (permissions : Permissions) (content content' : Bytes) :
      Alike (.file permissions content) (.file permissions content')
  | directory (permissions : Permissions) : Alike (.directory permissions) (.directory permissions)
  | link (target : Path) : Alike (.link target) (.link target)

theorem Alike.refl (item : Item) : item.Alike item := by
  cases item with
  | file permissions content => exact .file permissions content content
  | directory permissions => exact .directory permissions
  | link target => exact .link target

/-- An item with another content, if it is a file. -/
def withContent (content : Bytes) : Item → Item
  | file permissions _ => file permissions content
  | directory permissions => directory permissions
  | link target => link target

theorem alike_withContent (content : Bytes) (item : Item) :
    item.Alike (item.withContent content) := by
  cases item with
  | file permissions content' => exact .file permissions content' content
  | directory permissions => exact .directory permissions
  | link target => exact .link target

theorem Alike.kind_eq {item item' : Item} (h : item.Alike item') : item'.kind = item.kind := by
  cases h <;> rfl

end Item

namespace FileTree

/-- A listing is known when its entries are. -/
theorem entries_eq_of_mem_iff {t t' : FileTree} {place place' : Place}
    (h : ∀ e, e ∈ t.entries place ↔ e ∈ t'.entries place') :
    t.entries place = t'.entries place' := by
  have hirrefl : Std.Irrefl fun a b : Entry => a.name < b.name := ⟨fun a => List.lt_irrefl a.name⟩
  have hantisymm : Std.Antisymm fun a b : Entry => a.name < b.name :=
    ⟨fun _ _ hab hba => absurd hba (List.lt_asymm hab)⟩
  exact (t.entries_sorted place).eq_of_mem_iff (t'.entries_sorted place') h

/-- **Trees that have all in common but the contents of files.** -/
structure Alike (t t' : FileTree) : Prop where
  start : t.workingDirectory = t'.workingDirectory
  item : ∀ place, Option.Rel Item.Alike (t.item? place) (t'.item? place)

namespace Alike

variable {t t' : FileTree} {place : Place} {path : Path}

/-! ## 1. Items -/

theorem item_cases (h : t.Alike t') (place : Place) :
    (t.item? place = none ∧ t'.item? place = none) ∨
      ∃ item item', t.item? place = some item ∧ t'.item? place = some item' ∧
        item.Alike item' := by
  have hitem := h.item place
  cases hhere : t.item? place with
  | none =>
    rw [hhere] at hitem
    cases hthere : t'.item? place with
    | none => exact Or.inl ⟨rfl, rfl⟩
    | some item' =>
      rw [hthere] at hitem
      cases hitem
  | some item =>
    rw [hhere] at hitem
    cases hthere : t'.item? place with
    | none =>
      rw [hthere] at hitem
      cases hitem
    | some item' =>
      rw [hthere] at hitem
      cases hitem with
      | some halike => exact Or.inr ⟨item, item', rfl, rfl, halike⟩

theorem isDirectoryAt_eq (h : t.Alike t') (place : Place) :
    t'.isDirectoryAt place = t.isDirectoryAt place := by
  unfold isDirectoryAt
  rcases h.item_cases place with ⟨hnone, hnone'⟩ | ⟨item, item', hitem, hitem', halike⟩
  · rw [hnone, hnone']
  · rw [hitem, hitem', Option.any_some, Option.any_some, halike.kind_eq]

theorem enter_eq (h : t.Alike t') (place : Place) : t'.enter place = t.enter place := by
  unfold enter
  rcases h.item_cases place with ⟨hnone, hnone'⟩ | ⟨item, item', hitem, hitem', halike⟩
  · rw [hnone, hnone']
  · rw [hitem, hitem']
    cases halike <;> rfl

/-! ## 2. Paths -/

theorem advance_eq (h : t.Alike t') (last : LastLink)
    (onLink : Place → Path → List Name → Bool → Except AccessError Place) (place : Place)
    (names : List Name) (slashed : Bool) :
    t'.advance last onLink place names slashed = t.advance last onLink place names slashed := by
  induction names generalizing place with
  | nil => rw [advance, advance, h.isDirectoryAt_eq]
  | cons name rest ih =>
    rw [advance, advance, h.enter_eq]
    simp only [ih]
    rcases h.item_cases (name :: place) with ⟨hnone, hnone'⟩ | ⟨item, item', hitem, hitem', halike⟩
    · rw [hnone, hnone']
    · rw [hitem, hitem']
      cases halike <;> rfl

theorem resolve_eq (h : t.Alike t') (last : LastLink) (links : Nat) :
    t'.resolve last links = t.resolve last links := by
  induction links with
  | zero =>
    funext place names slashed
    exact h.advance_eq last _ place names slashed
  | succ links ih =>
    funext place names slashed
    rw [resolve, resolve, ih]
    exact h.advance_eq last _ place names slashed

/-- **A path leads to the same place**, if anywhere, and else nowhere for the same reason. -/
theorem find_cases (h : t.Alike t') (last : LastLink) (path : Path) :
    (∃ cause, t.find last path = .error cause ∧ t'.find last path = .error cause) ∨
      ∃ place item item', t.find last path = .ok ⟨place, item⟩ ∧
        t'.find last path = .ok ⟨place, item'⟩ ∧ item.Alike item' := by
  unfold find
  rw [← h.start, h.resolve_eq]
  split
  · exact Or.inl ⟨_, rfl, rfl⟩
  split
  · exact Or.inl ⟨_, rfl, rfl⟩
  cases t.resolve last maxLinks (origin t.workingDirectory path) path.names path.endsInSlash with
  | error cause => exact Or.inl ⟨cause, rfl, rfl⟩
  | ok place =>
    dsimp only
    rcases h.item_cases place with ⟨hnone, hnone'⟩ | ⟨item, item', hitem, hitem', halike⟩
    · rw [hnone, hnone']
      exact Or.inl ⟨_, rfl, rfl⟩
    · rw [hitem, hitem']
      exact Or.inr ⟨place, item, item', rfl, rfl, halike⟩

/-- **A file can be read in both trees or in neither**, and then for the same reason. -/
theorem read_cases (h : t.Alike t') (path : Path) :
    (∃ cause, t.read path = .error cause ∧ t'.read path = .error cause) ∨
      ∃ content content', t.read path = .ok content ∧ t'.read path = .ok content' := by
  unfold read status
  rcases h.find_cases .follow path with
    ⟨cause, herror, herror'⟩ | ⟨place, item, item', hfound, hfound', halike⟩
  · rw [herror, herror']
    exact Or.inl ⟨cause, rfl, rfl⟩
  rw [hfound, hfound']
  cases halike with
  | file permissions content content' =>
    cases hreadable : permissions.readable with
    | true => exact Or.inr ⟨content, content', if_pos hreadable, if_pos hreadable⟩
    | false =>
      have hclosed : ¬ permissions.readable = true := by simp [hreadable]
      exact Or.inl ⟨_, if_neg hclosed, if_neg hclosed⟩
  | directory permissions => exact Or.inl ⟨_, rfl, rfl⟩
  | link target => exact Or.inl ⟨_, rfl, rfl⟩

/-! ## 3. Listings -/

theorem mem_entries_iff (h : t.Alike t') {e : Entry} :
    e ∈ t'.entries place ↔ e ∈ t.entries place := by
  rw [mem_entries, mem_entries]
  rcases h.item_cases (e.name :: place) with
    ⟨hnone, hnone'⟩ | ⟨item, item', hitem, hitem', halike⟩
  · rw [hnone, hnone']
  · simp [hitem, hitem', halike.kind_eq]

theorem entries_eq (h : t.Alike t') (place : Place) : t'.entries place = t.entries place :=
  entries_eq_of_mem_iff fun _ => h.mem_entries_iff

theorem list_eq (h : t.Alike t') (path : Path) : t'.list path = t.list path := by
  unfold list status
  rcases h.find_cases .follow path with
    ⟨cause, herror, herror'⟩ | ⟨place, item, item', hfound, hfound', halike⟩
  · rw [herror, herror']
  · rw [hfound, hfound']
    cases halike with
    | file permissions content content' => rfl
    | directory permissions =>
      dsimp only
      rw [h.entries_eq]
    | link target => rfl

/-! ## 4. The size of the tree -/

end Alike

/-- What is where in a tree, by kinds. -/
def outline (t : FileTree) : List (Place × ItemKind) :=
  t.items.map fun (place, item) => (place, item.kind)

theorem mem_outline {t : FileTree} {place : Place} {kind : ItemKind} :
    (place, kind) ∈ t.outline ↔ ∃ item, t.item? place = some item ∧ item.kind = kind := by
  simp [outline, item?_eq_some_iff]

theorem nodup_outline (t : FileTree) : t.outline.Nodup := by
  have hplaces : (t.outline.map Prod.fst).Nodup := by
    rw [outline, List.map_map]
    exact t.distinct
  exact hplaces.of_map _

theorem directoryCount_eq_outline (t : FileTree) :
    t.directoryCount = t.outline.countP fun p => p.2 = .directory := by
  rw [outline, List.countP_map]
  rfl

theorem height_eq_outline (t : FileTree) :
    t.height = (t.outline.map fun p => p.1.length).foldl max 0 := by
  rw [outline, List.map_map, List.foldl_map]
  rfl

namespace Alike

variable {t t' : FileTree}

theorem outline_perm (h : t.Alike t') : t'.outline.Perm t.outline := by
  rw [List.perm_ext_iff_of_nodup t'.nodup_outline t.nodup_outline]
  rintro ⟨place, kind⟩
  rw [mem_outline, mem_outline]
  rcases h.item_cases place with ⟨hnone, hnone'⟩ | ⟨item, item', hitem, hitem', halike⟩
  · rw [hnone, hnone']
  · simp [hitem, hitem', halike.kind_eq]

theorem directoryCount_eq (h : t.Alike t') : t'.directoryCount = t.directoryCount := by
  rw [directoryCount_eq_outline, directoryCount_eq_outline, h.outline_perm.countP_eq]

theorem height_eq (h : t.Alike t') : t'.height = t.height := by
  rw [height_eq_outline, height_eq_outline]
  exact (h.outline_perm.map _).foldl_eq 0

end Alike

/-! ## 5. Writing into files -/

/-- **A tree in which other bytes have been written into files**, where there are any to write. -/
def rewritten (t : FileTree) (contents : Place → Option Bytes) : FileTree :=
  t.mapItems fun place item => ((contents place).map item.withContent).getD item

/-- **Whatever is written into files, the tree is alike.** -/
theorem alike_rewritten (t : FileTree) (contents : Place → Option Bytes) :
    t.Alike (t.rewritten contents) := by
  refine ⟨rfl, fun place => ?_⟩
  rw [rewritten, item?_mapItems]
  cases t.item? place with
  | none => exact .none
  | some item =>
    cases contents place with
    | none => exact .some (Item.Alike.refl item)
    | some content => exact .some (item.alike_withContent content)

end FileTree

end LineTally
