import LineTally.Proofs.FileTree.Lexical

/-!
# Trees that show less

One tree is within another one (`FileTree.Within`) if the other has every item that it has, of the
same kind and with the same content, and permits at least as much with it. Without links that is all
it takes for a path to lead at least as far: what is found, listed or read in the smaller tree is so
in the larger one, at the same place (`Within.find`, `Within.lists`, `Within.read`). With links it
takes more, not to find a path but to walk: a link that was broken may come to lead back.

Two changes of a tree are of this kind. A new file puts the tree within the changed one
(`within_put`), and taking permissions away puts the changed tree within the old one
(`masked_within`).
-/

set_option autoImplicit false

namespace LineTally

namespace Permissions

/-- What the one allows, the other allows too. -/
instance : LE Permissions where
  le p q := (p.readable = true → q.readable = true) ∧ (p.searchable = true → q.searchable = true)

/-- What both allow. -/
def meet (p q : Permissions) : Permissions :=
  ⟨p.readable && q.readable, p.searchable && q.searchable⟩

theorem le_refl (p : Permissions) : p ≤ p := ⟨id, id⟩

theorem meet_le (p q : Permissions) : p.meet q ≤ p :=
  ⟨fun h => (Bool.and_eq_true_iff.mp h).1, fun h => (Bool.and_eq_true_iff.mp h).1⟩

end Permissions

namespace Item

/-- The same item, with at least as many permissions. -/
inductive Within : Item → Item → Prop
  | file {p q : Permissions} (content : Bytes) (le : p ≤ q) :
      Within (.file p content) (.file q content)
  | directory {p q : Permissions} (le : p ≤ q) : Within (.directory p) (.directory q)
  | link (target : Path) : Within (.link target) (.link target)

theorem Within.refl (item : Item) : item.Within item := by
  cases item with
  | file permissions content => exact .file content permissions.le_refl
  | directory permissions => exact .directory permissions.le_refl
  | link target => exact .link target

theorem Within.kind_eq {item item' : Item} (h : item.Within item') : item'.kind = item.kind := by
  cases h <;> rfl

/-- An item with no more than some permissions left. A link has none to lose. -/
def masked (mask : Permissions) : Item → Item
  | file permissions content => file (permissions.meet mask) content
  | directory permissions => directory (permissions.meet mask)
  | link target => link target

theorem masked_within (mask : Permissions) (item : Item) : (item.masked mask).Within item := by
  cases item with
  | file permissions content => exact .file content (permissions.meet_le mask)
  | directory permissions => exact .directory (permissions.meet_le mask)
  | link target => exact .link target

end Item

namespace FileTree

/-- **All that one tree has, another one has too**, with at least as many permissions. -/
structure Within (t t' : FileTree) : Prop where
  start : t.workingDirectory = t'.workingDirectory
  item : ∀ {place item}, t.item? place = some item →
    ∃ item', t'.item? place = some item' ∧ item.Within item'

namespace Within

variable {t t' : FileTree} {place : Place} {path : Path} {content : Bytes}

theorem linkFree (h : t.Within t') (hfree : t'.LinkFree) : t.LinkFree := by
  rintro ⟨place, item⟩ hmem
  obtain ⟨item', hitem', hwithin⟩ := h.item (item?_eq_some_iff.mpr hmem)
  rw [← hwithin.kind_eq]
  exact hfree.kind_ne hitem'

theorem directory {permissions : Permissions} (h : t.Within t')
    (hitem : t.item? place = some (.directory permissions)) :
    ∃ permissions', t'.item? place = some (.directory permissions') ∧
      permissions ≤ permissions' := by
  obtain ⟨item', hitem', hwithin⟩ := h.item hitem
  cases hwithin with
  | directory hle => exact ⟨_, hitem', hle⟩

theorem enter (h : t.Within t') (hin : t.enter place = .ok ()) : t'.enter place = .ok () := by
  obtain ⟨permissions, hsearchable, hitem⟩ := item_of_enter hin
  obtain ⟨permissions', hitem', hle⟩ := h.directory hitem
  exact enter_of_item hitem' (hle.2 hsearchable)

theorem isDirectoryAt (h : t.Within t') (hdirectory : t.isDirectoryAt place = true) :
    t'.isDirectoryAt place = true := by
  obtain ⟨permissions, hitem⟩ := isDirectoryAt_iff.mp hdirectory
  obtain ⟨permissions', hitem', _⟩ := h.directory hitem
  exact isDirectoryAt_iff.mpr ⟨permissions', hitem'⟩

/-- **What a path leads to in the smaller tree, it leads to in the larger one.** -/
theorem find {last : LastLink} {found : Found} (h : t.Within t') (hfree : t'.LinkFree)
    (hfound : t.find last path = .ok found) :
    ∃ item', t'.find last path = .ok ⟨found.place, item'⟩ ∧ found.item.Within item' := by
  obtain ⟨hnul, hnil, hplace, hitem, hin, hend⟩ :=
    (h.linkFree hfree).find_eq_ok_iff_lexical.mp hfound
  obtain ⟨item', hitem', hwithin⟩ := h.item hitem
  rw [h.start] at hplace hin
  refine ⟨item', hfree.find_eq_ok_iff_lexical.mpr ⟨hnul, hnil, hplace, hitem', ?_, ?_⟩, hwithin⟩
  · exact fun d hd => h.enter (hin d hd)
  · exact fun hslash => h.isDirectoryAt (hend hslash)

theorem lists (h : t.Within t') (hfree : t'.LinkFree) (hlists : t.Lists path place) :
    t'.Lists path place := by
  obtain ⟨permissions, hreadable, hstatus⟩ := hlists.status
  obtain ⟨item', hstatus', hwithin⟩ := h.find hfree hstatus
  cases hwithin with
  | directory hle => exact list_eq_ok_iff.mpr ⟨rfl, _, hle.1 hreadable, hstatus'⟩

theorem entries {e : Entry} (h : t.Within t') (he : e ∈ t.entries place) :
    e ∈ t'.entries place := by
  obtain ⟨item, hitem, hkind⟩ := mem_entries.mp he
  obtain ⟨item', hitem', hwithin⟩ := h.item hitem
  exact mem_entries.mpr ⟨item', hitem', hwithin.kind_eq.trans hkind⟩

theorem read (h : t.Within t') (hfree : t'.LinkFree) (hread : t.read path = .ok content) :
    t'.read path = .ok content := by
  obtain ⟨place, permissions, hstatus, hreadable⟩ := read_eq_ok_iff.mp hread
  obtain ⟨item', hstatus', hwithin⟩ := h.find hfree hstatus
  cases hwithin with
  | file _ hle => exact read_eq_ok_iff.mpr ⟨place, _, hstatus', hle.1 hreadable⟩

end Within

/-! ## A new item -/

section Put

variable {t : FileTree} {place place' : Place} {item : Item}

theorem item?_put (item : Item) (place' : Place) (h : place.isProper = true) :
    (t.put place item).item? place' = if place' = place then some item else t.item? place' := by
  ext x
  rw [item?_eq_some_iff, put, dif_pos h]
  split
  · next heq =>
    subst heq
    simp [eq_comm]
  · next hne => simp [hne, item?_eq_some_iff]

theorem workingDirectory_put (place : Place) (item : Item) :
    (t.put place item).workingDirectory = t.workingDirectory := by
  unfold put
  split <;> rfl

/-- **Putting something where nothing is leaves everything else as it is.** -/
theorem within_put (item : Item) (hproper : place.isProper = true)
    (hfresh : t.item? place = none) : t.Within (t.put place item) := by
  refine ⟨(workingDirectory_put place item).symm, fun {place' item'} hitem' => ?_⟩
  refine ⟨item', ?_, Item.Within.refl item'⟩
  rw [item?_put item place' hproper, if_neg ?_]
  · exact hitem'
  · rintro rfl
    rw [hfresh] at hitem'
    cases hitem'

end Put

/-! ## Fewer permissions -/

section Masked

variable {t : FileTree} {mask : Place → Permissions} {place : Place}

/-- **A tree in which some permissions have been taken away.** Each file and directory keeps those
of its own that are in the mask. -/
def masked (t : FileTree) (mask : Place → Permissions) : FileTree :=
  t.mapItems fun place item => item.masked (mask place)

theorem item?_masked :
    (t.masked mask).item? place = (t.item? place).map (Item.masked (mask place)) :=
  item?_mapItems

/-- **Taking permissions away shows nothing new.** -/
theorem masked_within (t : FileTree) (mask : Place → Permissions) : (t.masked mask).Within t := by
  refine ⟨rfl, fun {place item} hitem => ?_⟩
  rw [item?_masked, Option.map_eq_some_iff] at hitem
  obtain ⟨item, hitem, rfl⟩ := hitem
  exact ⟨item, hitem, item.masked_within _⟩

end Masked

end FileTree

end LineTally
