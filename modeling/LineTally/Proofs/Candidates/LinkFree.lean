import LineTally.Proofs.Candidates.Order
import LineTally.Proofs.Candidates.Reached
import LineTally.Proofs.FileTree.Within

/-!
# Candidates in trees without links

Where there are no links there are no loops to look out for, and every entry that matches is
collected, whatever it is. So a way down and a candidate are a matter of listings alone, and a tree
that shows less has **fewer of them and no other ones** (`Within.files_sublist`).

If no directory is closed either, even the listings need not be asked: the directories are where the
names say, one below the other (`descent_iff_places`), and a candidate is an item at the place below
them (`isCandidate_iff_places`).
-/

set_option autoImplicit false

namespace LineTally

namespace FileTree

variable {t t' : FileTree} {suffix : Suffix} {skip : Path → Bool} {root path : Path}
  {names : List Name} {name : Name} {place start : Place} {kind : ItemKind} {content : Bytes}

/-! ## 1. Entries -/

theorem LinkFree.not_hasEntry_link (hfree : t.LinkFree) : ¬ t.HasEntry path ⟨name, .link⟩ := by
  rintro ⟨place, _, he⟩
  obtain ⟨item, hitem, hkind⟩ := mem_entries.mp he
  exact hfree.kind_ne hitem hkind

theorem LinkFree.collected (hfree : t.LinkFree) (h : t.HasEntry path ⟨name, kind⟩) (q : Path) :
    t.Collected root names q kind := by
  cases kind with
  | file => exact .file
  | directory => exact .directory
  | link => exact absurd h hfree.not_hasEntry_link

/-! ## 2. A tree within another one -/

namespace Within

variable (h : t.Within t') (hfree : t'.LinkFree)
include h hfree

theorem hasEntry {e : Entry} (hentry : t.HasEntry path e) : t'.HasEntry path e := by
  obtain ⟨place, hlists, he⟩ := hentry
  exact ⟨place, h.lists hfree hlists, h.entries he⟩

theorem descent (hway : t.Descent skip root names) : t'.Descent skip root names := by
  obtain ⟨⟨place, hlists⟩, hdown⟩ := hway
  refine ⟨⟨place, h.lists hfree hlists⟩, fun i hi => ?_⟩
  obtain ⟨⟨kind, hentry⟩, ⟨next, hnext⟩, hskip, _⟩ := hdown i hi
  exact ⟨⟨kind, h.hasEntry hfree hentry⟩, ⟨next, h.lists hfree hnext⟩, hskip,
    fun hlink => absurd hlink hfree.not_hasEntry_link⟩

theorem isCandidate (hcandidate : t.IsCandidate suffix root names name) :
    t'.IsCandidate suffix root names name := by
  obtain ⟨hway, hmatch, kind, hentry, _⟩ := hcandidate
  have hentry' := h.hasEntry hfree hentry
  exact ⟨h.descent hfree hway, hmatch, kind, hentry', hfree.collected hentry' _⟩

/-- **What shows less has fewer candidates**, in the same order. -/
theorem files_sublist (suffix : Suffix) (root : Path) :
    (t.discover suffix root).files.Sublist (t'.discover suffix root).files := by
  cases hroot : suffix.matchesPath root with
  | true =>
    rw [discover, discover, if_pos hroot, if_pos hroot]
  | false =>
    refine files_sublist_of_subset hroot hroot fun q hq => ?_
    obtain ⟨names, name, rfl, hcandidate⟩ := (mem_files_discover hroot).mp hq
    exact (mem_files_discover hroot).mpr ⟨names, name, rfl, h.isCandidate hfree hcandidate⟩

end Within

/-! ## 3. Open directories -/

/-- Every directory may be listed and searched. Files may be closed. -/
def OpenDirectories (t : FileTree) : Prop :=
  ∀ p ∈ t.items, p.2.kind = .directory → p.2.isOpen = true

theorem OpenDirectories.permissions {permissions : Permissions} (h : t.OpenDirectories)
    (hitem : t.item? place = some (.directory permissions)) :
    permissions.readable = true ∧ permissions.searchable = true :=
  Bool.and_eq_true_iff.mp (h (place, .directory permissions) (item?_eq_some_iff.mp hitem) rfl)

/-- There is a directory at the end of each beginning of some names, also at the end of none. -/
def DirectoriesDown (t : FileTree) (start : Place) (names : List Name) : Prop :=
  ∀ before, before <+: names → t.isDirectoryAt (before.reverse ++ start) = true

/-- No beginning of some names is skipped, unless it has no name. -/
def UnskippedDown (skip : Path → Bool) (root : Path) (names : List Name) : Prop :=
  ∀ before, before <+: names → before ≠ [] → skip (root.through before) = false

theorem directoriesDown_concat : t.DirectoriesDown start (names ++ [name]) ↔
    t.DirectoriesDown start names ∧ t.isDirectoryAt (name :: (names.reverse ++ start)) = true := by
  unfold DirectoriesDown
  simp only [List.prefix_concat_iff, or_imp, forall_and, forall_eq]
  simp [and_comm]

theorem unskippedDown_concat : UnskippedDown skip root (names ++ [name]) ↔
    UnskippedDown skip root names ∧ skip (root.through (names ++ [name])) = false := by
  unfold UnskippedDown
  simp only [List.prefix_concat_iff, or_imp, forall_and, forall_eq]
  simp [and_comm]

/-- Without links the names on a way down are those of the places. -/
theorem Descent.lists_end (hfree : t.LinkFree) (hroot : t.Lists root start)
    (h : t.Descent skip root names) :
    t.Lists (root.through names) (names.reverse ++ start) := by
  induction names using List.reverseRecOn with
  | nil => exact hroot
  | append_singleton names name ih =>
    obtain ⟨hbefore, hstep⟩ := descent_concat.mp h
    have hlists := ih hbefore
    obtain ⟨kind, place, hlists', hentry⟩ := hstep.named
    obtain rfl := hlists.unique hlists'
    obtain ⟨next, hnext⟩ := hstep.listed
    rw [Path.through_concat] at hnext ⊢
    cases kind with
    | file => exact absurd hnext (hlists.not_file hentry)
    | link => exact absurd ⟨_, hlists, hentry⟩ hfree.not_hasEntry_link
    | directory =>
      obtain rfl := hlists.directory_place hentry hnext
      simpa using hnext

theorem lists_join (hopen : t.OpenDirectories) (hlists : t.Lists path place)
    (hdirectory : t.isDirectoryAt (name :: place) = true) :
    t.Lists (path.join name) (name :: place) := by
  obtain ⟨permissions, hitem⟩ := isDirectoryAt_iff.mp hdirectory
  obtain ⟨permissions', _, hhere⟩ := hlists.item
  have hin := enter_of_item hhere (hopen.permissions hhere).2
  have hstatus := find_join_of_item .follow hlists hin (isProper_of_item hitem) hitem
    (by simp [Item.kind])
  exact list_eq_ok_iff.mpr ⟨rfl, permissions, (hopen.permissions hitem).1, hstatus⟩

/-- **A way down is a row of directories**, none of them skipped. -/
theorem descent_iff_places (hfree : t.LinkFree) (hopen : t.OpenDirectories)
    (hroot : t.Lists root start) :
    t.Descent skip root names ↔ t.DirectoriesDown start names ∧ UnskippedDown skip root names := by
  induction names using List.reverseRecOn with
  | nil =>
    obtain ⟨permissions, _, hitem⟩ := hroot.item
    have hdirectory : t.isDirectoryAt start = true := isDirectoryAt_iff.mpr ⟨permissions, hitem⟩
    refine ⟨fun _ => ⟨fun before hbefore => ?_, fun before hbefore hne => ?_⟩,
      fun _ => descent_nil.mpr ⟨start, hroot⟩⟩
    · rw [List.prefix_nil.mp hbefore]
      exact hdirectory
    · exact absurd (List.prefix_nil.mp hbefore) hne
  | append_singleton names name ih =>
    rw [descent_concat, directoriesDown_concat, unskippedDown_concat]
    constructor
    · rintro ⟨hway, hstep⟩
      have hend := (descent_concat.mpr ⟨hway, hstep⟩).lists_end hfree hroot
      obtain ⟨permissions, _, hitem⟩ := hend.item
      obtain ⟨hdirectories, hunskipped⟩ := ih.mp hway
      refine ⟨⟨hdirectories, isDirectoryAt_iff.mpr ⟨permissions, ?_⟩⟩, hunskipped, hstep.unskipped⟩
      simpa using hitem
    · rintro ⟨⟨hdirectories, hdirectory⟩, hunskipped, hskip⟩
      have hway := ih.mpr ⟨hdirectories, hunskipped⟩
      have hlists := hway.lists_end hfree hroot
      obtain ⟨permissions, hitem⟩ := isDirectoryAt_iff.mp hdirectory
      have hentry : t.HasEntry (root.through names) ⟨name, .directory⟩ :=
        ⟨_, hlists, mem_entries.mpr ⟨_, hitem, rfl⟩⟩
      refine ⟨hway, ⟨.directory, hentry⟩, ?_, hskip,
        fun hlink => absurd hlink hfree.not_hasEntry_link⟩
      rw [Path.through_concat]
      exact ⟨_, lists_join hopen hlists hdirectory⟩

/-- **A candidate is an item at the end of such a row**, at a path that matches. -/
theorem isCandidate_iff_places (hfree : t.LinkFree) (hopen : t.OpenDirectories)
    (hroot : t.Lists root start) :
    t.IsCandidate suffix root names name ↔
      t.DirectoriesDown start names ∧ UnskippedDown suffix.matchesPath root names ∧
        suffix.matchesPath (root.through (names ++ [name])) = true ∧
        ∃ item, t.item? (name :: (names.reverse ++ start)) = some item := by
  constructor
  · rintro ⟨hway, hmatch, kind, hentry, _⟩
    obtain ⟨hdirectories, hunskipped⟩ := (descent_iff_places hfree hopen hroot).mp hway
    obtain ⟨place, hlists, he⟩ := hentry
    obtain rfl := hlists.unique (hway.lists_end hfree hroot)
    obtain ⟨item, hitem, _⟩ := mem_entries.mp he
    exact ⟨hdirectories, hunskipped, hmatch, item, hitem⟩
  · rintro ⟨hdirectories, hunskipped, hmatch, item, hitem⟩
    have hway := (descent_iff_places hfree hopen hroot).mpr ⟨hdirectories, hunskipped⟩
    have hentry : t.HasEntry (root.through names) ⟨name, item.kind⟩ :=
      ⟨_, hway.lists_end hfree hroot, mem_entries.mpr ⟨item, hitem, rfl⟩⟩
    exact ⟨hway, hmatch, item.kind, hentry, hfree.collected hentry _⟩

/-- Every candidate can be looked at where no directory is closed. -/
theorem status_of_isCandidate (hfree : t.LinkFree) (hopen : t.OpenDirectories)
    (hroot : t.Lists root start) {item : Item}
    (h : t.IsCandidate suffix root names name)
    (hitem : t.item? (name :: (names.reverse ++ start)) = some item) :
    t.status (root.through (names ++ [name])) =
      .ok ⟨name :: (names.reverse ++ start), item⟩ := by
  have hlists := h.way.lists_end hfree hroot
  obtain ⟨permissions, _, hhere⟩ := hlists.item
  have hin := enter_of_item hhere (hopen.permissions hhere).2
  rw [Path.through_concat]
  exact find_join_of_item .follow hlists hin (isProper_of_item hitem) hitem (hfree.kind_ne hitem)

end FileTree

end LineTally
