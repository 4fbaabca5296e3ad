import LineTally.Proofs.Candidates.LinkFree
import LineTally.Proofs.Survey.Outcomes

/-!
# Fewer permissions, smaller numbers

What may not be read is left out, and nothing else happens: a run never fails for want of a
permission. So in a tree without links, taking permissions away can only make a run find less
(`tally_masked`). It may well make it keep other files. If the first of two copies can no longer be
read, the second one stands for their content, and the content is counted as before.

What a candidate needs is told by its path. The ancestors of the path, which are the directories
that its proper beginnings lead to (`FileTree.properAncestors`), have to be searched and, from the
root on, listed. As long as they keep what permissions they have, the candidate stays, and its
content is counted if the file itself can still be read. These are the directories that hold the
file; only a path that goes up, like `x/../a/F`, has others among its ancestors, and it cannot do
without `x`.
-/

set_option autoImplicit false

namespace LineTally

namespace FileTree

/-- **The proper ancestors of a path**: where its proper beginnings lead, if there are no links. In
these directories its names are looked up. -/
def properAncestors (t : FileTree) (path : Path) : List Place :=
  Place.stations (origin t.workingDirectory path) path.names

variable {t : FileTree} {mask : Place → Permissions} {suffix : Suffix} {skip : Path → Bool}
  {root path : Path} {names : List Name} {name : Name} {place : Place} {content : Bytes}

/-! ## 1. Paths whose directories keep their permissions -/

/-- One more name is looked up in the directory that was reached. -/
theorem properAncestors_join (hfree : t.LinkFree) (hlists : t.Lists path place)
    (hproper : name.isProper = true) :
    t.properAncestors (path.join name) = t.properAncestors path ++ [place] := by
  obtain ⟨_, _, hstatus⟩ := hlists.status
  obtain ⟨_, hne, hplace, _⟩ := hfree.find_eq_ok_iff_lexical.mp hstatus
  have horigin : origin t.workingDirectory (path.join name) = origin t.workingDirectory path :=
    origin_through t.workingDirectory [name] hne
  dsimp only at hplace
  rw [properAncestors, horigin, Path.names_join path hproper, Place.stations_append, ← hplace]
  rfl

theorem enter_masked (hin : t.enter place = .ok ())
    (hkept : (t.masked mask).item? place = t.item? place) :
    (t.masked mask).enter place = .ok () := by
  unfold enter
  rw [hkept]
  exact hin

/-- **A path still leads to what it led to**, with what permissions are left there. -/
theorem find_masked {last : LastLink} {found : Found} (hfree : t.LinkFree)
    (h : t.find last path = .ok found)
    (hkept : ∀ d ∈ t.properAncestors path, (t.masked mask).item? d = t.item? d) :
    (t.masked mask).find last path =
      .ok ⟨found.place, found.item.masked (mask found.place)⟩ := by
  obtain ⟨hnul, hnil, hplace, hitem, hin, hend⟩ := hfree.find_eq_ok_iff_lexical.mp h
  have hfree' : (t.masked mask).LinkFree := (masked_within t mask).linkFree hfree
  have hitem' : (t.masked mask).item? found.place =
      some (found.item.masked (mask found.place)) := by
    rw [item?_masked, hitem]
    rfl
  refine hfree'.find_eq_ok_iff_lexical.mpr ⟨hnul, hnil, hplace, hitem', ?_, fun hslash => ?_⟩
  · exact fun d hd => enter_masked (hin d hd) (hkept d hd)
  · obtain ⟨permissions, hdirectory⟩ := isDirectoryAt_iff.mp (hend hslash)
    rw [hitem] at hdirectory
    rw [isDirectoryAt_iff, hitem', Option.some.inj hdirectory]
    exact ⟨_, rfl⟩

theorem lists_masked (hfree : t.LinkFree) (hlists : t.Lists path place)
    (hproper : name.isProper = true)
    (hkept : ∀ d ∈ t.properAncestors (path.join name), (t.masked mask).item? d = t.item? d) :
    (t.masked mask).Lists path place := by
  rw [properAncestors_join hfree hlists hproper] at hkept
  obtain ⟨permissions, hreadable, hstatus⟩ := hlists.status
  have hitem := (find_eq_ok_iff.mp hstatus).2.2.2
  have hsame : (Item.directory permissions).masked (mask place) = .directory permissions := by
    have hmasked := hkept place (by simp)
    rw [item?_masked, hitem] at hmasked
    exact Option.some.inj hmasked
  have hstatus' : (t.masked mask).status path =
      .ok ⟨place, (Item.directory permissions).masked (mask place)⟩ :=
    find_masked hfree hstatus fun d hd => hkept d (List.mem_append_left _ hd)
  rw [hsame] at hstatus'
  exact list_eq_ok_iff.mpr ⟨rfl, permissions, hreadable, hstatus'⟩

theorem mem_entries_masked {e : Entry} (he : e ∈ t.entries place) :
    e ∈ (t.masked mask).entries place := by
  obtain ⟨item, hitem, hkind⟩ := mem_entries.mp he
  refine mem_entries.mpr ⟨item.masked (mask (e.name :: place)), ?_, ?_⟩
  · rw [item?_masked, hitem]
    rfl
  · rw [← hkind, (item.masked_within _).kind_eq]

/-! ## 2. Candidates that stay -/

theorem Descent.masked (hfree : t.LinkFree) (h : t.Descent skip root names)
    (hproper : name.isProper = true)
    (hkept : ∀ d ∈ t.properAncestors ((root.through names).join name),
      (t.masked mask).item? d = t.item? d) :
    (t.masked mask).Descent skip root names := by
  induction names using List.reverseRecOn generalizing name with
  | nil =>
    obtain ⟨place, hlists⟩ := h.listed
    exact descent_nil.mpr ⟨place, lists_masked hfree hlists hproper hkept⟩
  | append_singleton names last ih =>
    obtain ⟨hbefore, hstep⟩ := descent_concat.mp h
    obtain ⟨kind, place, hlists, hentry⟩ := hstep.named
    obtain ⟨next, hnext⟩ := hstep.listed
    have hlast := isProper_of_mem_entries hentry
    have hbelow : (t.masked mask).Lists (root.through (names ++ [last])) next :=
      lists_masked hfree hnext hproper hkept
    -- The ancestors of a directory are ancestors of what is in it.
    rw [properAncestors_join hfree hnext hproper, Path.through_concat] at hkept
    have hkept' := fun d hd => hkept d (List.mem_append_left [next] hd)
    have hhere : (t.masked mask).Lists (root.through names) place :=
      lists_masked hfree hlists hlast hkept'
    have hfree' : (t.masked mask).LinkFree := (masked_within t mask).linkFree hfree
    exact descent_concat.mpr ⟨ih hbefore hlast hkept',
      ⟨kind, place, hhere, mem_entries_masked hentry⟩, ⟨next, hbelow⟩, hstep.unskipped,
      fun hlink => absurd hlink hfree'.not_hasEntry_link⟩

/-- **A candidate stays** when its proper ancestors keep their permissions. -/
theorem mem_files_masked (hfree : t.LinkFree) {q : Path} (hq : q ∈ (t.discover suffix root).files)
    (hkept : ∀ d ∈ t.properAncestors q, (t.masked mask).item? d = t.item? d) :
    q ∈ ((t.masked mask).discover suffix root).files := by
  cases hroot : suffix.matchesPath root with
  | true =>
    rw [discover, if_pos hroot] at hq ⊢
    exact hq
  | false =>
    obtain ⟨names, name, rfl, hway, hmatch, kind, hentry, _⟩ := (mem_files_discover hroot).mp hq
    obtain ⟨place, hlists, he⟩ := hentry
    have hproper := isProper_of_mem_entries he
    rw [Path.through_concat] at hkept
    have hlists' : (t.masked mask).Lists (root.through names) place :=
      lists_masked hfree hlists hproper hkept
    have hentry' : (t.masked mask).HasEntry (root.through names) ⟨name, kind⟩ :=
      ⟨place, hlists', mem_entries_masked he⟩
    have hfree' : (t.masked mask).LinkFree := (masked_within t mask).linkFree hfree
    exact (mem_files_discover hroot).mpr ⟨names, name, rfl, hway.masked hfree hproper hkept, hmatch,
      kind, hentry', hfree'.collected hentry' _⟩

/-! ## 3. Contents -/

/-- In a tree that shows less no other contents are read. -/
theorem Within.contentsRead_subset {t' : FileTree} (h : t.Within t') (hfree : t'.LinkFree)
    (suffix : Suffix) (root : Path) :
    t.contentsRead (t.discover suffix root).files ⊆
      t'.contentsRead (t'.discover suffix root).files := by
  intro content hcontent
  obtain ⟨q, hq, hread⟩ := mem_contentsRead.mp hcontent
  exact mem_contentsRead.mpr
    ⟨q, (h.files_sublist hfree suffix root).subset hq, h.read hfree hread⟩

/-- The lines of some contents are no more than those of all. -/
theorem lines_le {some all : Finset Bytes} (h : some ⊆ all) :
    (∑ c ∈ some, Counts.ofContent c).blanks ≤ (∑ c ∈ all, Counts.ofContent c).blanks ∧
    (∑ c ∈ some, Counts.ofContent c).comments ≤ (∑ c ∈ all, Counts.ofContent c).comments ∧
    (∑ c ∈ some, Counts.ofContent c).code ≤ (∑ c ∈ all, Counts.ofContent c).code := by
  rw [← Finset.sum_sdiff h, Counts.add_eq]
  exact ⟨Nat.le_add_left _ _, Nat.le_add_left _ _, Nat.le_add_left _ _⟩

/-- **Taking permissions away only leaves things out.** In a tree without links, with any of the
permissions of its files and directories taken away, a run finds a part of what it found, in the
same order, and none of its numbers is larger. A candidate all of whose proper ancestors keep their
permissions is still found, and if it is a file that can still be read, its content is among the
contents that are counted. Fingerprints are taken to tell the contents of the first run apart. -/
theorem tally_masked (t : FileTree) (mask : Place → Permissions) (suffix : Suffix) (root : Path)
    (hfree : t.LinkFree) (htold : t.ToldApart (t.discover suffix root).files) :
    ((t.masked mask).discover suffix root).files.Sublist (t.discover suffix root).files ∧
    ((t.masked mask).tally suffix root).found ≤ (t.tally suffix root).found ∧
    ((t.masked mask).tally suffix root).distinct ≤ (t.tally suffix root).distinct ∧
    ((t.masked mask).tally suffix root).lines.blanks ≤ (t.tally suffix root).lines.blanks ∧
    ((t.masked mask).tally suffix root).lines.comments ≤ (t.tally suffix root).lines.comments ∧
    ((t.masked mask).tally suffix root).lines.code ≤ (t.tally suffix root).lines.code ∧
    (t.masked mask).tally suffix root =
      ⟨((t.masked mask).discover suffix root).files.length,
        ((t.masked mask).contentsRead ((t.masked mask).discover suffix root).files).card,
        ∑ content ∈ (t.masked mask).contentsRead ((t.masked mask).discover suffix root).files,
          Counts.ofText (Utf8.decodeLossy content)⟩ ∧
    ∀ q ∈ (t.discover suffix root).files,
      (∀ d ∈ t.properAncestors q, (t.masked mask).item? d = t.item? d) →
        q ∈ ((t.masked mask).discover suffix root).files ∧
        ∀ place permissions content, t.status q = .ok ⟨place, .file permissions content⟩ →
          (permissions.meet (mask place)).readable = true →
            content ∈ (t.masked mask).contentsRead
              ((t.masked mask).discover suffix root).files := by
  have hwithin := masked_within t mask
  have hsublist := hwithin.files_sublist hfree suffix root
  have hcontents := hwithin.contentsRead_subset hfree suffix root
  have htold' : (t.masked mask).ToldApart ((t.masked mask).discover suffix root).files :=
    fun a ha b hb => htold a (hcontents ha) b (hcontents hb)
  have htally := tally_eq_sum htold
  have htally' := tally_eq_sum htold'
  obtain ⟨hblanks, hcomments, hcode⟩ := lines_le hcontents
  rw [htally, htally']
  refine ⟨hsublist, hsublist.length_le, Finset.card_le_card hcontents, hblanks, hcomments, hcode,
    rfl, fun q hq hkept => ?_⟩
  have hq' := mem_files_masked hfree hq hkept
  refine ⟨hq', fun place permissions content hstatus hreadable => ?_⟩
  have hstatus' := find_masked hfree hstatus hkept
  exact mem_contentsRead.mpr ⟨q, hq', read_eq_ok_iff.mpr ⟨place, _, hstatus', hreadable⟩⟩

/-- All permissions but that to read `B.java`. -/
def withheld (place : Place) : Permissions :=
  if place = [.ofText "B.java"] then ⟨false, true⟩ else ⟨true, true⟩

/-- The copy takes over from the file that can no longer be read, and the numbers stay. -/
theorem tally_masked_copied :
    copied.LinkFree ∧ copied.ToldApart (copied.discover .standard Name.dot).files ∧
      copied.representatives .standard Name.dot = [.ofText "./A.java", .ofText "./B.java"] ∧
      (copied.masked withheld).representatives .standard Name.dot =
        [.ofText "./A.java", .ofText "./C.java"] ∧
      ((copied.masked withheld).tally .standard Name.dot).distinct ≤
        (copied.tally .standard Name.dot).distinct ∧
      Bytes.ofText "./C.java" ∈ ((copied.masked withheld).discover .standard Name.dot).files ∧
      Bytes.ofText "int b;\n" ∈ (copied.masked withheld).contentsRead
        ((copied.masked withheld).discover .standard Name.dot).files := by
  have hfree : copied.LinkFree := by
    unfold LinkFree
    decide
  have htold : copied.ToldApart (copied.discover .standard Name.dot).files := by
    unfold ToldApart
    decide +kernel
  obtain ⟨_, _, hdistinct, _, _, _, _, hstay⟩ :=
    tally_masked copied withheld .standard Name.dot hfree htold
  obtain ⟨hmem, hread⟩ := hstay (.ofText "./C.java") (by decide) (by decide)
  refine ⟨hfree, htold, by decide +kernel, by decide +kernel, hdistinct, hmem, ?_⟩
  exact hread [.ofText "C.java"] .newFile (.ofText "int b;\n") rfl (by decide)

end FileTree

end LineTally
