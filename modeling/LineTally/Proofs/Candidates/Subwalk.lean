import LineTally.Proofs.Candidates.Lost
import LineTally.Proofs.Candidates.Order
import LineTally.Proofs.Candidates.Reached

/-!
# What a walk does below one of its directories

A walk that comes to a directory `c` goes on there as a walk from `c` would, but for one thing: it
is inside more directories. Besides those from `c` on there are the ones on its way to `c`, and a
link below `c` that leads to one of them is a loop for it and is none for the walk from `c`. So a
way down from the root is cut at `c` into two ways down **and the condition that no such link is on
the second** (`descent_append`), and so is a candidate (`isCandidate_append`).

With the order of the candidates, which keeps what is below `c` together, this says what a walk has
to do with those it contains (`files_below`).
-/

set_option autoImplicit false

namespace LineTally

/-- A path lies below another one: it is what a walk from there makes for some entry. -/
def Path.Below (c q : Path) : Prop :=
  ∃ ns, ns ≠ [] ∧ (∀ n ∈ ns, n.isProper = true) ∧ q = c.through ns

namespace FileTree

/-- **A link back to the way to a directory**: the name is that of a link in the directory at a
path, and the link leads to one of the directories from the root down through some names, except the
last of them. -/
structure LinksBack (t : FileTree) (root : Path) (names : List Name) (path : Path) (name : Name) :
    Prop where
  entry : t.HasEntry path ⟨name, .link⟩
  back : ∃ j < names.length, t.SameDirectory (path.join name) (root.through (names.take j))

/-- No name of a path below a directory is that of a link back to the way to it. -/
def NoneBack (t : FileTree) (root : Path) (names ns : List Name) : Prop :=
  ∀ before name, before ++ [name] <+: ns →
    ¬ t.LinksBack root names ((root.through names).through before) name

/-- **A path below a directory passes through a link back to the way to it**, or ends at one. -/
def PassesBack (t : FileTree) (root : Path) (names : List Name) (q : Path) : Prop :=
  ∃ before name rest, (∀ n ∈ before ++ name :: rest, n.isProper = true) ∧
    q = (root.through names).through (before ++ name :: rest) ∧
    t.LinksBack root names ((root.through names).through before) name

variable {t : FileTree} {suffix : Suffix} {skip : Path → Bool} {root path c q : Path}
  {names ns : List Name} {name : Name} {kind : ItemKind}

/-! ## 1. A way down, cut in two -/

theorem noneBack_nil : t.NoneBack root names [] := by
  intro before name h
  exact absurd (List.prefix_nil.mp h) (by simp)

theorem noneBack_concat : t.NoneBack root names (ns ++ [name]) ↔
    t.NoneBack root names ns ∧ ¬ t.LinksBack root names ((root.through names).through ns) name := by
  unfold NoneBack
  simp only [List.prefix_concat_iff]
  constructor
  · intro h
    exact ⟨fun before n hn => h before n (Or.inr hn), h ns name (Or.inl rfl)⟩
  · rintro ⟨hns, hname⟩ before n (heq | hn)
    · obtain ⟨rfl, hlast⟩ := List.append_inj' heq rfl
      cases hlast
      exact hname
    · exact hns before n hn

/-- The directories on a way are those on its first part, without the last, and those on its second
part. -/
theorem unlooped_append : (∀ j ≤ (names ++ ns).length,
      ¬ t.SameDirectory q (root.through ((names ++ ns).take j))) ↔
    (∀ j < names.length, ¬ t.SameDirectory q (root.through (names.take j))) ∧
      ∀ j ≤ ns.length, ¬ t.SameDirectory q ((root.through names).through (ns.take j)) := by
  constructor
  · intro h
    refine ⟨fun j hj => ?_, fun j hj => ?_⟩
    · have hfirst := h j (by rw [List.length_append]; omega)
      rwa [List.take_append_of_le_length (Nat.le_of_lt hj)] at hfirst
    · have hsecond := h (names.length + j) (by rw [List.length_append]; omega)
      rwa [List.take_length_add_append, Path.through_append] at hsecond
  · rintro ⟨hfirst, hsecond⟩ j hj
    rw [List.length_append] at hj
    rcases Nat.lt_or_ge j names.length with hlt | hge
    · rw [List.take_append_of_le_length (Nat.le_of_lt hlt)]
      exact hfirst j hlt
    · obtain ⟨i, rfl⟩ := Nat.exists_eq_add_of_le hge
      rw [List.take_length_add_append, Path.through_append]
      exact hsecond i (by omega)

theorem not_linksBack_iff : ¬ t.LinksBack root names path name ↔
    (t.HasEntry path ⟨name, .link⟩ →
      ∀ j < names.length, ¬ t.SameDirectory (path.join name) (root.through (names.take j))) := by
  constructor
  · intro h hentry j hj hsame
    exact h ⟨hentry, j, hj, hsame⟩
  · rintro h ⟨hentry, j, hj, hsame⟩
    exact h hentry j hj hsame

/-- **A step is taken from the root when it is taken from the directory**, and is no link back. -/
theorem stepDown_append : t.StepDown skip root (names ++ ns) name ↔
    t.StepDown skip (root.through names) ns name ∧
      ¬ t.LinksBack root names ((root.through names).through ns) name := by
  have hpath : root.through (names ++ ns ++ [name]) =
      (root.through names).through (ns ++ [name]) := by
    rw [List.append_assoc, Path.through_append]
  rw [not_linksBack_iff]
  constructor
  · rintro ⟨hnamed, hlisted, hskip, hloop⟩
    rw [hpath] at hlisted hskip hloop
    rw [Path.through_append] at hnamed hloop
    refine ⟨⟨hnamed, hlisted, hskip, fun hlink => (unlooped_append.mp (hloop hlink)).2⟩,
      fun hlink => ?_⟩
    rw [← Path.through_concat]
    exact (unlooped_append.mp (hloop hlink)).1
  · rintro ⟨⟨hnamed, hlisted, hskip, hloop⟩, hback⟩
    refine ⟨?_, ?_, ?_, ?_⟩
    · rwa [Path.through_append]
    · rwa [hpath]
    · rwa [hpath]
    · rw [hpath, Path.through_append]
      intro hlink
      rw [← Path.through_concat] at hback
      exact unlooped_append.mpr ⟨hback hlink, hloop hlink⟩

/-- **A way down is cut at a directory on it** into two, with no link back on the second. -/
theorem descent_append : t.Descent skip root (names ++ ns) ↔
    t.Descent skip root names ∧ t.Descent skip (root.through names) ns ∧
      t.NoneBack root names ns := by
  induction ns using List.reverseRecOn with
  | nil =>
    rw [List.append_nil]
    refine ⟨fun h => ⟨h, descent_nil.mpr h.end_listed, noneBack_nil⟩, And.left⟩
  | append_singleton ns name ih =>
    rw [← List.append_assoc, descent_concat, descent_concat, ih, stepDown_append, noneBack_concat]
    constructor
    · rintro ⟨⟨hway, hrest, hnone⟩, hstep, hlast⟩
      exact ⟨hway, ⟨hrest, hstep⟩, hnone, hlast⟩
    · rintro ⟨hway, ⟨hrest, hstep⟩, hnone, hlast⟩
      exact ⟨⟨hway, hrest, hnone⟩, hstep, hlast⟩

theorem Descent.of_prefix (h : t.Descent skip root names) (hbegins : ns <+: names) :
    t.Descent skip root ns := by
  obtain ⟨rest, rfl⟩ := hbegins
  exact (descent_append.mp h).1

/-! ## 2. A candidate, cut in two -/

/-- What is collected from the root is collected from the directory, unless it links back. -/
theorem collected_append : t.Collected root (names ++ ns) q kind ↔
    t.Collected (root.through names) ns q kind ∧ (kind = .link →
      ∀ j < names.length, ¬ t.SameDirectory q (root.through (names.take j))) := by
  constructor
  · intro h
    cases h with
    | file => exact ⟨.file, nofun⟩
    | directory => exact ⟨.directory, nofun⟩
    | linkToItem hstatus hkind =>
      refine ⟨.linkToItem hstatus hkind, fun _ j _ => ?_⟩
      rintro ⟨place, hlists, _⟩
      obtain ⟨permissions, _, hstatus'⟩ := hlists.status
      rw [hstatus] at hstatus'
      cases hstatus'
      exact hkind rfl
    | linkToDirectory hlists hloop =>
      obtain ⟨hfirst, hsecond⟩ := unlooped_append.mp hloop
      exact ⟨.linkToDirectory hlists hsecond, fun _ => hfirst⟩
    | linkToNothing hstatus hkept =>
      refine ⟨.linkToNothing hstatus hkept, fun _ j _ => ?_⟩
      rintro ⟨place, hlists, _⟩
      obtain ⟨permissions, _, hstatus'⟩ := hlists.status
      rw [hstatus] at hstatus'
      cases hstatus'
  · rintro ⟨h, hback⟩
    cases h with
    | file => exact .file
    | directory => exact .directory
    | linkToItem hstatus hkind => exact .linkToItem hstatus hkind
    | linkToDirectory hlists hloop =>
      exact .linkToDirectory hlists (unlooped_append.mpr ⟨hback rfl, hloop⟩)
    | linkToNothing hstatus hkept => exact .linkToNothing hstatus hkept

/-- **A candidate from the root is one from the directory on its way**, to which no link on the rest
of the way leads back. -/
theorem isCandidate_append : t.IsCandidate suffix root (names ++ ns) name ↔
    t.Descent suffix.matchesPath root names ∧ t.IsCandidate suffix (root.through names) ns name ∧
      t.NoneBack root names (ns ++ [name]) := by
  have hpath : root.through (names ++ ns ++ [name]) =
      (root.through names).through (ns ++ [name]) := by
    rw [List.append_assoc, Path.through_append]
  rw [noneBack_concat, not_linksBack_iff, ← Path.through_concat]
  constructor
  · rintro ⟨hway, hmatch, kind, hentry, hcollected⟩
    obtain ⟨hbefore, hrest, hnone⟩ := descent_append.mp hway
    rw [hpath] at hmatch hcollected
    rw [Path.through_append] at hentry
    obtain ⟨hcollected, hback⟩ := collected_append.mp hcollected
    exact ⟨hbefore, ⟨hrest, hmatch, kind, hentry, hcollected⟩, hnone,
      fun hlink => hback (hentry.kind_unique hlink)⟩
  · rintro ⟨hbefore, ⟨hrest, hmatch, kind, hentry, hcollected⟩, hnone, hback⟩
    refine ⟨descent_append.mpr ⟨hbefore, hrest, hnone⟩, ?_, kind, ?_, ?_⟩
    · rwa [hpath]
    · rwa [Path.through_append]
    · rw [hpath]
      exact collected_append.mpr ⟨hcollected, fun hkind => hback (hkind ▸ hentry)⟩

/-! ## 3. What is handed out as a directory -/

/-- **A directory that a walk hands out and goes into** has names on whose way it lies, whether or
not it turns out that it can be listed. -/
theorem names_of_handed_out {budget : Nat} (hskip : skip c = false)
    (h : .entry c true ∈ t.walkWithin budget skip root) :
    ∃ names, (∀ n ∈ names, n.isProper = true) ∧ c = root.through names ∧
      ((∃ place, t.Lists c place) → t.Descent skip root names) := by
  rcases mem_walkWithin.mp h with hroot | ⟨⟨above, path⟩, henters, _, hv⟩
  · obtain rfl : c = root := by
      rcases mem_walkWithin_zero.mp hroot with ⟨cause, _, hobstacle⟩ | ⟨kept, _, hmet⟩
      · cases hobstacle
      · exact path_eq_of_met hmet.symm
    exact ⟨[], nofun, rfl, descent_nil.mpr⟩
  · obtain ⟨names, htrail⟩ := henters.trail
    rcases lists_or_error t path with ⟨place, hlists⟩ | ⟨cause, herror⟩
    · obtain ⟨e, he, hmet⟩ := (mem_visitsInside_one hlists).mp hv
      obtain rfl := path_eq_of_met hmet.symm
      have hinto := htrail.into hlists he (met_eq_directory_iff.mp hmet.symm) hskip
      have hpath : path = root.through names := htrail.path_eq
      have hentry : t.HasEntry (root.through names) e := ⟨place, hpath ▸ hlists, he⟩
      exact ⟨names ++ [e.name], (htrail.descent ⟨place, hlists⟩).concat_proper hentry,
        hinto.path_eq, hinto.descent⟩
    · rw [visitsInside_of_list_error herror] at hv
      exact absurd hv (by simp)

/-! ## 4. The candidates below a directory -/

theorem passesBack_iff (hns : ∀ n ∈ ns, n.isProper = true) :
    t.PassesBack root names ((root.through names).through ns) ↔ ¬ t.NoneBack root names ns := by
  constructor
  · rintro ⟨before, name, rest, hproper, heq, hback⟩ hnone
    obtain rfl := Path.through_injective hns hproper heq
    exact hnone before name ⟨rest, by simp⟩ hback
  · intro hnone
    unfold NoneBack at hnone
    push Not at hnone
    obtain ⟨before, name, ⟨rest, rfl⟩, hback⟩ := hnone
    rw [List.append_assoc] at hns ⊢
    exact ⟨before, name, rest, hns, rfl, hback⟩

theorem below_of_mem_files (hroot : suffix.matchesPath root = false)
    (h : q ∈ (t.discover suffix root).files) : root.Below q := by
  obtain ⟨ns, name, rfl, hway, _, kind, hentry, _⟩ := (mem_files_discover hroot).mp h
  exact ⟨ns ++ [name], by simp, hway.concat_proper hentry, rfl⟩

/-- The candidates of a walk whose names begin with those of a directory. -/
def filesUnder (t : FileTree) (suffix : Suffix) (root c : Path) : List Path :=
  (t.discover suffix root).files.filter fun q => c.names.isPrefixOf q.names

theorem mem_filesUnder : q ∈ t.filesUnder suffix root c ↔
    q ∈ (t.discover suffix root).files ∧ c.names <+: q.names := by
  rw [filesUnder, List.mem_filter, List.isPrefixOf_iff_prefix]

theorem filesUnder_sublist (t : FileTree) (suffix : Suffix) (root c : Path) :
    (t.filesUnder suffix root c).Sublist (t.discover suffix root).files := List.filter_sublist

/-- **They are contiguous**: what lies between two of them begins with the same names. -/
theorem files_eq_around (hroot : suffix.matchesPath root = false) (c : Path) :
    ∃ before after, (t.discover suffix root).files =
        before ++ t.filesUnder suffix root c ++ after ∧
      (∀ q ∈ before, ¬ c.names <+: q.names) ∧ ∀ q ∈ after, ¬ c.names <+: q.names := by
  have hconvex : ∀ x y z : Path, c.names.isPrefixOf x.names = true →
      c.names.isPrefixOf z.names = true → x.Before y → y.Before z →
      c.names.isPrefixOf y.names = true := by
    intro x y z hx hz hxy hyz
    obtain ⟨x', hx'⟩ := List.isPrefixOf_iff_prefix.mp hx
    obtain ⟨z', hz'⟩ := List.isPrefixOf_iff_prefix.mp hz
    unfold Path.Before at hxy hyz
    rw [← hx'] at hxy
    rw [← hz'] at hyz
    exact List.isPrefixOf_iff_prefix.mpr (prefix_of_between hxy hyz)
  have hnot : ∀ q : Path, c.names.isPrefixOf q.names = false → ¬ c.names <+: q.names := by
    intro q hfalse hbegins
    rw [List.isPrefixOf_iff_prefix.mpr hbegins] at hfalse
    cases hfalse
  obtain ⟨before, after, heq, hbefore, hafter⟩ :=
    exists_block hconvex (@files_before t suffix root hroot)
  exact ⟨before, after, heq, fun q hq => hnot q (hbefore q hq), fun q hq => hnot q (hafter q hq)⟩

/-- The directory that a walk goes into, by the names on its way, and the way to it. -/
structure GoesInto (t : FileTree) (suffix : Suffix) (root : Path) (names : List Name) : Prop where
  proper : ∀ n ∈ names, n.isProper = true
  unmatched : suffix.matchesPath (root.through names) = false
  way : (∃ place, t.Lists (root.through names) place) →
    t.Descent suffix.matchesPath root names

/-- **What the candidates below a directory are**, for a walk from the root: they lie together, they
are a part of what the walk from the directory finds, in its order, and that part leaves out the
paths with a link back. If the walk from the directory sees no link back, it is all. -/
structure IsBlock (t : FileTree) (suffix : Suffix) (root : Path) (names : List Name)
    (block : List Path) : Prop where
  below : ∀ q ∈ block, (root.through names).Below q
  contiguous : ∃ before after, (t.discover suffix root).files = before ++ block ++ after ∧
    ∀ q ∈ before ++ after, ¬ (root.through names).Below q
  sublist : block.Sublist (t.discover suffix (root.through names)).files
  missing : ∀ q ∈ (t.discover suffix (root.through names)).files,
    q ∉ block ↔ t.PassesBack root names q
  whole : (∀ ns name, t.Descent suffix.matchesPath (root.through names) ns →
      ¬ t.LinksBack root names ((root.through names).through ns) name) →
    block = (t.discover suffix (root.through names)).files

section Below

variable (hroot : suffix.matchesPath root = false) (hinto : t.GoesInto suffix root names)
include hroot hinto

/-- What is found below a directory is told by its names. -/
theorem GoesInto.below_iff (h : q ∈ (t.discover suffix root).files) :
    (root.through names).Below q ↔ (root.through names).names <+: q.names := by
  obtain ⟨hnames, hunmatched, _⟩ := hinto
  constructor
  · rintro ⟨ns, _, hns, rfl⟩
    rw [Path.names_through _ hns]
    exact List.prefix_append _ _
  · intro hbegins
    obtain ⟨qs, _, hqs, rfl⟩ := below_of_mem_files hroot h
    rw [Path.names_through _ hnames, Path.names_through _ hqs,
      List.prefix_append_right_inj] at hbegins
    obtain ⟨ns, rfl⟩ := hbegins
    refine ⟨ns, ?_, fun n hn => hqs n (List.mem_append_right _ hn), Path.through_append _ _ _⟩
    -- What is found matches, and the directory does not.
    rintro rfl
    obtain ⟨_, _, heq, hcandidate⟩ := (mem_files_discover hroot).mp h
    have hmatch := heq ▸ hcandidate.matching
    rw [List.append_nil, hunmatched] at hmatch
    cases hmatch

/-- **What a walk finds below a directory** is what the walk from there finds, without the paths
with a link back. -/
theorem GoesInto.mem_files_iff :
    q ∈ (t.discover suffix root).files ∧ (root.through names).Below q ↔
      q ∈ (t.discover suffix (root.through names)).files ∧ ¬ t.PassesBack root names q := by
  obtain ⟨hnames, hunmatched, hway⟩ := hinto
  -- On either side the path is that of an entry below the directory.
  have hboth : (root.through names).Below q →
      (q ∈ (t.discover suffix root).files ↔
        q ∈ (t.discover suffix (root.through names)).files ∧ ¬ t.PassesBack root names q) := by
    rintro ⟨ns, hne, hns, rfl⟩
    rw [passesBack_iff hns, not_not]
    obtain ⟨ns, name, rfl⟩ := (List.eq_nil_or_concat' ns).resolve_left hne
    have hproper : ∀ n ∈ (names ++ ns) ++ [name], n.isProper = true := by
      rw [List.append_assoc]
      exact fun n hn => (List.mem_append.mp hn).elim (hnames n) (hns n)
    rw [mem_files_through hunmatched hns, ← Path.through_append, ← List.append_assoc,
      mem_files_through hroot hproper, isCandidate_append]
    constructor
    · rintro ⟨_, hcandidate, hnone⟩
      exact ⟨hcandidate, hnone⟩
    · rintro ⟨hcandidate, hnone⟩
      exact ⟨hway hcandidate.way.listed, hcandidate, hnone⟩
  constructor
  · rintro ⟨hq, hbelow⟩
    exact (hboth hbelow).mp hq
  · rintro ⟨hq, hback⟩
    have hbelow := below_of_mem_files hunmatched hq
    exact ⟨(hboth hbelow).mpr ⟨hq, hback⟩, hbelow⟩

omit hroot in
theorem GoesInto.not_passesBack
    (hnone : ∀ ns name, t.Descent suffix.matchesPath (root.through names) ns →
      ¬ t.LinksBack root names ((root.through names).through ns) name)
    (h : q ∈ (t.discover suffix (root.through names)).files) : ¬ t.PassesBack root names q := by
  obtain ⟨ns, name, rfl, hway, _, kind, hentry, _⟩ := (mem_files_discover hinto.unmatched).mp h
  rw [passesBack_iff (hway.concat_proper hentry), not_not, noneBack_concat]
  refine ⟨fun before n hbegins => ?_, hnone ns name hway⟩
  exact hnone before n (hway.of_prefix ((List.prefix_append _ _).trans hbegins))

theorem GoesInto.mem_block : q ∈ t.filesUnder suffix root (root.through names) ↔
    q ∈ (t.discover suffix (root.through names)).files ∧ ¬ t.PassesBack root names q := by
  rw [mem_filesUnder, ← hinto.mem_files_iff hroot]
  exact and_congr_right fun hq => (hinto.below_iff hroot hq).symm

theorem GoesInto.isBlock :
    t.IsBlock suffix root names (t.filesUnder suffix root (root.through names)) := by
  have hordered := (@files_before t suffix root hroot).sublist
    (t.filesUnder_sublist suffix root (root.through names))
  have hordered' := @files_before t suffix (root.through names) hinto.unmatched
  obtain ⟨before, after, heq, hbefore, hafter⟩ :=
    files_eq_around (t := t) hroot (root.through names)
  refine ⟨fun q hq => ?_, ⟨before, after, heq, fun q hq hbelow => ?_⟩, ?_, fun q hq => ?_,
    fun hnone => ?_⟩
  · exact ((hinto.mem_files_iff hroot).mpr ((hinto.mem_block hroot).mp hq)).2
  · have hfiles : q ∈ (t.discover suffix root).files := by
      rw [heq]
      rcases List.mem_append.mp hq with hq | hq <;> simp [hq]
    have hbegins := (hinto.below_iff hroot hfiles).mp hbelow
    exact (List.mem_append.mp hq).elim (hbefore q · hbegins) (hafter q · hbegins)
  · exact Path.sublist_of_ascending hordered hordered' fun q hq =>
      ((hinto.mem_block hroot).mp hq).1
  · rw [hinto.mem_block hroot]
    simp [hq]
  · refine hordered.eq_of_mem_iff hordered' fun q => (hinto.mem_block hroot).trans ?_
    exact and_iff_left_of_imp fun hq => hinto.not_passesBack hnone hq

end Below

/-- **The walk from a directory and the walk that comes to it.** Whatever directory a walk hands out
and goes into, it has come to it by some names, and the candidates that it finds below are one
contiguous block: those of the walk from the directory, without the paths that pass through or end
at a link back to the way from the root to it. -/
theorem files_below (t : FileTree) (suffix : Suffix) (root c : Path)
    (hroot : suffix.matchesPath root = false)
    (hmet : .entry c true ∈ t.walk suffix.matchesPath root)
    (hc : suffix.matchesPath c = false) :
    ∃ names, (∀ n ∈ names, n.isProper = true) ∧ c = root.through names ∧
      ∃ block, t.IsBlock suffix root names block := by
  obtain ⟨names, hnames, rfl, hway⟩ := names_of_handed_out hc hmet
  exact ⟨names, hnames, rfl, _, GoesInto.isBlock hroot ⟨hnames, hc, hway⟩⟩

theorem files_below_knotted :
    Suffix.standard.matchesPath Name.dot = false ∧
      .entry (.ofText "./src") true ∈ knotted.walk Suffix.standard.matchesPath Name.dot ∧
      Suffix.standard.matchesPath (.ofText "./src") = false ∧
      ∃ names, (∀ n ∈ names, n.isProper = true) ∧
        Bytes.ofText "./src" = Path.through Name.dot names ∧
        ∃ block, knotted.IsBlock .standard Name.dot names block :=
  ⟨by decide, by decide, by decide,
    files_below knotted .standard Name.dot (.ofText "./src") (by decide) (by decide) (by decide)⟩

example : (knotted.discover .standard Name.dot).files =
      ["./again/A.java", "./src/A.java"].map .ofText ∧
    (knotted.discover .standard (.ofText "./src")).files =
      ["./src/A.java", "./src/back/src/A.java"].map .ofText := by decide

end FileTree

end LineTally
