import LineTally.Proofs.FileTree.Finding

/-!
# A slash after a path, a dot before it

One path may be spelled in several ways. A slash at its end insists on a directory and follows a
link that is there, so `src/` leads where `src` does **if that is a directory**, and nowhere else
(`status_slash_iff`). A dot at its beginning stays where it is, so `./src` leads where `src` does,
in every case and with the same errors (`find_dot_join`): what the dot asks of the working
directory, the next name asks too.

Below, the spelling of the directory is a beginning of the path and nothing more: what is joined to
`src/` is what is joined to `src` (`through_append_slash`), and the dot stays in front
(`through_join`). No bound on the length of a whole path comes in here.
-/

set_option autoImplicit false

namespace LineTally

/-! ## 1. Paths -/

namespace Path

variable {p q : Path} {ns : List Name} {name : Name}

theorem append_slash_eq_join (h : q.endsInSlash = false) : q ++ [slash] = q.join [] := by
  unfold join
  rw [h]
  rfl

theorem names_append_one_slash (q : Path) : names (q ++ [slash]) = names q := by
  have hnil : names ([] : Path) = [] := rfl
  rw [names_append_slash, hnil, List.append_nil]

theorem endsInSlash_append_slash (q : Path) : endsInSlash (q ++ [slash]) = true := by
  simp [endsInSlash]

theorem isAbsolute_append_slash (h : q ≠ []) : isAbsolute (q ++ [slash]) = isAbsolute q := by
  obtain ⟨b, rest, rfl⟩ := List.exists_cons_of_ne_nil h
  rfl

/-- The slash that ends a directory's path is the one that comes before the name. -/
theorem join_append_slash (h : q.endsInSlash = false) (name : Name) :
    join (q ++ [slash]) name = q.join name := by
  unfold join
  rw [endsInSlash_append_slash, h, List.append_assoc]
  rfl

theorem through_append_slash (h : q.endsInSlash = false) (hne : ns ≠ []) :
    through (q ++ [slash]) ns = q.through ns := by
  obtain ⟨name, rest, rfl⟩ := List.exists_cons_of_ne_nil hne
  show through (join (q ++ [slash]) name) rest = through (q.join name) rest
  rw [join_append_slash h]

theorem endsInSlash_join_of_ne_nil (p : Path) (h : q ≠ []) :
    (p.join q).endsInSlash = q.endsInSlash := by
  obtain ⟨stem, hjoin, _⟩ := join_shape p q
  unfold endsInSlash
  rw [hjoin, List.append_cons, List.getLast?_append, List.getLast?_eq_some_getLast h]
  rfl

/-- Joining is associative, but for an empty path in the middle. -/
theorem join_join (p : Path) (h : q ≠ []) (name : Name) :
    (p.join q).join name = p.join (q.join name) := by
  have hend := endsInSlash_join_of_ne_nil p h
  unfold join at hend ⊢
  rw [hend]
  split <;> split <;> simp

theorem through_join (p : Path) (h : q ≠ []) (ns : List Name) :
    (p.join q).through ns = p.join (q.through ns) := by
  induction ns using List.reverseRecOn with
  | nil => rfl
  | append_singleton ns name ih =>
    rw [through_concat, through_concat, ih, join_join p (through_ne_nil ns h)]

/-- A path without names has nothing but slashes. -/
theorem eq_slash_of_names_eq_nil (h : q.names = []) : ∀ b ∈ q, b = slash := by
  induction q with
  | nil => exact fun b hb => absurd hb List.not_mem_nil
  | cons b rest ih =>
    by_cases hb : b = slash
    · subst hb
      have hrest : names rest = [] := names_append_slash [] rest ▸ h
      exact List.forall_mem_cons.mpr ⟨rfl, ih hrest⟩
    · obtain ⟨first, others, hs⟩ := List.exists_cons_of_ne_nil (separated_ne_nil slash rest)
      rw [names, separated, if_neg hb, hs] at h
      simp at h

theorem names_ne_nil (h : q ≠ []) (hend : q.endsInSlash = false) : q.names ≠ [] := by
  intro hnone
  have hlast := eq_slash_of_names_eq_nil hnone _ (List.getLast_mem h)
  rw [endsInSlash, List.getLast?_eq_some_getLast h, hlast] at hend
  cases hend

theorem names_through_ne_nil (ns : List Name) (h : q.names ≠ []) : (q.through ns).names ≠ [] := by
  induction ns using List.reverseRecOn with
  | nil => exact h
  | append_singleton ns name ih =>
    obtain ⟨stem, hjoin, hstem⟩ := join_shape (q.through ns) name
    rw [through_concat, hjoin, names_append_slash]
    refine List.append_ne_nil_of_left_ne_nil ?_ _
    rcases hstem with heq | heq
    · exact heq ▸ ih
    · rwa [heq, names_append_one_slash] at ih

end Path

/-! ## 2. Following and finding -/

namespace FileTree

variable {t : FileTree} {last : LastLink} {links : Nat} {place found : Place} {names : List Name}
  {q : Path}

/-- **A slash at the end asks for a directory**, and for nothing else when links are followed. -/
theorem resolve_slashed_iff (slashed : Bool) :
    t.resolve .follow links place names true = .ok found ↔
      t.resolve .follow links place names slashed = .ok found ∧
        t.isDirectoryAt found = true := by
  induction links using Nat.strongRecOn generalizing place names slashed with
  | ind links ihLinks =>
    induction names generalizing place with
    | nil =>
      rw [resolve_nil, resolve_nil]
      cases hdirectory : t.isDirectoryAt place with
      | true =>
        simp only [Bool.not_true, Bool.and_false, Bool.false_eq_true, if_false]
        constructor
        · rintro ⟨⟩
          exact ⟨rfl, hdirectory⟩
        · exact And.left
      | false =>
        refine ⟨fun h => absurd h (by simp), fun ⟨h, hfound⟩ => ?_⟩
        split at h
        · cases h
        · cases h
          rw [hdirectory] at hfound
          cases hfound
    | cons name names ih =>
      by_cases hmoves : ∃ next, t.Moves place name next
      · obtain ⟨next, moves⟩ := hmoves
        rw [moves.resolve_eq, moves.resolve_eq]
        exact ih
      · by_cases hmeets : ∃ target, t.MeetsLink place name target
        · obtain ⟨target, meets⟩ := hmeets
          cases links with
          | zero =>
            rw [meets.resolve_zero (Or.inr rfl), meets.resolve_zero (Or.inr rfl)]
            simp
          | succ links =>
            rw [meets.resolve_succ (Or.inr rfl), meets.resolve_succ (Or.inr rfl), Bool.true_or]
            exact ihLinks links (Nat.lt_succ_self links) _
        · -- The name passes neither way, whatever ends the path.
          refine ⟨fun h => ?_, fun ⟨h, _⟩ => ?_⟩
          · exact (resolve_cons_cases h).elim (absurd · hmoves) (absurd · hmeets)
          · exact (resolve_cons_cases h).elim (absurd · hmoves) (absurd · hmeets)

/-- **A path with a slash leads to the directory that the path leads to.** -/
theorem status_slash_iff {permissions : Permissions} (h : q ≠ []) :
    t.status (q ++ [Path.slash]) = .ok ⟨place, .directory permissions⟩ ↔
      t.status q = .ok ⟨place, .directory permissions⟩ := by
  have hnul : 0 ∉ q ++ [Path.slash] ↔ 0 ∉ q := by simp [Path.slash]
  have horigin : origin t.workingDirectory (q ++ [Path.slash]) = origin t.workingDirectory q := by
    unfold origin
    rw [Path.isAbsolute_append_slash h]
  unfold status
  rw [find_eq_ok_iff, find_eq_ok_iff, hnul, horigin, Path.names_append_one_slash,
    Path.endsInSlash_append_slash, resolve_slashed_iff q.endsInSlash]
  constructor
  · rintro ⟨hzero, _, ⟨hresolve, _⟩, hitem⟩
    exact ⟨hzero, h, hresolve, hitem⟩
  · rintro ⟨hzero, _, hresolve, hitem⟩
    refine ⟨hzero, by simp, ⟨hresolve, ?_⟩, hitem⟩
    simp only [isDirectoryAt, hitem]
    rfl

theorem lists_slash_iff (h : q ≠ []) : t.Lists (q ++ [Path.slash]) place ↔ t.Lists q place := by
  unfold Lists
  rw [list_eq_ok_iff, list_eq_ok_iff]
  simp only [status_slash_iff h]

/-- **A dot stays where it is**, and asks nothing that the name after it does not ask. -/
theorem resolve_dot (slashed : Bool) (h : names ≠ []) :
    t.resolve last links place (Name.dot :: names) slashed =
      t.resolve last links place names slashed := by
  obtain ⟨name, rest, rfl⟩ := List.exists_cons_of_ne_nil h
  cases hin : t.enter place with
  | ok _ =>
    have hmoves : t.Moves place Name.dot place := ⟨hin, by decide, Or.inl ⟨rfl, rfl⟩⟩
    exact hmoves.resolve_eq
  | error cause => cases links <;> rw [resolve, advance, advance, hin]

/-- **A dot before a relative path changes nothing**, neither what is found nor why it is not. -/
theorem find_dot_join (hrelative : q.isAbsolute = false) (h : q.names ≠ []) :
    t.find last (Path.join Name.dot q) = t.find last q := by
  have hne : q ≠ [] := by
    rintro rfl
    exact h rfl
  have hjoin : Path.join Name.dot q = Name.dot ++ Path.slash :: q := rfl
  have hnames : (Path.join Name.dot q).names = Name.dot :: q.names := by
    rw [hjoin, Path.names_append_slash]
    rfl
  have horigin : origin t.workingDirectory (Path.join Name.dot q) =
      origin t.workingDirectory q := by
    unfold origin
    rw [Path.isAbsolute_join q (by decide), hrelative]
    rfl
  have hnul : (Path.join Name.dot q).contains 0 = q.contains 0 := by
    rw [hjoin]
    rfl
  have hnonempty : (Path.join Name.dot q).isEmpty = q.isEmpty := by
    rw [hjoin, List.isEmpty_eq_false_iff.mpr hne]
    rfl
  unfold find
  rw [hnul, hnonempty, horigin, hnames, Path.endsInSlash_join_of_ne_nil _ hne, resolve_dot _ h]

end FileTree

end LineTally
