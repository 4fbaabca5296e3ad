import LineTally.FileTree.Resolve
import LineTally.Proofs.FileTree.Paths

/-!
# Following a path, one name after the other

`FileTree.resolve` is written the way a path is followed: names of a link's target are put before
the names that are left, and a budget of links counts down. What it *means* is that a path can be
cut anywhere. This file says so with a relation that has no budget,

    t.Leads n place names found

— going from `place` through `names` ends at `found` and follows **exactly** `n` links. The two
directions are `leads_of_resolve` and `Leads.resolve_eq`: a path is cut in two, and the second part
has the links to spare that the first has not followed. `Leads.split` cuts the relation itself.

A slash at the end of a link's target is the one thing that does not pass a cut. It insists on a
directory only when no name comes after it, so it is kept apart in both directions.
-/

set_option autoImplicit false

namespace LineTally

namespace FileTree

/-! ## 1. One name

What a single name does at a place: it moves on to another place, or it is the name of a link. -/

/-- A name leads from one place to the next without a link. -/
structure Moves (t : FileTree) (place : Place) (name : Name) (next : Place) : Prop where
  entered : t.enter place = .ok ()
  short : name.length ≤ Name.maxLength
  next_eq : (name = Name.dot ∧ next = place) ∨ (name = Name.dotDot ∧ next = place.tail) ∨
    (name ≠ Name.dot ∧ name ≠ Name.dotDot ∧ next = name :: place ∧
      ∃ item, t.item? next = some item ∧ item.kind ≠ .link)

/-- A name is that of a link, with a target. -/
structure MeetsLink (t : FileTree) (place : Place) (name : Name) (target : Path) : Prop where
  entered : t.enter place = .ok ()
  short : name.length ≤ Name.maxLength
  notDots : name ≠ Name.dot ∧ name ≠ Name.dotDot
  item : t.item? (name :: place) = some (.link target)

section Advance

variable {t : FileTree} {last : LastLink} {place next found : Place} {name : Name}
  {rest : List Name} {slashed : Bool} {target : Path}
  {onLink : Place → Path → List Name → Bool → Except AccessError Place}

theorem Moves.advance_eq (h : t.Moves place name next) :
    t.advance last onLink place (name :: rest) slashed =
      t.advance last onLink next rest slashed := by
  obtain ⟨hin, hshort, hnext⟩ := h
  rw [advance, hin]
  simp only [if_neg (Nat.not_lt.mpr hshort)]
  rcases hnext with ⟨rfl, rfl⟩ | ⟨rfl, rfl⟩ | ⟨hdot, hdotDot, rfl, item, hitem, hkind⟩
  · rw [if_pos rfl]
  · rw [if_neg (by decide), if_pos rfl]
  · rw [if_neg hdot, if_neg hdotDot, hitem]
    cases item with
    | link target => exact absurd rfl hkind
    | file permissions content => rfl
    | directory permissions => rfl

theorem MeetsLink.advance_eq (h : t.MeetsLink place name target) :
    t.advance last onLink place (name :: rest) slashed =
      if rest.isEmpty && !slashed && last = .keep then .ok (name :: place)
      else onLink place target rest slashed := by
  obtain ⟨hin, hshort, ⟨hdot, hdotDot⟩, hitem⟩ := h
  rw [advance, hin]
  simp only [if_neg (Nat.not_lt.mpr hshort), if_neg hdot, if_neg hdotDot, hitem]

/-- Nothing else lets a name pass. -/
theorem advance_cons_cases (h : t.advance last onLink place (name :: rest) slashed = .ok found) :
    (∃ next, t.Moves place name next) ∨ ∃ target, t.MeetsLink place name target := by
  rw [advance] at h
  cases hin : t.enter place with
  | error e => rw [hin] at h; cases h
  | ok u =>
    rw [hin] at h
    by_cases hlong : name.length > Name.maxLength
    · rw [if_pos hlong] at h; cases h
    · have hshort := Nat.not_lt.mp hlong
      rw [if_neg hlong] at h
      by_cases hdot : name = Name.dot
      · exact Or.inl ⟨place, hin, hshort, Or.inl ⟨hdot, rfl⟩⟩
      · rw [if_neg hdot] at h
        by_cases hdotDot : name = Name.dotDot
        · exact Or.inl ⟨place.tail, hin, hshort, Or.inr (Or.inl ⟨hdotDot, rfl⟩)⟩
        · rw [if_neg hdotDot] at h
          cases hitem : t.item? (name :: place) with
          | none => rw [hitem] at h; cases h
          | some item =>
            by_cases hkind : item.kind = .link
            · cases item with
              | link target => exact Or.inr ⟨target, hin, hshort, ⟨hdot, hdotDot⟩, hitem⟩
              | file permissions content => cases hkind
              | directory permissions => cases hkind
            · exact Or.inl ⟨name :: place, hin, hshort,
                Or.inr (Or.inr ⟨hdot, hdotDot, rfl, item, hitem, hkind⟩)⟩

end Advance

/-! ## 2. `resolve` as steps -/

section Resolve

variable {t : FileTree} {last : LastLink} {links : Nat} {place next found : Place} {name : Name}
  {rest : List Name} {slashed : Bool} {target : Path}

/-- The end of a path: a slash there insists on a directory. -/
theorem resolve_nil :
    t.resolve last links place [] slashed =
      if slashed && !t.isDirectoryAt place then .error .notADirectory else .ok place := by
  cases links <;> rw [resolve, advance]

theorem Moves.resolve_eq (h : t.Moves place name next) :
    t.resolve last links place (name :: rest) slashed = t.resolve last links next rest slashed := by
  cases links <;> rw [resolve, h.advance_eq]

theorem MeetsLink.resolve_succ (h : t.MeetsLink place name target)
    (hfollow : rest ≠ [] ∨ last = .follow) :
    t.resolve last (links + 1) place (name :: rest) slashed =
      t.resolve last links (origin place target) (target.names ++ rest)
        (slashed || (rest.isEmpty && target.endsInSlash)) := by
  rw [resolve, h.advance_eq, if_neg ?_]
  rcases hfollow with hrest | rfl
  · simp [hrest]
  · simp

theorem MeetsLink.resolve_keep_succ (h : t.MeetsLink place name target)
    (hend : ¬ (rest = [] ∧ slashed = false)) :
    t.resolve .keep (links + 1) place (name :: rest) slashed =
      t.resolve .keep links (origin place target) (target.names ++ rest)
        (slashed || (rest.isEmpty && target.endsInSlash)) := by
  rw [resolve, h.advance_eq, if_neg ?_]
  simpa using hend

theorem MeetsLink.resolve_zero (h : t.MeetsLink place name target)
    (hfollow : rest ≠ [] ∨ last = .follow) :
    t.resolve last 0 place (name :: rest) slashed = .error .tooManyLinks := by
  rw [resolve, h.advance_eq, if_neg ?_]
  rcases hfollow with hrest | rfl
  · simp [hrest]
  · simp

theorem MeetsLink.resolve_keep (h : t.MeetsLink place name target) :
    t.resolve .keep links place [name] false = .ok (name :: place) := by
  cases links <;> rw [resolve, h.advance_eq] <;> rfl

theorem resolve_cons_cases
    (h : t.resolve last links place (name :: rest) slashed = .ok found) :
    (∃ next, t.Moves place name next) ∨ ∃ target, t.MeetsLink place name target := by
  cases links <;> exact advance_cons_cases h

end Resolve

/-! ## 3. The relation -/

/-- **Going from a place through some names follows exactly so many links and ends somewhere.** A
link's target comes before the names that are left, as in `resolve`. -/
inductive Leads (t : FileTree) : Nat → Place → List Name → Place → Prop
  | here (place : Place) : Leads t 0 place [] place
  | move {n : Nat} {place next found : Place} {name : Name} {rest : List Name}
      (moves : t.Moves place name next) (leads : Leads t n next rest found) :
      Leads t n place (name :: rest) found
  | link {n : Nat} {place found : Place} {name : Name} {rest : List Name} {target : Path}
      (meets : t.MeetsLink place name target)
      (leads : Leads t n (origin place target) (target.names ++ rest) found) :
      Leads t (n + 1) place (name :: rest) found

variable {t : FileTree} {links n : Nat} {place mid found : Place} {names rest : List Name}

/-- **What the relation says, the function does.** The names after the cut are there, or every link
is followed; in the first case the slash stays what it was. -/
theorem Leads.resolve_eq (last : LastLink) (slashed : Bool) (h : t.Leads n place names mid)
    (hle : n ≤ links) (hfollow : rest ≠ [] ∨ last = .follow) :
    ∃ slashed', (rest ≠ [] → slashed' = slashed) ∧
      t.resolve last links place (names ++ rest) slashed =
        t.resolve last (links - n) mid rest slashed' := by
  induction h generalizing links slashed with
  | here place => exact ⟨slashed, fun _ => rfl, rfl⟩
  | move moves _ ih =>
    obtain ⟨slashed', hslashed, heq⟩ := @ih links slashed hle
    exact ⟨slashed', hslashed, by rw [List.cons_append, moves.resolve_eq, heq]⟩
  | @link n place found name names target meets _ ih =>
    obtain ⟨k, rfl⟩ : ∃ k, links = k + 1 := ⟨links - 1, by omega⟩
    obtain ⟨slashed', hslashed, heq⟩ :=
      @ih k (slashed || ((names ++ rest).isEmpty && target.endsInSlash)) (by omega)
    refine ⟨slashed', fun hrest => ?_, ?_⟩
    · rw [hslashed hrest]
      simp [hrest]
    · have hfollow' : names ++ rest ≠ [] ∨ last = .follow :=
        hfollow.imp_left (List.append_ne_nil_of_right_ne_nil names)
      rw [List.cons_append, meets.resolve_succ hfollow', ← List.append_assoc, heq,
        Nat.add_sub_add_right]

/-- **What the function does, the relation says.** -/
theorem leads_of_resolve {last : LastLink} {slashed : Bool} (hfollow : rest ≠ [] ∨ last = .follow)
    (h : t.resolve last links place (names ++ rest) slashed = .ok found) :
    ∃ n mid slashed', n ≤ links ∧ (rest ≠ [] → slashed' = slashed) ∧ t.Leads n place names mid ∧
      t.resolve last (links - n) mid rest slashed' = .ok found := by
  -- A link spends the budget, every other name only itself.
  induction links using Nat.strongRecOn generalizing place names slashed with
  | ind links ihLinks =>
    induction names generalizing place with
    | nil => exact ⟨0, place, slashed, Nat.zero_le _, fun _ => rfl, .here place, h⟩
    | cons name names ih =>
      rw [List.cons_append] at h
      have hfollow' : names ++ rest ≠ [] ∨ last = .follow :=
        hfollow.imp_left (List.append_ne_nil_of_right_ne_nil names)
      rcases resolve_cons_cases h with ⟨next, moves⟩ | ⟨target, meets⟩
      · rw [moves.resolve_eq] at h
        obtain ⟨n, mid, slashed', hle, hslashed, leads, hrest⟩ := ih h
        exact ⟨n, mid, slashed', hle, hslashed, .move moves leads, hrest⟩
      · cases links with
        | zero =>
          rw [meets.resolve_zero hfollow'] at h
          cases h
        | succ links =>
          rw [meets.resolve_succ hfollow', ← List.append_assoc] at h
          obtain ⟨n, mid, slashed', hle, hslashed, leads, hrest⟩ :=
            ihLinks links (Nat.lt_succ_self links) h
          refine ⟨n + 1, mid, slashed', by omega, fun hne => ?_, .link meets leads, ?_⟩
          · rw [hslashed hne]
            simp [hne]
          · rw [Nat.add_sub_add_right]
            exact hrest

/-! ## 4. One end, one number of links -/

theorem Moves.next_unique {name : Name} {next next' : Place} (h : t.Moves place name next)
    (h' : t.Moves place name next') : next = next' := by
  rcases h.next_eq with ⟨rfl, rfl⟩ | ⟨rfl, rfl⟩ | ⟨hdot, hdotDot, rfl, _⟩
  · rcases h'.next_eq with ⟨_, rfl⟩ | ⟨heq, _⟩ | ⟨hne, _⟩
    · rfl
    · exact absurd heq (by decide)
    · exact absurd rfl hne
  · rcases h'.next_eq with ⟨heq, _⟩ | ⟨_, rfl⟩ | ⟨_, hne, _⟩
    · exact absurd heq (by decide)
    · rfl
    · exact absurd rfl hne
  · rcases h'.next_eq with ⟨heq, _⟩ | ⟨heq, _⟩ | ⟨_, _, rfl, _⟩
    · exact absurd heq hdot
    · exact absurd heq hdotDot
    · rfl

theorem MeetsLink.not_moves {name : Name} {target : Path} {next : Place}
    (h : t.MeetsLink place name target) : ¬ t.Moves place name next := by
  intro moves
  obtain ⟨hdot, hdotDot⟩ := h.notDots
  rcases moves.next_eq with ⟨heq, _⟩ | ⟨heq, _⟩ | ⟨_, _, rfl, item, hitem, hkind⟩
  · exact hdot heq
  · exact hdotDot heq
  · rw [h.item] at hitem
    cases hitem
    exact hkind rfl

theorem Leads.unique {n' : Nat} {found' : Place} (h : t.Leads n place names found)
    (h' : t.Leads n' place names found') : n = n' ∧ found = found' := by
  induction h generalizing n' with
  | here place =>
    cases h'
    exact ⟨rfl, rfl⟩
  | move moves _ ih =>
    cases h' with
    | move moves' leads' =>
      rw [← moves.next_unique moves'] at leads'
      exact ih leads'
    | link meets' _ => exact absurd moves meets'.not_moves
  | link meets _ ih =>
    cases h' with
    | move moves' _ => exact absurd moves' meets.not_moves
    | link meets' leads' =>
      have htarget := meets.item.symm.trans meets'.item
      cases htarget
      obtain ⟨rfl, rfl⟩ := ih leads'
      exact ⟨rfl, rfl⟩

/-- The relation is cut like the function is. -/
theorem Leads.split {as bs : List Name} (h : t.Leads n place (as ++ bs) found) :
    ∃ k mid, k ≤ n ∧ t.Leads k place as mid ∧ t.Leads (n - k) mid bs found := by
  generalize hnames : as ++ bs = names at h
  induction h generalizing as with
  | here place =>
    obtain ⟨rfl, rfl⟩ := List.append_eq_nil_iff.mp hnames
    exact ⟨0, place, Nat.le_refl _, .here place, .here place⟩
  | @move n place next found name rest moves leads ih =>
    cases as with
    | nil =>
      subst hnames
      exact ⟨0, place, Nat.zero_le _, .here place, .move moves leads⟩
    | cons a as =>
      obtain ⟨rfl, hrest⟩ := List.cons.inj hnames
      obtain ⟨k, mid, hle, hleft, hright⟩ := ih hrest
      exact ⟨k, mid, hle, .move moves hleft, hright⟩
  | @link n place found name rest target meets leads ih =>
    cases as with
    | nil =>
      subst hnames
      exact ⟨0, place, Nat.zero_le _, .here place, .link meets leads⟩
    | cons a as =>
      obtain ⟨rfl, rfl⟩ := List.cons.inj hnames
      obtain ⟨k, mid, hle, hleft, hright⟩ := ih (List.append_assoc _ _ _)
      refine ⟨k + 1, mid, by omega, .link meets hleft, ?_⟩
      rw [Nat.add_sub_add_right]
      exact hright

end FileTree

end LineTally
