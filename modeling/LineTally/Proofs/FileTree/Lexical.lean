import LineTally.Proofs.FileTree.Finding

/-!
# Paths in a tree without links

Following a path is a matter of what the tree holds, because a link may turn up at every name. In a
tree without links it is not: a path leads **where its names say**. A dot stays, two dots go up, any
other name goes down, and the tree only decides whether one gets there (`find_eq_ok_iff_lexical`):
each place at which a name is looked up, one of the path's `stations`, must be a directory that may
be searched, and something must be at the end.

The stations are the directories above what is found, for a path that only goes down. The path
`x/../a/F` also has `x` among them, and cannot do without it.
-/

set_option autoImplicit false

namespace LineTally

namespace Place

/-- Where a name leads to from a place, unless it is that of a link. -/
def step (place : Place) (name : Name) : Place :=
  if name = Name.dot then place
  else if name = Name.dotDot then place.tail
  else name :: place

/-- **The places at which some names are looked up**, one after the other. -/
def stations : Place → List Name → List Place
  | _, [] => []
  | place, name :: rest => place :: stations (step place name) rest

theorem step_of_isProper {name : Name} (place : Place) (h : name.isProper = true) :
    step place name = name :: place := by
  obtain ⟨_, _, _, _, hdot, hdotDot⟩ := Name.isProper_iff.mp h
  rw [step, if_neg hdot, if_neg hdotDot]

/-- Names of entries only go down. -/
theorem foldl_step_of_isProper {names : List Name} (place : Place)
    (h : ∀ name ∈ names, name.isProper = true) :
    names.foldl step place = names.reverse ++ place := by
  induction names generalizing place with
  | nil => rfl
  | cons name rest ih =>
    rw [List.foldl_cons, step_of_isProper place (h name List.mem_cons_self),
      ih _ fun n hn => h n (List.mem_cons_of_mem _ hn)]
    simp

theorem stations_append (place : Place) (names rest : List Name) :
    stations place (names ++ rest) =
      stations place names ++ stations (names.foldl step place) rest := by
  induction names generalizing place with
  | nil => rfl
  | cons name names ih =>
    rw [List.cons_append, stations, ih]
    rfl

/-- The place where one gets to is a station of every longer path. -/
theorem foldl_step_mem_stations (place : Place) (names rest : List Name) (name : Name) :
    names.foldl step place ∈ stations place (names ++ name :: rest) := by
  rw [stations_append, stations]
  simp

end Place

namespace FileTree

/-- No item of a tree is a link. -/
def LinkFree (t : FileTree) : Prop := ∀ p ∈ t.items, p.2.kind ≠ .link

variable {t : FileTree} {last : LastLink} {links : Nat} {place found : Place} {name : Name}
  {names : List Name} {slashed : Bool} {item : Item} {path : Path}

theorem LinkFree.kind_ne (h : t.LinkFree) (hitem : t.item? place = some item) :
    item.kind ≠ .link :=
  h (place, item) (item?_eq_some_iff.mp hitem)

theorem LinkFree.not_meetsLink {target : Path} (h : t.LinkFree) :
    ¬ t.MeetsLink place name target := fun meets =>
  h.kind_ne meets.item rfl

theorem isDirectoryAt_iff : t.isDirectoryAt place = true ↔
    ∃ permissions, t.item? place = some (.directory permissions) := by
  unfold isDirectoryAt
  cases t.item? place with
  | none => simp
  | some item => cases item <;> simp [Item.kind]

/-- The next place is the one that the name says. -/
theorem Moves.next_eq_step {next : Place} (h : t.Moves place name next) :
    next = Place.step place name := by
  rcases h.next_eq with ⟨rfl, rfl⟩ | ⟨rfl, rfl⟩ | ⟨hdot, hdotDot, rfl, _⟩
  · rfl
  · rfl
  · rw [Place.step, if_neg hdot, if_neg hdotDot]

/-- A name can be passed where it can be looked up and something is there. -/
theorem LinkFree.moves_of_enter (hfree : t.LinkFree) (hin : t.enter place = .ok ())
    (hitem : t.item? (Place.step place name) = some item) :
    t.Moves place name (Place.step place name) := by
  have hshort : name.length ≤ Name.maxLength := by
    by_cases hdot : name = Name.dot
    · subst hdot
      decide
    · by_cases hdotDot : name = Name.dotDot
      · subst hdotDot
        decide
      · rw [Place.step, if_neg hdot, if_neg hdotDot] at hitem
        exact (Name.isProper_iff.mp (isProper_of_item hitem)).2.1
  refine ⟨hin, hshort, ?_⟩
  unfold Place.step at hitem ⊢
  by_cases hdot : name = Name.dot
  · rw [if_pos hdot]
    exact Or.inl ⟨hdot, rfl⟩
  · by_cases hdotDot : name = Name.dotDot
    · rw [if_neg hdot, if_pos hdotDot]
      exact Or.inr (Or.inl ⟨hdotDot, rfl⟩)
    · rw [if_neg hdot, if_neg hdotDot] at hitem ⊢
      exact Or.inr (Or.inr ⟨hdot, hdotDot, rfl, item, hitem, hfree.kind_ne hitem⟩)

/-- Something is at the start of a path that leads to something. -/
theorem exists_item_of_stations (hin : ∀ d ∈ Place.stations place names, t.enter d = .ok ())
    (hend : t.item? (names.foldl Place.step place) = some item) :
    ∃ item, t.item? place = some item := by
  cases names with
  | nil => exact ⟨item, hend⟩
  | cons name rest =>
    obtain ⟨permissions, _, hitem⟩ := item_of_enter (hin place List.mem_cons_self)
    exact ⟨_, hitem⟩

theorem LinkFree.resolve_eq_ok_iff (hfree : t.LinkFree) (hitem : t.item? found = some item) :
    t.resolve last links place names slashed = .ok found ↔
      found = names.foldl Place.step place ∧
        (∀ d ∈ Place.stations place names, t.enter d = .ok ()) ∧
        (slashed = true → t.isDirectoryAt found = true) := by
  induction names generalizing place with
  | nil =>
    rw [resolve_nil]
    constructor
    · intro h
      split at h
      · cases h
      · next hend =>
        cases h
        exact ⟨rfl, by simp [Place.stations], by simpa using hend⟩
    · rintro ⟨rfl, _, hend⟩
      rw [if_neg (by simpa using hend)]
  | cons name rest ih =>
    rw [List.foldl_cons, Place.stations, List.forall_mem_cons]
    constructor
    · intro h
      rcases resolve_cons_cases h with ⟨next, moves⟩ | ⟨target, meets⟩
      · rw [moves.resolve_eq, moves.next_eq_step, ih] at h
        obtain ⟨hfound, hrest, hend⟩ := h
        exact ⟨hfound, ⟨moves.entered, hrest⟩, hend⟩
      · exact absurd meets hfree.not_meetsLink
    · rintro ⟨rfl, ⟨hin, hrest⟩, hend⟩
      -- The next name is looked up where this one leads, or it is the last one.
      obtain ⟨next, hnext⟩ := exists_item_of_stations hrest hitem
      rw [(hfree.moves_of_enter hin hnext).resolve_eq, ih]
      exact ⟨rfl, hrest, hend⟩

/-- **A path in a tree without links leads where its names say**, if there is something and all of
its stations may be searched. A slash at its end insists on a directory. -/
theorem LinkFree.find_eq_ok_iff_lexical {arrival : Found} (hfree : t.LinkFree) :
    t.find last path = .ok arrival ↔ 0 ∉ path ∧ path ≠ [] ∧
      arrival.place = path.names.foldl Place.step (origin t.workingDirectory path) ∧
      t.item? arrival.place = some arrival.item ∧
      (∀ d ∈ Place.stations (origin t.workingDirectory path) path.names, t.enter d = .ok ()) ∧
      (path.endsInSlash = true → t.isDirectoryAt arrival.place = true) := by
  rw [find_eq_ok_iff]
  constructor
  · rintro ⟨hnul, hnil, hresolve, hitem⟩
    obtain ⟨hplace, hin, hend⟩ := (hfree.resolve_eq_ok_iff hitem).mp hresolve
    exact ⟨hnul, hnil, hplace, hitem, hin, hend⟩
  · rintro ⟨hnul, hnil, hplace, hitem, hin, hend⟩
    exact ⟨hnul, hnil, (hfree.resolve_eq_ok_iff hitem).mpr ⟨hplace, hin, hend⟩, hitem⟩

end FileTree

end LineTally
