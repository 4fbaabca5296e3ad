import LineTally.Distinct.Collection
import LineTally.Survey
import Mathlib.Data.List.Induction
import Mathlib.Data.List.Nodup

/-!
# What a run keeps

Reading, telling copies apart and counting are one pass over the candidates with one state. Taken
apart they are three functions on lists, one after the other: the documents that can be read
(`Document.readable`), of these the first with each fingerprint (`firstsBy`), and a fold over what
is left. `feed_collector` says that the pass is these three, for whatever is done with the files,
and `tally_eq` is the case of the counts.

Where no two of the contents share a fingerprint, the first documents are the contents themselves,
each once (`mem_contents_iff`, `nodup_contents`).
-/

set_option autoImplicit false

namespace LineTally

/-! ## 1. The first with each key -/

section FirstsBy

variable {α β : Type} [DecidableEq β]

/-- The elements whose key no earlier element has. -/
def firstsBy (key : α → β) : List α → List α
  | [] => []
  | a :: rest => a :: (firstsBy key rest).filter fun b => key b ≠ key a

variable {key : α → β}

theorem firstsBy_sublist (l : List α) : (firstsBy key l).Sublist l := by
  induction l with
  | nil => exact List.Sublist.slnil
  | cons a rest ih => exact (List.filter_sublist.trans ih).cons_cons a

theorem nodup_firstsBy (l : List α) : ((firstsBy key l).map key).Nodup := by
  induction l with
  | nil => exact List.nodup_nil
  | cons a rest ih =>
    rw [firstsBy, List.map_cons, List.nodup_cons]
    refine ⟨fun hmem => ?_, ih.sublist (List.filter_sublist.map key)⟩
    obtain ⟨b, hb, hkey⟩ := List.mem_map.mp hmem
    exact of_decide_eq_true (List.mem_filter.mp hb).2 hkey

/-- No key is lost. -/
theorem mem_map_firstsBy {k : β} {l : List α} :
    k ∈ (firstsBy key l).map key ↔ k ∈ l.map key := by
  refine ⟨fun h => ((firstsBy_sublist l).map key).subset h, fun h => ?_⟩
  induction l with
  | nil => exact h
  | cons a rest ih =>
    rw [firstsBy, List.map_cons, List.mem_cons]
    by_cases hk : k = key a
    · exact Or.inl hk
    · rw [List.map_cons, List.mem_cons] at h
      obtain ⟨b, hb, rfl⟩ := List.mem_map.mp (ih (h.resolve_left hk))
      exact Or.inr (List.mem_map_of_mem (List.mem_filter.mpr ⟨hb, decide_eq_true hk⟩))

theorem firstsBy_concat (l : List α) (a : α) :
    firstsBy key (l ++ [a]) =
      if key a ∈ l.map key then firstsBy key l else firstsBy key l ++ [a] := by
  induction l with
  | nil => rfl
  | cons b rest ih =>
    rw [List.cons_append, firstsBy, ih, firstsBy, List.map_cons]
    by_cases hold : key a ∈ rest.map key
    · rw [if_pos hold, if_pos (List.mem_cons_of_mem _ hold)]
    · rw [if_neg hold, List.filter_append]
      by_cases hb : key a = key b
      · simp [hb]
      · have hnew : key a ∉ key b :: rest.map key := List.not_mem_cons_of_ne_of_not_mem hb hold
        rw [if_neg hnew]
        simp [hb]

/-- **More elements put no other first**: they come after those that there are. -/
theorem prefix_firstsBy_append (l more : List α) :
    firstsBy key l <+: firstsBy key (l ++ more) := by
  induction more using List.reverseRecOn with
  | nil => simp
  | append_singleton more a ih =>
    rw [← List.append_assoc, firstsBy_concat]
    split
    · exact ih
    · exact ih.trans (List.prefix_append _ _)

/-- Where no two keys are equal, every element is the first with its key. -/
theorem firstsBy_eq_self {l : List α} (h : (l.map key).Nodup) : firstsBy key l = l := by
  induction l with
  | nil => rfl
  | cons a rest ih =>
    rw [List.map_cons, List.nodup_cons] at h
    rw [firstsBy, ih h.2, List.filter_eq_self.mpr]
    intro b hb
    apply decide_eq_true
    intro hkey
    exact h.1 (hkey ▸ List.mem_map_of_mem hb)

/-- The first with each key, when the elements are made of others. -/
theorem firstsBy_map {γ : Type} (f : γ → α) (l : List γ) :
    firstsBy key (l.map f) = (firstsBy (key ∘ f) l).map f := by
  induction l with
  | nil => rfl
  | cons c rest ih =>
    rw [List.map_cons, firstsBy, firstsBy, ih, List.map_cons, List.filter_map]
    rfl

/-- Only which keys are equal matters for the first with each key. -/
theorem firstsBy_congr {γ : Type} [DecidableEq γ] {key' : α → γ} {l : List α}
    (h : ∀ a ∈ l, ∀ b ∈ l, key a = key b ↔ key' a = key' b) :
    firstsBy key l = firstsBy key' l := by
  induction l with
  | nil => rfl
  | cons a rest ih =>
    have hrest : ∀ x ∈ rest, ∀ y ∈ rest, key x = key y ↔ key' x = key' y := fun x hx y hy =>
      h x (List.mem_cons_of_mem a hx) y (List.mem_cons_of_mem a hy)
    rw [firstsBy, firstsBy, ih hrest]
    congr 1
    refine List.filter_congr fun b hb => ?_
    have hb := (firstsBy_sublist rest).subset hb
    rw [decide_eq_decide, ne_eq, ne_eq, h b (List.mem_cons_of_mem a hb) a List.mem_cons_self]

end FirstsBy

/-! ## 2. The pass over the candidates -/

theorem toOption_eq_some_iff {ε α : Type} {result : Except ε α} {a : α} :
    result.toOption = some a ↔ result = .ok a := by
  cases result <;> simp [Except.toOption]

/-- The documents that the candidates lead to, where they can be read. -/
def Document.readable (t : FileTree) (candidates : List Path) : List Document :=
  candidates.filterMap fun path => (Document.read t path).toOption

/-- The documents that a run keeps. -/
def Document.kept (t : FileTree) (candidates : List Path) : List Document :=
  firstsBy Document.fingerprint (Document.readable t candidates)

section Read

variable {t : FileTree} {candidates : List Path} {path : Path}

/-- Reading a document is reading its content. -/
theorem Document.toOption_read (t : FileTree) (path : Path) :
    (Document.read t path).toOption = (t.read path).toOption.map (Document.mk path) := by
  unfold Document.read
  cases t.read path <;> rfl

theorem Document.read_eq_ok_iff {file : Document} :
    Document.read t path = .ok file ↔ file.path = path ∧ t.read path = .ok file.content := by
  obtain ⟨path', content'⟩ := file
  unfold Document.read
  cases t.read path <;> simp [eq_comm]

theorem Document.kept_concat_error {failure : ReadFailure}
    (h : Document.read t path = .error failure) :
    kept t (candidates ++ [path]) = kept t candidates := by
  simp [kept, readable, h, Except.toOption]

theorem Document.kept_concat_ok (candidates : List Path) {file : Document}
    (h : Document.read t path = .ok file) :
    kept t (candidates ++ [path]) =
      if file.fingerprint ∈ (readable t candidates).map fingerprint then kept t candidates
      else kept t candidates ++ [file] := by
  have hreadable : readable t (candidates ++ [path]) = readable t candidates ++ [file] := by
    simp [readable, h, Except.toOption]
  rw [kept, hreadable, firstsBy_concat]
  rfl

end Read

namespace Collection

variable {σ : Type} {t : FileTree} {handle : Document → σ → σ × List Event} {s : σ}
  {candidates : List Path} {f : Fingerprint}

/-- What has been collected when some candidates have been read. -/
def after (t : FileTree) (handle : Document → σ → σ × List Event) (s : σ)
    (candidates : List Path) : Collection σ :=
  ⟨candidates.length,
    ⟨(Document.kept t candidates).map fun d => (d.fingerprint, d.path)⟩,
    (Document.kept t candidates).foldl (fun s d => (handle d s).1) s⟩

/-- The representatives know the fingerprint of every document that was read. -/
theorem contains_after : (after t handle s candidates).kept.contains f = true ↔
    f ∈ (Document.readable t candidates).map Document.fingerprint := by
  rw [← mem_map_firstsBy]
  simp [after, Document.kept, Representatives.contains]

theorem take_after (handle : Document → σ → σ × List Event) (s : σ) (candidates : List Path)
    (path : Path) :
    (take t handle (after t handle s candidates) path).1 =
      after t handle s (candidates ++ [path]) := by
  unfold take
  cases hread : Document.read t path with
  | error failure => simp [after, Document.kept_concat_error hread]
  | ok file =>
    have hkept := Document.kept_concat_ok candidates hread
    dsimp only
    -- The pass asks its representatives for the fingerprint, the list its documents.
    by_cases hold : file.fingerprint ∈ (Document.readable t candidates).map Document.fingerprint
    · rw [if_pos hold] at hkept
      rw [Representatives.insert_of_contains (contains_after.mpr hold)]
      simp [after, hkept]
    · rw [if_neg hold] at hkept
      rw [Representatives.insert_of_not_contains (fun h => hold (contains_after.mp h))]
      simp [after, hkept]

/-- **One pass is three functions on lists**, one after the other. -/
theorem feed_collector (handle : Document → σ → σ × List Event) (s : σ) (candidates : List Path) :
    ((collector t handle s).feed (collector t handle s).start candidates).1 =
      after t handle s candidates := by
  induction candidates using List.reverseRecOn with
  | nil => rfl
  | append_singleton candidates path ih =>
    rw [Transducer.feed_append, Transducer.feed_cons, Transducer.feed_nil, ih]
    exact take_after handle s candidates path

theorem fst_collectWith (handle : Document → σ → σ × List Event) (s : σ) (candidates : List Path) :
    (collectWith t handle s candidates).1 = after t handle s candidates :=
  feed_collector handle s candidates

theorem collect_eq (t : FileTree) (candidates : List Path) :
    (collect t candidates).1 = after t (fun _ s => (s, [])) () candidates :=
  fst_collectWith _ _ _

theorem paths_after (t : FileTree) (handle : Document → σ → σ × List Event) (s : σ)
    (candidates : List Path) :
    (after t handle s candidates).kept.paths = (Document.kept t candidates).map Document.path := by
  simp [after, Representatives.paths]

end Collection

/-! ## 3. Contents -/

/-- The lines of a content. -/
def Counts.ofContent (content : Bytes) : Counts := .ofText (Utf8.decodeLossy content)

namespace FileTree

/-- The contents that a run keeps, in order. -/
def contents (t : FileTree) (candidates : List Path) : List Bytes :=
  (Document.kept t candidates).map Document.content

variable {t : FileTree} {suffix : Suffix} {root : Path} {candidates : List Path}
  {content : Bytes}

/-- **The numbers of a run**: the candidates, the contents kept, and their lines. -/
theorem tally_eq : t.tally suffix root =
    ⟨(t.discover suffix root).files.length,
      (t.contents (t.discover suffix root).files).length,
      (t.contents (t.discover suffix root).files).foldl (fun n c => n + Counts.ofContent c)
        .zero⟩ := by
  unfold tally survey
  dsimp only
  rw [Collection.fst_collectWith]
  simp only [Collection.after, Representatives.size, List.length_map, contents, List.foldl_map]
  rfl

theorem mem_readable {d : Document} : d ∈ Document.readable t candidates ↔
    d.path ∈ candidates ∧ t.read d.path = .ok d.content := by
  simp [Document.readable, List.mem_filterMap, toOption_eq_some_iff, Document.read_eq_ok_iff]

theorem nodup_contents (t : FileTree) (candidates : List Path) : (t.contents candidates).Nodup := by
  have hnodup := @nodup_firstsBy _ _ _ Document.fingerprint (Document.readable t candidates)
  have hmap : (firstsBy Document.fingerprint (Document.readable t candidates)).map
      Document.fingerprint = (t.contents candidates).map Fingerprint.ofContent := by
    unfold contents
    rw [List.map_map]
    rfl
  rw [hmap] at hnodup
  -- Different fingerprints are those of different contents; it is the converse that may fail.
  exact hnodup.of_map _

/-- **Every content that is read is kept**, unless another one has its fingerprint. -/
theorem mem_contents_iff
    (hdistinct : ∀ p ∈ candidates, ∀ q ∈ candidates, ∀ a b, t.read p = .ok a → t.read q = .ok b →
      Fingerprint.ofContent a = Fingerprint.ofContent b → a = b) :
    content ∈ t.contents candidates ↔ ∃ path ∈ candidates, t.read path = .ok content := by
  unfold contents Document.kept
  rw [List.mem_map]
  constructor
  · rintro ⟨d, hd, rfl⟩
    obtain ⟨hpath, hread⟩ := mem_readable.mp ((firstsBy_sublist _).subset hd)
    exact ⟨d.path, hpath, hread⟩
  · rintro ⟨path, hpath, hread⟩
    have hmem : (Document.mk path content).fingerprint ∈
        (Document.readable t candidates).map Document.fingerprint :=
      List.mem_map_of_mem (mem_readable.mpr ⟨hpath, hread⟩)
    obtain ⟨d, hd, hfingerprint⟩ := List.mem_map.mp (mem_map_firstsBy.mpr hmem)
    obtain ⟨hpath', hread'⟩ := mem_readable.mp ((firstsBy_sublist _).subset hd)
    exact ⟨d, hd, hdistinct _ hpath' _ hpath _ _ hread' hread hfingerprint⟩

end FileTree

end LineTally
