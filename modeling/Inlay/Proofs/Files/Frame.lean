import Inlay.Proofs.Files.Above
import Inlay.Proofs.Files.Written

/-!
What making the directory of a path leaves alone. Each step puts a directory where nothing was, at
a place on the way that the path describes. So every file stays as it is, whether or not all of the
directories could be made.
-/

namespace Inlay.FileTree

open FilePath

variable {t u v : FileTree} {path dir : String} {place p : List String}

/-! ### Walking -/

/-- A dot leads nowhere. -/
lemma walk_filter (t : FileTree) (p names : List String) :
    t.walk p (names.filter (· ≠ ".")) = t.walk p names := by
  induction names generalizing p with
  | nil => rfl
  | cons n ns ih =>
    by_cases hn : n = "."
    · subst hn
      exact ih p
    · rw [List.filter_cons_of_pos (by simpa using hn), walk, walk, if_neg hn, if_neg hn]
      simp only [ih]

lemma walk_names (t : FileTree) (p : List String) (path : String) :
    t.walk p (names path) = t.walk p (steps (parts path)) :=
  (walk_filter t p (names path)).symm

lemma walk_dropLast (h : (names path).getLast? = some "." → steps (parts path) = []) :
    t.walk p (names path).dropLast = t.walk p (steps (parts path)).dropLast := by
  rw [← filter_dropLast h, walk_filter]

lemma walk_error_of_prefix {a b : List String} {e : FileError} (hab : a <+: b)
    (h : t.walk p a = .error e) : t.walk p b = .error e := by
  obtain ⟨c, rfl⟩ := hab
  rw [walk_append, h]
  rfl

lemma origin_congr (t : FileTree) (h : isAbsolute dir = isAbsolute path) :
    t.origin dir = t.origin path := by
  rw [origin, origin, h]

/-- One that ends badly met an entry that is not there, or a file. -/
lemma walk_eq_error {names : List String} {e : FileError} (h : t.walk p names = .error e) :
    e = .notFound ∨ e = .notDirectory := by
  induction names generalizing p with
  | nil => contradiction
  | cons n ns ih =>
    rw [walk] at h
    split at h
    · exact ih h
    · split at h
      · exact ih h
      · split at h
        · exact .inl (Except.error.inj h).symm
        · exact .inr (Except.error.inj h).symm
        · exact ih h

/-- What making the directory of a path comes to. -/
lemma makeParent_cases (t : FileTree) (path : String) :
    (t.makeParent path = (t, none) ∧ (steps (parts path)).dropLast = []) ∨
      ∃ dir, dir ≠ "" ∧ Contains dir path ∧ above path = dir :: above dir ∧
        t.makeParent path = ((t.makeChain (dir :: above dir)).1,
          (t.makeChain (dir :: above dir)).2.map (dir, ·)) := by
  rw [makeParent]
  split
  · next hnone =>
    exact .inl ⟨rfl, by rw [above_eq_nil (List.head?_eq_none_iff.mp hnone), List.dropLast_nil]⟩
  · next dir hsome =>
    obtain ⟨dirs, habove⟩ := List.head?_eq_some_iff.mp hsome
    obtain ⟨rfl, hcontains⟩ := above_eq_cons habove
    split
    · next hempty =>
      subst hempty
      exact .inl ⟨rfl, hcontains.steps_eq.symm⟩
    · next hdir => exact .inr ⟨dir, hdir, hcontains, habove, rfl⟩

/-! ### What stays -/

/-- A place that is passed on the way to what a path names. -/
def OnTheWay (t : FileTree) (path : String) (place : List String) : Prop :=
  ∃ a b, names path = a ++ b ∧ b ≠ [] ∧ t.walk (t.origin path) a = .ok place

/-- A place has kept what was there, or it is a directory on the way of the path where nothing
was. -/
def KeptAt (t u : FileTree) (path : String) (place : List String) : Prop :=
  u.at? place = t.at? place ∨
    (t.at? place = none ∧ u.at? place = some .directory ∧ u.OnTheWay path place)

/-- No file has come, gone or changed at a place that has been kept. -/
lemma KeptAt.file_iff (h : KeptAt t u path place) (bytes : ByteArray) :
    u.at? place = some (.file bytes) ↔ t.at? place = some (.file bytes) := by
  rcases h with hsame | ⟨hnone, hdir, -⟩
  · rw [hsame]
  · rw [hnone, hdir]
    simp

/-- A tree in which directories have been made on the way of a path, and nothing else. -/
structure Grown (t u : FileTree) (path : String) : Prop where
  current_eq : u.current = t.current
  keptAt : ∀ place, KeptAt t u path place

namespace Grown

lemma refl (t : FileTree) (path : String) : Grown t t path := ⟨rfl, fun _ => .inl rfl⟩

lemma origin_eq (h : Grown t u path) : u.origin dir = t.origin dir := by
  rw [origin, origin, h.current_eq]

lemma directory (h : Grown t u path) (hdir : t.at? place = some .directory) :
    u.at? place = some .directory := by
  rcases h.keptAt place with hsame | ⟨hnone, -, -⟩
  · rw [hsame, hdir]
  · rw [hdir] at hnone
    contradiction

lemma onTheWay (h : Grown t u dir) (hplace : t.OnTheWay path place) : u.OnTheWay path place := by
  obtain ⟨a, b, hnames, hb, hwalk⟩ := hplace
  rw [← h.origin_eq] at hwalk
  exact ⟨a, b, hnames, hb, walk_mono (fun _ => h.directory) hwalk⟩

lemma trans (h : Grown t u path) (h' : Grown u v path) : Grown t v path := by
  refine ⟨h'.current_eq.trans h.current_eq, fun place => ?_⟩
  rcases h'.keptAt place with hsame' | ⟨hnone', hdir', hway'⟩
  · rcases h.keptAt place with hsame | ⟨hnone, hdir, hway⟩
    · exact .inl (hsame'.trans hsame)
    · exact .inr ⟨hnone, hsame'.trans hdir, h'.onTheWay hway⟩
  · rcases h.keptAt place with hsame | ⟨-, hdir, -⟩
    · exact .inr ⟨hsame ▸ hnone', hdir', hway'⟩
    · rw [hdir] at hnone'
      contradiction

/-- The step: one directory on the way. -/
lemma makeDirectory (hsteps : steps (parts dir) <+: (steps (parts path)).dropLast)
    (habs : isAbsolute dir = isAbsolute path) (h : t.makeDirectory dir = .ok u) :
    Grown t u path := by
  obtain ⟨place, hlocate, hnone, rfl⟩ := makeDirectory_eq_ok h
  refine ⟨rfl, fun other => ?_⟩
  by_cases hother : other = place
  · subst hother
    have hwalk := walk_of_locate hlocate hnone
    have hset := at?_set_self (t := t) (e := .directory) (ne_root_of_locate hlocate)
    obtain ⟨n, p, -, hn, hdot, -⟩ := locate_eq_some hlocate
    obtain ⟨a, b, hnames, hb, ha⟩ := exists_names_append hsteps (steps_ne_nil hn hdot)
    refine .inr ⟨hnone, hset, a, b, hnames, hb, ?_⟩
    rw [← walk_filter, ha, ← walk_names, origin_set, ← origin_congr t habs]
    exact hwalk
  · left
    rw [at?_set, if_neg hother]
    split
    · next hnil => rw [hnil, at?_root]
    · rfl

/-- The run, over any directories above the path. -/
lemma makeChain {dirs : List String}
    (h : ∀ d ∈ dirs, steps (parts d) <+: (steps (parts path)).dropLast ∧
      (d ≠ "" → isAbsolute d = isAbsolute path)) :
    Grown t (t.makeChain dirs).1 path := by
  induction dirs with
  | nil => exact refl t path
  | cons d dirs ih =>
    obtain ⟨hsteps, habs⟩ := h d List.mem_cons_self
    have habove := ih fun e he => h e (List.mem_cons_of_mem d he)
    rw [FileTree.makeChain]
    split
    · exact refl t path
    · next hd =>
      split
      · next hmade => exact makeDirectory hsteps (habs hd) hmade
      · rcases hchain : t.makeChain dirs with ⟨w, _ | e⟩
        · rw [hchain] at habove
          simp only
          split
          · next hmade => exact habove.trans (makeDirectory hsteps (habs hd) hmade)
          · exact habove
        · rw [hchain] at habove
          exact habove
      · exact refl t path

lemma makeParent (t : FileTree) (path : String) : Grown t (t.makeParent path).1 path := by
  rcases makeParent_cases t path with ⟨hmade, -⟩ | ⟨dir, -, -, habove, hmade⟩
  · rw [hmade]
    exact refl t path
  · rw [hmade]
    exact makeChain fun d hd => mem_above (habove ▸ hd)

end Grown

end Inlay.FileTree
