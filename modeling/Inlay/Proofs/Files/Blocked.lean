import Inlay.Proofs.Files.Frame

/-!
What is in the way of a file. The directory of a path can always be made unless the way to it leads
through a file, and then the file can be written unless there is a directory at the path or the
path does not name a file.
-/

namespace Inlay.FileTree

open FilePath

variable {t u : FileTree} {path dir : String} {place p : List String} {bytes : ByteArray}

/-! ### Making directories -/

lemma makeDirectory_of_locate (h : t.locate path = .ok (some place)) :
    t.makeDirectory path = match t.at? place with
      | some _ => .error .exists
      | none => .ok (t.set place .directory) := by
  rw [makeDirectory, h]
  rfl

lemma walk_singleton {n : String} (hdot : n ≠ ".") (hup : n ≠ "..") :
    t.walk p [n] = match t.at? (p ++ [n]) with
      | none => .error .notFound
      | some (.file _) => .error .notDirectory
      | some .directory => .ok (p ++ [n]) := by
  rw [walk, if_neg hdot, if_neg hup]
  rfl

lemma walk_last {n : String} (hlast : (names path).getLast? = some n)
    (hwalk : t.walk place (names path).dropLast = .ok p) :
    t.walk place (names path) = t.walk p [n] := by
  rw [← List.dropLast_append_getLast? n hlast, walk_append, hwalk]
  rfl

/-- Where the directory of a path is there, the path is a directory already, or it becomes one, or
it is a file. -/
lemma makeDirectory_of_walk {n : String} (hpath : path ≠ "")
    (hlast : (names path).getLast? = some n)
    (hwalk : t.walk (t.origin path) (names path).dropLast = .ok p) :
    t.isDirectory path = true ∨ (∃ u, t.makeDirectory path = .ok u) ∨
      (t.makeDirectory path ≠ .error .notFound ∧
        t.walk (t.origin path) (names path) = .error .notDirectory) := by
  rw [isDirectory_iff, walk_last hlast hwalk]
  by_cases hdots : n = "." ∨ n = ".."
  · left
    rcases hdots with rfl | rfl
    · exact ⟨hpath, p, rfl⟩
    · exact ⟨hpath, p.dropLast, rfl⟩
  · have hlocate := locate_of_walk hpath hlast hwalk
    rw [if_neg hdots] at hlocate
    rw [not_or] at hdots
    rw [makeDirectory_of_locate hlocate, walk_singleton hdots.1 hdots.2]
    rcases t.at? (p ++ [n]) with _ | _ | bytes
    · exact .inr (.inl ⟨_, rfl⟩)
    · exact .inl ⟨hpath, p ++ [n], rfl⟩
    · exact .inr (.inr ⟨nofun, rfl⟩)

/-- All that can come of making a directory at a path that is not empty. -/
lemma makeDirectory_cases (t : FileTree) (hpath : path ≠ "") :
    t.isDirectory path = true ∨ (∃ u, t.makeDirectory path = .ok u) ∨
      (t.makeDirectory path ≠ .error .notFound ∧
        t.walk (t.origin path) (names path) = .error .notDirectory) ∨
      (t.makeDirectory path = .error .notFound ∧
        t.walk (t.origin path) (names path).dropLast = .error .notFound) := by
  rcases hlast : (names path).getLast? with _ | n
  · have hnil : names path = [] := List.getLast?_eq_none_iff.mp hlast
    exact .inl (isDirectory_iff.mpr ⟨hpath, t.origin path, by rw [hnil]; rfl⟩)
  · rcases hwalk : t.walk (t.origin path) (names path).dropLast with e | p
    · have hmake : t.makeDirectory path = .error e := by
        simp [makeDirectory, locate, hpath, hlast, hwalk, bind, Except.bind]
      rcases walk_eq_error hwalk with rfl | rfl
      · exact .inr (.inr (.inr ⟨hmake, rfl⟩))
      · refine .inr (.inr (.inl ⟨by rw [hmake]; nofun, ?_⟩))
        exact walk_error_of_prefix (List.dropLast_prefix _) hwalk
    · exact (makeDirectory_of_walk hpath hlast hwalk).imp_right (.imp_right .inl)

/-- Where making a directory and those above it can end badly: at the directory itself, or at one
above it, or at the directory after those above it have been made. -/
lemma makeChain_eq_some {dirs : List String} {e : FileError} (hpath : path ≠ "")
    (h : t.makeChain (path :: dirs) = (u, some e)) :
    (u = t ∧ t.isDirectory path ≠ true ∧ (∀ w, t.makeDirectory path ≠ .ok w) ∧
        t.makeDirectory path ≠ .error .notFound) ∨
      (t.makeDirectory path = .error .notFound ∧ (t.makeChain dirs = (u, some e) ∨
        (t.makeChain dirs = (u, none) ∧ u.isDirectory path ≠ true ∧
          ∀ w, u.makeDirectory path ≠ .ok w))) := by
  rw [makeChain, if_neg hpath] at h
  split at h
  · cases h
  · next hmissing =>
    right
    refine ⟨hmissing, ?_⟩
    rcases hchain : t.makeChain dirs with ⟨v, _ | e'⟩
    · rw [hchain] at h
      simp only at h
      split at h
      · cases h
      · next hmake =>
        obtain ⟨rfl, hfails⟩ := Prod.mk.inj h
        refine .inr ⟨rfl, fun hthere => ?_, fun w hw => ?_⟩
        · rw [if_pos hthere] at hfails
          contradiction
        · rw [hmake] at hw
          contradiction
    · rw [hchain] at h
      exact .inl h
  · next e' hne hmake =>
    obtain ⟨rfl, hfails⟩ := Prod.mk.inj h
    refine .inl ⟨rfl, fun hthere => ?_, fun w hw => ?_, fun hmissing => ?_⟩
    · rw [if_pos hthere] at hfails
      contradiction
    · rw [hmake] at hw
      contradiction
    · exact hne (Except.error.inj (hmake ▸ hmissing))

lemma isDirectory_of_steps (hdir : dir ≠ "") (h : steps (parts dir) = []) :
    t.isDirectory dir = true :=
  isDirectory_iff.mpr ⟨hdir, t.origin dir, by rw [walk_names, h]; rfl⟩

/-- The directory of a path is there once it has been made with those above it. -/
lemma walk_of_makeChain (hcontains : Contains dir path)
    (h : t.makeChain (dir :: above dir) = (u, none)) :
    ∃ p, u.walk (u.origin path) (steps (parts path)).dropLast = .ok p := by
  by_cases hdir : dir = ""
  · subst hdir
    exact ⟨u.origin path, by rw [← hcontains.steps_eq]; rfl⟩
  · obtain ⟨-, p, hwalk⟩ := isDirectory_iff.mp (isDirectory_of_makeChain hdir h)
    rw [walk_names, origin_congr u (hcontains.isAbsolute_eq hdir)] at hwalk
    exact ⟨p, hcontains.steps_eq ▸ hwalk⟩

/-- Making a directory and those above it fails only where the way leads through a file. -/
lemma walk_of_makeChain_fails {e : FileError} (hdir : dir ≠ "")
    (hdot : (names dir).getLast? = some "." → steps (parts dir) = [])
    (h : t.makeChain (dir :: above dir) = (u, some e)) :
    u.walk (u.origin dir) (names dir) = .error .notDirectory := by
  induction habove : above dir generalizing dir u e with
  | nil =>
    -- nothing is missing above a path without steps: it is the directory where it starts
    rw [makeChain_of_isDirectory _ (isDirectory_of_steps hdir (above_eq_nil habove))] at h
    cases h
  | cons d ds ih =>
    obtain ⟨hd, hcontains⟩ := above_eq_cons habove
    rw [habove] at h
    rcases makeChain_eq_some hdir h with
      ⟨rfl, hnot, hfails, hne⟩ | ⟨hmissing, hchain | ⟨hchain, hnot, hfails⟩⟩
    · rcases makeDirectory_cases u hdir with hthere | ⟨w, hmade⟩ | ⟨-, hfile⟩ | ⟨hmissing, -⟩
      · exact absurd hthere hnot
      · exact absurd hmade (hfails w)
      · exact hfile
      · exact absurd hmissing hne
    · -- one above it is a file, and the way to the directory goes on from there
      have hne : d ≠ "" := by
        rintro rfl
        cases hchain
      rw [← hd] at hchain
      have hfile := ih hne hcontains.steps_of_dot hchain hd
      rw [walk_names, hcontains.steps_eq, origin_congr u (hcontains.isAbsolute_eq hne)] at hfile
      rw [walk_names]
      exact walk_error_of_prefix (List.dropLast_prefix _) hfile
    · rcases makeDirectory_cases u hdir with hthere | ⟨w, hmade⟩ | ⟨-, hfile⟩ | ⟨-, hwalk⟩
      · exact absurd hthere hnot
      · exact absurd hmade (hfails w)
      · exact hfile
      · obtain ⟨p, hp⟩ := walk_of_makeChain hcontains (hd ▸ hchain)
        rw [walk_dropLast hdot, hp] at hwalk
        contradiction

/-! ### The directory of a path -/

/-- After the directory of a path has been made, it is there. -/
lemma walk_of_makeParent (hdot : (names path).getLast? ≠ some ".")
    (h : t.makeParent path = (u, none)) :
    ∃ p, u.walk (u.origin path) (names path).dropLast = .ok p := by
  rw [walk_dropLast (absurd · hdot)]
  rcases makeParent_cases t path with ⟨-, hsteps⟩ | ⟨dir, -, hcontains, -, hmade⟩
  · exact ⟨u.origin path, by rw [hsteps]; rfl⟩
  · rw [h] at hmade
    rcases hchain : t.makeChain (dir :: above dir) with ⟨v, _ | e⟩
    · rw [hchain] at hmade
      cases hmade
      exact walk_of_makeChain hcontains hchain
    · rw [hchain] at hmade
      cases hmade

/-- Where it could not be made, the way to the path leads through a file. -/
lemma walk_of_makeParent_fails {failure : String × FileError}
    (hdot : (names path).getLast? ≠ some ".") (h : t.makeParent path = (u, some failure)) :
    u.walk (u.origin path) (names path).dropLast = .error .notDirectory := by
  rw [walk_dropLast (absurd · hdot)]
  rcases makeParent_cases t path with ⟨hmade, -⟩ | ⟨dir, hdir, hcontains, -, hmade⟩
  · rw [h] at hmade
    cases hmade
  · rw [h] at hmade
    rcases hchain : t.makeChain (dir :: above dir) with ⟨v, _ | e⟩
    · rw [hchain] at hmade
      cases hmade
    · rw [hchain] at hmade
      cases hmade
      have hfile := walk_of_makeChain_fails hdir hcontains.steps_of_dot hchain
      rw [walk_names, hcontains.steps_eq, origin_congr _ (hcontains.isAbsolute_eq hdir)] at hfile
      exact hfile

/-! ### What is in the way of a file -/

/-- The names lead from a place through a file. -/
def ThroughFile (t : FileTree) (p names : List String) : Prop :=
  ∃ a n b q bytes, names = a ++ n :: b ∧ n ≠ "." ∧ n ≠ ".." ∧ t.walk p a = .ok q ∧
    t.at? (q ++ [n]) = some (.file bytes)

lemma ThroughFile.cons {n : String} {names : List String} (h : t.ThroughFile place names)
    (hwalk : t.walk p [n] = .ok place) : t.ThroughFile p (n :: names) := by
  obtain ⟨a, m, b, q, bytes, rfl, hdot, hup, ha, hfile⟩ := h
  refine ⟨n :: a, m, b, q, bytes, rfl, hdot, hup, ?_, hfile⟩
  have hcons : n :: a = [n] ++ a := rfl
  rw [hcons, walk_append, hwalk]
  exact ha

lemma walk_eq_notDirectory_iff {names : List String} :
    t.walk p names = .error .notDirectory ↔ t.ThroughFile p names := by
  constructor
  · intro h
    induction names generalizing p with
    | nil => contradiction
    | cons n ns ih =>
      rw [walk] at h
      split at h
      · next hdot => exact (ih h).cons (by rw [hdot]; rfl)
      · next hdot =>
        split at h
        · next hup => exact (ih h).cons (by rw [hup]; rfl)
        · next hup =>
          split at h
          · contradiction
          · next bytes hfile => exact ⟨[], n, ns, p, bytes, rfl, hdot, hup, rfl, hfile⟩
          · next hdir => exact (ih h).cons (by rw [walk_singleton hdot hup, hdir])
  · rintro ⟨a, n, b, q, bytes, rfl, hdot, hup, ha, hfile⟩
    rw [walk_append, ha]
    simp only [Except.bind, walk, if_neg hdot, if_neg hup, hfile]

/-- What can be in the way of a file at a path. -/
inductive Blocked (t : FileTree) (path : String) : Prop
  /-- The way to the path leads through a file. -/
  | file (h : t.ThroughFile (t.origin path) (names path).dropLast)
  /-- There is a directory at the path. -/
  | directory (h : t.isDirectory path = true)
  /-- The path is empty or the root, or it ends in dots. -/
  | nameless (h : ∀ n, (names path).getLast? = some n → n = "." ∨ n = "..")
  /-- The path ends like that of a directory. -/
  | slash (h : endsWithSlash path = true)

lemma blocked_of_write_fails {e : FileError}
    (hparent : (names path).getLast? ≠ some "." →
      ∃ p, t.walk (t.origin path) (names path).dropLast = .ok p)
    (h : t.write path bytes = .error e) : t.Blocked path := by
  rcases hlast : (names path).getLast? with _ | n
  · exact .nameless (by rw [hlast]; nofun)
  · by_cases hdots : n = "." ∨ n = ".."
    · exact .nameless fun m hm => Option.some.inj (hlast.symm.trans hm) ▸ hdots
    · have hpath : path ≠ "" := by
        rintro rfl
        cases hlast
      rw [not_or] at hdots
      obtain ⟨p, hwalk⟩ := hparent fun hdot => hdots.1 (Option.some.inj (hlast.symm.trans hdot))
      have hlocate := locate_of_walk hpath hlast hwalk
      rw [if_neg (not_or.mpr hdots)] at hlocate
      rw [write, hlocate] at h
      simp only [bind, Except.bind] at h
      split at h
      · next hslash => exact .slash hslash
      · split at h
        · next hdir =>
          refine .directory (isDirectory_iff.mpr ⟨hpath, p ++ [n], ?_⟩)
          rw [walk_last hlast hwalk, walk_singleton hdots.1 hdots.2, hdir]
        · cases h

lemma not_blocked_of_write (h : t.write path bytes = .ok u) : ¬u.Blocked path := by
  obtain ⟨place, hlocate, hslash, hplace, rfl⟩ := write_eq_ok h
  have hset := at?_set_self (t := t) (e := .file bytes) (ne_root_of_locate hlocate)
  obtain ⟨n, p, -, hlast, hdot, hup, hwalk, rfl⟩ :=
    locate_eq_some (locate_set (e := .file bytes) hlocate hplace)
  rintro (hfile | hdir | hnameless | hends)
  · rw [walk_eq_notDirectory_iff.mpr hfile] at hwalk
    contradiction
  · obtain ⟨-, q, hq⟩ := isDirectory_iff.mp hdir
    rw [walk_last hlast hwalk, walk_singleton hdot hup, hset] at hq
    contradiction
  · exact (hnameless n hlast).elim hdot hup
  · rw [hslash] at hends
    contradiction

end Inlay.FileTree
