import Mathlib.Data.List.Basic
import Inlay.FileTree

/-!
A file that has been written. Where the directories are does not depend on the files, so a path
that has been written to names the same place afterwards: the bytes are read back from there,
writing them again changes nothing, and the directory of the path needs no making a second time.
-/

namespace Inlay

namespace Table

variable {κ α : Type} [DecidableEq κ]

lemma put_of_lookup {k : κ} {v : α} {es : List (κ × α)} (h : lookup k es = some v) :
    put k v es = es := by
  induction es with
  | nil => contradiction
  | cons e es ih =>
    rw [lookup] at h
    rw [put]
    split at h
    · next hk =>
      cases h
      rw [if_pos hk, ← hk]
    · next hk => rw [if_neg hk, ih h]

lemma insert_of_find? {t : Table κ α} {k : κ} {v : α} (h : t.find? k = some v) :
    t.insert k v = t :=
  congrArg Table.mk (put_of_lookup h)

end Table

namespace FileTree

variable {t u : FileTree} {path : String} {place q : List String} {names : List String}
  {e : Entry}

/-! ### Walking -/

lemma walk_append (t : FileTree) (p : List String) (a b : List String) :
    t.walk p (a ++ b) = (t.walk p a).bind fun q => t.walk q b := by
  induction a generalizing p with
  | nil => rfl
  | cons n ns ih =>
    rw [List.cons_append, walk, walk]
    split
    · exact ih p
    · split
      · exact ih p.dropLast
      · split
        · rfl
        · rfl
        · exact ih (p ++ [n])

/-- On a walk that succeeds one passes directories only. -/
lemma walk_mono (hkept : ∀ d, t.at? d = some .directory → u.at? d = some .directory)
    {p : List String} (h : t.walk p names = .ok q) : u.walk p names = .ok q := by
  induction names generalizing p with
  | nil => exact h
  | cons n ns ih =>
    rw [walk] at h ⊢
    split
    · next hdot =>
      rw [if_pos hdot] at h
      exact ih h
    · next hdot =>
      rw [if_neg hdot] at h
      split
      · next hup =>
        rw [if_pos hup] at h
        exact ih h
      · next hup =>
        rw [if_neg hup] at h
        split at h
        · contradiction
        · contradiction
        · next hdir =>
          rw [hkept _ hdir]
          exact ih h

lemma at?_set_of_directory {d : List String} (hplace : t.at? place ≠ some .directory)
    (h : t.at? d = some .directory) : (t.set place e).at? d = some .directory := by
  have hne : d ≠ place := fun heq => hplace (heq ▸ h)
  rw [at?_set, if_neg hne, h, ite_self]

lemma walk_set {p : List String} (h : t.walk p names = .ok q)
    (hplace : t.at? place ≠ some .directory) : (t.set place e).walk p names = .ok q :=
  walk_mono (fun _ => at?_set_of_directory hplace) h

/-! ### Places -/

lemma origin_set (t : FileTree) (path : String) : (t.set place e).origin path = t.origin path :=
  rfl

/-- The place that a path names, when all directories on the way are there. -/
lemma locate_eq_some (h : t.locate path = .ok (some place)) :
    ∃ n p, path ≠ "" ∧ (FilePath.names path).getLast? = some n ∧ n ≠ "." ∧ n ≠ ".." ∧
      t.walk (t.origin path) (FilePath.names path).dropLast = .ok p ∧ place = p ++ [n] := by
  unfold locate at h
  split at h
  · contradiction
  · next hpath =>
    simp only at h
    split at h
    · cases h
    · next n hn =>
      cases hwalk : t.walk (t.origin path) (FilePath.names path).dropLast with
      | error e =>
        rw [hwalk] at h
        contradiction
      | ok p =>
        rw [hwalk] at h
        by_cases hdots : n = "." ∨ n = ".."
        · simp [bind, Except.bind, hdots, pure, Except.pure] at h
        · simp only [bind, Except.bind, if_neg hdots, pure, Except.pure, Except.ok.injEq,
            Option.some.injEq] at h
          rw [not_or] at hdots
          exact ⟨n, p, hpath, hn, hdots.1, hdots.2, rfl, h.symm⟩

lemma locate_of_walk {n : String} {p : List String} (hpath : path ≠ "")
    (hn : (FilePath.names path).getLast? = some n)
    (hwalk : t.walk (t.origin path) (FilePath.names path).dropLast = .ok p) :
    t.locate path = .ok (if n = "." ∨ n = ".." then none else some (p ++ [n])) := by
  unfold locate
  rw [if_neg hpath]
  simp only [hn, hwalk]
  by_cases hdots : n = "." ∨ n = ".." <;> simp [bind, Except.bind, hdots, pure, Except.pure]

lemma locate_set (h : t.locate path = .ok (some q)) (hplace : t.at? place ≠ some .directory) :
    (t.set place e).locate path = .ok (some q) := by
  obtain ⟨n, p, hpath, hn, hdot, hup, hwalk, rfl⟩ := locate_eq_some h
  rw [locate_of_walk hpath hn (walk_set hwalk hplace), if_neg (not_or.mpr ⟨hdot, hup⟩)]

lemma ne_root_of_locate (h : t.locate path = .ok (some place)) : place ≠ [] := by
  obtain ⟨n, p, -, -, -, -, -, rfl⟩ := locate_eq_some h
  exact List.append_ne_nil_of_right_ne_nil p (List.cons_ne_nil n [])

lemma at?_set_self (h : place ≠ []) : (t.set place e).at? place = some e := by
  rw [at?_set, if_neg h, if_pos rfl]

/-! ### Directories -/

lemma isDirectory_iff : t.isDirectory path = true ↔
    path ≠ "" ∧ ∃ q, t.walk (t.origin path) (FilePath.names path) = .ok q := by
  unfold isDirectory
  rw [Bool.and_eq_true, decide_eq_true_iff]
  cases t.walk (t.origin path) (FilePath.names path) <;> simp [Except.toOption]

lemma isDirectory_set (h : t.isDirectory path = true) (hplace : t.at? place ≠ some .directory) :
    (t.set place e).isDirectory path = true := by
  obtain ⟨hpath, q, hwalk⟩ := isDirectory_iff.mp h
  exact isDirectory_iff.mpr ⟨hpath, q, walk_set hwalk hplace⟩

/-- What making a directory comes to: it is at the place of the path, where nothing was. -/
lemma makeDirectory_eq_ok (h : t.makeDirectory path = .ok u) : ∃ place,
    t.locate path = .ok (some place) ∧ t.at? place = none ∧ u = t.set place .directory := by
  unfold makeDirectory at h
  cases hlocate : t.locate path with
  | error e =>
    rw [hlocate] at h
    contradiction
  | ok found =>
    rw [hlocate] at h
    cases found with
    | none => contradiction
    | some place =>
      simp only [bind, Except.bind] at h
      split at h
      · contradiction
      · next hnone =>
        cases h
        exact ⟨place, rfl, hnone, rfl⟩

lemma walk_of_locate (hlocate : t.locate path = .ok (some place)) (hnone : t.at? place = none) :
    (t.set place .directory).walk (t.origin path) (FilePath.names path) = .ok place := by
  have hfree : t.at? place ≠ some .directory := by
    rw [hnone]
    exact nofun
  have hset := at?_set_self (t := t) (e := .directory) (ne_root_of_locate hlocate)
  obtain ⟨n, p, -, hn, hdot, hup, hwalk, rfl⟩ := locate_eq_some hlocate
  rw [← List.dropLast_append_getLast? n hn, walk_append, walk_set hwalk hfree]
  simp only [Except.bind, walk, if_neg hdot, if_neg hup, hset]

lemma isDirectory_of_makeDirectory (h : t.makeDirectory path = .ok u) :
    u.isDirectory path = true := by
  obtain ⟨place, hlocate, hnone, rfl⟩ := makeDirectory_eq_ok h
  obtain ⟨-, -, hpath, -⟩ := locate_eq_some hlocate
  exact isDirectory_iff.mpr ⟨hpath, place, walk_of_locate hlocate hnone⟩

lemma makeDirectory_of_isDirectory (h : t.isDirectory path = true) :
    t.makeDirectory path = .error .exists := by
  obtain ⟨hpath, q, hwalk⟩ := isDirectory_iff.mp h
  unfold makeDirectory
  cases hn : (FilePath.names path).getLast? with
  | none =>
    have hlocate : t.locate path = .ok none := by
      unfold locate
      rw [if_neg hpath]
      simp only [hn]
    rw [hlocate]
    rfl
  | some n =>
    rw [← List.dropLast_append_getLast? n hn, walk_append] at hwalk
    cases hfront : t.walk (t.origin path) (FilePath.names path).dropLast with
    | error e =>
      rw [hfront] at hwalk
      contradiction
    | ok p =>
      rw [locate_of_walk hpath hn hfront]
      rw [hfront] at hwalk
      by_cases hdots : n = "." ∨ n = ".."
      · simp [bind, Except.bind, hdots]
      · rw [not_or] at hdots
        simp only [Except.bind, walk, if_neg hdots.1, if_neg hdots.2] at hwalk
        split at hwalk
        · contradiction
        · contradiction
        · next hdir => simp [bind, Except.bind, hdots, hdir]

lemma makeChain_of_isDirectory (above : List String) (h : t.isDirectory path = true) :
    t.makeChain (path :: above) = (t, none) := by
  have hpath : path ≠ "" := (isDirectory_iff.mp h).1
  simp [makeChain, hpath, makeDirectory_of_isDirectory h, h]

lemma isDirectory_of_makeChain {above : List String} (hpath : path ≠ "")
    (h : t.makeChain (path :: above) = (u, none)) : u.isDirectory path = true := by
  rw [makeChain, if_neg hpath] at h
  split at h
  · next hmade =>
    cases h
    exact isDirectory_of_makeDirectory hmade
  · split at h
    · cases h
    · split at h
      · next hmade =>
        cases h
        exact isDirectory_of_makeDirectory hmade
      · split at h
        · next hdir =>
          cases h
          exact hdir
        · cases h
  · split at h
    · next hdir =>
      cases h
      exact hdir
    · cases h

/-- Once the directory of a path has been made there is nothing left to make, also after some file
has been written. -/
lemma makeParent_again {bytes : ByteArray} (h : t.makeParent path = (u, none))
    (hplace : u.at? place ≠ some .directory) :
    (u.set place (.file bytes)).makeParent path = (u.set place (.file bytes), none) := by
  unfold makeParent at h ⊢
  split
  · rfl
  · next parent hparent =>
    rw [hparent] at h
    simp only at h
    split at h
    · next hempty => rw [if_pos hempty]
    · next hempty =>
      rw [if_neg hempty]
      unfold makeDirectories at h ⊢
      rcases hchain : t.makeChain (parent :: FilePath.above parent) with ⟨v, _ | failure⟩
      · rw [hchain] at h
        cases h
        have hdir :=
          isDirectory_set (e := .file bytes) (isDirectory_of_makeChain hempty hchain) hplace
        rw [makeChain_of_isDirectory _ hdir]
        rfl
      · rw [hchain] at h
        cases h

/-! ### Files -/

/-- What writing a file comes to: its bytes are at the place of the path, and nothing else has
changed. -/
lemma write_eq_ok {bytes : ByteArray} (h : t.write path bytes = .ok u) :
    ∃ place, t.locate path = .ok (some place) ∧ FilePath.endsWithSlash path = false ∧
      t.at? place ≠ some .directory ∧ u = t.set place (.file bytes) := by
  unfold write at h
  cases hlocate : t.locate path with
  | error e =>
    rw [hlocate] at h
    contradiction
  | ok found =>
    rw [hlocate] at h
    cases found with
    | none => contradiction
    | some place =>
      simp only [bind, Except.bind] at h
      split at h
      · contradiction
      · next hslash =>
        split at h
        · contradiction
        · next hdir =>
          cases h
          exact ⟨place, rfl, Bool.eq_false_iff.mpr hslash, fun heq => hdir heq, rfl⟩

/-- **What has been written is read back**, and writing it again changes nothing. -/
theorem read_write {bytes : ByteArray} (h : t.write path bytes = .ok u) :
    u.read path = .ok bytes ∧ u.write path bytes = .ok u := by
  obtain ⟨place, hlocate, hslash, hplace, rfl⟩ := write_eq_ok h
  have hsame := locate_set (e := .file bytes) hlocate hplace
  have hset := at?_set_self (t := t) (e := .file bytes) (ne_root_of_locate hlocate)
  constructor
  · unfold read
    rw [hsame]
    simp only [bind, Except.bind, hset, hslash]
    rfl
  · unfold write
    rw [hsame]
    simp only [bind, Except.bind, hset, hslash]
    have hfind : (t.set place (.file bytes)).entries.find? place = some (.file bytes) := by
      rw [set, Table.find?_insert, if_pos rfl]
    have hagain : (t.set place (.file bytes)).set place (.file bytes) =
        t.set place (.file bytes) := by
      rw [set, Table.insert_of_find? hfind]
    rw [if_neg Bool.false_ne_true, hagain]

end FileTree

end Inlay
