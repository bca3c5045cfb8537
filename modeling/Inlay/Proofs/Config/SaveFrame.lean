import Inlay.Config.Document
import Inlay.Proofs.Files.Blocked

/-!
What saving leaves alone. Only the file that is saved is written, the directories that are missing
above it are made, and when saving fails, be it that the directory cannot be made, that the settings
cannot be printed or that the file cannot be written, every file is as it was.
-/

namespace Inlay.Config

variable {y : Format} {t u : FileTree} {path : String} {s : Settings} {failure : Option SaveError}

/-! ### One save -/

/-- The ways in which saving can end, with the tree and the failure that are left. -/
inductive Format.Saves (y : Format) (t : FileTree) (path : String) (s : Settings) :
    FileTree → Option SaveError → Prop
  | create {u : FileTree} {dir : String} {cause : FileError}
      (hmade : t.makeParent path = (u, some (dir, cause))) :
      Saves y t path s u (some (.create dir cause))
  | serialize {u : FileTree} {cause : String} (hmade : t.makeParent path = (u, none))
      (hprint : y.print s = .error cause) : Saves y t path s u (some (.serialize cause))
  | write {u : FileTree} {text : String} {cause : FileError}
      (hmade : t.makeParent path = (u, none)) (hprint : y.print s = .ok text)
      (hwrite : u.write path text.toUTF8 = .error cause) :
      Saves y t path s u (some (.write path cause))
  | done {v u : FileTree} {text : String} (hmade : t.makeParent path = (v, none))
      (hprint : y.print s = .ok text) (hwrite : v.write path text.toUTF8 = .ok u) :
      Saves y t path s u none

lemma saves_of_save (h : y.save t path s = (u, failure)) : y.Saves t path s u failure := by
  unfold Format.save at h
  rcases hmade : t.makeParent path with ⟨v, _ | ⟨dir, cause⟩⟩
  · rw [hmade] at h
    simp only at h
    split at h
    · next hprint =>
      cases h
      exact .serialize hmade hprint
    · next hprint =>
      split at h
      · next hwrite =>
        cases h
        exact .done hmade hprint hwrite
      · next hwrite =>
        cases h
        exact .write hmade hprint hwrite
  · rw [hmade] at h
    cases h
    exact .create hmade

/-! ### What it leaves alone -/

/-- Directories have been made at most before the settings are printed. -/
lemma grown_of_makeParent {result : Option (String × FileError)}
    (h : t.makeParent path = (u, result)) : t.Grown u path := by
  have hgrown := FileTree.Grown.makeParent t path
  rwa [h] at hgrown

lemma grown_of_save_fails {e : SaveError} (h : y.save t path s = (u, some e)) :
    t.Grown u path := by
  cases saves_of_save h with
  | create hmade | serialize hmade _ | write hmade _ _ => exact grown_of_makeParent hmade

/-- When saving fails although the settings can be printed, there is something in the way. -/
lemma blocked_of_save_fails {e : SaveError} {text : String} (hprint : y.print s = .ok text)
    (h : y.save t path s = (u, some e)) : u.Blocked path := by
  by_cases hdot : (FilePath.names path).getLast? = some "."
  · exact .nameless fun n hn => .inl (Option.some.inj (hn.symm.trans hdot))
  · cases saves_of_save h with
    | create hmade =>
      exact .file (FileTree.walk_eq_notDirectory_iff.mp
        (FileTree.walk_of_makeParent_fails hdot hmade))
    | serialize _ hfails =>
      rw [hprint] at hfails
      contradiction
    | write hmade _ hwrite =>
      exact FileTree.blocked_of_write_fails
        (fun _ => FileTree.walk_of_makeParent hdot hmade) hwrite

/-- When settings have been saved, their file is at the place of the path, and every other place
has been kept. -/
lemma keptAt_of_save (h : y.save t path s = (u, none)) :
    ∃ text place, y.print s = .ok text ∧ u.locate path = .ok (some place) ∧
      u.at? place = some (.file text.toUTF8) ∧ u.read path = .ok text.toUTF8 ∧
      u.current = t.current ∧ ∀ other, other ≠ place → t.KeptAt u path other := by
  cases saves_of_save h with
  | @done v _ text hmade hprint hwrite =>
    have hgrown := grown_of_makeParent hmade
    have hread := (FileTree.read_write hwrite).1
    obtain ⟨place, hlocate, -, hplace, rfl⟩ := FileTree.write_eq_ok hwrite
    refine ⟨text, place, hprint, FileTree.locate_set hlocate hplace,
      FileTree.at?_set_self (FileTree.ne_root_of_locate hlocate), hread, hgrown.current_eq,
      fun other hother => ?_⟩
    have hsame : (v.set place (.file text.toUTF8)).at? other = v.at? other := by
      rw [FileTree.at?_set, if_neg hother]
      split
      · next hroot => rw [hroot, FileTree.at?_root]
      · rfl
    rcases hgrown.keptAt other with hkept | ⟨hnone, hdir, a, b, hnames, hb, hwalk⟩
    · exact .inl (hsame.trans hkept)
    · exact .inr ⟨hnone, hsame.trans hdir, a, b, hnames, hb, FileTree.walk_set hwalk hplace⟩

lemma save_succeeds_iff (h : y.save t path s = (u, failure)) :
    failure = none ↔ ¬u.Blocked path ∧ ∃ text, y.print s = .ok text := by
  cases failure with
  | none =>
    cases saves_of_save h with
    | done _ hprint hwrite =>
      exact iff_of_true rfl ⟨FileTree.not_blocked_of_write hwrite, _, hprint⟩
  | some e =>
    refine iff_of_false nofun fun ⟨hfree, text, hprint⟩ => ?_
    exact hfree (blocked_of_save_fails hprint h)

/-- That the settings cannot be printed is told exactly if it is so and the directory is there. -/
lemma save_serialize_iff (h : y.save t path s = (u, failure)) (cause : String) :
    failure = some (.serialize cause) ↔
      y.print s = .error cause ∧ (t.makeParent path).2 = none := by
  cases saves_of_save h with
  | create hmade => simp [hmade]
  | serialize hmade hprint => simp [hmade, hprint]
  | write _ hprint _ | done _ hprint _ => simp [hprint]

/-- **Saving changes its target only**, whatever the format is. It succeeds exactly if nothing is in
the way of the file in the tree that it leaves and the settings can be printed. What may be in the
way: the way leads through a file, there is a directory at the path, or the path names no file. That
the settings cannot be printed is told once the directory of the file is there. If saving succeeds,
the file at the path holds the settings as they are printed, and at every other place there is what
was there before, or a directory on the way to the file where nothing was. If it fails, at whatever
step, that holds of all places. So no other file comes, goes or changes, whatever the tree and the
path. -/
theorem save_changes_target_only (h : y.save t path s = (u, failure)) :
    (failure = none ↔ ¬u.Blocked path ∧ ∃ text, y.print s = .ok text) ∧
      (∀ cause, failure = some (.serialize cause) ↔
        y.print s = .error cause ∧ (t.makeParent path).2 = none) ∧
      u.current = t.current ∧
      (failure = none → ∃ text place, y.print s = .ok text ∧ u.locate path = .ok (some place) ∧
        u.at? place = some (.file text.toUTF8) ∧ u.read path = .ok text.toUTF8 ∧
        ∀ other, other ≠ place → t.KeptAt u path other ∧
          ∀ bytes, u.at? other = some (.file bytes) ↔ t.at? other = some (.file bytes)) ∧
      (failure ≠ none → ∀ other, t.KeptAt u path other ∧
        ∀ bytes, u.at? other = some (.file bytes) ↔ t.at? other = some (.file bytes)) := by
  refine ⟨save_succeeds_iff h, save_serialize_iff h, ?_⟩
  cases failure with
  | none =>
    obtain ⟨text, place, hprint, hlocate, hfile, hread, hcurrent, hkept⟩ := keptAt_of_save h
    refine ⟨hcurrent, fun _ => ?_, fun hfails => absurd rfl hfails⟩
    exact ⟨text, place, hprint, hlocate, hfile, hread,
      fun other hother => ⟨hkept other hother, (hkept other hother).file_iff⟩⟩
  | some e =>
    have hgrown := grown_of_save_fails h
    exact ⟨hgrown.current_eq, nofun,
      fun _ other => ⟨hgrown.keptAt other, (hgrown.keptAt other).file_iff⟩⟩

/-- Settings each of which would be taken for something else if it were written plain. -/
def oddSettings : Settings where
  languageId := "null"
  labelPrefix := " : # 'a'\n\n"
  decorationKey := "0x1F"
  decoration := ⟨"", "\t\"\u2028\\"⟩

def emptyTree : FileTree := ⟨(∅ : Table (List String) Entry).insert ["work"] .directory, ["work"]⟩

def notedTree : FileTree := emptyTree.set ["work", "notes"] (.file "kept".toUTF8)

/-- Two missing directories are made for a file, and one is made in vain where the way goes on
through the notes; the notes are kept. -/
theorem save_changes_target_only_beside_notes :
    (∃ u, yaml.save notedTree "new/deep/config.yaml" oddSettings = (u, none) ∧
      ¬u.Blocked "new/deep/config.yaml" ∧
      u.read "new/deep/config.yaml" = .ok oddSettings.print.toUTF8 ∧
      notedTree.KeptAt u "new/deep/config.yaml" ["work", "notes"]) ∧
    ∃ u, yaml.save notedTree "new/../notes/config.yaml" oddSettings =
        (u, some (.create "new/../notes" .exists)) ∧
      u.Blocked "new/../notes/config.yaml" ∧ u.at? ["work", "new"] = some .directory ∧
      ∀ other bytes, u.at? other = some (.file bytes) ↔
        notedTree.at? other = some (.file bytes) := by
  constructor
  · have hsaved : yaml.save notedTree "new/deep/config.yaml" oddSettings =
        (((notedTree.set ["work", "new"] .directory).set ["work", "new", "deep"] .directory).set
          ["work", "new", "deep", "config.yaml"] (.file oddSettings.print.toUTF8), none) := by
      rfl
    obtain ⟨hfree, -, -, hsuccess, -⟩ := save_changes_target_only hsaved
    obtain ⟨text, place, hprint, hlocate, -, hread, hkept⟩ := hsuccess rfl
    obtain rfl : oddSettings.print = text := Except.ok.inj hprint
    obtain rfl : ["work", "new", "deep", "config.yaml"] = place :=
      Option.some.inj (Except.ok.inj hlocate)
    exact ⟨_, hsaved, (hfree.mp rfl).1, hread, (hkept ["work", "notes"] (by decide)).1⟩
  · have hfails : yaml.save notedTree "new/../notes/config.yaml" oddSettings =
        (notedTree.set ["work", "new"] .directory, some (.create "new/../notes" .exists)) := by
      rfl
    obtain ⟨hfree, -, -, -, hfailure⟩ := save_changes_target_only hfails
    have hblocked : (notedTree.set ["work", "new"] .directory).Blocked
        "new/../notes/config.yaml" := by
      by_contra hnot
      exact nomatch hfree.mpr ⟨hnot, _, rfl⟩
    exact ⟨_, hfails, hblocked, rfl, fun other => (hfailure nofun other).2⟩

end Inlay.Config
