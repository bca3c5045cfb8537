import Inlay.Proofs.Config.Layers
import Inlay.Proofs.Config.RoundTrip
import Inlay.Proofs.Config.SaveFrame

/-!
Saved settings. In a format in which what is printed is parsed again, settings that have been saved
are loaded from the same path as they were, and to save what was loaded changes nothing. YAML is
such a format.
-/

namespace Inlay.Config

variable {y : Format} {t u : FileTree} {path : String} {s : Settings}

/-- What has been saved may be saved again: nothing changes. -/
lemma save_again (h : y.save t path s = (u, none)) : y.save u path s = (u, none) := by
  cases saves_of_save h with
  | done hmade hprint hwrite =>
    obtain ⟨place, -, -, hplace, rfl⟩ := FileTree.write_eq_ok hwrite
    rw [Format.save, FileTree.makeParent_again hmade hplace]
    simp only [hprint, (FileTree.read_write hwrite).2]

/-! ### Loading what was saved -/

/-- The layer that settles every key. -/
def Settings.layer (s : Settings) : Layer where
  languageId := some s.languageId
  labelPrefix := some s.labelPrefix
  decorationKey := some s.decorationKey
  decoration := some s.decoration

lemma over_layer (s r : Settings) : r.over s.layer = s := rfl

/-- What is printed is parsed again, as a layer that settles every key. -/
def Format.ReadsBack (y : Format) : Prop :=
  ∀ s text, y.print s = .ok text → y.parse text = .ok s.layer

/-- **What is saved is loaded** if what is printed is parsed again. Wherever settings are saved, if
that succeeds then loading from the same path gives them back and records nothing. To save what was
loaded succeeds too and leaves every file as it was, the saved one with the same bytes. -/
theorem loadFrom_save (hback : y.ReadsBack) (h : y.save t path s = (u, none)) :
    y.loadFrom u.readText path = (s, []) ∧
      y.save u path (y.loadFrom u.readText path).1 = (u, none) ∧
      ∃ text, y.print s = .ok text ∧ u.read path = .ok text.toUTF8 := by
  obtain ⟨text, -, hprint, -, -, hread, -⟩ := keptAt_of_save h
  have hload : y.loadFrom u.readText path = (s, []) := by
    rw [loadFrom_of_contributes (.inOrder hread (fromUTF8?_toUTF8 text) (hback s text hprint)),
      over_layer]
  refine ⟨hload, ?_, text, hprint, hread⟩
  rw [hload]
  exact save_again h

/-- **YAML reads back what it has printed**, whatever the texts in the settings are. -/
theorem yaml_readsBack : yaml.ReadsBack := by
  intro s text hprint
  obtain rfl : s.print = text := Except.ok.inj hprint
  exact yaml_parse_eq_ok_iff.mpr (parse?_print s)

/-- The directory of the file is made, and the odd settings are loaded as they were saved. -/
example : ∃ u, yaml.save emptyTree ".bindhints/config.yaml" oddSettings = (u, none) ∧
    yaml.loadFrom u.readText ".bindhints/config.yaml" = (oddSettings, []) := by
  have hsaved : yaml.save emptyTree ".bindhints/config.yaml" oddSettings =
      ((emptyTree.set ["work", ".bindhints"] .directory).set
        ["work", ".bindhints", "config.yaml"] (.file oddSettings.print.toUTF8), none) := by
    rfl
  exact ⟨_, hsaved, (loadFrom_save yaml_readsBack hsaved).1⟩

end Inlay.Config
