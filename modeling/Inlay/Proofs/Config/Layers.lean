import Mathlib.Data.List.Basic
import Inlay.Config.Document

/-!
Files laid over one another, in whatever format they are written. Each key is settled by itself: by
the file of the project if it defines the key, else by that of the user, else by the built-in
settings. A file that can be parsed contributes what it defines, and any other file nothing; only a
file that is text and cannot be parsed is complained about.
-/

namespace Inlay.Config

/-- The keys of a configuration file. The two colours of a style count as one value. -/
inductive Key
  | languageId
  | labelPrefix
  | decorationKey
  | decoration

def Key.Value : Key → Type
  | decoration => Style
  | _ => String

def Settings.get (s : Settings) : (key : Key) → key.Value
  | .languageId => s.languageId
  | .labelPrefix => s.labelPrefix
  | .decorationKey => s.decorationKey
  | .decoration => s.decoration

def Layer.get? (l : Layer) : (key : Key) → Option key.Value
  | .languageId => l.languageId
  | .labelPrefix => l.labelPrefix
  | .decorationKey => l.decorationKey
  | .decoration => l.decoration

/-- What the file at a path contributes in a format, and what is recorded about it. -/
inductive Format.Contributes (y : Format) (t : FileTree) (path : String) :
    Layer → List Event → Prop
  /-- There is no file: nothing at all, or a directory. -/
  | missing {e : FileError} (h : t.read path = .error e) : Contributes y t path {} []
  | notText {bytes : ByteArray} (h : t.read path = .ok bytes)
      (htext : String.fromUTF8? bytes = none) : Contributes y t path {} []
  | faulty {bytes : ByteArray} {text cause : String} (h : t.read path = .ok bytes)
      (htext : String.fromUTF8? bytes = some text) (hparse : y.parse text = .error cause) :
      Contributes y t path {} [.log (.fileIgnored path)]
  | inOrder {bytes : ByteArray} {text : String} {l : Layer} (h : t.read path = .ok bytes)
      (htext : String.fromUTF8? bytes = some text) (hparse : y.parse text = .ok l) :
      Contributes y t path l []

/-- What the file of the user contributes; there is none without a home directory. -/
inductive Format.UserContributes (y : Format) (t : FileTree) :
    Option String → Layer → List Event → Prop
  | homeless : UserContributes y t none {} []
  | file {home : String} {l : Layer} {events : List Event}
      (h : y.Contributes t (userFile home) l events) : UserContributes y t (some home) l events

variable {y : Format} {t : FileTree} {path other home : String} {s r : Settings} {l : Layer}
  {events : List Event}

/-! ### One file -/

lemma get_over (s : Settings) (l : Layer) (key : Key) :
    (s.over l).get key = (l.get? key).getD (s.get key) := by
  cases key <;> rfl

lemma Settings.eq_of_get (h : ∀ key, s.get key = r.get key) : s = r := by
  obtain ⟨_, _, _, _⟩ := s
  obtain ⟨_, _, _, _⟩ := r
  obtain rfl := h .languageId
  obtain rfl := h .labelPrefix
  obtain rfl := h .decorationKey
  obtain rfl := h .decoration
  rfl

lemma Format.Contributes.readLayer_eq (h : y.Contributes t path l events) :
    y.readLayer t.readText path = (l, events) := by
  cases h with
  | missing h => simp only [readLayer, FileTree.readText, h, bind, Except.bind]
  | notText h htext => simp only [readLayer, FileTree.readText, h, bind, Except.bind, htext]
  | faulty h htext hparse | inOrder h htext hparse =>
    simp only [readLayer, FileTree.readText, h, bind, Except.bind, htext, hparse]

lemma exists_contributes (y : Format) (t : FileTree) (path : String) :
    ∃ l events, y.Contributes t path l events := by
  cases hread : t.read path with
  | error e => exact ⟨_, _, .missing hread⟩
  | ok bytes =>
    cases htext : String.fromUTF8? bytes with
    | none => exact ⟨_, _, .notText hread htext⟩
    | some text =>
      cases hparse : y.parse text with
      | error cause => exact ⟨_, _, .faulty hread htext hparse⟩
      | ok l => exact ⟨_, _, .inOrder hread htext hparse⟩

lemma exists_userContributes (y : Format) (t : FileTree) (home : Option String) :
    ∃ l events, y.UserContributes t home l events := by
  cases home with
  | none => exact ⟨_, _, .homeless⟩
  | some home =>
    obtain ⟨l, events, h⟩ := exists_contributes y t (userFile home)
    exact ⟨l, events, .file h⟩

lemma loadFrom_of_contributes (h : y.Contributes t path l events) :
    y.loadFrom t.readText path = (({} : Settings).over l, events) := by
  simp only [Format.loadFrom, Format.loadFiles, h.readLayer_eq, List.append_nil]

/-! ### Both files -/

lemma load_of_contributes {home : Option String} {user project : Layer}
    {userEvents projectEvents : List Event} (hu : y.UserContributes t home user userEvents)
    (hp : y.Contributes t projectFile project projectEvents) :
    y.load t.readText home =
      ((({} : Settings).over user).over project, userEvents ++ projectEvents) := by
  cases hu with
  | homeless => exact loadFrom_of_contributes hp
  | file hu =>
    simp only [Format.load, Option.map_some, Option.toList_some, List.singleton_append,
      Format.loadFiles, hu.readLayer_eq, hp.readLayer_eq, List.append_nil]

/-- To read a file twice is to read it once, but for what is recorded. -/
lemma over_over_self (s : Settings) (l : Layer) : (s.over l).over l = s.over l := by
  refine Settings.eq_of_get fun key => ?_
  rw [get_over, get_over]
  cases l.get? key <;> rfl

lemma getLast?_joinPath (base : String) {path : String} (h : path ≠ "") :
    (joinPath base path).toList.getLast? = path.toList.getLast? := by
  have hne : path.toList ≠ [] := fun heq => h (String.toList_eq_nil_iff.mp heq)
  unfold joinPath
  split
  · rw [String.toList_append, List.getLast?_append_of_ne_nil _ hne]
  · rw [String.toList_append, List.getLast?_append_of_ne_nil _ hne]

/-- Paths to the same place that do not ask for a directory read the same. -/
lemma read_eq_of_locate (hplace : t.locate path = t.locate other)
    (hpath : FilePath.endsWithSlash path = false) (hother : FilePath.endsWithSlash other = false) :
    t.read path = t.read other := by
  simp only [FileTree.read, hplace, hpath, hother]

lemma endsWithSlash_userFile (home : String) : FilePath.endsWithSlash (userFile home) = false := by
  rw [FilePath.endsWithSlash, userFile, getLast?_joinPath _ (by decide)]
  decide

/-- If both paths lead to one place, both files contribute the same. -/
lemma layer_eq_of_locate {l r : Layer} {events later : List Event}
    (hplace : t.locate (userFile home) = t.locate projectFile)
    (hu : y.Contributes t (userFile home) l events) (hp : y.Contributes t projectFile r later) :
    l = r := by
  have hread : t.read (userFile home) = t.read projectFile :=
    read_eq_of_locate hplace (endsWithSlash_userFile home) (by decide)
  have htext : t.readText (userFile home) = t.readText projectFile := by
    rw [FileTree.readText, hread, FileTree.readText]
  have hsame : (y.readLayer t.readText (userFile home)).1 =
      (y.readLayer t.readText projectFile).1 := by
    unfold Format.readLayer
    rw [htext]
    split
    · rfl
    · split <;> rfl
  rw [hu.readLayer_eq, hp.readLayer_eq] at hsame
  exact hsame

/-- **Each key is settled by itself.** Whatever the format is, whatever is at the paths of the two
files and whether there is a home directory, named or empty, each file is one of four cases: it is
missing, it is no text, it cannot be parsed, or it is in order. Only the last contributes anything,
and only the third is complained about, once each time the file is read. Loading gives each key the
value of the project if that defines it, else that of the user, else the built-in one; and loading
from a single file does the same with that file alone. So if the user contributes nothing, or both
are one file, all is as if the file of the project were loaded alone; and if the project contributes
nothing, as if that of the user were, or none without a home directory. -/
theorem load_by_key {y : Format} {t : FileTree} {home : Option String} {user project : Layer}
    {userEvents projectEvents : List Event} (hu : y.UserContributes t home user userEvents)
    (hp : y.Contributes t projectFile project projectEvents) :
    ((∀ key, (y.load t.readText home).1.get key =
        ((project.get? key).or (user.get? key)).getD (Settings.get {} key)) ∧
      (y.load t.readText home).2 = userEvents ++ projectEvents) ∧
    (∀ path l events, y.Contributes t path l events →
      (∀ key, (y.loadFrom t.readText path).1.get key =
        (l.get? key).getD (Settings.get {} key)) ∧
      (y.loadFrom t.readText path).2 = events) ∧
    ((∀ path, ∃ l events, y.Contributes t path l events) ∧
      ∀ home, ∃ l events, y.UserContributes t home l events) ∧
    (user = {} ∨ (∃ dir, home = some dir ∧ t.locate (userFile dir) = t.locate projectFile) →
      (y.load t.readText home).1 = (y.loadFrom t.readText projectFile).1) ∧
    (project = {} → (y.load t.readText home).1 =
      home.elim {} fun dir => (y.loadFrom t.readText (userFile dir)).1) := by
  have hload := load_of_contributes hu hp
  refine ⟨⟨fun key => ?_, by rw [hload]⟩, fun path l events h => ⟨fun key => ?_, ?_⟩,
    ⟨exists_contributes y t, exists_userContributes y t⟩, fun h => ?_, fun h => ?_⟩
  · rw [hload, get_over, get_over]
    cases project.get? key <;> rfl
  · rw [loadFrom_of_contributes h, get_over]
  · rw [loadFrom_of_contributes h]
  · rw [hload, loadFrom_of_contributes hp]
    rcases h with rfl | ⟨dir, rfl, hplace⟩
    · rw [Settings.over_empty]
    · cases hu with
      | file hu =>
        obtain rfl := layer_eq_of_locate hplace hu hp
        exact over_over_self {} user
  · rw [hload, h, Settings.over_empty]
    cases hu with
    | homeless => rfl
    | file hu => simp only [Option.elim_some, loadFrom_of_contributes hu]

def twoFiles (user project : String) : FileTree where
  entries := [(["home"], .directory), (["home", ".bindhints"], .directory),
    (["home", ".bindhints", "config.yaml"], .file user.toUTF8), (["work"], .directory),
    (["work", ".bindhints"], .directory),
    (["work", ".bindhints", "config.yaml"], .file project.toUTF8)].foldl
      (fun entries e => entries.insert e.1 e.2) ∅
  current := ["work"]

lemma fromUTF8?_toUTF8 (s : String) : String.fromUTF8? s.toUTF8 = some s :=
  dif_pos s.isValidUTF8

lemma read_projectFile (user project : String) :
    (twoFiles user project).read projectFile = .ok project.toUTF8 := rfl

lemma read_userFile (user project : String) :
    (twoFiles user project).read (userFile "/home") = .ok user.toUTF8 := by
  have hpath : userFile "/home" = "/home/.bindhints/config.yaml" := by decide +kernel
  rw [hpath]
  rfl

lemma userContributes_of_parse {user : String} (project : String)
    (h : y.parse user = .ok l) :
    y.UserContributes (twoFiles user project) (some "/home") l [] :=
  .file (.inOrder (read_userFile user project) (fromUTF8?_toUTF8 user) h)

/-- The file of the user defines two keys, that of the project one of them otherwise. -/
def ronFiles : FileTree := twoFiles "language_id: ron\nlabel_prefix: '-> '\n" "label_prefix: ''\n"

/-- As before, but the file of the project has a fault after the key. -/
def faultyFiles : FileTree :=
  twoFiles "language_id: ron\nlabel_prefix: '-> '\n" "label_prefix: ''\ndecoration: 7\n"

/-- The file of the project settles the key that it defines; with the fault it settles none. -/
theorem load_by_key_two_files :
    ((yaml.load ronFiles.readText (some "/home")).1.get .languageId = "ron" ∧
      (yaml.load ronFiles.readText (some "/home")).1.get .labelPrefix = "" ∧
      (yaml.load ronFiles.readText (some "/home")).1.get .decorationKey = "bindhints.typeHint" ∧
      (yaml.load ronFiles.readText (some "/home")).2 = []) ∧
    (yaml.load faultyFiles.readText (some "/home")).1 =
      (yaml.loadFrom faultyFiles.readText (userFile "/home")).1 ∧
    (yaml.load faultyFiles.readText (some "/home")).2 = [.log (.fileIgnored projectFile)] := by
  have huser : Layer.parse? "language_id: ron\nlabel_prefix: '-> '\n" =
      some { languageId := some "ron", labelPrefix := some "-> " } := by
    decide +kernel
  have hproject : Layer.parse? "label_prefix: ''\n" = some { labelPrefix := some "" } := by
    decide +kernel
  have hfault : Layer.parse? "label_prefix: ''\ndecoration: 7\n" = none := by
    decide +kernel
  obtain ⟨cause, hcause⟩ := yaml_parse_fails_iff.mpr hfault
  obtain ⟨⟨hkeys, hevents⟩, -⟩ :=
    load_by_key (userContributes_of_parse _ (yaml_parse_eq_ok_iff.mpr huser))
      (.inOrder (read_projectFile _ _) (fromUTF8?_toUTF8 _) (yaml_parse_eq_ok_iff.mpr hproject))
  obtain ⟨⟨-, hwarning⟩, -, -, -, hnone⟩ :=
    load_by_key (userContributes_of_parse _ (yaml_parse_eq_ok_iff.mpr huser))
      (.faulty (read_projectFile _ _) (fromUTF8?_toUTF8 _) hcause)
  exact ⟨⟨hkeys .languageId, hkeys .labelPrefix, hkeys .decorationKey, hevents⟩, hnone rfl,
    hwarning⟩

/-- A file is not complained about once only: with an empty name of the home directory the file of
the user and that of the project are one, which is read twice. -/
theorem ignored_twice_if_home_is_empty : ¬∀ (t : FileTree) (home : Option String) (path : String),
    path ∈ (home.map userFile).toList ++ [projectFile] →
    yaml.Contributes t path {} [.log (.fileIgnored path)] →
    (yaml.load t.readText home).2.count (.log (.fileIgnored path)) = 1 := by
  intro h
  have hfault : Layer.parse? "language_id: [unclosed\n" = none := by decide +kernel
  obtain ⟨cause, hcause⟩ := yaml_parse_fails_iff.mpr hfault
  have hproject : yaml.Contributes (twoFiles "" "language_id: [unclosed\n") projectFile {}
      [.log (.fileIgnored projectFile)] :=
    .faulty (read_projectFile _ _) (fromUTF8?_toUTF8 _) hcause
  have hsame : userFile "" = projectFile := by decide +kernel
  have huser : yaml.UserContributes (twoFiles "" "language_id: [unclosed\n") (some "") {}
      [.log (.fileIgnored projectFile)] :=
    .file (by rw [hsame]; exact hproject)
  have hone := h _ (some "") projectFile (List.mem_append_right _ List.mem_cons_self) hproject
  rw [load_of_contributes huser hproject] at hone
  exact absurd hone (by decide)

end Inlay.Config
