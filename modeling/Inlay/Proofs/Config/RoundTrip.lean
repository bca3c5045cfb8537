import Inlay.Config.Document
import Inlay.Proofs.Yaml.FieldTokens
import Inlay.Proofs.Yaml.MappingNode

/-!
Settings read back from the text that they were written as. Whatever the texts in the settings are,
the file is a mapping with one entry for each of them, and none of them is taken for a missing
value.
-/

namespace Inlay.Config

open Yaml

variable {s : Settings} {key value : String} {rest : List Char} {n : Nat}

/-! ### The text of the file -/

/-- A field without its indentation, and what follows it. -/
def fieldText (n : Nat) (key value : String) (rest : List Char) : List Char :=
  key.toList ++ ':' :: ' ' :: (printScalar (n + 2) value.toList ++ rest)

lemma printField_append (n : Nat) (key value : String) (rest : List Char) :
    printField n key value ++ rest = indentation n ++ fieldText n key value rest := by
  simp [printField, fieldText, indentStep]

def Style.fields (s : Style) : List Char :=
  fieldText 2 "color" s.color (indentation 2 ++
    fieldText 2 "background_color" s.backgroundColor (indentation 0 ++ []))

def Style.text (s : Style) : List Char :=
  "decoration".toList ++ ':' :: '\n' :: (indentation 2 ++ s.fields)

/-- A file with settings. -/
def Settings.text (s : Settings) : List Char :=
  fieldText 0 "language_id" s.languageId (indentation 0 ++
    fieldText 0 "label_prefix" s.labelPrefix (indentation 0 ++
      fieldText 0 "decoration_key" s.decorationKey (indentation 0 ++ s.decoration.text)))

lemma toList_print (s : Settings) : s.print.toList = s.text := by
  have hlast := printField_append indentStep "background_color" s.decoration.backgroundColor []
  rw [List.append_nil] at hlast
  have hline : "decoration:\n".toList = "decoration".toList ++ [':', '\n'] := by decide
  rw [Settings.print, String.toList_ofList, hlast, hline]
  simp only [List.append_assoc]
  simp only [printField_append]
  rfl

lemma keyText_iff (cs : List Char) : KeyText cs ↔ cs ≠ [] ∧
    (cs.head?.all fun c => decide ('a' ≤ c ∧ c ≤ 'z')) = true ∧ cs.all isNameChar = true ∧
    cs.length ≤ 1024 := by
  have hword : (cs.head?.all fun c => decide ('a' ≤ c ∧ c ≤ 'z')) = true ↔ WordNext cs := by
    rw [WordNext]
    cases cs.head? <;> simp
  rw [hword, List.all_eq_true]
  exact ⟨fun h => ⟨h.nonempty, h.word, h.name, h.short⟩, fun h => ⟨h.1, h.2.1, h.2.2.1, h.2.2.2⟩⟩

instance (cs : List Char) : Decidable (KeyText cs) := decidable_of_iff' _ (keyText_iff cs)

/-- The keys of a file need no quotes. -/
lemma keyText_key : ∀ key ∈ ["language_id", "label_prefix", "decoration_key", "decoration",
    "color", "background_color"], KeyText key.toList := by
  decide

lemma wordNext_fieldText (hkey : KeyText key.toList) (n : Nat) (value : String)
    (rest : List Char) : WordNext (fieldText n key value rest) := by
  obtain ⟨c, t, ht⟩ := List.exists_cons_of_ne_nil hkey.nonempty
  have hword := hkey.word
  rw [ht] at hword
  rw [fieldText, ht]
  exact hword

lemma writable_fieldText (hkey : Writable key.toList) (hrest : Writable rest) (n : Nat)
    (value : String) : Writable (fieldText n key value rest) := by
  have hvalue := writable_append.mpr ⟨writable_printScalar (n + 2) value.toList, hrest⟩
  exact writable_append.mpr ⟨hkey, writable_cons.mpr ⟨rfl, writable_cons.mpr ⟨rfl, hvalue⟩⟩⟩

lemma writable_print (s : Settings) : Writable s.print.toList := by
  have hindent : ∀ n cs, Writable cs → Writable (indentation n ++ cs) := fun n cs h =>
    writable_append.mpr ⟨writable_indentation n, h⟩
  have hstyle : Writable s.decoration.text := by
    have hfields : Writable s.decoration.fields :=
      writable_fieldText (by decide) (hindent 2 _ (writable_fieldText (by decide)
        (hindent 0 _ writable_nil) 2 _)) 2 _
    exact writable_append.mpr
      ⟨by decide, writable_cons.mpr ⟨rfl, writable_cons.mpr ⟨rfl, hindent 2 _ hfields⟩⟩⟩
  rw [toList_print]
  refine writable_fieldText (by decide) (hindent 0 _ ?_) 0 _
  refine writable_fieldText (by decide) (hindent 0 _ ?_) 0 _
  exact writable_fieldText (by decide) (hindent 0 _ hstyle) 0 _

/-! ### The tokens of the file -/

def fieldTokens (key value : String) : List Token :=
  [.key, .scalar true key.toList, .value, .scalar (isPlain value.toList) value.toList]

/-- The tokens of the part that describes the style, and of the end of the file. -/
def Style.tokens (s : Style) : List Token :=
  [.key, .scalar true "decoration".toList, .value, .blockMappingStart] ++
    fieldTokens "color" s.color ++ fieldTokens "background_color" s.backgroundColor ++
    [.blockEnd, .blockEnd, .streamEnd]

/-- The tokens of a file with settings. -/
def Settings.tokens (s : Settings) : List Token :=
  .blockMappingStart :: fieldTokens "language_id" s.languageId ++
    fieldTokens "label_prefix" s.labelPrefix ++ fieldTokens "decoration_key" s.decorationKey ++
    s.decoration.tokens

lemma run?_fieldText {l : Lexer} {k : Nat} {indents : List Nat} {tokens : List Token}
    (ha : l.Arrives (fieldText n key value (indentation k ++ rest)) n indents tokens)
    (hkey : KeyText key.toList) (hfloor : floorOf indents ≤ n + 1) (hk : k ≤ n)
    (hrest : WordNext rest) : ∃ next : Lexer, l.run? = next.run? ∧
      next.Arrives rest k (opened n indents) (tokens ++ keyTokens n indents key.toList ++
        [.scalar (isPlain value.toList) value.toList]) :=
  Lexer.run?_field ha hkey hfloor hk hrest

/-- The style stands one level further in. -/
lemma run?_styleText {l : Lexer} {s : Style} {tokens : List Token}
    (ha : l.Arrives s.text 0 [0] tokens) : l.run? = some (tokens ++ s.tokens) := by
  have hcolor := keyText_key "color" (by decide)
  have hbackground := keyText_key "background_color" (by decide)
  obtain ⟨m, -, hrun₁⟩ := Lexer.run?_key ha (keyText_key "decoration" (by decide)) rfl (by decide)
  have h₁ : (Lexer.block ('\n' :: (indentation 2 ++ s.fields)) m (opened 0 [0]) false
      (tokens ++ keyTokens 0 [0] "decoration".toList)).Arrives s.fields 2 (opened 0 [0])
      (tokens ++ keyTokens 0 [0] "decoration".toList) :=
    Lexer.arrives_lineEnd (wordNext_fieldText hcolor 2 s.color _) m 2 _ _
  obtain ⟨l₂, hrun₂, h₂⟩ := run?_fieldText h₁ hcolor (by decide) (Nat.le_refl 2)
    (wordNext_fieldText hbackground 2 s.backgroundColor _)
  obtain ⟨l₃, hrun₃, h₃⟩ := run?_fieldText h₂ hbackground (by decide) (Nat.zero_le 2) nofun
  rw [hrun₁, hrun₂, hrun₃, Lexer.run?_end h₃]
  simp only [List.append_assoc]
  rfl

lemma tokens?_print (s : Settings) : tokens? s.print.toList = some s.tokens := by
  have hlanguage := keyText_key "language_id" (by decide)
  have hlabel := keyText_key "label_prefix" (by decide)
  have hdecoration := keyText_key "decoration_key" (by decide)
  have hstyle : WordNext s.decoration.text := (keyText_key "decoration" (by decide)).word
  rw [tokens?_of_writable (writable_print s), toList_print]
  have h₀ : (Lexer.new s.text).Arrives s.text 0 [] [] :=
    Lexer.arrives_word (wordNext_fieldText hlanguage 0 s.languageId _) 0 0 [] []
  obtain ⟨l₁, hrun₁, h₁⟩ := run?_fieldText h₀ hlanguage (by decide) (Nat.le_refl 0)
    (wordNext_fieldText hlabel 0 s.labelPrefix _)
  obtain ⟨l₂, hrun₂, h₂⟩ := run?_fieldText h₁ hlabel (by decide) (Nat.le_refl 0)
    (wordNext_fieldText hdecoration 0 s.decorationKey _)
  obtain ⟨l₃, hrun₃, h₃⟩ := run?_fieldText h₂ hdecoration (by decide) (Nat.le_refl 0) hstyle
  refine hrun₁.trans (hrun₂.trans (hrun₃.trans ((run?_styleText h₃).trans ?_)))
  rfl

/-! ### The node of the file -/

def entry (key value : String) : Node × Node :=
  (.ofText true key.toList, .ofText (isPlain value.toList) value.toList)

def Style.node (s : Style) : Node :=
  .mapping none [entry "color" s.color, entry "background_color" s.backgroundColor]

def Settings.entries (s : Settings) : List (Node × Node) :=
  [entry "language_id" s.languageId, entry "label_prefix" s.labelPrefix,
    entry "decoration_key" s.decorationKey, (.ofText true "decoration".toList, s.decoration.node)]

lemma feedAll?_tokens (s : Settings) : Builder.new.feedAll? s.tokens =
    some (Builder.new.goto (.ended (some (.mapping none s.entries)))) := by
  simp only [Settings.tokens, Style.tokens, fieldTokens, List.cons_append, List.nil_append]
  rw [Builder.feedAll?_cons Builder.feed?_new, Builder.feedAll?_field, Builder.feedAll?_field,
    Builder.feedAll?_field, Builder.feedAll?_key, Builder.feedAll?_cons Builder.feed?_start,
    Builder.feedAll?_field, Builder.feedAll?_field, Builder.feedAll?_cons Builder.feed?_end,
    Builder.feedAll?_cons Builder.feed?_last]
  rfl

lemma document?_print (s : Settings) :
    document? s.print.toList = some (some (.mapping none s.entries)) := by
  have hfed := feedAll?_tokens s
  rw [Builder.feedAll?] at hfed
  rw [document?, tokens?_print, Option.bind_some, build?, hfed]
  rfl

/-! ### The layer of the file -/

/-- A text that was written stands for no missing value. -/
lemma isAbsent?_ofText (value : List Char) :
    isAbsent? (.ofText (isPlain value) value) = some false := by
  cases hplain : isPlain value with
  | false => rfl
  | true =>
    have hclear := (plainText_of_styleOf (of_decide_eq_true hplain)).clear
    simp only [isAmbiguous, Bool.or_eq_false_iff] at hclear
    simp only [Node.ofText, isAbsent?, hclear.1.1.1.1.1, hclear.1.1.1.1.2, Bool.or_false]

lemma text?_ofText (root : Node) (plain : Bool) (text : String) :
    text? root (.ofText plain text.toList) = some text := by
  simp [text?, Node.ofText, Node.follow]

/-- One more entry with a known key. -/
lemma fields?_cons {α : Type} {root v : Node} {known : List String}
    {read : String → Node → Option α} {es : List (Node × Node)} {t : Table String α} {x : α}
    (hes : fields? root known read es = some t) (hknown : key ∈ known)
    (hfresh : t.find? key = none) (hread : read key v = some x) :
    fields? root known read ((.ofText true key.toList, v) :: es) = some (t.insert key x) := by
  simp [fields?, text?_ofText, hes, hknown, hfresh, hread]

lemma style?_node (root : Node) (s : Style) : style? root s.node = some s := by
  have hfields : fields? root ["color", "background_color"] (fun _ => text? root)
      [entry "color" s.color, entry "background_color" s.backgroundColor] =
      some (((∅ : Table String String).insert "background_color" s.backgroundColor).insert "color"
        s.color) :=
    fields?_cons (fields?_cons rfl (by decide) rfl (text?_ofText _ _ _)) (by decide) (by simp)
      (text?_ofText _ _ _)
  simp [Style.node, style?, hfields]

lemma value?_ofText (root : Node) (hkey : key ≠ "decoration") (value : String) :
    value? root key (.ofText (isPlain value.toList) value.toList) =
      some (.text (some value)) := by
  have hfollow : (Node.ofText (isPlain value.toList) value.toList).follow root =
      some (.ofText (isPlain value.toList) value.toList) := rfl
  simp [value?, hkey, optional?, hfollow, isAbsent?_ofText, text?_ofText]

lemma value?_node (root : Node) (s : Style) :
    value? root "decoration" s.node = some (.style (some s)) := by
  have hfollow : s.node.follow root = some s.node := rfl
  have habsent : isAbsent? s.node = some false := rfl
  simp [value?, optional?, hfollow, habsent, style?_node]

/-- **Settings are read back from what was written**, whatever their texts are. -/
theorem parse?_print (s : Settings) : Layer.parse? s.print =
    some ⟨some s.languageId, some s.labelPrefix, some s.decorationKey, some s.decoration⟩ := by
  have hfields : fields? (.mapping none s.entries)
      ["language_id", "label_prefix", "decoration_key", "decoration"]
      (value? (.mapping none s.entries)) s.entries =
      some (((((∅ : Table String Value).insert "decoration" (.style (some s.decoration))).insert
        "decoration_key" (.text (some s.decorationKey))).insert
        "label_prefix" (.text (some s.labelPrefix))).insert
        "language_id" (.text (some s.languageId))) := by
    refine fields?_cons (fields?_cons (fields?_cons (fields?_cons rfl (by decide) rfl
      (value?_node _ _)) (by decide) ?_ (value?_ofText _ (by decide) _)) (by decide) ?_
      (value?_ofText _ (by decide) _)) (by decide) ?_ (value?_ofText _ (by decide) _)
    all_goals simp
  rw [Layer.parse?, document?_print, Option.bind_some]
  simp [Layer.ofDocument?, hfields, Value.text?, Value.style?]

end Inlay.Config
