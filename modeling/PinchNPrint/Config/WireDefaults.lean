/-
Manifest defaults on the wire (`slicer-scheduler`: `manifest.rs`; `slicer-config`:
`resolution.rs`).

A default is a TOML value in the manifest, a text in the registry and a config value
once it seeds a resolution. `denotes` says what a TOML value of a declared type means;
`default_survives_wire_iff` says for which values the text in between keeps it. Lists
are joined with a bare comma, so an empty list and a comma inside an element are where
it does not.

How the `toml` crate prints a value is a parameter; `TomlDisplay` states what is used
of it.
-/

import PinchNPrint.Config.Typing

namespace PinchNPrint.Config

variable {F : Type} [Floats F]

/-- `toml::Value`. A date is its text. -/
inductive TomlValue (F : Type) where
  | string (value : String)
  | integer (value : Int64)
  | float (value : F)
  | boolean (value : Bool)
  | datetime (text : String)
  | array (items : List (TomlValue F))
  | table (rows : List (String × TomlValue F))

/-- The text of one element of an array default. -/
def itemToWire (display : TomlValue F → String) : TomlValue F → String
  | .string text => text
  | other => display other

def tomlDefaultToWire (display : TomlValue F → String) : TomlValue F → String
  | .string text => text
  | .array items => Text.join ',' (items.map (itemToWire display))
  | other => display other

/-- The number a default spells, `as_float` or else `as_integer`. -/
def TomlValue.number : TomlValue F → Option F
  | .float value => some value
  | .integer value => some (Floats.ofInt value.toInt)
  | _ => none

/-- `parse_percent_default` of a stated default; `none` is the load error. -/
def parsePercentDefault (fieldType : String) (default : TomlValue F) : Option (ConfigValue F) :=
  match default with
  | .string text =>
      let trimmed := Text.trim text
      match Text.stripSuffix '%' trimmed with
      | some number => (Floats.parse (Text.trim number)).map fun value =>
          if fieldType = "percent" then .percent value else .floatOrPercent value true
      | none =>
          if fieldType = "float_or_percent" then
            (Floats.parse trimmed).map fun value => .floatOrPercent value false
          else none
  | other =>
      if fieldType = "float_or_percent" then
        other.number.map fun value => .floatOrPercent value false
      else none

/-- The integer an element of a list denotes. -/
def TomlValue.asInt : TomlValue F → Option (ConfigValue F)
  | .integer value => some (.int value.toInt)
  | _ => none

/-- The float an element of a list denotes. -/
def TomlValue.asFloat (value : TomlValue F) : Option (ConfigValue F) :=
  value.number.map .float

/-- The text an element of a list denotes. -/
def TomlValue.asString : TomlValue F → Option (ConfigValue F)
  | .string text => some (.string text)
  | _ => none

/-- The value a TOML default of a declared type denotes; `none` when the default is not
of the type. -/
def denotes (fieldType : String) (default : TomlValue F) : Option (ConfigValue F) :=
  match fieldType, default with
  | "bool", .boolean value => some (.bool value)
  | "int", default => default.asInt
  | "float", default => default.asFloat
  | "string", default => default.asString
  | "enum", default => default.asString
  | "percent", default => parsePercentDefault "percent" default
  | "float_or_percent", default => parsePercentDefault "float_or_percent" default
  | "int-list", .array items => (items.mapM TomlValue.asInt).map .list
  | "float-list", .array items => (items.mapM TomlValue.asFloat).map .list
  | "string-list", .array items => (items.mapM TomlValue.asString).map .list
  | _, _ => none

/-- A text without blanks, commas and percent signs. -/
def PlainText (text : String) : Prop :=
  ∀ c ∈ text.toList, Text.isWhitespace c = false ∧ c ≠ ',' ∧ c ≠ '%'

/-- A default and, when it is an array, its elements. -/
def TomlValue.elements (default : TomlValue F) : List (TomlValue F) :=
  match default with
  | .array items => default :: items
  | _ => [default]

/-- What is used of how the `toml` crate prints a value, and of how a float is read: a
boolean and an integer are printed plainly, the floats of the default have plain texts,
its numbers are read back from their texts, and the empty text is no number. -/
structure TomlDisplay (display : TomlValue F → String) (default : TomlValue F) : Prop where
  boolean : ∀ value, display (.boolean value) = toString value
  integer : ∀ value, display (.integer value) = toString value.toInt
  plain : ∀ value, TomlValue.float value ∈ default.elements → PlainText (display (.float value))
  number : ∀ item ∈ default.elements, ∀ value, item.number = some value →
    Floats.parse (display item) = some value
  parseEmpty : (Floats.parse "" : Option F) = none

/-! ### Plain texts -/

theorem plainText_toString (value : Int) : PlainText (toString value) := by
  intro c hc
  rcases Text.mem_toList_toString hc with rfl | hdigit
  · decide
  · rw [Char.isDigit, Bool.and_eq_true, decide_eq_true_eq, decide_eq_true_eq] at hdigit
    have hlow : 48 ≤ c.toNat := hdigit.1
    have hhigh : c.toNat ≤ 57 := hdigit.2
    refine ⟨?_, ?_, ?_⟩
    · simp [Text.isWhitespace]
      omega
    · rintro rfl
      simp at hlow
    · rintro rfl
      simp at hlow

theorem PlainText.trim_eq {text : String} (h : PlainText text) : Text.trim text = text :=
  Text.trim_of_forall fun c hc => (h c hc).1

theorem PlainText.stripSuffix_eq {text : String} (h : PlainText text) :
    Text.stripSuffix '%' text = none := by
  rw [Text.stripSuffix]
  split
  · rename_i last rest hreverse
    have hlast : last ∈ text.toList := by
      rw [← List.mem_reverse, hreverse]
      exact List.mem_cons_self
    rw [if_neg]
    simpa using (h last hlast).2.2
  · rfl

theorem parseI64_trim_toString (value : Int64) :
    Text.parseI64 (Text.trim (toString value.toInt)) = some value.toInt := by
  rw [(plainText_toString _).trim_eq]
  exact Text.parseI64_toString value.le_toInt value.toInt_lt

section Display

variable {display : TomlValue F → String} {default : TomlValue F}
  (hdisplay : TomlDisplay display default)
include hdisplay

theorem itemToWire_integer (value : Int64) :
    itemToWire display (.integer value) = toString value.toInt :=
  hdisplay.integer value

/-- A number of the default is printed plainly and read back. -/
theorem plain_number {item : TomlValue F} (hitem : item ∈ default.elements) {value : F}
    (h : item.number = some value) :
    PlainText (display item) ∧ Floats.parse (display item) = some value ∧
      itemToWire display item = display item ∧ tomlDefaultToWire display item = display item := by
  have hparse := hdisplay.number item hitem value h
  cases item with
  | float number => exact ⟨hdisplay.plain number hitem, hparse, rfl, rfl⟩
  | integer number =>
    refine ⟨?_, hparse, rfl, rfl⟩
    rw [hdisplay.integer]
    exact plainText_toString _
  | string _ | boolean _ | datetime _ | array _ | table _ => cases h

end Display

/-- Where one traversal succeeds, one that agrees with it on every success gives the
same. -/
theorem mapM_eq_some_of_imp {α β : Type} {f g : α → Option β} {l : List α} {results : List β}
    (himp : ∀ a ∈ l, ∀ b, f a = some b → g a = some b) (h : l.mapM f = some results) :
    l.mapM g = some results := by
  induction l generalizing results with
  | nil => exact h
  | cons a rest ih =>
    rw [List.mapM_cons] at h ⊢
    obtain ⟨b, hb, h⟩ := Option.bind_eq_some_iff.mp h
    obtain ⟨others, hothers, h⟩ := Option.bind_eq_some_iff.mp h
    rw [himp a List.mem_cons_self b hb,
      ih (fun c hc => himp c (List.mem_cons_of_mem a hc)) hothers]
    exact h

/-- The elements of a traversal that succeeds are in its domain. -/
theorem exists_of_mapM_eq_some {α β : Type} {f : α → Option β} {l : List α} {results : List β}
    (h : l.mapM f = some results) : ∀ a ∈ l, ∃ b, f a = some b := by
  have hforall := List.forall₂_of_mapM_eq_some h
  clear h
  induction hforall with
  | nil => simp
  | cons hab _ ih => exact List.forall_mem_cons.mpr ⟨⟨_, hab⟩, ih⟩

section Lists

variable {display : TomlValue F → String}

section

omit [Floats F]

theorem split_wire {items : List (TomlValue F)} (hne : items ≠ [])
    (hplain : ∀ item ∈ items, ',' ∉ (itemToWire display item).toList) :
    Text.split ',' (Text.join ',' (items.map (itemToWire display))) =
      items.map (itemToWire display) := by
  apply Text.split_join
  · intro text htext
    obtain ⟨item, hitem, rfl⟩ := List.mem_map.mp htext
    exact hplain item hitem
  · simpa using hne

/-- A nonempty list is read back from its wire text when every element is. -/
theorem list_survives_iff {read : String → Option (ConfigValue F)}
    {denoted : TomlValue F → Option (ConfigValue F)} {items : List (TomlValue F)}
    {values : List (ConfigValue F)} (hvalues : items.mapM denoted = some values)
    (hempty : read "" = none)
    (hitem : ∀ item ∈ items, ∀ value, denoted item = some value →
      ',' ∉ (itemToWire display item).toList ∧ read (itemToWire display item) = some value) :
    ((Text.split ',' (Text.join ',' (items.map (itemToWire display)))).mapM read).map
        ConfigValue.list = some (.list values) ↔ items ≠ [] := by
  constructor
  · rintro h rfl
    change (List.mapM read [""]).map ConfigValue.list = _ at h
    rw [List.mapM_cons, hempty] at h
    cases h
  · intro hne
    have hplain : ∀ item ∈ items, ',' ∉ (itemToWire display item).toList := by
      intro item hmem
      obtain ⟨value, hvalue⟩ := exists_of_mapM_eq_some hvalues item hmem
      exact (hitem item hmem value hvalue).1
    have hread : items.mapM (read ∘ itemToWire display) = some values :=
      mapM_eq_some_of_imp (fun item hmem value hvalue => (hitem item hmem value hvalue).2)
        hvalues
    rw [split_wire hne hplain, List.mapM_map, hread, Option.map_some]

theorem strings_of_mapM {items : List (TomlValue F)} {values : List (ConfigValue F)}
    (h : items.mapM TomlValue.asString = some values) :
    ∃ texts : List String, items = texts.map .string ∧ values = texts.map .string := by
  have hforall := List.forall₂_of_mapM_eq_some h
  clear h
  induction hforall with
  | nil => exact ⟨[], rfl, rfl⟩
  | @cons item value items values hitem _ ih =>
    obtain ⟨texts, rfl, rfl⟩ := ih
    cases item with
    | string text =>
      cases hitem
      exact ⟨text :: texts, rfl, rfl⟩
    | integer _ | float _ | boolean _ | datetime _ | array _ | table _ => cases hitem

end

/-- Texts are read back from their join when none has a comma and they are not one empty
text. -/
theorem texts_survive_iff (texts : List String) :
    (if (Text.join ',' texts).isEmpty = true then [] else Text.split ',' (Text.join ',' texts)) =
      texts ↔ (∀ text ∈ texts, ',' ∉ text.toList) ∧ texts ≠ [""] := by
  by_cases hnil : texts = []
  · subst hnil
    simp [Text.join]
  split
  · rename_i hjoin
    rw [String.isEmpty_iff] at hjoin
    constructor
    · intro h
      exact absurd h.symm hnil
    · rintro ⟨hcomma, hsingle⟩
      have hsplit := Text.split_join hcomma hnil
      rw [hjoin] at hsplit
      exact absurd hsplit.symm hsingle
  · rename_i hjoin
    constructor
    · intro h
      refine ⟨fun text htext => Text.notMem_of_mem_split (h.symm ▸ htext), ?_⟩
      rintro rfl
      exact hjoin rfl
    · rintro ⟨hcomma, -⟩
      exact Text.split_join hcomma hnil

end Lists

/-! ### Which defaults survive -/

/-- The defaults the wire keeps: a list is not empty unless its elements are texts, it
is not one empty text, and no text in it has a comma. -/
def KeptOnWire (fieldType : String) : TomlValue F → Prop
  | .array items => (items = [] → fieldType = "string-list") ∧ items ≠ [.string ""] ∧
      ∀ text, TomlValue.string text ∈ items → ',' ∉ text.toList
  | _ => True

theorem keptOnWire_of_number {fieldType : String} {default : TomlValue F} {value : F}
    (h : default.number = some value) : KeptOnWire fieldType default := by
  cases default with
  | array _ => cases h
  | string _ | integer _ | float _ | boolean _ | datetime _ | table _ => trivial

omit [Floats F] in
theorem keptOnWire_numbers_iff {fieldType : String} {denoted : TomlValue F → Option (ConfigValue F)}
    (hfieldType : fieldType ≠ "string-list") (htext : ∀ text, denoted (.string text) = none)
    {items : List (TomlValue F)} {values : List (ConfigValue F)}
    (hvalues : items.mapM denoted = some values) :
    KeptOnWire fieldType (.array items) ↔ items ≠ [] := by
  have hno : ∀ text, TomlValue.string text ∉ items := by
    intro text hmem
    obtain ⟨value, hvalue⟩ := exists_of_mapM_eq_some hvalues _ hmem
    rw [htext] at hvalue
    cases hvalue
  constructor
  · rintro ⟨hempty, -⟩ hnil
    exact hfieldType (hempty hnil)
  · intro hne
    refine ⟨fun hnil => absurd hnil hne, ?_, fun text hmem => absurd hmem (hno text)⟩
    rintro rfl
    exact hno "" List.mem_cons_self

omit [Floats F] in
theorem keptOnWire_texts_iff (texts : List String) :
    KeptOnWire "string-list" (.array (texts.map TomlValue.string) : TomlValue F) ↔
      (∀ text ∈ texts, ',' ∉ text.toList) ∧ texts ≠ [""] := by
  have hsingle : texts.map TomlValue.string = [TomlValue.string (F := F) ""] ↔ texts = [""] := by
    constructor
    · intro h
      cases texts with
      | nil => cases h
      | cons text rest =>
        simp only [List.map_cons, List.cons.injEq, TomlValue.string.injEq, List.map_eq_nil_iff] at h
        rw [h.1, h.2]
    · rintro rfl
      rfl
  simp only [KeptOnWire, implies_true, true_and, ne_eq, hsingle, List.mem_map,
    TomlValue.string.injEq, exists_eq_right]
  exact and_comm

/-- A default comes back from the wire as the value it denotes exactly when the wire
keeps it. -/
theorem default_survives_wire_iff (display : TomlValue F → String) (entry : RegistryEntry F)
    (default : TomlValue F) (hdisplay : TomlDisplay display default) (value : ConfigValue F)
    (hdenotes : denotes entry.fieldType default = some value) :
    parseRegistryDefault entry (tomlDefaultToWire display default) = some value ↔
      KeptOnWire entry.fieldType default := by
  have hself : default ∈ default.elements := by
    cases default <;> exact List.mem_cons_self
  unfold parseRegistryDefault
  generalize entry.fieldType = fieldType at hdenotes ⊢
  unfold denotes at hdenotes
  split at hdenotes
  · -- bool
    rename_i flag
    cases hdenotes
    refine iff_of_true ?_ trivial
    have hwire : tomlDefaultToWire display (.boolean flag) = toString flag := hdisplay.boolean flag
    rw [hwire]
    cases flag <;> rfl
  · -- int
    cases default with
    | integer number =>
      cases hdenotes
      refine iff_of_true ?_ trivial
      change (Text.parseI64 (Text.trim (display (.integer number)))).map _ = _
      rw [hdisplay.integer, parseI64_trim_toString]
      rfl
    | string _ | float _ | boolean _ | datetime _ | array _ | table _ => cases hdenotes
  · -- float
    obtain ⟨number, hnumber, rfl⟩ := Option.map_eq_some_iff.mp hdenotes
    obtain ⟨hplain, hparse, -, hwire⟩ := plain_number hdisplay hself hnumber
    refine iff_of_true ?_ (keptOnWire_of_number hnumber)
    change (Floats.parse (Text.trim (tomlDefaultToWire display default))).map _ = _
    rw [hwire, hplain.trim_eq, hparse]
    rfl
  · -- string
    cases default with
    | string text =>
      cases hdenotes
      exact iff_of_true rfl trivial
    | integer _ | float _ | boolean _ | datetime _ | array _ | table _ => cases hdenotes
  · -- enum
    cases default with
    | string text =>
      cases hdenotes
      exact iff_of_true rfl trivial
    | integer _ | float _ | boolean _ | datetime _ | array _ | table _ => cases hdenotes
  · -- percent
    cases default with
    | string text =>
      simp only [parsePercentDefault] at hdenotes
      split at hdenotes
      · rename_i number hstrip
        refine iff_of_true ?_ trivial
        simp only [tomlDefaultToWire, hstrip, Option.getD_some]
        exact hdenotes
      · cases hdenotes
    | integer _ | float _ | boolean _ | datetime _ | array _ | table _ => cases hdenotes
  · -- float_or_percent
    by_cases htext : ∃ text, default = .string text
    · obtain ⟨text, rfl⟩ := htext
      simp only [parsePercentDefault] at hdenotes
      refine iff_of_true ?_ trivial
      split at hdenotes
      · rename_i number hstrip
        simp only [tomlDefaultToWire, hstrip]
        exact hdenotes
      · rename_i hstrip
        simp only [tomlDefaultToWire, hstrip]
        exact hdenotes
    · have hnumber : default.number.map (fun value => ConfigValue.floatOrPercent value false) =
          some value := by
        cases default with
        | string text => exact absurd ⟨text, rfl⟩ htext
        | integer _ | float _ | boolean _ | datetime _ | array _ | table _ => exact hdenotes
      obtain ⟨number, hdefault, rfl⟩ := Option.map_eq_some_iff.mp hnumber
      obtain ⟨hplain, hparse, -, hwire⟩ := plain_number hdisplay hself hdefault
      refine iff_of_true ?_ (keptOnWire_of_number hdefault)
      simp only [hwire, hplain.trim_eq, hplain.stripSuffix_eq, hparse, Option.map_some]
  · -- int-list
    rename_i items
    obtain ⟨values, hvalues, rfl⟩ := Option.map_eq_some_iff.mp hdenotes
    rw [keptOnWire_numbers_iff (by decide) (fun _ => rfl) hvalues]
    apply list_survives_iff hvalues
    · rfl
    · intro item _ value hvalue
      cases item with
      | integer number =>
        cases hvalue
        rw [itemToWire_integer hdisplay]
        refine ⟨fun hcomma => (plainText_toString _ _ hcomma).2.1 rfl, ?_⟩
        rw [parseI64_trim_toString]
        rfl
      | string _ | float _ | boolean _ | datetime _ | array _ | table _ => cases hvalue
  · -- float-list
    rename_i items
    obtain ⟨values, hvalues, rfl⟩ := Option.map_eq_some_iff.mp hdenotes
    rw [keptOnWire_numbers_iff (by decide) (fun _ => rfl) hvalues]
    apply list_survives_iff hvalues
    · change (Floats.parse "").map ConfigValue.float = none
      rw [hdisplay.parseEmpty]
      rfl
    · intro item hitem value hvalue
      obtain ⟨number, hnumber, rfl⟩ := Option.map_eq_some_iff.mp hvalue
      obtain ⟨hplain, hparse, hwire, -⟩ := plain_number hdisplay
        (List.mem_cons_of_mem _ hitem) hnumber
      rw [hwire]
      refine ⟨fun hcomma => (hplain _ hcomma).2.1 rfl, ?_⟩
      rw [hplain.trim_eq, hparse]
      rfl
  · -- string-list
    rename_i items
    obtain ⟨values, hvalues, rfl⟩ := Option.map_eq_some_iff.mp hdenotes
    obtain ⟨texts, rfl, rfl⟩ := strings_of_mapM hvalues
    have htexts : (texts.map TomlValue.string).map (itemToWire display) = texts := by
      rw [List.map_map]
      exact List.map_id texts
    have hinjective : Function.Injective (ConfigValue.string (F := F)) := fun _ _ h =>
      ConfigValue.string.inj h
    rw [keptOnWire_texts_iff, ← texts_survive_iff, ← hinjective.list_map.eq_iff]
    simp only [tomlDefaultToWire, htexts, Option.some_inj, ConfigValue.list.injEq]
    rw [apply_ite (List.map ConfigValue.string)]
    rfl
  · cases hdenotes

/-- Decimal texts with two places. -/
def displayDecimal : TomlValue ℚ → String
  | .boolean value => toString value
  | .integer value => toString value.toInt
  | .float value =>
      let hundredths := (value * 100).floor
      toString (hundredths / 100) ++ "." ++ toString (hundredths % 100)
  | _ => ""

/-- A declaration of a type and nothing else. -/
def typedEntry (fieldType : String) : RegistryEntry ℚ where
  key := "machine_values"
  fieldType
  default := none
  min := none
  max := none
  values := none
  deniedScopes := []
  selector := false
  omitFromConfigBlock := false
  baseKey := none
  hostMeta := none
  moduleMeta := none
  provenance := []

/-- An empty list of integers is not read back at all, one empty text is read back as no
text, and a text with a comma as two. -/
theorem default_lost_on_wire :
    (denotes "int-list" (.array [] : TomlValue ℚ) = some (.list []) ∧
      parseRegistryDefault (typedEntry "int-list")
        (tomlDefaultToWire displayDecimal (.array [])) = none) ∧
    (denotes "string-list" (.array [.string ""] : TomlValue ℚ) = some (.list [.string ""]) ∧
      parseRegistryDefault (typedEntry "string-list")
        (tomlDefaultToWire displayDecimal (.array [.string ""])) = some (.list [])) ∧
    (denotes "string-list" (.array [.string "a,b"] : TomlValue ℚ) =
        some (.list [.string "a,b"]) ∧
      parseRegistryDefault (typedEntry "string-list")
        (tomlDefaultToWire displayDecimal (.array [.string "a,b"])) =
        some (.list [.string "a", .string "b"])) := by
  decide +kernel

/-- A list of two numbers survives. -/
theorem default_survives_wire_iff_pair :
    parseRegistryDefault (typedEntry "float-list")
      (tomlDefaultToWire displayDecimal (.array [.float (1 / 4), .integer 2])) =
      some (.list [.float (1 / 4), .float 2]) := by
  have hdisplay : TomlDisplay displayDecimal (.array [.float (1 / 4), .integer 2]) := by
    refine ⟨fun _ => rfl, fun _ => rfl, ?_, ?_, by decide +kernel⟩
    · intro value hvalue
      simp only [TomlValue.elements, List.mem_cons, TomlValue.float.injEq, reduceCtorEq,
        List.not_mem_nil, or_false, false_or] at hvalue
      subst hvalue
      have htext : displayDecimal (.float (1 / 4)) = "0.25" := by decide +kernel
      intro c hc
      have hchars : c ∈ ['0', '.', '2', '5'] := by
        rw [htext] at hc
        exact hc
      simp only [List.mem_cons, List.not_mem_nil, or_false] at hchars
      rcases hchars with rfl | rfl | rfl | rfl <;> exact ⟨rfl, by decide, by decide⟩
    · intro item hitem value hnumber
      simp only [TomlValue.elements, List.mem_cons, List.not_mem_nil, or_false] at hitem
      rcases hitem with rfl | rfl | rfl
      · cases hnumber
      · cases hnumber
        decide +kernel
      · cases hnumber
        decide +kernel
  apply (default_survives_wire_iff displayDecimal (typedEntry "float-list") _ hdisplay _ ?_).mpr
  · refine ⟨by simp, by simp, by simp⟩
  · decide +kernel

end PinchNPrint.Config
