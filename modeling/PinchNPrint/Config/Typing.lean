/-
What ingestion types, resolution accepts (`slicer-config`: `ingestion.rs`, `resolution.rs`).

The coercer and the validator are two matches over the field types. They meet in
the values the coercer gives (`TypedValue`): it gives no others, it gives these back
unchanged, and the validator rejects one of them only for its bounds.
-/

import PinchNPrint.Config.Ingestion
import PinchNPrint.Config.Precedence
import PinchNPrint.Lib.Grouping

namespace PinchNPrint.Config

variable {F : Type} [Floats F]

/-- `TypedValue fieldType value`: the value is in the form the coercer gives values of
the type. -/
inductive TypedValue : String → ConfigValue F → Prop
  | bool (value : Bool) : TypedValue "bool" (.bool value)
  | int (value : Int) : TypedValue "int" (.int value)
  | float {value : F} : Floats.isFinite value = true → TypedValue "float" (.float value)
  | string (value : String) : TypedValue "string" (.string value)
  | enum (value : String) : TypedValue "enum" (.string value)
  | percent (value : F) : TypedValue "percent" (.percent value)
  | floatOrPercent (value : F) (isPercent : Bool) :
      TypedValue "float_or_percent" (.floatOrPercent value isPercent)
  | floatList {values : List F} : (∀ value ∈ values, Floats.isFinite value = true) →
      TypedValue "float-list" (.list (values.map .float))
  | intList (values : List Int) : TypedValue "int-list" (.list (values.map .int))
  | stringList (values : List String) : TypedValue "string-list" (.list (values.map .string))

/-! ### The coercer gives typed values -/

theorem isFinite_of_parseFiniteFloat {text : String} {value : F}
    (h : parseFiniteFloat text = some value) : Floats.isFinite value = true :=
  (Option.filter_eq_some_iff.mp h).2

theorem of_finite {value : F} {result typed : ConfigValue F} (h : finite value result = some typed) :
    Floats.isFinite value = true ∧ typed = result := by
  rw [finite] at h
  split at h
  · cases h
    exact ⟨‹_›, rfl⟩
  · cases h

variable {α β γ : Type} {value : ConfigValue F} {fieldType : String}

theorem forall_of_mapM {f : α → Option β} {P : β → Prop} (hf : ∀ a b, f a = some b → P b)
    {l : List α} {results : List β} (h : l.mapM f = some results) : ∀ b ∈ results, P b := by
  have hforall := List.forall₂_of_mapM_eq_some h
  clear h
  induction hforall with
  | nil => simp
  | cons hab _ ih => exact List.forall_mem_cons.mpr ⟨hf _ _ hab, ih⟩

theorem exists_map_of_forall {g : γ → β} {P : γ → Prop} {results : List β}
    (h : ∀ b ∈ results, ∃ c, P c ∧ b = g c) :
    ∃ values : List γ, (∀ c ∈ values, P c) ∧ results = values.map g := by
  induction results with
  | nil => exact ⟨[], by simp, rfl⟩
  | cons b rest ih =>
    obtain ⟨⟨c, hc, rfl⟩, hrest⟩ := List.forall_mem_cons.mp h
    obtain ⟨values, hvalues, rfl⟩ := ih hrest
    exact ⟨c :: values, List.forall_mem_cons.mpr ⟨hc, hvalues⟩, rfl⟩

/-- A list of finite floats. -/
def FiniteFloats (items : List (ConfigValue F)) : Prop :=
  ∃ values : List F, (∀ value ∈ values, Floats.isFinite value = true) ∧ items = values.map .float

theorem FiniteFloats.flatten {lists : List (List (ConfigValue F))}
    (h : ∀ items ∈ lists, FiniteFloats items) : FiniteFloats lists.flatten := by
  induction lists with
  | nil => exact ⟨[], by simp, rfl⟩
  | cons items rest ih =>
    obtain ⟨values, hvalues, rfl⟩ := h items List.mem_cons_self
    obtain ⟨others, hothers, hrest⟩ := ih fun other hother => h other (List.mem_cons_of_mem _ hother)
    refine ⟨values ++ others, ?_, ?_⟩
    · intro value hvalue
      exact (List.mem_append.mp hvalue).elim (hvalues value) (hothers value)
    · rw [List.flatten_cons, hrest, List.map_append]

theorem FiniteFloats.single {value : F} (h : Floats.isFinite value = true) :
    FiniteFloats [ConfigValue.float value] :=
  ⟨[value], by simpa using h, rfl⟩

theorem finiteFloats_floatListEntry {text : String} {items : List (ConfigValue F)}
    (h : floatListEntry text = some items) : FiniteFloats items := by
  rw [floatListEntry] at h
  split at h
  · rename_i x y hpair
    cases h
    rw [parsePointPair, Option.bind_eq_bind] at hpair
    obtain ⟨⟨left, right⟩, -, hpair⟩ := Option.bind_eq_some_iff.mp hpair
    obtain ⟨x', hx, hpair⟩ := Option.bind_eq_some_iff.mp hpair
    obtain ⟨y', hy, hpair⟩ := Option.bind_eq_some_iff.mp hpair
    cases hpair
    exact ⟨[x, y], by simpa using
      ⟨isFinite_of_parseFiniteFloat hx, isFinite_of_parseFiniteFloat hy⟩, rfl⟩
  · obtain ⟨value, hvalue, rfl⟩ := Option.map_eq_some_iff.mp h
    exact .single (isFinite_of_parseFiniteFloat hvalue)

/-- What is assumed of the host's floating point: an `i64` is finite as an `f64`. -/
def FiniteInts (F : Type) [Floats F] : Prop :=
  ∀ value : Int, Floats.isFinite (Floats.ofInt value : F) = true

theorem finiteFloats_floatListItem (hints : FiniteInts F) {item : ConfigValue F}
    {items : List (ConfigValue F)} (h : floatListItem item = some items) : FiniteFloats items := by
  cases item with
  | float value =>
    simp only [floatListItem] at h
    split at h
    · cases h
      exact .single ‹_›
    · cases h
  | int value =>
    simp only [floatListItem] at h
    cases h
    exact .single (hints value)
  | string text =>
    simp only [floatListItem] at h
    obtain ⟨lists, hlists, rfl⟩ := Option.map_eq_some_iff.mp h
    apply FiniteFloats.flatten
    exact forall_of_mapM (fun entry items hentry => finiteFloats_floatListEntry hentry) hlists
  | bool _ | list _ | percent _ | floatOrPercent _ _ =>
    simp only [floatListItem] at h
    cases h

omit [Floats F] in
/-- The images a list is coerced to. -/
theorem of_coerceList {convert : ConfigValue F → Option (ConfigValue F)} {g : γ → ConfigValue F}
    {authored : ConfigValue F} (h : coerceList convert authored = some value)
    (hconvert : ∀ item value, convert item = some value → ∃ c, value = g c) :
    ∃ values : List γ, value = .list (values.map g) := by
  cases authored with
  | list items =>
    rw [coerceList] at h
    obtain ⟨results, hresults, rfl⟩ := Option.map_eq_some_iff.mp h
    have himage : ∀ result ∈ results, ∃ c, True ∧ result = g c :=
      forall_of_mapM (fun item value hvalue => (hconvert item value hvalue).imp
        fun c hc => ⟨trivial, hc⟩) hresults
    obtain ⟨values, -, rfl⟩ := exists_map_of_forall himage
    exact ⟨values, rfl⟩
  | bool _ | int _ | float _ | string _ | percent _ | floatOrPercent _ _ => cases h

/-- The coercer gives typed values only. -/
theorem typedValue_of_coerce (hints : FiniteInts F) {authored : ConfigValue F}
    (h : coerce fieldType authored = some value) : TypedValue fieldType value := by
  unfold coerce at h
  split at h
  · -- bool
    split at h
    · cases h
      exact .bool _
    · cases h
      exact .bool _
    · cases h
      exact .bool _
    · obtain ⟨flag, -, rfl⟩ := Option.map_eq_some_iff.mp h
      exact .bool flag
    · cases h
  · -- int
    split at h
    · cases h
      exact .int _
    · split at h
      · cases h
        exact .int _
      · cases h
    · obtain ⟨number, -, rfl⟩ := Option.map_eq_some_iff.mp h
      exact .int number
    · cases h
  · -- float
    split at h
    · obtain ⟨hfinite, rfl⟩ := of_finite h
      exact .float hfinite
    · cases h
      exact .float (hints _)
    · obtain ⟨number, hnumber, rfl⟩ := Option.map_eq_some_iff.mp h
      exact .float (isFinite_of_parseFiniteFloat hnumber)
    · cases h
  · -- string
    split at h
    · cases h
      exact .string _
    · cases h
  · -- enum
    split at h
    · cases h
      exact .enum _
    · cases h
  · -- percent
    split at h
    · cases h
      exact .percent _
    · obtain ⟨-, rfl⟩ := of_finite h
      exact .percent _
    · cases h
      exact .percent _
    · obtain ⟨-, rfl⟩ := of_finite h
      exact .percent _
    · obtain ⟨number, -, rfl⟩ := Option.map_eq_some_iff.mp h
      exact .percent number
    · cases h
  · -- float_or_percent
    split at h
    · cases h
      exact .floatOrPercent _ _
    · obtain ⟨-, rfl⟩ := of_finite h
      exact .floatOrPercent _ _
    · cases h
      exact .floatOrPercent _ _
    · obtain ⟨-, rfl⟩ := of_finite h
      exact .floatOrPercent _ _
    · obtain ⟨⟨number, isPercent⟩, -, rfl⟩ := Option.map_eq_some_iff.mp h
      exact .floatOrPercent number isPercent
    · cases h
  · -- float-list
    obtain ⟨lists, hlists, rfl⟩ := Option.map_eq_some_iff.mp h
    obtain ⟨values, hvalues, heq⟩ := FiniteFloats.flatten
      (forall_of_mapM (fun item items hitem => finiteFloats_floatListItem hints hitem) hlists)
    rw [heq]
    exact .floatList hvalues
  · -- int-list
    obtain ⟨values, rfl⟩ : ∃ values : List Int, value = .list (values.map .int) := by
      apply of_coerceList h
      intro item result hitem
      split at hitem
      · cases hitem
        exact ⟨_, rfl⟩
      · obtain ⟨number, -, rfl⟩ := Option.map_eq_some_iff.mp hitem
        exact ⟨number, rfl⟩
      · cases hitem
    exact .intList values
  · -- string-list
    obtain ⟨values, rfl⟩ : ∃ values : List String, value = .list (values.map .string) := by
      apply of_coerceList h
      intro item result hitem
      split at hitem
      · cases hitem
        exact ⟨_, rfl⟩
      · cases hitem
    exact .stringList values
  · cases h

/-! ### Typed values are kept and accepted -/

theorem mapM_map_of_forall {f : β → Option γ} {g : α → β} {g' : α → γ} {values : List α}
    (h : ∀ value ∈ values, f (g value) = some (g' value)) :
    (values.map g).mapM f = some (values.map g') := by
  rw [List.mapM_map]
  exact List.mapM_eq_some_map h

omit [Floats F] in
/-- Items the conversion keeps are kept as a list. -/
theorem coerceList_map {convert : ConfigValue F → Option (ConfigValue F)} {g : γ → ConfigValue F}
    (hkept : ∀ value, convert (g value) = some (g value)) (values : List γ) :
    coerceList convert (.list (values.map g)) = some (.list (values.map g)) := by
  rw [coerceList, mapM_map_of_forall fun value _ => hkept value]
  rfl

/-- The coercer gives a typed value back. -/
theorem TypedValue.coerce_eq (h : TypedValue fieldType value) :
    coerce fieldType value = some value := by
  cases h with
  | bool _ | int _ | string _ | enum _ | percent _ | floatOrPercent _ _ => rfl
  | float hfinite => exact if_pos hfinite
  | @floatList values hfinite =>
    have hitems : (values.map ConfigValue.float).mapM floatListItem =
        some (values.map fun value => [ConfigValue.float value]) :=
      mapM_map_of_forall fun value hvalue => if_pos (hfinite value hvalue)
    change ((values.map ConfigValue.float).mapM floatListItem).map _ = _
    rw [hitems, Option.map_some, ← List.flatMap_def, ← List.map_eq_flatMap]
  | intList values =>
    apply coerceList_map
    exact fun _ => rfl
  | stringList values =>
    apply coerceList_map
    exact fun _ => rfl

/-- The error is that the value of the key is out of the bounds of its entry. -/
def OutOfBounds (key : ConfigKey) (entry : RegistryEntry F) (error : ConfigResolutionError F) :
    Prop :=
  ∃ value index, error = .outOfRange key value entry.min entry.max index

theorem checkExtensionScalar_failsWith (key : ConfigKey) (value : F) (entry : RegistryEntry F)
    (index : Option Nat) :
    Except.FailsWith (OutOfBounds key entry) (checkExtensionScalar key value entry index) := by
  rw [checkExtensionScalar]
  split
  · exact Except.FailsWith.pure ()
  · rintro error ⟨⟩
    exact ⟨value, index, rfl⟩

theorem checkExtensionPercent_failsWith (key : ConfigKey) (value : F) (entry : RegistryEntry F) :
    Except.FailsWith (OutOfBounds key entry) (checkExtensionPercent key value entry) := by
  rw [checkExtensionPercent]
  split
  · exact Except.FailsWith.pure ()
  · rintro error ⟨⟩
    exact ⟨value, none, rfl⟩

theorem Except.FailsWith.forM {ε : Type} {P : ε → Prop} {f : α → Except ε Unit} {l : List α}
    (hf : ∀ a ∈ l, Except.FailsWith P (f a)) : Except.FailsWith P (l.forM f) := by
  induction l with
  | nil => exact Except.FailsWith.pure ()
  | cons a rest ih =>
    change Except.FailsWith P (f a >>= fun _ => rest.forM f)
    apply Except.FailsWith.bind (hf a List.mem_cons_self)
    intro _
    exact ih fun b hb => hf b (List.mem_cons_of_mem a hb)

theorem mem_map_of_mem_zipIdx {g : α → β} {values : List α} {item : β} {index : Nat}
    (h : (item, index) ∈ (values.map g).zipIdx) : ∃ value, item = g value := by
  obtain ⟨value, -, rfl⟩ := List.mem_map.mp (List.fst_mem_of_mem_zipIdx h)
  exact ⟨value, rfl⟩

omit [Floats F] in
theorem envelope_list (hlist : Text.endsWith fieldType "-list" = true)
    (items : List (ConfigValue F)) : envelope fieldType (.list items) = .list items := by
  cases items with
  | nil => rfl
  | cons first rest => rw [envelope, if_pos hlist]

theorem TypedValue.checkType_failsWith {entry : RegistryEntry F}
    (h : TypedValue entry.fieldType value) (key : ConfigKey) :
    Except.FailsWith (OutOfBounds key entry)
      (checkType key entry (envelope entry.fieldType value)) := by
  unfold checkType
  generalize entry.fieldType = fieldType at h ⊢
  cases h with
  | bool _ | string _ | enum _ => exact Except.FailsWith.pure ()
  | int _ | float _ => exact checkExtensionScalar_failsWith _ _ _ _
  | percent _ => exact checkExtensionPercent_failsWith _ _ _
  | floatOrPercent _ isPercent =>
    cases isPercent
    · exact checkExtensionScalar_failsWith _ _ _ _
    · exact checkExtensionPercent_failsWith _ _ _
  | floatList | intList =>
    rw [envelope_list (by decide)]
    apply Except.FailsWith.forM
    rintro ⟨item, index⟩ hitem
    obtain ⟨value, rfl⟩ := mem_map_of_mem_zipIdx hitem
    exact checkExtensionScalar_failsWith _ _ _ _
  | stringList =>
    rw [envelope_list (by decide)]
    apply Except.FailsWith.forM
    intro item hitem
    obtain ⟨value, -, rfl⟩ := List.mem_map.mp hitem
    exact Except.FailsWith.pure ()

/-- What the coercer types, the validator rejects only for its bounds, and the coercer
gives it back unchanged. -/
theorem coerced_value_accepted (hints : FiniteInts F) (registry : ConfigSchemaRegistry F)
    (key : ConfigKey) (entry : RegistryEntry F) (hentry : registry.entryOrWildcard key = some entry)
    (authored value : ConfigValue F)
    (hcoerce : coerceValue key authored entry.fieldType = .ok value) :
    (∀ error, validateExtension registry key value = .error error →
      ∃ number index, error = .application (.outOfRange key number entry.min entry.max index)) ∧
      coerceValue key value entry.fieldType = .ok value := by
  have htyped : TypedValue entry.fieldType value := by
    rw [coerceValue] at hcoerce
    split at hcoerce
    · cases hcoerce
      exact typedValue_of_coerce hints ‹_›
    · cases hcoerce
  refine ⟨?_, ?_⟩
  · intro error herror
    rw [validateExtension, hentry] at herror
    obtain ⟨cause, hcause, rfl⟩ := Except.of_mapError_eq_error herror
    obtain ⟨number, index, rfl⟩ := htyped.checkType_failsWith key cause hcause
    exact ⟨number, index, rfl⟩
  · rw [coerceValue, htyped.coerce_eq]

/-- An integral float for a count is typed as the count. -/
theorem coerced_value_accepted_raft :
    ∃ entry, raftRegistry.entryOrWildcard "support_raft_layers" = some entry ∧
      coerceValue "support_raft_layers" (.float 3 : ConfigValue ℚ) entry.fieldType =
        .ok (.int 3) ∧
      coerceValue "support_raft_layers" (.int 3 : ConfigValue ℚ) entry.fieldType =
        .ok (.int 3) := by
  have hentry : (raftRegistry.entryOrWildcard "support_raft_layers").map RegistryEntry.fieldType =
      some "int" := by
    decide +kernel
  obtain ⟨entry, hentry, hfieldType⟩ := Option.map_eq_some_iff.mp hentry
  have hcoerce : coerceValue "support_raft_layers" (.float 3 : ConfigValue ℚ) entry.fieldType =
      .ok (.int 3) := by
    rw [hfieldType]
    decide +kernel
  exact ⟨entry, hentry, hcoerce, (coerced_value_accepted (fun _ => rfl) raftRegistry
    "support_raft_layers" entry hentry (.float 3) (.int 3) hcoerce).2⟩

end PinchNPrint.Config
