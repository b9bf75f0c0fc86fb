/-
What ingestion leaves in a slot (`slicer-config`: `ingestion.rs`).

A slot is a scope and a key. `commit` fills slots in the order of the pending
entries, and marks a key whose global value its entry could not type. A flat call
has one entry for each wire key, so what it leaves in a slot is decided by which
wire keys decode to it (`decodeWireKey_eq_iff`). What a run leaves in a global slot
is decided by the last call that wrote it (`run_globalSlot`), and the mark by all
of them.
-/

import PinchNPrint.Config.LayerRanges

namespace PinchNPrint.Config

open Std

variable {F : Type} [Floats F]

/-! ### Filling a slot -/

/-- The value an ingestor holds for a key at a scope. -/
def ConfigIngestor.slot (self : ConfigIngestor F) (scope : ConfigScope) (key : ConfigKey) :
    Option (ConfigValue F) :=
  self.deltas[scope]?.bind fun delta => delta.values[key]?

/-- The entry is for the slot. -/
def PendingEntry.At (entry : PendingEntry F) (scope : ConfigScope) (key : ConfigKey) : Prop :=
  entry.scope = scope ∧ entry.key = key

variable {entry : PendingEntry F} {ingestor before : ConfigIngestor F} {key : ConfigKey}
  {scope : ConfigScope} {pending : List (PendingEntry F)} {first second : String}
  {values : BTreeMap ConfigKey (ConfigValue F)}

section

omit [Floats F]

theorem slot_commitEntry_of_at {value : ConfigValue F} (hat : entry.At scope key)
    (hvalue : entry.value = some value) :
    (ingestor.commitEntry entry).slot scope key = some value := by
  obtain ⟨rfl, rfl⟩ := hat
  simp [ConfigIngestor.slot, ConfigIngestor.commitEntry, hvalue]

theorem slot_commitEntry_of_not_at (hat : ¬ entry.At scope key) :
    (ingestor.commitEntry entry).slot scope key = ingestor.slot scope key := by
  cases hvalue : entry.value with
  | none => simp [ConfigIngestor.slot, ConfigIngestor.commitEntry, hvalue]
  | some value =>
    simp only [ConfigIngestor.slot, ConfigIngestor.commitEntry, hvalue]
    by_cases hscope : entry.scope = scope
    · subst hscope
      have hkey : entry.key ≠ key := fun hkey => hat ⟨rfl, hkey⟩
      rw [ExtTreeMap.getElem?_insert_self, Option.bind_some, BTreeMap.getElem?_insert_of_ne hkey]
      cases ingestor.deltas[entry.scope]? with
      | none => simp
      | some delta => rfl
    · rw [BTreeMap.getElem?_insert_of_ne hscope]

theorem slot_commit_of_not_at (h : ∀ entry ∈ pending, ¬ entry.At scope key) :
    (ingestor.commit pending).slot scope key = ingestor.slot scope key := by
  change (pending.foldl ConfigIngestor.commitEntry ingestor).slot scope key = _
  induction pending generalizing ingestor with
  | nil => rfl
  | cons entry rest ih =>
    rw [List.foldl_cons, ih fun other hother => h other (List.mem_cons_of_mem entry hother)]
    exact slot_commitEntry_of_not_at (h entry List.mem_cons_self)

/-- A slot whose pending entries all state one value gets it. -/
theorem slot_commit_of_at {value : ConfigValue F} (hsome : ∃ entry ∈ pending, entry.At scope key)
    (hall : ∀ entry ∈ pending, entry.At scope key → entry.value = some value) :
    (ingestor.commit pending).slot scope key = some value := by
  change (pending.foldl ConfigIngestor.commitEntry ingestor).slot scope key = _
  induction pending generalizing ingestor with
  | nil => simp at hsome
  | cons entry rest ih =>
    rw [List.foldl_cons]
    by_cases hrest : ∃ other ∈ rest, other.At scope key
    · exact ih hrest fun other hother => hall other (List.mem_cons_of_mem entry hother)
    · have hat : entry.At scope key := (List.exists_mem_cons_iff _ _ _).mp hsome |>.resolve_right hrest
      have hlater : ∀ other ∈ rest, ¬ other.At scope key := fun other hother hat =>
        hrest ⟨other, hother, hat⟩
      exact (slot_commit_of_not_at hlater).trans
        (slot_commitEntry_of_at hat (hall entry List.mem_cons_self hat))

theorem mem_untypedGlobalKeys_commitEntry (ingestor : ConfigIngestor F) (entry : PendingEntry F)
    (key : ConfigKey) : key ∈ (ingestor.commitEntry entry).untypedGlobalKeys ↔
      key ∈ ingestor.untypedGlobalKeys ∨
        (ConfigIngestor.untypedGlobal entry = true ∧ entry.key = key) := by
  simp only [ConfigIngestor.commitEntry]
  split
  · rename_i huntyped
    simp only [huntyped, ExtTreeSet.mem_insert, LawfulEqOrd.compare_eq_iff_eq, true_and]
    exact or_comm
  · rename_i huntyped
    simp [huntyped]

/-- The marked keys are those marked before and those of the untyped global entries. -/
theorem mem_untypedGlobalKeys_commit (ingestor : ConfigIngestor F)
    (pending : List (PendingEntry F)) (key : ConfigKey) :
    key ∈ (ingestor.commit pending).untypedGlobalKeys ↔ key ∈ ingestor.untypedGlobalKeys ∨
      ∃ entry ∈ pending, ConfigIngestor.untypedGlobal entry = true ∧ entry.key = key := by
  change key ∈ (pending.foldl ConfigIngestor.commitEntry ingestor).untypedGlobalKeys ↔ _
  exact @List.foldl_collects _ _ ConfigIngestor.commitEntry
    (fun ingestor => key ∈ ingestor.untypedGlobalKeys)
    (fun entry => ConfigIngestor.untypedGlobal entry = true ∧ entry.key = key)
    (fun ingestor entry => mem_untypedGlobalKeys_commitEntry ingestor entry key) pending ingestor

end

/-! ### Wire keys -/

theorem split_of_scopedPieces {α : Type} {accept : String → Option α} {family wireKey : String}
    {middle : α} (hfamily : ':' ∉ family.toList) (hclaims : claimsFamily family wireKey = true)
    (h : scopedPieces accept wireKey = some (middle, key)) :
    ∃ text, Text.split ':' wireKey = [family, text, key] ∧ accept text = some middle := by
  rw [scopedPieces] at h
  split at h
  swap
  · cases h
  rename_i first text last hsplit
  split at h
  · cases h
  obtain ⟨accepted, haccept, heq⟩ := Option.map_eq_some_iff.mp h
  cases heq
  refine ⟨text, ?_, haccept⟩
  rw [claimsFamily, Bool.or_eq_true, beq_iff_eq] at hclaims
  rcases hclaims with rfl | hstarts
  · -- a bare family name is one piece
    have hparts : Text.split ':' (Text.join ':' [wireKey]) = [wireKey] :=
      Text.split_join (by simpa using hfamily) (by simp)
    have hjoin : Text.join ':' [wireKey] = wireKey := by simp [Text.join]
    rw [hjoin, hsplit] at hparts
    simp at hparts
  · obtain ⟨others, hothers⟩ := Text.split_of_startsWith hfamily hstarts
    rw [hsplit] at hothers ⊢
    cases hothers
    rfl

/-- The slots a wire key can decode to. -/
inductive DecodesTo (wireKey : String) : ConfigScope → ConfigKey → Prop
  | object {objectId : ObjectId} {key : ConfigKey} :
      Text.split ':' wireKey = ["object_config", objectId, key] →
      DecodesTo wireKey (.object objectId) key
  | paint {semantic : String} {key : ConfigKey} :
      Text.split ':' wireKey = ["paint_config", semantic, key] →
      DecodesTo wireKey (.paintSemantic semantic) key
  | tool {text : String} {index : Nat} {key : ConfigKey} :
      Text.split ':' wireKey = ["tool_config", text, key] → Text.parseU32 text = some index →
      DecodesTo wireKey (.tool index) key
  | global : claimsFamily "tool_config" wireKey = false → DecodesTo wireKey .global wireKey

theorem decodesTo_of_decodeWireKey {wireKey : String} (h : decodeWireKey wireKey = .ok (scope, key))
    : DecodesTo wireKey scope key := by
  rw [decodeWireKey] at h
  split at h
  · rename_i hclaims
    split at h
    · rename_i objectId found hpieces
      cases h
      obtain ⟨text, hsplit, haccept⟩ := split_of_scopedPieces (by decide) hclaims hpieces
      rw [nonempty] at haccept
      split at haccept
      · cases haccept
      · cases haccept
        exact .object hsplit
    · cases h
  split at h
  · rename_i hclaims
    split at h
    · rename_i semantic found hpieces
      cases h
      obtain ⟨text, hsplit, haccept⟩ := split_of_scopedPieces (by decide) hclaims hpieces
      rw [nonempty] at haccept
      split at haccept
      · cases haccept
      · cases haccept
        exact .paint hsplit
    · cases h
  split at h
  · rename_i hclaims
    split at h
    · rename_i index found hpieces
      cases h
      obtain ⟨text, hsplit, haccept⟩ := split_of_scopedPieces (by decide) hclaims hpieces
      exact .tool hsplit haccept
    · cases h
  · rename_i hclaims
    cases h
    exact .global (by simpa using hclaims)

/-- Two wire keys of one tool and one key, whatever the spelling of the index. -/
def SameTool (first second : String) (key : ConfigKey) : Prop :=
  ∃ text text', Text.split ':' first = ["tool_config", text, key] ∧
    Text.split ':' second = ["tool_config", text', key] ∧
    Text.parseU32 text = Text.parseU32 text'

theorem eq_of_split_eq (h : Text.split ':' first = Text.split ':' second) : first = second := by
  rw [← Text.join_split ':' first, h, Text.join_split]

/-- Only the spelling of a tool index is lost in decoding. -/
theorem eq_or_sameTool (hfirst : DecodesTo first scope key) (hsecond : DecodesTo second scope key) :
    first = second ∨ SameTool first second key := by
  cases hfirst with
  | object hsplit =>
    cases hsecond with
    | object hsplit' => exact .inl (eq_of_split_eq (hsplit.trans hsplit'.symm))
  | paint hsplit =>
    cases hsecond with
    | paint hsplit' => exact .inl (eq_of_split_eq (hsplit.trans hsplit'.symm))
  | tool hsplit hindex =>
    cases hsecond with
    | tool hsplit' hindex' => exact .inr ⟨_, _, hsplit, hsplit', hindex.trans hindex'.symm⟩
  | global hclaims =>
    cases hsecond with
    | global hclaims' => exact .inl rfl

theorem DecodesTo.of_toolPieces {wireKey text : String} {key' : ConfigKey}
    (h : DecodesTo wireKey scope key)
    (hsplit : Text.split ':' wireKey = ["tool_config", text, key']) :
    ∃ index, scope = .tool index ∧ key = key' ∧ Text.parseU32 text = some index := by
  cases h with
  | object hsplit' => simp [hsplit] at hsplit'
  | paint hsplit' => simp [hsplit] at hsplit'
  | tool hsplit' hindex =>
    rw [hsplit] at hsplit'
    cases hsplit'
    exact ⟨_, rfl, rfl, hindex⟩
  | global hclaims =>
    have hstarts : Text.startsWith key ("tool_config" ++ ":") = true := by
      rw [← Text.join_split ':' key, hsplit]
      refine Text.startsWith_iff.mpr ⟨Text.join ':' [text, key'], ?_⟩
      apply String.toList_inj.mp
      simp [Text.join, List.intercalate_cons_cons]
    rw [claimsFamily, hstarts, Bool.or_true] at hclaims
    cases hclaims

theorem SameTool.decodesTo (h : SameTool first second key) {scope' : ConfigScope}
    {found found' : ConfigKey} (hfirst : DecodesTo first scope found)
    (hsecond : DecodesTo second scope' found') : scope = scope' ∧ found = key ∧ found' = key := by
  obtain ⟨text, text', hsplit, hsplit', hsame⟩ := h
  obtain ⟨index, rfl, rfl, hindex⟩ := hfirst.of_toolPieces hsplit
  obtain ⟨index', rfl, rfl, hindex'⟩ := hsecond.of_toolPieces hsplit'
  rw [hindex, hindex'] at hsame
  cases hsame
  exact ⟨rfl, rfl, rfl⟩

/-! ### One flat call -/

/-- A successful traversal has a result for every element. -/
theorem Except.mem_of_mapM_eq_ok {ε α β : Type} {f : α → Except ε β} {l : List α}
    {results : List β} (h : l.mapM f = .ok results) {a : α} (ha : a ∈ l) :
    ∃ b ∈ results, f a = .ok b := by
  obtain ⟨i, hi⟩ := List.mem_iff_getElem?.mp ha
  obtain ⟨b, hb, hf⟩ := Except.getElem?_of_mapM_eq_ok h hi
  exact ⟨b, List.mem_of_getElem? hb, hf⟩

/-- The wire key of a flat map that a pending entry was prepared for. -/
structure PreparedFrom (ingestor : ConfigIngestor F) (values : BTreeMap ConfigKey (ConfigValue F))
    (wireKey : ConfigKey) (authored : ConfigValue F) (entry : PendingEntry F) : Prop where
  stated : values[wireKey]? = some authored
  decoded : decodeWireKey wireKey = .ok (entry.scope, entry.key)
  prepared : ingestor.prepareEntry entry.scope entry.key wireKey authored = .ok entry

theorem ingestFlat_cases {ingestor' : ConfigIngestor F}
    (h : ingestor.ingestFlat values = .ok ingestor') :
    ∃ pending, ingestor' = ingestor.commit pending ∧
      (∀ entry ∈ pending, ∃ wireKey authored,
        PreparedFrom ingestor values wireKey authored entry) ∧
      ∀ (wireKey : ConfigKey) (authored : ConfigValue F), values[wireKey]? = some authored →
        ∃ entry ∈ pending, PreparedFrom ingestor values wireKey authored entry := by
  obtain ⟨pending, hpending, hcommit⟩ := Except.of_bind_eq_ok h
  cases hcommit
  have hprepared : ∀ (wireKey : ConfigKey) (authored : ConfigValue F) (entry : PendingEntry F),
      (wireKey, authored) ∈ values.toList →
      (decodeWireKey wireKey >>= fun slot =>
        ingestor.prepareEntry slot.1 slot.2 wireKey authored) = .ok entry →
      PreparedFrom ingestor values wireKey authored entry := by
    intro wireKey authored entry hrow hentry
    obtain ⟨⟨scope, key⟩, hdecode, hprepare⟩ := Except.of_bind_eq_ok hentry
    obtain ⟨rfl, rfl⟩ := prepareEntry_key hprepare
    exact ⟨ExtTreeMap.mem_toList_iff_getElem?_eq_some.mp hrow, hdecode, hprepare⟩
  refine ⟨pending, rfl, fun entry hentry => ?_, fun wireKey authored hstated => ?_⟩
  · obtain ⟨⟨wireKey, authored⟩, hrow, hentry⟩ := Except.of_mapM_eq_ok hpending hentry
    exact ⟨wireKey, authored, hprepared wireKey authored entry hrow hentry⟩
  · have hrow := ExtTreeMap.mem_toList_iff_getElem?_eq_some.mpr hstated
    obtain ⟨entry, hmem, hentry⟩ := Except.mem_of_mapM_eq_ok hpending hrow
    exact ⟨entry, hmem, hprepared wireKey authored entry hrow hentry⟩

/-- The value a config states for a key at a scope. -/
def ScopedConfig.valueAt (config : ScopedConfig F) (scope : ConfigScope) (key : ConfigKey) :
    Option (ConfigValue F) :=
  config.deltas[scope]?.bind fun delta => delta.values[key]?

/-- A wire key of a flat map whose decoded key is declared. -/
structure Declared (registry : ConfigSchemaRegistry F)
    (values : BTreeMap ConfigKey (ConfigValue F)) (wireKey : ConfigKey) (authored : ConfigValue F)
    (scope : ConfigScope) (key : ConfigKey) : Prop where
  stated : values[wireKey]? = some authored
  decoded : decodeWireKey wireKey = .ok (scope, key)
  declared : (typingEntry registry key).isSome = true

/-- No two declared wire keys of the map spell the index of one tool differently. -/
def ToolsSpeltOnce (registry : ConfigSchemaRegistry F)
    (values : BTreeMap ConfigKey (ConfigValue F)) : Prop :=
  ∀ (first second : ConfigKey) (key : ConfigKey), first ∈ values → second ∈ values →
    SameTool first second key → (typingEntry registry key).isSome = true → first = second

theorem isSome_of_prepareEntry {wireKey : String} {authored : ConfigValue F}
    (hdeclared : (typingEntry ingestor.registry key).isSome = true)
    (h : ingestor.prepareEntry scope key wireKey authored = .ok entry) :
    ∃ value, entry.value = some value := by
  obtain ⟨typing, htyping⟩ := Option.isSome_iff_exists.mp hdeclared
  obtain ⟨value, warning, rfl⟩ := prepareEntry_of_typed htyping h
  exact ⟨value, rfl⟩

/-- A flat call on a fresh ingestor gives distinct declared wire keys distinct slots,
and every one of them its own prepared value, exactly when no tool index is spelt in
two ways for one declared key. -/
theorem flat_slots_distinct_iff (registry : ConfigSchemaRegistry F) (tolerant : Bool)
    (values : BTreeMap ConfigKey (ConfigValue F)) (ingestor : ConfigIngestor F)
    (haccepted : (ConfigIngestor.withMode registry tolerant).ingestFlat values = .ok ingestor) :
    ((∀ (first second : ConfigKey) (authored authored' : ConfigValue F)
        (scope scope' : ConfigScope) (key key' : ConfigKey),
        Declared registry values first authored scope key →
        Declared registry values second authored' scope' key' →
        first ≠ second → (scope, key) ≠ (scope', key')) ∧
      ∀ (wireKey : ConfigKey) (authored : ConfigValue F) (scope : ConfigScope) (key : ConfigKey),
        Declared registry values wireKey authored scope key →
        ∃ entry value, (ConfigIngestor.withMode registry tolerant).prepareEntry scope key wireKey
            authored = .ok entry ∧ entry.value = some value ∧
          ingestor.finish.config.valueAt scope key = some value) ↔
      ToolsSpeltOnce registry values := by
  obtain ⟨pending, rfl, hfrom, hto⟩ := ingestFlat_cases haccepted
  constructor
  · rintro ⟨hdistinct, -⟩ first second key hfirst hsecond hsame hdeclared
    by_contra hne
    obtain ⟨authored, hauthored⟩ := BTreeMap.mem_iff_getElem?_isSome.mp hfirst
    obtain ⟨authored', hauthored'⟩ := BTreeMap.mem_iff_getElem?_isSome.mp hsecond
    obtain ⟨entry, -, hentry⟩ := hto first authored hauthored
    obtain ⟨entry', -, hentry'⟩ := hto second authored' hauthored'
    obtain ⟨hscope, hkey, hkey'⟩ := hsame.decodesTo (decodesTo_of_decodeWireKey hentry.decoded)
      (decodesTo_of_decodeWireKey hentry'.decoded)
    refine hdistinct first second authored authored' _ _ _ _
      ⟨hauthored, hentry.decoded, hkey ▸ hdeclared⟩
      ⟨hauthored', hentry'.decoded, hkey' ▸ hdeclared⟩ hne ?_
    rw [hscope, hkey, hkey']
  · intro honce
    have hsame : ∀ (first second : ConfigKey) (scope : ConfigScope) (key : ConfigKey),
        first ∈ values → second ∈ values → decodeWireKey first = .ok (scope, key) →
        decodeWireKey second = .ok (scope, key) → (typingEntry registry key).isSome = true →
        first = second := by
      intro first second scope key hfirst hsecond hdecode hdecode' hdeclared
      rcases eq_or_sameTool (decodesTo_of_decodeWireKey hdecode)
        (decodesTo_of_decodeWireKey hdecode') with heq | hsame
      · exact heq
      · exact honce first second key hfirst hsecond hsame hdeclared
    have hmem : ∀ {wireKey : ConfigKey} {authored : ConfigValue F},
        values[wireKey]? = some authored → wireKey ∈ values := fun hstated =>
      BTreeMap.mem_iff_getElem?_isSome.mpr ⟨_, hstated⟩
    refine ⟨?_, ?_⟩
    · intro first second authored authored' scope scope' key key' hfirst hsecond hne heq
      cases heq
      exact hne (hsame first second scope key (hmem hfirst.stated) (hmem hsecond.stated)
        hfirst.decoded hsecond.decoded hfirst.declared)
    · intro wireKey authored scope key hdeclared
      obtain ⟨entry, hentry, hprepared⟩ := hto wireKey authored hdeclared.stated
      have hslot := hprepared.decoded.symm.trans hdeclared.decoded
      cases hslot
      obtain ⟨value, hvalue⟩ := isSome_of_prepareEntry hdeclared.declared hprepared.prepared
      refine ⟨entry, value, hprepared.prepared, hvalue, ?_⟩
      apply slot_commit_of_at ⟨entry, hentry, rfl, rfl⟩
      rintro other hother ⟨hscope, hkey⟩
      obtain ⟨wireKey', authored', hother⟩ := hfrom other hother
      have hdecode := hother.decoded
      have hprepare := hother.prepared
      rw [hscope, hkey] at hdecode hprepare
      have heq := hsame wireKey' wireKey _ _ (hmem hother.stated) (hmem hdeclared.stated) hdecode
        hdeclared.decoded hdeclared.declared
      subst heq
      have hauthored := hother.stated.symm.trans hdeclared.stated
      cases hauthored
      cases hprepare.symm.trans hprepared.prepared
      exact hvalue

/-- A flat config that states raft layers for tool 1 under two spellings. -/
def spelledTools : BTreeMap ConfigKey (ConfigValue ℚ) :=
  ExtTreeMap.ofList [("tool_config:1:support_raft_layers", .int 2),
    ("tool_config:01:support_raft_layers", .int 3)] compare

/-- Both spellings are accepted and declared, they decode to one slot, and the slot
holds the value of only one of them. -/
theorem tool_spelling_overwritten :
    ∃ ingestor, (ConfigIngestor.withMode raftRegistry false).ingestFlat spelledTools =
        .ok ingestor ∧
      Declared raftRegistry spelledTools "tool_config:1:support_raft_layers" (.int 2) (.tool 1)
        "support_raft_layers" ∧
      Declared raftRegistry spelledTools "tool_config:01:support_raft_layers" (.int 3) (.tool 1)
        "support_raft_layers" ∧
      ingestor.finish.config.valueAt (.tool 1) "support_raft_layers" = some (.int 2) ∧
      ingestor.finish.warnings = [] := by
  have hvalue : ((ConfigIngestor.withMode raftRegistry false).ingestFlat spelledTools).toOption.map
      (fun ingestor => (ingestor.finish.config.valueAt (.tool 1) "support_raft_layers",
        ingestor.finish.warnings)) = some (some (.int 2), []) := by
    decide +kernel
  obtain ⟨ingestor, hingestor, heq⟩ := Option.map_eq_some_iff.mp hvalue
  obtain ⟨hstored, hwarnings⟩ := Prod.mk.inj heq
  exact ⟨ingestor, Except.of_toOption_eq_some hingestor,
    ⟨by decide +kernel, by decide +kernel, by decide +kernel⟩,
    ⟨by decide +kernel, by decide +kernel, by decide +kernel⟩, hstored, hwarnings⟩

/-- A flat config that states raft layers for two tools. -/
def twoTools : BTreeMap ConfigKey (ConfigValue ℚ) :=
  ExtTreeMap.ofList [("tool_config:1:support_raft_layers", .int 2),
    ("tool_config:2:support_raft_layers", .int 3)] compare

/-- The raft layers of either tool are read back from its own slot. -/
theorem flat_slots_distinct_iff_tools :
    ToolsSpeltOnce raftRegistry twoTools ∧
      ∃ ingestor, (ConfigIngestor.withMode raftRegistry false).ingestFlat twoTools = .ok ingestor ∧
        ∀ row ∈ [(1, ConfigValue.int 2), (2, .int 3)], ∃ entry value,
          (ConfigIngestor.withMode raftRegistry false).prepareEntry (.tool row.1)
              "support_raft_layers" s!"tool_config:{row.1}:support_raft_layers" row.2 =
            .ok entry ∧ entry.value = some value ∧
          ingestor.finish.config.valueAt (.tool row.1) "support_raft_layers" = some value := by
  have honce : ToolsSpeltOnce raftRegistry twoTools := by
    rintro first second key hfirst hsecond ⟨text, text', hsplit, hsplit', hparse⟩ -
    have htool : ∀ wireKey ∈ twoTools, ∀ text, Text.split ':' wireKey = ["tool_config", text, key] →
        text = "1" ∧ wireKey = "tool_config:1:support_raft_layers" ∨
          text = "2" ∧ wireKey = "tool_config:2:support_raft_layers" := by
      intro wireKey hwireKey text hsplit
      have hkeys : wireKey = "tool_config:1:support_raft_layers" ∨
          wireKey = "tool_config:2:support_raft_layers" := by
        simpa using BTreeMap.mem_ofList_iff.mp hwireKey
      rcases hkeys with rfl | rfl
      · exact .inl ⟨(List.cons.inj (List.cons.inj hsplit).2).1.symm.trans (by decide +kernel), rfl⟩
      · exact .inr ⟨(List.cons.inj (List.cons.inj hsplit).2).1.symm.trans (by decide +kernel), rfl⟩
    rcases htool first hfirst text hsplit with ⟨rfl, rfl⟩ | ⟨rfl, rfl⟩ <;>
      rcases htool second hsecond text' hsplit' with ⟨rfl, rfl⟩ | ⟨rfl, rfl⟩
    · rfl
    · exact absurd hparse (by decide +kernel)
    · exact absurd hparse (by decide +kernel)
    · rfl
  have hok : ((ConfigIngestor.withMode raftRegistry false).ingestFlat twoTools).toOption.isSome =
      true := by
    decide +kernel
  obtain ⟨ingestor, hingestor⟩ := Option.isSome_iff_exists.mp hok
  have haccepted := Except.of_toOption_eq_some hingestor
  have hslots := ((flat_slots_distinct_iff raftRegistry false twoTools ingestor haccepted).mpr
    honce).2
  refine ⟨honce, ingestor, haccepted, fun row hrow => ?_⟩
  simp only [List.mem_cons, List.not_mem_nil, or_false] at hrow
  rcases hrow with rfl | rfl
  · exact hslots _ _ _ _ ⟨by decide +kernel, by decide +kernel, by decide +kernel⟩
  · exact hslots _ _ _ _ ⟨by decide +kernel, by decide +kernel, by decide +kernel⟩

/-! ### The global slots of a run -/

/-- What a call writes for a key at the global scope. -/
def IngestCall.globalWrite (call : IngestCall F) (key : ConfigKey) : Option (ConfigValue F) :=
  match call with
  | .flat values =>
      match decodeWireKey key with
      | .ok (.global, _) => values[key]?
      | _ => none
  | .delta .global values => values[key]?
  | _ => none

/-- The last global write of a key in a run. -/
def lastGlobalWrite (trace : List (Event (ConfigIngestor F) (IngestCall F) Unit))
    (key : ConfigKey) : Option (ConfigValue F) :=
  trace.reverse.findSome? fun event => event.op.globalWrite key

omit [Floats F] in
theorem lastGlobalWrite_concat (trace : List (Event (ConfigIngestor F) (IngestCall F) Unit))
    (event : Event (ConfigIngestor F) (IngestCall F) Unit) (key : ConfigKey) :
    lastGlobalWrite (trace ++ [event]) key =
      (event.op.globalWrite key).or (lastGlobalWrite trace key) := by
  rw [lastGlobalWrite, List.reverse_concat, List.findSome?_cons]
  cases event.op.globalWrite key <;> rfl

/-- The two ways a declared key is prepared. -/
theorem prepareEntry_cases {wireKey : String} {authored : ConfigValue F} {pending : PendingEntry F}
    {entry : RegistryEntry F} (hentry : typingEntry ingestor.registry key = some entry)
    (h : ingestor.prepareEntry scope key wireKey authored = .ok pending) :
    (∃ value, coerce entry.fieldType authored = some value ∧
      pending = { scope, key, value := some value, warning := none }) ∨
    (coerce entry.fieldType authored = none ∧ ∃ value, pending =
      { scope, key, value := some value
        warning := some (.untypedValue key entry.fieldType (authoredText authored)) }) := by
  cases hcoerce : coerce entry.fieldType authored with
  | some value =>
    simp only [ConfigIngestor.prepareEntry, hentry, coerceValue, hcoerce] at h
    cases h
    exact .inl ⟨value, rfl, rfl⟩
  | none =>
    simp only [ConfigIngestor.prepareEntry, hentry, coerceValue, hcoerce] at h
    obtain ⟨⟨value, warning⟩, huntyped, h⟩ := Except.of_bind_eq_ok h
    cases h
    refine .inr ⟨rfl, value, ?_⟩
    rw [prepareUntyped] at huntyped
    split at huntyped
    · cases huntyped
    · obtain ⟨coerced, -, huntyped⟩ := Except.of_bind_eq_ok huntyped
      cases huntyped
      rfl

/-- The entries a call prepares for a global slot are those of its global write. -/
structure Writes (before : ConfigIngestor F) (call : IngestCall F) (key : ConfigKey)
    (pending : List (PendingEntry F)) : Prop where
  sound : ∀ entry ∈ pending, entry.At .global key → ∃ authored,
    call.globalWrite key = some authored ∧ before.prepareEntry .global key key authored = .ok entry
  complete : ∀ authored, call.globalWrite key = some authored →
    ∃ entry ∈ pending, before.prepareEntry .global key key authored = .ok entry

theorem writes_flat {after : ConfigIngestor F} (h : before.ingestFlat values = .ok after)
    (key : ConfigKey) :
    ∃ pending, after = before.commit pending ∧ Writes before (.flat values) key pending := by
  obtain ⟨pending, rfl, hfrom, hto⟩ := ingestFlat_cases h
  refine ⟨pending, rfl, ?_, ?_⟩
  · rintro entry hentry ⟨hscope, hkey⟩
    obtain ⟨wireKey, authored, hprepared⟩ := hfrom entry hentry
    have hdecode := hprepared.decoded
    have hprepare := hprepared.prepared
    rw [hscope, hkey] at hdecode hprepare
    cases decodesTo_of_decodeWireKey hdecode
    refine ⟨authored, ?_, hprepare⟩
    simpa only [IngestCall.globalWrite, hdecode] using hprepared.stated
  · intro authored hwrite
    simp only [IngestCall.globalWrite] at hwrite
    split at hwrite
    · rename_i found hdecode
      obtain ⟨entry, hentry, hprepared⟩ := hto key authored hwrite
      have hslot := Except.ok.inj (hdecode.symm.trans hprepared.decoded)
      have hscope : entry.scope = .global := (congrArg Prod.fst hslot).symm
      have hdecoded := hprepared.decoded
      have hprepare := hprepared.prepared
      rw [hscope] at hdecoded hprepare
      generalize hkey : entry.key = stored at hdecoded hprepare
      cases decodesTo_of_decodeWireKey hdecoded
      exact ⟨entry, hentry, hprepare⟩
    · cases hwrite

theorem writes_delta {after : ConfigIngestor F} (h : before.ingestDelta scope values = .ok after)
    (key : ConfigKey) :
    ∃ pending, after = before.commit pending ∧ Writes before (.delta scope values) key pending := by
  obtain ⟨pending, hpending, hcommit⟩ := Except.of_bind_eq_ok h
  cases hcommit
  refine ⟨pending, rfl, ?_, ?_⟩
  · rintro entry hentry ⟨hscope, hkey⟩
    obtain ⟨⟨stated, authored⟩, hrow, hprepare⟩ := Except.of_mapM_eq_ok hpending hentry
    obtain ⟨hscope', hkey'⟩ := prepareEntry_key hprepare
    rw [hscope] at hscope'
    rw [hkey] at hkey'
    subst hscope' hkey'
    exact ⟨authored, ExtTreeMap.mem_toList_iff_getElem?_eq_some.mp hrow, hprepare⟩
  · intro authored hwrite
    cases scope with
    | global =>
      have hrow := ExtTreeMap.mem_toList_iff_getElem?_eq_some.mpr hwrite
      obtain ⟨entry, hentry, hprepare⟩ := Except.mem_of_mapM_eq_ok hpending hrow
      exact ⟨entry, hentry, hprepare⟩
    | _ => cases hwrite

/-- What a call does to a global slot: nothing, or it stores a typed value, or it stores
a value and marks the key. -/
def SlotStep (entry : RegistryEntry F) (key : ConfigKey) (before after : ConfigIngestor F)
    (write : Option (ConfigValue F)) : Prop :=
  match write.map (coerce entry.fieldType) with
  | none => after.slot .global key = before.slot .global key ∧
      (key ∈ after.untypedGlobalKeys ↔ key ∈ before.untypedGlobalKeys)
  | some (some value) => after.slot .global key = some value ∧
      (key ∈ after.untypedGlobalKeys ↔ key ∈ before.untypedGlobalKeys)
  | some none => key ∈ after.untypedGlobalKeys

theorem slotStep_of_writes {entry : RegistryEntry F} {call : IngestCall F}
    (hentry : typingEntry before.registry key = some entry)
    (hwrites : Writes before call key pending) :
    SlotStep entry key before (before.commit pending) (call.globalWrite key) := by
  have huntyped : ∀ row ∈ pending, ConfigIngestor.untypedGlobal row = true → row.key = key →
      ∃ authored, call.globalWrite key = some authored ∧ coerce entry.fieldType authored = none := by
    intro row hrow hmark hkey
    have hscope : row.scope = .global := by
      cases hscope : row.scope <;> simp [ConfigIngestor.untypedGlobal, hscope] at hmark ⊢
    obtain ⟨authored, hwrite, hprepare⟩ := hwrites.sound row hrow ⟨hscope, hkey⟩
    rcases prepareEntry_cases hentry hprepare with ⟨value, -, rfl⟩ | ⟨hcoerce, -⟩
    · cases hmark
    · exact ⟨authored, hwrite, hcoerce⟩
  cases hwrite : call.globalWrite key with
  | none =>
    refine ⟨slot_commit_of_not_at fun row hrow hat => ?_, ?_⟩
    · obtain ⟨authored, hwrite', -⟩ := hwrites.sound row hrow hat
      rw [hwrite] at hwrite'
      cases hwrite'
    · rw [mem_untypedGlobalKeys_commit]
      refine or_iff_left ?_
      rintro ⟨row, hrow, hmark, hkey⟩
      obtain ⟨authored, hwrite', -⟩ := huntyped row hrow hmark hkey
      rw [hwrite] at hwrite'
      cases hwrite'
  | some authored =>
    obtain ⟨row, hrow, hprepare⟩ := hwrites.complete authored hwrite
    rw [SlotStep, Option.map_some]
    cases hcoerce : coerce entry.fieldType authored with
    | some value =>
      refine ⟨slot_commit_of_at ⟨row, hrow, prepareEntry_key hprepare⟩ fun other hother hat => ?_, ?_⟩
      · obtain ⟨authored', hwrite', hprepare'⟩ := hwrites.sound other hother hat
        cases hwrite.symm.trans hwrite'
        rcases prepareEntry_cases hentry hprepare' with ⟨value', hcoerce', rfl⟩ | ⟨hcoerce', -⟩
        · rw [hcoerce] at hcoerce'
          exact hcoerce'.symm
        · rw [hcoerce] at hcoerce'
          cases hcoerce'
      · rw [mem_untypedGlobalKeys_commit]
        refine or_iff_left ?_
        rintro ⟨other, hother, hmark, hkey⟩
        obtain ⟨authored', hwrite', hcoerce'⟩ := huntyped other hother hmark hkey
        cases hwrite.symm.trans hwrite'
        rw [hcoerce] at hcoerce'
        cases hcoerce'
    | none =>
      rw [mem_untypedGlobalKeys_commit]
      rcases prepareEntry_cases hentry hprepare with ⟨value, hcoerce', -⟩ | ⟨-, value, rfl⟩
      · rw [hcoerce] at hcoerce'
        cases hcoerce'
      · exact .inr ⟨_, hrow, rfl, rfl⟩

section Runs

variable [DecidableEq F] {registry : ConfigSchemaRegistry F} {tolerant : Bool}
  {trace : List (Event (ConfigIngestor F) (IngestCall F) Unit)} {ingestor : ConfigIngestor F}

variable {entry : RegistryEntry F} {key : ConfigKey}

theorem slotStep_of_step {call : IngestCall F} {before after : ConfigIngestor F}
    (hentry : typingEntry before.registry key = some entry)
    (hstep : (ingestion registry tolerant).step before call = some (after, ())) :
    SlotStep entry key before after (call.globalWrite key) := by
  obtain ⟨result, hresult, heq⟩ := Option.map_eq_some_iff.mp hstep
  cases heq
  cases call with
  | flat values =>
    obtain ⟨pending, rfl, hwrites⟩ := writes_flat (Except.of_toOption_eq_some hresult) key
    exact slotStep_of_writes hentry hwrites
  | delta scope values =>
    obtain ⟨pending, rfl, hwrites⟩ := writes_delta (Except.of_toOption_eq_some hresult) key
    exact slotStep_of_writes hentry hwrites
  | layerRanges inputs =>
    obtain ⟨prepared, -, hcall⟩ := Except.of_bind_eq_ok (Except.of_toOption_eq_some hresult)
    obtain ⟨⟨⟩, -, hcall⟩ := Except.of_bind_eq_ok hcall
    obtain ⟨committed, -, hcall⟩ := Except.of_bind_eq_ok hcall
    cases hcall
    exact ⟨rfl, Iff.rfl⟩

/-- Some call of the run wrote the key globally with a value its entry cannot type. -/
def UntypedWrite (entry : RegistryEntry F) (key : ConfigKey)
    (trace : List (Event (ConfigIngestor F) (IngestCall F) Unit)) : Prop :=
  ∃ event ∈ trace, ∃ authored, event.op.globalWrite key = some authored ∧
    coerce entry.fieldType authored = none

/-- What a run leaves of a global slot: the value of its last write, and the mark of
any untyped one. -/
structure GlobalSlot (entry : RegistryEntry F) (key : ConfigKey)
    (trace : List (Event (ConfigIngestor F) (IngestCall F) Unit)) (ingestor : ConfigIngestor F) :
    Prop where
  unwritten : lastGlobalWrite trace key = none → ingestor.slot .global key = none
  typed : ∀ authored value, lastGlobalWrite trace key = some authored →
    coerce entry.fieldType authored = some value → ingestor.slot .global key = some value
  marked : key ∈ ingestor.untypedGlobalKeys ↔ UntypedWrite entry key trace

omit [DecidableEq F] in
theorem untypedWrite_concat {event : Event (ConfigIngestor F) (IngestCall F) Unit} :
    UntypedWrite entry key (trace ++ [event]) ↔ UntypedWrite entry key trace ∨
      ∃ authored, event.op.globalWrite key = some authored ∧
        coerce entry.fieldType authored = none := by
  simp only [UntypedWrite, List.mem_append, List.mem_singleton, or_and_right, exists_or,
    exists_eq_left]

theorem run_globalSlot (run : (ingestion registry tolerant).Run trace ingestor)
    (hentry : typingEntry registry key = some entry) : GlobalSlot entry key trace ingestor := by
  induction run with
  | start => exact ⟨fun _ => by simp [ingestion, ConfigIngestor.withMode, ConfigIngestor.slot],
      by simp [lastGlobalWrite], by simp [ingestion, ConfigIngestor.withMode, UntypedWrite]⟩
  | @step trace before after call reply run hstep ih =>
    rw [← (run_typed run).registry_eq] at hentry
    have hslot := slotStep_of_step hentry hstep
    rw [SlotStep] at hslot
    cases hwrite : call.globalWrite key with
    | none =>
      simp only [hwrite, Option.map_none] at hslot
      refine ⟨?_, ?_, ?_⟩
      · rw [lastGlobalWrite_concat, hwrite, Option.none_or, hslot.1]
        exact ih.unwritten
      · rw [lastGlobalWrite_concat, hwrite, Option.none_or, hslot.1]
        exact ih.typed
      · rw [untypedWrite_concat, hslot.2, ih.marked]
        simp [hwrite]
    | some authored =>
      simp only [hwrite, Option.map_some] at hslot
      have hwritten : lastGlobalWrite (trace ++ [⟨before, call, reply, after⟩]) key =
          some authored := by
        rw [lastGlobalWrite_concat, hwrite, Option.some_or]
      cases hcoerce : coerce entry.fieldType authored with
      | some value =>
        simp only [hcoerce] at hslot
        refine ⟨by simp [hwritten], ?_, ?_⟩
        · intro authored' value' hlast hcoerce'
          cases hwritten.symm.trans hlast
          rw [hslot.1, ← hcoerce, hcoerce']
        · rw [untypedWrite_concat, hslot.2, ih.marked]
          simp [hwrite, hcoerce]
      | none =>
        simp only [hcoerce] at hslot
        refine ⟨by simp [hwritten], ?_, ?_⟩
        · intro authored' value' hlast hcoerce'
          cases hwritten.symm.trans hlast
          rw [hcoerce] at hcoerce'
          cases hcoerce'
        · rw [untypedWrite_concat]
          exact ⟨fun _ => .inr ⟨authored, hwrite, hcoerce⟩, fun _ => hslot⟩

omit [Floats F] [DecidableEq F] in
theorem getElem?_selectorValues (hentry : ingestor.registry.entryOrWildcard key = some entry)
    (hselector : entry.selector = true) (value : ConfigValue F) :
    ingestor.finish.selectorValues[key]? = some value ↔
      ingestor.slot .global key = some value ∧ key ∉ ingestor.untypedGlobalKeys := by
  simp only [ConfigIngestor.finish, ConfigIngestor.slot]
  cases ingestor.deltas[ConfigScope.global]? with
  | none => simp
  | some delta =>
    simp only [ExtTreeMap.getElem?_filter', Option.filter_eq_some_iff, hentry, Option.any_some,
      hselector, Bool.true_and, decide_eq_true_eq, Option.bind_some]

omit [DecidableEq F] in
theorem untypedWrite_of_last {authored : ConfigValue F}
    (hlast : lastGlobalWrite trace key = some authored)
    (hcoerce : coerce entry.fieldType authored = none) : UntypedWrite entry key trace := by
  obtain ⟨event, hevent, hwrite⟩ := List.exists_of_findSome?_eq_some hlast
  exact ⟨event, List.mem_reverse.mp hevent, authored, hwrite, hcoerce⟩

/-- The selector values of a run follow the last global write of a selector key exactly
when no write of it that its entry could not type precedes a last write that it can. -/
theorem selector_follows_last_write_iff (run : (ingestion registry tolerant).Run trace ingestor)
    {entry : RegistryEntry F} {key : ConfigKey} (hentry : registry.entryOrWildcard key = some entry)
    (hselector : entry.selector = true) :
    (∀ value, ingestor.finish.selectorValues[key]? = some value ↔
      ∃ authored, lastGlobalWrite trace key = some authored ∧
        coerceValue key authored entry.fieldType = .ok value) ↔
      ¬ (UntypedWrite entry key trace ∧ ∃ authored, lastGlobalWrite trace key = some authored ∧
        (coerce entry.fieldType authored).isSome = true) := by
  have htyping : typingEntry registry key = some entry := by rw [typingEntry, hentry, Option.some_or]
  have hslot := run_globalSlot run htyping
  rw [← (run_typed run).registry_eq] at hentry
  have hvalue : ∀ (authored value : ConfigValue F),
      coerceValue key authored entry.fieldType = .ok value ↔
        coerce entry.fieldType authored = some value := by
    intro authored value
    rw [coerceValue]
    cases coerce entry.fieldType authored <;> simp
  simp only [getElem?_selectorValues hentry hselector, hvalue, hslot.marked]
  constructor
  · rintro hfollows ⟨huntyped, authored, hlast, htyped⟩
    obtain ⟨value, hcoerce⟩ := Option.isSome_iff_exists.mp htyped
    exact ((hfollows value).mpr ⟨authored, hlast, hcoerce⟩).2 huntyped
  · intro hordered value
    constructor
    · rintro ⟨hstored, huntyped⟩
      cases hlast : lastGlobalWrite trace key with
      | none =>
        rw [hslot.unwritten hlast] at hstored
        cases hstored
      | some authored =>
        cases hcoerce : coerce entry.fieldType authored with
        | none => exact absurd (untypedWrite_of_last hlast hcoerce) huntyped
        | some typed =>
          rw [hslot.typed authored typed hlast hcoerce] at hstored
          exact ⟨authored, rfl, hcoerce.trans hstored⟩
    · rintro ⟨authored, hlast, hcoerce⟩
      refine ⟨hslot.typed authored value hlast hcoerce, fun huntyped => ?_⟩
      exact hordered ⟨huntyped, authored, hlast, Option.isSome_of_eq_some hcoerce⟩

end Runs

/-- The host's selector of the wall generator. -/
def wallSelector : HostRuntimeKey ℚ where
  key := "wall_generator"
  fieldType := "string"
  default := some "classic"
  selector := true
  deniedScopes := ["object", "layer_range", "modifier", "paint_semantic", "tool"]

/-- The registry of that key. -/
def wallRegistry : ConfigSchemaRegistry ℚ :=
  match assembleRegistry [] { runtimeKeys := [wallSelector] } with
  | .ok outcome => outcome.registry
  | .error _ => default

/-- A global delta that states the selector. -/
def wallCall (value : ConfigValue ℚ) : IngestCall ℚ :=
  .delta .global (ExtTreeMap.ofList [("wall_generator", value)] compare)

theorem wallRegistry_entry : (wallRegistry.entryOrWildcard "wall_generator").map (fun entry =>
    (entry.selector, entry.fieldType)) = some (true, "string") := by
  decide +kernel

/-- A number is retained untyped; the generator named by the later call is not among the
selector values. -/
theorem typed_selector_missing :
    ∃ trace ingestor entry, (ingestion wallRegistry true).Run trace ingestor ∧
      wallRegistry.entryOrWildcard "wall_generator" = some entry ∧ entry.selector = true ∧
      lastGlobalWrite trace "wall_generator" = some (.string "arachne") ∧
      coerceValue "wall_generator" (.string "arachne" : ConfigValue ℚ) entry.fieldType =
        .ok (.string "arachne") ∧
      ingestor.finish.selectorValues["wall_generator"]? = none := by
  have hreplay : ((ingestion wallRegistry true).replay
      [wallCall (.int 1), wallCall (.string "arachne")]).map (fun result =>
        (lastGlobalWrite result.1 "wall_generator",
          result.2.finish.selectorValues["wall_generator"]?)) =
      some (some (.string "arachne"), none) := by
    decide +kernel
  obtain ⟨⟨trace, ingestor⟩, hrun, hvalues⟩ := Option.map_eq_some_iff.mp hreplay
  obtain ⟨hlast, hmissing⟩ := Prod.mk.inj hvalues
  obtain ⟨entry, hentry, hfields⟩ := Option.map_eq_some_iff.mp wallRegistry_entry
  obtain ⟨hselector, hfieldType⟩ := Prod.mk.inj hfields
  refine ⟨trace, ingestor, entry, Machine.run_of_replay hrun, hentry, hselector, hlast, ?_, hmissing⟩
  rw [hfieldType]
  rfl

/-- A run that names one generator and then another has the second among the selector values. -/
theorem selector_follows_last_write_iff_twice :
    ∃ trace ingestor, (ingestion wallRegistry true).Run trace ingestor ∧
      ingestor.finish.selectorValues["wall_generator"]? = some (.string "arachne") := by
  have hreplay : ((ingestion wallRegistry true).replay
      [wallCall (.string "classic"), wallCall (.string "arachne")]).map (fun result =>
        (lastGlobalWrite result.1 "wall_generator",
          result.1.map fun event => event.op.globalWrite "wall_generator")) =
      some (some (.string "arachne"), [some (.string "classic"), some (.string "arachne")]) := by
    decide +kernel
  obtain ⟨⟨trace, ingestor⟩, hrun, hvalues⟩ := Option.map_eq_some_iff.mp hreplay
  obtain ⟨hlast, hwrites⟩ := Prod.mk.inj hvalues
  obtain ⟨entry, hentry, hfields⟩ := Option.map_eq_some_iff.mp wallRegistry_entry
  obtain ⟨hselector, hfieldType⟩ := Prod.mk.inj hfields
  have hrun := Machine.run_of_replay hrun
  refine ⟨trace, ingestor, hrun, ?_⟩
  apply ((selector_follows_last_write_iff hrun hentry hselector).mpr ?_ _).mpr
  · exact ⟨_, hlast, by rw [hfieldType]; rfl⟩
  · rintro ⟨⟨event, hevent, authored, hwrite, huntyped⟩, -⟩
    have hmem : event.op.globalWrite "wall_generator" ∈
        trace.map fun event => event.op.globalWrite "wall_generator" :=
      List.mem_map_of_mem hevent
    rw [hfieldType] at huntyped
    rw [hwrites, hwrite] at hmem
    simp only [List.mem_cons, Option.some.injEq, List.not_mem_nil, or_false] at hmem
    rcases hmem with rfl | rfl <;> cases huntyped

end PinchNPrint.Config
