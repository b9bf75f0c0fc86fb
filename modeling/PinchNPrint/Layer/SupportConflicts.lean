/-
Support of several families on one layer (`slicer-runtime`: `layer_executor.rs`).

A support commit is compared with the entries that are still staged, and where two families
overlap both sides are dropped. An entry that was dropped no longer drops others, so with
three families the order of the commits matters (`late_entry_survives`).

`support_order_free_iff`: every order leaves the entries without any overlap exactly when in
every order an entry with an overlap meets another one alive, then or later.
-/

import PinchNPrint.Layer.Anchored

namespace PinchNPrint.Layer

variable {F : Type}

/-! ### What is staged -/

/-- A support commit of a module. -/
def supportCommit (commit : StageApplyContext × SupportIR F) :
    StageApplyContext × LayerStageCommit F :=
  (commit.1, .Support commit.2)

/-- The entries of commits. -/
def committedEntries (commits : List (StageApplyContext × SupportIR F)) : List (SupportEntry F) :=
  commits.flatMap (·.2.entries)

/-- The entries in the arena. -/
def SupportArena.entries (arena : SupportArena F) : List (SupportEntry F) :=
  (arena.support.map (·.entries)).getD []

section Survivors

variable (overlap : SupportEntry F → SupportEntry F → Bool)

/-- The entry overlaps one of another family. -/
def ClashesWith (entry : SupportEntry F) (others : List (SupportEntry F)) : Prop :=
  ∃ other ∈ others, clashes overlap entry other = true

/-- The entries that are staged after the commits. -/
def survivors (commits : List (StageApplyContext × SupportIR F)) : List (SupportEntry F) :=
  (commits.foldl (fun arena commit => applySupport overlap arena commit.2) {}).entries

/-- Each entry that overlaps another family in its commit or an earlier one overlaps one that
is still staged, or one of a later commit. -/
def MeetsOverlaps (order : List (StageApplyContext × SupportIR F)) : Prop :=
  ∀ before commit after, order = before ++ commit :: after → ∀ entry ∈ commit.2.entries,
    ClashesWith overlap entry (committedEntries before ++ commit.2.entries) →
      ClashesWith overlap entry (survivors overlap before) ∨
        ClashesWith overlap entry (committedEntries after)

variable {overlap} {entry : SupportEntry F} {others more : List (SupportEntry F)}
  {commits before after : List (StageApplyContext × SupportIR F)}

theorem clashesWith_append :
    ClashesWith overlap entry (others ++ more) ↔
      ClashesWith overlap entry others ∨ ClashesWith overlap entry more := by
  simp only [ClashesWith, List.mem_append, or_and_right, exists_or]

theorem clashes_comm (hsymm : ∀ a b, overlap a b = overlap b a) (a b : SupportEntry F) :
    clashes overlap a b = clashes overlap b a := by
  rw [clashes, clashes, hsymm a b, decide_eq_decide.mpr ne_comm]

theorem any_clashes_iff :
    others.any (clashes overlap entry ·) = true ↔ ClashesWith overlap entry others :=
  List.any_eq_true

/-- One commit: what survives of the staged entries and of the new ones. -/
theorem mem_applySupport (hsymm : ∀ a b, overlap a b = overlap b a) {arena : SupportArena F}
    {ir : SupportIR F} :
    entry ∈ (applySupport overlap arena ir).entries ↔
      entry ∈ arena.entries ∧ ¬ ClashesWith overlap entry ir.entries ∨
        entry ∈ ir.entries ∧ ¬ ClashesWith overlap entry arena.entries := by
  unfold applySupport SupportArena.entries
  cases arena.support with
  | none => simp [ClashesWith]
  | some existing =>
    simp only [Option.map_some, Option.getD_some, List.mem_append, List.mem_filter,
      Bool.not_eq_true', ← Bool.not_eq_true, any_clashes_iff]
    have hflip : (ir.entries.any fun new => clashes overlap new entry) = true ↔
        ClashesWith overlap entry ir.entries := by
      rw [← any_clashes_iff]
      simp only [clashes_comm hsymm entry]
    rw [hflip]

/-- An entry that is staged stays until a commit overlaps it. -/
theorem mem_foldl_applySupport (hsymm : ∀ a b, overlap a b = overlap b a) {arena : SupportArena F} :
    entry ∈ (commits.foldl (fun arena commit => applySupport overlap arena commit.2) arena).entries ↔
      entry ∈ arena.entries ∧ ¬ ClashesWith overlap entry (committedEntries commits) ∨
        ∃ before commit after, commits = before ++ commit :: after ∧ entry ∈ commit.2.entries ∧
          ¬ ClashesWith overlap entry
            (before.foldl (fun arena commit => applySupport overlap arena commit.2) arena).entries ∧
          ¬ ClashesWith overlap entry (committedEntries after) := by
  induction commits generalizing arena with
  | nil => simp [ClashesWith, committedEntries]
  | cons first rest ih =>
    have hentries : committedEntries (first :: rest) = first.2.entries ++ committedEntries rest :=
      rfl
    rw [List.foldl_cons, ih, mem_applySupport hsymm, hentries, clashesWith_append]
    constructor
    · rintro (⟨⟨hstaged, hnew⟩ | ⟨hentry, hstaged⟩, hrest⟩ |
        ⟨before, commit, after, rfl, hentry, hbefore, hafter⟩)
      · exact .inl ⟨hstaged, not_or.mpr ⟨hnew, hrest⟩⟩
      · exact .inr ⟨[], first, rest, rfl, hentry, hstaged, hrest⟩
      · exact .inr ⟨first :: before, commit, after, rfl, hentry, hbefore, hafter⟩
    · rintro (⟨hstaged, hnone⟩ | ⟨before, commit, after, hsplit, hentry, hbefore, hafter⟩)
      · obtain ⟨hnew, hrest⟩ := not_or.mp hnone
        exact .inl ⟨.inl ⟨hstaged, hnew⟩, hrest⟩
      · cases before with
        | nil =>
          cases hsplit
          exact .inl ⟨.inr ⟨hentry, hbefore⟩, hafter⟩
        | cons head tail =>
          cases hsplit
          exact .inr ⟨tail, commit, after, rfl, hentry, hbefore, hafter⟩

/-- An entry survives if it overlaps nothing alive when it is committed and nothing later. -/
theorem mem_survivors_iff (hsymm : ∀ a b, overlap a b = overlap b a) :
    entry ∈ survivors overlap commits ↔
      ∃ before commit after, commits = before ++ commit :: after ∧ entry ∈ commit.2.entries ∧
        ¬ ClashesWith overlap entry (survivors overlap before) ∧
        ¬ ClashesWith overlap entry (committedEntries after) := by
  rw [survivors, mem_foldl_applySupport hsymm]
  constructor
  · rintro (⟨hstaged, _⟩ | h)
    · cases hstaged
    · exact h
  · exact .inr

theorem mem_committedEntries_of_mem_survivors (hsymm : ∀ a b, overlap a b = overlap b a)
    (h : entry ∈ survivors overlap commits) : entry ∈ committedEntries commits := by
  obtain ⟨before, commit, after, rfl, hentry, _⟩ := (mem_survivors_iff hsymm).mp h
  exact List.mem_flatMap.mpr ⟨commit, by simp, hentry⟩

theorem committedEntries_split (commit : StageApplyContext × SupportIR F) :
    committedEntries (before ++ commit :: after) =
      committedEntries before ++ commit.2.entries ++ committedEntries after := by
  simp [committedEntries]

/-- One order leaves the entries without overlaps exactly if the others meet their overlaps. -/
theorem survivors_isolated_iff (hsymm : ∀ a b, overlap a b = overlap b a) :
    (∀ entry, entry ∈ survivors overlap commits ↔
      entry ∈ committedEntries commits ∧
        ¬ ClashesWith overlap entry (committedEntries commits)) ↔
      MeetsOverlaps overlap commits := by
  constructor
  · rintro hright before commit after rfl entry hentry hearlier
    by_contra hmeets
    obtain ⟨halive, hlater⟩ := not_or.mp hmeets
    have hsurvives := (mem_survivors_iff hsymm).mpr
      ⟨before, commit, after, rfl, hentry, halive, hlater⟩
    apply ((hright entry).mp hsurvives).2
    rw [committedEntries_split, clashesWith_append]
    exact .inl hearlier
  · intro hmeets entry
    constructor
    · intro hsurvives
      refine ⟨mem_committedEntries_of_mem_survivors hsymm hsurvives, ?_⟩
      obtain ⟨before, commit, after, rfl, hentry, halive, hlater⟩ :=
        (mem_survivors_iff hsymm).mp hsurvives
      rw [committedEntries_split, clashesWith_append]
      rintro (hearlier | hlate)
      · exact (hmeets before commit after rfl entry hentry hearlier).elim halive hlater
      · exact hlater hlate
    · rintro ⟨hentry, hisolated⟩
      obtain ⟨commit, hcommit, hmem⟩ := List.mem_flatMap.mp hentry
      obtain ⟨before, after, rfl⟩ := List.append_of_mem hcommit
      rw [committedEntries_split, clashesWith_append, clashesWith_append, not_or, not_or]
        at hisolated
      refine (mem_survivors_iff hsymm).mpr
        ⟨before, commit, after, rfl, hmem, fun halive => ?_, hisolated.2⟩
      obtain ⟨other, hother, hclash⟩ := halive
      exact hisolated.1.1
        ⟨other, mem_committedEntries_of_mem_survivors hsymm hother, hclash⟩

/-- Two commits meet their overlaps, if neither has one of its own. -/
theorem meetsOverlaps_of_two {first second : StageApplyContext × SupportIR F}
    (hfirst : ∀ entry ∈ first.2.entries, ¬ ClashesWith overlap entry first.2.entries)
    (hsecond : ∀ entry ∈ second.2.entries, ¬ ClashesWith overlap entry second.2.entries) :
    MeetsOverlaps overlap [first, second] := by
  intro before commit after hsplit entry hentry hearlier
  rw [clashesWith_append] at hearlier
  match before with
  | [] =>
    cases hsplit
    rcases hearlier with ⟨other, hother, _⟩ | hown
    · cases hother
    · exact absurd hown (hfirst entry hentry)
  | [_] =>
    cases hsplit
    rcases hearlier with hstaged | hown
    · have halive : survivors overlap [first] = committedEntries [first] := by
        simp [survivors, applySupport, SupportArena.entries, committedEntries]
      rw [halive]
      exact .inl hstaged
    · exact absurd hown (hsecond entry hentry)
  | _ :: _ :: rest => cases rest <;> cases hsplit

end Survivors

/-! ### Orders of commits -/

section Orders

variable [Field F] [LinearOrder F] [FloorRing F] [ToString F]
  {overlap : SupportEntry F → SupportEntry F → Bool}

/-- Support commits go through, and stage what `survivors` says. -/
theorem applyAll_supportCommits (commits : List (StageApplyContext × SupportIR F)) :
    ∃ arena, applyAll overlap {} (commits.map supportCommit) = .ok arena ∧
      arena.entries = survivors overlap commits := by
  refine ⟨commits.foldl (fun arena commit => applySupport overlap arena commit.2) {}, ?_, rfl⟩
  unfold applyAll
  generalize ({} : SupportArena F) = arena
  induction commits generalizing arena with
  | nil => rfl
  | cons commit rest ih =>
    rw [List.map_cons, List.foldlM_cons]
    exact ih (applySupport overlap arena commit.2)

/-- Every order of the commits leaves the same entries, those without any overlap with
another family, exactly if in every order the others meet their overlaps. -/
theorem support_order_free_iff (overlap : SupportEntry F → SupportEntry F → Bool)
    (hsymm : ∀ a b, overlap a b = overlap b a)
    (commits : List (StageApplyContext × SupportIR F)) :
    (∀ order : List (StageApplyContext × SupportIR F), order.Perm commits → ∃ arena,
      applyAll overlap {} (order.map supportCommit) = .ok arena ∧
        ∀ entry, entry ∈ arena.entries ↔ entry ∈ committedEntries commits ∧
          ¬ ClashesWith overlap entry (committedEntries commits)) ↔
      ∀ order : List (StageApplyContext × SupportIR F), order.Perm commits →
        MeetsOverlaps overlap order := by
  refine forall₂_congr fun order hperm => ?_
  have hmem : ∀ entry, entry ∈ committedEntries order ↔ entry ∈ committedEntries commits :=
    fun entry => (hperm.flatMap_right _).mem_iff
  have hclash : ∀ entry, ClashesWith overlap entry (committedEntries order) ↔
      ClashesWith overlap entry (committedEntries commits) :=
    fun entry => exists_congr fun other => and_congr_left fun _ => hmem other
  rw [← survivors_isolated_iff hsymm]
  obtain ⟨arena, harena, hentries⟩ : ∃ arena, applyAll overlap {} (order.map supportCommit) = .ok arena ∧
      arena.entries = survivors overlap order := applyAll_supportCommits order
  rw [harena]
  simp only [Except.ok.injEq, exists_eq_left', hentries, hmem, hclash]

end Orders

/-! ### Three families -/

/-- A support commit of one entry of a family. -/
def familyCommit (familyId : String) : StageApplyContext × SupportIR ℚ :=
  (⟨"Layer::Support", familyId⟩,
    { entries := [{ familyId := familyId, bodyId := familyId, demandIds := [], objectId := "object",
                    regionId := 0, role := .SupportBody, paths := [] }] })

/-- The family in the middle overlaps the two others. -/
def middleOverlaps (a b : SupportEntry ℚ) : Bool :=
  (a.familyId == "b") != (b.familyId == "b")

theorem familyCommit_own (familyId : String) :
    ∀ entry ∈ (familyCommit familyId).2.entries,
      ¬ ClashesWith middleOverlaps entry (familyCommit familyId).2.entries := by
  rintro entry hentry ⟨other, hother, hclash⟩
  cases List.mem_singleton.mp hentry
  cases List.mem_singleton.mp hother
  simp [clashes] at hclash

/-- Two families meet. -/
theorem support_order_free_two :
    (∀ a b, middleOverlaps a b = middleOverlaps b a) ∧
      ∀ order : List (StageApplyContext × SupportIR ℚ),
        order.Perm [familyCommit "a", familyCommit "b"] → ∃ arena,
        applyAll middleOverlaps {} (order.map supportCommit) = .ok arena ∧
          ∀ entry, entry ∈ arena.entries ↔
            entry ∈ committedEntries [familyCommit "a", familyCommit "b"] ∧
              ¬ ClashesWith middleOverlaps entry
                (committedEntries [familyCommit "a", familyCommit "b"]) := by
  have hsymm : ∀ a b, middleOverlaps a b = middleOverlaps b a := fun a b => bne_comm
  refine ⟨hsymm, (support_order_free_iff middleOverlaps hsymm _).mpr fun order hperm => ?_⟩
  rcases List.perm_pair.mp hperm with rfl | rfl
  · exact meetsOverlaps_of_two (familyCommit_own "a") (familyCommit_own "b")
  · exact meetsOverlaps_of_two (familyCommit_own "b") (familyCommit_own "a")

/-- The third family stays if the second was dropped together with the first. -/
theorem late_entry_survives :
    (∀ a b, middleOverlaps a b = middleOverlaps b a) ∧ ∃ arena, applyAll middleOverlaps {}
        ([familyCommit "a", familyCommit "b", familyCommit "c"].map supportCommit) = .ok arena ∧
      ∃ arena', applyAll middleOverlaps {}
          ([familyCommit "a", familyCommit "c", familyCommit "b"].map supportCommit) = .ok arena' ∧
        arena.entries = (familyCommit "c").2.entries ∧ arena'.entries = [] := by
  exact ⟨fun a b => bne_comm, _, rfl, _, rfl, by decide +kernel, by decide +kernel⟩

end PinchNPrint.Layer
