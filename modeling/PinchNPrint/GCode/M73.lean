/-
Progress reports in the command stream (`slicer-gcode`: `inject_m73`).

A report is a pair of lines, one for the normal and one for the silent mode. The
reports advance: their percentages ascend and their remaining minutes descend,
because no segment of the estimate takes less than no time (`segmentTime_nonneg`).

`none` is an index out of range.
-/

import PinchNPrint.GCode.Estimator

namespace PinchNPrint.GCode

open PinchNPrint.Layer

section Inject

variable {F : Type}

/-- The two lines of a report. -/
def progressPair (pct remainingMin : Nat) : List (GCodeCommand F) :=
  [.Raw s!"M73 P{pct} R{remainingMin}", .Raw s!"M73 Q{pct} S{remainingMin}"]

variable [Field F] [LinearOrder F] [FloorRing F]

/-- `x.round() as u32`, saturating. -/
def roundU32 (x : F) : Nat :=
  min (Decimal.roundAway x).toNat U32_MAX

/-- The percentage and the remaining minutes at `elapsed` of `total`. -/
def progressAt (total elapsed : F) : Nat × Nat :=
  ((min (max (Decimal.roundAway (elapsed / total * 100)) 0) 100).toNat,
    roundU32 ((total - elapsed) / 60))

/-- The loop of `inject_m73`: `lastEmitted` is the last report. -/
def injectLoop (total : F) (elapsedS : List F) :
    Nat × Nat → Nat → List (GCodeCommand F) → Option (List (GCodeCommand F))
  | _, _, [] => some []
  | lastEmitted, index, command :: rest => do
    if isLayerChange command then
      let report := progressAt total (← elapsedS[index]?)
      let injected ← injectLoop total elapsedS report (index + 1) rest
      if lastEmitted ≠ report then
        return command :: (progressPair report.1 report.2 ++ injected)
      else
        return command :: injected
    else
      return command :: (← injectLoop total elapsedS lastEmitted (index + 1) rest)

def injectM73 (commands : List (GCodeCommand F)) (elapsedS : List F) :
    Option (List (GCodeCommand F)) := do
  let total := elapsedS.getLast?.getD 0
  if total ≤ 0 then
    return commands
  else
    let totalMin := roundU32 (total / 60)
    let injected ← injectLoop total elapsedS (0, totalMin) 0 commands
    return progressPair 0 totalMin ++ (injected ++ progressPair 100 0)

end Inject

/-! ### The reports and the commands between them -/

/-- `Reported commands reports injected`: `injected` is the commands with the reports
between them. Both lines of a report say the same. -/
inductive Reported {F : Type} :
    List (GCodeCommand F) → List (Nat × Nat) → List (GCodeCommand F) → Prop where
  | done : Reported [] [] []
  | command (c : GCodeCommand F) {commands reports injected} :
      Reported commands reports injected → Reported (c :: commands) reports (c :: injected)
  | report (r : Nat × Nat) {commands reports injected} :
      Reported commands reports injected →
      Reported commands (r :: reports) (progressPair r.1 r.2 ++ injected)

theorem Reported.refl {F : Type} (commands : List (GCodeCommand F)) :
    Reported commands [] commands := by
  induction commands with
  | nil => exact .done
  | cons c commands ih => exact .command c ih

/-- One more report behind the others. -/
theorem Reported.concat {F : Type} {commands injected : List (GCodeCommand F)}
    {reports : List (Nat × Nat)} (h : Reported commands reports injected) (r : Nat × Nat) :
    Reported commands (reports ++ [r]) (injected ++ progressPair r.1 r.2) := by
  induction h with
  | done => simpa using Reported.report r .done
  | command c _ ih => exact .command c ih
  | report r' _ ih => rw [List.append_assoc]; exact .report r' ih

/-- The later report shows at least the percentage and at most the minutes. -/
def Advances (earlier later : Nat × Nat) : Prop :=
  earlier.1 ≤ later.1 ∧ later.2 ≤ earlier.2

theorem Advances.trans {r s t : Nat × Nat} (hrs : Advances r s) (hst : Advances s t) :
    Advances r t :=
  ⟨hrs.1.trans hst.1, hst.2.trans hrs.2⟩

instance : IsTrans (Nat × Nat) Advances :=
  ⟨fun _ _ _ => Advances.trans⟩

section Progress

variable {F : Type} [Field F] [LinearOrder F] [FloorRing F] [IsStrictOrderedRing F]

theorem roundU32_mono {x y : F} (h : x ≤ y) : roundU32 x ≤ roundU32 y :=
  min_le_min_right _ (Int.toNat_le_toNat (Decimal.roundAway_mono h))

omit [IsStrictOrderedRing F] in
theorem progressAt_le (total elapsed : F) : (progressAt total elapsed).1 ≤ 100 := by
  have hle := min_le_right (max (Decimal.roundAway (elapsed / total * 100)) 0) 100
  simp only [progressAt]
  omega

theorem progressAt_advances {total earlier later : F} (htotal : 0 < total) (h : earlier ≤ later) :
    Advances (progressAt total earlier) (progressAt total later) := by
  constructor
  · have hround : Decimal.roundAway (earlier / total * 100) ≤
        Decimal.roundAway (later / total * 100) :=
      Decimal.roundAway_mono (by gcongr)
    exact Int.toNat_le_toNat (min_le_min_right _ (max_le_max_right _ hround))
  · exact roundU32_mono (by gcongr)

/-- What the loop injects advances from the last report on, and no report is over a
hundred percent. The induction is on the commands that remain. -/
theorem injectLoop_spec {total : F} (htotal : 0 < total) {elapsedS : List F}
    (hsorted : elapsedS.Pairwise (· ≤ ·)) (commands : List (GCodeCommand F)) :
    ∀ (lastEmitted : Nat × Nat) (index : Nat), index + commands.length = elapsedS.length →
      (∀ i elapsed, index ≤ i → elapsedS[i]? = some elapsed →
        Advances lastEmitted (progressAt total elapsed)) →
      ∃ injected reports, injectLoop total elapsedS lastEmitted index commands = some injected ∧
        Reported commands reports injected ∧ (lastEmitted :: reports).IsChain Advances ∧
        ∀ r ∈ reports, r.1 ≤ 100 := by
  induction commands with
  | nil =>
    intro lastEmitted index _ _
    exact ⟨[], [], rfl, .done, .singleton _, by simp⟩
  | cons command rest ih =>
    intro lastEmitted index hlength hlast
    have hrest : index + 1 + rest.length = elapsedS.length := by
      rw [← hlength, List.length_cons]
      omega
    by_cases hlayer : isLayerChange command = true
    case neg =>
      obtain ⟨injected, reports, hloop, hreported, hchain, hpct⟩ :=
        ih lastEmitted (index + 1) hrest (fun i e hi => hlast i e (by omega))
      refine ⟨command :: injected, reports, ?_, .command command hreported, hchain, hpct⟩
      simp [injectLoop, hlayer, hloop]
    case pos =>
      obtain ⟨elapsed, helapsed⟩ : ∃ elapsed, elapsedS[index]? = some elapsed :=
        ⟨_, List.getElem?_eq_getElem (by rw [← hlength, List.length_cons]; omega)⟩
      -- Every later value is at least the one of this command.
      have hlater : ∀ i e, index + 1 ≤ i → elapsedS[i]? = some e →
          Advances (progressAt total elapsed) (progressAt total e) := by
        intro i e hi he
        obtain ⟨hindex, rfl⟩ := List.getElem?_eq_some_iff.mp helapsed
        obtain ⟨hi', rfl⟩ := List.getElem?_eq_some_iff.mp he
        exact progressAt_advances htotal
          (List.pairwise_iff_getElem.mp hsorted index i hindex hi' (by omega))
      obtain ⟨injected, reports, hloop, hreported, hchain, hpct⟩ :=
        ih (progressAt total elapsed) (index + 1) hrest hlater
      have hadvance := hlast index elapsed le_rfl helapsed
      by_cases hsame : lastEmitted = progressAt total elapsed
      · refine ⟨command :: injected, reports, ?_, .command command hreported,
          hsame ▸ hchain, hpct⟩
        simp [injectLoop, hlayer, helapsed, hloop, hsame]
      · refine ⟨_, progressAt total elapsed :: reports, ?_,
          .command command (.report (progressAt total elapsed) hreported),
          .cons_cons hadvance hchain, List.forall_mem_cons.mpr ⟨progressAt_le _ _, hpct⟩⟩
        simp [injectLoop, hlayer, helapsed, hloop, hsame]

end Progress

section Estimated

variable {F : Type} [Field F] [LinearOrder F] [FloorRing F] [IsStrictOrderedRing F] [Sqrt F]
  [CirclePi F]

/-- With the elapsed times of the estimate nothing is out of range, the commands are
those between the reports, and the reports advance to a hundred percent and no minutes.
There is no report where the print takes no time. -/
theorem inject_m73_reports_progress (commands : List (GCodeCommand F)) (limits : EstimatorLimits F)
    (toolDiameters : BTreeMap Nat F) :
    ∃ injected reports,
      injectM73 commands (estimatePrintWithElapsed commands limits toolDiameters).2 =
        some injected ∧
      Reported commands reports injected ∧ reports.Pairwise Advances ∧
      (∀ r ∈ reports, r.1 ≤ 100) ∧
      (0 < (estimatePrintWithElapsed commands limits toolDiameters).1.totalTimeS →
        reports.getLast? = some (100, 0)) ∧
      ((estimatePrintWithElapsed commands limits toolDiameters).1.totalTimeS ≤ 0 →
        reports = []) := by
  have hlength := length_elapsed commands limits toolDiameters
  have hlast := getLast?_runningSums 0 (elapsedDeltas limits commands)
  have hsorted := pairwise_runningSums (elapsedDeltas_nonneg limits commands) 0
  simp only [estimatePrintWithElapsed] at hlength ⊢
  rw [zero_add] at hlast
  set deltas := elapsedDeltas limits commands
  set elapsedS := runningSums 0 deltas
  by_cases htotal : 0 < deltas.sum
  case neg =>
    refine ⟨commands, [], ?_, .refl commands, .nil, by simp, fun h => absurd h htotal, fun _ => rfl⟩
    simp [injectM73, hlast, not_lt.mp htotal]
  case pos =>
    rw [List.pairwise_cons] at hsorted
    -- No report shows more minutes than the first one.
    have hfirst : ∀ i elapsed, 0 ≤ i → elapsedS[i]? = some elapsed →
        Advances (0, roundU32 (deltas.sum / 60)) (progressAt deltas.sum elapsed) := by
      intro i elapsed _ hi
      have hpos := hsorted.1 elapsed (List.mem_of_getElem? hi)
      exact ⟨Nat.zero_le _, roundU32_mono (by gcongr; exact sub_le_self _ hpos)⟩
    obtain ⟨injected, reports, hloop, hreported, hchain, hpct⟩ :=
      injectLoop_spec htotal hsorted.2 commands (0, roundU32 (deltas.sum / 60)) 0
        (by rw [zero_add, hlength]) hfirst
    have hall : ∀ r ∈ (0, roundU32 (deltas.sum / 60)) :: reports, r.1 ≤ 100 :=
      List.forall_mem_cons.mpr ⟨Nat.zero_le _, hpct⟩
    refine ⟨_, ((0, roundU32 (deltas.sum / 60)) :: reports) ++ [(100, 0)], ?_,
      .concat (.report (0, roundU32 (deltas.sum / 60)) hreported) (100, 0), ?_, ?_,
      fun _ => List.getLast?_concat, fun h => absurd htotal (not_lt.mpr h)⟩
    · simp [injectM73, hlast, not_le.mpr htotal, hloop]
    · rw [List.pairwise_append]
      refine ⟨List.isChain_iff_pairwise.mp hchain, List.pairwise_singleton _ _, ?_⟩
      intro r hr last hmem
      rw [List.mem_singleton.mp hmem]
      exact ⟨hall r hr, Nat.zero_le _⟩
    · intro r hr
      rcases List.mem_append.mp hr with hr | hr
      · exact hall r hr
      · rw [List.mem_singleton.mp hr]

end Estimated

/-- Two layers of one move each. -/
def twoLayers : List (GCodeCommand ℚ) :=
  [.Raw layerChangeText, .Move (some 0) (some 0) none none (some 600) .OuterWall,
    .Move (some 10) none none none none .OuterWall, .Raw layerChangeText,
    .Move (some 0) none none none none .OuterWall]

theorem inject_m73_reports_progress_two_layers :
    ∃ injected reports,
      injectM73 twoLayers (estimatePrintWithElapsed twoLayers default ∅).2 = some injected ∧
      Reported twoLayers reports injected ∧ reports.Pairwise Advances ∧
      reports.getLast? = some (100, 0) := by
  obtain ⟨injected, reports, hinject, hreported, hadvance, _, hlast, _⟩ :=
    inject_m73_reports_progress twoLayers default ∅
  exact ⟨injected, reports, hinject, hreported, hadvance, hlast (by decide +kernel)⟩

end PinchNPrint.GCode
