/-
The text post-processors (`slicer-runtime`: `postpass.rs`).

`executePostpassWithCapture` is the run behind the G-code stages: it serializes the
commands and hands the text from module to module. A module takes the text it is
handed, so the host serializes the commands again where a module returns none.

`composeModules` is what the modules make of the text when one that does not succeed
changes nothing. The two agree as long as every module that does not succeed is handed
the serialized text itself.
-/

import PinchNPrint.Lib.Collections

namespace PinchNPrint.Postpass

/-! ### The modules and their results -/

inductive PostpassOutput where
  | GCodeSuccess
  | TextSuccess (text : String)
  | NonFatalError (message : String)
deriving DecidableEq

/-- `ModuleAccessAudit`, without its diagnostics, which no text module has. -/
structure ModuleAccessAudit where
  moduleId : String
  runtimeReads : List String
  runtimeWrites : List String
  batchCalls : List (String × Nat)
deriving DecidableEq

/-- What a call of a module returns, and the accesses the runner took down. -/
structure TextDispatch where
  output : PostpassOutput
  runtimeReads : List String := []
  batchCalls : List (String × Nat) := []

/-- A text post-processor: what it does with the text it is handed. -/
structure TextModule (ε : Type) where
  moduleId : String
  runTextPostprocess : String → Except ε TextDispatch

/-- A stage of the postpass. -/
structure PostpassStage (ε : Type) where
  stageId : String
  modules : List (TextModule ε)

section Execute

variable {ε ir : Type}

/-- `str::contains`. -/
def containsText (text pattern : String) : Bool :=
  decide (pattern.toList <:+: text.toList)

/-- The record of a call that returned a text. -/
def auditOf (moduleId : String) (dispatch : TextDispatch) : ModuleAccessAudit where
  moduleId := moduleId
  runtimeReads := dispatch.runtimeReads
  runtimeWrites := ["GCodeIR"]
  batchCalls := dispatch.batchCalls

/-- One module of Step 5. The text moves into the module. -/
def runTextModule (serializeGcode : ir → Except ε String) (gcodeIr : ir)
    (state : String × List ModuleAccessAudit) (module : TextModule ε) :
    Except ε (String × List ModuleAccessAudit) := do
  let (text, audits) := state
  let dispatch ← module.runTextPostprocess text
  match dispatch.output with
  | .TextSuccess newText => return (newText, audits ++ [auditOf module.moduleId dispatch])
  | .NonFatalError _ => return (← serializeGcode gcodeIr, audits)
  | .GCodeSuccess => return (← serializeGcode gcodeIr, audits)

/-- The stages that hold text post-processors. -/
def textPostprocessStages (stages : List (PostpassStage ε)) : List (PostpassStage ε) :=
  stages.filter fun stage => containsText stage.stageId "TextPostProcess"

/-- `execute_postpass_with_capture` from its Step 3 on. -/
def executePostpassWithCapture (serializeGcode : ir → Except ε String) (gcodeIr : ir)
    (audits : List ModuleAccessAudit) (stages : List (PostpassStage ε)) :
    Except ε (String × List ModuleAccessAudit) := do
  let textStages := textPostprocessStages stages
  if textStages.isEmpty then
    return (← serializeGcode gcodeIr, audits)
  else
    let text ← serializeGcode gcodeIr
    textStages.foldlM (fun state stage =>
      stage.modules.foldlM (runTextModule serializeGcode gcodeIr) state) (text, audits)

/-! ### A module that does not succeed changes nothing -/

/-- All text post-processors, in the order they run in. -/
def textModules (stages : List (PostpassStage ε)) : List (TextModule ε) :=
  (textPostprocessStages stages).flatMap PostpassStage.modules

/-- The text behind a module that leaves it where it does not succeed. -/
def composeModule (text : String) (module : TextModule ε) : Except ε String := do
  match (← module.runTextPostprocess text).output with
  | .TextSuccess newText => return newText
  | .NonFatalError _ => return text
  | .GCodeSuccess => return text

/-- The text transformed by the modules that succeed, in order. -/
def composeModules (serialized : Except ε String) (modules : List (TextModule ε)) :
    Except ε String := do
  modules.foldlM composeModule (← serialized)

/-- The text the host has behind the modules. -/
def textBehind (serializeGcode : ir → Except ε String) (gcodeIr : ir)
    (modules : List (TextModule ε)) : Except ε String := do
  let text ← serializeGcode gcodeIr
  return (← modules.foldlM (runTextModule serializeGcode gcodeIr) (text, [])).1

/-- The module comes back from `text` without a text of its own. -/
def Fails (module : TextModule ε) (text : String) : Prop :=
  ∃ dispatch, module.runTextPostprocess text = .ok dispatch ∧
    ∀ newText, dispatch.output ≠ .TextSuccess newText

/-- The text returned is the serialized one transformed by the modules that succeed, and
one that does not leaves the text as the modules before it made it. -/
def FailuresChangeNothing (serializeGcode : ir → Except ε String) (gcodeIr : ir)
    (audits : List ModuleAccessAudit) (stages : List (PostpassStage ε)) : Prop :=
  (executePostpassWithCapture serializeGcode gcodeIr audits stages).map (·.1) =
      composeModules (serializeGcode gcodeIr) (textModules stages) ∧
  ∀ before module after text, textModules stages = before ++ module :: after →
    textBehind serializeGcode gcodeIr before = .ok text → Fails module text →
    textBehind serializeGcode gcodeIr (before ++ [module]) = .ok text

/-- Every module that does not succeed is handed the serialized text itself. -/
def FailuresMeetSerialized (serializeGcode : ir → Except ε String) (gcodeIr : ir)
    (stages : List (PostpassStage ε)) : Prop :=
  ∀ before module after text, textModules stages = before ++ module :: after →
    composeModules (serializeGcode gcodeIr) before = .ok text → Fails module text →
    serializeGcode gcodeIr = .ok text

end Execute

/-! ### The run on the text alone -/

section Texts

variable {ε ir : Type} {serializeGcode : ir → Except ε String} {gcodeIr : ir}

/-- The text behind one module. -/
def nextText (serializeGcode : ir → Except ε String) (gcodeIr : ir) (text : String)
    (module : TextModule ε) : Except ε String := do
  match (← module.runTextPostprocess text).output with
  | .TextSuccess newText => return newText
  | .NonFatalError _ => serializeGcode gcodeIr
  | .GCodeSuccess => serializeGcode gcodeIr

theorem map_fst_runTextModule (state : String × List ModuleAccessAudit) (module : TextModule ε) :
    (runTextModule serializeGcode gcodeIr state module).map (·.1) =
      nextText serializeGcode gcodeIr state.1 module := by
  rw [runTextModule, nextText]
  cases module.runTextPostprocess state.1 with
  | error e => rfl
  | ok dispatch =>
    rw [Except.ok_bind, Except.ok_bind]
    cases dispatch.output with
    | TextSuccess newText => rfl
    | NonFatalError message => cases serializeGcode gcodeIr <;> rfl
    | GCodeSuccess => cases serializeGcode gcodeIr <;> rfl

theorem map_fst_foldlM_runTextModule (modules : List (TextModule ε)) :
    ∀ state : String × List ModuleAccessAudit,
      (modules.foldlM (runTextModule serializeGcode gcodeIr) state).map (·.1) =
        modules.foldlM (nextText serializeGcode gcodeIr) state.1 := by
  induction modules with
  | nil => exact fun state => rfl
  | cons module modules ih =>
    intro state
    rw [List.foldlM_cons, List.foldlM_cons, ← map_fst_runTextModule]
    cases runTextModule serializeGcode gcodeIr state module with
    | error e => rfl
    | ok next => exact ih next

theorem textBehind_eq (modules : List (TextModule ε)) :
    textBehind serializeGcode gcodeIr modules =
      serializeGcode gcodeIr >>= modules.foldlM (nextText serializeGcode gcodeIr) := by
  rw [textBehind]
  cases serializeGcode gcodeIr with
  | error e => rfl
  | ok text => exact map_fst_foldlM_runTextModule modules (text, [])

theorem foldlM_stages (stages : List (PostpassStage ε)) :
    ∀ state : String × List ModuleAccessAudit,
      stages.foldlM (fun state stage =>
          stage.modules.foldlM (runTextModule serializeGcode gcodeIr) state) state =
        (stages.flatMap PostpassStage.modules).foldlM (runTextModule serializeGcode gcodeIr)
          state := by
  induction stages with
  | nil => exact fun state => rfl
  | cons stage stages ih =>
    intro state
    rw [List.foldlM_cons, List.flatMap_cons, List.foldlM_append]
    exact congrArg _ (funext ih)

/-- The host runs the modules stage by stage, whatever audits it has already. -/
theorem executePostpassWithCapture_text (audits : List ModuleAccessAudit)
    (stages : List (PostpassStage ε)) :
    (executePostpassWithCapture serializeGcode gcodeIr audits stages).map (·.1) =
      textBehind serializeGcode gcodeIr (textModules stages) := by
  rw [textBehind_eq, textModules, executePostpassWithCapture]
  cases hser : serializeGcode gcodeIr with
  | error e => split <;> rfl
  | ok text =>
    cases hstages : textPostprocessStages stages with
    | nil => rfl
    | cons stage rest =>
      have hfold := @map_fst_foldlM_runTextModule _ _ serializeGcode gcodeIr
        ((stage :: rest).flatMap PostpassStage.modules) (text, audits)
      rw [← foldlM_stages] at hfold
      exact hfold

theorem textBehind_concat (before : List (TextModule ε)) (module : TextModule ε) :
    textBehind serializeGcode gcodeIr (before ++ [module]) =
      textBehind serializeGcode gcodeIr before >>= fun text =>
        nextText serializeGcode gcodeIr text module := by
  simp [textBehind_eq, List.foldlM_append]

theorem composeModules_concat (serialized : Except ε String) (before : List (TextModule ε))
    (module : TextModule ε) :
    composeModules serialized (before ++ [module]) =
      composeModules serialized before >>= fun text => composeModule text module := by
  simp [composeModules, List.foldlM_append]

variable {module : TextModule ε} {text : String}

theorem nextText_of_fails (h : Fails module text) :
    nextText serializeGcode gcodeIr text module = serializeGcode gcodeIr := by
  obtain ⟨dispatch, hrun, hfails⟩ := h
  rw [nextText, hrun, Except.ok_bind]
  cases hout : dispatch.output with
  | TextSuccess newText => exact absurd hout (hfails newText)
  | NonFatalError message => rfl
  | GCodeSuccess => rfl

theorem composeModule_of_fails (h : Fails module text) : composeModule text module = .ok text := by
  obtain ⟨dispatch, hrun, hfails⟩ := h
  rw [composeModule, hrun, Except.ok_bind]
  cases hout : dispatch.output with
  | TextSuccess newText => exact absurd hout (hfails newText)
  | NonFatalError message => rfl
  | GCodeSuccess => rfl

theorem nextText_eq_composeModule (h : ¬ Fails module text) :
    nextText serializeGcode gcodeIr text module = composeModule text module := by
  rw [nextText, composeModule]
  cases hrun : module.runTextPostprocess text with
  | error e => rfl
  | ok dispatch =>
    rw [Except.ok_bind, Except.ok_bind]
    cases hout : dispatch.output with
    | TextSuccess newText => rfl
    | NonFatalError message => exact absurd ⟨dispatch, hrun, by simp [hout]⟩ h
    | GCodeSuccess => exact absurd ⟨dispatch, hrun, by simp [hout]⟩ h

/-- One more module, where one that fails leaves the text alone. -/
theorem textBehind_concat_of_eq {before : List (TextModule ε)}
    (heq : textBehind serializeGcode gcodeIr before =
      composeModules (serializeGcode gcodeIr) before)
    (hkeep : ∀ text, textBehind serializeGcode gcodeIr before = .ok text → Fails module text →
      serializeGcode gcodeIr = .ok text) :
    textBehind serializeGcode gcodeIr (before ++ [module]) =
      composeModules (serializeGcode gcodeIr) (before ++ [module]) := by
  rw [textBehind_concat, composeModules_concat, ← heq]
  cases htext : textBehind serializeGcode gcodeIr before with
  | error e => rfl
  | ok text =>
    rw [Except.ok_bind, Except.ok_bind]
    by_cases hfails : Fails module text
    case pos => rw [nextText_of_fails hfails, composeModule_of_fails hfails, hkeep text htext hfails]
    case neg => exact nextText_eq_composeModule hfails

/-- Behind every run of modules from the first one on, the text is the composed one. -/
theorem textBehind_eq_composeModules (modules : List (TextModule ε))
    (hkeep : ∀ before module after text, modules = before ++ module :: after →
      textBehind serializeGcode gcodeIr before = .ok text →
      textBehind serializeGcode gcodeIr before =
        composeModules (serializeGcode gcodeIr) before →
      Fails module text → serializeGcode gcodeIr = .ok text)
    (before after : List (TextModule ε)) (hsplit : modules = before ++ after) :
    textBehind serializeGcode gcodeIr before =
      composeModules (serializeGcode gcodeIr) before := by
  induction before using List.reverseRecOn generalizing after with
  | nil => rw [textBehind_eq]; rfl
  | append_singleton before module ih =>
    have hsplit' : modules = before ++ module :: after := by
      rw [hsplit, List.append_assoc, List.singleton_append]
    have heq := ih (module :: after) hsplit'
    exact textBehind_concat_of_eq heq fun text htext =>
      hkeep before module after text hsplit' htext heq

/-- The text post-processors that fail change nothing exactly if each of them is handed
the serialized text: the host puts that text back in place of what they were handed. -/
theorem failures_change_nothing_iff (serializeGcode : ir → Except ε String) (gcodeIr : ir)
    (audits : List ModuleAccessAudit) (stages : List (PostpassStage ε)) :
    FailuresChangeNothing serializeGcode gcodeIr audits stages ↔
      FailuresMeetSerialized serializeGcode gcodeIr stages := by
  rw [FailuresChangeNothing, executePostpassWithCapture_text]
  constructor
  · rintro ⟨_, hkept⟩ before module after text hsplit htext hfails
    have heq := textBehind_eq_composeModules (textModules stages)
      (fun before module after text hsplit htext _ hfails => by
        have hkeep := hkept before module after text hsplit htext hfails
        rwa [textBehind_concat, htext, Except.ok_bind, nextText_of_fails hfails] at hkeep)
      before (module :: after) hsplit
    have hkeep := hkept before module after text hsplit (heq.trans htext) hfails
    rwa [textBehind_concat, heq, htext, Except.ok_bind, nextText_of_fails hfails] at hkeep
  · intro hmeet
    have heq := textBehind_eq_composeModules (textModules stages)
      (fun before module after text hsplit htext heq hfails =>
        hmeet before module after text hsplit (heq ▸ htext) hfails)
    refine ⟨heq _ [] (List.append_nil _).symm, ?_⟩
    intro before module after text hsplit htext hfails
    have hser := hmeet before module after text hsplit
      ((heq before (module :: after) hsplit) ▸ htext) hfails
    rw [textBehind_concat, htext, Except.ok_bind, nextText_of_fails hfails, hser]

end Texts

/-- A module that succeeds with a text of its own, and one that fails behind it. -/
def changedThenFailing : List (PostpassStage String) :=
  [{ stageId := "PostPass::TextPostProcess"
     modules :=
      [{ moduleId := "changes", runTextPostprocess := fun _ => .ok { output := .TextSuccess "M0" } },
       { moduleId := "fails"
         runTextPostprocess := fun _ => .ok { output := .NonFatalError "not now" } }] }]

/-- The change of the first module is lost. -/
theorem failing_module_undoes_change :
    ¬ FailuresChangeNothing (fun text : String => .ok text) "G28" [] changedThenFailing := by
  rintro ⟨hreturned, _⟩
  exact absurd hreturned (by decide +kernel)

end PinchNPrint.Postpass
