/-
The transitive-dependency pass.

The pass searches the requirements of each module along whole paths: its visited
set holds paths, not modules, so it stops because a path never repeats an id after
its second one. `Searches` is the loop of the source without a bound on its
rounds. `searches_transitiveSearch` says that the bounded search is a finished run
of it, `Searches.sound` and `Searches.complete` what a run finds, and
`transitiveDependencies_exact` puts them together for a list of modules.
-/

import PinchNPrint.Scheduler.Validation

namespace PinchNPrint.Scheduler

open Std Relation

/-- The paths that extend a path by a requirement of its last module. -/
def extensions (path : List ModuleId) (current : LoadedModule) : List (List ModuleId) :=
  ((current.requiresModules.insertionSort (· ≤ ·)).filter fun next => !path.contains next).map
    fun next => path ++ [next]

/-- What a fresh path leads to: the later stage its last module is in, or the
paths to search next. -/
def pathStep (byId : BTreeMap ModuleId LoadedModule) (moduleIndex : Nat) (path : List ModuleId) :
    Except StageId (List (List ModuleId)) :=
  match path.getLast?.bind fun id => byId[id]? with
  | none => .ok []
  | some current =>
      match stageOrderIndex[current.stage]? with
      | none => .ok []
      | some currentIndex =>
          if moduleIndex < currentIndex then .error current.stage
          else .ok (extensions path current)

/-- The search loop of the source, from a queue and a visited set to its result. -/
inductive Searches (byId : BTreeMap ModuleId LoadedModule) (moduleIndex : Nat) :
    List (List ModuleId) → BTreeSet (List ModuleId) → Option (List ModuleId × StageId) → Prop
  | done {visited : BTreeSet (List ModuleId)} : Searches byId moduleIndex [] visited none
  | skip {path : List ModuleId} {queue : List (List ModuleId)}
      {visited : BTreeSet (List ModuleId)} {result : Option (List ModuleId × StageId)}
      (h : path = [] ∨ path ∈ visited) (rest : Searches byId moduleIndex queue visited result) :
      Searches byId moduleIndex (path :: queue) visited result
  | found {path : List ModuleId} {queue : List (List ModuleId)}
      {visited : BTreeSet (List ModuleId)} {stage : StageId} (h : path ∉ visited)
      (hstep : pathStep byId moduleIndex path = .error stage) :
      Searches byId moduleIndex (path :: queue) visited (some (path, stage))
  | extend {path : List ModuleId} {queue next : List (List ModuleId)}
      {visited : BTreeSet (List ModuleId)} {result : Option (List ModuleId × StageId)}
      (h : path ∉ visited) (hstep : pathStep byId moduleIndex path = .ok next)
      (rest : Searches byId moduleIndex (queue ++ next) (visited.insert path) result) :
      Searches byId moduleIndex (path :: queue) visited result

variable {path : List ModuleId} {byId : BTreeMap ModuleId LoadedModule}

/-- One round of the bounded search. -/
theorem transitiveSearch_cons (byId : BTreeMap ModuleId LoadedModule) (moduleIndex fuel : Nat)
    (hpath : path ≠ []) (queue : List (List ModuleId)) (visited : BTreeSet (List ModuleId)) :
    transitiveSearch byId moduleIndex (fuel + 1) (path :: queue) visited =
      if path ∈ visited then transitiveSearch byId moduleIndex fuel queue visited
      else
        match pathStep byId moduleIndex path with
        | .error stage => some (path, stage)
        | .ok next =>
            transitiveSearch byId moduleIndex fuel (queue ++ next) (visited.insert path) := by
  cases hlast : path.getLast? with
  | none => exact absurd (List.getLast?_eq_none_iff.mp hlast) hpath
  | some currentId =>
    rw [transitiveSearch, hlast]
    simp only [pathStep, hlast, Option.bind_some]
    split
    · rfl
    · cases byId[currentId]? with
      | none => simp
      | some current =>
        simp only
        cases stageOrderIndex[current.stage]? with
        | none => simp
        | some currentIndex =>
          simp only
          split <;> rfl

/-! ### The search stops -/

/-- A path of the search: past its start it repeats no id, and every id it was
extended from is loaded. -/
structure SearchPath (byId : BTreeMap ModuleId LoadedModule) (path : List ModuleId) : Prop where
  two : 2 ≤ path.length
  nodup : path.tail.Nodup
  loaded : ∀ id ∈ path.tail.dropLast, id ∈ byId

/-- What a fresh path can lead to. -/
theorem pathStep_cases {moduleIndex : Nat} {next : List (List ModuleId)}
    (h : pathStep byId moduleIndex path = .ok next) :
    next = [] ∨ ∃ id current, path.getLast? = some id ∧ byId[id]? = some current ∧
      next = extensions path current := by
  unfold pathStep at h
  split at h
  · cases h
    exact .inl rfl
  · rename_i current hcurrent
    obtain ⟨id, hlast, hload⟩ := Option.bind_eq_some_iff.mp hcurrent
    split at h
    · cases h
      exact .inl rfl
    · split at h
      · cases h
      · cases h
        exact .inr ⟨id, current, hlast, hload, rfl⟩

theorem mem_extensions {next : List ModuleId} {current : LoadedModule} :
    next ∈ extensions path current ↔
      ∃ id ∈ current.requiresModules, id ∉ path ∧ next = path ++ [id] := by
  simp only [extensions, List.mem_map, List.mem_filter, List.mem_insertionSort]
  constructor
  · rintro ⟨id, ⟨hid, hfresh⟩, rfl⟩
    exact ⟨id, hid, by simpa using hfresh, rfl⟩
  · rintro ⟨id, hid, hfresh, rfl⟩
    exact ⟨id, ⟨hid, by simpa using hfresh⟩, rfl⟩

theorem SearchPath.tail_loaded (h : SearchPath byId path) {id : ModuleId}
    (hlast : path.getLast? = some id) (hid : id ∈ byId) : ∀ id' ∈ path.tail, id' ∈ byId := by
  have htail : path.tail ≠ [] := by
    have := h.two
    rw [ne_eq, ← List.length_eq_zero_iff, List.length_tail]
    omega
  have hsplit := List.dropLast_append_getLast htail
  have hsame : path.tail.getLast htail = id := by
    have hget := List.getLast?_tail (l := path)
    rw [if_neg (by have := h.two; omega), hlast, List.getLast?_eq_some_getLast htail] at hget
    exact Option.some.inj hget
  intro id' hid'
  rw [← hsplit, hsame] at hid'
  rcases List.mem_append.mp hid' with hid' | hid'
  · exact h.loaded id' hid'
  · rw [List.mem_singleton.mp hid']
    exact hid

/-- A search path whose last id is loaded can be extended. -/
theorem SearchPath.snoc (h : SearchPath byId path) {id next : ModuleId}
    (hlast : path.getLast? = some id) (hid : id ∈ byId) (hnext : next ∉ path) :
    SearchPath byId (path ++ [next]) := by
  have hne : path ≠ [] := by
    rintro rfl
    cases hlast
  have htail : (path ++ [next]).tail = path.tail ++ [next] := List.tail_append_of_ne_nil hne
  refine ⟨?_, ?_, ?_⟩
  · have := h.two
    simp only [List.length_append, List.length_singleton]
    omega
  · rw [htail, ← List.concat_eq_append]
    exact h.nodup.concat fun hmem => hnext (List.mem_of_mem_tail hmem)
  · rw [htail, List.dropLast_concat]
    exact h.tail_loaded hlast hid

section Potential

variable {byId : BTreeMap ModuleId LoadedModule} {moduleIndex width : Nat}

/-- The pops a path may still cause. -/
def pathWeight (byId : BTreeMap ModuleId LoadedModule) (width : Nat) (path : List ModuleId) : Nat :=
  (width + 1) ^ (byId.size + 2 - path.length)

/-- The pops a queue may still cause. -/
def queueWeight (byId : BTreeMap ModuleId LoadedModule) (width : Nat)
    (queue : List (List ModuleId)) : Nat :=
  (queue.map (pathWeight byId width)).sum

theorem pathWeight_pos (path : List ModuleId) : 0 < pathWeight byId width path :=
  Nat.pow_pos (Nat.succ_pos width)

/-- A path pays for the paths it leads to. -/
theorem queueWeight_lt_of_pathStep
    (hwidth : ∀ (id : ModuleId) (current : LoadedModule), byId[id]? = some current →
      current.requiresModules.length ≤ width)
    {path : List ModuleId} {next : List (List ModuleId)} (hpath : SearchPath byId path)
    (h : pathStep byId moduleIndex path = .ok next) :
    queueWeight byId width next < pathWeight byId width path := by
  rcases pathStep_cases h with rfl | ⟨id, current, hlast, hload, rfl⟩
  · exact pathWeight_pos path
  · have hid : id ∈ byId := BTreeMap.mem_iff_getElem?_isSome.mpr ⟨current, hload⟩
    -- The ids after the start are distinct and loaded, so the path is short.
    have hshort : path.length ≤ byId.size + 1 := by
      have hsub : path.tail.Subperm byId.keys := hpath.nodup.subperm fun id' hid' =>
        ExtTreeMap.mem_keys.mpr (hpath.tail_loaded hlast hid id' hid')
      have hle := hsub.length_le
      rw [ExtTreeMap.length_keys, List.length_tail] at hle
      omega
    have hcount : (extensions path current).length ≤ width := by
      have hfilter := List.length_filter_le (fun next => !path.contains next)
        (current.requiresModules.insertionSort (· ≤ ·))
      rw [List.length_insertionSort] at hfilter
      rw [extensions, List.length_map]
      exact hfilter.trans (hwidth id current hload)
    have hweight : ∀ next ∈ extensions path current,
        pathWeight byId width next = (width + 1) ^ (byId.size + 1 - path.length) := by
      intro next hnext
      obtain ⟨id', -, -, rfl⟩ := mem_extensions.mp hnext
      rw [pathWeight, List.length_append, List.length_singleton]
      congr 1
      omega
    have hsum : queueWeight byId width (extensions path current) =
        (extensions path current).length * (width + 1) ^ (byId.size + 1 - path.length) := by
      rw [queueWeight, List.map_congr_left hweight, List.map_const', List.sum_replicate,
        smul_eq_mul]
    have hexp : byId.size + 2 - path.length = (byId.size + 1 - path.length) + 1 := by omega
    rw [hsum, pathWeight, hexp, Nat.pow_succ, Nat.mul_comm _ (width + 1)]
    exact Nat.mul_lt_mul_of_pos_right (by omega) (Nat.pow_pos (Nat.succ_pos width))

/-- With a round for every pop the queue may cause and one more, the bounded
search is a finished run of the loop. -/
theorem searches_transitiveSearch
    (hwidth : ∀ (id : ModuleId) (current : LoadedModule), byId[id]? = some current →
      current.requiresModules.length ≤ width)
    (fuel : Nat) {queue : List (List ModuleId)} {visited : BTreeSet (List ModuleId)}
    (hqueue : ∀ path ∈ queue, SearchPath byId path) (hfuel : queueWeight byId width queue < fuel) :
    Searches byId moduleIndex queue visited
      (transitiveSearch byId moduleIndex fuel queue visited) := by
  induction fuel generalizing queue visited with
  | zero => omega
  | succ fuel ih =>
    cases queue with
    | nil => exact .done
    | cons path queue =>
      have hpath := hqueue path List.mem_cons_self
      have hrest : ∀ path ∈ queue, SearchPath byId path := fun path' hmem =>
        hqueue path' (List.mem_cons_of_mem path hmem)
      have hne : path ≠ [] := by
        rintro rfl
        exact absurd hpath.two (by decide)
      have hpos : 0 < pathWeight byId width path := pathWeight_pos path
      rw [queueWeight, List.map_cons, List.sum_cons] at hfuel
      change pathWeight byId width path + queueWeight byId width queue < fuel + 1 at hfuel
      rw [transitiveSearch_cons byId moduleIndex fuel hne]
      split
      · rename_i hseen
        exact .skip (.inr hseen) (ih hrest (by omega))
      · rename_i hfresh
        cases hstep : pathStep byId moduleIndex path with
        | error stage => exact .found hfresh hstep
        | ok next =>
          have hpays := queueWeight_lt_of_pathStep hwidth hpath hstep
          refine .extend hfresh hstep (ih (fun path' hmem => ?_) ?_)
          · rcases List.mem_append.mp hmem with hmem | hmem
            · exact hrest path' hmem
            · rcases pathStep_cases hstep with rfl | ⟨id, current, hlast, hload, rfl⟩
              · cases hmem
              · obtain ⟨id', -, hfresh', rfl⟩ := mem_extensions.mp hmem
                exact hpath.snoc hlast (BTreeMap.mem_iff_getElem?_isSome.mpr ⟨current, hload⟩)
                  hfresh'
          · rw [queueWeight, List.map_append, List.sum_append]
            change queueWeight byId width queue + queueWeight byId width next < fuel
            omega

end Potential

/-! ### What the search finds -/

section Finds

variable {byId : BTreeMap ModuleId LoadedModule} {moduleIndex : Nat} {start : ModuleId}

/-- A loaded module requires an id. -/
def RequiresIn (byId : BTreeMap ModuleId LoadedModule) (id required : ModuleId) : Prop :=
  ∃ module, byId[id]? = some module ∧ required ∈ module.requiresModules

/-- An id of a loaded module in a later stage than the given one. -/
def LaterThan (byId : BTreeMap ModuleId LoadedModule) (moduleIndex : Nat) (id : ModuleId) : Prop :=
  ∃ module index, byId[id]? = some module ∧ stageOrderIndex[module.stage]? = some index ∧
    moduleIndex < index

variable {id : ModuleId} {path : List ModuleId} {queue : List (List ModuleId)}
  {visited : BTreeSet (List ModuleId)}

theorem pathStep_of_laterThan (hlast : path.getLast? = some id) (h : LaterThan byId moduleIndex id)
    : ∃ stage, pathStep byId moduleIndex path = .error stage := by
  obtain ⟨module, index, hload, hindex, hlater⟩ := h
  refine ⟨module.stage, ?_⟩
  simp [pathStep, hlast, hload, hindex, hlater]

theorem laterThan_of_pathStep {stage : StageId} (h : pathStep byId moduleIndex path = .error stage)
    : ∃ id, path.getLast? = some id ∧ LaterThan byId moduleIndex id := by
  unfold pathStep at h
  split at h
  · cases h
  · rename_i current hcurrent
    obtain ⟨id, hlast, hload⟩ := Option.bind_eq_some_iff.mp hcurrent
    split at h
    · cases h
    · rename_i index hindex
      split at h
      · rename_i hlater
        exact ⟨id, hlast, current, index, hload, hindex, hlater⟩
      · cases h

/-- What a search finds is required, if everything it starts from is. -/
theorem Searches.sound {result : Option (List ModuleId × StageId)}
    (h : Searches byId moduleIndex queue visited result)
    (hqueue : ∀ path ∈ queue, ∀ id, path.getLast? = some id →
      TransGen (RequiresIn byId) start id) (hfound : result ≠ none) :
    ∃ id, TransGen (RequiresIn byId) start id ∧ LaterThan byId moduleIndex id := by
  induction h with
  | done => exact absurd rfl hfound
  | @skip path queue visited result h rest ih =>
    exact ih (fun path' hmem => hqueue path' (List.mem_cons_of_mem path hmem)) hfound
  | @found path queue visited stage h hstep =>
    obtain ⟨id, hlast, hlater⟩ := laterThan_of_pathStep hstep
    exact ⟨id, hqueue path List.mem_cons_self id hlast, hlater⟩
  | @extend path queue next visited result h hstep rest ih =>
    refine ih (fun path' hmem id hlast => ?_) hfound
    rcases List.mem_append.mp hmem with hmem | hmem
    · exact hqueue path' (List.mem_cons_of_mem path hmem) id hlast
    · rcases pathStep_cases hstep with rfl | ⟨last, current, hlast', hload, rfl⟩
      · cases hmem
      · obtain ⟨next, hnext, -, rfl⟩ := mem_extensions.mp hmem
        rw [List.getLast?_concat, Option.some_inj] at hlast
        subst hlast
        exact (hqueue path List.mem_cons_self last hlast').tail ⟨current, hload, hnext⟩

/-- The search so far: the first paths are under way, a visited path was extended,
and every id on a path is the start or the end of a path. -/
structure Underway (byId : BTreeMap ModuleId LoadedModule) (moduleIndex : Nat) (start : ModuleId)
    (queue : List (List ModuleId)) (visited : BTreeSet (List ModuleId)) : Prop where
  first : ∀ id, RequiresIn byId start id → [start, id] ∈ queue ∨ [start, id] ∈ visited
  closed : ∀ path ∈ visited, ∃ next, pathStep byId moduleIndex path = .ok next ∧
    ∀ path' ∈ next, path' ∈ queue ∨ path' ∈ visited
  listed : ∀ path, path ∈ queue ∨ path ∈ visited → ∀ id ∈ path, id = start ∨
    ∃ path', (path' ∈ queue ∨ path' ∈ visited) ∧ path'.getLast? = some id

/-- A path that is skipped leaves the search under way. -/
theorem Underway.skip (h : Underway byId moduleIndex start (path :: queue) visited)
    (hskip : path = [] ∨ path ∈ visited) : Underway byId moduleIndex start queue visited := by
  have hkeep : ∀ path' : List ModuleId, path' ≠ [] → (path' ∈ path :: queue ∨ path' ∈ visited) →
      path' ∈ queue ∨ path' ∈ visited := by
    rintro path' hne (hmem | hmem)
    · rcases List.mem_cons.mp hmem with rfl | hmem
      · exact .inr (hskip.resolve_left hne)
      · exact .inl hmem
    · exact .inr hmem
  refine ⟨?_, ?_, ?_⟩
  · intro id hid
    exact hkeep _ (by simp) (h.first id hid)
  · intro path' hpath'
    obtain ⟨next, hstep, hnext⟩ := h.closed path' hpath'
    refine ⟨next, hstep, fun path'' hmem => hkeep path'' ?_ (hnext path'' hmem)⟩
    rcases pathStep_cases hstep with rfl | ⟨id, current, -, -, rfl⟩
    · cases hmem
    · obtain ⟨id', -, -, rfl⟩ := mem_extensions.mp hmem
      simp
  · intro path' hpath' id hid
    have hmem : path' ∈ path :: queue ∨ path' ∈ visited :=
      hpath'.imp_left (List.mem_cons_of_mem path)
    refine (h.listed path' hmem id hid).imp_right ?_
    rintro ⟨path'', hpath'', hlast⟩
    refine ⟨path'', hkeep path'' ?_ hpath'', hlast⟩
    rintro rfl
    cases hlast

/-- A path that is extended leaves the search under way. -/
theorem Underway.extend {next : List (List ModuleId)}
    (h : Underway byId moduleIndex start (path :: queue) visited)
    (hstep : pathStep byId moduleIndex path = .ok next) :
    Underway byId moduleIndex start (queue ++ next) (visited.insert path) := by
  have hkeep : ∀ path', path' ∈ path :: queue ∨ path' ∈ visited →
      path' ∈ queue ++ next ∨ path' ∈ visited.insert path := by
    rintro path' (hmem | hmem)
    · rcases List.mem_cons.mp hmem with rfl | hmem
      · exact .inr ExtTreeSet.mem_insert_self
      · exact .inl (List.mem_append_left _ hmem)
    · exact .inr (ExtTreeSet.mem_insert.mpr (.inr hmem))
  have hlisted : ∀ path', path' ∈ path :: queue ∨ path' ∈ visited → ∀ id ∈ path', id = start ∨
      ∃ path'', (path'' ∈ queue ++ next ∨ path'' ∈ visited.insert path) ∧
        path''.getLast? = some id := by
    intro path' hpath' id hid
    refine (h.listed path' hpath' id hid).imp_right ?_
    rintro ⟨path'', hpath'', hlast⟩
    exact ⟨path'', hkeep path'' hpath'', hlast⟩
  refine ⟨fun id hid => hkeep _ (h.first id hid), ?_, ?_⟩
  · intro path' hpath'
    rcases ExtTreeSet.mem_insert.mp hpath' with heq | hpath'
    · obtain rfl := Std.compare_eq_iff_eq.mp heq
      exact ⟨next, hstep, fun path'' hmem => .inl (List.mem_append_right _ hmem)⟩
    · obtain ⟨next', hstep', hnext'⟩ := h.closed path' hpath'
      exact ⟨next', hstep', fun path'' hmem => hkeep path'' (hnext' path'' hmem)⟩
  · rintro path' (hmem | hmem) id hid
    · rcases List.mem_append.mp hmem with hmem | hmem
      · exact hlisted path' (.inl (List.mem_cons_of_mem path hmem)) id hid
      · rcases pathStep_cases hstep with rfl | ⟨last, current, -, -, rfl⟩
        · cases hmem
        · obtain ⟨added, -, -, rfl⟩ := mem_extensions.mp hmem
          rcases List.mem_append.mp hid with hid | hid
          · exact hlisted path (.inl List.mem_cons_self) id hid
          · rw [List.mem_singleton] at hid
            exact .inr ⟨path ++ [added], .inl (List.mem_append_right _ hmem), by simp [hid]⟩
    · rcases ExtTreeSet.mem_insert.mp hmem with heq | hmem
      · obtain rfl := Std.compare_eq_iff_eq.mp heq
        exact hlisted path (.inl List.mem_cons_self) id hid
      · exact hlisted path' (.inr hmem) id hid

/-- When nothing is left to search, every required id is the start or the end of a
visited path. -/
theorem Underway.ends
    (hstages : ∀ (id : ModuleId) (module : LoadedModule), byId[id]? = some module →
      module.stage ∈ stageOrderIndex) (h : Underway byId moduleIndex start [] visited)
    (walk : TransGen (RequiresIn byId) start id) :
    id = start ∨ ∃ path ∈ visited, path.getLast? = some id := by
  have hdone : ∀ {path : List ModuleId}, path ∈ [] ∨ path ∈ visited → path ∈ visited := by
    rintro path (hmem | hmem)
    · cases hmem
    · exact hmem
  have hfirst : ∀ {id}, RequiresIn byId start id →
      ∃ path ∈ visited, path.getLast? = some id := fun hid =>
    ⟨_, hdone (h.first _ hid), rfl⟩
  induction walk with
  | single edge => exact .inr (hfirst edge)
  | @tail id next _ edge ih =>
    rcases ih with rfl | ⟨path, hpath, hlast⟩
    · exact .inr (hfirst edge)
    · obtain ⟨module, hload, hnext⟩ := edge
      obtain ⟨index, hindex⟩ :=
        BTreeMap.mem_iff_getElem?_isSome.mp (hstages id module hload)
      obtain ⟨paths, hstep, hpaths⟩ := h.closed path hpath
      by_cases hmem : next ∈ path
      · refine (h.listed path (.inr hpath) next hmem).imp_right ?_
        rintro ⟨path', hpath', hlast'⟩
        exact ⟨path', hdone hpath', hlast'⟩
      · have hextended : paths = extensions path module := by
          simp only [pathStep, hlast, Option.bind_some, hload, hindex] at hstep
          split at hstep
          · cases hstep
          · exact (Except.ok.inj hstep).symm
        have hadded : path ++ [next] ∈ paths := by
          rw [hextended]
          exact mem_extensions.mpr ⟨next, hnext, hmem, rfl⟩
        exact .inr ⟨path ++ [next], hdone (hpaths _ hadded), by simp⟩

/-- A search that finds nothing has missed nothing. -/
theorem Searches.complete {result : Option (List ModuleId × StageId)}
    (hstages : ∀ (id : ModuleId) (module : LoadedModule), byId[id]? = some module →
      module.stage ∈ stageOrderIndex) (h : Searches byId moduleIndex queue visited result)
    (hinv : Underway byId moduleIndex start queue visited) (hnone : result = none)
    (walk : TransGen (RequiresIn byId) start id) (hlater : LaterThan byId moduleIndex id) :
    LaterThan byId moduleIndex start := by
  induction h with
  | done =>
    rcases hinv.ends hstages walk with rfl | ⟨path, hpath, hlast⟩
    · exact hlater
    · obtain ⟨next, hstep, -⟩ := hinv.closed path hpath
      obtain ⟨stage, herror⟩ := pathStep_of_laterThan hlast hlater
      rw [herror] at hstep
      cases hstep
  | skip h rest ih => exact ih (hinv.skip h) hnone
  | found h hstep => cases hnone
  | extend h hstep rest ih => exact ih (hinv.extend hstep) hnone

end Finds

/-! ### The two passes over a list of modules -/

section Modules

variable {modules : List LoadedModule}

/-- A module of the list requires an id. -/
def Requires (modules : List LoadedModule) (id required : ModuleId) : Prop :=
  ∃ module ∈ modules, module.id = id ∧ required ∈ module.requiresModules

/-- A module of a strictly later stage. -/
def LaterStage (module later : LoadedModule) : Prop :=
  ∃ index laterIndex, stageOrderIndex[module.stage]? = some index ∧
    stageOrderIndex[later.stage]? = some laterIndex ∧ index < laterIndex

/-- Requirements lead from a module to a loaded module of a strictly later stage. -/
def ReachesLater (modules : List LoadedModule) (module : LoadedModule) : Prop :=
  ∃ later ∈ modules, TransGen (Requires modules) module.id later.id ∧ LaterStage module later

/-- The queue the search of a module starts from. -/
def firstPaths (module : LoadedModule) : List (List ModuleId) :=
  module.requiresModules.map fun required => [module.id, required]

/-- The rounds the search of a module is given. -/
def searchFuel (modules : List LoadedModule) : Nat :=
  ((modules.map fun module => module.requiresModules.length).sum + 1) ^ (modules.length + 2)

theorem size_modulesById_le (modules : List LoadedModule) :
    (modulesById modules).size ≤ modules.length := by
  have hsub : (modulesById modules).keys.Subperm (modules.map LoadedModule.id) := by
    refine ExtTreeMap.nodup_keys.subperm fun id hid => ?_
    have hmem := BTreeMap.mem_ofList_iff.mp (ExtTreeMap.mem_keys.mp hid)
    rwa [List.map_map] at hmem
  have hle := hsub.length_le
  rwa [ExtTreeMap.length_keys, List.length_map] at hle

section Distinct

variable (hids : (modules.map LoadedModule.id).Nodup)

include hids

theorem requiresIn_modulesById : RequiresIn (modulesById modules) = Requires modules := by
  funext id required
  refine propext ⟨?_, ?_⟩
  · rintro ⟨module, hload, hrequired⟩
    obtain ⟨hmodule, hid⟩ := (getElem?_modulesById hids).mp hload
    exact ⟨module, hmodule, hid, hrequired⟩
  · rintro ⟨module, hmodule, hid, hrequired⟩
    exact ⟨module, (getElem?_modulesById hids).mpr ⟨hmodule, hid⟩, hrequired⟩

/-- **The search of a module stops.** -/
theorem searches_module (module : LoadedModule) (hmodule : module ∈ modules) (index : Nat) :
    Searches (modulesById modules) index (firstPaths module) ∅
      (transitiveSearch (modulesById modules) index (searchFuel modules) (firstPaths module) ∅) := by
  set width := (modules.map fun module => module.requiresModules.length).sum with hwidth
  have hle : ∀ module ∈ modules, module.requiresModules.length ≤ width := fun module hmem =>
    List.single_le_sum (by simp) _ (List.mem_map.mpr ⟨module, hmem, rfl⟩)
  have hloaded : ∀ (id : ModuleId) (current : LoadedModule),
      (modulesById modules)[id]? = some current → current.requiresModules.length ≤ width :=
    fun id current hload => hle current ((getElem?_modulesById hids).mp hload).1
  refine searches_transitiveSearch hloaded _ ?_ ?_
  · intro path hpath
    obtain ⟨required, -, rfl⟩ := List.mem_map.mp hpath
    exact ⟨by simp, by simp, by simp⟩
  · have hweight : ∀ path ∈ firstPaths module,
        pathWeight (modulesById modules) width path = (width + 1) ^ (modulesById modules).size := by
      intro path hpath
      obtain ⟨required, -, rfl⟩ := List.mem_map.mp hpath
      simp [pathWeight]
    have hsize := size_modulesById_le modules
    rw [queueWeight, List.map_congr_left hweight, List.map_const', List.sum_replicate, smul_eq_mul,
      firstPaths, List.length_map, searchFuel, ← hwidth]
    calc module.requiresModules.length * (width + 1) ^ (modulesById modules).size
        ≤ width * (width + 1) ^ (modulesById modules).size :=
          Nat.mul_le_mul_right _ (hle module hmodule)
      _ < (width + 1) * (width + 1) ^ (modulesById modules).size :=
          Nat.mul_lt_mul_of_pos_right (Nat.lt_succ_self width)
            (Nat.pow_pos (Nat.succ_pos width))
      _ = (width + 1) ^ ((modulesById modules).size + 1) := (Nat.pow_succ' ).symm
      _ ≤ (width + 1) ^ (modules.length + 2) :=
          Nat.pow_le_pow_right (Nat.succ_pos width) (by omega)

theorem laterThan_modulesById {module later : LoadedModule} {index : Nat}
    (hindex : stageOrderIndex[module.stage]? = some index) (hlater : later ∈ modules) :
    LaterThan (modulesById modules) index later.id ↔ LaterStage module later := by
  constructor
  · rintro ⟨later', laterIndex, hload, hlaterIndex, hlt⟩
    obtain ⟨hlater', hsame⟩ := (getElem?_modulesById hids).mp hload
    have heq : later' = later := List.inj_on_of_nodup_map hids hlater' hlater hsame
    exact ⟨index, laterIndex, hindex, heq ▸ hlaterIndex, hlt⟩
  · rintro ⟨index', laterIndex, hindex', hlaterIndex, hlt⟩
    rw [hindex, Option.some_inj] at hindex'
    exact ⟨later, laterIndex, (getElem?_modulesById hids).mpr ⟨hlater, rfl⟩, hlaterIndex,
      hindex' ▸ hlt⟩

variable (hstages : ∀ module ∈ modules, module.stage ∈ STAGE_ORDER)

include hstages

/-- The search of a module finds something exactly when requirements lead from it
to a later stage. -/
theorem transitiveSearch_isSome_iff {module : LoadedModule} (hmodule : module ∈ modules)
    {index : Nat} (hindex : stageOrderIndex[module.stage]? = some index) :
    transitiveSearch (modulesById modules) index (searchFuel modules) (firstPaths module) ∅ ≠
      none ↔ ReachesLater modules module := by
  have hrun := searches_module hids module hmodule index
  have hload := (getElem?_modulesById hids).mpr ⟨hmodule, rfl⟩
  constructor
  · intro hfound
    have hwalks : ∀ path ∈ firstPaths module, ∀ id, path.getLast? = some id →
        TransGen (RequiresIn (modulesById modules)) module.id id := by
      intro path hpath id hlast
      obtain ⟨required, hrequired, rfl⟩ := List.mem_map.mp hpath
      cases hlast
      exact .single ⟨module, hload, hrequired⟩
    obtain ⟨id, walk, hlater⟩ := hrun.sound hwalks hfound
    obtain ⟨later, hload'⟩ : ∃ later, (modulesById modules)[id]? = some later :=
      hlater.imp fun _ h => h.choose_spec.1
    obtain ⟨hmem, rfl⟩ := (getElem?_modulesById hids).mp hload'
    rw [requiresIn_modulesById hids] at walk
    exact ⟨later, hmem, walk, (laterThan_modulesById hids hindex hmem).mp hlater⟩
  · rintro ⟨later, hmem, walk, hlater⟩ hnone
    have hfirst : Underway (modulesById modules) index module.id (firstPaths module) ∅ := by
      refine ⟨?_, ?_, ?_⟩
      · rintro id ⟨module', hload', hid⟩
        rw [hload, Option.some_inj] at hload'
        subst hload'
        exact .inl (List.mem_map.mpr ⟨id, hid, rfl⟩)
      · intro path hpath
        exact absurd hpath ExtTreeSet.not_mem_empty
      · rintro path (hpath | hpath) id hid
        · have hmem := hpath
          obtain ⟨required, -, rfl⟩ := List.mem_map.mp hpath
          rcases List.mem_cons.mp hid with rfl | hid
          · exact .inl rfl
          · rw [List.mem_singleton] at hid
            exact .inr ⟨_, .inl hmem, by simp [hid]⟩
        · exact absurd hpath ExtTreeSet.not_mem_empty
    rw [← requiresIn_modulesById hids] at walk
    -- A search that found nothing would put the module in a later stage than itself.
    obtain ⟨self, selfIndex, hself, hselfIndex, hlt⟩ := hrun.complete
      (fun id current hcurrent => mem_stageOrderIndex.mpr
        (hstages current ((getElem?_modulesById hids).mp hcurrent).1)) hfirst hnone walk
      ((laterThan_modulesById hids hindex hmem).mpr hlater)
    rw [hload, Option.some_inj] at hself
    rw [← hself, hindex, Option.some_inj] at hselfIndex
    omega

end Distinct

/-- The diagnostics of the pass, read back to the modules they are about. -/
theorem mem_validateTransitiveDependencies {diagnostic : DagValidationDiagnostic} :
    diagnostic ∈ validateTransitiveDependencies modules (modulesById modules) ↔
      ∃ module ∈ modules, ∃ index path laterStage,
        stageOrderIndex[module.stage]? = some index ∧
        transitiveSearch (modulesById modules) index (searchFuel modules) (firstPaths module) ∅ =
          some (path, laterStage) ∧
        diagnostic = ⟨.transitiveDependencyLegality,
          .transitiveStageDependency module.id path module.stage laterStage⟩ := by
  simp only [validateTransitiveDependencies, List.mem_filterMap]
  refine exists_congr fun module => and_congr_right fun _ => ?_
  cases hindex : stageOrderIndex[module.stage]? with
  | none => simp
  | some index =>
    have hfuel : ((modules.map fun module => module.requiresModules.length).sum + 1) ^
        (modules.length + 2) = searchFuel modules := rfl
    have hfirst : module.requiresModules.map (fun required => [module.id, required]) =
        firstPaths module := rfl
    simp only [hfuel, hfirst]
    cases hsearch : transitiveSearch (modulesById modules) index (searchFuel modules)
      (firstPaths module) ∅ with
    | none =>
      refine iff_of_false nofun ?_
      rintro ⟨index', path, laterStage, hindex', hfound, -⟩
      rw [← Option.some.inj hindex', hsearch] at hfound
      cases hfound
    | some found =>
      obtain ⟨path, laterStage⟩ := found
      constructor
      · intro hdiagnostic
        exact ⟨index, path, laterStage, rfl, hsearch, (Option.some.inj hdiagnostic).symm⟩
      · rintro ⟨index', path', laterStage', hindex', hfound, rfl⟩
        rw [← Option.some.inj hindex', hsearch] at hfound
        cases hfound
        rfl

/-- The cross-stage pass reports something exactly when some module requires a
module of a later stage. -/
theorem validateCrossStageDependencies_ne_nil_iff (hids : (modules.map LoadedModule.id).Nodup) :
    validateCrossStageDependencies modules (modulesById modules) ≠ [] ↔
      ∃ module ∈ modules, ∃ later ∈ modules, later.id ∈ module.requiresModules ∧
        LaterStage module later := by
  constructor
  · intro hne
    obtain ⟨diagnostic, hmem⟩ := List.exists_mem_of_ne_nil _ hne
    obtain ⟨module, hmodule, hdiagnostic⟩ := List.mem_flatMap.mp hmem
    cases hindex : stageOrderIndex[module.stage]? with
    | none =>
      rw [hindex] at hdiagnostic
      cases hdiagnostic
    | some index =>
      rw [hindex] at hdiagnostic
      obtain ⟨required, hrequired, hreport⟩ := List.mem_filterMap.mp hdiagnostic
      cases hload : (modulesById modules)[required]? with
      | none =>
        simp only [hload] at hreport
        cases hreport
      | some later =>
        obtain ⟨hlater, rfl⟩ := (getElem?_modulesById hids).mp hload
        cases hlaterIndex : stageOrderIndex[later.stage]? with
        | none =>
          simp only [hload, hlaterIndex] at hreport
          cases hreport
        | some laterIndex =>
          simp only [hload, hlaterIndex] at hreport
          split at hreport
          · rename_i hlt
            exact ⟨module, hmodule, later, hlater, hrequired, index, laterIndex, hindex,
              hlaterIndex, hlt⟩
          · cases hreport
  · rintro ⟨module, hmodule, later, hlater, hrequired, index, laterIndex, hindex, hlaterIndex, hlt⟩
    have hload := (getElem?_modulesById hids).mpr ⟨hlater, rfl⟩
    have hmem : ⟨.crossStageDependencyLegality,
        .crossStageDependency module.id later.id module.stage later.stage⟩ ∈
          validateCrossStageDependencies modules (modulesById modules) := by
      refine List.mem_flatMap.mpr ⟨module, hmodule, ?_⟩
      rw [hindex]
      refine List.mem_filterMap.mpr ⟨later.id, hrequired, ?_⟩
      simp only [hload, hlaterIndex, if_pos hlt]
    exact List.ne_nil_of_mem hmem

theorem ReachesLater.exists_link (hids : (modules.map LoadedModule.id).Nodup)
    (hstages : ∀ module ∈ modules, module.stage ∈ STAGE_ORDER) {module : LoadedModule}
    (hmodule : module ∈ modules) (h : ReachesLater modules module) :
    ∃ first ∈ modules, ∃ later ∈ modules, later.id ∈ first.requiresModules ∧
      LaterStage first later := by
  obtain ⟨later, hlater, walk, index, laterIndex, hindex, hlaterIndex, hlt⟩ := h
  generalize hid : later.id = id at walk
  induction walk generalizing later laterIndex with
  | single edge =>
    obtain ⟨first, hfirst, hsame, hrequired⟩ := edge
    obtain rfl := List.inj_on_of_nodup_map hids hfirst hmodule hsame
    exact ⟨first, hfirst, later, hlater, hid ▸ hrequired, index, laterIndex, hindex, hlaterIndex,
      hlt⟩
  | tail _ edge ih =>
    obtain ⟨middle, hmiddle, hsame, hrequired⟩ := edge
    obtain ⟨middleIndex, hmiddleIndex⟩ := BTreeMap.mem_iff_getElem?_isSome.mp
      (mem_stageOrderIndex.mpr (hstages middle hmiddle))
    by_cases hrise : middleIndex < laterIndex
    · exact ⟨middle, hmiddle, later, hlater, hid ▸ hrequired, middleIndex, laterIndex,
        hmiddleIndex, hlaterIndex, hrise⟩
    · exact ih middle hmiddle middleIndex hmiddleIndex (by omega) hsame

/-- **The transitive pass terminates and is exact.** For modules with distinct ids
and known stages every search stops; a module is reported exactly when requirements
lead from it to a loaded module of a strictly later stage; and the pass reports
something exactly when the cross-stage pass does. -/
theorem transitiveDependencies_exact (modules : List LoadedModule)
    (hids : (modules.map LoadedModule.id).Nodup)
    (hstages : ∀ module ∈ modules, module.stage ∈ STAGE_ORDER) :
    (∀ module ∈ modules, ∀ index, stageOrderIndex[module.stage]? = some index →
      Searches (modulesById modules) index (firstPaths module) ∅
        (transitiveSearch (modulesById modules) index (searchFuel modules)
          (firstPaths module) ∅)) ∧
    (∀ diagnostic ∈ validateTransitiveDependencies modules (modulesById modules),
      ∃ module ∈ modules, ∃ path laterStage, diagnostic = ⟨.transitiveDependencyLegality,
        .transitiveStageDependency module.id path module.stage laterStage⟩) ∧
    (∀ module ∈ modules,
      ((∃ path laterStage, ⟨.transitiveDependencyLegality,
          .transitiveStageDependency module.id path module.stage laterStage⟩ ∈
            validateTransitiveDependencies modules (modulesById modules)) ↔
        ReachesLater modules module)) ∧
    (validateTransitiveDependencies modules (modulesById modules) ≠ [] ↔
      validateCrossStageDependencies modules (modulesById modules) ≠ []) := by
  have hreported : ∀ module ∈ modules,
      ((∃ path laterStage, ⟨.transitiveDependencyLegality,
          .transitiveStageDependency module.id path module.stage laterStage⟩ ∈
            validateTransitiveDependencies modules (modulesById modules)) ↔
        ReachesLater modules module) := by
    intro module hmodule
    obtain ⟨index, hindex⟩ := BTreeMap.mem_iff_getElem?_isSome.mp
      (mem_stageOrderIndex.mpr (hstages module hmodule))
    rw [← transitiveSearch_isSome_iff hids hstages hmodule hindex]
    constructor
    · rintro ⟨path, laterStage, hmem⟩
      obtain ⟨module', hmodule', index', path', laterStage', hindex', hfound, heq⟩ :=
        mem_validateTransitiveDependencies.mp hmem
      have hsame : module = module' := by
        injection heq with _ hdetail
        injection hdetail with hid
        exact List.inj_on_of_nodup_map hids hmodule hmodule' hid
      subst hsame
      rw [hindex, Option.some_inj] at hindex'
      subst hindex'
      rw [hfound]
      exact Option.some_ne_none _
    · intro hfound
      obtain ⟨⟨path, laterStage⟩, hresult⟩ := Option.ne_none_iff_exists'.mp hfound
      exact ⟨path, laterStage, mem_validateTransitiveDependencies.mpr
        ⟨module, hmodule, index, path, laterStage, hindex, hresult, rfl⟩⟩
  refine ⟨fun module hmodule index _ => searches_module hids module hmodule index, ?_, hreported,
    ?_⟩
  · intro diagnostic hmem
    obtain ⟨module, hmodule, -, path, laterStage, -, -, heq⟩ :=
      mem_validateTransitiveDependencies.mp hmem
    exact ⟨module, hmodule, path, laterStage, heq⟩
  · rw [validateCrossStageDependencies_ne_nil_iff hids]
    constructor
    · intro hne
      obtain ⟨diagnostic, hmem⟩ := List.exists_mem_of_ne_nil _ hne
      obtain ⟨module, hmodule, -, path, laterStage, -, -, rfl⟩ :=
        mem_validateTransitiveDependencies.mp hmem
      exact ((hreported module hmodule).mp ⟨path, laterStage, hmem⟩).exists_link hids hstages
        hmodule
    · rintro ⟨module, hmodule, later, hlater, hrequired, hstage⟩
      have hreaches : ReachesLater modules module :=
        ⟨later, hlater, .single ⟨module, hmodule, rfl, hrequired⟩, hstage⟩
      obtain ⟨path, laterStage, hmem⟩ := (hreported module hmodule).mpr hreaches
      exact List.ne_nil_of_mem hmem

/-- A module of a stage with requirements. -/
def requiringModule (id : ModuleId) (stage : StageId) (requires : List ModuleId) :
    LoadedModule where
  id := id
  stage := stage
  irReads := []
  irWrites := []
  claims := []
  requiresClaims := []
  incompatibleWith := []
  requiresModules := requires
  minHostVersion := ⟨0, 1, 0⟩
  minIrSchema := ⟨1, 0, 0⟩
  maxIrSchema := ⟨2, 0, 0⟩

/-- A self loop, a cycle and a requirement into a later stage. -/
def knottedModules : List LoadedModule :=
  [requiringModule "m.slice" "PrePass::Slice" ["m.slice", "m.seam"],
    requiringModule "m.seam" "PrePass::SeamPlanning" ["m.slice", "m.infill"],
    requiringModule "m.infill" "Layer::Infill" []]

theorem transitiveDependencies_exact_knotted :
    ∃ path laterStage, ⟨.transitiveDependencyLegality,
      .transitiveStageDependency "m.slice" path "PrePass::Slice" laterStage⟩ ∈
        validateTransitiveDependencies knottedModules (modulesById knottedModules) := by
  obtain ⟨-, -, hexact, -⟩ := transitiveDependencies_exact knottedModules (by decide) (by decide)
  refine (hexact _ List.mem_cons_self).mpr ⟨requiringModule "m.infill" "Layer::Infill" [],
    by decide, .tail (.single ⟨_, List.mem_cons_self, rfl, List.mem_cons_of_mem _
      List.mem_cons_self⟩) ⟨requiringModule "m.seam" "PrePass::SeamPlanning"
        ["m.slice", "m.infill"], by decide, rfl, by decide⟩, 5, 14, ?_, ?_, by decide⟩
  · exact stageOrderIndex_eq_some_iff.mpr rfl
  · exact stageOrderIndex_eq_some_iff.mpr rfl

end Modules

end PinchNPrint.Scheduler
