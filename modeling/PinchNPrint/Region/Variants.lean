/-
Variants of a painted layer (`slicer-core`: `compose_variants.rs`).

Every semantic output says where on each layer one value of one semantic is painted. Of them
the layer is cut into variants: chains of at most one value of each semantic take the
intersection of their areas, the longest first, and the rest of the contour is the base.

The polygon booleans are parameters. The maps of the source are sorted by chain; here entries
stand in the order they are inserted, which nothing reads. A chain is a list of outputs where
the source has their indices, and the check of disjointness in debug builds is left out.
-/

import PinchNPrint.Lib.Choices
import PinchNPrint.Lib.Grouping
import PinchNPrint.Region.SplitConservation

namespace PinchNPrint.Region

open Carving
open Config
open Layer (PaintValue)

variable {F : Type}

/-! ### Data -/

structure SemanticOutput (F : Type) where
  semantic : PaintSemantic
  value : PaintValue F
  perLayer : List (List ExPolygon)
deriving DecidableEq

def semanticName : PaintSemantic → String
  | .Material => "material"
  | .FuzzySkin => "fuzzy_skin"
  | .SupportEnforcer => "support_enforcer"
  | .SupportBlocker => "support_blocker"
  | .Custom name => name

namespace SemanticOutput

/-- The name of the semantic. -/
def name (output : SemanticOutput F) : String :=
  semanticName output.semantic

/-- What the output adds to the key of a chain. -/
def pair (output : SemanticOutput F) : String × PaintValue F :=
  (output.name, output.value)

/-- The polygons on a layer; a layer that the output does not reach has none. -/
def polygonsOn (output : SemanticOutput F) (layer : Nat) : List ExPolygon :=
  output.perLayer[layer]?.getD []

end SemanticOutput

/-- `ChainKey`; the empty chain is the base. -/
abbrev ChainKey (F : Type) := VariantChain F

/-- The key of a chain of outputs. -/
def chainKey (chain : List (SemanticOutput F)) : ChainKey F :=
  chain.map SemanticOutput.pair

/-- The variants of a layer. -/
abbrev LayerVariants (F : Type) := List (ChainKey F × List ExPolygon)

/-- `insert` on the variants of a layer. -/
def LayerVariants.insert [DecidableEq F] (variants : LayerVariants F) (key : ChainKey F)
    (polygons : List ExPolygon) : LayerVariants F :=
  if variants.any (·.1 = key) then
    variants.map fun entry => if entry.1 = key then (key, polygons) else entry
  else variants ++ [(key, polygons)]

/-- `polygon_ops`, with the union of all polygons of a list. -/
structure ComposeOps extends Booleans where
  unionEx : List ExPolygon → List ExPolygon

/-! ### Composition -/

/-- The chains with at most one value of each semantic, the longest first. -/
def subsets (outputs : List (SemanticOutput F)) : List (List (SemanticOutput F)) :=
  ((Choices.choices (BTreeMap.vals (BTreeMap.groupBy SemanticOutput.name outputs))).filter
    fun chain => !chain.isEmpty).mergeSort fun a b => b.length ≤ a.length

section Compose

variable (ops : ComposeOps) (layer : Nat)

/-- The intersection of polygons with those of further outputs; an empty one ends it. -/
def intersectAll : List ExPolygon → List (SemanticOutput F) → List ExPolygon
  | polygons, [] => polygons
  | polygons, output :: rest =>
      let polygons := ops.intersection polygons (output.polygonsOn layer)
      if polygons.isEmpty then polygons else intersectAll polygons rest

/-- The intersection of the outputs of a chain. -/
def chainPolygons : List (SemanticOutput F) → List ExPolygon
  | [] => []
  | first :: rest => intersectAll ops layer (first.polygonsOn layer) rest

/-- What the chains of a layer have taken. -/
structure Claiming (F : Type) where
  claimed : List ExPolygon := []
  variants : LayerVariants F := []

/-- One chain takes its part. -/
def claim [DecidableEq F] (state : Claiming F) (chain : List (SemanticOutput F)) : Claiming F :=
  let polygons := chainPolygons ops layer chain
  let polygons := if !state.claimed.isEmpty && !polygons.isEmpty then
      ops.difference polygons state.claimed
    else polygons
  { claimed := if polygons.isEmpty then state.claimed
      else ops.unionEx (state.claimed ++ polygons)
    variants := state.variants.insert (chainKey chain) polygons }

/-- The variants of a layer: the chains, and the base. -/
def composeLayer [DecidableEq F] (outputs : List (SemanticOutput F))
    (totalContour : List ExPolygon) : LayerVariants F :=
  let state := (subsets outputs).foldl (claim ops layer) {}
  state.variants.insert [] (if state.claimed.isEmpty then totalContour
    else ops.difference totalContour state.claimed)

end Compose

def composeVariants [DecidableEq F] (ops : ComposeOps)
    (layerTotalContours : List (List ExPolygon)) (semanticOutputs : List (SemanticOutput F)) :
    List (LayerVariants F) :=
  layerTotalContours.zipIdx.map fun (totalContour, layer) =>
    composeLayer ops layer semanticOutputs totalContour

/-! ### Chains -/

section Chains

variable {outputs chain : List (SemanticOutput F)}

/-- The names of the semantics, in order. -/
def semanticNames (outputs : List (SemanticOutput F)) : List String :=
  (BTreeMap.groupBy SemanticOutput.name outputs).keys

theorem mem_semanticNames {name : String} :
    name ∈ semanticNames outputs ↔ ∃ output ∈ outputs, output.name = name :=
  BTreeMap.mem_keys_groupBy

theorem nodup_semanticNames (outputs : List (SemanticOutput F)) : (semanticNames outputs).Nodup :=
  Std.ExtTreeMap.nodup_keys

theorem semanticNames_pairwise (outputs : List (SemanticOutput F)) :
    (semanticNames outputs).Pairwise fun a b => compare a b = .lt :=
  Std.ExtTreeMap.ordered_keys

theorem subsets_perm (outputs : List (SemanticOutput F)) :
    (subsets outputs).Perm ((Choices.choices (Choices.byKey SemanticOutput.name outputs
      (semanticNames outputs))).filter fun chain => !chain.isEmpty) := by
  rw [subsets, BTreeMap.vals_groupBy]
  exact List.mergeSort_perm _ _

theorem mem_subsets :
    chain ∈ subsets outputs ↔ chain ≠ [] ∧
      (chain.map SemanticOutput.name).Sublist (semanticNames outputs) ∧
        ∀ output ∈ chain, output ∈ outputs := by
  rw [(subsets_perm outputs).mem_iff, List.mem_filter, Choices.mem_choices, and_comm]
  simp

theorem nodup_subsets (houtputs : outputs.Nodup) : (subsets outputs).Nodup :=
  (subsets_perm outputs).nodup_iff.mpr
    ((Choices.nodup_choices houtputs (nodup_semanticNames outputs)).filter _)

/-- The chains stand longest first. -/
theorem subsets_pairwise (outputs : List (SemanticOutput F)) :
    (subsets outputs).Pairwise fun a b => b.length ≤ a.length := by
  have hsorted : (subsets outputs).Pairwise fun a b => decide (b.length ≤ a.length) = true := by
    refine List.pairwise_mergeSort (fun a b c hab hbc => ?_) (fun a b => ?_) _
    · simp only [decide_eq_true_eq] at *
      omega
    · simp only [Bool.or_eq_true, decide_eq_true_eq]
      omega
  exact hsorted.imp fun h => of_decide_eq_true h

/-- Chains of the outputs are told apart by their keys, where outputs are told apart by name
and value. -/
theorem eq_of_chainKey_eq (hdistinct : (outputs.map SemanticOutput.pair).Nodup)
    {chain' : List (SemanticOutput F)} (hchain : ∀ output ∈ chain, output ∈ outputs)
    (hchain' : ∀ output ∈ chain', output ∈ outputs) (h : chainKey chain = chainKey chain') :
    chain = chain' := by
  induction chain generalizing chain' with
  | nil => exact (List.map_eq_nil_iff.mp h.symm).symm
  | cons output rest ih =>
    obtain ⟨output', rest', rfl, hpair, hrest⟩ := List.map_eq_cons_iff.mp h.symm
    obtain ⟨hfirst, hothers⟩ := List.forall_mem_cons.mp hchain
    obtain ⟨hfirst', hothers'⟩ := List.forall_mem_cons.mp hchain'
    rw [List.inj_on_of_nodup_map hdistinct hfirst hfirst' hpair.symm, ih hothers hothers' hrest.symm]

theorem nodup_chainKeys (hdistinct : (outputs.map SemanticOutput.pair).Nodup) :
    ((subsets outputs).map chainKey).Nodup := by
  refine (nodup_subsets hdistinct.of_map).map_on fun chain hchain chain' hchain' h => ?_
  exact eq_of_chainKey_eq hdistinct (mem_subsets.mp hchain).2.2 (mem_subsets.mp hchain').2.2 h

/-! ### Canonical chains -/

variable {values : BTreeMap String (List (PaintValue F))}

/-- A chain that is enumerated takes semantics in order, and of each a value that it has. -/
theorem mem_enumerateCanonicalChains {order : List String} {key : ChainKey F} :
    key ∈ enumerateCanonicalChains values order ↔
      (key.map Prod.fst).Sublist order ∧ ∀ pair ∈ key, pair.2 ∈ values[pair.1]?.getD [] := by
  rw [enumerateCanonicalChains, mem_buildChains]
  simp only [List.nil_append, exists_eq_left']

/-- The key of a chain is enumerated, from any semantics and values that include those of the
outputs. -/
theorem chainKey_mem_enumerate {order : BTreeSet String}
    (hincluded : ∀ output ∈ outputs,
      output.name ∈ order ∧ output.value ∈ values[output.name]?.getD [])
    (hnames : (chain.map SemanticOutput.name).Sublist (semanticNames outputs))
    (hchain : ∀ output ∈ chain, output ∈ outputs) :
    chainKey chain ∈ enumerateCanonicalChains values order.toList := by
  have : Std.Antisymm fun a b : String => compare a b = .lt :=
    ⟨fun a b hab hba => by
      have hself : compare a a = .eq := Std.ReflCmp.compare_self
      exact nomatch hself.symm.trans (Std.TransCmp.lt_trans hab hba)⟩
  have hsubset : semanticNames outputs ⊆ order.toList := by
    intro name hname
    obtain ⟨output, houtput, rfl⟩ := mem_semanticNames.mp hname
    exact Std.ExtTreeSet.mem_toList.mpr (hincluded output houtput).1
  have hsublist := List.sublist_of_subperm_of_pairwise
    (List.subperm_of_subset (nodup_semanticNames outputs) hsubset)
    (semanticNames_pairwise outputs) Std.ExtTreeSet.ordered_toList
  refine mem_enumerateCanonicalChains.mpr ⟨?_, ?_⟩
  · rw [chainKey, List.map_map]
    exact hnames.trans hsublist
  · intro pair hpair
    obtain ⟨output, houtput, rfl⟩ := List.mem_map.mp hpair
    exact (hincluded output (hchain output houtput)).2

end Chains

/-! ### Claiming -/

section Claiming

variable {P : Type} {points : ExPolygon → Set P} {ops : ComposeOps} {layer : Nat}
  {outputs chain : List (SemanticOutput F)}

/-- The booleans are the operations on sets of points, and the union keeps the points. -/
structure ExactComposeOps (points : ExPolygon → Set P) (ops : ComposeOps) : Prop where
  booleans : ExactBooleans points ops.toBooleans
  union : ∀ polygons, covered points (ops.unionEx polygons) = covered points polygons

/-- The points of a layer where an output is painted. -/
def painted (points : ExPolygon → Set P) (layer : Nat) (output : SemanticOutput F) : Set P :=
  covered points (output.polygonsOn layer)

/-- The points where all outputs of a chain are painted. -/
def chainCover (points : ExPolygon → Set P) (layer : Nat) (chain : List (SemanticOutput F)) :
    Set P :=
  {x | ∀ output ∈ chain, x ∈ painted points layer output}

theorem chainCover_cons (output : SemanticOutput F) (rest : List (SemanticOutput F)) :
    chainCover points layer (output :: rest) =
      painted points layer output ∩ chainCover points layer rest := by
  ext x
  simp only [chainCover, List.forall_mem_cons, Set.mem_ofPred_eq, Set.mem_inter_iff]

theorem covered_intersectAll (hops : ExactComposeOps points ops) (polygons : List ExPolygon)
    (rest : List (SemanticOutput F)) :
    covered points (intersectAll ops layer polygons rest) =
      covered points polygons ∩ chainCover points layer rest := by
  induction rest generalizing polygons with
  | nil => simp [intersectAll, chainCover]
  | cons output rest ih =>
    have hmeet := hops.booleans.intersection.covered_op polygons (output.polygonsOn layer)
    rw [intersectAll, chainCover_cons, ← Set.inter_assoc, painted, ← hmeet]
    split
    case isTrue hempty => rw [List.isEmpty_iff.mp hempty, covered_nil, Set.empty_inter]
    case isFalse => exact ih _

theorem covered_chainPolygons (hops : ExactComposeOps points ops) (layer : Nat)
    (hchain : chain ≠ []) :
    covered points (chainPolygons ops layer chain) = chainCover points layer chain := by
  cases chain with
  | nil => exact absurd rfl hchain
  | cons first rest =>
    rw [chainPolygons, covered_intersectAll hops, chainCover_cons]
    rfl

variable [DecidableEq F]

theorem insert_of_notMem {variants : LayerVariants F} {key : ChainKey F}
    (h : key ∉ variants.map Prod.fst) (polygons : List ExPolygon) :
    variants.insert key polygons = variants ++ [(key, polygons)] := by
  refine if_neg fun hany => h ?_
  obtain ⟨entry, hentry, hkey⟩ := List.any_eq_true.mp hany
  exact List.mem_map.mpr ⟨entry, hentry, of_decide_eq_true hkey⟩

/-- What a chain takes, and what is taken after it. -/
theorem claim_spec (hops : ExactComposeOps points ops) (layer : Nat) (state : Claiming F)
    (hchain : chain ≠ [])
    (hnew : chainKey chain ∉ state.variants.map Prod.fst) :
    ∃ polygons, (claim ops layer state chain).variants =
        state.variants ++ [(chainKey chain, polygons)] ∧
      covered points polygons = chainCover points layer chain \ covered points state.claimed ∧
      covered points (claim ops layer state chain).claimed =
        covered points state.claimed ∪ chainCover points layer chain := by
  have hchainPolygons := covered_chainPolygons hops layer hchain
  obtain ⟨polygons, hpolygons⟩ : ∃ polygons, polygons =
      if !state.claimed.isEmpty && !(chainPolygons ops layer chain).isEmpty then
        ops.difference (chainPolygons ops layer chain) state.claimed
      else chainPolygons ops layer chain := ⟨_, rfl⟩
  have hcovered : covered points polygons =
      chainCover points layer chain \ covered points state.claimed := by
    rw [hpolygons, ← hchainPolygons]
    split
    case isTrue => exact hops.booleans.difference.covered_op _ _
    case isFalse hskip =>
      rw [Bool.and_eq_true, Bool.not_eq_true', Bool.not_eq_true', Classical.not_and_iff_not_or_not,
        Bool.not_eq_false, Bool.not_eq_false, List.isEmpty_iff, List.isEmpty_iff] at hskip
      rcases hskip with hnone | hnone
      · rw [hnone, covered_nil, Set.sdiff_empty]
      · rw [hnone, covered_nil, Set.empty_sdiff]
  refine ⟨polygons, ?_, hcovered, ?_⟩
  · rw [hpolygons]
    exact insert_of_notMem hnew _
  · have hclaimed : (claim ops layer state chain).claimed =
        if polygons.isEmpty then state.claimed else ops.unionEx (state.claimed ++ polygons) := by
      rw [hpolygons]
      rfl
    rw [hclaimed, ← Set.union_sdiff_self, ← hcovered]
    split
    case isTrue hempty => rw [List.isEmpty_iff.mp hempty, covered_nil, Set.union_empty]
    case isFalse => rw [hops.union, covered_append]

/-- What the chains take, one after the other, and what they leave. -/
theorem foldl_claim_spec (hops : ExactComposeOps points ops) {S : Set P}
    (chains : List (List (SemanticOutput F))) (state : Claiming F)
    (hchains : ∀ chain ∈ chains, chain ≠ [] ∧ chainCover points layer chain ⊆ S)
    (hkeys : (state.variants.map Prod.fst ++ chains.map chainKey).Nodup) :
    ∃ taken : LayerVariants F,
      (chains.foldl (claim ops layer) state).variants = state.variants ++ taken ∧
      taken.map (fun entry => (entry.1, covered points entry.2)) =
        (chains.zip (parts (chainCover points layer) (S \ covered points state.claimed) chains)).map
          (fun entry => (chainKey entry.1, entry.2)) ∧
      S \ covered points (chains.foldl (claim ops layer) state).claimed =
        leftover (chainCover points layer) (S \ covered points state.claimed) chains := by
  induction chains generalizing state with
  | nil => exact ⟨[], (List.append_nil _).symm, rfl, leftover_nil.symm⟩
  | cons chain rest ih =>
    obtain ⟨⟨hne, hsubset⟩, hrest⟩ := List.forall_mem_cons.mp hchains
    obtain ⟨-, -, hdisjoint⟩ := List.nodup_append.mp hkeys
    have hnew : chainKey chain ∉ state.variants.map Prod.fst :=
      fun hmem => hdisjoint _ hmem _ List.mem_cons_self rfl
    obtain ⟨polygons, hvariants, hpolygons, hclaimed⟩ :=
      claim_spec hops layer state hne hnew
    have hkeys' : ((claim ops layer state chain).variants.map Prod.fst ++
        rest.map chainKey).Nodup := by
      rw [hvariants, List.map_append, List.append_assoc]
      exact hkeys
    obtain ⟨taken, htaken, hparts, hleft⟩ := ih (claim ops layer state chain) hrest hkeys'
    have hnext : S \ covered points (claim ops layer state chain).claimed =
        (S \ covered points state.claimed) \ chainCover points layer chain := by
      rw [hclaimed, Set.sdiff_sdiff]
    refine ⟨(chainKey chain, polygons) :: taken, ?_, ?_, ?_⟩
    · rw [List.foldl_cons, htaken, hvariants, List.append_assoc, List.singleton_append]
    · have hpart : (S \ covered points state.claimed) ∩ chainCover points layer chain =
          chainCover points layer chain \ covered points state.claimed := by
        rw [Set.sdiff_inter_right_comm, Set.inter_eq_self_of_subset_right hsubset]
      rw [List.map_cons, hparts, hpolygons, hnext, parts, List.zip_cons_cons, List.map_cons, hpart]
    · rw [List.foldl_cons, hleft, hnext, leftover_cons]

theorem composeLayer_spec (hops : ExactComposeOps points ops) {totalContour : List ExPolygon}
    (hdistinct : (outputs.map SemanticOutput.pair).Nodup)
    (hinside : ∀ output ∈ outputs, painted points layer output ⊆ covered points totalContour) :
    ∃ (taken : LayerVariants F) (base : List ExPolygon),
      composeLayer ops layer outputs totalContour = taken ++ [([], base)] ∧
      taken.map (fun entry => (entry.1, covered points entry.2)) =
        ((subsets outputs).zip (parts (chainCover points layer) (covered points totalContour)
          (subsets outputs))).map (fun entry => (chainKey entry.1, entry.2)) ∧
      covered points base =
        leftover (chainCover points layer) (covered points totalContour) (subsets outputs) := by
  have hchains : ∀ chain ∈ subsets outputs,
      chain ≠ [] ∧ chainCover points layer chain ⊆ covered points totalContour := by
    intro chain hchain
    obtain ⟨hne, -, houtputs⟩ := mem_subsets.mp hchain
    obtain ⟨output, houtput⟩ := List.exists_mem_of_ne_nil _ hne
    exact ⟨hne, fun x hx => hinside output (houtputs output houtput) (hx output houtput)⟩
  have hkeys : ((({} : Claiming F).variants.map Prod.fst) ++
      (subsets outputs).map chainKey).Nodup := nodup_chainKeys hdistinct
  obtain ⟨taken, htaken, hparts, hleft⟩ := foldl_claim_spec hops (subsets outputs) {} hchains hkeys
  have hstart : covered points totalContour \ covered points ({} : Claiming F).claimed =
      covered points totalContour := by
    rw [show ({} : Claiming F).claimed = [] from rfl, covered_nil, Set.sdiff_empty]
  rw [hstart] at hparts hleft
  replace htaken : ((subsets outputs).foldl (claim ops layer) {}).variants = taken := htaken
  have hbaseNew : ([] : ChainKey F) ∉
      ((subsets outputs).foldl (claim ops layer) {}).variants.map Prod.fst := by
    intro hmem
    rw [htaken] at hmem
    obtain ⟨entry, hentry, hkey⟩ := List.mem_map.mp hmem
    have hin := List.mem_map_of_mem (f := fun entry => (entry.1, covered points entry.2)) hentry
    rw [hparts] at hin
    obtain ⟨⟨chain, part⟩, hzip, heq⟩ := List.mem_map.mp hin
    have hnil : chainKey chain = [] := (Prod.mk.inj heq).1.trans hkey
    exact (hchains chain (List.of_mem_zip hzip).1).1 (List.map_eq_nil_iff.mp hnil)
  refine ⟨taken, _, (insert_of_notMem hbaseNew _).trans (congrArg (· ++ _) htaken), hparts, ?_⟩
  rw [← hleft]
  split
  case isTrue hnone => rw [List.isEmpty_iff.mp hnone, covered_nil, Set.sdiff_empty]
  case isFalse => exact hops.booleans.difference.covered_op _ _

end Claiming

/-! ### The partition -/

section Partition

variable {P : Type} {points : ExPolygon → Set P} {ops : ComposeOps} {layer : Nat}
  {outputs : List (SemanticOutput F)} {totalContour : List ExPolygon}

/-- The values of one semantic do not overlap on a layer. -/
def ValuesDisjoint (points : ExPolygon → Set P) (layer : Nat) (outputs : List (SemanticOutput F)) :
    Prop :=
  ∀ a ∈ outputs, ∀ b ∈ outputs, a.name = b.name → a ≠ b →
    Disjoint (painted points layer a) (painted points layer b)

/-- The variants cut up the contour of a layer. -/
structure IsPartition (points : ExPolygon → Set P) (layer : Nat)
    (outputs : List (SemanticOutput F)) (totalContour : List ExPolygon)
    (variants : LayerVariants F) : Prop where
  distinct : (variants.map Prod.fst).Nodup
  /-- Every chain is enumerated, from any semantics and values that include the outputs'. -/
  canonical : ∀ (values : BTreeMap String (List (PaintValue F))) (order : BTreeSet String),
    (∀ output ∈ outputs, output.name ∈ order ∧ output.value ∈ values[output.name]?.getD []) →
      ∀ entry ∈ variants, entry.1 ∈ enumerateCanonicalChains values order.toList
  inside : ∀ entry ∈ variants, covered points entry.2 ⊆ covered points totalContour
  once : ∀ x ∈ covered points totalContour, ∃! entry, entry ∈ variants ∧ x ∈ covered points entry.2
  /-- The chain of a point has all values painted there. -/
  maximal : ValuesDisjoint points layer outputs → ∀ entry ∈ variants,
    ∀ x ∈ covered points entry.2, ∀ pair, pair ∈ entry.1 ↔
      ∃ output ∈ outputs, output.pair = pair ∧ x ∈ painted points layer output

theorem mem_of_first_chain {before after : List (List (SemanticOutput F))}
    {chain : List (SemanticOutput F)} {x : P} (houtputs : outputs.Nodup)
    (hdisjoint : ValuesDisjoint points layer outputs)
    (hsplit : subsets outputs = before ++ chain :: after)
    (hfirst : ∀ earlier ∈ before, x ∉ chainCover points layer earlier)
    (hx : x ∈ chainCover points layer chain) {output : SemanticOutput F}
    (houtput : output ∈ outputs) (hpainted : x ∈ painted points layer output) :
    output ∈ chain := by
  classical
  -- the longest chain that there could be: all outputs painted at the point
  obtain ⟨here, hhere⟩ : ∃ here, here = outputs.filter (x ∈ painted points layer ·) := ⟨_, rfl⟩
  have hmemHere : ∀ a, a ∈ here ↔ a ∈ outputs ∧ x ∈ painted points layer a := by
    intro a
    rw [hhere, List.mem_filter, decide_eq_true_eq]
  have hnames : (here.map SemanticOutput.name).Nodup := by
    have hnodup : here.Nodup := by rw [hhere]; exact houtputs.filter _
    refine hnodup.map_on fun a ha b hb hname => ?_
    by_contra hne
    obtain ⟨ha, hxa⟩ := (hmemHere a).mp ha
    obtain ⟨hb, hxb⟩ := (hmemHere b).mp hb
    exact Set.disjoint_left.mp (hdisjoint a ha b hb hname hne) hxa hxb
  obtain ⟨all, hall⟩ : ∃ all, all =
      Choices.arrange SemanticOutput.name (semanticNames outputs) here := ⟨_, rfl⟩
  have hmemAll : ∀ a, a ∈ all ↔ a ∈ here := by
    intro a
    rw [hall, Choices.mem_arrange, and_iff_right_of_imp]
    exact fun ha => mem_semanticNames.mpr ⟨a, ((hmemHere a).mp ha).1, rfl⟩
  have hchosen : all ∈ Choices.choices
      (Choices.byKey SemanticOutput.name outputs (semanticNames outputs)) := by
    rw [hall]
    exact Choices.arrange_mem_choices (fun a ha => ((hmemHere a).mp ha).1) hnames
  have hmem : output ∈ all := (hmemAll output).mpr ((hmemHere output).mpr ⟨houtput, hpainted⟩)
  have hallSubset : all ∈ subsets outputs :=
    mem_subsets.mpr ⟨List.ne_nil_of_mem hmem, Choices.mem_choices.mp hchosen⟩
  have hcover : x ∈ chainCover points layer all :=
    fun a ha => ((hmemHere a).mp ((hmemAll a).mp ha)).2
  -- so it stands at the chain or behind it, and is no longer
  have hlength : all.length ≤ chain.length := by
    have hsorted := subsets_pairwise outputs
    rw [hsplit] at hsorted hallSubset
    rcases List.mem_append.mp hallSubset with hbefore | hbehind
    · exact absurd hcover (hfirst all hbefore)
    · rcases List.mem_cons.mp hbehind with rfl | hafter
      · exact Nat.le_refl _
      · exact (List.pairwise_cons.mp (List.pairwise_append.mp hsorted).2.1).1 all hafter
  have hchain : chain ∈ subsets outputs := by rw [hsplit]; simp
  obtain ⟨-, hchainNames, hchainOutputs⟩ := mem_subsets.mp hchain
  have hchainNodup : chain.Nodup :=
    .of_map SemanticOutput.name (hchainNames.nodup (nodup_semanticNames outputs))
  have hsubset : chain ⊆ all := fun a ha =>
    (hmemAll a).mpr ((hmemHere a).mpr ⟨hchainOutputs a ha, hx a ha⟩)
  exact ((List.subperm_of_subset hchainNodup hsubset).perm_of_length_le hlength).mem_iff.mpr hmem

variable [DecidableEq F]

/-- The variants of one layer. -/
theorem composeLayer_isPartition (hops : ExactComposeOps points ops)
    (hdistinct : (outputs.map SemanticOutput.pair).Nodup)
    (hinside : ∀ output ∈ outputs, painted points layer output ⊆ covered points totalContour) :
    IsPartition points layer outputs totalContour
      (composeLayer ops layer outputs totalContour) := by
  obtain ⟨taken, base, hvariants, htaken, hbase⟩ :=
    composeLayer_spec hops hdistinct hinside
  rw [hvariants]
  -- every entry but the base is what some chain takes
  have hentry : ∀ entry ∈ taken, ∃ before chain after,
      subsets outputs = before ++ chain :: after ∧ entry.1 = chainKey chain ∧
        covered points entry.2 = leftover (chainCover points layer) (covered points totalContour)
          before ∩ chainCover points layer chain := by
    intro entry hmem
    have hin := List.mem_map_of_mem (f := fun entry => (entry.1, covered points entry.2)) hmem
    rw [htaken] at hin
    obtain ⟨⟨chain, part⟩, hzip, heq⟩ := List.mem_map.mp hin
    obtain ⟨before, after, hsplit, hpart⟩ := of_mem_zip_parts hzip
    obtain ⟨hkey, hcovered⟩ := Prod.mk.inj heq
    exact ⟨before, chain, after, hsplit, hkey.symm, hcovered.symm.trans hpart⟩
  have hkeys : taken.map Prod.fst = (subsets outputs).map chainKey := by
    have hfirst := congrArg (List.map Prod.fst) htaken
    simp only [List.map_map, Function.comp_def] at hfirst
    rw [hfirst]
    exact List.map_map.symm.trans (congrArg (List.map chainKey) (List.map_fst_zip length_parts.ge))
  have hcovers : taken.map (fun entry => covered points entry.2) =
      parts (chainCover points layer) (covered points totalContour) (subsets outputs) := by
    have hsecond := congrArg (List.map Prod.snd) htaken
    rw [List.map_map, List.map_map] at hsecond
    refine hsecond.trans ?_
    exact List.map_snd_zip length_parts.le
  have hperm : ((taken ++ [([], base)]).map fun entry : ChainKey F × List ExPolygon =>
      covered points entry.2).Perm
      (leftover (chainCover points layer) (covered points totalContour) (subsets outputs) ::
        parts (chainCover points layer) (covered points totalContour) (subsets outputs)) := by
    rw [List.map_append, hcovers, List.map_singleton, hbase]
    exact List.perm_append_singleton _ _
  have hdisjoint : (taken ++ [([], base)]).Pairwise fun a b : ChainKey F × List ExPolygon =>
      Disjoint (covered points a.2) (covered points b.2) :=
    List.pairwise_map.mp ((hperm.pairwise_iff fun h => h.symm).mpr (parts_disjoint _ _ _))
  have hmem : ∀ entry ∈ taken ++ [([], base)], entry ∈ taken ∨ entry = ([], base) := by
    intro entry h
    exact (List.mem_append.mp h).imp_right List.mem_singleton.mp
  constructor
  case distinct =>
    rw [List.map_append, hkeys, List.map_singleton]
    refine (nodup_chainKeys hdistinct).append (List.nodup_singleton _) ?_
    rintro key hkey hbaseKey
    obtain rfl := List.mem_singleton.mp hbaseKey
    obtain ⟨chain, hchain, hnil⟩ := List.mem_map.mp hkey
    exact (mem_subsets.mp hchain).1 (List.map_eq_nil_iff.mp hnil)
  case canonical =>
    intro values order hincluded entry h
    rcases hmem entry h with h | rfl
    · obtain ⟨before, chain, after, hsplit, hkey, -⟩ := hentry entry h
      have hchain : chain ∈ subsets outputs := by rw [hsplit]; simp
      obtain ⟨-, hnames, houtputs⟩ := mem_subsets.mp hchain
      rw [hkey]
      exact chainKey_mem_enumerate hincluded hnames houtputs
    · exact mem_enumerateCanonicalChains.mpr ⟨List.nil_sublist _, fun _ hpair => nomatch hpair⟩
  case inside =>
    intro entry h
    rcases hmem entry h with h | rfl
    · obtain ⟨before, chain, after, -, -, hcovered⟩ := hentry entry h
      rw [hcovered]
      exact fun x hx => hx.1.1
    · rw [hbase]
      exact leftover_subset
  case once =>
    intro x hx
    obtain ⟨part, hpart, hxpart⟩ :=
      (mem_iff_mem_parts (chainCover points layer) _ (subsets outputs)).mp hx
    obtain ⟨entry, h, rfl⟩ := List.mem_map.mp (hperm.mem_iff.mpr hpart)
    refine ⟨entry, ⟨h, hxpart⟩, fun other ⟨hother, hxother⟩ => ?_⟩
    by_contra hne
    have hsymm : Std.Symm fun a b : ChainKey F × List ExPolygon =>
        Disjoint (covered points a.2) (covered points b.2) := ⟨fun _ _ h => h.symm⟩
    exact Set.disjoint_left.mp (hdisjoint.forall hother h hne) hxother hxpart
  case maximal =>
    intro hvalues entry h x hx pair
    rcases hmem entry h with h | rfl
    · obtain ⟨before, chain, after, hsplit, hkey, hcovered⟩ := hentry entry h
      rw [hcovered] at hx
      have hchain : chain ∈ subsets outputs := by rw [hsplit]; simp
      rw [hkey, chainKey, List.mem_map]
      constructor
      · rintro ⟨output, houtput, rfl⟩
        exact ⟨output, (mem_subsets.mp hchain).2.2 output houtput, rfl, hx.2 output houtput⟩
      · rintro ⟨output, houtput, rfl, hpainted⟩
        exact ⟨output, mem_of_first_chain hdistinct.of_map hvalues hsplit hx.1.2 hx.2 houtput
          hpainted, rfl⟩
    · rw [hbase] at hx
      constructor
      · intro hnone
        cases hnone
      · rintro ⟨output, houtput, rfl, hpainted⟩
        -- the output alone would have taken the point
        have hname : ([output].map SemanticOutput.name).Sublist (semanticNames outputs) :=
          List.singleton_sublist.mpr (mem_semanticNames.mpr ⟨output, houtput, rfl⟩)
        have hsingle : [output] ∈ subsets outputs :=
          mem_subsets.mpr ⟨List.cons_ne_nil _ _, hname, by simpa using houtput⟩
        refine absurd ?_ (hx.2 [output] hsingle)
        simpa [chainCover] using hpainted

/-- For exact booleans, the variants of every layer cut up its contour. -/
theorem compose_variants_partition (hops : ExactComposeOps points ops)
    (layerTotalContours : List (List ExPolygon)) (outputs : List (SemanticOutput F))
    (hdistinct : (outputs.map SemanticOutput.pair).Nodup)
    (hinside : ∀ layer totalContour, layerTotalContours[layer]? = some totalContour →
      ∀ output ∈ outputs, painted points layer output ⊆ covered points totalContour) :
    (composeVariants ops layerTotalContours outputs).length = layerTotalContours.length ∧
      ∀ (layer : Nat) (totalContour : List ExPolygon) (variants : LayerVariants F),
        layerTotalContours[layer]? = some totalContour →
        (composeVariants ops layerTotalContours outputs)[layer]? = some variants →
          IsPartition points layer outputs totalContour variants := by
  refine ⟨by simp [composeVariants], fun layer totalContour variants hcontour hvariants => ?_⟩
  have hlayer : (composeVariants ops layerTotalContours outputs)[layer]? =
      some (composeLayer ops layer outputs totalContour) := by
    rw [composeVariants, List.getElem?_map, List.getElem?_zipIdx, hcontour]
    simp
  obtain rfl := Option.some.inj (hvariants.symm.trans hlayer)
  exact composeLayer_isPartition hops hdistinct (hinside layer totalContour hcontour)

/-- The booleans on vertices, with all polygons as their union. -/
def vertexCompose : ComposeOps where
  toBooleans := vertexBooleans
  unionEx := id

/-- A tool on the first two points of a strip, and fuzzy skin on the last two. -/
def stripOutputs : List (SemanticOutput ℚ) :=
  [{ semantic := .Material, value := .ToolIndex 1, perLayer := [strip [1, 2]] },
    { semantic := .FuzzySkin, value := .Flag true, perLayer := [strip [2, 3]] }]

theorem compose_variants_partition_strip :
    ∃ variants, (composeVariants vertexCompose [strip [1, 2, 3]] stripOutputs)[0]? =
        some variants ∧
      IsPartition vertexPoints 0 stripOutputs (strip [1, 2, 3]) variants := by
  have hdistinct : (stripOutputs.map SemanticOutput.pair).Nodup := by decide
  have hpainted : ∀ output ∈ stripOutputs,
      painted vertexPoints 0 output ⊆ covered vertexPoints (strip [1, 2, 3]) := by
    intro output houtput x hx
    have hstrip : output.polygonsOn 0 = strip [1, 2] ∨ output.polygonsOn 0 = strip [2, 3] := by
      rcases List.mem_pair.mp houtput with rfl | rfl
      · exact .inl rfl
      · exact .inr rfl
    rw [painted] at hx
    rw [mem_covered_strip]
    rcases hstrip with h | h
    all_goals
      rw [h, mem_covered_strip] at hx
      simp only [List.mem_cons, List.not_mem_nil, or_false] at hx ⊢
      omega
  have hinside : ∀ layer totalContour, [strip [1, 2, 3]][layer]? = some totalContour →
      ∀ output ∈ stripOutputs,
        painted vertexPoints layer output ⊆ covered vertexPoints totalContour := by
    rintro (_ | layer) totalContour h
    · cases h
      exact hpainted
    · cases h
  exact ⟨_, rfl, (compose_variants_partition ⟨exact_vertexBooleans, fun _ => rfl⟩ _ _ hdistinct
    hinside).2 0 _ _ rfl rfl⟩

end Partition

end PinchNPrint.Region
