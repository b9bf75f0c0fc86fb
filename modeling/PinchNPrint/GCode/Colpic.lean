/-
The ColPic thumbnail codec (`slicer-gcode`: `thumbnail_colpic.rs`).

The colours of an image are listed by how often they occur, and its pixels become runs of places
in that list, in banks of 32. The bytes are written six bits to a character, in lines of 256.

The list of the colours itself is not written. `decodeRuns_encodeRuns` reads the places back from
the bytes; they tell which pixels have the same colour, and nothing else
(`encodeColpic_eq_iff`).

`resize` and the rounding of the capped side are parameters: the first is another crate's, the
second is in `f64`. The images are fields of pixels; none of the functions fails.
-/

import PinchNPrint.Lib.Coding
import Mathlib.Algebra.Group.Nat.Defs
import Mathlib.Data.Finset.Card
import Mathlib.Data.List.Sort

namespace PinchNPrint.GCode.Colpic

def MAX_DIM : Nat :=
  512

def CHUNK_SIZE : Nat :=
  256

/-- `image::Rgba`. -/
structure Rgba where
  r : UInt8
  g : UInt8
  b : UInt8
  a : UInt8
deriving DecidableEq

/-- `image::RgbaImage`. -/
structure RgbaImage where
  width : Nat
  height : Nat
  getPixel : Nat → Nat → Rgba

/-- `capped_dims`; `scaled side longer` is the shorter side by the ratio of the cap to the
longer one. -/
def cappedDims (scaled : Nat → Nat → Nat) (w h : Nat) : Nat × Nat :=
  if w ≤ MAX_DIM ∧ h ≤ MAX_DIM then (w, h)
  else if w ≥ h then (MAX_DIM, scaled h w)
  else (scaled w h, MAX_DIM)

def toRgb565 (r g b : UInt8) : UInt16 :=
  ((r >>> 3).toUInt16 <<< 11) ||| ((g >>> 2).toUInt16 <<< 5) ||| (b >>> 3).toUInt16

structure PaletteEntry where
  color : UInt16
  qty : Nat
deriving DecidableEq

/-- The first entry of a colour counts one more. -/
def countColor (c : UInt16) : List PaletteEntry → Option (List PaletteEntry)
  | [] => none
  | e :: rest =>
    if e.color = c then some ({ e with qty := e.qty + 1 } :: rest)
    else (countColor c rest).map (e :: ·)

/-- One round of the loop of `adlist0`. -/
def addColor (maxqty : Nat) (list : List PaletteEntry) (c : UInt16) : List PaletteEntry :=
  match countColor c list with
  | some counted => counted
  | none => if list.length < maxqty then list ++ [⟨c, 1⟩] else list

def adlist0 (pixels : List UInt16) (maxqty : Nat) : List PaletteEntry :=
  pixels.foldl (addColor maxqty) []

/-- The palette by descending quantity. -/
def sortedPalette (pixels : List UInt16) (maxqty : Nat) : List PaletteEntry :=
  (adlist0 pixels maxqty).insertionSort fun a b => b.qty ≤ a.qty

/-- The place of a colour in the palette. -/
def indexOf (palette : List PaletteEntry) (c : UInt16) : Nat :=
  (palette.findIdx? (·.color = c)).getD 0

/-- The length of the run of a pixel, from those behind it. -/
def runLength (c : UInt16) (rest : List UInt16) : Nat :=
  min 255 (1 + (rest.takeWhile (· = c)).length)

/-- The loop of `byte8bit_encode`. -/
def encodeRuns (palette : List PaletteEntry) (lastSid : ℤ) : List UInt16 → List UInt8
  | [] => []
  | c :: rest =>
    let idx := indexOf palette c
    let tid := idx % 32
    let sid := idx / 32
    let run := runLength c rest
    (if (sid : ℤ) ≠ lastSid then [(7 : UInt8) <<< 5 ||| sid.toUInt8] else []) ++
      (if run ≤ 6 then [run.toUInt8 <<< 5 ||| tid.toUInt8] else [tid.toUInt8, run.toUInt8]) ++
      encodeRuns palette sid (rest.drop (run - 1))
termination_by pixels => pixels.length

def byte8bitEncode (pixels : List UInt16) (maxqty : Nat) : List UInt8 :=
  encodeRuns (sortedPalette pixels maxqty) (-1) pixels

/-- The pixels of an image in RGB565, row by row. -/
def pixels565 (rgba : RgbaImage) : List UInt16 :=
  (List.range rgba.height).flatMap fun y => (List.range rgba.width).map fun x =>
    let p := rgba.getPixel x y
    toRgb565 p.r p.g p.b

def colpicEncode (rgba : RgbaImage) : List UInt8 :=
  byte8bitEncode (pixels565 rgba) 1024

/-- Zeros up to a multiple of three. -/
def pad (data : List UInt8) : List UInt8 :=
  data ++ List.replicate ((3 - data.length % 3) % 3) 0

/-- The character of one group of six bits. -/
def groupChar (combined k : Nat) : Char :=
  let ch := ((combined >>> (k * 6)) &&& 0x3F).toUInt8 + 48
  Char.ofNat (if ch = 0x5C then (126 : UInt8) else ch).toNat

/-- The four characters of every three bytes. -/
def packGroups : List UInt8 → List Char
  | b0 :: b1 :: b2 :: rest =>
    let combined := (b0.toNat <<< 16) ||| (b1.toNat <<< 8) ||| b2.toNat
    [groupChar combined 3, groupChar combined 2, groupChar combined 1, groupChar combined 0] ++
      packGroups rest
  | _ => []

def colpicEncodeStr (rgba : RgbaImage) : List Char :=
  packGroups (pad (colpicEncode rgba))

/-- The lines of the chunks. -/
def frame (first : Bool) : List (List Char) → List Char
  | [] => []
  | data :: rest =>
    (if first then ";gimage:" else ";simage:").toList ++ data ++ "\n\n".toList ++ frame false rest

def encodeColpic (scaled : Nat → Nat → Nat) (resize : RgbaImage → Nat → Nat → RgbaImage)
    (rgba : RgbaImage) : String :=
  let (usedW, usedH) := cappedDims scaled rgba.width rgba.height
  let target :=
    if usedW = rgba.width ∧ usedH = rgba.height then rgba else resize rgba usedW usedH
  String.ofList (frame true (List.chunks CHUNK_SIZE (colpicEncodeStr target)))

/-! ### The palette -/

section Palette

variable {maxqty : Nat} {c : UInt16} {list counted : List PaletteEntry} {pixels : List UInt16}

theorem countColor_eq_none_iff : countColor c list = none ↔ c ∉ list.map (·.color) := by
  induction list with
  | nil => simp [countColor]
  | cons e rest ih =>
    rw [countColor]
    split
    · rename_i hcolor
      simp [hcolor]
    · rename_i hcolor
      rw [Option.map_eq_none_iff, ih]
      simp [Ne.symm hcolor]

theorem colors_of_countColor (h : countColor c list = some counted) :
    counted.map (·.color) = list.map (·.color) := by
  induction list generalizing counted with
  | nil => cases h
  | cons e rest ih =>
    rw [countColor] at h
    split at h
    · cases h
      rfl
    · obtain ⟨counted', hrest, rfl⟩ := Option.map_eq_some_iff.mp h
      rw [List.map_cons, List.map_cons, ih hrest]

/-- The colours of the list after one more pixel. -/
theorem colors_addColor (maxqty : Nat) (list : List PaletteEntry) (c : UInt16) :
    (addColor maxqty list c).map (·.color) =
      if c ∉ list.map (·.color) ∧ list.length < maxqty then list.map (·.color) ++ [c]
      else list.map (·.color) := by
  rw [addColor]
  cases hcount : countColor c list with
  | some counted =>
    have hmem : ¬ c ∉ list.map (·.color) := by
      rw [← countColor_eq_none_iff, hcount]
      exact Option.some_ne_none _
    rw [if_neg (not_and.mpr fun hnew => absurd hnew hmem)]
    exact colors_of_countColor hcount
  | none =>
    have hmem := countColor_eq_none_iff.mp hcount
    by_cases hlength : list.length < maxqty
    · simp [hlength, hmem]
    · simp [hlength]

theorem length_addColor_le (h : list.length ≤ maxqty) : (addColor maxqty list c).length ≤ maxqty := by
  have hcolors := congrArg List.length (colors_addColor maxqty list c)
  split at hcolors
  · rename_i hnew
    simp only [List.length_map, List.length_append, List.length_singleton] at hcolors
    omega
  · simp only [List.length_map] at hcolors
    omega

theorem length_adlist0_le : (adlist0 pixels maxqty).length ≤ maxqty := by
  rw [adlist0]
  induction pixels using List.reverseRecOn with
  | nil => exact Nat.zero_le _
  | append_singleton pixels c ih =>
    rw [List.foldl_append]
    exact length_addColor_le ih

/-- With few enough colours the list has each of them once. -/
theorem colors_adlist0 (h : pixels.toFinset.card ≤ maxqty) :
    ((adlist0 pixels maxqty).map (·.color)).Nodup ∧
      ∀ c, c ∈ (adlist0 pixels maxqty).map (·.color) ↔ c ∈ pixels := by
  induction pixels using List.reverseRecOn with
  | nil => simp [adlist0]
  | append_singleton pixels c ih =>
    have hsubset : pixels.toFinset ⊆ (pixels ++ [c]).toFinset := by
      intro d hd
      simp only [List.mem_toFinset, List.mem_append] at hd ⊢
      exact Or.inl hd
    obtain ⟨hnodup, hmem⟩ := ih ((Finset.card_le_card hsubset).trans h)
    have hstep : adlist0 (pixels ++ [c]) maxqty = addColor maxqty (adlist0 pixels maxqty) c := by
      rw [adlist0, List.foldl_append]
      rfl
    rw [hstep, colors_addColor]
    by_cases hold : c ∈ (adlist0 pixels maxqty).map (·.color)
    · rw [if_neg fun hnew => hnew.1 hold]
      refine ⟨hnodup, fun d => ?_⟩
      rw [hmem, List.mem_append, List.mem_singleton]
      exact ⟨Or.inl, fun hd => hd.elim id fun hd => hd ▸ (hmem c).mp hold⟩
    · have hcard : (adlist0 pixels maxqty).length = pixels.toFinset.card := by
        have hfinset : ((adlist0 pixels maxqty).map (·.color)).toFinset = pixels.toFinset := by
          ext d
          rw [List.mem_toFinset, List.mem_toFinset, hmem]
        rw [← hfinset, List.toFinset_card_of_nodup hnodup, List.length_map]
      have hlt : pixels.toFinset.card < (pixels ++ [c]).toFinset.card := by
        refine Finset.card_lt_card (Finset.ssubset_iff_of_subset hsubset |>.mpr ⟨c, ?_, ?_⟩)
        · simp
        · rw [List.mem_toFinset, ← hmem]
          exact hold
      rw [if_pos ⟨hold, by omega⟩]
      constructor
      · rw [List.nodup_append]
        exact ⟨hnodup, List.nodup_singleton c, fun d hd d' hd' heq =>
          hold (List.mem_singleton.mp hd' ▸ heq ▸ hd)⟩
      · intro d
        rw [List.mem_append, hmem, List.mem_append]

theorem indexOf_lt (h : maxqty ≠ 0) : indexOf (sortedPalette pixels maxqty) c < maxqty := by
  have hlength : (sortedPalette pixels maxqty).length ≤ maxqty := by
    rw [sortedPalette, List.length_insertionSort]
    exact length_adlist0_le
  rw [indexOf]
  cases hfind : (sortedPalette pixels maxqty).findIdx? (·.color = c) with
  | none => exact Nat.pos_of_ne_zero h
  | some i => exact (List.findIdx?_eq_some_iff_getElem.mp hfind).1.trans_le hlength

/-- Colours at the same place are the same. -/
theorem indexOf_injOn (h : pixels.toFinset.card ≤ maxqty) :
    Set.InjOn (indexOf (sortedPalette pixels maxqty)) {c | c ∈ pixels} := by
  have hfind : ∀ c ∈ pixels, ∃ e, (sortedPalette pixels maxqty)[indexOf
      (sortedPalette pixels maxqty) c]? = some e ∧ e.color = c := by
    intro c hc
    obtain ⟨e, he, hcolor⟩ := List.mem_map.mp (((colors_adlist0 h).2 c).mpr hc)
    have hmem : e ∈ sortedPalette pixels maxqty := (List.mem_insertionSort _).mpr he
    cases hidx : (sortedPalette pixels maxqty).findIdx? (·.color = c) with
    | none => simpa [hcolor] using List.findIdx?_eq_none_iff.mp hidx e hmem
    | some i =>
      obtain ⟨hlt, hfound, _⟩ := List.findIdx?_eq_some_iff_getElem.mp hidx
      rw [indexOf, hidx]
      exact ⟨_, List.getElem?_eq_getElem hlt, of_decide_eq_true hfound⟩
  intro c hc d hd hcd
  obtain ⟨e, he, rfl⟩ := hfind c hc
  obtain ⟨e', he', rfl⟩ := hfind d hd
  rw [hcd, he'] at he
  rw [Option.some.inj he]

end Palette

/-! ### Other colours -/

section Recolor

variable {f : UInt16 → UInt16} {s : Set UInt16} {maxqty : Nat}

/-- The entry of the colour's image. -/
def recolor (f : UInt16 → UInt16) (e : PaletteEntry) : PaletteEntry :=
  { e with color := f e.color }

variable {c : UInt16} {pixels : List UInt16}

theorem countColor_recolor (hf : Set.InjOn f s) (hc : c ∈ s) {list : List PaletteEntry}
    (hlist : ∀ e ∈ list, e.color ∈ s) :
    countColor (f c) (list.map (recolor f)) =
      (countColor c list).map (List.map (recolor f)) := by
  induction list with
  | nil => rfl
  | cons e rest ih =>
    have hrest := ih fun e' he' => hlist e' (List.mem_cons_of_mem _ he')
    have hiff : (recolor f e).color = f c ↔ e.color = c :=
      hf.eq_iff (hlist e List.mem_cons_self) hc
    rw [List.map_cons, countColor, countColor, hrest]
    by_cases hcolor : e.color = c
    · rw [if_pos hcolor, if_pos (hiff.mpr hcolor)]
      rfl
    · rw [if_neg hcolor, if_neg fun h => hcolor (hiff.mp h), Option.map_map, Option.map_map]
      rfl

theorem addColor_recolor (hf : Set.InjOn f s) (hc : c ∈ s) {list : List PaletteEntry}
    (hlist : ∀ e ∈ list, e.color ∈ s) :
    addColor maxqty (list.map (recolor f)) (f c) =
      (addColor maxqty list c).map (recolor f) := by
  rw [addColor, addColor, countColor_recolor hf hc hlist, List.length_map]
  cases countColor c list with
  | some counted => rfl
  | none =>
    by_cases hlength : list.length < maxqty
    · simp [hlength, recolor]
    · simp [hlength]

theorem color_mem_adlist0 {e : PaletteEntry} (he : e ∈ adlist0 pixels maxqty) :
    e.color ∈ pixels := by
  induction pixels using List.reverseRecOn generalizing e with
  | nil => cases he
  | append_singleton pixels c ih =>
    rw [adlist0, List.foldl_append] at he
    have hcolor := List.mem_map_of_mem (f := PaletteEntry.color) he
    rw [List.foldl_cons, List.foldl_nil, colors_addColor] at hcolor
    have hold : e.color ∈ (adlist0 pixels maxqty).map (·.color) → e.color ∈ pixels ++ [c] := by
      intro hmem
      obtain ⟨e', he', heq⟩ := List.mem_map.mp hmem
      exact heq ▸ List.mem_append_left _ (ih he')
    split at hcolor
    · rcases List.mem_append.mp hcolor with hmem | hnew
      · exact hold hmem
      · exact List.mem_append_right _ hnew
    · exact hold hcolor

/-- Other colours give the same palette in these colours. -/
theorem adlist0_map (hf : Set.InjOn f {c | c ∈ pixels}) :
    adlist0 (pixels.map f) maxqty = (adlist0 pixels maxqty).map (recolor f) := by
  have hprefix : ∀ l : List UInt16, (∀ c ∈ l, c ∈ pixels) →
      adlist0 (l.map f) maxqty = (adlist0 l maxqty).map (recolor f) := by
    intro l hl
    induction l using List.reverseRecOn with
    | nil => rfl
    | append_singleton l c ih =>
      have hold := ih fun d hd => hl d (List.mem_append_left _ hd)
      rw [adlist0] at hold
      rw [List.map_append, adlist0, adlist0, List.foldl_append, List.foldl_append, hold]
      exact addColor_recolor hf (hl c (List.mem_append_right _ (List.mem_singleton_self c)))
        fun e he => hl _ (List.mem_append_left _ (color_mem_adlist0 he))
  exact hprefix pixels fun _ => id

theorem sortedPalette_map (hf : Set.InjOn f {c | c ∈ pixels}) :
    sortedPalette (pixels.map f) maxqty = (sortedPalette pixels maxqty).map (recolor f) := by
  rw [sortedPalette, adlist0_map hf, sortedPalette]
  exact (List.map_insertionSort (r := fun a b : PaletteEntry => b.qty ≤ a.qty)
    (s := fun a b : PaletteEntry => b.qty ≤ a.qty) (recolor f) _ fun _ _ _ _ => Iff.rfl).symm

theorem indexOf_map_recolor (hf : Set.InjOn f s) (hc : c ∈ s) {palette : List PaletteEntry}
    (hpalette : ∀ e ∈ palette, e.color ∈ s) :
    indexOf (palette.map (recolor f)) (f c) = indexOf palette c := by
  have hfind : (palette.map (recolor f)).findIdx? (·.color = f c) =
      palette.findIdx? (·.color = c) := by
    induction palette with
    | nil => rfl
    | cons e rest ih =>
      have hiff : f e.color = f c ↔ e.color = c := hf.eq_iff (hpalette e List.mem_cons_self) hc
      have hrest := ih fun e' he' => hpalette e' (List.mem_cons_of_mem _ he')
      rw [List.map_cons, List.findIdx?_cons, List.findIdx?_cons, hrest]
      simp [recolor, hiff]
  rw [indexOf, indexOf, hfind]

theorem runLength_map (hf : Set.InjOn f s) (hc : c ∈ s) {rest : List UInt16}
    (hrest : ∀ d ∈ rest, d ∈ s) : runLength (f c) (rest.map f) = runLength c rest := by
  have htake : ((rest.map f).takeWhile (· = f c)).length = (rest.takeWhile (· = c)).length := by
    induction rest with
    | nil => rfl
    | cons d rest ih =>
      have hiff : f d = f c ↔ d = c := hf.eq_iff (hrest d List.mem_cons_self) hc
      have htail := ih fun d' hd' => hrest d' (List.mem_cons_of_mem _ hd')
      rw [List.map_cons, List.takeWhile_cons, List.takeWhile_cons]
      by_cases hd : d = c
      · simp [hd, htail]
      · simp [hd, hiff]
  rw [runLength, runLength, htake]

/-- Other colours give the same runs. -/
theorem encodeRuns_map (hf : Set.InjOn f s) {palette : List PaletteEntry}
    (hpalette : ∀ e ∈ palette, e.color ∈ s) (lastSid : ℤ) (pixels : List UInt16)
    (hpixels : ∀ c ∈ pixels, c ∈ s) :
    encodeRuns (palette.map (recolor f)) lastSid (pixels.map f) =
      encodeRuns palette lastSid pixels := by
  fun_induction encodeRuns palette lastSid pixels with
  | case1 lastSid => simp [encodeRuns]
  | case2 lastSid c rest idx tid sid run ih =>
    have hc := hpixels c List.mem_cons_self
    have hrest : ∀ d ∈ rest, d ∈ s := fun d hd => hpixels d (List.mem_cons_of_mem _ hd)
    have htail := ih fun d hd => hrest d (List.mem_of_mem_drop hd)
    rw [List.map_cons, encodeRuns]
    simp only [indexOf_map_recolor hf hc hpalette, runLength_map hf hc hrest]
    rw [← List.map_drop, htail]

/-- Other colours give the same bytes. -/
theorem byte8bitEncode_map (hf : Set.InjOn f {c | c ∈ pixels}) :
    byte8bitEncode (pixels.map f) maxqty = byte8bitEncode pixels maxqty := by
  rw [byte8bitEncode, sortedPalette_map hf, byte8bitEncode]
  refine encodeRuns_map hf (fun e he => ?_) (-1) pixels fun _ => id
  exact color_mem_adlist0 ((List.mem_insertionSort _).mp he)

end Recolor

/-! ### Reading the runs back -/

/-- The places that a stream of runs stands for, from a bank. -/
def decodeRuns (bank : Nat) : List UInt8 → List Nat
  | [] => []
  | b :: rest =>
    if 224 ≤ b.toNat then decodeRuns (b.toNat - 224) rest
    else if 32 ≤ b.toNat then
      List.replicate (b.toNat / 32) (bank * 32 + b.toNat % 32) ++ decodeRuns bank rest
    else
      List.replicate (rest.headD 0).toNat (bank * 32 + b.toNat) ++ decodeRuns bank rest.tail
termination_by bytes => bytes.length

theorem toNat_toUInt8 {n : Nat} (h : n < 256) : n.toUInt8.toNat = n :=
  UInt8.toNat_ofNat_of_lt' h

theorem toNat_tag {tag place : Nat} (htag : tag < 8) (hplace : place < 32) :
    (tag.toUInt8 <<< 5 ||| place.toUInt8).toNat = 32 * tag + place := by
  have hshift : tag <<< 5 = 32 * tag := by
    rw [Nat.shiftLeft_eq]
    omega
  have htag' : (tag.toUInt8 <<< 5).toNat = tag <<< 5 := by
    rw [UInt8.toNat_shiftLeft, toNat_toUInt8 (by omega)]
    show tag <<< 5 % 256 = tag <<< 5
    omega
  rw [UInt8.toNat_or, htag', toNat_toUInt8 (n := place) (by omega), ← Nat.shiftLeft_add_eq_or_of_lt (by simpa using hplace),
    hshift]

theorem runLength_spec (c : UInt16) (rest : List UInt16) :
    1 ≤ runLength c rest ∧ runLength c rest ≤ 255 ∧
      rest.take (runLength c rest - 1) = List.replicate (runLength c rest - 1) c := by
  rw [runLength]
  refine ⟨by omega, by omega, ?_⟩
  have htake : ∀ n ≤ (rest.takeWhile (· = c)).length, rest.take n = List.replicate n c := by
    induction rest with
    | nil =>
      intro n hn
      obtain rfl : n = 0 := by simpa using hn
      rfl
    | cons d rest ih =>
      intro n hn
      rw [List.takeWhile_cons] at hn
      cases n with
      | zero => rfl
      | succ n =>
        by_cases hd : d = c
        · simp only [hd, decide_true, if_true, List.length_cons, Nat.add_le_add_iff_right] at hn
          rw [List.take_succ_cons, ih n hn, hd, List.replicate_succ]
        · simp [hd] at hn
  exact htake _ (by omega)

variable {bank : Nat}

/-- A run and what follows it are read back. -/
theorem decodeRuns_run {run tid : Nat} (hrun : 1 ≤ run) (hrun' : run ≤ 255) (htid : tid < 32)
    (rest : List UInt8) :
    decodeRuns bank ((if run ≤ 6 then [run.toUInt8 <<< 5 ||| tid.toUInt8]
        else [tid.toUInt8, run.toUInt8]) ++ rest) =
      List.replicate run (bank * 32 + tid) ++ decodeRuns bank rest := by
  by_cases hshort : run ≤ 6
  · have htag : (run.toUInt8 <<< 5 ||| tid.toUInt8).toNat = 32 * run + tid :=
      toNat_tag (by omega) htid
    rw [if_pos hshort, List.singleton_append, decodeRuns, htag, if_neg (by omega),
      if_pos (by omega)]
    congr 2
    · omega
    · omega
  · rw [if_neg hshort, List.cons_append, List.singleton_append, decodeRuns,
      toNat_toUInt8 (n := tid) (by omega), if_neg (by omega), if_neg (by omega), List.headD_cons,
      List.tail_cons, toNat_toUInt8 (by omega)]

/-- The switch to a bank is read back. -/
theorem decodeRuns_bank {sid : Nat} {lastSid : ℤ} (hlast : lastSid = -1 ∨ lastSid = bank)
    (hsid : sid < 32) (rest : List UInt8) :
    decodeRuns bank ((if (sid : ℤ) ≠ lastSid then [(7 : UInt8) <<< 5 ||| sid.toUInt8] else []) ++
      rest) = decodeRuns sid rest := by
  by_cases hswitch : (sid : ℤ) ≠ lastSid
  · have htag : ((7 : UInt8) <<< 5 ||| sid.toUInt8).toNat = 32 * 7 + sid :=
      @toNat_tag 7 sid (by omega) hsid
    have hsame : 32 * 7 + sid - 224 = sid := by omega
    rw [if_pos hswitch, List.singleton_append, decodeRuns, htag, if_pos (by omega), hsame]
  · have hbank : bank = sid := by omega
    rw [if_neg hswitch, List.nil_append, hbank]

/-- The zeros behind the stream stand for nothing. -/
theorem decodeRuns_zeros {k : Nat} (hk : k ≤ 2) : decodeRuns bank (List.replicate k 0) = [] := by
  have hcases : k = 0 ∨ k = 1 ∨ k = 2 := by omega
  rcases hcases with rfl | rfl | rfl <;> simp [decodeRuns, List.replicate]

/-- The places of all pixels are read back from the stream. -/
theorem decodeRuns_encodeRuns {palette : List PaletteEntry}
    (hpalette : ∀ c, indexOf palette c < 1024) {k : Nat} {lastSid : ℤ}
    (hlast : lastSid = -1 ∨ lastSid = bank) (hk : k ≤ 2) (pixels : List UInt16) :
    decodeRuns bank (encodeRuns palette lastSid pixels ++ List.replicate k 0) =
      pixels.map (indexOf palette) := by
  fun_induction encodeRuns palette lastSid pixels generalizing bank with
  | case1 lastSid => exact decodeRuns_zeros hk
  | case2 lastSid c rest idx tid sid run =>
    rename_i ih
    obtain ⟨hrun, hrun', htake⟩ := runLength_spec c rest
    have hidx : idx < 1024 := hpalette c
    have htid : tid < 32 := Nat.mod_lt _ (by omega)
    have hsid : idx / 32 < 32 := by omega
    have hplace : sid * 32 + tid = idx := Nat.div_add_mod' idx 32
    have hsplit : c :: rest = List.replicate run c ++ rest.drop (run - 1) := by
      have hreplicate : List.replicate run c = c :: List.replicate (run - 1) c := by
        rw [← List.replicate_succ, Nat.sub_add_cancel hrun]
      rw [hreplicate, List.cons_append, ← htake, List.take_append_drop]
    rw [List.append_assoc, List.append_assoc, decodeRuns_bank hlast hsid, decodeRuns_run hrun hrun'
      htid, ih (Or.inr rfl), hplace, hsplit, List.map_append, List.map_replicate]

/-! ### Reading the text back -/

/-- The six bits of a group. -/
def groupOf (c : Char) : Nat :=
  if c = '~' then 44 else c.toNat - 48

theorem groupOf_groupChar (combined k : Nat) :
    groupOf (groupChar combined k) = combined / 2 ^ (k * 6) % 64 := by
  have hgroups : ∀ group : Fin 64, groupOf (Char.ofNat
      (if group.val.toUInt8 + 48 = 0x5C then (126 : UInt8)
        else group.val.toUInt8 + 48).toNat) = group.val := by
    decide
  have hbits : (combined >>> (k * 6)) &&& 0x3F = combined / 2 ^ (k * 6) % 64 := by
    rw [Nat.shiftRight_eq_div_pow]
    exact Nat.and_two_pow_sub_one_eq_mod _ 6
  rw [groupChar, hbits]
  exact hgroups ⟨_, Nat.mod_lt _ (by omega)⟩

theorem groupChar_ne_newline (combined k : Nat) : groupChar combined k ≠ '\n' := by
  have hgroups : ∀ group : Fin 64, Char.ofNat
      (if group.val.toUInt8 + 48 = 0x5C then (126 : UInt8)
        else group.val.toUInt8 + 48).toNat ≠ '\n' := by
    decide
  have hbits : (combined >>> (k * 6)) &&& 0x3F < 64 := Nat.and_lt_two_pow _ (n := 6) (by omega)
  rw [groupChar]
  exact hgroups ⟨_, hbits⟩

theorem combined_eq (b0 b1 b2 : UInt8) :
    (b0.toNat <<< 16) ||| (b1.toNat <<< 8) ||| b2.toNat =
      b0.toNat * 65536 + b1.toNat * 256 + b2.toNat := by
  have hb1 := b1.toNat_lt
  have hb2 := b2.toNat_lt
  rw [Nat.or_assoc, ← Nat.shiftLeft_add_eq_or_of_lt (i := 8) (by omega),
    ← Nat.shiftLeft_add_eq_or_of_lt (i := 16) (by rw [Nat.shiftLeft_eq]; omega),
    Nat.shiftLeft_eq, Nat.shiftLeft_eq]
  omega

theorem eq_of_groups {c c' : Nat} (hc : c < 2 ^ 24) (hc' : c' < 2 ^ 24)
    (h : ∀ k < 4, groupChar c k = groupChar c' k) : c = c' := by
  have hgroups : ∀ k < 4, c / 2 ^ (k * 6) % 64 = c' / 2 ^ (k * 6) % 64 := by
    intro k hk
    rw [← groupOf_groupChar, h k hk, groupOf_groupChar]
  have h0 := hgroups 0 (by omega)
  have h1 := hgroups 1 (by omega)
  have h2 := hgroups 2 (by omega)
  have h3 := hgroups 3 (by omega)
  simp only [Nat.zero_mul, Nat.one_mul, Nat.reduceMul, Nat.reducePow, Nat.div_one] at h0 h1 h2 h3
  omega

/-- Three bytes are read back from their four characters. -/
theorem bytes_eq {b0 b1 b2 c0 c1 c2 : UInt8}
    (h : b0.toNat * 65536 + b1.toNat * 256 + b2.toNat =
      c0.toNat * 65536 + c1.toNat * 256 + c2.toNat) : b0 = c0 ∧ b1 = c1 ∧ b2 = c2 := by
  have hb1 := b1.toNat_lt
  have hb2 := b2.toNat_lt
  have hc1 := c1.toNat_lt
  have hc2 := c2.toNat_lt
  simp only [← UInt8.toNat_inj]
  omega

/-- The bytes of whole groups are read back from their characters. -/
theorem packGroups_injective {data data' : List UInt8} (h : 3 ∣ data.length)
    (h' : 3 ∣ data'.length) (heq : packGroups data = packGroups data') : data = data' := by
  induction hn : data.length using Nat.strongRecOn generalizing data data' with
  | ind n ih =>
    match data, data', h, h', heq, hn with
    | [], [], _, _, _, _ => rfl
    | [], c0 :: c1 :: c2 :: rest', _, _, heq, _ => simp [packGroups] at heq
    | b0 :: b1 :: b2 :: rest, [], _, _, heq, _ => simp [packGroups] at heq
    | b0 :: b1 :: b2 :: rest, c0 :: c1 :: c2 :: rest', h, h', heq, hn =>
      simp only [packGroups, combined_eq, List.cons_append, List.nil_append, List.cons.injEq] at heq
      obtain ⟨h3, h2, h1, h0, hrest⟩ := heq
      have hcombined := @eq_of_groups (b0.toNat * 65536 + b1.toNat * 256 + b2.toNat)
        (c0.toNat * 65536 + c1.toNat * 256 + c2.toNat)
        (by have := b0.toNat_lt; have := b1.toNat_lt; have := b2.toNat_lt; omega)
        (by have := c0.toNat_lt; have := c1.toNat_lt; have := c2.toNat_lt; omega)
        (fun k hk => by
          have hcases : k = 0 ∨ k = 1 ∨ k = 2 ∨ k = 3 := by omega
          rcases hcases with rfl | rfl | rfl | rfl
          exacts [h0, h1, h2, h3])
      obtain ⟨rfl, rfl, rfl⟩ := bytes_eq hcombined
      simp only [List.length_cons] at h h' hn
      rw [ih rest.length (by omega) (by omega) (by omega) hrest rfl]
    | [_], _, h, _, _, _ => simp at h
    | [_, _], _, h, _, _, _ => simp at h
    | _, [_], _, h', _, _ => simp at h'
    | _, [_, _], _, h', _, _ => simp at h'

theorem newline_notMem_packGroups (data : List UInt8) : '\n' ∉ packGroups data := by
  fun_induction packGroups data with
  | case1 b0 b1 b2 rest combined ih =>
    simp [ih, Ne.symm (groupChar_ne_newline _ _)]
  | case2 => simp

/-- The chunks are read back from their lines. -/
theorem frame_injective {first : Bool} {parts parts' : List (List Char)}
    (h : ∀ part ∈ parts, '\n' ∉ part) (h' : ∀ part ∈ parts', '\n' ∉ part)
    (heq : frame first parts = frame first parts') : parts = parts' := by
  induction parts generalizing first parts' with
  | nil =>
    cases parts' with
    | nil => rfl
    | cons part' rest' => simp [frame] at heq
  | cons part rest ih =>
    cases parts' with
    | nil => simp [frame] at heq
    | cons part' rest' =>
      rw [frame, frame, List.append_assoc, List.append_assoc, List.append_assoc,
        List.append_assoc] at heq
      obtain ⟨rfl, hrest⟩ := List.eq_of_append_sep (h part List.mem_cons_self)
        (h' part' List.mem_cons_self) (List.append_cancel_left heq)
      rw [ih (fun p hp => h p (List.mem_cons_of_mem _ hp))
        (fun p hp => h' p (List.mem_cons_of_mem _ hp)) (List.cons.inj hrest).2]

/-! ### What the text tells -/

section Text

variable (scaled : Nat → Nat → Nat) (resize : RgbaImage → Nat → Nat → RgbaImage)
  {p q : RgbaImage}

/-- An image within the cap is encoded as it is. -/
theorem encodeColpic_of_le (h : p.width ≤ MAX_DIM ∧ p.height ≤ MAX_DIM) :
    encodeColpic scaled resize p =
      String.ofList (frame true (List.chunks CHUNK_SIZE (colpicEncodeStr p))) := by
  simp [encodeColpic, cappedDims, h]

theorem colpicEncodeStr_inj (h : colpicEncodeStr p = colpicEncodeStr q) :
    pad (colpicEncode p) = pad (colpicEncode q) := by
  have hpad : ∀ data : List UInt8, 3 ∣ (pad data).length := by
    intro data
    rw [pad, List.length_append, List.length_replicate]
    omega
  exact packGroups_injective (hpad _) (hpad _) h

/-- The same text is the same characters. -/
theorem colpicEncodeStr_eq_of_encodeColpic_eq (hp : p.width ≤ MAX_DIM ∧ p.height ≤ MAX_DIM)
    (hq : q.width ≤ MAX_DIM ∧ q.height ≤ MAX_DIM)
    (h : encodeColpic scaled resize p = encodeColpic scaled resize q) :
    colpicEncodeStr p = colpicEncodeStr q := by
  have hchunk : CHUNK_SIZE ≠ 0 := by decide
  have hnewline : ∀ rgba, ∀ part ∈ List.chunks CHUNK_SIZE (colpicEncodeStr rgba), '\n' ∉ part :=
    fun rgba part hpart hmem =>
      newline_notMem_packGroups _ (List.mem_of_mem_chunks hchunk hpart hmem)
  rw [encodeColpic_of_le scaled resize hp, encodeColpic_of_le scaled resize hq,
    String.ofList_inj] at h
  have hchunks := frame_injective (hnewline p) (hnewline q) h
  rw [← List.flatten_chunks hchunk (colpicEncodeStr p), hchunks, List.flatten_chunks hchunk]

theorem length_pixels565 (rgba : RgbaImage) :
    (pixels565 rgba).length = rgba.height * rgba.width := by
  simp [pixels565]

/-- The text tells which pixels have the same colour, and nothing else. -/
theorem encodeColpic_eq_iff (hp : p.width ≤ MAX_DIM ∧ p.height ≤ MAX_DIM)
    (hsize : p.width = q.width ∧ p.height = q.height)
    (hcolors : (pixels565 p).toFinset.card ≤ 1024) (hcolors' : (pixels565 q).toFinset.card ≤ 1024) :
    encodeColpic scaled resize p = encodeColpic scaled resize q ↔
      List.SamePattern (pixels565 p) (pixels565 q) := by
  have hq : q.width ≤ MAX_DIM ∧ q.height ≤ MAX_DIM := hsize.1 ▸ hsize.2 ▸ hp
  constructor
  · intro h
    have hbytes := colpicEncodeStr_inj
      (colpicEncodeStr_eq_of_encodeColpic_eq scaled resize hp hq h)
    have hplaces : ∀ rgba : RgbaImage, decodeRuns 0 (pad (colpicEncode rgba)) =
        (pixels565 rgba).map (indexOf (sortedPalette (pixels565 rgba) 1024)) := fun rgba =>
      decodeRuns_encodeRuns (fun c => indexOf_lt (by omega)) (Or.inl rfl) (by omega) _
    have hsame := (hplaces p).symm.trans ((congrArg (decodeRuns 0) hbytes).trans (hplaces q))
    have hpattern := List.samePattern_map (indexOf_injOn hcolors)
    have hpattern' := List.samePattern_map (indexOf_injOn hcolors')
    rw [hsame] at hpattern
    exact fun i j => (hpattern i j).trans (hpattern' i j).symm
  · intro h
    have hlength : (pixels565 p).length = (pixels565 q).length := by
      rw [length_pixels565, length_pixels565, hsize.1, hsize.2]
    obtain ⟨f, hf, hmap⟩ := List.exists_map_of_samePattern hlength h
    have hbytes : colpicEncode q = colpicEncode p := by
      rw [colpicEncode, hmap, byte8bitEncode_map hf, colpicEncode]
    rw [encodeColpic_of_le scaled resize hp, encodeColpic_of_le scaled resize hq,
      colpicEncodeStr, colpicEncodeStr, hbytes]

end Text

/-- The text determines the picture, except for another picture with the same pattern. -/
theorem colpic_determines_iff (scaled : Nat → Nat → Nat)
    (resize : RgbaImage → Nat → Nat → RgbaImage) {p q : RgbaImage}
    (hp : p.width ≤ MAX_DIM ∧ p.height ≤ MAX_DIM)
    (hsize : p.width = q.width ∧ p.height = q.height)
    (hcolors : (pixels565 p).toFinset.card ≤ 1024) (hcolors' : (pixels565 q).toFinset.card ≤ 1024) :
    (encodeColpic scaled resize p = encodeColpic scaled resize q → pixels565 p = pixels565 q) ↔
      pixels565 p = pixels565 q ∨ ¬ List.SamePattern (pixels565 p) (pixels565 q) := by
  rw [encodeColpic_eq_iff scaled resize hp hsize hcolors hcolors']
  tauto

/-- An image of one colour. -/
def plainImage (width height : Nat) (color : Rgba) : RgbaImage where
  width := width
  height := height
  getPixel _ _ := color

theorem pixels565_plainImage (color : Rgba) :
    pixels565 (plainImage 1 1 color) = [toRgb565 color.r color.g color.b] :=
  rfl

theorem card_plainImage (color : Rgba) : (pixels565 (plainImage 1 1 color)).toFinset.card ≤ 1024 := by
  simp [pixels565_plainImage]

/-- An image of red and blue pixels. -/
def twoColors (isRed : Nat → Nat → Bool) : RgbaImage where
  width := 4
  height := 3
  getPixel x y := if isRed x y then ⟨255, 0, 0, 255⟩ else ⟨0, 0, 255, 255⟩

/-- Stripes and a chessboard have different texts. -/
theorem colpic_determines_iff_twoColors :
    let encode := encodeColpic (fun _ _ => 0) fun rgba _ _ => rgba
    encode (twoColors fun x _ => x < 2) ≠ encode (twoColors fun x y => (x + y) % 2 = 0) := by
  intro encode hsame
  have hdetermines := (colpic_determines_iff (fun _ _ => 0) (fun rgba _ _ => rgba)
    (p := twoColors fun x _ => x < 2) (q := twoColors fun x y => (x + y) % 2 = 0)
    (by decide) ⟨rfl, rfl⟩ (by decide +kernel) (by decide +kernel)).mpr
    (.inr fun h => absurd (h 0 1) (by decide +kernel))
  exact absurd (hdetermines hsame) (by decide +kernel)

/-- One pixel has one text, whatever its colour. -/
theorem encodeColpic_plainImage (scaled : Nat → Nat → Nat)
    (resize : RgbaImage → Nat → Nat → RgbaImage) (color color' : Rgba) :
    encodeColpic scaled resize (plainImage 1 1 color) =
      encodeColpic scaled resize (plainImage 1 1 color') := by
  have hle : (plainImage 1 1 color).width ≤ MAX_DIM ∧ (plainImage 1 1 color).height ≤ MAX_DIM := by
    simp [plainImage, MAX_DIM]
  rw [encodeColpic_eq_iff (q := plainImage 1 1 color') scaled resize hle ⟨rfl, rfl⟩
    (card_plainImage color) (card_plainImage color'), pixels565_plainImage, pixels565_plainImage]
  exact List.samePattern_map (l := [toRgb565 color.r color.g color.b])
    (f := fun _ => toRgb565 color'.r color'.g color'.b)
    (fun c hc d hd _ => (List.mem_singleton.mp hc).trans (List.mem_singleton.mp hd).symm)

/-- A red and a blue pixel have the same text. -/
theorem red_and_blue_are_one_text :
    ¬ ∀ (scaled : Nat → Nat → Nat) (resize : RgbaImage → Nat → Nat → RgbaImage) (p q : RgbaImage),
      p.width ≤ MAX_DIM ∧ p.height ≤ MAX_DIM → p.width = q.width ∧ p.height = q.height →
      (pixels565 p).toFinset.card ≤ 1024 → (pixels565 q).toFinset.card ≤ 1024 →
      encodeColpic scaled resize p = encodeColpic scaled resize q → pixels565 p = pixels565 q := by
  intro h
  have hsame := h (fun _ _ => 0) (fun rgba _ _ => rgba) (plainImage 1 1 ⟨255, 0, 0, 255⟩)
    (plainImage 1 1 ⟨0, 0, 255, 255⟩) (by decide) ⟨rfl, rfl⟩ (card_plainImage _)
    (card_plainImage _) (encodeColpic_plainImage _ _ _ _)
  rw [pixels565_plainImage, pixels565_plainImage] at hsame
  exact absurd (List.cons.inj hsame).1 (by decide)

end PinchNPrint.GCode.Colpic
