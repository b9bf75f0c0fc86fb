/-
Placeholders of machine start and end G-code (core module `machine-gcode-emit`: `lib.rs`).

`substitutePlaceholders` scans the bytes of a template once, with one cursor for the scan and one
for the start of the literal text that is still to be copied. `Parses` says what a template
consists of: literal characters, bracketed keys, and lines left literal from an unclosed bracket
on. The scan renders just that (`substitutePlaceholders_exact`). A slice off a character
boundary would panic: then the model has no result.

The loop has fuel, one step for each byte and one more.
-/

import PinchNPrint.Lib.Coding
import PinchNPrint.Lib.Collections
import PinchNPrint.Lib.Utf8
import Mathlib.Data.String.Basic

namespace PinchNPrint.GCode

open Utf8

/-! ### The scan -/

/-- The scan for the bracket that closes: where it stands, if there is one on the line, and where
the scan ended. -/
def findClose : List UInt8 → Nat → Option Nat × Nat
  | [], j => (none, j)
  | b :: rest, j =>
    if b = byte '\n' then (none, j)
    else if b = byte ']' then (some j, j)
    else findClose rest (j + 1)

/-- The loop of `substitute_placeholders`: `i` is the scan position, and the literal text from
`runStart` on is still to be copied. -/
def substituteFrom (template : List Char) (lookup : String → Option String) :
    Nat → Nat → Nat → List Char → BTreeSet String → Option (List Char × BTreeSet String)
  | 0, _, _, _, _ => none
  | fuel + 1, i, runStart, out, unresolved =>
    match (encode template)[i]? with
    | none => do
      let run ← slice template runStart (size template)
      return (out ++ run, unresolved)
    | some b =>
      if b ≠ byte '[' then substituteFrom template lookup fuel (i + 1) runStart out unresolved
      else do
        let run ← slice template runStart i
        match findClose ((encode template).drop (i + 1)) (i + 1) with
        | (some stop, _) =>
          let key ← slice template (i + 1) stop
          match lookup (String.ofList key) with
          | some val =>
            substituteFrom template lookup fuel (stop + 1) (stop + 1)
              (out ++ run ++ val.toList) unresolved
          | none =>
            let verbatim ← slice template i (stop + 1)
            substituteFrom template lookup fuel (stop + 1) (stop + 1)
              (out ++ run ++ verbatim) (unresolved.insert (String.ofList key))
        | (none, lineEnd) =>
          let line ← slice template i lineEnd
          substituteFrom template lookup fuel lineEnd lineEnd (out ++ run ++ line) unresolved

def substitutePlaceholders (template : String) (lookup : String → Option String) :
    Option (String × List String) :=
  (substituteFrom template.toList lookup (size template.toList + 1) 0 0 [] ∅).map
    fun (out, unresolved) => (String.ofList out, unresolved.toList)

/-! ### What a template consists of -/

/-- A part of a template. -/
inductive TemplatePart where
  | literal (text : List Char)
  | key (name : List Char)
deriving DecidableEq

/-- A template in its parts. -/
inductive Parses : List Char → List TemplatePart → Prop
  | nil : Parses [] []
  | char {c : Char} {rest : List Char} {parts : List TemplatePart} : c ≠ '[' →
      Parses rest parts → Parses (c :: rest) (.literal [c] :: parts)
  | key {name rest : List Char} {parts : List TemplatePart} : ']' ∉ name → '\n' ∉ name →
      Parses rest parts → Parses ('[' :: (name ++ ']' :: rest)) (.key name :: parts)
  | unclosed {line rest : List Char} {parts : List TemplatePart} : ']' ∉ line → '\n' ∉ line →
      (∀ c ∈ rest.head?, c = '\n') → Parses rest parts →
      Parses ('[' :: (line ++ rest)) (.literal ('[' :: line) :: parts)

/-- A part as it stands in the template. -/
def TemplatePart.source : TemplatePart → List Char
  | .literal text => text
  | .key name => '[' :: (name ++ [']'])

/-- A part as it is put out. -/
def TemplatePart.render (lookup : String → Option String) : TemplatePart → List Char
  | .literal text => text
  | .key name =>
    match lookup (String.ofList name) with
    | some val => val.toList
    | none => (TemplatePart.key name).source

/-- The keys without an entry, with those found so far. -/
def TemplatePart.collect (lookup : String → Option String) (unresolved : BTreeSet String) :
    TemplatePart → BTreeSet String
  | .literal _ => unresolved
  | .key name =>
    if lookup (String.ofList name) = none then unresolved.insert (String.ofList name)
    else unresolved

theorem exists_parses (text : List Char) : ∃ parts, Parses text parts := by
  induction hn : text.length using Nat.strong_induction_on generalizing text with
  | _ n ih =>
    cases text with
    | nil => exact ⟨[], .nil⟩
    | cons c rest =>
      rw [List.length_cons] at hn
      by_cases hc : c = '['
      · subst hc
        set inside : Char → Bool := fun c => c ≠ ']' && c ≠ '\n' with hinside
        have hsplit := List.takeWhile_append_dropWhile (p := inside) (l := rest)
        have htake : ∀ c ∈ rest.takeWhile inside, c ≠ ']' ∧ c ≠ '\n' := by
          intro c hc
          simpa [hinside] using List.mem_takeWhile_imp hc
        have hclose : ']' ∉ rest.takeWhile inside := fun hmem => (htake _ hmem).1 rfl
        have hline : '\n' ∉ rest.takeWhile inside := fun hmem => (htake _ hmem).2 rfl
        have hlength := congrArg List.length hsplit
        rw [List.length_append] at hlength
        cases htail : rest.dropWhile inside with
        | nil =>
          have hparses := Parses.unclosed hclose hline (by simp) Parses.nil
          rw [← htail, hsplit] at hparses
          exact ⟨_, hparses⟩
        | cons stop tail =>
          have hstop : inside stop = false := by
            have hnot := List.head_dropWhile_not inside (l := rest) (by simp [htail])
            simpa [htail] using hnot
          rw [htail, List.length_cons] at hlength
          by_cases hend : stop = ']'
          · subst hend
            obtain ⟨parts, hsegments⟩ := ih tail.length (by omega) tail rfl
            have hparses := Parses.key hclose hline hsegments
            rw [← htail, hsplit] at hparses
            exact ⟨_, hparses⟩
          · have hnewline : stop = '\n' := by
              simpa [hinside, hend] using hstop
            obtain ⟨parts, hsegments⟩ := ih (tail.length + 1) (by omega) (stop :: tail) rfl
            have hparses := Parses.unclosed hclose hline (by simpa using hnewline) hsegments
            rw [← htail, hsplit] at hparses
            exact ⟨_, hparses⟩
      · obtain ⟨parts, hsegments⟩ := ih rest.length (by omega) rest rfl
        exact ⟨_, .char hc hsegments⟩

/-- A line that is left literal holds no closing bracket: it does not begin with a key. -/
theorem key_ne_unclosed {name rest line rest' : List Char} (hname : '\n' ∉ name)
    (hline : ']' ∉ line) (hend : ∀ c ∈ rest'.head?, c = '\n') :
    name ++ ']' :: rest ≠ line ++ rest' := by
  intro heq
  rcases List.append_eq_append_iff.mp heq with ⟨tail, rfl, htail⟩ | ⟨tail, rfl, htail⟩
  · cases tail with
    | nil =>
      have hrest : rest' = ']' :: rest := htail.symm
      have hstop := hend ']' (by simp [hrest])
      revert hstop
      decide
    | cons c tail =>
      obtain ⟨rfl, -⟩ := List.cons.inj htail
      exact hline (by simp)
  · cases tail with
    | nil =>
      have hstop := hend ']' (by simp [htail])
      revert hstop
      decide
    | cons c tail =>
      have hstop := hend c (by simp [htail])
      subst hstop
      exact hname (by simp)

/-- Lines that are left literal end where the line ends. -/
theorem unclosed_inj {line rest line' rest' : List Char} (hline : '\n' ∉ line)
    (hline' : '\n' ∉ line') (hend : ∀ c ∈ rest.head?, c = '\n')
    (hend' : ∀ c ∈ rest'.head?, c = '\n') (heq : line ++ rest = line' ++ rest') :
    line = line' ∧ rest = rest' := by
  cases rest with
  | nil =>
    cases rest' with
    | nil => exact ⟨by simpa using heq, rfl⟩
    | cons c' rest' =>
      cases hend' c' rfl
      exact absurd (by simp [show line = line' ++ '\n' :: rest' by simpa using heq]) hline
  | cons c rest =>
    cases hend c rfl
    cases rest' with
    | nil => exact absurd (by simp [show line' = line ++ '\n' :: rest by simpa using heq.symm]) hline'
    | cons c' rest' =>
      cases hend' c' rfl
      obtain ⟨rfl, rfl⟩ := List.eq_of_append_sep hline hline' heq
      exact ⟨rfl, rfl⟩

theorem Parses.unique {text : List Char} {parts parts' : List TemplatePart}
    (h : Parses text parts) (h' : Parses text parts') : parts' = parts := by
  induction h generalizing parts' with
  | nil =>
    cases h'
    rfl
  | char hc _ ih =>
    cases h' with
    | char _ hrest => rw [ih hrest]
    | key => exact absurd rfl hc
    | unclosed => exact absurd rfl hc
  | @key name rest parts hclose hline _ ih =>
    generalize htext : '[' :: (name ++ ']' :: rest) = text at h'
    cases h' with
    | nil => cases htext
    | char hc => exact absurd (List.cons.inj htext).1.symm hc
    | key hclose' _ hrest =>
      obtain ⟨rfl, rfl⟩ := List.eq_of_append_sep hclose hclose' (List.cons.inj htext).2
      rw [ih hrest]
    | unclosed hclose' _ hend _ =>
      exact absurd (List.cons.inj htext).2 (key_ne_unclosed hline hclose' hend)
  | @unclosed line rest parts hclose hline hend _ ih =>
    generalize htext : '[' :: (line ++ rest) = text at h'
    cases h' with
    | nil => cases htext
    | char hc => exact absurd (List.cons.inj htext).1.symm hc
    | key _ hline' _ =>
      exact absurd (List.cons.inj htext).2.symm (key_ne_unclosed hline' hclose hend)
    | unclosed _ hline' hend' hrest =>
      obtain ⟨rfl, rfl⟩ := unclosed_inj hline hline' hend hend' (List.cons.inj htext).2
      rw [ih hrest]

/-! ### The scan of the bytes -/

theorem findClose_skip {l : List UInt8} (hclose : byte ']' ∉ l) (hline : byte '\n' ∉ l)
    (rest : List UInt8) (j : Nat) : findClose (l ++ rest) j = findClose rest (j + l.length) := by
  induction l generalizing j with
  | nil => rfl
  | cons b l ih =>
    obtain ⟨hb, hclose⟩ := not_or.mp (mt List.mem_cons.mpr hclose)
    obtain ⟨hb', hline⟩ := not_or.mp (mt List.mem_cons.mpr hline)
    rw [List.cons_append, findClose, if_neg (Ne.symm hb'), if_neg (Ne.symm hb), ih hclose hline,
      List.length_cons, Nat.add_right_comm, Nat.add_assoc]

theorem byte_notMem_encode {a : Char} (ha : a.toNat < 128) {text : List Char} (h : a ∉ text) :
    byte a ∉ encode text := by
  intro hmem
  obtain ⟨c, hc, hbyte⟩ := List.mem_flatMap.mp hmem
  rw [byte_mem_utf8EncodeChar_iff ha] at hbyte
  exact h (hbyte ▸ hc)

theorem findClose_key {name : List Char} (hclose : ']' ∉ name) (hline : '\n' ∉ name)
    (rest : List Char) (j : Nat) :
    findClose (encode (name ++ ']' :: rest)) j = (some (j + size name), j + size name) := by
  rw [encode_append, findClose_skip (byte_notMem_encode (by decide) hclose)
    (byte_notMem_encode (by decide) hline), encode_cons, utf8EncodeChar_of_ascii (by decide)]
  rfl

theorem findClose_unclosed {line : List Char} (hclose : ']' ∉ line) (hline : '\n' ∉ line)
    {rest : List Char} (hend : ∀ c ∈ rest.head?, c = '\n') (j : Nat) :
    findClose (encode (line ++ rest)) j = (none, j + size line) := by
  rw [encode_append, findClose_skip (byte_notMem_encode (by decide) hclose)
    (byte_notMem_encode (by decide) hline)]
  cases rest with
  | nil => rfl
  | cons c rest =>
    cases hend c rfl
    rw [encode_cons, utf8EncodeChar_of_ascii (by decide)]
    rfl

section Loop

variable {template : List Char} {lookup : String → Option String} {out : List Char}
  {unresolved : BTreeSet String}

/-- Bytes other than the opening bracket are passed over. -/
theorem substituteFrom_skip {l rest : List UInt8} (hopen : byte '[' ∉ l) {i : Nat}
    (hrest : (encode template).drop i = l ++ rest) (fuel runStart : Nat) :
    substituteFrom template lookup (fuel + l.length) i runStart out unresolved =
      substituteFrom template lookup fuel (i + l.length) runStart out unresolved := by
  induction l generalizing i with
  | nil => rfl
  | cons b l ih =>
    obtain ⟨hb, hopen⟩ := not_or.mp (mt List.mem_cons.mpr hopen)
    have hget : (encode template)[i]? = some b := by
      have hhead := congrArg List.head? hrest
      rwa [List.head?_drop] at hhead
    have htail : (encode template).drop (i + 1) = l ++ rest := by
      rw [← List.drop_drop, hrest]
      rfl
    rw [List.length_cons, ← Nat.add_assoc, substituteFrom, hget]
    simp only [ne_eq, Ne.symm hb, not_false_eq_true, if_true]
    rw [ih hopen htail, Nat.add_right_comm, Nat.add_assoc]

/-- What the scan still sees behind a part of the template. -/
theorem drop_encode {before run rest : List Char} (htext : template = before ++ run ++ rest) :
    (encode template).drop (size before + size run) = encode rest := by
  rw [htext, encode_append, ← size_append]
  exact List.drop_left

/-- An opening bracket flushes the run before it, and the scan for the closing one begins. -/
theorem substituteFrom_open {before run tail : List Char}
    (htext : template = before ++ run ++ '[' :: tail) (fuel : Nat) :
    substituteFrom template lookup (fuel + 1) (size before + size run) (size before) out
        unresolved =
      (match findClose (encode tail) (size before + size run + 1) with
      | (some stop, _) => do
        let key ← slice template (size before + size run + 1) stop
        match lookup (String.ofList key) with
        | some val =>
          substituteFrom template lookup fuel (stop + 1) (stop + 1) (out ++ run ++ val.toList)
            unresolved
        | none =>
          let verbatim ← slice template (size before + size run) (stop + 1)
          substituteFrom template lookup fuel (stop + 1) (stop + 1) (out ++ run ++ verbatim)
            (unresolved.insert (String.ofList key))
      | (none, lineEnd) => do
        let line ← slice template (size before + size run) lineEnd
        substituteFrom template lookup fuel lineEnd lineEnd (out ++ run ++ line) unresolved) := by
  have hdrop := drop_encode htext
  have hget : (encode template)[size before + size run]? = some (byte '[') := by
    rw [← List.head?_drop, hdrop, encode_cons, utf8EncodeChar_of_ascii (by decide)]
    rfl
  have hnext : (encode template).drop (size before + size run + 1) = encode tail := by
    rw [← List.drop_drop, hdrop, encode_cons, utf8EncodeChar_of_ascii (by decide)]
    rfl
  have hslice : slice template (size before) (size before + size run) = some run :=
    slice_append _ _ htext rfl rfl
  rw [substituteFrom, hget, ← hnext]
  simp [hslice]

/-- The scan renders the parts that are left, and collects their keys. -/
theorem substituteFrom_of_parses {rest : List Char} {parts : List TemplatePart}
    (h : Parses rest parts) (out : List Char) (unresolved : BTreeSet String)
    (before run : List Char) (htext : template = before ++ run ++ rest)
    {fuel : Nat} (hfuel : size rest < fuel) :
    substituteFrom template lookup fuel (size before + size run) (size before) out unresolved =
      some (out ++ run ++ parts.flatMap (TemplatePart.render lookup),
        parts.foldl (TemplatePart.collect lookup) unresolved) := by
  induction h generalizing out unresolved before run fuel with
  | nil =>
    obtain ⟨fuel, rfl⟩ := Nat.exists_eq_succ_of_ne_zero (by omega : fuel ≠ 0)
    have hdrop := drop_encode htext
    have hget : (encode template)[size before + size run]? = none := by
      rw [← List.head?_drop, hdrop]
      rfl
    have hslice : slice template (size before) (size template) = some run :=
      slice_append _ _ htext rfl (by rw [htext, size_append, size_append, size_nil, Nat.add_zero])
    rw [substituteFrom, hget]
    simp [hslice]
  | @char c rest parts hc hrest ih =>
    have hdrop := drop_encode htext
    rw [encode_cons] at hdrop
    have hopen : byte '[' ∉ String.utf8EncodeChar c := by
      rw [byte_mem_utf8EncodeChar_iff (by decide)]
      exact hc
    rw [size_cons] at hfuel
    obtain ⟨fuel, rfl⟩ := Nat.exists_eq_add_of_le' (show (String.utf8EncodeChar c).length ≤ fuel
      by omega)
    have hnext := @ih out unresolved before (run ++ [c]) (by rw [htext]; simp) fuel (by omega)
    rw [size_append, size_cons, size_nil, Nat.add_zero, ← Nat.add_assoc] at hnext
    rw [substituteFrom_skip hopen hdrop, hnext]
    simp [TemplatePart.render, TemplatePart.collect]
  | @key name rest parts hclose hline hrest ih =>
    obtain ⟨fuel, rfl⟩ := Nat.exists_eq_succ_of_ne_zero (by omega : fuel ≠ 0)
    have hbracket : (String.utf8EncodeChar '[').length = 1 ∧
        (String.utf8EncodeChar ']').length = 1 := by decide
    have hkey : slice template (size before + size run + 1)
        (size before + size run + 1 + size name) = some name :=
      slice_append (before ++ run ++ ['[']) ( ']' :: rest) (by simp [htext])
        (by simp [hbracket, Nat.add_assoc]) rfl
    have hverbatim : slice template (size before + size run)
        (size before + size run + 1 + size name + 1) = some (TemplatePart.key name).source :=
      slice_append (before ++ run) rest (by simp [htext, TemplatePart.source])
        (by simp) (by simp [TemplatePart.source, hbracket]; omega)
    have hnext := fun out unresolved => @ih out unresolved
      (before ++ run ++ (TemplatePart.key name).source) []
      (by simp [htext, TemplatePart.source]) fuel (by simp [hbracket] at hfuel; omega)
    have hpos : size (before ++ run ++ (TemplatePart.key name).source) =
        size before + size run + 1 + size name + 1 := by
      simp [TemplatePart.source, hbracket]
      omega
    rw [hpos] at hnext
    rw [Nat.succ_eq_add_one, substituteFrom_open htext, findClose_key hclose hline]
    simp only [hkey, hverbatim, Option.bind_eq_bind, Option.bind_some]
    cases hlookup : lookup (String.ofList name) with
    | some val =>
      have hval := hnext (out ++ run ++ val.toList) unresolved
      simpa [TemplatePart.render, TemplatePart.collect, hlookup] using hval
    | none =>
      have hval := hnext (out ++ run ++ (TemplatePart.key name).source)
        (unresolved.insert (String.ofList name))
      simpa [TemplatePart.render, TemplatePart.collect, hlookup] using hval
  | @unclosed line rest parts hclose hline hend hrest ih =>
    obtain ⟨fuel, rfl⟩ := Nat.exists_eq_succ_of_ne_zero (by omega : fuel ≠ 0)
    have hbracket : (String.utf8EncodeChar '[').length = 1 := by decide
    have hliteral : slice template (size before + size run)
        (size before + size run + 1 + size line) = some ('[' :: line) :=
      slice_append (before ++ run) rest (by simp [htext]) (by simp)
        (by simp [hbracket]; omega)
    have hnext := @ih (out ++ run ++ '[' :: line) unresolved (before ++ run ++ '[' :: line) []
      (by simp [htext]) fuel (by simp [hbracket] at hfuel; omega)
    have hpos : size (before ++ run ++ '[' :: line) = size before + size run + 1 + size line := by
      simp [hbracket]
      omega
    rw [hpos] at hnext
    rw [Nat.succ_eq_add_one, substituteFrom_open htext, findClose_unclosed hclose hline hend]
    simp only [hliteral, Option.bind_eq_bind, Option.bind_some]
    simpa [TemplatePart.render, TemplatePart.collect] using hnext

end Loop

/-! ### The whole template -/

theorem mem_foldl_collect {lookup : String → Option String} {parts : List TemplatePart}
    {key : String} :
    key ∈ parts.foldl (TemplatePart.collect lookup) ∅ ↔
      TemplatePart.key key.toList ∈ parts ∧ lookup key = none := by
  have hstep : ∀ (unresolved : BTreeSet String) (part : TemplatePart),
      key ∈ TemplatePart.collect lookup unresolved part ↔
        key ∈ unresolved ∨ part = .key key.toList ∧ lookup key = none := by
    intro unresolved part
    cases part with
    | literal text => simp [TemplatePart.collect]
    | key name =>
      have hname : TemplatePart.key name = .key key.toList ↔ String.ofList name = key := by
        rw [TemplatePart.key.injEq]
        constructor
        · rintro rfl
          exact String.ofList_toList
        · rintro rfl
          exact String.toList_ofList.symm
      rw [TemplatePart.collect, hname]
      split_ifs with hlookup
      · rw [Std.ExtTreeSet.mem_insert, Std.compare_eq_iff_eq, or_comm]
        constructor
        · rintro (hmem | rfl)
          · exact Or.inl hmem
          · exact Or.inr ⟨rfl, hlookup⟩
        · rintro (hmem | ⟨rfl, -⟩)
          · exact Or.inl hmem
          · exact Or.inr rfl
      · constructor
        · exact Or.inl
        · rintro (hmem | ⟨rfl, hnone⟩)
          · exact hmem
          · exact absurd hnone hlookup
  rw [@List.foldl_collects _ _ _ (fun found : BTreeSet String => key ∈ found) _ hstep]
  simp

/-- The scan ends, and puts out the template with every key of the table replaced; it reports the
keys that are not in the table. -/
theorem substitutePlaceholders_exact (template : String) (lookup : String → Option String) :
    ∃ parts unresolved, Parses template.toList parts ∧
      (∀ other, Parses template.toList other → other = parts) ∧
      substitutePlaceholders template lookup =
        some (String.ofList (parts.flatMap (TemplatePart.render lookup)), unresolved) ∧
      unresolved.Pairwise (· < ·) ∧
      ∀ key, key ∈ unresolved ↔ TemplatePart.key key.toList ∈ parts ∧ lookup key = none := by
  obtain ⟨parts, hsegments⟩ := exists_parses template.toList
  refine ⟨parts, (parts.foldl (TemplatePart.collect lookup) ∅).toList, hsegments,
    fun other hother => hsegments.unique hother, ?_, ?_, ?_⟩
  · have hrun := @substituteFrom_of_parses _ lookup _ _ hsegments [] ∅ [] [] rfl _ (Nat.lt_succ_self _)
    simp only [size_nil, Nat.add_zero, List.nil_append] at hrun
    rw [substitutePlaceholders, hrun]
    rfl
  · refine Std.ExtTreeSet.ordered_toList.imp ?_
    intro a b hab
    exact compare_lt_iff_lt.mp hab
  · intro key
    rw [Std.ExtTreeSet.mem_toList, mem_foldl_collect]

end PinchNPrint.GCode
