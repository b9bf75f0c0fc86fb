/-
String operations with the behaviour of Rust's `str`.

Everything works on the list of characters, so the functions evaluate on
literals. `isWhitespace` is the Unicode `White_Space` property, which is what
`str::trim` removes. Integer parsing accepts an optional sign and at least one
ASCII digit and rejects what the type cannot hold; it does not trim.
-/

import Mathlib.Algebra.Group.Int.Defs
import Mathlib.Algebra.Group.Nat.Defs
import Mathlib.Data.List.Induction

namespace Text

/-- `char::is_whitespace`. -/
def isWhitespace (c : Char) : Bool :=
  let n := c.toNat
  (9 ≤ n && n ≤ 13) || n == 0x20 || n == 0x85 || n == 0xA0 || n == 0x1680 ||
    (0x2000 ≤ n && n ≤ 0x200A) || n == 0x2028 || n == 0x2029 || n == 0x202F || n == 0x205F ||
    n == 0x3000

/-- `str::trim`. -/
def trim (text : String) : String :=
  String.ofList <|
    ((text.toList.dropWhile isWhitespace).reverse.dropWhile isWhitespace).reverse

/-- `str::starts_with`. -/
def startsWith (text start : String) : Bool :=
  start.toList.isPrefixOf text.toList

/-- `str::ends_with`. -/
def endsWith (text final : String) : Bool :=
  final.toList.isSuffixOf text.toList

/-- `str::strip_suffix` with one character. -/
def stripSuffix (c : Char) (text : String) : Option String :=
  match text.toList.reverse with
  | last :: rest => if last == c then some (String.ofList rest.reverse) else none
  | [] => none

/-- What remains after a given beginning. -/
def stripStart (start text : String) : Option String :=
  if startsWith text start then some (String.ofList (text.toList.drop start.length)) else none

/-- What remains before a given end. -/
def stripEnd (final text : String) : Option String :=
  if endsWith text final then
    some (String.ofList (text.toList.take (text.length - final.length)))
  else none

/-- `str::split_once`: around the first separator. -/
def splitOnce (c : Char) (text : String) : Option (String × String) :=
  match text.toList.span (· != c) with
  | (_, []) => none
  | (before, _ :: after) => some (String.ofList before, String.ofList after)

/-- `str::rsplit_once`: around the last separator. -/
def rsplitOnce (c : Char) (text : String) : Option (String × String) :=
  match text.toList.reverse.span (· != c) with
  | (_, []) => none
  | (after, _ :: before) => some (String.ofList before.reverse, String.ofList after.reverse)

/-- The pieces between separators, empty ones included. -/
def pieces (c : Char) : List Char → List (List Char)
  | [] => [[]]
  | x :: rest =>
      match pieces c rest with
      | [] => [[]]
      | piece :: others => if x == c then [] :: piece :: others else (x :: piece) :: others

/-- `str::split` with one character. -/
def split (c : Char) (text : String) : List String :=
  (pieces c text.toList).map String.ofList

/-- `[&str]::join` with one character. -/
def join (c : Char) (parts : List String) : String :=
  String.ofList ([c].intercalate (parts.map String.toList))

/-- The pieces between the characters of a class, empty ones included. -/
def piecesBy (sep : Char → Bool) : List Char → List (List Char)
  | [] => [[]]
  | x :: rest =>
      match piecesBy sep rest with
      | [] => [[]]
      | piece :: others => if sep x then [] :: piece :: others else (x :: piece) :: others

/-- The nonempty pieces between whitespace. -/
def tokens (text : List Char) : List (List Char) :=
  (piecesBy isWhitespace text).filter (!·.isEmpty)

/-- `str::split_whitespace`. -/
def splitWhitespace (text : String) : List String :=
  (tokens text.toList).map String.ofList

/-- The text between line feeds. -/
def lines (text : String) : List String :=
  (piecesBy (· == '\n') text.toList).map String.ofList

/-- `char::to_ascii_lowercase`. -/
def asciiLower (c : Char) : Char :=
  if 'A' ≤ c && c ≤ 'Z' then Char.ofNat (c.toNat + 32) else c

/-- `str::eq_ignore_ascii_case`. -/
def eqIgnoreAsciiCase (left right : String) : Bool :=
  left.toList.map asciiLower == right.toList.map asciiLower

/-- The value of a nonempty run of ASCII digits. -/
def parseDigits (digits : List Char) : Option Nat :=
  if digits.isEmpty || !digits.all Char.isDigit then none
  else some (digits.foldl (fun n c => n * 10 + (c.toNat - '0'.toNat)) 0)

/-- `str::parse::<u32>`. -/
def parseU32 (text : String) : Option Nat :=
  let magnitude := match text.toList with
    | '+' :: digits => parseDigits digits
    | digits => parseDigits digits
  magnitude.filter (· < 2 ^ 32)

/-- `str::parse::<i64>`. -/
def parseI64 (text : String) : Option Int :=
  let value : Option Int := match text.toList with
    | '+' :: digits => (parseDigits digits).map Int.ofNat
    | '-' :: digits => (parseDigits digits).map fun n => -Int.ofNat n
    | digits => (parseDigits digits).map Int.ofNat
  value.filter fun n => -2 ^ 63 ≤ n && n < 2 ^ 63

/-! ### What the tests mean -/

variable {start text : String} {sep : Char → Bool} {x c : Char}

theorem startsWith_iff : startsWith text start = true ↔ ∃ rest, text = start ++ rest := by
  rw [startsWith, List.isPrefixOf_iff_prefix]
  constructor
  · rintro ⟨rest, hrest⟩
    refine ⟨String.ofList rest, String.toList_injective ?_⟩
    rw [String.toList_append, String.toList_ofList, hrest]
  · rintro ⟨rest, rfl⟩
    exact ⟨rest.toList, (String.toList_append ..).symm⟩

theorem endsWith_iff {final : String} :
    endsWith text final = true ↔ ∃ start, text = start ++ final := by
  rw [endsWith, List.isSuffixOf_iff_suffix]
  constructor
  · rintro ⟨start, hstart⟩
    refine ⟨String.ofList start, String.toList_injective ?_⟩
    rw [String.toList_append, String.toList_ofList, hstart]
  · rintro ⟨start, rfl⟩
    exact ⟨start.toList, (String.toList_append ..).symm⟩

theorem stripStart_eq_some_iff {rest : String} :
    stripStart start text = some rest ↔ text = start ++ rest := by
  have hdrop : ∀ rest : String, String.ofList ((start ++ rest).toList.drop start.length) = rest := by
    intro rest
    apply String.toList_injective
    rw [String.toList_ofList, String.toList_append, ← String.length_toList, List.drop_left]
  rw [stripStart]
  split
  · rename_i h
    obtain ⟨rest', rfl⟩ := startsWith_iff.mp h
    rw [hdrop, Option.some.injEq]
    constructor
    · rintro rfl
      rfl
    · intro heq
      rw [← hdrop rest', heq, hdrop]
  · rename_i h
    constructor
    · nofun
    · intro heq
      exact absurd (startsWith_iff.mpr ⟨rest, heq⟩) h

theorem stripEnd_eq_some_iff {final : String} :
    stripEnd final text = some start ↔ text = start ++ final := by
  have htake : ∀ start : String, String.ofList
      ((start ++ final).toList.take ((start ++ final).length - final.length)) = start := by
    intro start
    apply String.toList_injective
    rw [String.toList_ofList, String.toList_append, String.length_append, Nat.add_sub_cancel,
      ← String.length_toList, List.take_left]
  rw [stripEnd]
  split
  · rename_i h
    obtain ⟨start', rfl⟩ := endsWith_iff.mp h
    rw [htake, Option.some.injEq]
    constructor
    · rintro rfl
      rfl
    · intro heq
      rw [← htake start', heq, htake]
  · rename_i h
    constructor
    · nofun
    · intro heq
      exact absurd (endsWith_iff.mpr ⟨start, heq⟩) h

/-! ### Words of a text -/

theorem piecesBy_ne_nil (sep : Char → Bool) (text : List Char) : piecesBy sep text ≠ [] := by
  cases text with
  | nil => exact List.cons_ne_nil _ _
  | cons x rest =>
    rw [piecesBy]
    split
    · exact List.cons_ne_nil _ _
    · split <;> exact List.cons_ne_nil _ _

theorem piecesBy_cons_sep (hx : sep x = true) (rest : List Char) :
    piecesBy sep (x :: rest) = [] :: piecesBy sep rest := by
  obtain ⟨piece, others, h⟩ := List.exists_cons_of_ne_nil (piecesBy_ne_nil sep rest)
  simp only [piecesBy, h, hx, if_true]

theorem piecesBy_cons_char (hx : sep x = false) {rest : List Char} {piece : List Char}
    {others : List (List Char)} (h : piecesBy sep rest = piece :: others) :
    piecesBy sep (x :: rest) = (x :: piece) :: others := by
  simp only [piecesBy, h, hx, Bool.false_eq_true, if_false]

theorem tokens_dropWhile (text : List Char) :
    tokens (text.dropWhile isWhitespace) = tokens text := by
  induction text with
  | nil => rfl
  | cons x rest ih =>
    rw [List.dropWhile_cons]
    split
    case isTrue hx =>
      rw [ih, tokens, tokens, piecesBy_cons_sep hx]
      rfl
    case isFalse => rfl

theorem piecesBy_append_sep (hx : sep x = true) (text : List Char) :
    piecesBy sep (text ++ [x]) = piecesBy sep text ++ [[]] := by
  induction text with
  | nil => exact piecesBy_cons_sep hx []
  | cons y rest ih =>
    obtain ⟨piece, others, h⟩ := List.exists_cons_of_ne_nil (piecesBy_ne_nil sep rest)
    by_cases hy : sep y = true
    · rw [List.cons_append, piecesBy_cons_sep hy, piecesBy_cons_sep hy, ih, List.cons_append]
    · rw [h, List.cons_append] at ih
      have hy := Bool.not_eq_true _ ▸ hy
      rw [List.cons_append, piecesBy_cons_char hy ih, piecesBy_cons_char hy h, List.cons_append]

theorem tokens_rdropWhile (text : List Char) :
    tokens (text.reverse.dropWhile isWhitespace).reverse = tokens text := by
  induction text using List.reverseRecOn with
  | nil => rfl
  | append_singleton rest x ih =>
    rw [List.reverse_concat, List.dropWhile_cons]
    split
    case isTrue hx =>
      rw [ih, tokens, tokens, piecesBy_append_sep hx, List.filter_append]
      exact (List.append_nil _).symm
    case isFalse => rw [List.reverse_cons, List.reverse_reverse]

/-- Trimming keeps the words. -/
theorem splitWhitespace_trim (text : String) :
    splitWhitespace (trim text) = splitWhitespace text := by
  rw [splitWhitespace, trim, String.toList_ofList, tokens_rdropWhile, tokens_dropWhile,
    splitWhitespace]

/-! ### Pieces of a text -/

theorem pieces_eq_splitOn (c : Char) (text : List Char) : pieces c text = text.splitOn c := by
  induction text with
  | nil => rfl
  | cons x rest ih =>
    obtain ⟨piece, others, h⟩ := List.exists_cons_of_ne_nil (List.splitOn_ne_nil c rest)
    rw [pieces, ih, List.splitOn_cons_eq_if_modifyHead, h]
    rfl

theorem map_toList_split (c : Char) (text : String) :
    (split c text).map String.toList = text.toList.splitOn c := by
  rw [split, List.map_map, pieces_eq_splitOn]
  have hmap : String.toList ∘ String.ofList = id := by
    funext l
    exact String.toList_ofList
  rw [hmap, List.map_id]

/-- Joining the pieces of a text gives the text. -/
theorem join_split (c : Char) (text : String) : join c (split c text) = text := by
  rw [join, map_toList_split, List.intercalate_splitOn, String.ofList_toList]

/-- Parts without the separator are the pieces of their join. -/
theorem split_join {parts : List String} (hparts : ∀ part ∈ parts, c ∉ part.toList)
    (hne : parts ≠ []) : split c (join c parts) = parts := by
  rw [split, join, String.toList_ofList, pieces_eq_splitOn, List.splitOn_intercalate c]
  · simp
  · simpa using hparts
  · simpa using hne

theorem notMem_of_mem_pieces {text part : List Char} (h : part ∈ pieces c text) : c ∉ part := by
  induction text generalizing part with
  | nil =>
    rw [List.mem_singleton.mp h]
    exact List.not_mem_nil
  | cons x rest ih =>
    rw [pieces_eq_splitOn, List.splitOn_cons_eq_if_modifyHead, ← pieces_eq_splitOn] at h
    split at h
    · rcases List.mem_cons.mp h with rfl | hmem
      · exact List.not_mem_nil
      · exact ih hmem
    · rename_i hx
      cases hrest : pieces c rest with
      | nil => simp [hrest] at h
      | cons piece others =>
        rw [hrest] at h ih
        rcases List.mem_cons.mp h with rfl | hmem
        · have hpiece := ih List.mem_cons_self
          simp only [beq_iff_eq] at hx
          simp [hpiece, Ne.symm hx]
        · exact ih (List.mem_cons_of_mem piece hmem)

/-- No piece of a text has the separator. -/
theorem notMem_of_mem_split {part : String} (h : part ∈ split c text) : c ∉ part.toList := by
  obtain ⟨chars, hchars, rfl⟩ := List.mem_map.mp h
  rw [String.toList_ofList]
  exact notMem_of_mem_pieces hchars

/-- A text that starts with a word and a separator has the word as its first piece. -/
theorem split_of_startsWith {word : String} (hword : c ∉ word.toList)
    (h : startsWith text (word ++ String.singleton c) = true) :
    ∃ others, split c text = word :: others := by
  obtain ⟨rest, hrest⟩ := startsWith_iff.mp h
  have htext : text.toList = word.toList ++ c :: rest.toList := by
    rw [hrest]
    simp
  refine ⟨split c rest, ?_⟩
  rw [split, pieces_eq_splitOn, htext, List.splitOn_append_cons_self_of_not_mem hword,
    List.map_cons, String.ofList_toList, split, pieces_eq_splitOn]

/-! ### Numerals -/

theorem trim_of_forall (h : ∀ c ∈ text.toList, isWhitespace c = false) : trim text = text := by
  have hdrop : ∀ chars : List Char, (∀ c ∈ chars, isWhitespace c = false) →
      chars.dropWhile isWhitespace = chars := by
    intro chars hchars
    cases chars with
    | nil => rfl
    | cons c rest => rw [List.dropWhile_cons, hchars c List.mem_cons_self]; rfl
  rw [trim, hdrop _ h, hdrop _ (fun c hc => h c (List.mem_reverse.mp hc)), List.reverse_reverse,
    String.ofList_toList]

theorem parseDigits_of_digits {digits : List Char} (hne : digits ≠ [])
    (hdigits : ∀ c ∈ digits, c.isDigit = true) :
    parseDigits digits = some (Nat.ofDigitChars 10 digits 0) := by
  rw [parseDigits, if_neg, Nat.ofDigitChars_eq_foldl]
  · congr 1
    congr 1
    funext n c
    rw [Nat.mul_comm]
  · simpa [hne] using hdigits

theorem parseDigits_toDigits (n : Nat) : parseDigits (Nat.toDigits 10 n) = some n := by
  rw [parseDigits_of_digits Nat.toDigits_ne_nil fun c hc =>
    Nat.isDigit_of_mem_toDigits (by decide) (by decide) hc, Nat.ofDigitChars_ten_toDigits]

/-- A number in range is read back from its decimal text. -/
theorem parseI64_toString {n : Int} (hlow : -2 ^ 63 ≤ n) (hhigh : n < 2 ^ 63) :
    parseI64 (toString n) = some n := by
  have hrange : (decide (-2 ^ 63 ≤ n) && decide (n < 2 ^ 63)) = true := by
    rw [decide_eq_true hlow, decide_eq_true hhigh]
    rfl
  unfold parseI64
  rw [Int.toString_eq_repr, Int.repr_eq_if]
  by_cases hn : 0 ≤ n
  · rw [if_pos hn, Nat.toList_repr]
    have hsign : ∀ c rest, Nat.toDigits 10 n.toNat = c :: rest → c.isDigit = true :=
      fun c rest h => Nat.isDigit_of_mem_toDigits (by decide) (by decide) (h ▸ List.mem_cons_self)
    split
    · rename_i h
      exact absurd (hsign _ _ h) (by decide)
    · rename_i h
      exact absurd (hsign _ _ h) (by decide)
    · rw [parseDigits_toDigits, Option.map_some, Int.ofNat_eq_natCast, Int.toNat_of_nonneg hn,
        Option.filter_some, if_pos hrange]
  · rw [if_neg hn, String.toList_append, Nat.toList_repr]
    change Option.filter _ ((parseDigits (Nat.toDigits 10 (-n).toNat)).map _) = _
    rw [parseDigits_toDigits, Option.map_some, Int.ofNat_eq_natCast,
      Int.toNat_of_nonneg (by omega), Int.neg_neg, Option.filter_some, if_pos hrange]

/-- The characters of a decimal text. -/
theorem mem_toList_toString {n : Int} (h : c ∈ (toString n).toList) :
    c = '-' ∨ c.isDigit = true := by
  rw [Int.toString_eq_repr, Int.repr_eq_if] at h
  split at h
  · rw [Nat.toList_repr] at h
    exact .inr (Nat.isDigit_of_mem_toDigits (by decide) (by decide) h)
  · rw [String.toList_append, Nat.toList_repr] at h
    rcases List.mem_append.mp h with hsign | hdigit
    · exact .inl (List.mem_singleton.mp hsign)
    · exact .inr (Nat.isDigit_of_mem_toDigits (by decide) (by decide) hdigit)

end Text
