import TokenProxy.Lib.JsonText
import Mathlib.Data.List.TakeDrop
import Mathlib.Tactic.Ring

/-!
# Eliding the middle of a long text

`elide.js`: of a text that no other filter has claimed the head and the tail stay, and a marker says
how many units were between them and carries a digest of these. Texts are lists of UTF-16 code
units.
-/

namespace TokenProxy.Compression

open Lib.JsonText (CodeUnit Text)

def elideMinChars : ℕ := 4000

def elideHeadChars : ℕ := 1500

def elideTailChars : ℕ := 1000

def elideNewlineWindow : ℕ := 100

def newline : CodeUnit := 10

def units (s : String) : Text := s.toList.map Char.toNat

/-- `text.indexOf(unit, start)` -/
def indexOf (unit : CodeUnit) (text : Text) (start : ℕ) : Option ℕ := 
  (List.range' start (text.length - start)).find? fun i => text[i]? = some unit

def isHighSurrogate (unit : ℕ) : Bool := 0xd800 ≤ unit && unit ≤ 0xdbff

def isLowSurrogate (unit : ℕ) : Bool := 0xdc00 ≤ unit && unit ≤ 0xdfff

def headCut (input : Text) : ℕ :=
  match indexOf newline input (elideHeadChars - elideNewlineWindow) with
  | some nl => if nl ≤ elideHeadChars + elideNewlineWindow - 1 then nl else elideHeadChars
  | none => elideHeadChars

def tailCut (input : Text) : ℕ :=
  match indexOf newline input (input.length - elideTailChars) with
  | some nl => if nl ≤ input.length - elideTailChars + elideNewlineWindow - 1 then nl + 1 else input.length - elideTailChars
  | none => input.length - elideTailChars

def headEnd (input : Text) : ℕ :=
  let cut := headCut input
  if cut > 0 ∧ cut < input.length ∧ (input[cut - 1]?).any isHighSurrogate ∧ (input[cut]?).any isLowSurrogate then cut - 1 else cut

def tailStart (input : Text) : ℕ :=
  let cut := tailCut input
  if cut > 0 ∧ cut < input.length ∧ (input[cut]?).any isLowSurrogate then cut + 1 else cut

/-- The keyed hash of a text under the key of the host, in hexadecimal. -/
structure Hmac where
  hexDigest : Text → Text
  length_hexDigest : ∀ text, (hexDigest text).length = 64

def elideMarker (hmac : Hmac) (middle : Text) : Text :=
  units "\n[elided " ++ units (Nat.repr middle.length) ++ units " chars · hmac " ++ (hmac.hexDigest middle).take 8 ++
    units " · head+tail preserved by tokenproxy]\n"

def elide (hmac : Hmac) (input : Text) : Option Text :=
  if input.length ≤ elideMinChars then none
  else
    let head := headEnd input
    let tail := tailStart input
    if head ≥ tail then none
    else
      let marker := elideMarker hmac ((input.take tail).drop head)
      if head + (input.length - tail) + marker.length ≥ input.length then none
      else some (input.take head ++ marker ++ input.drop tail)

/-! ### The cuts -/

theorem indexOf_eq_some {unit : CodeUnit} {text : Text} {start i : ℕ}
    (h : indexOf unit text start = some i) :
    start ≤ i ∧ text[i]? = some unit ∧ ∀ j, start ≤ j → j < i → text[j]? ≠ some unit := by
  rw [indexOf, List.find?_range'_eq_some] at h
  obtain ⟨hunit, hmem, hbefore⟩ := h
  rw [List.mem_range'_1] at hmem
  refine ⟨hmem.1, by simpa using hunit, fun j hj hji => ?_⟩
  simpa using hbefore j hj hji

theorem indexOf_eq_none {unit : CodeUnit} {text : Text} {start : ℕ}
    (h : indexOf unit text start = none) {j : ℕ} (hj : start ≤ j) :
    text[j]? ≠ some unit := by
  rw [indexOf, List.find?_eq_none] at h
  intro hunit
  have hlt := (List.getElem?_eq_some_iff.1 hunit).1
  exact h j (List.mem_range'_1.2 ⟨hj, by omega⟩) (by simpa using hunit)

theorem indexOf_of_first {unit : CodeUnit} {text : Text} {start i : ℕ} (hi : start ≤ i)
    (hunit : text[i]? = some unit)
    (hbefore : ∀ j, start ≤ j → j < i → text[j]? ≠ some unit) :
    indexOf unit text start = some i := by
  cases h : indexOf unit text start with
  | none => exact absurd hunit (indexOf_eq_none h hi)
  | some k =>
    obtain ⟨hk, hkunit, hkbefore⟩ := indexOf_eq_some h
    rcases Nat.lt_trichotomy k i with hlt | rfl | hlt
    · exact absurd hkunit (hbefore k hk hlt)
    · rfl
    · exact absurd hunit (hkbefore i hi hlt)

theorem elide_constants : elideMinChars = 4000 ∧ elideHeadChars = 1500 ∧ elideTailChars = 1000 ∧ elideNewlineWindow = 100 :=
  ⟨rfl, rfl, rfl, rfl⟩

def LateNewline (input : Text) : Prop :=
  elideMinChars < input.length ∧ ∃ nl, indexOf newline input (elideHeadChars - elideNewlineWindow) = some nl ∧ elideHeadChars < nl ∧
    nl < elideHeadChars + elideNewlineWindow

theorem headCut_bounds (input : Text) :
    elideHeadChars - elideNewlineWindow ≤ headCut input ∧ headCut input < elideHeadChars + elideNewlineWindow := by
  obtain ⟨-, hhead, -, hwindow⟩ := elide_constants
  unfold headCut
  cases h : indexOf newline input (elideHeadChars - elideNewlineWindow) with
  | none =>
    dsimp only
    omega
  | some nl =>
    have hle := (indexOf_eq_some h).1
    dsimp only
    split_ifs with hnl
    · exact ⟨hle, by omega⟩
    · exact ⟨by omega, by omega⟩

theorem headEnd_cases (input : Text) :
    headEnd input = headCut input ∨ headEnd input + 1 = headCut input := by
  rw [headEnd]
  split_ifs with h
  · exact Or.inr (Nat.sub_add_cancel h.1)
  · exact Or.inl rfl

theorem headCut_le {input : Text} (hlong : elideMinChars < input.length)
    (h : ¬ LateNewline input) : headCut input ≤ elideHeadChars := by
  obtain ⟨-, hhead, -, hwindow⟩ := elide_constants
  unfold headCut
  cases hnl : indexOf newline input (elideHeadChars - elideNewlineWindow) with
  | none => exact Nat.le_refl _
  | some nl =>
    dsimp only
    split_ifs with hle
    · by_contra hlt
      exact h ⟨hlong, nl, hnl, by omega, by omega⟩
    · exact Nat.le_refl _

theorem headEnd_of_late {input : Text} {nl : ℕ}
    (hnl : indexOf newline input (elideHeadChars - elideNewlineWindow) = some nl)
    (hlt : nl < elideHeadChars + elideNewlineWindow) : headEnd input = nl := by
  have hcut : headCut input = nl := by
    unfold headCut
    rw [hnl]
    exact if_pos (by omega)
  have hlow : (input[nl]?).any isLowSurrogate = false := by
    rw [(indexOf_eq_some hnl).2.1]
    rfl
  rw [headEnd, hcut, hlow]
  exact if_neg fun h => absurd h.2.2.2 Bool.false_ne_true

theorem tailCut_bounds (input : Text) :
    input.length - elideTailChars ≤ tailCut input ∧ tailCut input ≤ input.length - elideTailChars + elideNewlineWindow := by
  obtain ⟨-, -, -, hwindow⟩ := elide_constants
  unfold tailCut
  cases h : indexOf newline input (input.length - elideTailChars) with
  | none =>
    dsimp only
    omega
  | some nl =>
    have hle := (indexOf_eq_some h).1
    dsimp only
    split_ifs with hnl
    · exact ⟨by omega, by omega⟩
    · exact ⟨Nat.le_refl _, by omega⟩

theorem tailStart_cases (input : Text) :
    tailStart input = tailCut input ∨ tailStart input = tailCut input + 1 := by
  rw [tailStart]
  split_ifs
  · exact Or.inr rfl
  · exact Or.inl rfl

/-! ### Surrogate pairs -/

def SplitsPair (before after : Text) : Prop := (before.getLast?).any isHighSurrogate ∧ (after.head?).any isLowSurrogate

theorem low_not_high {unit : ℕ} (h : isLowSurrogate unit = true) :
    isHighSurrogate unit = false := by
  simp only [isLowSurrogate, Bool.and_eq_true, decide_eq_true_eq] at h
  cases hhigh : isHighSurrogate unit with
  | false => rfl
  | true =>
    simp only [isHighSurrogate, Bool.and_eq_true, decide_eq_true_eq] at hhigh
    omega

theorem not_high_and_low {unit : Option CodeUnit}
    (hhigh : unit.any isHighSurrogate = true) : ¬ unit.any isLowSurrogate = true := by
  intro hlow
  cases unit with
  | none => cases hhigh
  | some unit =>
    have := @low_not_high unit hlow
    rw [Option.any_some, this] at hhigh
    cases hhigh

theorem splitsPair_take_drop {input : Text} {i : ℕ} (h : SplitsPair (input.take i) (input.drop i)) :
    0 < i ∧ i < input.length ∧ (input[i - 1]?).any isHighSurrogate ∧ (input[i]?).any isLowSurrogate := by
  obtain ⟨hhigh, hlow⟩ := h
  rw [List.head?_drop] at hlow
  have hi : i < input.length := by
    by_contra hle
    rw [List.getElem?_eq_none (Nat.le_of_not_lt hle)] at hlow
    cases hlow
  have hpos : 0 < i := by
    by_contra hle
    obtain rfl : i = 0 := by omega
    cases hhigh
  refine ⟨hpos, hi, ?_, hlow⟩
  rw [List.getLast?_eq_getElem?, List.length_take, Nat.min_eq_left (Nat.le_of_lt hi),
    List.getElem?_take, if_pos (by omega)] at hhigh
  exact hhigh

theorem not_splitsPair_headEnd (input : Text) :
    ¬ SplitsPair (input.take (headEnd input)) (input.drop (headEnd input)) := by
  intro hsplit
  obtain ⟨hpos, hlt, hhigh, hlow⟩ := splitsPair_take_drop hsplit
  rw [headEnd] at hpos hlt hhigh hlow
  split_ifs at hpos hlt hhigh hlow with h
  · -- the unit that now comes behind the head is the first half of the pair
    exact not_high_and_low h.2.2.1 hlow
  · exact h ⟨hpos, hlt, hhigh, hlow⟩

theorem not_splitsPair_tailStart (input : Text) :
    ¬ SplitsPair (input.take (tailStart input)) (input.drop (tailStart input)) := by
  intro hsplit
  obtain ⟨hpos, hlt, hhigh, hlow⟩ := splitsPair_take_drop hsplit
  rw [tailStart] at hpos hlt hhigh hlow
  split_ifs at hpos hlt hhigh hlow with h
  · -- the unit in front of the tail is the second half of a pair, or stands alone
    rw [Nat.add_sub_cancel] at hhigh
    exact not_high_and_low hhigh h.2.2
  · exact h ⟨hpos, hlt, hlow⟩

/-! ### The marker -/

theorem length_units (s : String) : (units s).length = s.toList.length := List.length_map ..

theorem length_elideMarker (hmac : Hmac) (middle : Text) :
    (elideMarker hmac middle).length = 69 + (Nat.toDigits 10 middle.length).length := by
  rw [elideMarker]
  simp only [List.length_append, length_units, Nat.toList_repr, List.length_take, hmac.length_hexDigest]
  have h : "\n[elided ".toList.length = 9 ∧ " chars · hmac ".toList.length = 14 ∧
      " · head+tail preserved by tokenproxy]\n".toList.length = 38 := by decide
  omega

theorem head?_elideMarker (hmac : Hmac) (middle : Text) :
    (elideMarker hmac middle)[0]? = some newline := by
  have h : units "\n[elided " = newline :: units "[elided " := by decide
  rw [elideMarker, h]
  rfl

theorem tailStart_bounds (input : Text) :
    input.length - elideTailChars ≤ tailStart input ∧ tailStart input ≤ input.length - elideTailChars + elideNewlineWindow + 1 := by
  obtain ⟨hle, hge⟩ := tailCut_bounds input
  rcases tailStart_cases input with h | h <;> rw [h] <;> omega

theorem headEnd_lt (input : Text) : headEnd input < elideHeadChars + elideNewlineWindow := by
  have := (headCut_bounds input).2
  rcases headEnd_cases input with h | h <;> omega

theorem elide_of_long {hmac : Hmac} {input : Text} (hlong : elideMinChars < input.length) :
    elide hmac input =
      let marker := elideMarker hmac ((input.take (tailStart input)).drop (headEnd input))
      if headEnd input + (input.length - tailStart input) + marker.length ≥ input.length then none
      else some (input.take (headEnd input) ++ marker ++ input.drop (tailStart input)) := by
  obtain ⟨hmin, hhead, htail, hwindow⟩ := elide_constants
  have hlt := headEnd_lt input
  have hge := (tailStart_bounds input).1
  unfold elide
  rw [if_neg (by omega)]
  dsimp only
  rw [if_neg (by omega)]

/-- The text that stays, with the marker between its halves; the head
has at most `maxHead` units. -/
def Elides (maxHead : ℕ) (hmac : Hmac) (input out : Text) : Prop :=
  ∃ head middle tail, input = head ++ middle ++ tail ∧ out = head ++ elideMarker hmac middle ++ tail ∧
    head.length ≤ maxHead ∧ tail.length ≤ elideTailChars ∧ ¬ SplitsPair head (middle ++ tail) ∧ ¬ SplitsPair (head ++ middle) tail

/-- What eliding a text has to do: it declines, or what comes out is shorter and
will not be elided once more. -/
def Exact (maxHead : ℕ) (hmac : Hmac) (input : Text) : Prop :=
  ∀ out, elide hmac input = some out → out.length < input.length ∧ Elides maxHead hmac input out ∧ elide hmac out = none

theorem split_at (input : Text) {i j : ℕ} (hij : i ≤ j) :
    input = input.take i ++ (input.take j).drop i ++ input.drop j ∧ input.take i ++ (input.take j).drop i = input.take j ∧
      (input.take j).drop i ++ input.drop j = input.drop i := by
  have hfront : input.take i ++ (input.take j).drop i = input.take j := by
    have := List.take_append_drop i (input.take j)
    rwa [List.take_take, Nat.min_eq_left hij] at this
  have hall := List.take_append_drop j input
  refine ⟨by rw [hfront, hall], hfront, ?_⟩
  have h : input.take i ++ ((input.take j).drop i ++ input.drop j) = input.take i ++ input.drop i := by
    rw [← List.append_assoc, hfront, hall, List.take_append_drop]
  exact List.append_cancel_left h

theorem length_digits_le {n : ℕ} (h : n < 2 ^ 53) : (Nat.toDigits 10 n).length ≤ 16 := by
  rw [Nat.length_toDigits_le_iff (by decide) (by decide)]
  omega

theorem lt_pow_pred {d : ℕ} (h : 2 ≤ d) : d + 1 ≤ 10 ^ (d - 1) := by
  induction d, h using Nat.le_induction with
  | base => decide
  | succ d hd ih =>
    have hpow : 10 ^ (d + 1 - 1) = 10 ^ (d - 1) * 10 := by
      rw [← Nat.pow_succ]
      congr 1
      omega
    omega

theorem length_digits_add {n d : ℕ} (hd : 2 ≤ d) :
    (Nat.toDigits 10 (n + d)).length ≠ (Nat.toDigits 10 n).length + d := by
  intro h
  generalize hk : (Nat.toDigits 10 n).length = k at h
  have hpos : 0 < k := hk ▸ Nat.length_toDigits_pos
  have hlt : n < 10 ^ k := (Nat.length_toDigits_le_iff (by decide) hpos).1 hk.le
  have hge : 10 ^ (k + d - 1) ≤ n + d := by
    by_contra hlt
    have := (Nat.length_toDigits_le_iff (b := 10) (n := n + d) (by decide) (show 0 < k + d - 1 by omega)).2 (by omega)
    omega
  have hpow : 10 ^ (k + d - 1) = 10 ^ (d - 1) * 10 ^ k := by
    rw [← Nat.pow_add]
    congr 1
    omega
  have hmul : (d + 1) * (n + 1) ≤ 10 ^ (d - 1) * 10 ^ k := Nat.mul_le_mul (lt_pow_pred hd) hlt
  have hexpand : (d + 1) * (n + 1) = d * n + d + n + 1 := by ring
  omega

structure JsString where
  units : Text
  short : units.length < 2 ^ 53

section Long

variable (hmac : Hmac) (input : JsString)

def elidedMiddle (input : Text) : Text := (input.take (tailStart input)).drop (headEnd input)

theorem length_elidedMarker_le : (elideMarker hmac (elidedMiddle input.units)).length ≤ 85 := by
  have hmiddle : (elidedMiddle input.units).length < 2 ^ 53 := by
    refine lt_of_le_of_lt ?_ input.short
    rw [elidedMiddle, List.length_drop, List.length_take]
    omega
  rw [length_elideMarker]
  have := length_digits_le hmiddle
  omega

variable {input} (hlong : elideMinChars < input.units.length)

include hlong

theorem elide_long :
    elide hmac input.units =
      some (input.units.take (headEnd input.units) ++ elideMarker hmac (elidedMiddle input.units) ++
        input.units.drop (tailStart input.units)) := by
  obtain ⟨hmin, hhead, htail, hwindow⟩ := elide_constants
  have hlt := headEnd_lt input.units
  obtain ⟨hge, hle⟩ := tailStart_bounds input.units
  have hmarker := length_elidedMarker_le hmac input
  rw [elide_of_long hlong]
  exact if_neg (by dsimp only [elidedMiddle] at hmarker ⊢; omega)

theorem length_elided :
    (input.units.take (headEnd input.units) ++ elideMarker hmac (elidedMiddle input.units) ++
        input.units.drop (tailStart input.units)).length =
      headEnd input.units + (elideMarker hmac (elidedMiddle input.units)).length + (input.units.length - tailStart input.units) := by
  obtain ⟨hmin, hhead, htail, hwindow⟩ := elide_constants
  have hlt := headEnd_lt input.units
  rw [List.length_append, List.length_append, List.length_take, List.length_drop, Nat.min_eq_left (by omega)]

end Long

theorem exact_of_headEnd_le (hmac : Hmac) {input : JsString} {maxHead : ℕ}
    (h : elideMinChars < input.units.length → headEnd input.units ≤ maxHead) :
    Exact maxHead hmac input.units := by
  obtain ⟨hmin, hhead, htail, hwindow⟩ := elide_constants
  intro out hout
  by_cases hlong : elideMinChars < input.units.length
  · have hle := h hlong
    have hlt := headEnd_lt input.units
    obtain ⟨hge, hge'⟩ := tailStart_bounds input.units
    have hmarker := length_elidedMarker_le hmac input
    have hlength := length_elided hmac hlong
    rw [elide_long hmac hlong] at hout
    rw [Option.some.inj hout] at hlength
    have hij : headEnd input.units ≤ tailStart input.units := by omega
    obtain ⟨hsplit, hfront, hback⟩ := split_at input.units hij
    refine ⟨by omega, ⟨_, _, _, hsplit, (Option.some.inj hout).symm, ?_, ?_, ?_, ?_⟩, ?_⟩
    · rw [List.length_take]
      omega
    · rw [List.length_drop]
      omega
    · rw [hback]
      exact not_splitsPair_headEnd input.units
    · rw [hfront]
      exact not_splitsPair_tailStart input.units
    · unfold elide
      exact if_pos (by omega)
  · unfold elide at hout
    rw [if_pos (by omega)] at hout
    cases hout

theorem exact_of_not_late (hmac : Hmac) {input : JsString}
    (h : ¬ LateNewline input.units) : Exact elideHeadChars hmac input.units := by
  refine exact_of_headEnd_le hmac fun hlong => ?_
  have hle := headCut_le hlong h
  have hcut := headEnd_cases input.units
  omega

theorem newline_of_shortest_tail {input : Text}
    (h : tailStart input = input.length - elideTailChars + elideNewlineWindow + 1) :
    ∀ j, input.length - elideTailChars ≤ j → j + 1 < input.length - elideTailChars + elideNewlineWindow → input[j]? ≠ some newline := by
  obtain ⟨-, -, -, hwindow⟩ := elide_constants
  have hcut : tailCut input = input.length - elideTailChars + elideNewlineWindow := by
    have := (tailCut_bounds input).2
    rcases tailStart_cases input with h' | h' <;> omega
  intro j hj hlt
  unfold tailCut at hcut
  cases hnl : indexOf newline input (input.length - elideTailChars) with
  | none => exact indexOf_eq_none hnl hj
  | some nl =>
    rw [hnl] at hcut
    dsimp only at hcut
    split_ifs at hcut with hle
    · exact (indexOf_eq_some hnl).2.2 j hj (by omega)
    · omega

/-- With a late newline the head is too long, and no other way to read what comes
out has a head that is not. -/
theorem not_exact_of_late (hmac : Hmac) {input : JsString}
    (h : LateNewline input.units) : ¬ Exact elideHeadChars hmac input.units := by
  obtain ⟨hmin, hhead, htail, hwindow⟩ := elide_constants
  obtain ⟨hlong, nl, hnl, hlate, hlt⟩ := h
  intro hexact
  obtain ⟨-, ⟨head, middle, tail, hinput, hout, hheadLength, htailLength, -, -⟩, -⟩ :=
    hexact _ (elide_long hmac hlong)
  have hend := headEnd_of_late hnl hlt
  have htailStart : input.units.length ≤ tailStart input.units + 1000 ∧ tailStart input.units + 899 ≤ input.units.length := by
    obtain ⟨hge, hge'⟩ := tailStart_bounds input.units
    omega
  have hmarker := length_elidedMarker_le hmac input
  have hlength := length_elided hmac hlong
  obtain ⟨-, -, hbefore⟩ := indexOf_eq_some hnl
  -- the marker begins with a newline, which is one of the input, well before the cut
  have hnewline : input.units[head.length]? = some newline := by
    have hat := congrArg (fun text : Text => text[head.length]?) hout
    rw [List.append_assoc, List.append_assoc, List.getElem?_append_left (by rw [List.length_take]; omega), List.getElem?_take,
      if_pos (by omega), List.getElem?_append_right (Nat.le_refl _), Nat.sub_self,
      List.getElem?_append_left (by rw [length_elideMarker]; omega), head?_elideMarker] at hat
    exact hat
  have hshort : head.length < elideHeadChars - elideNewlineWindow := by
    by_contra hle
    exact hbefore head.length (by omega) (by omega) hnewline
  -- so the number in the marker has grown, and its digits as much
  replace hshort : head.length < 1400 := by omega
  have hmiddle : (elidedMiddle input.units).length + headEnd input.units = tailStart input.units := by
    rw [elidedMiddle, List.length_drop, List.length_take]
    omega
  have hlengthInput : input.units.length = head.length + middle.length + tail.length := by
    rw [hinput, List.length_append, List.length_append]
  have hlengthOut : headEnd input.units + (elideMarker hmac (elidedMiddle input.units)).length +
      (input.units.length - tailStart input.units) = head.length + (elideMarker hmac middle).length + tail.length := by
    rw [← hlength, hout, List.length_append, List.length_append]
  obtain ⟨last, hlast⟩ : ∃ last, input.units.length = tailStart input.units + last :=
    ⟨input.units.length - tailStart input.units, by omega⟩
  rw [Nat.sub_eq_of_eq_add' hlast] at hlengthOut
  clear hlength
  rw [length_elideMarker] at hmarker
  rw [length_elideMarker, length_elideMarker] at hlengthOut
  obtain ⟨d, hd⟩ : ∃ d, middle.length = (elidedMiddle input.units).length + d :=
    ⟨middle.length - (elidedMiddle input.units).length, by omega⟩
  have hdigits : (Nat.toDigits 10 ((elidedMiddle input.units).length + d)).length =
      (Nat.toDigits 10 (elidedMiddle input.units).length).length + d := by
    rw [← hd]
    omega
  have hone : d = 1 := by
    by_contra hne
    exact length_digits_add (by omega) hdigits
  -- then the tail is as short as it can be, and the marker is in front of it among
  -- the last units of the input
  have hshortest : tailStart input.units = input.units.length - elideTailChars + elideNewlineWindow + 1 := by omega
  refine newline_of_shortest_tail hshortest (input.units.length - tail.length + (headEnd input.units -
    (head.length + (elideMarker hmac middle).length))) (by omega) ?_ ?_
  · rw [length_elideMarker]
    have hpos : 0 < (Nat.toDigits 10 middle.length).length := Nat.length_toDigits_pos
    omega
  · have hat := congrArg (fun text : Text => text[headEnd input.units]?) hout
    have hback : head.length + (elideMarker hmac middle).length ≤ headEnd input.units := by
      rw [length_elideMarker, hd]
      omega
    rw [List.append_assoc, List.getElem?_append_right (by rw [List.length_take]; omega), List.length_take,
      Nat.min_eq_left (by omega), Nat.sub_self, List.getElem?_append_left (by rw [length_elideMarker]; omega), head?_elideMarker,
      List.getElem?_append_right (by rw [List.length_append]; exact hback), List.length_append] at hat
    have htailAt : ∀ i, head.length + middle.length ≤ i → input.units[i]? = tail[i - (head.length + middle.length)]? := by
      intro i hi
      rw [hinput, List.getElem?_append_right (by rw [List.length_append]; exact hi), List.length_append]
    have hindex : input.units.length - tail.length + (headEnd input.units - (head.length + (elideMarker hmac middle).length)) -
        (head.length + middle.length) = headEnd input.units - (head.length + (elideMarker hmac middle).length) := by
      omega
    rw [htailAt _ (by omega), hindex]
    exact hat.symm

/-- **What comes out of `elide` is exact**, with a head that ends at a newline up to the end of the
window behind the cut. -/
theorem elide_exact (hmac : Hmac) (input : JsString) :
    Exact (elideHeadChars + elideNewlineWindow - 1) hmac input.units := by
  obtain ⟨-, hhead, -, hwindow⟩ := elide_constants
  refine exact_of_headEnd_le hmac fun _ => ?_
  have hlt := headEnd_lt input.units
  omega

/-- The head stays within its number of units unless a newline just
behind the cut takes it along. -/
theorem elide_exact_iff (hmac : Hmac) (input : JsString) :
    Exact elideHeadChars hmac input.units ↔ ¬ LateNewline input.units :=
  ⟨fun hexact hlate => not_exact_of_late hmac hlate hexact, exact_of_not_late hmac⟩

def lateLine : JsString where
  units := List.replicate 1550 97 ++ newline :: List.replicate 2500 97
  short := by decide +kernel

/-- A line that ends 50 units behind the cut, whatever the hash. -/
theorem not_exact_lateLine : ¬ ∃ hmac, Exact elideHeadChars hmac lateLine.units := by
  rintro ⟨hmac, hexact⟩
  have hunits : lateLine.units = List.replicate 1550 97 ++ newline :: List.replicate 2500 97 := rfl
  have hlong : elideMinChars < lateLine.units.length := by
    rw [hunits, List.length_append, List.length_cons, List.length_replicate, List.length_replicate]
    decide
  have hline : lateLine.units[1550]? = some newline := by
    rw [hunits, List.getElem?_append_right (by rw [List.length_replicate]), List.length_replicate]
    rfl
  have hbefore : ∀ j, j < 1550 → lateLine.units[j]? ≠ some newline := by
    intro j hj
    rw [hunits, List.getElem?_append_left (by rwa [List.length_replicate]), List.getElem?_replicate, if_pos hj]
    decide
  exact not_exact_of_late hmac ⟨hlong, 1550, indexOf_of_first (by decide) hline fun j _ => hbefore j, by decide, by decide⟩ hexact

end TokenProxy.Compression
