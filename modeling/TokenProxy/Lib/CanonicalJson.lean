import Mathlib.Data.List.Sort
import TokenProxy.Lib.JsonText

/-!
# Documents and their canonical text

A document is what a parser hands over; the canonical text writes the fields of its objects in the
order of their keys. Canonical texts are self-delimiting (`canonical_append_inj`), so two objects
with one text have the same keys, and values with the same texts under them
(`canonical_object_eq_iff`).
-/

namespace TokenProxy.Lib.CanonicalJson

open JsonText

inductive Doc where
  | null
  | bool (b : Bool)
  /-- A number, by the text that it prints as. -/
  | number (text : Text)
  | string (s : Text)
  | array (items : List Doc)
  | object (fields : List (Text × Doc))

/-! ### Strings -/

def isHigh (c : ℕ) : Bool := 0xd800 ≤ c && c < 0xdc00

def isLow (c : ℕ) : Bool := 0xdc00 ≤ c && c < 0xe000

def hexUnit (n : ℕ) : ℕ := if n < 10 then 48 + n else 87 + n

/-- `\uXXXX` -/
def hexEscape (c : ℕ) : Text :=
  [backslash, 117, hexUnit (c / 4096), hexUnit (c / 256 % 16), hexUnit (c / 16 % 16), hexUnit (c % 16)]

def letterOf (c : ℕ) : Option ℕ :=
  [(34, 34), (92, 92), (8, 98), (12, 102), (10, 110), (13, 114), (9, 116)].lookup c

def escapeUnit (c : ℕ) : Text :=
  match letterOf c with
  | some letter => [backslash, letter]
  | none => if c < 32 ∨ isHigh c ∨ isLow c then hexEscape c else [c]

def escape : Text → Text
  | high :: low :: rest => if isHigh high && isLow low then high :: low :: escape rest else escapeUnit high ++ escape (low :: rest)
  | [c] => escapeUnit c
  | [] => []

def quoted (s : Text) : Text := quote :: (escape s ++ [quote])

def unhex (c : ℕ) : ℕ := if c < 58 then c - 48 else c - 87

def readEscape : Text → Option (ℕ × Text)
  | 117 :: a :: b :: c :: d :: rest => some (unhex a * 4096 + unhex b * 256 + unhex c * 16 + unhex d, rest)
  | letter :: rest => ([(34, 34), (92, 92), (98, 8), (102, 12), (110, 10), (114, 13), (116, 9)].lookup letter).map fun c => (c, rest)
  | [] => none

/-- The first unit of what stands between quotes, and what follows. -/
def readUnit : Text → Option (ℕ × Text)
  | [] => none
  | c :: rest => if c = 34 then none else if c = 92 then readEscape rest else some (c, rest)

theorem unhex_hexUnit {n : ℕ} (h : n < 16) : unhex (hexUnit n) = n := by
  unfold unhex hexUnit
  split <;> split <;> omega

theorem readUnit_plain {c : ℕ} (hquote : c ≠ 34) (hbackslash : c ≠ 92)
    (rest : Text) : readUnit (c :: rest) = some (c, rest) := by
  rw [readUnit, if_neg hquote, if_neg hbackslash]

theorem readUnit_hexEscape {c : ℕ} (h : c < 65536)
    (rest : Text) : readUnit (hexEscape c ++ rest) = some (c, rest) := by
  have hvalue : c / 4096 * 4096 + c / 256 % 16 * 256 + c / 16 % 16 * 16 + c % 16 = c := by omega
  simp only [hexEscape, List.cons_append, List.nil_append]
  rw [readUnit, if_neg (by decide), if_pos (by decide), readEscape, unhex_hexUnit (by omega), unhex_hexUnit (by omega), unhex_hexUnit (by omega),
    unhex_hexUnit (by omega), hvalue]

theorem letterOf_cases (c : ℕ) :
    (∃ letter, letterOf c = some letter ∧ ∀ rest, readUnit ([backslash, letter] ++ rest) = some (c, rest)) ∨
      (letterOf c = none ∧ c ≠ 34 ∧ c ≠ 92) := by
  by_cases h : c ∈ [34, 92, 8, 12, 10, 13, 9]
  · left
    simp only [List.mem_cons, List.not_mem_nil, or_false] at h
    rcases h with rfl | rfl | rfl | rfl | rfl | rfl | rfl <;> exact ⟨_, rfl, fun rest => rfl⟩
  · right
    simp only [List.mem_cons, List.not_mem_nil, or_false, not_or] at h
    refine ⟨?_, h.1, h.2.1⟩
    have hbeq (d : ℕ) (hd : c ≠ d) : (c == d) = false := beq_eq_false_iff_ne.mpr hd
    obtain ⟨h1, h2, h3, h4, h5, h6, h7⟩ := h
    simp only [letterOf, List.lookup_cons, List.lookup_nil, hbeq _ h1, hbeq _ h2, hbeq _ h3, hbeq _ h4, hbeq _ h5, hbeq _ h6, hbeq _ h7]

theorem readUnit_escapeUnit (c : ℕ) (rest : Text) :
    readUnit (escapeUnit c ++ rest) = some (c, rest) := by
  unfold escapeUnit
  rcases letterOf_cases c with ⟨letter, hletter, hread⟩ | ⟨hnone, hquote, hbackslash⟩
  · rw [hletter]
    exact hread rest
  · rw [hnone]
    simp only
    split
    · rename_i hspecial
      apply readUnit_hexEscape
      simp only [isHigh, isLow, Bool.and_eq_true, decide_eq_true_eq] at hspecial
      omega
    · exact readUnit_plain hquote hbackslash rest

inductive Spells : Text → Text → Prop where
  | nil : Spells [] []
  | cons (c : ℕ) (code : Text) {s text : Text} (hread : ∀ after, readUnit (code ++ after) = some (c, after)) (h : Spells s text) :
      Spells (c :: s) (code ++ text)

theorem spells_escape (s : Text) : Spells s (escape s) := by
  fun_induction escape s with
  | case1 high low rest hpair ih =>
    simp only [isHigh, isLow, Bool.and_eq_true, decide_eq_true_eq] at hpair
    obtain ⟨⟨hhigh, -⟩, hlow, -⟩ := hpair
    have hplain (c : ℕ) (hc : 0xd800 ≤ c) (after : Text) : readUnit ([c] ++ after) = some (c, after) :=
      readUnit_plain (by omega) (by omega) after
    exact .cons high [high] (hplain high hhigh) (.cons low [low] (hplain low (le_trans (by decide) hlow)) ih)
  | case2 high low rest hpair ih => exact .cons high (escapeUnit high) (readUnit_escapeUnit high) ih
  | case3 c =>
    rw [← List.append_nil (escapeUnit c)]
    exact .cons c (escapeUnit c) (readUnit_escapeUnit c) .nil
  | case4 => exact .nil

theorem Spells.append_inj {s t x y r r' : Text} (hx : Spells s x) (hy : Spells t y)
    (h : x ++ quote :: r = y ++ quote :: r') :
    s = t ∧ r = r' := by
  have hquote (after : Text) : readUnit (quote :: after) = none := by rw [readUnit, if_pos (by decide)]
  induction hx generalizing t y with
  | nil =>
    cases hy with
    | nil => exact ⟨rfl, by simpa using h⟩
    | cons c code hread hy =>
      have hsame := congrArg readUnit h
      rw [List.nil_append, hquote, List.append_assoc, hread] at hsame
      cases hsame
  | cons c code hread hx ih =>
    have hsame := congrArg readUnit h
    rw [List.append_assoc, hread] at hsame
    cases hy with
    | nil =>
      rw [List.nil_append, hquote] at hsame
      cases hsame
    | cons c' code' hread' hy =>
      rw [List.append_assoc, hread', Option.some.injEq, Prod.mk.injEq] at hsame
      obtain ⟨rfl, hrest⟩ := hsame
      obtain ⟨rfl, hr⟩ := ih hy hrest
      exact ⟨rfl, hr⟩

theorem quoted_append_inj {s t r r' : Text} (h : quoted s ++ r = quoted t ++ r') :
    s = t ∧ r = r' := by
  simp only [quoted, List.cons_append, List.append_assoc, List.nil_append, List.cons.injEq, true_and] at h
  exact (spells_escape s).append_inj (spells_escape t) h

/-! ### Canonical text -/

def unitsLE : Text → Text → Bool
  | [], _ => true
  | _ :: _, [] => false
  | a :: s, b :: t => a < b || (a == b && unitsLE s t)

def joined : List Text → Text
  | [] => []
  | [text] => text
  | text :: texts => text ++ 44 :: joined texts

def member (field : Text × Text) : Text := quoted field.1 ++ 58 :: field.2

/-- `Object.keys(value).sort()`, with what is under the keys. -/
def sortFields {α : Type} (fields : List (Text × α)) : List (Text × α) := fields.insertionSort fun a b => unitsLE a.1 b.1

mutual

def Doc.canonical : Doc → Text
  | .null => nullWord
  | .bool b => if b then trueWord else falseWord
  | .number text => text
  | .string s => quoted s
  | .array items => 91 :: (joined (canonicalItems items) ++ [93])
  | .object fields => 123 :: (joined ((sortFields (canonicalFields fields)).map member) ++ [125])

def canonicalItems : List Doc → List Text
  | [] => []
  | item :: items => item.canonical :: canonicalItems items

def canonicalFields : List (Text × Doc) → List (Text × Text)
  | [] => []
  | (key, value) :: fields => (key, value.canonical) :: canonicalFields fields

end

theorem canonicalItems_eq (items : List Doc) : canonicalItems items = items.map Doc.canonical := by
  induction items with
  | nil => rfl
  | cons item items ih => rw [canonicalItems, ih, List.map_cons]

theorem canonicalFields_eq (fields : List (Text × Doc)) :
    canonicalFields fields = fields.map fun field => (field.1, field.2.canonical) := by
  induction fields with
  | nil => rfl
  | cons field fields ih => rw [canonicalFields, ih, List.map_cons]

/-! ### Documents as objects hold them -/

def isNumberUnit (c : ℕ) : Bool := isDigit c || [43, 45, 46, 69, 101].contains c

mutual

/-- No object has two fields with one key, and numbers are written in digits and signs. -/
def Doc.Proper : Doc → Prop
  | .number text => text ≠ [] ∧ ∀ c ∈ text, isNumberUnit c = true
  | .array items => ProperItems items
  | .object fields => (fields.map fun field => field.1).Nodup ∧ ProperFields fields
  | _ => True

def ProperItems : List Doc → Prop
  | [] => True
  | item :: items => item.Proper ∧ ProperItems items

def ProperFields : List (Text × Doc) → Prop
  | [] => True
  | (_, value) :: fields => value.Proper ∧ ProperFields fields

end

mutual

def Doc.size : Doc → ℕ
  | .array items => 1 + sizeItems items
  | .object fields => 1 + sizeFields fields
  | _ => 0

def sizeItems : List Doc → ℕ
  | [] => 0
  | item :: items => item.size + sizeItems items

def sizeFields : List (Text × Doc) → ℕ
  | [] => 0
  | (_, value) :: fields => value.size + sizeFields fields

end

theorem properItems_iff {items : List Doc} : ProperItems items ↔ ∀ item ∈ items, item.Proper := by
  induction items with
  | nil => simp [ProperItems]
  | cons item items ih => rw [ProperItems, ih, List.forall_mem_cons]

theorem properFields_iff {fields : List (Text × Doc)} :
    ProperFields fields ↔ ∀ field ∈ fields, field.2.Proper := by
  induction fields with
  | nil => simp [ProperFields]
  | cons field fields ih => rw [ProperFields, ih, List.forall_mem_cons]

theorem size_lt_array {items : List Doc} {item : Doc}
    (h : item ∈ items) : item.size < (Doc.array items).size := by
  rw [Doc.size]
  induction items with
  | nil => exact absurd h List.not_mem_nil
  | cons first items ih =>
    rw [sizeItems]
    rcases List.mem_cons.mp h with rfl | h
    · omega
    · have hlt := ih h
      omega

theorem size_lt_object {fields : List (Text × Doc)} {field : Text × Doc}
    (h : field ∈ fields) : field.2.size < (Doc.object fields).size := by
  rw [Doc.size]
  induction fields with
  | nil => exact absurd h List.not_mem_nil
  | cons first fields ih =>
    rw [sizeFields]
    rcases List.mem_cons.mp h with rfl | h
    · omega
    · have hlt := ih h
      omega

/-! ### Where a text ends -/

def Ends (rest : Text) : Prop := ∀ c ∈ rest.head?, isNumberUnit c = false

theorem ends_cons {c : ℕ} (h : isNumberUnit c = false) (rest : Text) : Ends (c :: rest) := by
  intro d hd
  obtain rfl : c = d := by simpa using hd
  exact h

theorem takeWhile_number {text rest : Text} (h : ∀ c ∈ text, isNumberUnit c = true)
    (hrest : Ends rest) :
    (text ++ rest).takeWhile isNumberUnit = text := by
  rw [List.takeWhile_append_of_pos h]
  cases rest with
  | nil => simp
  | cons c rest => rw [List.takeWhile_cons_of_neg (by rw [hrest c rfl]; exact Bool.false_ne_true), List.append_nil]

def Separates (W : Text → Prop) : Prop :=
  ∀ x y r s, W x → W y → Ends r → Ends s → x ++ r = y ++ s → x = y ∧ r = s

def Closes (c : ℕ) : Prop := c = 93 ∨ c = 125

def Opens (W : Text → Prop) : Prop := ∀ x, W x → ∃ c rest, x = c :: rest ∧ ¬ Closes c

theorem joined_cons (text : Text) (texts : List Text) :
    ∃ rest, joined (text :: texts) = text ++ rest ∧ (texts = [] → rest = []) ∧ (texts ≠ [] → rest = 44 :: joined texts) := by
  cases texts with
  | nil => exact ⟨[], (List.append_nil _).symm, fun _ => rfl, fun h => absurd rfl h⟩
  | cons next texts => exact ⟨44 :: joined (next :: texts), rfl, fun h => absurd h (List.cons_ne_nil _ _), fun _ => rfl⟩

theorem joined_append_inj {W : Text → Prop} (hsep : Separates W) (hopens : Opens W) {close : ℕ}
    (hclose : Closes close)
    {xs ys : List Text} (hx : ∀ x ∈ xs, W x) (hy : ∀ y ∈ ys, W y) {r s : Text} (h : joined xs ++ close :: r = joined ys ++ close :: s) :
    xs = ys ∧ r = s := by
  have hends (after : Text) : Ends (close :: after) := ends_cons (by rcases hclose with rfl | rfl <;> decide) after
  have hcomma (after : Text) : Ends (44 :: after) := ends_cons (by decide) after
  have hfirst {x : Text} {texts : List Text} {after after' : Text} (hx : W x) (h : close :: after = joined (x :: texts) ++ after') : False := by
    obtain ⟨c, rest, rfl, hc⟩ := hopens x hx
    obtain ⟨more, hjoined, -⟩ := joined_cons (c :: rest) texts
    rw [hjoined, List.append_assoc, List.cons_append, List.cons.injEq] at h
    exact hc (h.1 ▸ hclose)
  induction xs generalizing ys with
  | nil =>
    cases ys with
    | nil => exact ⟨rfl, (List.cons.inj h).2⟩
    | cons y ys => exact absurd h fun h => hfirst (hy y List.mem_cons_self) h
  | cons x xs ih =>
    cases ys with
    | nil => exact absurd h.symm fun h => hfirst (hx x List.mem_cons_self) h
    | cons y ys =>
      obtain ⟨hxx, hxs⟩ := List.forall_mem_cons.mp hx
      obtain ⟨hyy, hys⟩ := List.forall_mem_cons.mp hy
      obtain ⟨rest, hjoined, hnil, hcons⟩ := joined_cons x xs
      obtain ⟨rest', hjoined', hnil', hcons'⟩ := joined_cons y ys
      have hrestEnds : Ends (rest ++ close :: r) := by
        by_cases hxs : xs = []
        · rw [hnil hxs]
          exact hends r
        · rw [hcons hxs]
          exact hcomma _
      have hrestEnds' : Ends (rest' ++ close :: s) := by
        by_cases hys : ys = []
        · rw [hnil' hys]
          exact hends s
        · rw [hcons' hys]
          exact hcomma _
      rw [hjoined, hjoined', List.append_assoc, List.append_assoc] at h
      obtain ⟨rfl, hrest⟩ := hsep x y _ _ hxx hyy hrestEnds hrestEnds' h
      by_cases hxs' : xs = [] <;> by_cases hys' : ys = []
      · rw [hnil hxs', hnil' hys'] at hrest
        exact ⟨by rw [hxs', hys'], (List.cons.inj hrest).2⟩
      · rw [hnil hxs', hcons' hys', List.nil_append, List.cons_append, List.cons.injEq] at hrest
        rcases hclose with rfl | rfl <;> exact absurd hrest.1 (by decide)
      · rw [hcons hxs', hnil' hys', List.nil_append, List.cons_append, List.cons.injEq] at hrest
        rcases hclose with rfl | rfl <;> exact absurd hrest.1 (by decide)
      · rw [hcons hxs', hcons' hys', List.cons_append, List.cons_append, List.cons.injEq] at hrest
        obtain ⟨rfl, hr⟩ := ih hxs hys hrest.2
        exact ⟨rfl, hr⟩

def Members (W : Text → Prop) (text : Text) : Prop := ∃ field, W field.2 ∧ member field = text

theorem member_append_inj {W : Text → Prop} (hsep : Separates W) {f g : Text × Text} (hf : W f.2)
    (hg : W g.2) {r s : Text} (hr : Ends r)
    (hs : Ends s) (h : member f ++ r = member g ++ s) : f = g ∧ r = s := by
  rw [member, member, List.append_assoc, List.append_assoc] at h
  obtain ⟨hkey, hrest⟩ := quoted_append_inj h
  rw [List.cons_append, List.cons_append, List.cons.injEq] at hrest
  obtain ⟨hvalue, hrs⟩ := hsep _ _ r s hf hg hr hs hrest.2
  exact ⟨Prod.ext hkey hvalue, hrs⟩

theorem separates_members {W : Text → Prop} (hsep : Separates W) : Separates (Members W) := by
  rintro x y r s ⟨f, hf, rfl⟩ ⟨g, hg, rfl⟩ hr hs h
  obtain ⟨rfl, hrs⟩ := member_append_inj hsep hf hg hr hs h
  exact ⟨rfl, hrs⟩

theorem opens_members (W : Text → Prop) : Opens (Members W) := by
  rintro x ⟨f, -, rfl⟩
  exact ⟨quote, _, rfl, by unfold Closes; decide⟩

/-! ### Canonical texts show where they end -/

def TextsBelow (n : ℕ) (text : Text) : Prop := ∃ d : Doc, d.Proper ∧ d.size < n ∧ d.canonical = text

def Doc.kind : Doc → ℕ
  | .null => 0
  | .bool _ => 1
  | .number _ => 2
  | .string _ => 3
  | .array _ => 4
  | .object _ => 5

def kindAt (c : ℕ) : ℕ :=
  if isNumberUnit c then 2
  else if c = 110 then 0
  else if c = 34 then 3
  else if c = 91 then 4
  else if c = 123 then 5
  else 1

theorem canonical_lead {d : Doc} (h : d.Proper) :
    ∃ c rest, d.canonical = c :: rest ∧ kindAt c = d.kind ∧ ¬ Closes c := by
  have hcloses : ¬ Closes 110 ∧ ¬ Closes 116 ∧ ¬ Closes 102 ∧ ¬ Closes 34 ∧ ¬ Closes 91 ∧ ¬ Closes 123 := by
    unfold Closes
    decide
  obtain ⟨h1, h2, h3, h4, h5, h6⟩ := hcloses
  cases d with
  | null => exact ⟨110, _, rfl, by decide, h1⟩
  | bool b =>
    cases b with
    | false => exact ⟨102, _, rfl, by decide, h3⟩
    | true => exact ⟨116, _, rfl, by decide, h2⟩
  | number text =>
    obtain ⟨c, rest, rfl⟩ := List.exists_cons_of_ne_nil h.1
    have hc := h.2 c List.mem_cons_self
    refine ⟨c, rest, rfl, if_pos hc, ?_⟩
    rintro (rfl | rfl) <;> exact absurd hc (by decide)
  | string s => exact ⟨34, _, rfl, rfl, h4⟩
  | array items => exact ⟨91, _, rfl, rfl, h5⟩
  | object fields => exact ⟨123, _, rfl, rfl, h6⟩

theorem opens_textsBelow (n : ℕ) : Opens (TextsBelow n) := by
  rintro x ⟨d, hd, -, rfl⟩
  obtain ⟨c, rest, hc, -, hcloses⟩ := canonical_lead hd
  exact ⟨c, rest, hc, hcloses⟩

theorem canonicalItems_below {items : List Doc} {n : ℕ} (hproper : (Doc.array items).Proper)
    (hsize : (Doc.array items).size < n + 1) :
    ∀ x ∈ canonicalItems items, TextsBelow n x := by
  rw [canonicalItems_eq, List.forall_mem_map]
  intro item hitem
  have hlt := size_lt_array hitem
  exact ⟨item, properItems_iff.mp hproper item hitem, by omega, rfl⟩

theorem canonicalFields_below {fields : List (Text × Doc)} {n : ℕ}
    (hproper : (Doc.object fields).Proper)
    (hsize : (Doc.object fields).size < n + 1) :
    ∀ field ∈ canonicalFields fields, TextsBelow n field.2 := by
  rw [canonicalFields_eq, List.forall_mem_map]
  intro field hfield
  have hlt := size_lt_object hfield
  exact ⟨field.2, properFields_iff.mp hproper.2 field hfield, by omega, rfl⟩

theorem members_below {fields : List (Text × Doc)} {n : ℕ} (hproper : (Doc.object fields).Proper)
    (hsize : (Doc.object fields).size < n + 1) :
    ∀ x ∈ (sortFields (canonicalFields fields)).map member, Members (TextsBelow n) x := by
  rw [List.forall_mem_map]
  intro field hfield
  have hmem := (List.perm_insertionSort _ (canonicalFields fields)).mem_iff.mp hfield
  exact ⟨field, canonicalFields_below hproper hsize field hmem, rfl⟩

theorem separates_textsBelow (n : ℕ) : Separates (TextsBelow n) := by
  induction n with
  | zero =>
    rintro x y r s ⟨d, -, hsize, -⟩
    exact absurd hsize (Nat.not_lt_zero _)
  | succ n ih =>
    rintro x y r s ⟨d, hd, hsize, rfl⟩ ⟨e, he, hsize', rfl⟩ hr hs h
    have hkind : d.kind = e.kind := by
      obtain ⟨c, rest, hc, hdc, -⟩ := canonical_lead hd
      obtain ⟨c', rest', hc', hec, -⟩ := canonical_lead he
      rw [hc, hc', List.cons_append, List.cons_append, List.cons.injEq] at h
      rw [← hdc, ← hec, h.1]
    cases d <;> cases e <;> simp [Doc.kind] at hkind
    case null.null => exact ⟨rfl, List.append_cancel_left h⟩
    case bool.bool b b' =>
      cases b <;> cases b' <;> first | exact ⟨rfl, List.append_cancel_left h⟩ | exact absurd (List.cons.inj h).1 (by decide)
    case number.number text text' =>
      have hsame : text = text' := by
        rw [← takeWhile_number hd.2 hr, ← takeWhile_number he.2 hs]
        exact congrArg (List.takeWhile isNumberUnit) h
      subst hsame
      exact ⟨rfl, List.append_cancel_left h⟩
    case string.string t t' =>
      obtain ⟨rfl, hrs⟩ := quoted_append_inj h
      exact ⟨rfl, hrs⟩
    case array.array items items' =>
      simp only [Doc.canonical, List.cons_append, List.append_assoc, List.nil_append, List.cons.injEq, true_and] at h
      obtain ⟨hitems, hrs⟩ := joined_append_inj ih (opens_textsBelow n) (.inl rfl) (canonicalItems_below hd hsize)
        (canonicalItems_below he hsize') h
      exact ⟨by rw [Doc.canonical, Doc.canonical, hitems], hrs⟩
    case object.object fields fields' =>
      simp only [Doc.canonical, List.cons_append, List.append_assoc, List.nil_append, List.cons.injEq, true_and] at h
      obtain ⟨hmembers, hrs⟩ := joined_append_inj (separates_members ih) (opens_members _) (.inr rfl) (members_below hd hsize)
        (members_below he hsize') h
      exact ⟨by rw [Doc.canonical, Doc.canonical, hmembers], hrs⟩

def Texts (text : Text) : Prop := ∃ d : Doc, d.Proper ∧ d.canonical = text

/-- **A canonical text shows where it ends**. -/
theorem separates_texts : Separates Texts := by
  rintro x y r s ⟨d, hd, hx⟩ ⟨e, he, hy⟩ hr hs h
  apply separates_textsBelow (max d.size e.size + 1) x y r s _ _ hr hs h
  · exact ⟨d, hd, by omega, hx⟩
  · exact ⟨e, he, by omega, hy⟩

/-! ### Objects -/

def get (fields : List (Text × Doc)) (key : Text) : Option Doc := (fields.find? fun field => field.1 == key).map fun field => field.2

section Get

variable {fields : List (Text × Doc)} {key : Text} {value : Doc}

theorem mem_of_get (h : get fields key = some value) : (key, value) ∈ fields := by
  obtain ⟨field, hfield, rfl⟩ := Option.map_eq_some_iff.mp h
  have hkey : field.1 = key := by simpa using List.find?_some hfield
  rw [← hkey]
  exact List.mem_of_find?_eq_some hfield

theorem get_eq_none_iff : get fields key = none ↔ ∀ field ∈ fields, field.1 ≠ key := by
  rw [get, Option.map_eq_none_iff, List.find?_eq_none]
  simp

theorem get_eq_some_iff (hkeys : (fields.map fun field => field.1).Nodup) :
    get fields key = some value ↔ (key, value) ∈ fields := by
  refine ⟨mem_of_get, fun h => ?_⟩
  cases hget : get fields key with
  | none => exact absurd rfl (get_eq_none_iff.mp hget (key, value) h)
  | some value' =>
    have hsame := List.inj_on_of_nodup_map hkeys (mem_of_get hget) h rfl
    rw [Prod.mk.injEq] at hsame
    rw [hsame.2]

end Get

theorem unitsLE_total (s t : Text) : unitsLE s t = true ∨ unitsLE t s = true := by
  induction s generalizing t with
  | nil => exact .inl rfl
  | cons a s ih =>
    cases t with
    | nil => exact .inr rfl
    | cons b t =>
      simp only [unitsLE, Bool.or_eq_true, decide_eq_true_eq, Bool.and_eq_true, beq_iff_eq]
      rcases Nat.lt_trichotomy a b with h | rfl | h
      · exact .inl (.inl h)
      · rcases ih t with h | h
        · exact .inl (.inr ⟨rfl, h⟩)
        · exact .inr (.inr ⟨rfl, h⟩)
      · exact .inr (.inl h)

theorem unitsLE_trans {s t u : Text} (h : unitsLE s t = true)
    (h' : unitsLE t u = true) : unitsLE s u = true := by
  induction s generalizing t u with
  | nil => rfl
  | cons a s ih =>
    cases t with
    | nil => exact absurd h Bool.false_ne_true
    | cons b t =>
      cases u with
      | nil => exact absurd h' Bool.false_ne_true
      | cons c u =>
        simp only [unitsLE, Bool.or_eq_true, decide_eq_true_eq, Bool.and_eq_true, beq_iff_eq] at h h' ⊢
        rcases h with h | ⟨rfl, h⟩ <;> rcases h' with h' | ⟨rfl, h'⟩
        · exact .inl (Nat.lt_trans h h')
        · exact .inl h
        · exact .inl h'
        · exact .inr ⟨rfl, ih h h'⟩

theorem unitsLE_antisymm {s t : Text} (h : unitsLE s t = true)
    (h' : unitsLE t s = true) : s = t := by
  induction s generalizing t with
  | nil =>
    cases t with
    | nil => rfl
    | cons b t => exact absurd h' Bool.false_ne_true
  | cons a s ih =>
    cases t with
    | nil => exact absurd h Bool.false_ne_true
    | cons b t =>
      simp only [unitsLE, Bool.or_eq_true, decide_eq_true_eq, Bool.and_eq_true, beq_iff_eq] at h h'
      rcases h with h | ⟨rfl, h⟩
      · rcases h' with h' | ⟨rfl, -⟩
        · exact absurd h (Nat.lt_asymm h')
        · exact absurd h (Nat.lt_irrefl _)
      · rcases h' with h' | ⟨-, h'⟩
        · exact absurd h' (Nat.lt_irrefl _)
        · rw [ih h h']

theorem sortFields_pairwise {α : Type} (fields : List (Text × α)) :
    (sortFields fields).Pairwise fun a b => unitsLE a.1 b.1 = true := by
  have htotal : Std.Total fun a b : Text × α => unitsLE a.1 b.1 = true := ⟨fun a b => unitsLE_total a.1 b.1⟩
  have htrans : IsTrans (Text × α) fun a b => unitsLE a.1 b.1 = true := ⟨fun _ _ _ => unitsLE_trans⟩
  exact List.pairwise_insertionSort _ fields

theorem sortFields_perm {α : Type} (fields : List (Text × α)) : (sortFields fields).Perm fields := List.perm_insertionSort _ fields

theorem sortFields_eq_iff {α : Type} {fields fields' : List (Text × α)}
    (hkeys : (fields.map fun field => field.1).Nodup) :
    sortFields fields = sortFields fields' ↔ fields.Perm fields' := by
  constructor
  · intro h
    exact (sortFields_perm fields).symm.trans (h ▸ sortFields_perm fields')
  · intro h
    refine List.Perm.eq_of_pairwise (fun f g hf hg hfg hgf => ?_) (sortFields_pairwise fields) (sortFields_pairwise fields')
      ((sortFields_perm fields).trans (h.trans (sortFields_perm fields').symm))
    have hf' := (sortFields_perm fields).mem_iff.mp hf
    have hg' := h.mem_iff.mpr ((sortFields_perm fields').mem_iff.mp hg)
    exact List.inj_on_of_nodup_map hkeys hf' hg' (unitsLE_antisymm hfg hgf)

theorem sortFields_members_eq {f g : List (Text × Text)} (hf : ∀ field ∈ f, Texts field.2)
    (hg : ∀ field ∈ g, Texts field.2) (h : f.map member = g.map member) : f = g := by
  induction f generalizing g with
  | nil =>
    cases g with
    | nil => rfl
    | cons field g => simp at h
  | cons field f ih =>
    cases g with
    | nil => simp at h
    | cons field' g =>
      obtain ⟨hfield, hf'⟩ := List.forall_mem_cons.mp hf
      obtain ⟨hfield', hg'⟩ := List.forall_mem_cons.mp hg
      rw [List.map_cons, List.map_cons, List.cons.injEq] at h
      have hends : Ends [] := by simp [Ends]
      obtain ⟨hsame, -⟩ := member_append_inj separates_texts hfield hfield' hends hends (congrArg (· ++ []) h.1)
      rw [hsame, ih hf' hg' h.2]

theorem mem_canonicalFields {f : List (Text × Doc)} (hf : (Doc.object f).Proper) {key text : Text} :
    (key, text) ∈ canonicalFields f ↔ (get f key).map Doc.canonical = some text := by
  rw [canonicalFields_eq, List.mem_map, Option.map_eq_some_iff]
  constructor
  · rintro ⟨field, hfield, heq⟩
    obtain ⟨rfl, rfl⟩ := Prod.mk.inj heq
    exact ⟨field.2, (get_eq_some_iff hf.1).mpr hfield, rfl⟩
  · rintro ⟨value, hvalue, rfl⟩
    exact ⟨(key, value), mem_of_get hvalue, rfl⟩

-- Lean derives the equations of a recursive definition at the first proof that unfolds it.
-- The proofs of a module are elaborated side by side; asked for once, here, the equations
-- are the same for all of them.
section
attribute [local simp] Doc.canonical canonicalFields canonicalItems get sortFields
end

theorem canonicalFields_keys (f : List (Text × Doc)) :
    (canonicalFields f).map (fun field => field.1) = f.map fun field => field.1 := by
  rw [canonicalFields_eq, List.map_map]
  rfl

/-- **Two objects have one text** when they have the same keys, with
values of one text under them. -/
theorem canonical_object_eq_iff {f g : List (Text × Doc)} (hf : (Doc.object f).Proper)
    (hg : (Doc.object g).Proper) :
    (Doc.object f).canonical = (Doc.object g).canonical ↔ ∀ key, (get f key).map Doc.canonical = (get g key).map Doc.canonical := by
  have hkeys : ((canonicalFields f).map fun field => field.1).Nodup := by
    rw [canonicalFields_keys]
    exact hf.1
  have hkeys' : ((canonicalFields g).map fun field => field.1).Nodup := by
    rw [canonicalFields_keys]
    exact hg.1
  have htexts {fields : List (Text × Doc)} (hproper : (Doc.object fields).Proper) : ∀ field ∈ sortFields (canonicalFields fields), Texts field.2 := by
    intro field hfield
    have hmem := (sortFields_perm _).mem_iff.mp hfield
    rw [canonicalFields_eq, List.mem_map] at hmem
    obtain ⟨source, hsource, rfl⟩ := hmem
    exact ⟨source.2, properFields_iff.mp hproper.2 source hsource, rfl⟩
  constructor
  · intro h key
    simp only [Doc.canonical, List.cons.injEq, true_and, List.append_cancel_right_eq] at h
    have hclose := congrArg (· ++ 125 :: []) h
    have hmembers (fields : List (Text × Doc)) (hproper : (Doc.object fields).Proper) :
        ∀ x ∈ (sortFields (canonicalFields fields)).map member, Members Texts x := by
      rw [List.forall_mem_map]
      exact fun field hfield => ⟨field, htexts hproper field hfield, rfl⟩
    obtain ⟨hsame, -⟩ := joined_append_inj (separates_members separates_texts) (opens_members _) (.inr rfl) (hmembers f hf) (hmembers g hg)
      hclose
    have hsorted := sortFields_members_eq (htexts hf) (htexts hg) hsame
    have hperm := (sortFields_eq_iff hkeys).mp hsorted
    ext text
    rw [← mem_canonicalFields hf, ← mem_canonicalFields hg, hperm.mem_iff]
  · intro h
    have hperm : (canonicalFields f).Perm (canonicalFields g) := by
      rw [List.perm_ext_iff_of_nodup (List.Nodup.of_map _ hkeys) (List.Nodup.of_map _ hkeys')]
      rintro ⟨key, text⟩
      rw [mem_canonicalFields hf, mem_canonicalFields hg, h key]
    rw [Doc.canonical, Doc.canonical, (sortFields_eq_iff hkeys).mpr hperm]

end TokenProxy.Lib.CanonicalJson
