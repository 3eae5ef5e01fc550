import Std.Data.String.ToInt
import TokenProxy.Lib.JsonString

/-!
# Rows as JSON

`rowText` is what `JSON.stringify` makes of a row of texts, integers and nulls. Rows of the same
columns that have the same text are the same (`rowText_inj`).
-/

namespace TokenProxy.Lib.Json

inductive Cell where
  | null
  | integer (n : ℤ)
  | text (s : List Char)
  deriving DecidableEq

def Cell.json : Cell → List Char
  | .null => ['n', 'u', 'l', 'l']
  | .integer n => n.repr.toList
  | .text s => '"' :: escape s ++ ['"']

def membersText : List (List Char × Cell) → List Char
  | [] => ['}']
  | (name, cell) :: members =>
    '"' :: escape name ++ '"' :: ':' :: cell.json ++ (if members.isEmpty then [] else [',']) ++ membersText members

/-- `JSON.stringify(row)` -/
def rowText (row : List (List Char × Cell)) : List Char := '{' :: membersText row

/-! ### Reading cells back -/

def isNumberSign (c : Char) : Bool := c = '-' || c.isDigit

theorem isNumberSign_repr (n : ℤ) : ∀ c ∈ n.repr.toList, isNumberSign c = true := by
  have hnat : ∀ m : ℕ, ∀ c ∈ m.repr.toList, isNumberSign c = true := by
    intro m c hc
    rw [Nat.toList_repr] at hc
    simp [isNumberSign, Nat.isDigit_of_mem_toDigits (by decide) (by decide) hc]
  cases n with
  | ofNat m => exact hnat m
  | negSucc m =>
    intro c hc
    simp only [Int.repr, String.toList_append, List.mem_append] at hc
    rcases hc with hc | hc
    · have hminus : "-".toList = ['-'] := by decide
      rw [hminus, List.mem_singleton] at hc
      subst hc
      decide
    · exact hnat _ c hc

theorem repr_ne_nil (n : ℤ) : n.repr.toList ≠ [] := by
  cases n with
  | ofNat m =>
    show m.repr.toList ≠ []
    rw [Nat.toList_repr]
    exact Nat.toDigits_ne_nil
  | negSucc m =>
    simp only [Int.repr, String.toList_append]
    intro h
    exact absurd (List.append_eq_nil_iff.1 h).1 (by decide)

def Ends (rest : List Char) : Prop := ∀ c ∈ rest.head?, isNumberSign c = false

theorem takeWhile_repr (n : ℤ) {rest : List Char}
    (h : Ends rest) : (n.repr.toList ++ rest).takeWhile isNumberSign = n.repr.toList := by
  rw [List.takeWhile_append_of_pos (isNumberSign_repr n)]
  cases rest with
  | nil => rw [List.takeWhile_nil, List.append_nil]
  | cons c rest => rw [List.takeWhile_cons, h c rfl, if_neg Bool.false_ne_true, List.append_nil]

theorem json_append_inj {a b : Cell} {r s : List Char} (hr : Ends r) (hs : Ends s)
    (h : a.json ++ r = b.json ++ s) : a = b ∧ r = s := by
  have htext : ∀ (t : List Char) (r : List Char), (Cell.text t).json ++ r = '"' :: (escape t ++ '"' :: r) := by
    intro t r
    simp [Cell.json]
  -- an integer begins with a sign of its own
  have hint : ∀ (n : ℤ) (r : List Char), ∃ c rest, (Cell.integer n).json ++ r = c :: rest ∧ isNumberSign c = true := by
    intro n r
    cases hrepr : n.repr.toList with
    | nil => exact absurd hrepr (repr_ne_nil n)
    | cons c rest =>
      refine ⟨c, rest ++ r, by rw [Cell.json, hrepr, List.cons_append], ?_⟩
      exact isNumberSign_repr n c (by rw [hrepr]; exact List.mem_cons_self)
  cases a with
  | null =>
    cases b with
    | null => exact ⟨rfl, List.append_cancel_left h⟩
    | integer n =>
      obtain ⟨c, rest, heq, hc⟩ := hint n s
      rw [heq] at h
      rw [← (List.cons.inj h).1] at hc
      exact absurd hc (by decide)
    | text t =>
      rw [htext] at h
      exact absurd (List.cons.inj h).1 (by decide)
  | integer m =>
    obtain ⟨c, rest, heq, hc⟩ := hint m r
    cases b with
    | null =>
      rw [heq] at h
      rw [(List.cons.inj h).1] at hc
      exact absurd hc (by decide)
    | integer n =>
      have hsame := congrArg (List.takeWhile isNumberSign) h
      rw [Cell.json, Cell.json, takeWhile_repr m hr, takeWhile_repr n hs] at hsame
      obtain rfl : m = n := Int.repr_injective (String.toList_inj.1 hsame)
      exact ⟨rfl, List.append_cancel_left h⟩
    | text t =>
      rw [heq, htext] at h
      rw [(List.cons.inj h).1] at hc
      exact absurd hc (by decide)
  | text t =>
    rw [htext] at h
    cases b with
    | null => exact absurd (List.cons.inj h).1 (by decide)
    | integer n =>
      obtain ⟨c, rest, heq, hc⟩ := hint n s
      rw [heq] at h
      rw [← (List.cons.inj h).1] at hc
      exact absurd hc (by decide)
    | text u =>
      rw [htext] at h
      have hread := congrArg readString (List.cons.inj h).2
      rw [readString_escape, readString_escape] at hread
      obtain ⟨rfl, rfl⟩ := Prod.mk.inj (Option.some.inj hread)
      exact ⟨rfl, rfl⟩

/-! ### Reading rows back -/

theorem membersText_inj {a b : List (List Char × Cell)} (hnames : a.map Prod.fst = b.map Prod.fst)
    (h : membersText a = membersText b) :
    a = b := by
  induction a generalizing b with
  | nil => exact (List.map_eq_nil_iff.1 hnames.symm).symm
  | cons x a ih =>
    cases b with
    | nil => simp at hnames
    | cons y b =>
      obtain ⟨name, cell⟩ := x
      obtain ⟨name', cell'⟩ := y
      obtain ⟨hname, hrest⟩ := List.cons.inj hnames
      obtain rfl : name = name' := hname
      have hempty : a.isEmpty = b.isEmpty := by
        cases a <;> cases b <;> simp_all
      have hends : ∀ members : List (List Char × Cell), Ends ((if members.isEmpty then [] else [',']) ++ membersText members) := by
        intro members c hc
        cases members with
        | nil =>
          obtain rfl : '}' = c := by simpa [membersText] using hc
          decide
        | cons x members =>
          obtain rfl : ',' = c := by simpa using hc
          decide
      simp only [membersText, List.append_assoc, List.cons_append, List.cons.injEq, true_and] at h
      have hcells := List.append_cancel_left h
      simp only [List.cons.injEq, true_and] at hcells
      obtain ⟨rfl, hmembers⟩ := json_append_inj (hends a) (hends b) hcells
      rw [hempty] at hmembers
      rw [ih hrest (List.append_cancel_left hmembers)]

/-- **Rows of the same columns are told apart by their texts.** -/
theorem rowText_inj {a b : List (List Char × Cell)} (hnames : a.map Prod.fst = b.map Prod.fst)
    (h : rowText a = rowText b) : a = b :=
  membersText_inj hnames (List.cons.inj h).2

end TokenProxy.Lib.Json
