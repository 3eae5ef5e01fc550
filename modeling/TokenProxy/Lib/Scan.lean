import Mathlib.Data.List.Infix

/-!
# Searching a text from left to right

A matcher says how long its match at the front of a text is, 0 where it has none. `scan` looks for
the leftmost match, and goes on behind it: the signs that no match holds are copied one by one.
-/

namespace TokenProxy.Lib

inductive Piece (α : Type*) where
  | sign (c : α)
  | found (m : List α)
  deriving DecidableEq

variable {α β : Type*}

def Piece.source : Piece α → List α
  | .sign c => [c]
  | .found m => m

def scanFrom (matchAt : List α → ℕ) : ℕ → List α → List (Piece α)
  | _, [] => []
  | skip + 1, _ :: text => scanFrom matchAt skip text
  | 0, c :: text =>
    match matchAt (c :: text) with
    | 0 => .sign c :: scanFrom matchAt 0 text
    | n + 1 => .found ((c :: text).take (n + 1)) :: scanFrom matchAt n text

def scan (matchAt : List α → ℕ) (text : List α) : List (Piece α) := scanFrom matchAt 0 text

variable {matchAt : List α → ℕ}

theorem scanFrom_eq (skip : ℕ) (text : List α) :
    scanFrom matchAt skip text = scan matchAt (text.drop skip) := by
  induction text generalizing skip with
  | nil =>
    rw [List.drop_nil]
    cases skip <;> rfl
  | cons c text ih =>
    cases skip with
    | zero => rfl
    | succ skip =>
      rw [List.drop_succ_cons, ← ih]
      rfl

@[simp] theorem scan_nil : scan matchAt [] = [] := rfl

theorem scan_sign {c : α} {text : List α} (h : matchAt (c :: text) = 0) :
    scan matchAt (c :: text) = .sign c :: scan matchAt text := by
  show scanFrom matchAt 0 (c :: text) = _
  rw [scanFrom, h]
  rfl

theorem scan_found {m text : List α} (hne : m ≠ []) (h : matchAt (m ++ text) = m.length) :
    scan matchAt (m ++ text) = .found m :: scan matchAt text := by
  cases m with
  | nil => exact absurd rfl hne
  | cons c m =>
    show scanFrom matchAt 0 (c :: (m ++ text)) = _
    rw [List.cons_append] at h
    rw [scanFrom, h]
    simp only [List.length_cons]
    rw [scanFrom_eq, List.take_succ_cons, List.take_left, List.drop_left]

theorem scan_induction (hle : ∀ text, matchAt text ≤ text.length) {P : List α → Prop} (nil : P [])
    (sign : ∀ c text, matchAt (c :: text) = 0 → P text → P (c :: text))
    (found : ∀ m text, m ≠ [] → matchAt (m ++ text) = m.length → P text → P (m ++ text)) (text : List α) : P text := by
  induction hn : text.length using Nat.strong_induction_on generalizing text with
  | h n ih =>
    cases text with
    | nil => exact nil
    | cons c text =>
      cases hmatch : matchAt (c :: text) with
      | zero => exact sign c text hmatch (ih text.length (by simp [← hn]) text rfl)
      | succ k =>
        have hk := hle (c :: text)
        rw [hmatch] at hk
        have hsplit := List.take_append_drop (k + 1) (c :: text)
        have hlength : ((c :: text).take (k + 1)).length = k + 1 := by rw [List.length_take, Nat.min_eq_left hk]
        rw [← hsplit]
        refine found _ _ ?_ (by rw [hsplit, hmatch, hlength]) (ih ((c :: text).drop (k + 1)).length ?_ _ rfl)
        · intro hnil
          rw [hnil] at hlength
          simp at hlength
        · rw [List.length_drop, hn]
          rw [← hn, List.length_cons] at *
          omega

theorem flatMap_source_scan (hle : ∀ text, matchAt text ≤ text.length)
    (text : List α) : (scan matchAt text).flatMap Piece.source = text := by
  induction text using scan_induction hle with
  | nil => rfl
  | sign c text h ih => rw [scan_sign h, List.flatMap_cons, ih, Piece.source, List.singleton_append]
  | found m text hne h ih => rw [scan_found hne h, List.flatMap_cons, ih, Piece.source]

theorem scan_signs_append {u y : List α} (h : ∀ s t, u = s ++ t → t ≠ [] → matchAt (t ++ y) = 0) :
    scan matchAt (u ++ y) = u.map .sign ++ scan matchAt y := by
  induction u with
  | nil => rfl
  | cons c u ih =>
    have hnone : matchAt (c :: (u ++ y)) = 0 := h [] (c :: u) rfl (by simp)
    rw [List.cons_append, scan_sign hnone, List.map_cons, List.cons_append]
    rw [ih fun s t hst ht => h (c :: s) t (by rw [hst, List.cons_append]) ht]

end TokenProxy.Lib
