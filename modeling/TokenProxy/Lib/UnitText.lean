import TokenProxy.Lib.JsonText
import Mathlib.Data.List.Infix

/-!
# Strings by their code units

What the string methods of JavaScript do with white space and with parts of a string.
-/

namespace TokenProxy.Lib.JsonText

/-- What `\s` matches, and `trim` removes. -/
def isBlankUnit (c : CodeUnit) : Bool :=
  (9 ≤ c && c ≤ 13) || (0x2000 ≤ c && c ≤ 0x200a) || [32, 0xa0, 0x1680, 0x2028, 0x2029, 0x202f, 0x205f, 0x3000, 0xfeff].contains c

/-- `String.prototype.trimStart` -/
def trimStart (text : Text) : Text := text.dropWhile isBlankUnit

def afterLast (part : Text) : Text → Option Text
  | [] => none
  | c :: text =>
    match afterLast part text with
    | some rest => some rest
    | none => if part.isPrefixOf (c :: text) then some ((c :: text).drop part.length) else none

variable {part text rest : Text}

theorem trimStart_append (text more : Text) :
    trimStart text = [] ∨ trimStart (text ++ more) = trimStart text ++ more := by
  unfold trimStart
  rw [List.dropWhile_append]
  by_cases h : (text.dropWhile isBlankUnit).isEmpty
  · exact .inl (List.isEmpty_iff.mp h)
  · exact .inr (if_neg h)

theorem afterLast_eq (h : afterLast part text = some rest) :
    ∃ before, text = before ++ (part ++ rest) := by
  induction text with
  | nil => exact absurd h (by simp [afterLast])
  | cons c text ih =>
    rw [afterLast] at h
    cases hlater : afterLast part text with
    | some found =>
      simp only [hlater, Option.some.injEq] at h
      obtain ⟨before, hbefore⟩ := ih (hlater.trans (congrArg some h))
      exact ⟨c :: before, by rw [List.cons_append, ← hbefore]⟩
    | none =>
      simp only [hlater] at h
      split at h
      · rename_i hleading
        obtain ⟨behind, hbehind⟩ := List.isPrefixOf_iff_prefix.mp hleading
        rw [← hbehind, List.drop_left, Option.some.injEq] at h
        exact ⟨[], by rw [List.nil_append, ← hbehind, h]⟩
      · exact absurd h (by simp)

theorem afterLast_of_append (hne : part ≠ []) (before rest : Text) :
    ∃ last, afterLast part (before ++ (part ++ rest)) = some last ∧ last.length ≤ rest.length := by
  induction before with
  | nil =>
    cases part with
    | nil => exact absurd rfl hne
    | cons c part =>
      rw [List.nil_append, List.cons_append, afterLast]
      cases hlater : afterLast (c :: part) (part ++ rest) with
      | some last =>
        obtain ⟨between, hbetween⟩ := afterLast_eq hlater
        have hlength := congrArg List.length hbetween
        simp only [List.length_append, List.length_cons] at hlength
        exact ⟨last, rfl, by omega⟩
      | none =>
        have hleading : (c :: part).isPrefixOf (c :: (part ++ rest)) = true :=
          List.isPrefixOf_iff_prefix.mpr (List.prefix_append (c :: part) rest)
        refine ⟨rest, ?_, le_refl _⟩
        simp only [hleading, if_true]
        exact congrArg some (@List.drop_left _ (c :: part) rest)
  | cons c before ih =>
    obtain ⟨last, hlast, hle⟩ := ih
    exact ⟨last, by rw [List.cons_append, afterLast, hlast], hle⟩

/-- More text in which the part does not end goes behind the last occurrence. -/
theorem afterLast_append {more : Text} (hne : part ≠ []) (h : afterLast part text = some rest)
    (hbehind : ∀ before after, text ++ more = before ++ (part ++ after) → (before ++ part).length ≤ text.length) :
    afterLast part (text ++ more) = some (rest ++ more) := by
  obtain ⟨before, rfl⟩ := afterLast_eq h
  rw [List.append_assoc, List.append_assoc] at hbehind ⊢
  obtain ⟨last, hlast, hle⟩ := afterLast_of_append hne before (rest ++ more)
  obtain ⟨before', hbefore'⟩ := afterLast_eq hlast
  obtain ⟨between, hbetween⟩ := List.prefix_of_prefix_length_le
    (show before' ++ part <+: before ++ (part ++ (rest ++ more)) from ⟨last, by rw [hbefore', List.append_assoc]⟩)
    (show before ++ (part ++ rest) <+: before ++ (part ++ (rest ++ more)) from
      ⟨more, by rw [List.append_assoc, List.append_assoc]⟩) (hbehind before' last hbefore')
  -- the last occurrence of the longer text is one of the shorter text, so it
  -- is not in front of its last
  obtain ⟨found, hfound, hshort⟩ := afterLast_of_append hne before' between
  rw [← List.append_assoc, hbetween, h, Option.some.injEq] at hfound
  subst hfound
  have hlast_eq : between ++ more = last := by
    have hsame : before' ++ part ++ (between ++ more) = before' ++ part ++ last := by
      rw [← List.append_assoc, hbetween, List.append_assoc before', ← hbefore']
      simp only [List.append_assoc]
    exact List.append_cancel_left hsame
  have hlength := congrArg List.length hlast_eq
  rw [List.length_append] at hle hlength
  have hrest : between = rest := by
    rw [← List.append_assoc before part] at hbetween
    exact (List.append_inj' hbetween (by omega)).2
  rw [hlast, ← hlast_eq, hrest]

end TokenProxy.Lib.JsonText
