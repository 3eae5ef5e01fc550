import Mathlib.Data.List.Basic

/-!
# Lines of a growing file

A file is a list of bytes; a line is complete once its newline is there. A reader that stops after
the last complete line and resumes there reads the lines of the whole file, each once
(`splitLines_resume`).
-/

namespace TokenProxy.Lib

abbrev Bytes := List UInt8

def newline : UInt8 := 10

/-- The complete lines of a text, without their newlines, and what follows the last newline. -/
def splitLines : Bytes → List Bytes × Bytes
  | [] => ([], [])
  | b :: bs =>
    match splitLines bs with
    | (lines, rest) =>
      if b = newline then ([] :: lines, rest)
      else
        match lines with
        | [] => ([], b :: rest)
        | l :: ls => ((b :: l) :: ls, rest)

def unlines (lines : List Bytes) : Bytes := lines.flatMap fun l => l ++ [newline]

@[simp] theorem unlines_nil : unlines [] = [] := rfl

@[simp] theorem unlines_cons (l : Bytes) (ls : List Bytes) :
    unlines (l :: ls) = l ++ newline :: unlines ls := by
  simp [unlines]

theorem unlines_splitLines (bs : Bytes) : unlines (splitLines bs).1 ++ (splitLines bs).2 = bs := by
  induction bs with
  | nil => rfl
  | cons b bs ih =>
    unfold splitLines
    cases hsplit : splitLines bs with
    | mk lines rest =>
      rw [hsplit] at ih
      simp only at ih ⊢
      split
      · rename_i hb
        simp [hb, ih]
      · cases lines with
        | nil => simpa using ih
        | cons l ls => simpa using ih

theorem newline_notMem_splitLines (bs : Bytes) :
    (∀ l ∈ (splitLines bs).1, newline ∉ l) ∧ newline ∉ (splitLines bs).2 := by
  induction bs with
  | nil => exact ⟨fun l hl => absurd hl List.not_mem_nil, List.not_mem_nil⟩
  | cons b bs ih =>
    unfold splitLines
    cases hsplit : splitLines bs with
    | mk lines rest =>
      rw [hsplit] at ih
      obtain ⟨hlines, hrest⟩ := ih
      simp only
      split
      · exact ⟨List.forall_mem_cons.mpr ⟨List.not_mem_nil, hlines⟩, hrest⟩
      · rename_i hb
        cases lines with
        | nil =>
          refine ⟨fun l hl => absurd hl List.not_mem_nil, ?_⟩
          rw [List.mem_cons, not_or]
          exact ⟨Ne.symm hb, hrest⟩
        | cons l ls =>
          obtain ⟨hl, hls⟩ := List.forall_mem_cons.mp hlines
          refine ⟨List.forall_mem_cons.mpr ⟨?_, hls⟩, hrest⟩
          rw [List.mem_cons, not_or]
          exact ⟨Ne.symm hb, hl⟩

theorem splitLines_cons_newline (bs : Bytes) :
    splitLines (newline :: bs) = ([] :: (splitLines bs).1, (splitLines bs).2) := by
  rfl

theorem splitLines_line {l : Bytes} (hl : newline ∉ l) (bs : Bytes) :
    splitLines (l ++ newline :: bs) = (l :: (splitLines bs).1, (splitLines bs).2) := by
  induction l with
  | nil => exact splitLines_cons_newline bs
  | cons b l ih =>
    rw [List.mem_cons, not_or] at hl
    rw [List.cons_append, splitLines, ih hl.2]
    simp only
    rw [if_neg (Ne.symm hl.1)]

/-- **A reader that resumes after complete lines** reads the lines that follow. -/
theorem splitLines_resume {lines : List Bytes} (hlines : ∀ l ∈ lines, newline ∉ l) (bs : Bytes) :
    splitLines (unlines lines ++ bs) = (lines ++ (splitLines bs).1, (splitLines bs).2) := by
  induction lines with
  | nil => rfl
  | cons l ls ih =>
    obtain ⟨hl, hls⟩ := List.forall_mem_cons.mp hlines
    rw [unlines_cons, List.append_assoc, List.cons_append, splitLines_line hl, ih hls]
    rfl

theorem splitLines_prefix {xs ys : Bytes} (h : xs <+: ys) :
    (splitLines xs).1 <+: (splitLines ys).1 := by
  obtain ⟨bs, rfl⟩ := h
  conv_rhs => rw [← unlines_splitLines xs, List.append_assoc, splitLines_resume (newline_notMem_splitLines xs).1]
  exact List.prefix_append _ _

end TokenProxy.Lib
