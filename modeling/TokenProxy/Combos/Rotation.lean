import TokenProxy.Combos.Ordering
import TokenProxy.Lib.Run
import Mathlib.Data.List.Rotate
import Mathlib.Data.Nat.Count
import Mathlib.Order.Interval.Finset.Nat

/-!
# Round robin over the members of a combo

The cursors of all combos are in one table. A dispatch rotates the members and moves the cursor of
its combo, a member that answers in the place of another moves it behind itself, and a cursor can be
reset.

* `leaders_eq`: of a combo that is only dispatched, cursor and use count are one counter that goes
  round.
* `rotation_fair`: in as many dispatches as there are members, times the sticky limit, each member
  leads as often as the limit says, wherever the cursor stood and whatever is done to the other
  combos in between.
-/

namespace TokenProxy.Combos.Dispatch

open Lib

/-- `comboRotationState` -/
abbrev RotationTable := Dict String Rotation

/-- `comboName || "__default__"` -/
def rotationKey (comboName : String) : String := if comboName = "" then "__default__" else comboName

def advanceRotationAfterSuccessfulFallback {α : Type} (models : List α) (strategy : Strategy)
    (servedModelIndex : ℕ) (existing : Option Rotation) : Option Rotation :=
  if models.length ≤ 1 ∨ strategy ≠ .roundRobin ∨ models.length ≤ servedModelIndex then existing
  else some ⟨(servedModelIndex + 1) % models.length, 0⟩

def RotationTable.set (table : RotationTable) (key : String) : Option Rotation → RotationTable
  | some rotation => table.put (key, rotation)
  | none => table

inductive RotationOp where
  | dispatch (comboName : String) (models : List ModelStr) (strategy : Strategy) (stickyLimit : Option ℤ)
  | servedFallback (comboName : String) (models : List ModelStr) (strategy : Strategy) (servedModelIndex : ℕ)
  /-- `resetComboRotation`, of all combos where there is no name. -/
  | reset (comboName : String)

def rotationStep (table : RotationTable) : RotationOp → RotationTable
  | .dispatch comboName models strategy stickyLimit =>
    table.set (rotationKey comboName) (getRotatedModels models strategy stickyLimit (table.lookup (rotationKey comboName))).2
  | .servedFallback comboName models strategy servedModelIndex =>
    table.set (rotationKey comboName)
      (advanceRotationAfterSuccessfulFallback models strategy servedModelIndex (table.lookup (rotationKey comboName)))
  | .reset comboName => if comboName = "" then Table.empty else table.erase comboName

def RotationOp.touches (key : String) : RotationOp → Bool
  | .dispatch comboName _ _ _ => rotationKey comboName = key
  | .servedFallback comboName _ _ _ => rotationKey comboName = key
  | .reset comboName => comboName = "" ∨ comboName = key

/-- The members in the order of a dispatch, as `handleComboChat` hands
them to `getRotatedModels`. -/
def rotatedEntries (models : List ModelStr) (strategy : Strategy) (stickyLimit : Option ℤ)
    (existing : Option Rotation) : List ComboEntry :=
  (getRotatedModels (models.mapIdx fun originalIndex modelStr => ⟨modelStr, originalIndex⟩) strategy stickyLimit existing).1

/-- The places of the members that led the dispatches of a combo. -/
def leaders (key : String) (table : RotationTable) : List RotationOp → List ℕ
  | [] => []
  | op :: ops =>
    (match op with
      | .dispatch comboName models strategy stickyLimit =>
        if rotationKey comboName = key then
          ((rotatedEntries models strategy stickyLimit (table.lookup key)).head?.map ComboEntry.originalIndex).toList
        else []
      | _ => []) ++ leaders key (rotationStep table op) ops

/-! ### One dispatch -/

def turns (stickyLimit : Option ℤ) : ℕ := (normalizeStickyLimit stickyLimit).toNat

theorem turns_pos (stickyLimit : Option ℤ) : 0 < turns stickyLimit := by
  unfold turns normalizeStickyLimit
  cases stickyLimit with
  | none => decide
  | some limit =>
    simp only
    split <;> omega

theorem normalizeStickyLimit_le {stickyLimit : Option ℤ}
    {n : ℕ} : normalizeStickyLimit stickyLimit ≤ (n : ℤ) ↔ turns stickyLimit ≤ n := by
  unfold turns
  omega

theorem rotateModelsFromIndex_eq {α : Type} (n : ℕ) :
    ∀ models : List α, rotateModelsFromIndex models n = models.rotate n := by
  induction n with
  | zero =>
    intro models
    rw [rotateModelsFromIndex, List.rotate_zero]
  | succ n ih =>
    intro models
    cases models with
    | nil => rw [rotateModelsFromIndex, List.rotate_nil]
    | cons moved rotated => rw [rotateModelsFromIndex, ih, List.rotate_cons_succ]

theorem lookup_set_self (table : RotationTable) (key : String) (rotation : Option Rotation) :
    Table.lookup (table.set key rotation) key = rotation.or (table.lookup key) := by
  cases rotation with
  | none => rfl
  | some rotation => simp [RotationTable.set, Table.lookup_put]

theorem lookup_set_ne (table : RotationTable) {key key' : String} (h : key' ≠ key)
    (rotation : Option Rotation) :
    Table.lookup (table.set key rotation) key' = table.lookup key' := by
  cases rotation with
  | none => rfl
  | some rotation => simp [RotationTable.set, Table.lookup_put, h]

theorem lookup_rotationStep (table : RotationTable) {op : RotationOp} {key : String}
    (h : op.touches key = false) :
    (rotationStep table op).lookup key = table.lookup key := by
  cases op with
  | dispatch comboName models strategy stickyLimit =>
    have hkey : key ≠ rotationKey comboName := fun he => by simp [RotationOp.touches, he] at h
    exact lookup_set_ne table hkey _
  | servedFallback comboName models strategy servedModelIndex =>
    have hkey : key ≠ rotationKey comboName := fun he => by simp [RotationOp.touches, he] at h
    exact lookup_set_ne table hkey _
  | reset comboName =>
    simp only [RotationOp.touches, decide_eq_false_iff_not, not_or] at h
    rw [rotationStep, if_neg h.1, Table.lookup_erase, if_neg fun he => h.2 he.symm]

def counter (n limit : ℕ) (existing : Option Rotation) : ℕ :=
  (existing.getD ⟨0, 0⟩).index % n * limit + (existing.getD ⟨0, 0⟩).consecutiveUseCount

def UseBelow (limit : ℕ) (existing : Option Rotation) : Prop := ∀ rotation, existing = some rotation → rotation.consecutiveUseCount < limit

theorem UseBelow.getD {limit : ℕ} {existing : Option Rotation} (h : UseBelow limit existing)
    (hlimit : 0 < limit) :
    (existing.getD ⟨0, 0⟩).consecutiveUseCount < limit := by
  cases existing with
  | none => exact hlimit
  | some rotation => exact h rotation rfl

theorem counter_lt {n limit : ℕ} {existing : Option Rotation} (hn : 0 < n) (hlimit : 0 < limit)
    (h : UseBelow limit existing) :
    counter n limit existing < n * limit := by
  have hindex : (existing.getD ⟨0, 0⟩).index % n < n := Nat.mod_lt _ hn
  have huse := h.getD hlimit
  unfold counter
  calc (existing.getD ⟨0, 0⟩).index % n * limit + (existing.getD ⟨0, 0⟩).consecutiveUseCount
      < (existing.getD ⟨0, 0⟩).index % n * limit + limit := by omega
    _ = ((existing.getD ⟨0, 0⟩).index % n + 1) * limit := (Nat.succ_mul _ _).symm
    _ ≤ n * limit := Nat.mul_le_mul_right limit hindex

theorem counter_div {n limit : ℕ} {existing : Option Rotation} (hlimit : 0 < limit)
    (h : UseBelow limit existing) :
    counter n limit existing / limit = (existing.getD ⟨0, 0⟩).index % n := by
  unfold counter
  rw [Nat.mul_comm, Nat.mul_add_div hlimit, Nat.div_eq_of_lt (h.getD hlimit), Nat.add_zero]

section Dispatch

variable {α : Type} {models : List α} {stickyLimit : Option ℤ} {existing : Option Rotation}

theorem useBelow_getRotatedModels (models : List α) (strategy : Strategy)
    (h : UseBelow (turns stickyLimit) existing) :
    UseBelow (turns stickyLimit) (getRotatedModels models strategy stickyLimit existing).2 := by
  unfold getRotatedModels
  split
  · exact h
  · simp only
    split
    · rintro rotation he
      rw [← Option.some.inj he]
      exact turns_pos stickyLimit
    · rename_i hlimit
      rintro rotation he
      rw [← Option.some.inj he]
      exact not_le.mp (mt normalizeStickyLimit_le.mpr hlimit)

theorem counter_getRotatedModels (hmodels : 2 ≤ models.length)
    (h : UseBelow (turns stickyLimit) existing) :
    counter models.length (turns stickyLimit) (getRotatedModels models .roundRobin stickyLimit existing).2 =
      (counter models.length (turns stickyLimit) existing + 1) % (models.length * turns stickyLimit) := by
  have huse := h.getD (turns_pos stickyLimit)
  have hindex : (existing.getD ⟨0, 0⟩).index % models.length < models.length := Nat.mod_lt _ (by omega)
  have hshort : ¬ (models.length ≤ 1 ∨ Strategy.roundRobin ≠ .roundRobin) := by
    rintro (hle | hne)
    · omega
    · exact hne rfl
  unfold getRotatedModels
  rw [if_neg hshort]
  simp only [normalizeStickyLimit_le]
  split
  · rename_i hlimit
    have hcount : counter models.length (turns stickyLimit) existing + 1 =
        ((existing.getD ⟨0, 0⟩).index % models.length + 1) * turns stickyLimit := by
      unfold counter
      rw [Nat.add_mul]
      omega
    rw [hcount, Nat.mul_mod_mul_right]
    simp [counter]
  · rename_i hlimit
    have hcount : counter models.length (turns stickyLimit) existing + 1 < models.length * turns stickyLimit := by
      have hle : (existing.getD ⟨0, 0⟩).index % models.length * turns stickyLimit + turns stickyLimit ≤ models.length * turns stickyLimit := by
        rw [← Nat.succ_mul]
        exact Nat.mul_le_mul_right _ hindex
      unfold counter
      omega
    rw [Nat.mod_eq_of_lt hcount]
    simp [counter, Nat.add_assoc]

end Dispatch

theorem head?_rotatedEntries {models : List ModelStr} (hmodels : 2 ≤ models.length)
    (stickyLimit : Option ℤ) (existing : Option Rotation) :
    (rotatedEntries models .roundRobin stickyLimit existing).head?.map ComboEntry.originalIndex =
      some ((existing.getD ⟨0, 0⟩).index % models.length) := by
  have hindex : (existing.getD ⟨0, 0⟩).index % models.length < models.length := Nat.mod_lt _ (by omega)
  have hshort : ¬ (models.length ≤ 1 ∨ Strategy.roundRobin ≠ .roundRobin) := by
    rintro (hle | hne)
    · omega
    · exact hne rfl
  unfold rotatedEntries getRotatedModels
  rw [List.length_mapIdx, if_neg hshort]
  simp only [rotateModelsFromIndex_eq]
  rw [List.head?_rotate (by rwa [List.length_mapIdx]), List.getElem?_mapIdx, List.getElem?_eq_getElem hindex]
  rfl

/-! ### Runs -/

variable {key : String} {stickyLimit : Option ℤ}

/-- The dispatches of the combo among the operations all have the limit. -/
def SameLimit (key : String) (stickyLimit : Option ℤ) (ops : List RotationOp) : Prop :=
  ∀ comboName models strategy limit, .dispatch comboName models strategy limit ∈ ops → rotationKey comboName = key →
    normalizeStickyLimit limit = normalizeStickyLimit stickyLimit

theorem useBelow_rotationStep {table : RotationTable} {op : RotationOp}
    (h : UseBelow (turns stickyLimit) (table.lookup key))
    (hlimit : SameLimit key stickyLimit [op]) :
    UseBelow (turns stickyLimit) ((rotationStep table op).lookup key) := by
  cases op with
  | dispatch comboName models strategy limit =>
    by_cases hkey : rotationKey comboName = key
    · subst hkey
      have hsame : turns limit = turns stickyLimit := by
        unfold turns
        rw [hlimit comboName models strategy limit (by simp) rfl]
      rw [← hsame] at h ⊢
      have hmoved := useBelow_getRotatedModels models strategy h
      rw [rotationStep, lookup_set_self]
      intro rotation he
      rcases Option.or_eq_some_iff.mp he with he | ⟨-, he⟩
      · exact hmoved rotation he
      · exact h rotation he
    · rw [lookup_rotationStep table (by simp [RotationOp.touches, hkey])]
      exact h
  | servedFallback comboName models strategy servedModelIndex =>
    by_cases hkey : rotationKey comboName = key
    · subst hkey
      rw [rotationStep, lookup_set_self]
      unfold advanceRotationAfterSuccessfulFallback
      intro rotation he
      split at he
      · rw [Option.or_self] at he
        exact h rotation he
      · rw [Option.some_or, Option.some.injEq] at he
        rw [← he]
        exact turns_pos stickyLimit
    · rw [lookup_rotationStep table (by simp [RotationOp.touches, hkey])]
      exact h
  | reset comboName =>
    rw [rotationStep]
    split
    · intro rotation he
      exact absurd he (by simp [Table.lookup])
    · rw [Table.lookup_erase]
      split
      · intro rotation he
        exact absurd he (by simp)
      · exact h

theorem useBelow_run {ops : List RotationOp} {table : RotationTable}
    (h : UseBelow (turns stickyLimit) (table.lookup key))
    (hlimit : SameLimit key stickyLimit ops) :
    UseBelow (turns stickyLimit) ((run rotationStep table ops).lookup key) := by
  induction ops generalizing table with
  | nil => exact h
  | cons op ops ih =>
    refine ih (useBelow_rotationStep h ?_) fun comboName models strategy limit hmem => hlimit comboName models strategy limit (by simp [hmem])
    intro comboName models strategy limit hmem
    exact hlimit comboName models strategy limit (List.mem_cons.mpr (Or.inl (List.mem_singleton.mp hmem)))

def OnlyDispatched (comboName : String) (models : List ModelStr) (stickyLimit : Option ℤ)
    (ops : List RotationOp) : Prop :=
  ∀ op ∈ ops, op.touches (rotationKey comboName) = true → op = .dispatch comboName models .roundRobin stickyLimit

def dispatches (key : String) (ops : List RotationOp) : ℕ := ops.countP fun op => op.touches key

theorem leaders_eq {comboName : String} {models : List ModelStr} (hmodels : 2 ≤ models.length)
    {ops : List RotationOp} {table : RotationTable}
    (h : UseBelow (turns stickyLimit) (table.lookup (rotationKey comboName))) (honly : OnlyDispatched comboName models stickyLimit ops) :
    leaders (rotationKey comboName) table ops =
      (List.range (dispatches (rotationKey comboName) ops)).map fun i =>
        (counter models.length (turns stickyLimit) (table.lookup (rotationKey comboName)) + i) % (models.length * turns stickyLimit) /
          turns stickyLimit := by
  induction ops generalizing table with
  | nil => rfl
  | cons op ops ih =>
    have honly' : OnlyDispatched comboName models stickyLimit ops := fun op' hop' => honly op' (by simp [hop'])
    by_cases htouch : op.touches (rotationKey comboName) = true
    · obtain rfl := honly op (by simp) htouch
      have hpos := turns_pos stickyLimit
      have hlt := counter_lt (n := models.length) (by omega) hpos h
      have hstep : (rotationStep table (.dispatch comboName models .roundRobin stickyLimit)).lookup (rotationKey comboName) =
          (getRotatedModels models .roundRobin stickyLimit (table.lookup (rotationKey comboName))).2 := by
        rw [rotationStep, lookup_set_self]
        unfold getRotatedModels
        rw [if_neg (by simp; omega)]
        simp only
        split <;> rfl
      have hcount : dispatches (rotationKey comboName) (.dispatch comboName models .roundRobin stickyLimit :: ops) =
          dispatches (rotationKey comboName) ops + 1 := List.countP_cons_of_pos htouch
      rw [leaders, ih (hstep ▸ useBelow_getRotatedModels models .roundRobin h) honly', hstep, counter_getRotatedModels hmodels h, hcount,
        List.range_succ_eq_map, List.map_cons, List.map_map]
      simp only [if_true, head?_rotatedEntries hmodels, Option.toList_some, List.singleton_append, Nat.add_zero, Nat.mod_eq_of_lt hlt,
        counter_div hpos h]
      congr 1
      apply List.map_congr_left
      intro i _
      simp only [Function.comp, Nat.mod_add_mod, Nat.succ_eq_add_one]
      rw [Nat.add_assoc, Nat.add_comm 1 i]
    · have hfalse : op.touches (rotationKey comboName) = false := by simpa using htouch
      have hcount : dispatches (rotationKey comboName) (op :: ops) = dispatches (rotationKey comboName) ops :=
        List.countP_cons_of_neg htouch
      have hsame := lookup_rotationStep table hfalse
      have hnone : leaders (rotationKey comboName) table (op :: ops) = leaders (rotationKey comboName) (rotationStep table op) ops := by
        cases op with
        | dispatch name models strategy limit =>
          rw [leaders, if_neg (by simpa [RotationOp.touches] using hfalse), List.nil_append]
        | servedFallback => rfl
        | reset => rfl
      rw [hnone, ih (hsame ▸ h) honly', hsame, hcount]

/-! ### Rounds -/

theorem countP_range (p : ℕ → Prop) [DecidablePred p]
    (n : ℕ) : (List.range n).countP (fun i => p i) = Nat.count p n := by
  induction n with
  | zero => rfl
  | succ n ih =>
    rw [List.range_succ, List.countP_append, ih, Nat.count_succ]
    by_cases h : p n <;> simp [h]

theorem count_shift {p : ℕ → Prop} [DecidablePred p] {n : ℕ} (h : ∀ i, p (n + i) ↔ p i)
    (start : ℕ) :
    Nat.count (fun i => p (start + i)) n = Nat.count p n := by
  have hafter := Nat.count_add p start n
  have hbefore := Nat.count_add p n start
  have hperiod : Nat.count (fun i => p (n + i)) start = Nat.count p start := by
    simp only [h]
  rw [Nat.add_comm n start] at hbefore
  omega

theorem count_div {limit place n : ℕ} (hlimit : 0 < limit) (hplace : place < n) :
    Nat.count (fun i => i % (n * limit) / limit = place) (n * limit) = limit := by
  rw [Nat.count_eq_card_filter_range]
  have hmem : (Finset.range (n * limit)).filter (fun i => i % (n * limit) / limit = place) =
      Finset.Ico (place * limit) (place * limit + limit) := by
    ext i
    have hround : place * limit + limit ≤ n * limit := by
      rw [← Nat.succ_mul]
      exact Nat.mul_le_mul_right _ hplace
    rw [Finset.mem_filter, Finset.mem_range, Finset.mem_Ico]
    constructor
    · rintro ⟨hi, he⟩
      rw [Nat.mod_eq_of_lt hi, Nat.div_eq_iff hlimit] at he
      omega
    · rintro ⟨hlow, hhigh⟩
      have hi : i < n * limit := by omega
      rw [Nat.mod_eq_of_lt hi, Nat.div_eq_iff hlimit]
      omega
  rw [hmem, Nat.card_Ico]
  omega

/-- Once round, each member leads as many dispatches as the sticky limit says: from any cursor that
a run with that limit leaves, and whatever happens to other combos in between. -/
theorem rotation_fair (comboName : String) (models : List ModelStr) (stickyLimit : Option ℤ)
    (before ops : List RotationOp)
    (hmodels : 2 ≤ models.length) (hlimit : SameLimit (rotationKey comboName) stickyLimit before)
    (honly : OnlyDispatched comboName models stickyLimit ops)
    (hround : dispatches (rotationKey comboName) ops = models.length * turns stickyLimit) (place : ℕ) (hplace : place < models.length) :
    (leaders (rotationKey comboName) (run rotationStep Table.empty before) ops).count place = turns stickyLimit := by
  have hstart : UseBelow (turns stickyLimit) ((Table.empty : RotationTable).lookup (rotationKey comboName)) := by
    intro rotation he
    exact absurd he (by simp [Table.lookup])
  rw [leaders_eq hmodels (useBelow_run hstart hlimit) honly, hround, List.count, List.countP_map]
  generalize counter models.length (turns stickyLimit) _ = start
  have hshift := count_shift (p := fun i => i % (models.length * turns stickyLimit) / turns stickyLimit = place)
    (n := models.length * turns stickyLimit) (fun i => by simp) start
  calc (List.range (models.length * turns stickyLimit)).countP _
      = (List.range (models.length * turns stickyLimit)).countP
          fun i => (start + i) % (models.length * turns stickyLimit) / turns stickyLimit = place := by
        apply List.countP_congr
        intro i _
        simp
    _ = Nat.count (fun i => (start + i) % (models.length * turns stickyLimit) / turns stickyLimit = place)
          (models.length * turns stickyLimit) := countP_range _ _
    _ = Nat.count (fun i => i % (models.length * turns stickyLimit) / turns stickyLimit = place) (models.length * turns stickyLimit) := hshift
    _ = turns stickyLimit := count_div (turns_pos stickyLimit) hplace

def pairDispatch : RotationOp := .dispatch "pair" ["a/x".toList, "b/y".toList] .roundRobin (some 2)

theorem pair_leads_equally :
    (leaders (rotationKey "pair")
      (run rotationStep Table.empty [.servedFallback "pair" ["a/x".toList, "b/y".toList] .roundRobin 0])
      [pairDispatch, .reset "other", pairDispatch, pairDispatch, pairDispatch]).count 1 = turns (some 2) := by
  refine rotation_fair "pair" ["a/x".toList, "b/y".toList] (some 2) _ _ (by decide) ?_ ?_ (by decide) 1 (by decide)
  · intro comboName models strategy limit hmem
    simp at hmem
  · intro op hop htouch
    simp only [List.mem_cons, List.not_mem_nil, or_false] at hop
    rcases hop with rfl | rfl | rfl | rfl | rfl
    · rfl
    · exact absurd htouch (by decide)
    · rfl
    · rfl
    · rfl

end TokenProxy.Combos.Dispatch
