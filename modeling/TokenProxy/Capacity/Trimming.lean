import TokenProxy.Capacity.History
import Mathlib.Data.List.Nodup
import Mathlib.Data.Nat.Find
import Mathlib.Algebra.Order.BigOperators.Group.List
import Mathlib.Algebra.Ring.Nat

/-!
# Trimming and tool pairs

The trimmed history is the system messages, the first older messages that fit (`keptCount`) and the
current turn. It stays valid (`StaysValid`) exactly if the system messages come first and the cut
runs through no pair of a call and its result (`CutFits`).
-/

namespace TokenProxy.Capacity

/-! ### The kept messages -/

section Selection

variable {α β : Type} (view : α → Message)

@[simp] theorem sizeOf_append (l l' : List α) :
    sizeOf view (l ++ l') = sizeOf view l + sizeOf view l' := by
  simp [sizeOf]

theorem sizeOf_perm {l l' : List α} (h : l.Perm l') : sizeOf view l = sizeOf view l' := (h.map _).sum_eq

theorem olderOf_append_tailOf (arr : List α) :
    olderOf view arr ++ tailOf view arr = restOf view arr :=
  List.take_append_drop _ _

/-- How many of the older messages are kept: as many of the first ones as fit, or none. -/
def keptCount (contextWindow : Nat) (arr : List α) : Nat :=
  Nat.findGreatest
    (fun n => overBudget contextWindow
      (sizeOf view (systemMsgs view arr ++ (olderOf view arr).take n ++ tailOf view arr)) = false)
    (min headKeep (olderOf view arr).length)

theorem dropWhileOver_take (tooLarge : Nat → Bool) (older : List α) (base n : Nat)
    (hn : n ≤ older.length) :
    (dropWhileOver view tooLarge (older.take n).reverse (base + sizeOf view (older.take n))).reverse =
      older.take (Nat.findGreatest (fun n => tooLarge (base + sizeOf view (older.take n)) = false) n) := by
  induction n with
  | zero => simp [dropWhileOver]
  | succ n ih =>
    have hlt : n < older.length := by omega
    have htake : older.take (n + 1) = older.take n ++ [older[n]] := by simp
    have hsize : base + sizeOf view (older.take (n + 1)) = base + sizeOf view (older.take n) + (view older[n]).size := by
      rw [htake, sizeOf_append]
      simp [sizeOf, Nat.add_assoc]
    rw [Nat.findGreatest_succ]
    split
    · rename_i hfits
      conv_lhs => rw [htake]
      rw [List.reverse_append, List.reverse_singleton, List.singleton_append, dropWhileOver,
        if_neg (by rw [← htake, hfits]; simp)]
      simp
    · rename_i hover
      rw [← ih (by omega)]
      conv_lhs => rw [htake]
      rw [List.reverse_append, List.reverse_singleton, List.singleton_append, dropWhileOver]
      rw [if_pos (by rw [← htake]; simpa using hover), ← htake, hsize, Nat.add_sub_cancel]

theorem keptHead_eq (contextWindow : Nat) (arr : List α) :
    keptHead view contextWindow arr = (olderOf view arr).take (keptCount view contextWindow arr) := by
  have htake : (olderOf view arr).take headKeep = (olderOf view arr).take (min headKeep (olderOf view arr).length) := by
    simp [List.take_eq_take_iff]
  have htotal : ∀ n, sizeOf view (systemMsgs view arr ++ (olderOf view arr).take n ++ tailOf view arr) =
      sizeOf view (systemMsgs view arr) + sizeOf view (tailOf view arr) + sizeOf view ((olderOf view arr).take n) := by
    intro n
    simp only [sizeOf_append]
    omega
  simp only [keptHead, keptCount, htake, htotal]
  exact dropWhileOver_take view _ _ _ _ (Nat.min_le_right _ _)

theorem keptCount_le (contextWindow : Nat) (arr : List α) :
    keptCount view contextWindow arr ≤ (olderOf view arr).length :=
  (Nat.findGreatest_le _).trans (Nat.min_le_right _ _)

def keptOf (contextWindow : Nat) (arr : List α) : List α :=
  systemMsgs view arr ++ (olderOf view arr).take (keptCount view contextWindow arr) ++ tailOf view arr

def droppedOf (contextWindow : Nat) (arr : List α) : List α := (olderOf view arr).drop (keptCount view contextWindow arr)

theorem stripMessages_eq (contextWindow : Nat) (arr : List α) :
    stripMessages view contextWindow arr =
      if keptCount view contextWindow arr = (olderOf view arr).length then arr else keptOf view contextWindow arr := by
  have hnone : olderOf view arr = [] → keptCount view contextWindow arr = (olderOf view arr).length := by
    intro h
    have hle := keptCount_le view contextWindow arr
    rw [h] at hle ⊢
    simpa using hle
  have hlength : (keptHead view contextWindow arr).length = keptCount view contextWindow arr := by
    rw [keptHead_eq, List.length_take, Nat.min_eq_left (keptCount_le view contextWindow arr)]
  unfold stripMessages
  split
  · rename_i hrest
    rw [if_pos (hnone (by simp [olderOf, hrest]))]
  · split
    · rename_i hold
      rw [if_pos (hnone hold)]
    · rw [hlength, keptHead_eq]
      rfl

/-! ### Places -/

variable (f : β → α)

theorem systemMsgs_map (l : List β) :
    systemMsgs view (l.map f) = (systemMsgs (view ∘ f) l).map f := by
  simp [systemMsgs, List.filter_map, Function.comp_def]

theorem restOf_map (l : List β) : restOf view (l.map f) = (restOf (view ∘ f) l).map f := by
  simp [restOf, List.filter_map, Function.comp_def]

theorem turnStart_map (l : List β) : turnStart view (l.map f) = turnStart (view ∘ f) l := by
  simp [turnStart, ← List.map_reverse, List.takeWhile_map, Function.comp_def]

theorem tailOf_map (l : List β) : tailOf view (l.map f) = (tailOf (view ∘ f) l).map f := by
  simp only [tailOf, restOf_map, turnStart_map, List.map_drop]

theorem olderOf_map (l : List β) : olderOf view (l.map f) = (olderOf (view ∘ f) l).map f := by
  simp only [olderOf, restOf_map, turnStart_map, List.map_take]

theorem sizeOf_map (l : List β) : sizeOf view (l.map f) = sizeOf (view ∘ f) l := by
  simp [sizeOf, Function.comp_def]

theorem keptCount_map (contextWindow : Nat) (l : List β) :
    keptCount view contextWindow (l.map f) = keptCount (view ∘ f) contextWindow l := by
  simp only [keptCount, systemMsgs_map, olderOf_map, tailOf_map, List.length_map, ← List.map_take,
    ← List.map_append, sizeOf_map]

theorem stripMessages_map (contextWindow : Nat) (l : List β) :
    stripMessages view contextWindow (l.map f) = (stripMessages (view ∘ f) contextWindow l).map f := by
  simp only [stripMessages_eq, keptOf, keptCount_map, systemMsgs_map, olderOf_map, tailOf_map,
    List.length_map, ← List.map_take]
  split <;> simp

end Selection

/-! ### Pairs -/

def Content.blocksOf : Content → List Block
  | .blocks l => l
  | _ => []

def Message.allBlocks (m : Message) : List Block :=
  (m.content.map Content.blocksOf).getD [] ++ (m.parts.map Content.blocksOf).getD []

def Message.calls (m : Message) : List String := m.toolCalls ++ m.functionCall.toList ++ m.allBlocks.filterMap Block.call

def Message.results (m : Message) : List String :=
  m.toolCallId.toList ++ m.functionCallOutput.toList ++ m.allBlocks.filterMap Block.result

def Paired (l : List Message) : Prop :=
  ∀ (i : Nat) r, l[i]? = some r → ∀ id ∈ r.results, ∃ (j : Nat) (c : Message), j < i ∧ l[j]? = some c ∧ id ∈ c.calls

structure WellPaired (l : List Message) : Prop where
  follows : Paired l
  calls : (l.flatMap Message.calls).Nodup
  results : (l.flatMap Message.results).Nodup

theorem place_unique {l : List Message} {g : Message → List String} (h : (l.flatMap g).Nodup)
    {i j : Nat} {m m' : Message}
    (hm : l[i]? = some m) (hm' : l[j]? = some m') {id : String} (hid : id ∈ g m) (hid' : id ∈ g m') : i = j := by
  obtain ⟨-, hdisjoint⟩ := List.nodup_flatMap.1 h
  rw [List.pairwise_iff_getElem] at hdisjoint
  obtain ⟨hi, rfl⟩ := List.getElem?_eq_some_iff.1 hm
  obtain ⟨hj, rfl⟩ := List.getElem?_eq_some_iff.1 hm'
  by_contra hne
  obtain hlt | hlt := Nat.lt_or_gt_of_ne hne
  · exact hdisjoint i j hi hj hlt hid hid'
  · exact hdisjoint j i hj hi hlt hid' hid

instance (l : List Message) : Decidable (Paired l) :=
  decidable_of_iff (∀ x ∈ l.zipIdx, ∀ call ∈ x.1.results, ∃ y ∈ l.zipIdx, y.2 < x.2 ∧ call ∈ y.1.calls) <| by
    constructor
    · intro h i r hr call hcall
      obtain ⟨y, hy, hlt, hmade⟩ := h (r, i) (List.mem_zipIdx_iff_getElem?.2 hr) call hcall
      exact ⟨y.2, y.1, hlt, List.mem_zipIdx_iff_getElem?.1 hy, hmade⟩
    · intro h x hx call hcall
      obtain ⟨j, c, hlt, hc, hmade⟩ := h x.2 x.1 (List.mem_zipIdx_iff_getElem?.1 hx) call hcall
      exact ⟨(c, j), List.mem_zipIdx_iff_getElem?.2 hc, hlt, hmade⟩

/-! ### Messages with their places -/

section Places

variable (contextWindow : Nat) (arr : List Message)

/-- The places in the history of the messages that are retained. -/
def placesKept : List Nat := (stripMessages Prod.fst contextWindow arr.zipIdx).map Prod.snd

theorem places_sorted : arr.zipIdx.Pairwise fun x y => x.2 < y.2 := by
  rw [← List.pairwise_map (f := Prod.snd), List.zipIdx_map_snd]
  exact List.pairwise_lt_range'

theorem map_fst_places : arr.zipIdx.map Prod.fst = arr := List.zipIdx_map_fst 0 arr

theorem strip_places : stripMessages id contextWindow arr = (stripMessages Prod.fst contextWindow arr.zipIdx).map Prod.fst := by
  conv_lhs => rw [← map_fst_places arr]
  exact stripMessages_map id Prod.fst contextWindow arr.zipIdx

theorem kept_places : keptOf id contextWindow arr = (keptOf Prod.fst contextWindow arr.zipIdx).map Prod.fst := by
  conv_lhs => rw [← map_fst_places arr]
  simp only [keptOf, keptCount_map, systemMsgs_map, olderOf_map, tailOf_map, ← List.map_take, ← List.map_append]
  rfl

theorem dropped_places : droppedOf id contextWindow arr = (droppedOf Prod.fst contextWindow arr.zipIdx).map Prod.fst := by
  conv_lhs => rw [← map_fst_places arr]
  simp only [droppedOf, keptCount_map, olderOf_map, ← List.map_drop]
  rfl

theorem restOf_append_perm {α : Type} (view : α → Message)
    (l : List α) : (systemMsgs view l ++ restOf view l).Perm l :=
  List.filter_append_perm _ l

theorem kept_append_dropped_perm {α : Type} (view : α → Message) (l : List α) :
    (keptOf view contextWindow l ++ droppedOf view contextWindow l).Perm l := by
  refine List.Perm.trans ?_ (restOf_append_perm view l)
  rw [← olderOf_append_tailOf, keptOf, droppedOf]
  conv_rhs => rw [← List.take_append_drop (keptCount view contextWindow l) (olderOf view l)]
  simp only [List.append_assoc]
  exact (List.perm_append_comm.append_left _).append_left _

theorem mem_kept_or_dropped {x : Message × Nat} (hx : x ∈ arr.zipIdx) :
    x ∈ keptOf Prod.fst contextWindow arr.zipIdx ∨ x ∈ droppedOf Prod.fst contextWindow arr.zipIdx := by
  rw [← List.mem_append, (kept_append_dropped_perm contextWindow Prod.fst arr.zipIdx).mem_iff]
  exact hx

theorem kept_ne_dropped {x y : Message × Nat} (hx : x ∈ keptOf Prod.fst contextWindow arr.zipIdx)
    (hy : y ∈ droppedOf Prod.fst contextWindow arr.zipIdx) : x.2 ≠ y.2 := by
  have hnodup : ((keptOf Prod.fst contextWindow arr.zipIdx ++ droppedOf Prod.fst contextWindow arr.zipIdx).map Prod.snd).Nodup := by
    rw [((kept_append_dropped_perm contextWindow Prod.fst arr.zipIdx).map _).nodup_iff, List.zipIdx_map_snd]
    exact List.nodup_range'
  rw [List.map_append, List.nodup_append'] at hnodup
  intro hsame
  exact hnodup.2.2 (List.mem_map_of_mem hx) (hsame ▸ List.mem_map_of_mem hy)

theorem mem_places_of_kept {x : Message × Nat}
    (hx : x ∈ keptOf Prod.fst contextWindow arr.zipIdx) : arr[x.2]? = some x.1 :=
  List.mem_zipIdx_iff_getElem?.1 ((kept_append_dropped_perm contextWindow Prod.fst arr.zipIdx).subset (List.mem_append_left _ hx))

theorem mem_places_of_dropped {x : Message × Nat}
    (hx : x ∈ droppedOf Prod.fst contextWindow arr.zipIdx) : arr[x.2]? = some x.1 :=
  List.mem_zipIdx_iff_getElem?.1 ((kept_append_dropped_perm contextWindow Prod.fst arr.zipIdx).subset (List.mem_append_right _ hx))

end Places

/-! ### Validity -/

/-- What the claim on a trimmed history is: no pair is torn, nothing that must stay is lost, and
what is retained fits. -/
structure StaysValid (contextWindow : Nat) (arr : List Message) : Prop where
  follows : Paired (stripMessages id contextWindow arr)
  answered : ∀ c ∈ stripMessages id contextWindow arr, ∀ call ∈ c.calls, ∀ r ∈ arr, call ∈ r.results →
    ∃ r' ∈ stripMessages id contextWindow arr, call ∈ r'.results
  system : systemMsgs id (stripMessages id contextWindow arr) = systemMsgs id arr
  currentTurn : tailOf id arr <:+ restOf id (stripMessages id contextWindow arr)
  subsequence : (placesKept contextWindow arr).Pairwise (· < ·) ∧
    (placesKept contextWindow arr).map (fun i => arr[i]?) = (stripMessages id contextWindow arr).map some
  fits : overBudget contextWindow (sizeOf id (stripMessages id contextWindow arr)) = false ∨
    restOf id (stripMessages id contextWindow arr) = tailOf id arr

/-- The cut is harmless: the system messages stand before all others that are kept, and no call is
on one side of the cut with its result on the other. -/
structure CutFits (contextWindow : Nat) (arr : List Message) : Prop where
  systemFirst : ∀ s ∈ systemMsgs Prod.fst arr.zipIdx,
    ∀ m ∈ (olderOf Prod.fst arr.zipIdx).take (keptCount id contextWindow arr) ++ tailOf Prod.fst arr.zipIdx, s.2 < m.2
  callsKept : ∀ r ∈ keptOf id contextWindow arr, ∀ call ∈ r.results, ∀ c ∈ droppedOf id contextWindow arr, call ∉ c.calls
  resultsKept : ∀ c ∈ keptOf id contextWindow arr, ∀ call ∈ c.calls, ∀ r ∈ droppedOf id contextWindow arr, call ∉ r.results

theorem keptCount_places (contextWindow : Nat) (arr : List Message) :
    keptCount Prod.fst contextWindow arr.zipIdx = keptCount id contextWindow arr := by
  conv_rhs => rw [← map_fst_places arr]
  rw [keptCount_map]
  rfl

theorem kept_sorted_iff (contextWindow : Nat) (arr : List Message) :
    ((keptOf Prod.fst contextWindow arr.zipIdx).Pairwise fun x y => x.2 < y.2) ↔ ∀ s ∈ systemMsgs Prod.fst arr.zipIdx,
      ∀ m ∈ (olderOf Prod.fst arr.zipIdx).take (keptCount id contextWindow arr) ++ tailOf Prod.fst arr.zipIdx, s.2 < m.2 := by
  have hsorted := places_sorted arr
  have hsystem : (systemMsgs Prod.fst arr.zipIdx).Sublist arr.zipIdx := List.filter_sublist
  have hrest : ((olderOf Prod.fst arr.zipIdx).take (keptCount id contextWindow arr) ++ tailOf Prod.fst arr.zipIdx).Sublist arr.zipIdx := by
    refine List.Sublist.trans ?_ (List.filter_sublist (p := fun m => !m.1.isSystem))
    rw [← restOf, ← olderOf_append_tailOf]
    exact (List.take_sublist _ _).append_right _
  rw [keptOf, keptCount_places, List.append_assoc, List.pairwise_append]
  exact ⟨fun h => h.2.2, fun h => ⟨hsorted.sublist hsystem, hsorted.sublist hrest, h⟩⟩

theorem paired_of_sorted {contextWindow : Nat} {arr : List Message} (hpaired : Paired arr)
    (hsorted : (keptOf Prod.fst contextWindow arr.zipIdx).Pairwise fun x y => x.2 < y.2)
    (hcalls : ∀ r ∈ keptOf id contextWindow arr, ∀ call ∈ r.results, ∀ c ∈ droppedOf id contextWindow arr, call ∉ c.calls) :
    Paired (keptOf id contextWindow arr) := by
  intro i r hr call hcall
  rw [kept_places, List.getElem?_map] at hr
  obtain ⟨x, hx, rfl⟩ := Option.map_eq_some_iff.1 hr
  have hmem : x ∈ keptOf Prod.fst contextWindow arr.zipIdx := List.mem_of_getElem? hx
  obtain ⟨b, c, hb, hc, hid⟩ := hpaired x.2 x.1 (mem_places_of_kept contextWindow arr hmem) call hcall
  obtain hkept | hdropped := mem_kept_or_dropped contextWindow arr (x := (c, b)) (List.mem_zipIdx_iff_getElem?.2 hc)
  · obtain ⟨j, hj⟩ := List.mem_iff_getElem?.1 hkept
    refine ⟨j, c, ?_, by rw [kept_places, List.getElem?_map, hj]; rfl, hid⟩
    by_contra hlt
    rw [List.pairwise_iff_getElem] at hsorted
    obtain ⟨hi, hxi⟩ := List.getElem?_eq_some_iff.1 hx
    obtain ⟨hj', hyj⟩ := List.getElem?_eq_some_iff.1 hj
    obtain heq | hgt := Nat.eq_or_lt_of_le (Nat.le_of_not_lt hlt)
    · subst heq
      rw [hxi] at hyj
      rw [hyj] at hb
      exact Nat.lt_irrefl _ hb
    · have hplaces := hsorted i j hi hj' hgt
      rw [hxi, hyj] at hplaces
      exact Nat.lt_asymm hplaces hb
  · refine absurd hid (hcalls x.1 ?_ call hcall c ?_)
    · rw [kept_places]
      exact List.mem_map_of_mem hmem
    · rw [dropped_places]
      exact List.mem_map.2 ⟨_, hdropped, rfl⟩

theorem restOf_append {α : Type} (view : α → Message)
    (l l' : List α) : restOf view (l ++ l') = restOf view l ++ restOf view l' :=
  List.filter_append _ _

theorem systemMsgs_append {α : Type} (view : α → Message) (l l' : List α) :
    systemMsgs view (l ++ l') = systemMsgs view l ++ systemMsgs view l' := List.filter_append _ _

theorem kept_rest_sublist (contextWindow : Nat) (arr : List Message) :
    ((olderOf id arr).take (keptCount id contextWindow arr) ++ tailOf id arr).Sublist (restOf id arr) := by
  rw [← olderOf_append_tailOf]
  exact (List.take_sublist _ _).append_right _

theorem restOf_kept (contextWindow : Nat) (arr : List Message) :
    restOf id (keptOf id contextWindow arr) = (olderOf id arr).take (keptCount id contextWindow arr) ++ tailOf id arr := by
  rw [keptOf, List.append_assoc, restOf_append]
  have hnone : restOf id (systemMsgs id arr) = [] := by
    simp [restOf, systemMsgs, List.filter_filter]
  have hall : restOf id ((olderOf id arr).take (keptCount id contextWindow arr) ++ tailOf id arr) =
      (olderOf id arr).take (keptCount id contextWindow arr) ++ tailOf id arr := by
    refine List.filter_eq_self.2 fun m hm => ?_
    exact (List.mem_filter.1 ((kept_rest_sublist contextWindow arr).subset hm)).2
  rw [hnone, hall, List.nil_append]

theorem systemMsgs_kept (contextWindow : Nat) (arr : List Message) :
    systemMsgs id (keptOf id contextWindow arr) = systemMsgs id arr := by
  rw [keptOf, List.append_assoc, systemMsgs_append]
  have hall : systemMsgs id (systemMsgs id arr) = systemMsgs id arr := by
    simp [systemMsgs, List.filter_filter]
  have hnone : systemMsgs id ((olderOf id arr).take (keptCount id contextWindow arr) ++ tailOf id arr) = [] := by
    refine List.filter_eq_nil_iff.2 fun m hm => ?_
    have hrest := (List.mem_filter.1 ((kept_rest_sublist contextWindow arr).subset hm)).2
    simpa using hrest
  rw [hall, hnone, List.append_nil]

theorem kept_fits {contextWindow : Nat} {arr : List Message}
    (h : keptCount id contextWindow arr ≠ 0) :
    overBudget contextWindow (sizeOf id (keptOf id contextWindow arr)) = false :=
  Nat.findGreatest_of_ne_zero rfl h

theorem retained (contextWindow : Nat) (arr : List Message) :
    systemMsgs id (stripMessages id contextWindow arr) = systemMsgs id arr ∧
      tailOf id arr <:+ restOf id (stripMessages id contextWindow arr) ∧
      (overBudget contextWindow (sizeOf id (stripMessages id contextWindow arr)) = false ∨
        restOf id (stripMessages id contextWindow arr) = tailOf id arr) := by
  rw [stripMessages_eq]
  split
  · rename_i hall
    refine ⟨rfl, ⟨olderOf id arr, olderOf_append_tailOf id arr⟩, ?_⟩
    by_cases hzero : keptCount id contextWindow arr = 0
    · right
      have hnone : olderOf id arr = [] := by
        rw [← List.length_eq_zero_iff, ← hall, hzero]
      rw [← olderOf_append_tailOf, hnone, List.nil_append]
    · left
      have hperm := kept_append_dropped_perm contextWindow id arr
      have hdropped : droppedOf id contextWindow arr = [] := by rw [droppedOf, hall, List.drop_length]
      rw [hdropped, List.append_nil] at hperm
      rw [← sizeOf_perm id hperm]
      exact kept_fits hzero
  · refine ⟨systemMsgs_kept contextWindow arr, ?_, ?_⟩
    · rw [restOf_kept]
      exact ⟨_, rfl⟩
    · by_cases hzero : keptCount id contextWindow arr = 0
      · right
        rw [restOf_kept, hzero, List.take_zero, List.nil_append]
      · exact Or.inl (kept_fits hzero)

theorem placesKept_spec (contextWindow : Nat) (arr : List Message) :
    (placesKept contextWindow arr).map (fun i => arr[i]?) = (stripMessages id contextWindow arr).map some := by
  rw [placesKept, strip_places, List.map_map, List.map_map]
  refine List.map_congr_left fun x hx => ?_
  have hmem : x ∈ arr.zipIdx := by
    rw [stripMessages_eq] at hx
    split at hx
    · exact hx
    · exact (kept_append_dropped_perm contextWindow Prod.fst arr.zipIdx).subset (List.mem_append_left _ hx)
  exact List.mem_zipIdx_iff_getElem?.1 hmem

theorem olderOf_length_places (arr : List Message) :
    (olderOf Prod.fst arr.zipIdx).length = (olderOf id arr).length := by
  conv_rhs => rw [← map_fst_places arr]
  rw [olderOf_map, List.length_map]
  rfl

theorem staysValid_iff {arr : List Message} (hpaired : WellPaired arr) (contextWindow : Nat) :
    StaysValid contextWindow arr ↔
      keptCount id contextWindow arr = (olderOf id arr).length ∨ CutFits contextWindow arr := by
  obtain ⟨hsystem, hturn, hfits⟩ := retained contextWindow arr
  by_cases hall : keptCount id contextWindow arr = (olderOf id arr).length
  · have hsame : stripMessages id contextWindow arr = arr := by rw [stripMessages_eq, if_pos hall]
    have hplaces : placesKept contextWindow arr = arr.zipIdx.map Prod.snd := by
      rw [placesKept, stripMessages_eq, keptCount_places, olderOf_length_places, if_pos hall]
    refine iff_of_true ⟨?_, ?_, hsystem, hturn, ⟨?_, placesKept_spec contextWindow arr⟩, hfits⟩ (Or.inl hall)
    · rw [hsame]
      exact hpaired.follows
    · rw [hsame]
      exact fun c _ call _ r hr hcall => ⟨r, hr, hcall⟩
    · rw [hplaces, List.pairwise_map]
      exact places_sorted arr
  · have hkept : stripMessages id contextWindow arr = keptOf id contextWindow arr := by rw [stripMessages_eq, if_neg hall]
    have hplaces : placesKept contextWindow arr = (keptOf Prod.fst contextWindow arr.zipIdx).map Prod.snd := by
      rw [placesKept, stripMessages_eq, keptCount_places, olderOf_length_places, if_neg hall]
    have hsorted : (placesKept contextWindow arr).Pairwise (· < ·) ↔
        ((keptOf Prod.fst contextWindow arr.zipIdx).Pairwise fun x y => x.2 < y.2) := by
      rw [hplaces, List.pairwise_map]
    rw [or_iff_right hall]
    constructor
    · intro h
      refine ⟨(kept_sorted_iff contextWindow arr).1 (hsorted.1 h.subsequence.1),
        fun r hr call hcall c hc hmade => ?_,
        fun c hc call hcall r hr hcarried => ?_⟩
      · obtain ⟨i, hi⟩ := List.mem_iff_getElem?.1 hr
        obtain ⟨j, c', -, hc', hmade'⟩ := h.follows i r (hkept ▸ hi) call hcall
        rw [hkept, kept_places] at hc'
        obtain ⟨x, hx, rfl⟩ := List.mem_map.1 (List.mem_of_getElem? hc')
        rw [dropped_places] at hc
        obtain ⟨y, hy, rfl⟩ := List.mem_map.1 hc
        exact kept_ne_dropped contextWindow arr hx hy (place_unique hpaired.calls (mem_places_of_kept contextWindow arr hx)
          (mem_places_of_dropped contextWindow arr hy) hmade' hmade)
      · have hmem : r ∈ arr := (kept_append_dropped_perm contextWindow id arr).subset (List.mem_append_right _ hr)
        obtain ⟨r', hr', hcarried'⟩ := h.answered c (hkept ▸ hc) call hcall r hmem hcarried
        rw [hkept, kept_places] at hr'
        obtain ⟨x, hx, rfl⟩ := List.mem_map.1 hr'
        rw [dropped_places] at hr
        obtain ⟨y, hy, rfl⟩ := List.mem_map.1 hr
        exact kept_ne_dropped contextWindow arr hx hy (place_unique hpaired.results (mem_places_of_kept contextWindow arr hx)
          (mem_places_of_dropped contextWindow arr hy) hcarried' hcarried)
    · intro h
      have hordered := (kept_sorted_iff contextWindow arr).2 h.systemFirst
      refine ⟨?_, fun c hc call hcall r hr hcarried => ?_, hsystem, hturn,
        ⟨hsorted.2 hordered, placesKept_spec contextWindow arr⟩, hfits⟩
      · rw [hkept]
        exact paired_of_sorted hpaired.follows hordered h.callsKept
      · rw [hkept] at hc ⊢
        obtain hr | hr := List.mem_append.1 ((kept_append_dropped_perm contextWindow id arr).symm.subset hr)
        · exact ⟨r, hr, hcarried⟩
        · exact absurd hcarried (h.resultsKept c hc call hcall r hr)

/-! ### Bodies -/

def Body.history (body : Body) : List Message := (body.messages.or (body.input.or body.contents)).getD []

theorem history_strip (body : Body) (contextWindow : Nat) :
    (stripHistoryForContext body contextWindow).history = stripMessages id contextWindow body.history := by
  obtain ⟨messages, input, contents, rest⟩ := body
  cases messages with
  | some messages => rfl
  | none =>
    cases input with
    | some input => rfl
    | none => cases contents <;> rfl

theorem rest_strip (body : Body) (contextWindow : Nat) :
    (stripHistoryForContext body contextWindow).rest = body.rest := by
  unfold stripHistoryForContext
  split <;> rfl

/-- **Trimming keeps a request valid** exactly if it drops nothing or its cut is harmless. -/
theorem stripHistory_valid_iff {body : Body} (hpaired : WellPaired body.history)
    (contextWindow : Nat) :
    (stripHistoryForContext body contextWindow).history = stripMessages id contextWindow body.history ∧
      (stripHistoryForContext body contextWindow).rest = body.rest ∧
      (StaysValid contextWindow body.history ↔
        keptCount id contextWindow body.history = (olderOf id body.history).length ∨ CutFits contextWindow body.history) :=
  ⟨history_strip body contextWindow, rest_strip body contextWindow, staysValid_iff hpaired contextWindow⟩

def user (text : String) : Message := { role := some "user", content := some (.text text) }

def assistant (text : String) : Message := { role := some "assistant", content := some (.text text) }

def longTalk : Body where
  messages := some
    [{ role := some "system", content := some (.text "s") }, user "1", { role := some "assistant", toolCalls := ["call_1"] },
      { role := some "tool", content := some (.text "42"), toolCallId := some "call_1" }, assistant "2", user "3", assistant "4",
      user "5", assistant "6", user "7"]

theorem longTalk_valid :
    (stripMessages id 200000 longTalk.history).length = 8 ∧ StaysValid 200000 longTalk.history :=
  ⟨by decide +kernel,
    (@stripHistory_valid_iff longTalk ⟨by decide +kernel, by decide +kernel, by decide +kernel⟩ 200000).2.2.2
      (Or.inr ⟨by decide +kernel, by decide +kernel, by decide +kernel⟩)⟩

/-- A turn in which the assistant waits for the result of a tool. -/
def toolTurn : Body where
  messages := some
    [user "1", assistant "2", user "3", assistant "4", user "5", assistant "6", user "7",
      { role := some "assistant", toolCalls := ["call_1"] }, { role := some "tool", content := some (.text "42"), toolCallId := some "call_1" }]

/-- The call is dropped with the older messages, and its result stays. -/
theorem toolTurn_torn : WellPaired toolTurn.history ∧ ¬ StaysValid 200000 toolTurn.history := by
  refine ⟨⟨by decide +kernel, by decide +kernel, by decide +kernel⟩, fun h => ?_⟩
  exact absurd h.follows (by decide +kernel)

end TokenProxy.Capacity
