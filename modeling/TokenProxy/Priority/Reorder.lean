import TokenProxy.Lib.Compare

/-!
# The order of a provider's accounts

`connectionsRepo.js`: the rows of a provider are numbered by their priority. A row that was given
the priority of another ties with it, and `reorderInTx` breaks ties by the time of the update, the
newest first, and then by the id. So a row that moves up lands where it was sent, and one that moves
down lands above it.

Times are in milliseconds; `localeCompare` compares ids. What the other columns hold is `δ`.
-/

namespace TokenProxy.Priority

open Lib (sortBy mem_sortBy sortBy_perm sortBy_pairwise rank)

universe u

variable {δ : Type u}

structure Row (δ : Type u) where
  id : String
  provider : String
  priority : Option ℤ
  updatedAt : ℤ
  data : δ

/-- The comparator of `reorderInTx`. -/
def compareRows (localeCompare : String → String → Ordering) (a b : Row δ) : Ordering :=
  (compare (a.priority.getD 0) (b.priority.getD 0)).then
    ((compare b.updatedAt a.updatedAt).then (localeCompare a.id b.id))

variable (localeCompare : String → String → Ordering)

/-- `UPDATE providerConnections SET priority = ? WHERE id = ?` -/
def setPriority (rows : List (Row δ)) (priority : ℤ) (id : String) : List (Row δ) :=
  rows.map fun r => if r.id = id then { r with priority := some priority } else r

def ofProvider (provider : String) (rows : List (Row δ)) : List (Row δ) := rows.filter (·.provider = provider)

def reorderInTx (provider : String) (rows : List (Row δ)) : List (Row δ) :=
  (sortBy (compareRows localeCompare) (ofProvider provider rows)).zipIdx.foldl (fun rows c => setPriority rows (c.2 + 1) c.1.id) rows

/-- `INSERT … ON CONFLICT(id) DO UPDATE` -/
def upsert (rows : List (Row δ)) (row : Row δ) : List (Row δ) :=
  if rows.any (·.id = row.id) then rows.map fun r => if r.id = row.id then row else r else rows ++ [row]

structure Patch (δ : Type u) where
  priority : Option ℤ := none
  provider : Option String := none
  data : δ → δ := id

def updateProviderConnection (rows : List (Row δ)) (id : String) (patch : Patch δ)
    (now : ℤ) : List (Row δ) :=
  match rows.find? (·.id = id) with
  | none => rows
  | some existing =>
    let merged : Row δ :=
      { id := existing.id, provider := patch.provider.getD existing.provider, priority := patch.priority.or existing.priority
        updatedAt := now, data := patch.data existing.data }
    let rows := upsert rows merged
    if patch.priority.isSome then reorderInTx localeCompare existing.provider rows else rows

/-- A new connection with the identifier `id`. `existing` is the row of the same account, where
there is one; it is merged and keeps its place. -/
def createProviderConnection (rows : List (Row δ)) (existing : Option (Row δ))
    (merge : Row δ → Row δ) (id provider : String)
    (priority : Option ℤ) (data : δ) (now : ℤ) : List (Row δ) :=
  match existing with
  | some row => upsert rows { merge row with updatedAt := now }
  | none =>
    let priority := match priority with
      | some n => if n ≠ 0 then n else ((ofProvider provider rows).map fun c => c.priority.getD 0).foldl max 0 + 1
      | none => ((ofProvider provider rows).map fun c => c.priority.getD 0).foldl max 0 + 1
    reorderInTx localeCompare provider (upsert rows { id, provider, priority := some priority, updatedAt := now, data })

/-! ### What `reorderInTx` does -/

variable {localeCompare}

instance [Std.TransCmp localeCompare] :
    Std.TransCmp (compareRows localeCompare : Row δ → Row δ → Ordering) := by
  have hids : Std.TransCmp fun a b : Row δ => localeCompare a.id b.id :=
    { eq_swap := fun {a b} => (Std.OrientedCmp.eq_swap : localeCompare a.id b.id = (localeCompare b.id a.id).swap)
      isLE_trans := fun {a b c} (hab : (localeCompare a.id b.id).isLE = true) (hbc : (localeCompare b.id c.id).isLE = true) =>
        Std.TransCmp.isLE_trans hab hbc }
  have htimes : Std.TransCmp fun a b : Row δ => compare b.updatedAt a.updatedAt :=
    @Std.TransCmp.opposite _ (compareOn fun r : Row δ => r.updatedAt) inferInstance
  exact inferInstanceAs (Std.TransCmp (compareLex (compareOn fun r : Row δ => r.priority.getD 0)
    (compareLex (fun a b : Row δ => compare b.updatedAt a.updatedAt) fun a b : Row δ => localeCompare a.id b.id)))

theorem id_eq_of_compareRows [Std.LawfulEqCmp localeCompare] {a b : Row δ}
    (h : compareRows localeCompare a b = .eq) : a.id = b.id := by
  rw [compareRows, Ordering.then_eq_eq, Ordering.then_eq_eq] at h
  exact Std.LawfulEqCmp.eq_of_compare h.2.2

@[simp] theorem mem_ofProvider {provider : String} {rows : List (Row δ)} {r : Row δ} :
    r ∈ ofProvider provider rows ↔ r ∈ rows ∧ r.provider = provider := by
  simp [ofProvider]

theorem eq_of_id_eq {rows : List (Row δ)} (hids : (rows.map Row.id).Nodup) {a b : Row δ}
    (ha : a ∈ rows) (hb : b ∈ rows) (h : a.id = b.id) :
    a = b := List.inj_on_of_nodup_map hids ha hb h

theorem foldl_setPriority {l : List (Row δ)} (hl : (l.map Row.id).Nodup) (k : ℕ)
    (rows : List (Row δ)) :
    (l.zipIdx k).foldl (fun rows c => setPriority rows (c.2 + 1) c.1.id) rows =
      rows.map fun r => if r.id ∈ l.map Row.id then { r with priority := some (k + (l.map Row.id).idxOf r.id + 1 : ℕ) } else r := by
  induction l generalizing k rows with
  | nil => simp
  | cons c l ih =>
    rw [List.map_cons, List.nodup_cons] at hl
    rw [List.zipIdx_cons, List.foldl_cons, ih hl.2, setPriority, List.map_map]
    refine List.map_congr_left fun r _ => ?_
    rw [Function.comp_apply]
    by_cases hr : r.id = c.id
    · simp only [hr, if_true, List.map_cons, List.mem_cons, true_or, List.idxOf_cons_self]
      rw [if_neg hl.1]
      simp
    · simp only [hr, if_false, List.map_cons, List.mem_cons, false_or]
      rw [List.idxOf_cons_ne _ fun h => hr h.symm]
      split
      · congr 2
        omega
      · rfl

variable [Std.TransCmp localeCompare] [Std.LawfulEqCmp localeCompare]

theorem ofProvider_ids {rows : List (Row δ)} (hids : (rows.map Row.id).Nodup) (provider : String) :
    ((ofProvider provider rows).map Row.id).Nodup := hids.sublist (List.filter_sublist.map Row.id)

variable (localeCompare) in
theorem ofProvider_sorted {rows : List (Row δ)} (hids : (rows.map Row.id).Nodup)
    (provider : String) :
    (sortBy (compareRows localeCompare) (ofProvider provider rows)).Pairwise fun a b => compareRows localeCompare a b = .lt := by
  refine Lib.sortBy_pairwise_lt ?_
  have hne : (ofProvider provider rows).Pairwise fun a b => a.id ≠ b.id := List.pairwise_map.1 (ofProvider_ids hids provider)
  exact hne.imp fun hab heq => hab (id_eq_of_compareRows heq)

theorem idxOf_sorted {rows : List (Row δ)} (hids : (rows.map Row.id).Nodup) {provider : String}
    {r : Row δ} (hr : r ∈ ofProvider provider rows) :
    ((sortBy (compareRows localeCompare) (ofProvider provider rows)).map Row.id).idxOf r.id =
      rank (compareRows localeCompare) (ofProvider provider rows) r := by
  have hperm := sortBy_perm (compareRows localeCompare) (ofProvider provider rows)
  have hsorted := ofProvider_sorted localeCompare hids provider
  have hnodup : ((sortBy (compareRows localeCompare) (ofProvider provider rows)).map Row.id).Nodup :=
    (hperm.map Row.id).nodup_iff.2 (ofProvider_ids hids provider)
  obtain ⟨before, after, heq⟩ := List.append_of_mem (mem_sortBy.2 hr)
  rw [← Lib.rank_perm hperm]
  rw [heq] at hsorted hnodup ⊢
  rw [Lib.rank_of_pairwise_lt hsorted, List.map_append, List.idxOf_append_of_notMem, List.map_cons, List.idxOf_cons_self, List.length_map]
  · rfl
  · rw [List.map_append, List.map_cons] at hnodup
    exact fun hmem => (List.disjoint_of_nodup_append hnodup) hmem (List.mem_cons_self ..)

theorem reorderInTx_eq {rows : List (Row δ)} (hids : (rows.map Row.id).Nodup) (provider : String) :
    reorderInTx localeCompare provider rows =
      rows.map fun r =>
        if r.provider = provider then { r with priority := some (rank (compareRows localeCompare) (ofProvider provider rows) r + 1 : ℕ) } else r := by
  have hnodup : ((sortBy (compareRows localeCompare) (ofProvider provider rows)).map Row.id).Nodup :=
    ((sortBy_perm _ _).map Row.id).nodup_iff.2 (ofProvider_ids hids provider)
  rw [reorderInTx, foldl_setPriority hnodup]
  refine List.map_congr_left fun r hr => ?_
  by_cases hprovider : r.provider = provider
  · have hown : r ∈ ofProvider provider rows := mem_ofProvider.2 ⟨hr, hprovider⟩
    rw [if_pos hprovider, if_pos (List.mem_map.2 ⟨r, mem_sortBy.2 hown, rfl⟩), idxOf_sorted hids hown, Nat.zero_add]
  · rw [if_neg hprovider, if_neg]
    intro hmem
    obtain ⟨c, hc, hid⟩ := List.mem_map.1 hmem
    obtain ⟨hcrows, hcprovider⟩ := mem_ofProvider.1 (mem_sortBy.1 hc)
    exact hprovider (eq_of_id_eq hids hcrows hr hid ▸ hcprovider)

/-! ### The numbers after it -/

/-- The priorities of the provider's rows are 1 to their number. -/
def Numbered (provider : String) (rows : List (Row δ)) : Prop :=
  ((ofProvider provider rows).map Row.priority).Perm ((List.range (ofProvider provider rows).length).map fun i : ℕ => some ((i : ℤ) + 1))

def priorityOf (rows : List (Row δ)) (id : String) : Option ℤ := (rows.find? (·.id = id)).bind Row.priority

omit [Std.TransCmp localeCompare] [Std.LawfulEqCmp localeCompare] in
theorem priorityOf_of_mem {rows : List (Row δ)} (hids : (rows.map Row.id).Nodup) {r : Row δ}
    (hr : r ∈ rows) :
    priorityOf rows r.id = r.priority := by
  unfold priorityOf
  cases hfind : rows.find? (·.id = r.id) with
  | none =>
    have hno := List.find?_eq_none.1 hfind r hr
    simp at hno
  | some found =>
    have hid : found.id = r.id := by simpa using List.find?_some hfind
    rw [eq_of_id_eq hids (List.mem_of_find?_eq_some hfind) hr hid, Option.bind_some]

omit [Std.TransCmp localeCompare] [Std.LawfulEqCmp localeCompare] in
theorem ofProvider_map {f : Row δ → Row δ} {rows : List (Row δ)}
    (hf : ∀ r ∈ rows, (f r).provider = r.provider) (provider : String) :
    ofProvider provider (rows.map f) = (ofProvider provider rows).map f := by
  unfold ofProvider
  rw [List.filter_map]
  congr 1
  refine List.filter_congr fun r hr => ?_
  rw [Function.comp_apply, hf r hr]

variable (localeCompare) in
theorem ofProvider_reorderInTx {rows : List (Row δ)} (hids : (rows.map Row.id).Nodup)
    (provider : String) :
    ofProvider provider (reorderInTx localeCompare provider rows) =
      (ofProvider provider rows).map fun r =>
        { r with priority := some (rank (compareRows localeCompare) (ofProvider provider rows) r + 1 : ℕ) } := by
  rw [reorderInTx_eq hids, ofProvider_map fun r _ => by split <;> rfl]
  refine List.map_congr_left fun r hr => ?_
  rw [if_pos (mem_ofProvider.1 hr).2]

theorem numbered_reorderInTx {rows : List (Row δ)} (hids : (rows.map Row.id).Nodup)
    (provider : String) :
    Numbered provider (reorderInTx localeCompare provider rows) := by
  have hperm := sortBy_perm (compareRows localeCompare) (ofProvider provider rows)
  have hplaces := Lib.map_rank_of_pairwise_lt (ofProvider_sorted localeCompare hids provider)
  have hranks : ((ofProvider provider rows).map (rank (compareRows localeCompare) (ofProvider provider rows))).Perm
      (List.range (ofProvider provider rows).length) := by
    rw [← hperm.length_eq, ← hplaces, ← funext (Lib.rank_perm hperm)]
    exact (hperm.map _).symm
  unfold Numbered
  rw [ofProvider_reorderInTx localeCompare hids, List.map_map, List.length_map]
  have hmap := hranks.map fun i : ℕ => some ((i : ℤ) + 1)
  rw [List.map_map] at hmap
  exact hmap

omit [Std.TransCmp localeCompare] [Std.LawfulEqCmp localeCompare] in
theorem ids_map {f : Row δ → Row δ} {rows : List (Row δ)}
    (hf : ∀ r ∈ rows, (f r).id = r.id) : (rows.map f).map Row.id = rows.map Row.id := by
  rw [List.map_map]
  exact List.map_congr_left hf

theorem priorityOf_reorderInTx {rows : List (Row δ)} (hids : (rows.map Row.id).Nodup)
    {provider : String} {r : Row δ} (hr : r ∈ ofProvider provider rows) :
    priorityOf (reorderInTx localeCompare provider rows) r.id =
      some ((rank (compareRows localeCompare) (ofProvider provider rows) r : ℤ) + 1) := by
  have hids' : ((reorderInTx localeCompare provider rows).map Row.id).Nodup := by
    rw [reorderInTx_eq hids, ids_map fun r _ => by split <;> rfl]
    exact hids
  have hmem : { r with priority := some (rank (compareRows localeCompare) (ofProvider provider rows) r + 1 : ℕ) } ∈
      reorderInTx localeCompare provider rows := by
    have hown := ofProvider_reorderInTx localeCompare hids provider
    exact (mem_ofProvider.1 (hown ▸ List.mem_map.2 ⟨r, hr, rfl⟩)).1
  exact priorityOf_of_mem hids' hmem

/-! ### Where a move lands -/

/-- A row `id` that is updated now comes before a row of the same priority. -/
def Precedes (localeCompare : String → String → Ordering) (now : ℤ) (id : String)
    (c : Row δ) : Prop :=
  c.updatedAt < now ∨ c.updatedAt = now ∧ localeCompare id c.id = .lt

instance (now : ℤ) (id : String) : DecidablePred (Precedes localeCompare now id : Row δ → Prop) :=
  fun _ => inferInstanceAs (Decidable (_ ∨ _))

theorem compareRows_moved {now p : ℤ} {x r : Row δ} (hp : x.priority = some p)
    (hnow : x.updatedAt = now) (hid : r.id ≠ x.id) :
    compareRows localeCompare r x = .lt ↔
      r.priority.getD 0 < p ∨ r.priority.getD 0 = p ∧ ¬ Precedes localeCompare now x.id r := by
  have hflip : localeCompare r.id x.id = .lt ↔ ¬ localeCompare x.id r.id = .lt := by
    have hswap : localeCompare r.id x.id = (localeCompare x.id r.id).swap := Std.OrientedCmp.eq_swap
    rw [hswap]
    cases hcmp : localeCompare x.id r.id with
    | lt => simp
    | gt => simp
    | eq => exact absurd (Std.LawfulEqCmp.eq_of_compare hcmp).symm hid
  unfold compareRows Precedes
  rw [hp, hnow, Option.getD_some, Ordering.then_eq_lt, Ordering.then_eq_lt, Std.compare_eq_lt, Std.compare_eq_iff_eq, Std.compare_eq_lt,
    Std.compare_eq_iff_eq, hflip]
  constructor
  · rintro (h | ⟨h, h' | ⟨h', h''⟩⟩)
    · exact Or.inl h
    · refine Or.inr ⟨h, ?_⟩
      rintro (hlt | ⟨heq, -⟩) <;> omega
    · refine Or.inr ⟨h, ?_⟩
      rintro (hlt | ⟨-, hlt⟩)
      · omega
      · exact h'' hlt
  · rintro (h | ⟨h, hnot⟩)
    · exact Or.inl h
    · rw [not_or, not_and] at hnot
      refine Or.inr ⟨h, ?_⟩
      rcases Int.lt_trichotomy now r.updatedAt with hlt | heq | hgt
      · exact Or.inl hlt
      · exact Or.inr ⟨heq, hnot.2 heq.symm⟩
      · exact absurd hgt hnot.1

/-- The place of a row among others: behind those of a smaller priority, and behind those
of its own that come first. -/
theorem rank_moved {now p : ℤ} {x : Row δ} {others : List (Row δ)} (hp : x.priority = some p)
    (hnow : x.updatedAt = now) (hids : ∀ r ∈ others, r.id ≠ x.id) :
    rank (compareRows localeCompare) (x :: others) x =
      others.countP (fun r => r.priority.getD 0 < p) +
        others.countP fun r => r.priority.getD 0 = p ∧ ¬ Precedes localeCompare now x.id r := by
  unfold rank
  rw [List.countP_cons_of_neg (by simpa using Lib.not_lt_self x)]
  induction others with
  | nil => rfl
  | cons r others ih =>
    have hr : compareRows localeCompare r x = .lt ↔ _ := compareRows_moved hp hnow (hids r (List.mem_cons_self ..))
    rw [List.countP_cons, List.countP_cons, List.countP_cons, ih fun c hc => hids c (List.mem_cons_of_mem r hc)]
    simp only [decide_eq_true_eq]
    by_cases hlt : r.priority.getD 0 < p
    · rw [if_pos hlt, if_pos (hr.2 (Or.inl hlt)), if_neg fun h => absurd h.1 (Int.ne_of_lt hlt)]
      omega
    · rw [if_neg hlt]
      by_cases hafter : r.priority.getD 0 = p ∧ ¬ Precedes localeCompare now x.id r
      · rw [if_pos hafter, if_pos (hr.2 (Or.inr hafter))]
        omega
      · rw [if_neg hafter, if_neg fun h => (hr.1 h).elim hlt hafter]
        omega

/-! ### The numbers before a move -/

section Numbers

variable {provider : String} {rows : List (Row δ)} {p : ℤ}

theorem countP_range_lt (n k : ℕ) (hk : k ≤ n) : (List.range n).countP (fun i => i < k) = k := by
  induction n with
  | zero =>
    obtain rfl : k = 0 := Nat.le_zero.1 hk
    rfl
  | succ n ih =>
    rw [List.range_succ, List.countP_append, List.countP_singleton]
    simp only [decide_eq_true_eq]
    by_cases hkn : k ≤ n
    · rw [ih hkn, if_neg (Nat.not_lt.2 hkn), Nat.add_zero]
    · obtain rfl : k = n + 1 := by omega
      rw [List.countP_eq_length.2 fun i hi => decide_eq_true (Nat.lt_succ_of_lt (List.mem_range.1 hi)), List.length_range,
        if_pos (Nat.lt_succ_self n)]

omit [Std.TransCmp localeCompare] [Std.LawfulEqCmp localeCompare] in
theorem Numbered.countP_lt (h : Numbered provider rows) {k : ℕ}
    (hk : k ≤ (ofProvider provider rows).length) :
    (ofProvider provider rows).countP (fun r => r.priority.getD 0 < (k : ℤ) + 1) = k := by
  have hcount := h.countP_eq fun o => o.getD 0 < (k : ℤ) + 1
  rw [List.countP_map, List.countP_map] at hcount
  have hbelow : (List.range (ofProvider provider rows).length).countP
      ((fun o : Option ℤ => decide (o.getD 0 < (k : ℤ) + 1)) ∘ fun i : ℕ => some ((i : ℤ) + 1)) = k := by
    rw [← countP_range_lt (ofProvider provider rows).length k hk]
    refine List.countP_congr fun i _ => ?_
    simp [countP_range_lt _ k hk]
  exact hcount.trans hbelow

omit [Std.TransCmp localeCompare] [Std.LawfulEqCmp localeCompare] in
theorem Numbered.exists_at (h : Numbered provider rows) {k : ℕ}
    (hk : k < (ofProvider provider rows).length) :
    ∃ c ∈ ofProvider provider rows, c.priority = some ((k : ℤ) + 1) := by
  have hmem : some ((k : ℤ) + 1) ∈ (ofProvider provider rows).map Row.priority :=
    h.mem_iff.2 (List.mem_map.2 ⟨k, List.mem_range.2 hk, rfl⟩)
  exact List.mem_map.1 hmem

omit [Std.TransCmp localeCompare] [Std.LawfulEqCmp localeCompare] in
theorem Numbered.nodup (h : Numbered provider rows) :
    ((ofProvider provider rows).map Row.priority).Nodup := by
  refine h.nodup_iff.2 (List.nodup_range.map fun i j hij => ?_)
  simpa using hij

omit [Std.TransCmp localeCompare] [Std.LawfulEqCmp localeCompare] in
theorem Numbered.eq_some (h : Numbered provider rows) {r : Row δ}
    (hr : r ∈ ofProvider provider rows) :
    ∃ k < (ofProvider provider rows).length, r.priority = some ((k : ℤ) + 1) := by
  have hmem := h.mem_iff.1 (List.mem_map.2 ⟨r, hr, rfl⟩)
  obtain ⟨k, hk, heq⟩ := List.mem_map.1 hmem
  exact ⟨k, List.mem_range.1 hk, heq.symm⟩

end Numbers

omit [Std.TransCmp localeCompare] [Std.LawfulEqCmp localeCompare] in
theorem exists_perm_cons {l : List (Row δ)} {x : Row δ}
    (hx : x ∈ l) : ∃ rest, l.Perm (x :: rest) := by
  obtain ⟨before, after, rfl⟩ := List.append_of_mem hx
  exact ⟨before ++ after, List.perm_middle⟩

omit [Std.TransCmp localeCompare] [Std.LawfulEqCmp localeCompare] in
theorem countP_tied_eq_zero {now : ℤ} {k : ℕ} {id : String} {rest : List (Row δ)}
    (h : some ((k : ℤ) + 1) ∉ rest.map Row.priority) :
    rest.countP (fun r => r.priority.getD 0 = (k : ℤ) + 1 ∧ ¬ Precedes localeCompare now id r) = 0 := by
  refine List.countP_eq_zero.2 fun r hr hr' => ?_
  obtain ⟨hpriority, -⟩ := of_decide_eq_true hr'
  cases hpr : r.priority with
  | none =>
    rw [hpr, Option.getD_none] at hpriority
    omega
  | some q =>
    rw [hpr, Option.getD_some] at hpriority
    exact h (List.mem_map.2 ⟨r, hr, by rw [hpr, hpriority]⟩)

/-- The place of a row of priority `k + 1`, among the others of a provider that
has a row of that priority. -/
theorem rank_among {now : ℤ} {k : ℕ} {x c : Row δ} {others : List (Row δ)}
    (hp : x.priority = some ((k : ℤ) + 1)) (hnow : x.updatedAt = now)
    (hids : ∀ r ∈ others, r.id ≠ x.id) (hnodup : (others.map Row.priority).Nodup) (hc : c ∈ others) (hcp : c.priority = some ((k : ℤ) + 1)) :
    rank (compareRows localeCompare) (x :: others) x =
      others.countP (fun r => r.priority.getD 0 < (k : ℤ) + 1) + if Precedes localeCompare now x.id c then 0 else 1 := by
  rw [rank_moved hp hnow hids]
  congr 1
  obtain ⟨rest, hperm⟩ := exists_perm_cons hc
  have hunique : c.priority ∉ rest.map Row.priority := by
    have hmap := (hperm.map Row.priority).nodup_iff.1 hnodup
    exact (List.nodup_cons.1 hmap).1
  rw [hperm.countP_eq, List.countP_cons, countP_tied_eq_zero (hcp ▸ hunique), Nat.zero_add]
  by_cases hprecedes : Precedes localeCompare now x.id c
  · simp [hprecedes]
  · simp [hprecedes, hcp]

/-! ### The updated row -/

def moved (x : Row δ) (p now : ℤ) : Row δ := { x with priority := some p, updatedAt := now }

omit [Std.TransCmp localeCompare] [Std.LawfulEqCmp localeCompare] in
theorem updateProviderConnection_eq {rows : List (Row δ)} (hids : (rows.map Row.id).Nodup)
    {x : Row δ} (hx : x ∈ rows) (p now : ℤ) :
    updateProviderConnection localeCompare rows x.id { priority := some p } now =
      reorderInTx localeCompare x.provider (rows.map fun r => if r.id = x.id then moved x p now else r) := by
  have hfind : rows.find? (·.id = x.id) = some x := by
    cases hfind : rows.find? (·.id = x.id) with
    | none =>
      have hno := List.find?_eq_none.1 hfind x hx
      simp at hno
    | some found =>
      have hid : found.id = x.id := by simpa using List.find?_some hfind
      rw [eq_of_id_eq hids (List.mem_of_find?_eq_some hfind) hx hid]
  have hany : rows.any (·.id = x.id) = true := List.any_eq_true.2 ⟨x, hx, by simp⟩
  unfold updateProviderConnection upsert
  rw [hfind]
  simp only [hany, if_true]
  rfl

section Update

variable {rows : List (Row δ)} {x : Row δ} {p now : ℤ}

omit [Std.TransCmp localeCompare] [Std.LawfulEqCmp localeCompare] in
theorem map_moved_ids : ((rows.map fun r => if r.id = x.id then moved x p now else r).map Row.id) = rows.map Row.id := by
  refine ids_map fun r _ => ?_
  split
  · rename_i h
    exact h.symm
  · rfl

omit [Std.TransCmp localeCompare] [Std.LawfulEqCmp localeCompare] in
theorem ofProvider_map_moved (hids : (rows.map Row.id).Nodup) (hx : x ∈ rows) (provider : String) :
    ofProvider provider (rows.map fun r => if r.id = x.id then moved x p now else r) =
      (ofProvider provider rows).map fun r => if r.id = x.id then moved x p now else r := by
  refine ofProvider_map (fun r hr => ?_) provider
  split
  · rename_i h
    rw [eq_of_id_eq hids hr hx h]
    rfl
  · rfl

omit [Std.TransCmp localeCompare] [Std.LawfulEqCmp localeCompare] in
theorem exists_others (p now : ℤ) (hids : (rows.map Row.id).Nodup) (hx : x ∈ rows) :
    ∃ others, (ofProvider x.provider rows).Perm (x :: others) ∧ (∀ r ∈ others, r.id ≠ x.id) ∧
      (ofProvider x.provider (rows.map fun r => if r.id = x.id then moved x p now else r)).Perm (moved x p now :: others) := by
  have hown : x ∈ ofProvider x.provider rows := mem_ofProvider.2 ⟨hx, rfl⟩
  obtain ⟨others, hperm⟩ := exists_perm_cons hown
  have hne : ∀ r ∈ others, r.id ≠ x.id := by
    intro r hr hid
    have hnodup := (hperm.map Row.id).nodup_iff.1 (ofProvider_ids hids x.provider)
    exact (List.nodup_cons.1 hnodup).1 (List.mem_map.2 ⟨r, hr, hid⟩)
  refine ⟨others, hperm, hne, ?_⟩
  rw [ofProvider_map_moved hids hx]
  have hmap := hperm.map fun r => if r.id = x.id then moved x p now else r
  have hsame : (others.map fun r => if r.id = x.id then moved x p now else r) = others :=
    (List.map_congr_left fun r hr => if_neg (hne r hr)).trans (List.map_id _)
  rw [List.map_cons, if_pos rfl, hsame] at hmap
  exact hmap

theorem update_lands_iff (hids : (rows.map Row.id).Nodup) (hnumbered : Numbered x.provider rows)
    (hx : x ∈ rows) (hp : 1 ≤ p) (hpn : p ≤ (ofProvider x.provider rows).length) :
    priorityOf (updateProviderConnection localeCompare rows x.id { priority := some p } now) x.id = some p ↔
      ∀ c ∈ ofProvider x.provider rows, c.priority = some p → c.id ≠ x.id →
        (p < x.priority.getD 0 ↔ Precedes localeCompare now x.id c) := by
  obtain ⟨k, rfl⟩ : ∃ k : ℕ, p = (k : ℤ) + 1 := ⟨(p - 1).toNat, by omega⟩
  have hk : k < (ofProvider x.provider rows).length := by omega
  obtain ⟨others, hperm, hne, hperm'⟩ := exists_others ((k : ℤ) + 1) now hids hx
  have hids' : ((rows.map fun r => if r.id = x.id then moved x ((k : ℤ) + 1) now else r).map Row.id).Nodup := by
    rw [map_moved_ids]
    exact hids
  have hmem := hperm'.mem_iff.2 (List.mem_cons_self ..)
  -- the place that the row gets, and how many were below it
  have hland : priorityOf (updateProviderConnection localeCompare rows x.id { priority := some ((k : ℤ) + 1) } now) x.id =
      some ((rank (compareRows localeCompare) (moved x ((k : ℤ) + 1) now :: others) (moved x ((k : ℤ) + 1) now) : ℤ) + 1) := by
    rw [updateProviderConnection_eq hids hx, ← Lib.rank_perm hperm']
    exact priorityOf_reorderInTx hids' hmem
  have hbelow : (if x.priority.getD 0 < (k : ℤ) + 1 then 1 else 0) + others.countP (fun r => r.priority.getD 0 < (k : ℤ) + 1) = k := by
    have hcount := hnumbered.countP_lt (Nat.le_of_lt hk)
    rw [hperm.countP_eq, List.countP_cons, Nat.add_comm] at hcount
    simpa only [decide_eq_true_eq] using hcount
  have hnodup := (hperm.map Row.priority).nodup_iff.1 hnumbered.nodup
  rw [List.map_cons, List.nodup_cons] at hnodup
  rw [hland, Option.some.injEq]
  by_cases hsame : x.priority = some ((k : ℤ) + 1)
  · have hrank : rank (compareRows localeCompare) (moved x ((k : ℤ) + 1) now :: others) (moved x ((k : ℤ) + 1) now) = _ :=
      rank_moved rfl rfl hne
    rw [countP_tied_eq_zero (hsame ▸ hnodup.1), Nat.add_zero] at hrank
    rw [hsame, Option.getD_some, if_neg (lt_irrefl _), Nat.zero_add] at hbelow
    rw [hrank, hbelow]
    constructor
    · intro _ c hc hcp hcx
      have hcothers : c ∈ others := (List.mem_cons.1 (hperm.mem_iff.1 hc)).resolve_left fun h => hcx (h ▸ rfl)
      exact absurd (List.mem_map.2 ⟨c, hcothers, hcp.trans hsame.symm⟩) hnodup.1
    · exact fun _ => rfl
  · obtain ⟨c, hc, hcp⟩ := hnumbered.exists_at hk
    have hcx : c ≠ x := fun h => hsame (h ▸ hcp)
    have hcothers : c ∈ others := (List.mem_cons.1 (hperm.mem_iff.1 hc)).resolve_left hcx
    have hrank : rank (compareRows localeCompare) (moved x ((k : ℤ) + 1) now :: others) (moved x ((k : ℤ) + 1) now) =
        others.countP (fun r => r.priority.getD 0 < (k : ℤ) + 1) + if Precedes localeCompare now x.id c then 0 else 1 :=
      rank_among rfl rfl hne hnodup.2 hcothers hcp
    have honly : ∀ d ∈ ofProvider x.provider rows, d.priority = some ((k : ℤ) + 1) → d = c :=
      fun d hd hdp => List.inj_on_of_nodup_map hnumbered.nodup hd hc (hdp.trans hcp.symm)
    obtain ⟨a, -, ha⟩ := hnumbered.eq_some (mem_ofProvider.2 ⟨hx, rfl⟩)
    rw [ha, Option.getD_some] at hbelow ⊢
    have hak : a ≠ k := fun h => hsame (h ▸ ha)
    have hiff : (rank (compareRows localeCompare) (moved x ((k : ℤ) + 1) now :: others) (moved x ((k : ℤ) + 1) now) : ℤ) + 1 = (k : ℤ) + 1 ↔
        ((k : ℤ) + 1 < (a : ℤ) + 1 ↔ Precedes localeCompare now x.id c) := by
      rw [hrank]
      by_cases hprecedes : Precedes localeCompare now x.id c
      · rw [if_pos hprecedes, iff_true_right hprecedes]
        split at hbelow <;> omega
      · rw [if_neg hprecedes, iff_false_right hprecedes]
        split at hbelow <;> omega
    rw [hiff]
    constructor
    · intro h d hd hdp _
      rw [honly d hd hdp]
      exact h
    · intro h
      exact h c hc hcp fun hid => hcx (eq_of_id_eq hids (mem_ofProvider.1 hc).1 hx hid)

theorem update_keeps_order (localeCompare : String → String → Ordering) [Std.TransCmp localeCompare]
    [Std.LawfulEqCmp localeCompare] (p now : ℤ) (hids : (rows.map Row.id).Nodup) (hx : x ∈ rows) :
    let after := updateProviderConnection localeCompare rows x.id { priority := some p } now
    Numbered x.provider after ∧ (ofProvider x.provider after).map Row.id = (ofProvider x.provider rows).map Row.id ∧
      ∀ y ∈ ofProvider x.provider rows, ∀ z ∈ ofProvider x.provider rows, y.id ≠ x.id → z.id ≠ x.id →
        y.priority.getD 0 < z.priority.getD 0 → (priorityOf after y.id).getD 0 < (priorityOf after z.id).getD 0 := by
  have hids' : ((rows.map fun r => if r.id = x.id then moved x p now else r).map Row.id).Nodup := by
    rw [map_moved_ids]
    exact hids
  have hstay : ∀ y ∈ ofProvider x.provider rows, y.id ≠ x.id →
      y ∈ ofProvider x.provider (rows.map fun r => if r.id = x.id then moved x p now else r) := by
    intro y hy hne
    rw [ofProvider_map_moved hids hx]
    exact List.mem_map.2 ⟨y, hy, if_neg hne⟩
  simp only
  rw [updateProviderConnection_eq hids hx]
  refine ⟨numbered_reorderInTx hids' x.provider, ?_, fun y hy z hz hyx hzx hlt => ?_⟩
  · rw [ofProvider_reorderInTx localeCompare hids', List.map_map, ofProvider_map_moved hids hx, List.map_map]
    refine List.map_congr_left fun r _ => ?_
    simp only [Function.comp_apply]
    split
    · rename_i h
      exact h.symm
    · rfl
  · rw [priorityOf_reorderInTx hids' (hstay y hy hyx), priorityOf_reorderInTx hids' (hstay z hz hzx), Option.getD_some, Option.getD_some]
    have hcmp : compareRows localeCompare y z = .lt := by
      rw [compareRows, Ordering.then_eq_lt, Std.compare_eq_lt]
      exact Or.inl hlt
    have := Lib.rank_lt_rank (hstay y hy hyx) hcmp
    omega

end Update

/-! ### The created row -/

theorem create_lands_iff {rows : List (Row δ)} {provider id : String} {p now : ℤ}
    (hids : (rows.map Row.id).Nodup)
    (hnumbered : Numbered provider rows) (hfresh : ∀ r ∈ rows, r.id ≠ id) (hp : 1 ≤ p) (hpn : p ≤ (ofProvider provider rows).length)
    (merge : Row δ → Row δ) (data : δ) :
    priorityOf (createProviderConnection localeCompare rows none merge id provider (some p) data now) id = some p ↔
      ∀ c ∈ ofProvider provider rows, c.priority = some p → Precedes localeCompare now id c := by
  obtain ⟨k, rfl⟩ : ∃ k : ℕ, p = (k : ℤ) + 1 := ⟨(p - 1).toNat, by omega⟩
  have hk : k < (ofProvider provider rows).length := by omega
  obtain ⟨c, hc, hcp⟩ := hnumbered.exists_at hk
  set row : Row δ := { id, provider, priority := some ((k : ℤ) + 1), updatedAt := now, data } with hrow
  have hcreate : createProviderConnection localeCompare rows none merge id provider (some ((k : ℤ) + 1)) data now =
      reorderInTx localeCompare provider (rows ++ [row]) := by
    have hany : rows.any (·.id = id) = false := by
      rw [List.any_eq_false]
      exact fun r hr => by simpa using hfresh r hr
    have hzero : (k : ℤ) + 1 ≠ 0 := by omega
    unfold createProviderConnection upsert
    simp only [hany, hzero, ne_eq, not_false_eq_true, if_true, Bool.false_eq_true, if_false]
    rfl
  have hids' : ((rows ++ [row]).map Row.id).Nodup := by
    rw [List.map_append, List.nodup_append]
    refine ⟨hids, List.nodup_singleton _, fun a ha b hb => ?_⟩
    obtain ⟨r, hr, rfl⟩ := List.mem_map.1 ha
    rw [List.mem_singleton.1 hb]
    exact hfresh r hr
  have hown : ofProvider provider (rows ++ [row]) = ofProvider provider rows ++ [row] := by
    simp [ofProvider, hrow]
  have hne : ∀ r ∈ ofProvider provider rows, r.id ≠ row.id := fun r hr => hfresh r (mem_ofProvider.1 hr).1
  have hrank : rank (compareRows localeCompare) (row :: ofProvider provider rows) row =
      (ofProvider provider rows).countP (fun r => r.priority.getD 0 < (k : ℤ) + 1) + if Precedes localeCompare now row.id c then 0 else 1 :=
    rank_among rfl rfl hne hnumbered.nodup hc hcp
  rw [hnumbered.countP_lt (Nat.le_of_lt hk), ← Lib.rank_perm (List.perm_append_singleton row _), ← hown] at hrank
  have hmem : row ∈ ofProvider provider (rows ++ [row]) := mem_ofProvider.2 ⟨by simp, rfl⟩
  have hland : priorityOf (reorderInTx localeCompare provider (rows ++ [row])) row.id = _ := priorityOf_reorderInTx hids' hmem
  rw [hcreate, show id = row.id from rfl, hland, Option.some.injEq, hrank]
  constructor
  · intro h d hd hdp
    rw [List.inj_on_of_nodup_map hnumbered.nodup hd hc (hdp.trans hcp.symm)]
    by_contra hprecedes
    rw [if_neg hprecedes] at h
    omega
  · intro h
    rw [if_pos (h c hc hcp)]
    rfl

/-! ### Where moves land -/

/-- The row has the priority that it was sent to, the rows are numbered, and the others
are in the order they were in. -/
structure MovedTo (provider id : String) (p : ℤ) (rows after : List (Row δ)) : Prop where
  ids : (ofProvider provider after).map Row.id = (ofProvider provider rows).map Row.id
  numbered : Numbered provider after
  lands : priorityOf after id = some p
  others : ∀ y ∈ ofProvider provider rows, ∀ z ∈ ofProvider provider rows, y.id ≠ id → z.id ≠ id →
    y.priority.getD 0 < z.priority.getD 0 → (priorityOf after y.id).getD 0 < (priorityOf after z.id).getD 0

/-! ### The ids that are compared -/

/-- The collation, with ids that it does not tell apart in the order of their code points. -/
def tellingApart (localeCompare : String → String → Ordering) : String → String → Ordering := compareLex localeCompare compare

omit [Std.LawfulEqCmp localeCompare] in
instance : Std.TransCmp (tellingApart localeCompare) :=
  inferInstanceAs (Std.TransCmp (compareLex localeCompare compare))

omit [Std.LawfulEqCmp localeCompare] in
instance : Std.LawfulEqCmp (tellingApart localeCompare) where
  eq_of_compare h := Std.LawfulEqOrd.eq_of_compare (Ordering.then_eq_eq.1 h).2

omit [Std.TransCmp localeCompare] [Std.LawfulEqCmp localeCompare] in
theorem tellingApart_eq {a b : String} (h : localeCompare a b = .eq → a = b) :
    tellingApart localeCompare a b = localeCompare a b := by
  unfold tellingApart compareLex
  cases hcmp : localeCompare a b with
  | lt => rfl
  | gt => rfl
  | eq =>
    rw [h hcmp]
    exact Std.ReflOrd.compare_self

omit [Std.TransCmp localeCompare] [Std.LawfulEqCmp localeCompare] in
theorem reorderInTx_tellingApart {rows : List (Row δ)}
    (h : ∀ a ∈ rows.map Row.id, ∀ b ∈ rows.map Row.id, localeCompare a b = .eq → a = b) (provider : String) :
    reorderInTx (tellingApart localeCompare) provider rows = reorderInTx localeCompare provider rows := by
  unfold reorderInTx
  rw [Lib.sortBy_congr fun a ha b hb => ?_]
  have ha := List.mem_map_of_mem (f := Row.id) (mem_ofProvider.1 ha).1
  have hb := List.mem_map_of_mem (f := Row.id) (mem_ofProvider.1 hb).1
  rw [compareRows, compareRows, tellingApart_eq (h a.id ha b.id hb)]

omit [Std.TransCmp localeCompare] [Std.LawfulEqCmp localeCompare] in
theorem precedes_tellingApart {now : ℤ} {id : String} {c : Row δ}
    (h : localeCompare id c.id = .eq → id = c.id) :
    Precedes (tellingApart localeCompare) now id c ↔ Precedes localeCompare now id c := by
  rw [Precedes, Precedes, tellingApart_eq h]

omit [Std.LawfulEqCmp localeCompare] in
/-- A row that moves up lands where it was sent if it precedes the row that is there, one that moves
down if it does not; a new row, if it precedes it. -/
theorem priority_moves_land_iff (rows : List (Row δ)) (hids : (rows.map Row.id).Nodup)
    (happart : ∀ a ∈ rows.map Row.id, ∀ b ∈ rows.map Row.id, localeCompare a b = .eq → a = b) (provider : String)
    (hnumbered : Numbered provider rows) (p now : ℤ) (hp : 1 ≤ p) (hpn : p ≤ (ofProvider provider rows).length) :
    (∀ x ∈ ofProvider provider rows,
      MovedTo provider x.id p rows (updateProviderConnection localeCompare rows x.id { priority := some p } now) ↔
        ∀ c ∈ ofProvider provider rows, c.priority = some p → c.id ≠ x.id → (p < x.priority.getD 0 ↔ Precedes localeCompare now x.id c)) ∧
    ∀ (id : String) (merge : Row δ → Row δ) (data : δ), (∀ r ∈ rows, localeCompare id r.id ≠ .eq) →
      (priorityOf (createProviderConnection localeCompare rows none merge id provider (some p) data now) id = some p ↔
        ∀ c ∈ ofProvider provider rows, c.priority = some p → Precedes localeCompare now id c) := by
  have hmem : ∀ {r : Row δ}, r ∈ ofProvider provider rows → r.id ∈ rows.map Row.id := fun hr =>
    List.mem_map_of_mem (mem_ofProvider.1 hr).1
  refine ⟨fun x hx => ?_, fun id merge data hfresh => ?_⟩
  · have hx' := hmem hx
    obtain ⟨hrows, rfl⟩ := mem_ofProvider.1 hx
    have hupdate : updateProviderConnection (tellingApart localeCompare) rows x.id { priority := some p } now =
        updateProviderConnection localeCompare rows x.id { priority := some p } now := by
      rw [updateProviderConnection_eq hids hrows, updateProviderConnection_eq hids hrows]
      exact reorderInTx_tellingApart (@map_moved_ids _ rows x p now ▸ happart) x.provider
    have hlands := @update_lands_iff _ (tellingApart localeCompare) _ _ rows x p now hids hnumbered hrows hp hpn
    obtain ⟨hagain, hsame, hothers⟩ := update_keeps_order (tellingApart localeCompare) p now hids hrows
    rw [hupdate] at hlands hagain hsame hothers
    have hprecedes : ∀ c ∈ ofProvider x.provider rows,
        (Precedes (tellingApart localeCompare) now x.id c ↔ Precedes localeCompare now x.id c) := fun c hc =>
      precedes_tellingApart (happart x.id hx' c.id (hmem hc))
    constructor
    · intro h c hc hcp hcx
      rw [← hprecedes c hc]
      exact hlands.1 h.lands c hc hcp hcx
    · intro h
      refine ⟨hsame, hagain, hlands.2 fun c hc hcp hcx => ?_, hothers⟩
      rw [hprecedes c hc]
      exact h c hc hcp hcx
  · have hne : ∀ r ∈ rows, r.id ≠ id := fun r hr hid => hfresh r hr (hid ▸ Std.ReflCmp.compare_self)
    have hlands := @create_lands_iff _ (tellingApart localeCompare) _ _ rows provider id p now hids hnumbered hne hp hpn merge data
    have hany : rows.any (·.id = id) = false := by
      rw [List.any_eq_false]
      exact fun r hr => by simpa using hne r hr
    have hcreate : createProviderConnection (tellingApart localeCompare) rows none merge id provider (some p) data now =
        createProviderConnection localeCompare rows none merge id provider (some p) data now := by
      refine reorderInTx_tellingApart ?_ provider
      rw [upsert, if_neg (by simp only [hany, Bool.false_eq_true, not_false_eq_true]), List.map_append]
      intro a ha b hb hab
      rw [List.mem_append, List.map_singleton, List.mem_singleton] at ha hb
      rcases ha with ha | rfl <;> rcases hb with hb | rfl
      · exact happart a ha b hb hab
      · obtain ⟨r, hr, rfl⟩ := List.mem_map.1 ha
        exact absurd (Std.OrientedCmp.eq_symm hab) (hfresh r hr)
      · obtain ⟨r, hr, rfl⟩ := List.mem_map.1 hb
        exact absurd hab (hfresh r hr)
      · rfl
    rw [hcreate] at hlands
    rw [hlands]
    refine forall₂_congr fun c hc => imp_congr_right fun _ => precedes_tellingApart fun heq => ?_
    exact absurd heq (hfresh c (mem_ofProvider.1 hc).1)

def twoAccounts : List (Row Unit) :=
  [{ id := "a", provider := "claude", priority := some 1, updatedAt := 0, data := () },
    { id := "b", provider := "claude", priority := some 2, updatedAt := 0, data := () }]

theorem priority_moves_land_iff_twoAccounts :
    (∀ x ∈ ofProvider "claude" twoAccounts,
      MovedTo "claude" x.id 1 twoAccounts (updateProviderConnection compare twoAccounts x.id { priority := some 1 } 1) ↔
        ∀ c ∈ ofProvider "claude" twoAccounts, c.priority = some 1 → c.id ≠ x.id → (1 < x.priority.getD 0 ↔ Precedes compare 1 x.id c)) ∧
    ∀ (id : String) (merge : Row Unit → Row Unit) (data : Unit), (∀ r ∈ twoAccounts, compare id r.id ≠ .eq) →
      (priorityOf (createProviderConnection compare twoAccounts none merge id "claude" (some 1) data 1) id = some 1 ↔
        ∀ c ∈ ofProvider "claude" twoAccounts, c.priority = some 1 → Precedes compare 1 id c) :=
  priority_moves_land_iff twoAccounts (by decide) (by decide) "claude" (by unfold Numbered; decide) 1 1 (by decide) (by decide)

/-- The first of two accounts, sent to the second place, stays first. -/
theorem moved_down_lands_above :
    (twoAccounts.map Row.id).Nodup ∧ Numbered "claude" twoAccounts ∧
      ¬ MovedTo "claude" "a" 2 twoAccounts (updateProviderConnection compare twoAccounts "a" { priority := some 2 } 1) := by
  refine ⟨by decide, by unfold Numbered; decide, fun h => ?_⟩
  have hlands : priorityOf (updateProviderConnection compare twoAccounts "a" { priority := some 2 } 1) "a" = some 1 := by decide +kernel
  rw [h.lands] at hlands
  exact absurd hlands (by decide)

end TokenProxy.Priority
