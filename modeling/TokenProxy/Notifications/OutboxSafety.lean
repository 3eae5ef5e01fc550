import TokenProxy.Lib.Run
import TokenProxy.Notifications.Outbox

/-!
# The outbox sends at most once

Each operation moves a row forward or leaves it alone (`Moves`), a queued row has never been handed
out and a row that is being delivered has its claim on record (`OutboxInv`). A claim takes the first
queued rows, at most as many as keep two rows delivering.
-/

namespace TokenProxy.Notifications

open Lib

variable {rowId : String → String → String → String}

/-! ### What an operation does to a row -/

/-- A claim hands a queued row out or sweeps one that is delivering; a finish ends a row that is
delivering, with the claim that holds it. -/
inductive Moves (claims : List Delivery) (op : OutboxOp) (row row' : Delivery) : Prop where
  | kept (h : row' = row)
  | handed (now : Nat) (limit : Int) (hop : op = .claim now limit) (hqueued : row.state = .queued)
      (hdelivering : row'.state = .delivering)
  | swept (now : Nat) (limit : Int) (hop : op = .claim now limit) (hdelivering : row.state = .delivering)
      (huncertain : row'.state = .uncertain)
  | finished (claim : Delivery) (result : DeliveryResult) (now : Nat) (hop : op = .finish claim result now)
      (hdelivering : row.state = .delivering) (hfinal : row'.state = result.state)
      (hholds : ∃ c ∈ claims, c.id = row.id ∧ c.owner = row.owner ∧ claim.id = c.id ∧ claim.owner = c.owner)

structure OutboxInv (box : Outbox) : Prop where
  unique : ∀ r ∈ box.rows.rows, ∀ r' ∈ box.rows.rows, r.target = r'.target → r = r'
  handed : (box.claims.map (·.id)).Nodup
  known : ∀ c ∈ box.claims, ∃ r ∈ box.rows.rows, r.id = c.id ∧ r.state ≠ .queued
  owned : ∀ r ∈ box.rows.rows, r.state = .delivering → ∃ c ∈ box.claims, c.id = r.id ∧ c.owner = r.owner
  few : active box.rows ≤ 2

/-! ### Enqueue -/

/-- Rows are added, none of them delivering, with identities that were not there. -/
structure Grows (rows rows' : Deliveries) : Prop where
  kept : ∀ r ∈ rows.rows, r ∈ rows'.rows
  added : ∀ r ∈ rows'.rows, r ∈ rows.rows ∨ r.state ≠ .delivering
  unique : (∀ r ∈ rows.rows, ∀ r' ∈ rows.rows, r.target = r'.target → r = r') →
    ∀ r ∈ rows'.rows, ∀ r' ∈ rows'.rows, r.target = r'.target → r = r'
  active : active rows' = active rows

theorem Grows.refl (rows : Deliveries) : Grows rows rows := ⟨fun _ h => h, fun _ h => Or.inl h, fun h => h, rfl⟩

theorem Grows.trans {a b c : Deliveries} (h : Grows a b) (h' : Grows b c) : Grows a c where
  kept r hr := h'.kept r (h.kept r hr)
  added r hr := (h'.added r hr).elim (h.added r) Or.inr
  unique hu := h'.unique (h.unique hu)
  active := h'.active.trans h.active

theorem insertOrIgnore_grows {rows : Deliveries} {row : Delivery}
    (hstate : row.state ≠ .delivering) :
    Grows rows (insertOrIgnore rows row) := by
  unfold insertOrIgnore
  split
  · exact Grows.refl rows
  · rename_i hnew
    rw [Bool.not_eq_true, List.any_eq_false] at hnew
    have hnone : rows.get? row.id = none :=
      Table.get?_eq_none.2 fun r hr hid => by simpa [hid] using hnew r hr
    have hrows : (rows.put row).rows = rows.rows ++ [row] := Table.rows_put_none hnone
    have htarget (r : Delivery) (hr : r ∈ rows.rows) : r.target ≠ row.target :=
      fun h => by simpa [h] using hnew r hr
    refine ⟨?_, ?_, ?_, ?_⟩
    · intro r hr
      rw [hrows]
      exact List.mem_append_left _ hr
    · intro r hr
      rw [hrows] at hr
      obtain hr | hr := List.mem_append.1 hr
      · exact Or.inl hr
      · rw [List.mem_singleton.1 hr]
        exact Or.inr hstate
    · intro hu r hr r' hr' heq
      rw [hrows] at hr hr'
      obtain hr | hr := List.mem_append.1 hr
      · obtain hr' | hr' := List.mem_append.1 hr'
        · exact hu r hr r' hr' heq
        · exact absurd (List.mem_singleton.1 hr' ▸ heq) (htarget r hr)
      · obtain hr' | hr' := List.mem_append.1 hr'
        · exact absurd (List.mem_singleton.1 hr ▸ heq).symm (htarget r' hr')
        · rw [List.mem_singleton.1 hr, List.mem_singleton.1 hr']
    · simp [active, hrows, hstate]

theorem newDelivery_state (event eventId payload : String) (now : Nat) (overflow : Bool)
    (endpoint : NotificationTarget) :
    (newDelivery rowId event eventId payload now overflow endpoint).state ≠ .delivering := by
  unfold newDelivery
  cases overflow <;> simp

theorem enqueueTargets_grows (event eventId payload : String) (now : Nat)
    (targets : List NotificationTarget)
    (pending : Nat) (rows : Deliveries) :
    Grows rows (enqueueTargets rowId event eventId payload now targets pending rows) := by
  induction targets generalizing pending rows with
  | nil => exact Grows.refl rows
  | cons endpoint targets ih => exact (insertOrIgnore_grows (newDelivery_state event eventId payload now _ endpoint)).trans (ih _ _)

theorem enqueue_grows (event eventId payload : String) (targets : List NotificationTarget)
    (now : Nat) (box : Outbox) :
    Grows box.rows (enqueueCapturedNotificationEvent rowId event eventId payload targets now box).rows ∧
      (enqueueCapturedNotificationEvent rowId event eventId payload targets now box).claims = box.claims := by
  unfold enqueueCapturedNotificationEvent
  split
  · exact ⟨Grows.refl _, rfl⟩
  · exact ⟨enqueueTargets_grows .., rfl⟩

theorem OutboxInv.grow {box box' : Outbox} (h : OutboxInv box) (hg : Grows box.rows box'.rows)
    (hclaims : box'.claims = box.claims) : OutboxInv box' where
  unique := hg.unique h.unique
  handed := hclaims ▸ h.handed
  known c hc := by
    obtain ⟨r, hr, hid, hstate⟩ := h.known c (hclaims ▸ hc)
    exact ⟨r, hg.kept r hr, hid, hstate⟩
  owned r hr hstate := by
    rw [hclaims]
    exact (hg.added r hr).elim (fun hr => h.owned r hr hstate) fun hn => absurd hstate hn
  few := hg.active ▸ h.few

/-! ### Claims -/

def handRow (now owner : Nat) (ids : List String) (row : Delivery) : Delivery :=
  if row.id ∈ ids ∧ row.state = .queued then
    { row with state := .delivering, owner := some owner, leaseUntil := some (now + LEASE_MS), updatedAt := now }
  else row

theorem handRow_deliverRow (now owner : Nat) (id : String) (ids : List String) (row : Delivery) :
    handRow now owner ids (deliverRow now owner id row) = handRow now owner (id :: ids) row := by
  unfold deliverRow
  split
  · rename_i h
    rw [handRow, if_neg (by simp), handRow, if_pos ⟨by simp [h.1], h.2⟩]
  · rename_i h
    unfold handRow
    by_cases hq : row.state = .queued
    · have hne : row.id ≠ id := fun heq => h ⟨heq, hq⟩
      simp [hq, hne]
    · simp [hq]

theorem deliver_rows (now owner : Nat) (picked : List Delivery) (rows : Deliveries) :
    (deliver now owner rows picked).rows = rows.rows.map (handRow now owner (picked.map (·.id))) := by
  induction picked generalizing rows with
  | nil =>
    have hid : handRow now owner [] = id := by
      funext r
      simp [handRow]
    simp [deliver, hid]
  | cons row picked ih =>
    show (deliver now owner (rows.mapRows _ _) picked).rows = _
    rw [ih, Table.mapRows, List.map_map]
    exact List.map_congr_left fun r _ => by rw [Function.comp_apply, handRow_deliverRow, List.map_cons]

theorem mem_pick {limit : Int} {rows : Deliveries} {row : Delivery} (h : row ∈ pick limit rows) :
    row ∈ rows.rows ∧ row.state = .queued := by
  have hsort := List.mem_of_mem_take h
  rw [List.mem_insertionSort, List.mem_filter, decide_eq_true_eq] at hsort
  exact hsort

theorem nodup_pick (limit : Int) (rows : Deliveries) : ((pick limit rows).map (·.id)).Nodup := by
  have hperm := (List.perm_insertionSort Delivery.Before (rows.rows.filter fun r => r.state = .queued)).map (·.id)
  have hsort := hperm.nodup_iff.2 (Table.nodup_filter rows.nodup fun r => r.state = .queued)
  exact hsort.sublist ((List.take_sublist _ _).map _)

instance : Std.Total Delivery.Before := ⟨fun a b => le_total (toLex (a.createdAt, a.id)) (toLex (b.createdAt, b.id))⟩

instance : IsTrans Delivery Delivery.Before := ⟨fun _ _ _ h h' => le_trans h h'⟩

theorem pick_first (limit : Int) (rows : Deliveries) :
    (pick limit rows).Pairwise Delivery.Before ∧
      ∀ row ∈ pick limit rows, ∀ r ∈ rows.rows, r.state = .queued → r ∉ pick limit rows → row.Before r := by
  have hsorted := List.pairwise_insertionSort Delivery.Before (rows.rows.filter fun r => r.state = .queued)
  refine ⟨hsorted.sublist (List.take_sublist _ _), ?_⟩
  intro row hrow r hr hqueued hnot
  have hmem : r ∈ (rows.rows.filter fun r => r.state = .queued).insertionSort Delivery.Before := by
    rw [List.mem_insertionSort, List.mem_filter]
    exact ⟨hr, by simpa using hqueued⟩
  rw [← List.take_append_drop (min (2 - (active rows : Int)) limit).toNat (List.insertionSort _ _)] at hsorted hmem
  obtain hmem | hmem := List.mem_append.1 hmem
  · exact absurd hmem hnot
  · exact (List.pairwise_append.1 hsorted).2.2 row hrow r hmem

/-- The update of a claim on a row: given up if its lease ran out, handed out if it is picked. -/
def claimRow (now owner : Nat) (ids : List String)
    (row : Delivery) : Delivery := handRow now owner ids (sweepRow now row)

theorem claim_rows (now : Nat) (limit : Int) (box : Outbox) :
    (claimDeliveries now limit box).1.rows.rows =
      box.rows.rows.map (claimRow now box.supply ((pick limit (sweep now box.rows)).map (·.id))) := by
  show (deliver now box.supply (sweep now box.rows) (pick limit (sweep now box.rows))).rows = _
  rw [deliver_rows, sweep, Table.mapRows, List.map_map]
  rfl

theorem sweepRow_queued {now : Nat} {row : Delivery} (h : (sweepRow now row).state = .queued) :
    sweepRow now row = row := by
  unfold sweepRow at h ⊢
  split at h
  · cases h
  · rename_i hn
    rw [if_neg hn]

theorem claimRow_cases (now owner : Nat) (ids : List String) (row : Delivery) :
    (claimRow now owner ids row = row ∧ (row.state = .queued → row.id ∉ ids)) ∨
      (row.state = .delivering ∧ (claimRow now owner ids row).state = .uncertain) ∨
      (row.state = .queued ∧ row.id ∈ ids ∧ (claimRow now owner ids row).state = .delivering ∧
        (claimRow now owner ids row).owner = some owner) := by
  unfold claimRow
  by_cases hsweep : row.state = .delivering ∧ row.leaseUntil.any (· ≤ now)
  · refine Or.inr (Or.inl ⟨hsweep.1, ?_⟩)
    rw [sweepRow, if_pos hsweep, handRow, if_neg (by simp)]
  · have hsame : sweepRow now row = row := by rw [sweepRow, if_neg hsweep]
    rw [hsame]
    unfold handRow
    split
    · rename_i h
      exact Or.inr (Or.inr ⟨h.2, h.1, rfl, rfl⟩)
    · rename_i h
      exact Or.inl ⟨rfl, fun hq hid => h ⟨hid, hq⟩⟩

theorem claimRow_id (now owner : Nat) (ids : List String) (row : Delivery) :
    (claimRow now owner ids row).id = row.id ∧ (claimRow now owner ids row).target = row.target := by
  unfold claimRow handRow sweepRow Delivery.target
  split <;> split <;> simp

theorem mem_pick_sweep {now : Nat} {limit : Int} {rows : Deliveries} {row : Delivery}
    (h : row ∈ pick limit (sweep now rows)) : row ∈ rows.rows ∧ row.state = .queued := by
  obtain ⟨hmem, hstate⟩ := mem_pick h
  obtain ⟨r, hr, rfl⟩ := List.mem_map.1 hmem
  rw [sweepRow_queued hstate]
  exact ⟨hr, by rwa [sweepRow_queued hstate] at hstate⟩

theorem active_sweep_le (now : Nat) (rows : Deliveries) :
    active (sweep now rows) ≤ active rows := by
  show (rows.rows.map (sweepRow now)).countP _ ≤ _
  rw [List.countP_map]
  refine List.countP_mono_left fun r _ h => ?_
  simp only [Function.comp_apply, decide_eq_true_eq] at h ⊢
  unfold sweepRow at h
  split at h
  · cases h
  · exact h

theorem length_pick_le (limit : Int) (rows : Deliveries) (h : active rows ≤ 2) :
    active rows + (pick limit rows).length ≤ 2 := by
  have hlen : (pick limit rows).length ≤ (min (2 - (active rows : Int)) limit).toNat := List.length_take_le ..
  omega

theorem countP_or_le {α : Type} (p q : α → Bool)
    (l : List α) : l.countP (fun a => p a || q a) ≤ l.countP p + l.countP q := by
  induction l with
  | nil => simp
  | cons a l ih =>
    simp only [List.countP_cons]
    cases p a <;> cases q a <;> simp <;> omega

theorem active_claim_le (now : Nat) (limit : Int) (box : Outbox) :
    active (claimDeliveries now limit box).1.rows ≤
      active (sweep now box.rows) + (pick limit (sweep now box.rows)).length := by
  set ids := (pick limit (sweep now box.rows)).map (·.id) with hids
  set swept := (sweep now box.rows).rows with hswept
  have hafter : active (claimDeliveries now limit box).1.rows =
      swept.countP fun r => decide ((handRow now box.supply ids r).state = .delivering) := by
    show (deliver now box.supply (sweep now box.rows) (pick limit (sweep now box.rows))).rows.countP _ = _
    rw [deliver_rows, List.countP_map]
    rfl
  have hsplit : swept.countP (fun r => decide ((handRow now box.supply ids r).state = .delivering)) ≤
      swept.countP fun r => decide (r.state = .delivering) || decide (r.id ∈ ids) := by
    refine List.countP_mono_left fun r _ h => ?_
    simp only [decide_eq_true_eq, Bool.or_eq_true] at h ⊢
    unfold handRow at h
    split at h
    · rename_i hin
      exact Or.inr hin.1
    · exact Or.inl h
  have hpicked : swept.countP (fun r => decide (r.id ∈ ids)) ≤ ids.length := by
    rw [List.countP_eq_length_filter, ← List.length_map (·.id)]
    refine (List.subperm_of_subset (Table.nodup_filter (sweep now box.rows).nodup _) ?_).length_le
    intro id hid
    obtain ⟨r, hr, rfl⟩ := List.mem_map.1 hid
    simpa using (List.mem_filter.1 hr).2
  have hor : swept.countP (fun r => decide (r.state = .delivering) || decide (r.id ∈ ids)) ≤
      swept.countP (fun r => decide (r.state = .delivering)) + swept.countP fun r => decide (r.id ∈ ids) :=
    countP_or_le ..
  have hlen : ids.length = (pick limit (sweep now box.rows)).length := by rw [hids, List.length_map]
  have hactive : active (sweep now box.rows) = swept.countP fun r => decide (r.state = .delivering) := rfl
  omega

/-! ### Steps and runs -/

theorem OutboxInv.claim {box : Outbox} (h : OutboxInv box) (now : Nat) (limit : Int) :
    OutboxInv (claimDeliveries now limit box).1 := by
  set picked := pick limit (sweep now box.rows) with hpicked
  have hrows := claim_rows now limit box
  rw [← hpicked] at hrows
  have hclaims : (claimDeliveries now limit box).1.claims =
      box.claims ++ picked.map fun row => { row with owner := some box.supply } := rfl
  have hids : (picked.map fun row : Delivery => { row with owner := some box.supply }).map (·.id) = picked.map (·.id) := by
    rw [List.map_map]
    rfl
  refine ⟨?_, ?_, ?_, ?_, ?_⟩
  · rw [hrows]
    intro r hr r' hr' heq
    obtain ⟨x, hx, rfl⟩ := List.mem_map.1 hr
    obtain ⟨x', hx', rfl⟩ := List.mem_map.1 hr'
    rw [(claimRow_id ..).2, (claimRow_id ..).2] at heq
    rw [h.unique x hx x' hx' heq]
  · rw [hclaims, List.map_append, hids]
    refine List.nodup_append.2 ⟨h.handed, nodup_pick limit _, ?_⟩
    rintro id hold _ hnew rfl
    obtain ⟨c, hc, rfl⟩ := List.mem_map.1 hold
    obtain ⟨row, hrow, hid⟩ := List.mem_map.1 hnew
    obtain ⟨hmem, hqueued⟩ := mem_pick_sweep hrow
    obtain ⟨r, hr, hrid, hstate⟩ := h.known c hc
    have hrid : r.id = row.id := hrid.trans hid.symm
    have hsame : r = row := Table.eq_of_key hr hmem hrid
    exact hstate (hsame ▸ hqueued)
  · intro c hc
    rw [hclaims] at hc
    obtain hc | hc := List.mem_append.1 hc
    · obtain ⟨r, hr, hid, hstate⟩ := h.known c hc
      refine ⟨claimRow now box.supply (picked.map (·.id)) r, by rw [hrows]; exact List.mem_map_of_mem hr,
        (claimRow_id ..).1.trans hid, ?_⟩
      obtain ⟨hkept, -⟩ | ⟨-, huncertain⟩ | ⟨-, -, hdelivering, -⟩ :=
        claimRow_cases now box.supply (picked.map (·.id)) r
      · rwa [hkept]
      · simp [huncertain]
      · simp [hdelivering]
    · obtain ⟨row, hrow, rfl⟩ := List.mem_map.1 hc
      obtain ⟨hmem, hqueued⟩ := mem_pick_sweep hrow
      refine ⟨claimRow now box.supply (picked.map (·.id)) row, by rw [hrows]; exact List.mem_map_of_mem hmem,
        (claimRow_id ..).1, ?_⟩
      obtain ⟨-, hnot⟩ | ⟨-, huncertain⟩ | ⟨-, -, hdelivering, -⟩ :=
        claimRow_cases now box.supply (picked.map (·.id)) row
      · exact absurd (List.mem_map_of_mem hrow) (hnot hqueued)
      · simp [huncertain]
      · simp [hdelivering]
  · rw [hrows]
    intro r hr hstate
    obtain ⟨x, hx, rfl⟩ := List.mem_map.1 hr
    rw [hclaims, (claimRow_id ..).1]
    obtain ⟨hkept, -⟩ | ⟨-, huncertain⟩ | ⟨-, hid, -, howner⟩ :=
      claimRow_cases now box.supply (picked.map (·.id)) x
    · rw [hkept] at hstate ⊢
      obtain ⟨c, hc, hcid, hcowner⟩ := h.owned x hx hstate
      exact ⟨c, List.mem_append_left _ hc, hcid, hcowner⟩
    · rw [huncertain] at hstate
      cases hstate
    · obtain ⟨row, hrow, hrid⟩ := List.mem_map.1 hid
      exact ⟨_, List.mem_append_right _ (List.mem_map_of_mem hrow), hrid, howner.symm⟩
  · have hsweep := active_sweep_le now box.rows
    exact (active_claim_le now limit box).trans (length_pick_le limit _ (hsweep.trans h.few))

theorem finishRow_cases (claim : Delivery) (result : DeliveryResult) (now : Nat) (row : Delivery) :
    finishRow claim result now row = row ∨
      (row.state = .delivering ∧ row.id = claim.id ∧ row.owner = claim.owner ∧
        (finishRow claim result now row).state = result.state) := by
  unfold finishRow
  split
  · rename_i h
    exact Or.inr ⟨h.2.1, h.1, h.2.2.2, rfl⟩
  · exact Or.inl rfl

theorem result_state (result : DeliveryResult) :
    result.state ≠ .queued ∧ result.state ≠ .delivering := by
  unfold DeliveryResult.state
  split
  · simp
  · split
    · simp
    · split <;> simp

theorem finishRow_target (claim : Delivery) (result : DeliveryResult) (now : Nat) (row : Delivery) :
    (finishRow claim result now row).target = row.target := by
  unfold finishRow Delivery.target
  split <;> rfl

theorem OutboxInv.finish {box : Outbox} (h : OutboxInv box) (claim : Delivery)
    (result : DeliveryResult) (now : Nat) :
    OutboxInv (finishDelivery claim result now box) := by
  have hrows : (finishDelivery claim result now box).rows.rows = box.rows.rows.map (finishRow claim result now) := rfl
  refine ⟨?_, h.handed, ?_, ?_, ?_⟩
  · rw [hrows]
    intro r hr r' hr' heq
    obtain ⟨x, hx, rfl⟩ := List.mem_map.1 hr
    obtain ⟨x', hx', rfl⟩ := List.mem_map.1 hr'
    rw [finishRow_target, finishRow_target] at heq
    rw [h.unique x hx x' hx' heq]
  · intro c hc
    obtain ⟨r, hr, hid, hstate⟩ := h.known c hc
    refine ⟨finishRow claim result now r, by rw [hrows]; exact List.mem_map_of_mem hr, (finishRow_id ..).trans hid, ?_⟩
    obtain hkept | ⟨-, -, -, hfinal⟩ := finishRow_cases claim result now r
    · rwa [hkept]
    · rw [hfinal]
      exact (result_state result).1
  · rw [hrows]
    intro r hr hstate
    obtain ⟨x, hx, rfl⟩ := List.mem_map.1 hr
    obtain hkept | ⟨-, -, -, hfinal⟩ := finishRow_cases claim result now x
    · rw [hkept] at hstate ⊢
      exact h.owned x hx hstate
    · rw [hfinal] at hstate
      exact absurd hstate (result_state result).2
  · refine le_trans ?_ h.few
    show (box.rows.rows.map (finishRow claim result now)).countP _ ≤ _
    rw [List.countP_map]
    refine List.countP_mono_left fun r _ hr => ?_
    simp only [Function.comp_apply, decide_eq_true_eq] at hr ⊢
    obtain hkept | ⟨-, -, -, hfinal⟩ := finishRow_cases claim result now r
    · rwa [hkept] at hr
    · rw [hfinal] at hr
      exact absurd hr (result_state result).2

theorem OutboxInv.step {box : Outbox} (h : OutboxInv box)
    (op : OutboxOp) : OutboxInv (outboxStep rowId box op) := by
  cases op with
  | enqueue event eventId payload targets now =>
    obtain ⟨hgrows, hclaims⟩ := @enqueue_grows rowId event eventId payload targets now box
    exact h.grow hgrows hclaims
  | claim now limit => exact h.claim now limit
  | finish claim result now => exact h.finish claim result now

theorem OutboxInv.moves {box : Outbox} (h : OutboxInv box) (op : OutboxOp) {row : Delivery}
    (hrow : row ∈ box.rows.rows) :
    ∃ row' ∈ (outboxStep rowId box op).rows.rows, row'.id = row.id ∧ Moves box.claims op row row' := by
  cases op with
  | enqueue event eventId payload targets now =>
    obtain ⟨hgrows, -⟩ := @enqueue_grows rowId event eventId payload targets now box
    exact ⟨row, hgrows.kept row hrow, rfl, .kept rfl⟩
  | claim now limit =>
    set ids := (pick limit (sweep now box.rows)).map (·.id)
    have hmem : claimRow now box.supply ids row ∈ (claimDeliveries now limit box).1.rows.rows := by
      rw [claim_rows]
      exact List.mem_map_of_mem hrow
    refine ⟨_, hmem, (claimRow_id ..).1, ?_⟩
    obtain ⟨hkept, -⟩ | ⟨hdelivering, huncertain⟩ | ⟨hqueued, -, hdelivering, -⟩ :=
      claimRow_cases now box.supply ids row
    · exact .kept hkept
    · exact .swept now limit rfl hdelivering huncertain
    · exact .handed now limit rfl hqueued hdelivering
  | finish claim result now =>
    have hmem : finishRow claim result now row ∈ (finishDelivery claim result now box).rows.rows :=
      List.mem_map_of_mem hrow
    refine ⟨_, hmem, finishRow_id .., ?_⟩
    obtain hkept | ⟨hdelivering, hid, howner, hfinal⟩ := finishRow_cases claim result now row
    · exact .kept hkept
    · obtain ⟨c, hc, hcid, hcowner⟩ := h.owned row hrow hdelivering
      exact .finished claim result now rfl hdelivering hfinal
        ⟨c, hc, hcid, hcowner, (hcid.trans hid).symm, (hcowner.trans howner).symm⟩

theorem outboxInv_initial : OutboxInv {} where
  unique r hr := by cases hr
  handed := List.nodup_nil
  known c hc := by cases hc
  owned r hr := by cases hr
  few := Nat.zero_le 2

/-- **The outbox never sends twice.** After any run: one row for an event and endpoint, no row
handed out twice, at most two delivering; the next operation moves every row as `Moves` says, and a
claim hands out the first queued rows in their order. -/
theorem outbox_sendsAtMostOnce (ops : List OutboxOp) :
    let box := run (outboxStep rowId) {} ops
    (∀ r ∈ box.rows.rows, ∀ r' ∈ box.rows.rows,
        r.event = r'.event → r.eventId = r'.eventId → r.endpointId = r'.endpointId → r = r') ∧
      (box.claims.map (·.id)).Nodup ∧
      active box.rows ≤ 2 ∧
      (∀ op, ∀ row ∈ box.rows.rows,
        ∃ row' ∈ (outboxStep rowId box op).rows.rows, row'.id = row.id ∧ Moves box.claims op row row') ∧
      ∀ now limit, (claimDeliveries now limit box).2.Pairwise Delivery.Before ∧
        ∀ row ∈ (claimDeliveries now limit box).2,
          (∃ r ∈ box.rows.rows, r.id = row.id ∧ r.state = .queued) ∧
          ∀ r ∈ (claimDeliveries now limit box).1.rows.rows, r.state = .queued → row.Before r := by
  intro box
  have hinv : OutboxInv box := run_inv (I := OutboxInv) (fun _ op h => h.step op) outboxInv_initial
  refine ⟨?_, hinv.handed, hinv.few, fun op row hrow => hinv.moves op hrow, ?_⟩
  · intro r hr r' hr' hevent hid hendpoint
    exact hinv.unique r hr r' hr' (by rw [Delivery.target, Delivery.target, hevent, hid, hendpoint])
  · intro now limit
    obtain ⟨hsorted, hfirst⟩ := pick_first limit (sweep now box.rows)
    have hclaimed : (claimDeliveries now limit box).2 =
        (pick limit (sweep now box.rows)).map fun row => { row with owner := some box.supply } := rfl
    rw [hclaimed]
    refine ⟨?_, ?_⟩
    · rw [List.pairwise_map]
      exact hsorted
    · intro row hrow
      obtain ⟨p, hp, rfl⟩ := List.mem_map.1 hrow
      obtain ⟨hmem, hqueued⟩ := mem_pick_sweep hp
      refine ⟨⟨p, hmem, rfl, hqueued⟩, ?_⟩
      intro r hr hstate
      rw [claim_rows] at hr
      obtain ⟨x, hx, rfl⟩ := List.mem_map.1 hr
      obtain ⟨hkept, hnot⟩ | ⟨-, huncertain⟩ | ⟨-, -, hdelivering, -⟩ :=
        claimRow_cases now box.supply ((pick limit (sweep now box.rows)).map (·.id)) x
      · rw [hkept] at hstate ⊢
        have hswept : sweepRow now x = x := by
          rw [sweepRow, if_neg (by simp [hstate])]
        have hxmem : x ∈ (sweep now box.rows).rows := List.mem_map.2 ⟨x, hx, hswept⟩
        exact hfirst p hp x hxmem hstate fun hin => hnot hstate (List.mem_map_of_mem hin)
      · rw [huncertain] at hstate
        cases hstate
      · rw [hdelivering] at hstate
        cases hstate

end TokenProxy.Notifications
