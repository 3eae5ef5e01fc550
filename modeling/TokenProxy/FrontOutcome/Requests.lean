import TokenProxy.FrontOutcome.Import
import TokenProxy.Lib.Transaction

/-!
# The records of one request

Apart from the uniqueness of a logical request, the records of a request concern its row alone. So
the rows that a list of records leads to depend, request by request, on the records of that request
and their order (`foldlM_applyEvent`), and the list is accepted if each request's records are and no
two requests end up linked to one logical request (`foldlM_applyEvent_ok`).
-/

namespace TokenProxy.FrontOutcome

open TokenProxy.Lib

/-- What a record does to the row of its request; nothing if it is refused. -/
def rowStep : Option OutcomeRow → Event → Option (Option OutcomeRow)
  | current, .processStart _ _ => some current
  | none, .start r => some (some r.row)
  | some current, .start r => if current.repeatedBy r then some (some current) else none
  | none, .link _ => none
  | some current, .link r =>
    if current.logicalRequestId.any fun l => l ≠ r.logicalRequestId then none
    else if current.logicalRequestId.isNone then some (some (current.linked r))
    else some (some current)
  | none, .terminal _ => none
  | some current, .terminal r => if current.endedBy r then some (some (current.ended r)) else none

def rowRun (current : Option OutcomeRow) (events : List Event) : Option (Option OutcomeRow) :=
  events.foldlM rowStep current

def recordsOf (id : String) (events : List Event) : List Event := events.filter fun e => e.frontIngressId = some id

-- Lean derives the equations of a recursive definition at the first proof that unfolds it.
-- The proofs of a module are elaborated side by side; asked for once, here, the equations
-- are the same for all of them.
section
attribute [local simp] rowStep
end

theorem recordsOf_append (id : String) (xs ys : List Event) :
    recordsOf id (xs ++ ys) = recordsOf id xs ++ recordsOf id ys := List.filter_append _ _

theorem rowRun_append (current : Option OutcomeRow) (xs ys : List Event) :
    rowRun current (xs ++ ys) = (rowRun current xs).bind fun row => rowRun row ys := List.foldlM_append

theorem rowStep_logical {current : OutcomeRow} {current' : Option OutcomeRow} {e : Event}
    {l : String}
    (h : rowStep (some current) e = some current') (hl : current.logicalRequestId = some l) :
    ∃ row, current' = some row ∧ row.logicalRequestId = some l := by
  cases e with
  | processStart d t =>
    cases h
    exact ⟨current, rfl, hl⟩
  | start r =>
    simp only [rowStep] at h
    split at h
    · cases h
      exact ⟨current, rfl, hl⟩
    · cases h
  | link r =>
    simp only [rowStep] at h
    split at h
    · cases h
    split at h
    · rename_i hnone
      rw [hl] at hnone
      cases hnone
    · cases h
      exact ⟨current, rfl, hl⟩
  | terminal r =>
    simp only [rowStep] at h
    split at h
    · cases h
      exact ⟨_, rfl, hl⟩
    · cases h

theorem rowRun_logical {current : OutcomeRow} {current' : Option OutcomeRow} {events : List Event}
    {l : String}
    (h : rowRun (some current) events = some current') (hl : current.logicalRequestId = some l) :
    ∃ row, current' = some row ∧ row.logicalRequestId = some l := by
  induction events generalizing current with
  | nil =>
    cases h
    exact ⟨current, rfl, hl⟩
  | cons e events ih =>
    rw [rowRun, List.foldlM_cons] at h
    obtain ⟨next, hnext, hrest⟩ := Option.bind_eq_some_iff.mp h
    obtain ⟨row, rfl, hrow⟩ := rowStep_logical hnext hl
    exact ih hrest hrow

/-! ### Links -/

def UniqueLinks (row : String → Option OutcomeRow) : Prop :=
  ∀ a b ra rb l, row a = some ra → row b = some rb → ra.logicalRequestId = some l → rb.logicalRequestId = some l → a = b

def Linked (c : Collected) : Prop :=
  ∀ l id, (c.logical.get? l).map Prod.snd = some id ↔
    ∃ row, c.rows.get? id = some row ∧ row.logicalRequestId = some l

theorem Linked.unique {c : Collected} (h : Linked c) : UniqueLinks c.rows.get? := by
  intro a b ra rb l ha hb hal hbl
  have h₁ := (h l a).mpr ⟨ra, ha, hal⟩
  have h₂ := (h l b).mpr ⟨rb, hb, hbl⟩
  rw [h₁] at h₂
  exact Option.some.inj h₂

theorem linkedRequests_isSome (rows : List OutcomeRow) (logical : Dict String String) (l : String)
    (h : (∃ row ∈ rows, row.logicalRequestId = some l) ∨ (logical.get? l).isSome) :
    ((rows.foldl (fun logical row =>
      match row.logicalRequestId with
      | some l => logical.put (l, row.frontIngressId)
      | none => logical) logical).get? l).isSome := by
  induction rows generalizing logical with
  | nil => exact h.resolve_left fun ⟨row, hrow, _⟩ => absurd hrow List.not_mem_nil
  | cons row rows ih =>
    rw [List.foldl_cons]
    apply ih
    rcases h with ⟨x, hx, hl⟩ | h
    · rcases List.mem_cons.mp hx with rfl | hx
      · right
        rw [hl]
        simp only [Table.get?_put, if_true, Option.isSome_some]
      · exact Or.inl ⟨x, hx, hl⟩
    · right
      cases row.logicalRequestId with
      | none => exact h
      | some l' =>
        simp only [Table.get?_put]
        split
        · rfl
        · exact h

theorem linkedRequests_some (rows : List OutcomeRow) (logical : Dict String String) (l id : String)
    (h : ((rows.foldl (fun logical row =>
      match row.logicalRequestId with
      | some l => logical.put (l, row.frontIngressId)
      | none => logical) logical).get? l).map Prod.snd = some id) :
    (∃ row ∈ rows, row.logicalRequestId = some l ∧ row.frontIngressId = id) ∨
      (logical.get? l).map Prod.snd = some id := by
  induction rows generalizing logical with
  | nil => exact Or.inr h
  | cons row rows ih =>
    rw [List.foldl_cons] at h
    rcases ih _ h with ⟨x, hx, hl⟩ | h
    · exact Or.inl ⟨x, List.mem_cons_of_mem _ hx, hl⟩
    · cases hrow : row.logicalRequestId with
      | none =>
        rw [hrow] at h
        exact Or.inr h
      | some l' =>
        rw [hrow] at h
        simp only [Table.get?_put] at h
        split at h
        · rename_i heq
          rw [Option.map_some, Option.some.injEq] at h
          exact Or.inl ⟨row, List.mem_cons_self, by rw [hrow, heq], h⟩
        · exact Or.inr h

theorem linked_linkedRequests {outcomes : Outcomes} (h : UniqueLinks outcomes.get?) :
    Linked ⟨outcomes, linkedRequests outcomes, []⟩ := by
  intro l id
  constructor
  · intro hget
    rcases linkedRequests_some _ _ _ _ hget with ⟨row, hrow, hl, rfl⟩ | hget
    · exact ⟨row, Table.get?_of_mem hrow, hl⟩
    · cases hget
  · rintro ⟨row, hrow, hl⟩
    have hsome := linkedRequests_isSome outcomes.rows .empty l (Or.inl ⟨row, Table.get?_mem hrow, hl⟩)
    obtain ⟨linked, hlinked⟩ := Option.isSome_iff_exists.mp hsome
    have hmap : ((linkedRequests outcomes).get? l).map Prod.snd = some linked.2 := by
      rw [show (linkedRequests outcomes).get? l = some linked from hlinked]
      rfl
    show ((linkedRequests outcomes).get? l).map Prod.snd = some id
    rw [hmap]
    rcases linkedRequests_some _ _ _ _ hmap with ⟨x, hx, hxl, hxid⟩ | hget
    · rw [← hxid, h x.frontIngressId id x row l (Table.get?_of_mem hx) hrow hxl hl]
    · cases hget

theorem Linked.put_same {c : Collected} (h : Linked c) {row : OutcomeRow}
    {operations : List Operation}
    (hsame : (c.rows.get? row.frontIngressId).bind OutcomeRow.logicalRequestId = row.logicalRequestId) :
    Linked ⟨c.rows.put row, c.logical, operations⟩ := by
  intro l id
  rw [show ((⟨c.rows.put row, c.logical, operations⟩ : Collected).logical.get? l).map Prod.snd = some id ↔ _ from h l id]
  simp only [Table.get?_put]
  by_cases hid : id = row.frontIngressId
  · rw [if_pos hid, hid]
    constructor
    · rintro ⟨old, hold, hl⟩
      rw [hold, Option.bind_some, hl] at hsame
      exact ⟨row, rfl, hsame.symm⟩
    · rintro ⟨new, hnew, hl⟩
      cases hnew
      rw [hl] at hsame
      exact Option.bind_eq_some_iff.mp hsame
  · rw [if_neg hid]

theorem Linked.put_link {c : Collected} (h : Linked c) {row : OutcomeRow}
    {operations : List Operation} {l : String} (hl : row.logicalRequestId = some l)
    (hold : (c.rows.get? row.frontIngressId).bind OutcomeRow.logicalRequestId = none)
    (hfree : (c.logical.get? l).map Prod.snd = none) :
    Linked ⟨c.rows.put row, c.logical.put (l, row.frontIngressId), operations⟩ := by
  intro l' id
  simp only [Table.get?_put]
  by_cases hid : id = row.frontIngressId
  · rw [if_pos hid, hid]
    by_cases hll : l' = l
    · rw [if_pos hll, hll]
      exact ⟨fun _ => ⟨row, rfl, hl⟩, fun _ => rfl⟩
    · rw [if_neg hll, h]
      constructor
      · rintro ⟨old, hget, hlink⟩
        rw [hget, Option.bind_some, hlink] at hold
        cases hold
      · rintro ⟨new, hnew, hlink⟩
        cases hnew
        rw [hl] at hlink
        exact absurd (Option.some.inj hlink).symm hll
  · rw [if_neg hid]
    by_cases hll : l' = l
    · rw [if_pos hll, hll]
      constructor
      · intro hsnd
        exact absurd (Option.some.inj hsnd).symm hid
      · intro hrow
        have := (h l id).mpr hrow
        rw [hfree] at this
        cases this
    · rw [if_neg hll]
      exact h l' id

/-! ### One record -/

theorem applyEvent_spec {c c' : Collected} {e : Event} (hlinked : Linked c)
    (h : applyEvent c e = .ok c') :
    Linked c' ∧ ∀ id, if e.frontIngressId = some id then rowStep (c.rows.get? id) e = some (c'.rows.get? id)
      else c'.rows.get? id = c.rows.get? id := by
  -- a record that changes the row of its request changes no other
  have hput : ∀ {row : OutcomeRow} {logical operations}, e.frontIngressId = some row.frontIngressId →
      rowStep (c.rows.get? row.frontIngressId) e = some (some row) → ∀ id,
      if e.frontIngressId = some id then
        rowStep (c.rows.get? id) e = some ((⟨c.rows.put row, logical, operations⟩ : Collected).rows.get? id)
      else (⟨c.rows.put row, logical, operations⟩ : Collected).rows.get? id = c.rows.get? id := by
    intro row logical operations he hstep id
    simp only [Table.get?_put]
    by_cases hid : id = row.frontIngressId
    · rw [if_pos (hid ▸ he), if_pos hid, hid]
      exact hstep
    · rw [if_neg (by rw [he]; exact fun heq => hid (Option.some.inj heq).symm), if_neg hid]
  have hsame : ∀ {id₀ : String} {row : OutcomeRow}, e.frontIngressId = some id₀ → c.rows.get? id₀ = some row →
      rowStep (some row) e = some (some row) → ∀ id,
      if e.frontIngressId = some id then rowStep (c.rows.get? id) e = some (c.rows.get? id)
      else c.rows.get? id = c.rows.get? id := by
    intro id₀ row he hrow hstep id
    split
    · rename_i hid
      rw [he] at hid
      rw [← Option.some.inj hid, hrow]
      exact hstep
    · rfl
  cases e with
  | processStart d t =>
    cases h
    exact ⟨hlinked, fun id => by rw [if_neg fun h => by cases h]⟩
  | start r =>
    simp only [applyEvent] at h
    cases hget : c.rows.get? r.frontIngressId with
    | some current =>
      rw [hget] at h
      simp only at h
      split at h
      · rename_i hrepeated
        cases h
        exact ⟨hlinked, hsame rfl hget (by rw [rowStep, if_pos hrepeated])⟩
      · cases h
    | none =>
      rw [hget] at h
      simp only at h
      have hstep : rowStep (c.rows.get? r.row.frontIngressId) (.start r) = some (some r.row) := by
        rw [show c.rows.get? r.row.frontIngressId = none from hget]
        rfl
      have hold : (c.rows.get? r.row.frontIngressId).bind OutcomeRow.logicalRequestId = none := by
        rw [show c.rows.get? r.row.frontIngressId = none from hget]
        rfl
      cases hl : r.logicalRequestId with
      | some l =>
        rw [hl] at h
        simp only at h
        split at h
        · cases h
        · rename_i hfree
          rw [Bool.not_eq_true, Option.isSome_eq_false_iff, Option.isNone_iff_eq_none] at hfree
          cases h
          exact ⟨hlinked.put_link hl hold (by rw [hfree]; rfl), hput rfl hstep⟩
      | none =>
        rw [hl] at h
        cases h
        exact ⟨hlinked.put_same (hold.trans hl.symm), hput rfl hstep⟩
  | link r =>
    simp only [applyEvent] at h
    cases hget : c.rows.get? r.frontIngressId with
    | none =>
      rw [hget] at h
      cases h
    | some current =>
      have hid : current.frontIngressId = r.frontIngressId := Table.get?_key hget
      rw [hget] at h
      simp only at h
      split at h
      · cases h
      rename_i hconflict
      split at h
      · cases h
      rename_i hother
      split at h
      · rename_i hnone
        cases h
        have hstep : rowStep (some current) (.link r) = some (some (current.linked r)) := by
          rw [rowStep, if_neg hconflict, if_pos hnone]
        have hgetId : c.rows.get? (current.linked r).frontIngressId = some current := by
          rw [show (current.linked r).frontIngressId = current.frontIngressId from rfl, hid]
          exact hget
        rw [Option.isNone_iff_eq_none] at hnone
        have hfree : (c.logical.get? r.logicalRequestId).map Prod.snd = none := by
          cases hlogical : c.logical.get? r.logicalRequestId with
          | none => rfl
          | some linked =>
            rw [hlogical, Option.any_some, decide_eq_true_eq, not_not] at hother
            obtain ⟨row, hrow, hl⟩ := (hlinked r.logicalRequestId r.frontIngressId).mp (by rw [hlogical, ← hother]; rfl)
            rw [hget] at hrow
            cases hrow
            rw [hnone] at hl
            cases hl
        have hput' := @Linked.put_link c hlinked (current.linked r) (c.operations ++ [.link (current.linked r)]) _ rfl
          (by rw [hgetId, Option.bind_some, hnone]) hfree
        rw [show (current.linked r).frontIngressId = r.frontIngressId from hid] at hput'
        exact ⟨hput', hput (by rw [show (current.linked r).frontIngressId = r.frontIngressId from hid]; rfl)
          (by rw [hgetId]; exact hstep)⟩
      · rename_i hsome
        cases h
        exact ⟨hlinked, hsame rfl hget (by rw [rowStep, if_neg hconflict, if_neg hsome])⟩
  | terminal r =>
    simp only [applyEvent] at h
    cases hget : c.rows.get? r.frontIngressId with
    | none =>
      rw [hget] at h
      cases h
    | some current =>
      have hid : current.frontIngressId = r.frontIngressId := Table.get?_key hget
      rw [hget] at h
      simp only at h
      split at h
      · rename_i hended
        cases h
        have hgetId : c.rows.get? (current.ended r).frontIngressId = some current := by
          rw [show (current.ended r).frontIngressId = current.frontIngressId from rfl, hid]
          exact hget
        refine ⟨hlinked.put_same (by rw [hgetId]; rfl), hput ?_ ?_⟩
        · rw [show (current.ended r).frontIngressId = r.frontIngressId from hid]
          rfl
        · rw [hgetId, rowStep, if_pos hended]
      · cases h

/-- A record that its request's row accepts is accepted, unless it links to a
logical request of another. -/
theorem applyEvent_ok {c : Collected} {e : Event} (hlinked : Linked c)
    (hrow : ∀ id, e.frontIngressId = some id → ∃ row, rowStep (c.rows.get? id) e = some row ∧
      ∀ x l, row = some x → x.logicalRequestId = some l → ∀ id' x', c.rows.get? id' = some x' →
        x'.logicalRequestId = some l → id' = id) :
    ∃ c', applyEvent c e = .ok c' := by
  cases e with
  | processStart d t => exact ⟨c, rfl⟩
  | start r =>
    obtain ⟨row, hstep, hfree⟩ := hrow r.frontIngressId rfl
    simp only [applyEvent]
    cases hget : c.rows.get? r.frontIngressId with
    | some current =>
      rw [hget] at hstep
      simp only [rowStep] at hstep
      split at hstep
      · rename_i hrepeated
        exact ⟨c, if_pos hrepeated⟩
      · cases hstep
    | none =>
      rw [hget] at hstep
      cases hstep
      cases hl : r.logicalRequestId with
      | none => exact ⟨_, rfl⟩
      | some l =>
        have hnone : ¬ (c.logical.get? l).isSome = true := by
          intro hsome
          obtain ⟨linked, hlogical⟩ := Option.isSome_iff_exists.mp hsome
          obtain ⟨x, hx, hxl⟩ := (hlinked l linked.2).mp (by rw [hlogical]; rfl)
          rw [hfree r.row l rfl hl linked.2 x hx hxl, hget] at hx
          cases hx
        simp only
        rw [if_neg hnone]
        exact ⟨_, rfl⟩
  | link r =>
    obtain ⟨row, hstep, hfree⟩ := hrow r.frontIngressId rfl
    simp only [applyEvent]
    cases hget : c.rows.get? r.frontIngressId with
    | none =>
      rw [hget] at hstep
      cases hstep
    | some current =>
      rw [hget] at hstep
      simp only [rowStep] at hstep
      split at hstep
      · cases hstep
      rename_i hconflict
      have hmine : ∃ x, row = some x ∧ x.logicalRequestId = some r.logicalRequestId := by
        split at hstep
        · cases hstep
          exact ⟨_, rfl, rfl⟩
        · rename_i hsome
          cases hstep
          cases hl : current.logicalRequestId with
          | none =>
            rw [hl] at hsome
            exact absurd rfl hsome
          | some l =>
            rw [hl, Option.any_some, decide_eq_true_eq, not_not] at hconflict
            exact ⟨current, rfl, by rw [hl, hconflict]⟩
      obtain ⟨x, hx, hxl⟩ := hmine
      have hother : ¬ ((c.logical.get? r.logicalRequestId).any fun linked => decide (linked.2 ≠ r.frontIngressId)) = true := by
        intro hany
        obtain ⟨linked, hlogical, hne⟩ := (Option.any_eq_true _ _).mp hany
        obtain ⟨y, hy, hyl⟩ := (hlinked r.logicalRequestId linked.2).mp (by rw [hlogical]; rfl)
        exact of_decide_eq_true hne (hfree x r.logicalRequestId hx hxl linked.2 y hy hyl)
      simp only
      rw [if_neg hconflict, if_neg hother]
      split
      · exact ⟨_, rfl⟩
      · exact ⟨_, rfl⟩
  | terminal r =>
    obtain ⟨row, hstep, -⟩ := hrow r.frontIngressId rfl
    simp only [applyEvent]
    cases hget : c.rows.get? r.frontIngressId with
    | none =>
      rw [hget] at hstep
      cases hstep
    | some current =>
      rw [hget] at hstep
      simp only [rowStep] at hstep
      split at hstep
      · rename_i hended
        exact ⟨_, if_pos hended⟩
      · cases hstep

/-! ### Many records -/

theorem recordsOf_cons (id : String) (e : Event) (events : List Event) :
    recordsOf id (e :: events) = (if e.frontIngressId = some id then [e] else []) ++ recordsOf id events := by
  unfold recordsOf
  rw [List.filter_cons]
  by_cases he : e.frontIngressId = some id
  · simp [he]
  · simp [he]

/-- **What a list of records leads to**: each row is what the records of its request make of it. -/
theorem foldlM_applyEvent {c c' : Collected} {events : List Event} (hlinked : Linked c)
    (h : events.foldlM applyEvent c = .ok c') :
    Linked c' ∧ ∀ id, rowRun (c.rows.get? id) (recordsOf id events) = some (c'.rows.get? id) := by
  induction events generalizing c with
  | nil =>
    cases h
    exact ⟨hlinked, fun id => rfl⟩
  | cons e events ih =>
    rw [List.foldlM_cons] at h
    obtain ⟨c₁, h₁, h₂⟩ := bind_ok h
    obtain ⟨hlinked₁, hstep⟩ := applyEvent_spec hlinked h₁
    obtain ⟨hlinked', hrun⟩ := ih hlinked₁ h₂
    refine ⟨hlinked', fun id => ?_⟩
    have hid := hstep id
    rw [recordsOf_cons, rowRun_append, ← hrun id]
    split at hid
    · rename_i he
      rw [if_pos he]
      show ((rowStep (c.rows.get? id) e).bind fun row => rowRun row []).bind _ = _
      rw [hid]
      rfl
    · rename_i he
      rw [if_neg he, hid]
      rfl

/-- **A list of records is accepted** if each request's records are, and no two requests end up
linked to one logical request. -/
theorem foldlM_applyEvent_ok {c : Collected} {events : List Event} (hlinked : Linked c)
    {rows : String → Option OutcomeRow} (hrows : ∀ id, rowRun (c.rows.get? id) (recordsOf id events) = some (rows id))
    (hunique : UniqueLinks rows) : ∃ c', events.foldlM applyEvent c = .ok c' := by
  induction events generalizing c with
  | nil => exact ⟨c, rfl⟩
  | cons e events ih =>
    -- the rows after the first record
    have hfirst : ∀ id, e.frontIngressId = some id →
        ∃ row, rowStep (c.rows.get? id) e = some row ∧ rowRun row (recordsOf id events) = some (rows id) := by
      intro id he
      have hid := hrows id
      rw [recordsOf_cons, if_pos he, List.singleton_append, rowRun, List.foldlM_cons] at hid
      exact Option.bind_eq_some_iff.mp hid
    obtain ⟨c₁, h₁⟩ : ∃ c₁, applyEvent c e = .ok c₁ := by
      refine applyEvent_ok hlinked fun id he => ?_
      obtain ⟨row, hstep, hrest⟩ := hfirst id he
      refine ⟨row, hstep, fun x l hx hxl id' x' hx' hxl' => ?_⟩
      -- both links are still there at the end
      rw [hx] at hrest
      obtain ⟨y, hy, hyl⟩ := rowRun_logical hrest hxl
      obtain ⟨y', hy', hyl'⟩ := rowRun_logical (hx' ▸ hrows id') hxl'
      exact hunique id' id y' y l hy' hy hyl' hyl
    obtain ⟨hlinked₁, hstep⟩ := applyEvent_spec hlinked h₁
    obtain ⟨c', h'⟩ := ih hlinked₁ fun id => by
      have hid := hstep id
      split at hid
      · rename_i he
        obtain ⟨row, hrow, hrest⟩ := hfirst id he
        rw [hid] at hrow
        rw [Option.some.inj hrow]
        exact hrest
      · rename_i he
        have hall := hrows id
        rw [recordsOf_cons, if_neg he, List.nil_append] at hall
        rw [hid]
        exact hall
    refine ⟨c', ?_⟩
    rw [List.foldlM_cons, h₁]
    exact h'

end TokenProxy.FrontOutcome
