import TokenProxy.Credentials.Connections

/-!
# What a write does to a connection

A write either keeps the identifier of a row's credentials, and then what matters to a refresh stays
as it was or loses fields that held null, or it draws a new one (`Moves`).
-/

namespace TokenProxy.Credentials

open Lib

/-! ### Canonical values -/

def Shrinks (v v' : JsValue) : Prop := v' = v ∨ v'.weight < v.weight

theorem canonicalFields_cons (k : String) (v : JsValue) (fields : JsFields) :
    canonicalFields (.cons k v fields) = (canonicalFields fields).insert k (canonical v) := rfl

mutual

theorem canonical_stored : (v : JsValue) → Shrinks (canonical v) (canonical v.stored)
  | .array items => by
    obtain h | h := canonicalItems_stored items
    · exact Or.inl (congrArg JsValue.array h)
    · exact Or.inr h
  | .object fields => by
    obtain h | h := canonicalFields_stored fields
    · exact Or.inl (congrArg JsValue.object h)
    · exact Or.inr h
  | .undefined => Or.inl rfl
  | .null => Or.inl rfl
  | .bool _ => Or.inl rfl
  | .number _ => Or.inl rfl
  | .string _ => Or.inl rfl
  | .uuid _ => Or.inl rfl

theorem canonicalItems_stored : (items : JsItems) →
    canonicalItems items.stored = canonicalItems items ∨ (canonicalItems items.stored).weight < (canonicalItems items).weight
  | .nil => Or.inl rfl
  | .cons v items => by
    obtain ⟨w, hw, hitem⟩ := JsItems.stored_cons v items
    have hvalue : Shrinks (canonical v) (canonical w) := by
      obtain ⟨rfl, rfl⟩ | rfl := hitem
      · exact Or.inl rfl
      · exact canonical_stored v
    have hrest := canonicalItems_stored items
    rw [hw]
    simp only [canonicalItems, JsItems.weight]
    obtain hvalue | hvalue := hvalue
    · rw [hvalue]
      obtain h | h := hrest
      · exact Or.inl (by rw [h])
      · right
        omega
    · right
      obtain h | h := hrest
      · rw [h]
        omega
      · omega

theorem canonicalFields_stored : (fields : JsFields) →
    canonicalFields fields.stored = canonicalFields fields ∨
      (canonicalFields fields.stored).weight < (canonicalFields fields).weight
  | .nil => Or.inl rfl
  | .cons k v fields => by
    have hrest := canonicalFields_stored fields
    by_cases hv : v = .undefined
    · subst hv
      right
      rw [canonicalFields_cons, JsFields.weight_insert]
      show (canonicalFields fields.stored).weight < _
      obtain h | h := hrest
      · rw [h]
        omega
      · omega
    · have hvalue := canonical_stored v
      rw [JsFields.stored_cons k hv, canonicalFields_cons, canonicalFields_cons, JsFields.weight_insert, JsFields.weight_insert]
      obtain hvalue | hvalue := hvalue
      · rw [hvalue]
        obtain h | h := hrest
        · exact Or.inl (by rw [h])
        · right
          omega
      · right
        obtain h | h := hrest
        · rw [h]
          omega
        · omega

end

/-- What matters to a refresh stayed, or lost fields that held null. -/
def ContentShrinks (content content' : List JsValue) : Prop :=
  content' = content ∨ (content'.map JsValue.weight).sum < (content.map JsValue.weight).sum

theorem contentShrinks_map {f g : String → JsValue} (keys : List String)
    (h : ∀ k ∈ keys, Shrinks (f k) (g k)) :
    ContentShrinks (keys.map f) (keys.map g) := by
  induction keys with
  | nil => exact Or.inl rfl
  | cons k keys ih =>
    have hkey := h k List.mem_cons_self
    have hrest := ih fun k hk => h k (List.mem_cons_of_mem _ hk)
    simp only [ContentShrinks, List.map_cons, List.sum_cons] at hrest ⊢
    obtain hkey | hkey := hkey
    · rw [hkey]
      obtain h | h := hrest
      · exact Or.inl (by rw [h])
      · right
        omega
    · right
      obtain h | h := hrest
      · rw [h]
        omega
      · omega

theorem ContentShrinks.le {a b : List JsValue} (h : ContentShrinks a b) :
    (b.map JsValue.weight).sum ≤ (a.map JsValue.weight).sum := by
  obtain rfl | h := h
  · exact le_rfl
  · exact h.le

theorem ContentShrinks.trans {a b c : List JsValue} (h : ContentShrinks a b)
    (h' : ContentShrinks b c) : ContentShrinks a c := by
  obtain rfl | h := h
  · exact h'
  · exact Or.inr (h'.le.trans_lt h)

theorem ContentShrinks.antisymm {a b : List JsValue} (h : ContentShrinks a b)
    (h' : ContentShrinks b a) : b = a := by
  obtain h | h := h
  · exact h
  · exact absurd h h'.le.not_gt

/-! ### What a write does -/

/-- A row after a write: its identifier stayed and so did what matters, or the
identifier is one drawn since. -/
inductive RowMove (supply supply' : Nat) (row row' : ConnectionRow) : Prop where
  | kept (hid : revisionId (rowToConn row') = revisionId (rowToConn row))
      (hcontent : ContentShrinks (credentialContentRevision (rowToConn row)) (credentialContentRevision (rowToConn row')))
  | renewed (n : Nat) (hn : supply ≤ n ∧ n < supply') (hid : revisionId (rowToConn row') = .uuid n)

/-- What writes do to a database: every row is still there, and the identifier
of a new one is drawn since. -/
structure Moves (db db' : ConnectionDb) : Prop where
  supply : db.supply ≤ db'.supply
  rows : ∀ id row, db.rows.get? id = some row → ∃ row', db'.rows.get? id = some row' ∧ RowMove db.supply db'.supply row row'
  added : ∀ id row', db'.rows.get? id = some row' → db.rows.get? id = none →
    ∃ n, n < db'.supply ∧ revisionId (rowToConn row') = .uuid n

theorem RowMove.refl (supply supply' : Nat) (row : ConnectionRow) :
    RowMove supply supply' row row :=
  .kept rfl (Or.inl rfl)

theorem Moves.refl (db : ConnectionDb) : Moves db db where
  supply := le_rfl
  rows _ row h := ⟨row, h, .refl ..⟩
  added _ row h hnone := absurd (h.symm.trans hnone) (Option.some_ne_none row)

theorem RowMove.trans {a b c : Nat} {row row' row'' : ConnectionRow} (hab : a ≤ b) (hbc : b ≤ c)
    (h : RowMove a b row row') (h' : RowMove b c row' row'') : RowMove a c row row'' := by
  cases h' with
  | renewed n hn hid => exact .renewed n ⟨hab.trans hn.1, hn.2⟩ hid
  | kept hid' hcontent' =>
    cases h with
    | renewed n hn hid => exact .renewed n ⟨hn.1, hn.2.trans_le hbc⟩ (hid'.trans hid)
    | kept hid hcontent => exact .kept (hid'.trans hid) (hcontent.trans hcontent')

theorem Moves.trans {db db' db'' : ConnectionDb} (h : Moves db db')
    (h' : Moves db' db'') : Moves db db'' where
  supply := h.supply.trans h'.supply
  rows id row hrow := by
    obtain ⟨row', hrow', hmove⟩ := h.rows id row hrow
    obtain ⟨row'', hrow'', hmove'⟩ := h'.rows id row' hrow'
    exact ⟨row'', hrow'', hmove.trans h.supply h'.supply hmove'⟩
  added id row'' hrow'' hnone := by
    cases hrow' : db'.rows.get? id with
    | none => exact h'.added id row'' hrow'' hrow'
    | some row' =>
      obtain ⟨n, hn, hid⟩ := h.added id row' hrow' hnone
      obtain ⟨r, hr, hmove⟩ := h'.rows id row' hrow'
      rw [hrow''] at hr
      cases hr
      cases hmove with
      | kept hsame _ => exact ⟨n, hn.trans_le h'.supply, hsame.trans hid⟩
      | renewed m hm hdrawn => exact ⟨m, hm.2, hdrawn⟩

/-! ### Upsert -/

theorem rowToConn_written {c : Connection} {row : ConnectionRow} (h : connToRow c = .ok row)
    (createdAt : JsValue) {k : String} (hk : k ∈ refreshFields ∨ k = "credentialRevisionId") :
    rowToConn { row with createdAt := createdAt } k =
      if k = "isActive" then .bool (c k ≠ .bool false) else (c k).stored := by
  unfold connToRow at h
  split at h
  · rename_i provider authType hprovider hauthType
    cases h
    simp only [refreshFields, List.mem_cons, List.not_mem_nil, or_false] at hk
    rcases hk with (rfl | rfl | rfl | rfl | rfl | rfl | rfl | rfl | rfl | rfl | rfl | rfl | rfl | rfl) | rfl
    all_goals simp [rowToConn, columns, hprovider, hauthType, JsValue.stored]
  · cases h

theorem connToRow_id {c : Connection} {row : ConnectionRow} (h : connToRow c = .ok row) : row.id = c "id" := by
  unfold connToRow at h
  split at h
  · cases h
    rfl
  · cases h

theorem renewed_ne (db : ConnectionDb) (c : Connection) {k : String} (hk : k ≠ "credentialRevisionId") :
    (renewed db c).1 k = c k := by
  unfold renewed
  split
  · exact if_neg hk
  · split
    · exact if_neg hk
    · split <;> exact if_neg hk

theorem renewed_cases (db : ConnectionDb) (c : Connection) :
    (∃ previous, db.rows.get? (c "id") = some previous ∧
        credentialContentRevision (rowToConn previous) = credentialContentRevision c ∧ (renewed db c).2 = db.supply ∧
        (((renewed db c).1 "credentialRevisionId").stored).orElse (.string "legacy") = revisionId (rowToConn previous)) ∨
      ((renewed db c).2 = db.supply + 1 ∧ (renewed db c).1 "credentialRevisionId" = .uuid db.supply ∧
        ∀ previous, db.rows.get? (c "id") = some previous →
          credentialContentRevision (rowToConn previous) ≠ credentialContentRevision c) := by
  unfold renewed
  split
  · rename_i hnone
    refine Or.inr ⟨rfl, rfl, fun previous hprevious => ?_⟩
    rw [hnone] at hprevious
    cases hprevious
  · rename_i previous hprevious
    split
    · rename_i hchanged
      refine Or.inr ⟨rfl, rfl, fun p hp => ?_⟩
      rw [hprevious] at hp
      cases hp
      exact hchanged
    · rename_i hsame
      have hid : rowToConn previous "credentialRevisionId" = previous.data "credentialRevisionId" := rfl
      split
      · refine Or.inl ⟨previous, hprevious, not_not.1 hsame, rfl, ?_⟩
        show ((rowToConn previous "credentialRevisionId").stored).orElse _ = _
        rw [hid, previous.data_stored, revisionId, hid]
      · rename_i hfalsy
        refine Or.inl ⟨previous, hprevious, not_not.1 hsame, rfl, ?_⟩
        show JsValue.string "legacy" = (rowToConn previous "credentialRevisionId").orElse _
        rw [JsValue.orElse, if_neg hfalsy]

theorem upsert_ok {db db' : ConnectionDb} {c : Connection} (h : upsert db c = .ok db') :
    ∃ row, row.id = c "id" ∧ db'.rows = db.rows.put row ∧ db'.supply = (renewed db c).2 ∧
      ∀ k, k ∈ refreshFields ∨ k = "credentialRevisionId" →
        rowToConn row k = if k = "isActive" then .bool ((renewed db c).1 k ≠ .bool false) else ((renewed db c).1 k).stored := by
  unfold upsert at h
  split at h
  · cases h
  · rename_i row hrow
    cases h
    refine ⟨_, ?_, rfl, rfl, fun k hk => rowToConn_written hrow _ hk⟩
    show row.id = c "id"
    rw [connToRow_id hrow, renewed_ne db c (by decide)]

theorem canonical_eq_bool {v : JsValue} {b : Bool} (h : canonical v = .bool b) : v = .bool b := by
  cases v <;> simp_all [canonical]

theorem content_get {c c' : Connection} (h : credentialContentRevision c = credentialContentRevision c') {k : String}
    (hk : k ∈ refreshFields) : canonical (c k) = canonical (c' k) :=
  List.map_inj_left.1 h k hk

theorem content_kept {db : ConnectionDb} {c : Connection} {row previous : ConnectionRow}
    (hsame : credentialContentRevision (rowToConn previous) = credentialContentRevision c)
    (hget : ∀ k, k ∈ refreshFields ∨ k = "credentialRevisionId" →
      rowToConn row k = if k = "isActive" then .bool ((renewed db c).1 k ≠ .bool false) else ((renewed db c).1 k).stored) :
    ContentShrinks (credentialContentRevision (rowToConn previous)) (credentialContentRevision (rowToConn row)) := by
  rw [hsame]
  refine contentShrinks_map refreshFields fun k hk => ?_
  have hne : k ≠ "credentialRevisionId" := by
    rintro rfl
    exact absurd hk (by decide)
  rw [hget k (Or.inl hk), renewed_ne db c hne]
  split
  · rename_i hkey
    subst hkey
    have hactive : c "isActive" = .bool previous.isActive := canonical_eq_bool (content_get hsame hk).symm
    rw [hactive]
    cases previous.isActive <;> exact Or.inl rfl
  · exact canonical_stored (c k)

theorem upsert_moves {db db' : ConnectionDb} {c : Connection}
    (h : upsert db c = .ok db') : Moves db db' := by
  obtain ⟨row, hid, hrows, hsupply, hget⟩ := upsert_ok h
  have hrevision : revisionId (rowToConn row) = (((renewed db c).1 "credentialRevisionId").stored).orElse (.string "legacy") := by
    rw [revisionId, hget _ (Or.inr rfl), if_neg (by decide)]
  have hle : db.supply ≤ (renewed db c).2 := by
    obtain ⟨-, -, -, h, -⟩ | ⟨h, -⟩ := renewed_cases db c
    · exact h.ge
    · omega
  refine ⟨hsupply ▸ hle, fun id r hr => ?_, fun id r hr hnone => ?_⟩
  · rw [hrows, Table.get?_put]
    split
    · rename_i hkey
      refine ⟨row, rfl, ?_⟩
      obtain ⟨previous, hprevious, hsame, -, hkept⟩ | ⟨hdrawn, hnew, -⟩ := renewed_cases db c
      · rw [hkey, hid, hprevious] at hr
        cases hr
        exact .kept (hrevision.trans hkept) (content_kept hsame hget)
      · refine .renewed db.supply ⟨le_rfl, by omega⟩ ?_
        rw [hrevision, hnew]
        rfl
    · exact ⟨r, hr, .refl ..⟩
  · rw [hrows, Table.get?_put] at hr
    split at hr
    · rename_i hkey
      cases hr
      obtain ⟨previous, hprevious, -⟩ | ⟨hdrawn, hnew, -⟩ := renewed_cases db c
      · rw [hkey, hid, hprevious] at hnone
        cases hnone
      · refine ⟨db.supply, by omega, ?_⟩
        rw [hrevision, hnew]
        rfl
    · rw [hnone] at hr
      cases hr

/-! ### Every operation -/

theorem boundSnapshot_moves (proxyPoolId : JsValue) (strictProxy transportChanged : Bool)
    (now : JsValue) (db : ConnectionDb)
    (row : ConnectionRow) : Moves db (updateBoundConnectionSnapshot proxyPoolId strictProxy transportChanged now db row) := by
  unfold updateBoundConnectionSnapshot
  split
  · split
    · exact .refl db
    · split
      · exact .refl db
      · refine ⟨Nat.le_succ _, fun id r hr => ?_, fun id r hr hnone => ?_⟩
        · rw [Table.get?_put]
          split
          · exact ⟨_, rfl, .renewed db.supply ⟨le_rfl, Nat.lt_succ_self _⟩ rfl⟩
          · exact ⟨r, hr, .refl ..⟩
        · rw [Table.get?_put] at hr
          split at hr
          · cases hr
            exact ⟨db.supply, Nat.lt_succ_self _, rfl⟩
          · rw [hnone] at hr
            cases hr
  · exact .refl db

theorem boundSnapshots_moves (proxyPoolId : JsValue) (strictProxy transportChanged : Bool)
    (now : JsValue) (rows : List ConnectionRow) (db : ConnectionDb) :
    Moves db (rows.foldl (updateBoundConnectionSnapshot proxyPoolId strictProxy transportChanged now) db) := by
  induction rows generalizing db with
  | nil => exact .refl db
  | cons row rows ih => exact (boundSnapshot_moves proxyPoolId strictProxy transportChanged now db row).trans (ih _)

theorem write_moves {db db' : ConnectionDb} {now : JsValue} {op : CredentialOp}
    (h : op.write db now = .ok db') : Moves db db' := by
  cases op with
  | create data name priority =>
    simp only [CredentialOp.write, createProviderConnection] at h
    split at h
    · split at h <;> exact upsert_moves h
    · have hdrawn : Moves db { db with supply := db.supply + 1 } :=
        ⟨Nat.le_succ _, fun _ r hr => ⟨r, hr, .refl ..⟩, fun _ r hr hnone => absurd (hr.symm.trans hnone) (Option.some_ne_none r)⟩
      exact hdrawn.trans (upsert_moves h)
  | update id data options =>
    simp only [CredentialOp.write, updateProviderConnection] at h
    split at h
    · cases h
    · split at h
      · cases h
      · split at h
        · cases h
        · split at h
          · cases h
          · exact upsert_moves h
  | reauthorize id data =>
    simp only [CredentialOp.write, reauthorizeProviderConnection] at h
    split at h
    · cases h
    · split at h
      · cases h
      · split at h
        · cases h
        · split at h
          · cases h
          · exact upsert_moves h
  | merge id name providerSpecificData =>
    simp only [CredentialOp.write, mergeProviderConnectionData] at h
    split at h
    · cases h
    · exact upsert_moves h
  | snapshot id expectedPoolId proxyPoolId strictProxy =>
    simp only [CredentialOp.write, updateConnectionProxyPoolSnapshotIfBound] at h
    split at h
    · cases h
    · split at h
      · split at h
        · cases h
        · exact upsert_moves h
      · cases h
  | poolChanged proxyPoolId strictProxy transportChanged =>
    cases h
    exact boundSnapshots_moves proxyPoolId strictProxy transportChanged now db.rows.rows db
  | renumber priority =>
    cases h
    refine ⟨le_rfl, fun id r hr => ?_, fun id r hr hnone => ?_⟩
    · rw [Table.get?_mapRows, hr]
      exact ⟨_, rfl, .kept rfl (Or.inl rfl)⟩
    · rw [Table.get?_mapRows, hnone] at hr
      cases hr

/-- **Step.** -/
theorem credentialStep_moves (db : ConnectionDb)
    (s : CredentialStep) : Moves db (credentialStep db s) := by
  unfold credentialStep
  split
  · exact .refl db
  · rename_i db' h
    split
    · exact write_moves h
    · exact .refl db

/-- **Run.** -/
theorem run_moves (db : ConnectionDb) (steps : List CredentialStep) :
    Moves db (run credentialStep db steps) :=
  run_inv (I := Moves db) (fun s op h => h.trans (credentialStep_moves s op)) (.refl db)

end TokenProxy.Credentials
