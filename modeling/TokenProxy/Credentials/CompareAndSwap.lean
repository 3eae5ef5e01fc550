import TokenProxy.Credentials.Moves

/-!
# Credential writes compare and swap

A revision that is back was never gone (`revision_between`), and a write that is conditional on it
is applied only if nothing that matters to a refresh was written since. A write that changes nothing
of it keeps the revision (`write_keeps`).
-/

namespace TokenProxy.Credentials

open Lib

/-! ### The swap -/

def Fresh (db : ConnectionDb) : Prop :=
  ∀ id row n, db.rows.get? id = some row → revisionId (rowToConn row) = .uuid n → n < db.supply

theorem Fresh.moves {db db' : ConnectionDb} (h : Fresh db) (hm : Moves db db') : Fresh db' := by
  intro id row' n hrow' hid
  cases hrow : db.rows.get? id with
  | none =>
    obtain ⟨m, hm, hdrawn⟩ := hm.added id row' hrow' hrow
    cases hdrawn.symm.trans hid
    exact hm
  | some row =>
    obtain ⟨r, hr, hmove⟩ := hm.rows id row hrow
    rw [hrow'] at hr
    cases hr
    cases hmove with
    | kept hsame _ => exact (h id row n hrow (hsame.symm.trans hid)).trans_le hm.supply
    | renewed m hm hdrawn =>
      cases hdrawn.symm.trans hid
      exact hm.2

theorem revision_between {db mid db' : ConnectionDb} (h : Fresh db) (hm : Moves db mid)
    (hm' : Moves mid db') {id : JsValue}
    {row row' : ConnectionRow} (hrow : db.rows.get? id = some row) (hrow' : db'.rows.get? id = some row')
    (hsame : credentialRevision (rowToConn row') = credentialRevision (rowToConn row)) :
    ∃ r, mid.rows.get? id = some r ∧ credentialRevision (rowToConn r) = credentialRevision (rowToConn row) := by
  obtain ⟨r, hr, hmove⟩ := hm.rows id row hrow
  obtain ⟨r', hr', hmove'⟩ := hm'.rows id r hr
  rw [hrow'] at hr'
  cases hr'
  rw [credentialRevision, credentialRevision, Prod.mk.injEq] at hsame
  obtain ⟨hcontent, hid⟩ := hsame
  -- an identifier drawn since would be one that the row did not have
  have hold {n : Nat} (hn : db.supply ≤ n) : revisionId (rowToConn row) ≠ .uuid n :=
    fun he => absurd (h id row n hrow he) (by omega)
  cases hmove' with
  | renewed n hn hdrawn => exact absurd (hid.symm.trans hdrawn) (hold (hm.supply.trans hn.1))
  | kept hkept hshrinks' =>
    cases hmove with
    | renewed n hn hdrawn => exact absurd (hid.symm.trans (hkept.trans hdrawn)) (hold hn.1)
    | kept hkept' hshrinks =>
      refine ⟨r, hr, ?_⟩
      rw [hcontent] at hshrinks'
      rw [credentialRevision, credentialRevision, hkept', hshrinks.antisymm hshrinks']

theorem update_expected {db db' : ConnectionDb} {id : JsValue} {data : JsFields}
    {options : UpdateOptions} {now : JsValue}
    {expected : Connection} (hexpected : options.expectedCredentials = some expected)
    (h : updateProviderConnection db id data options now = .ok db') :
    ∃ row, db.rows.get? id = some row ∧ credentialRevision (rowToConn row) = credentialRevision expected := by
  simp only [updateProviderConnection] at h
  split at h
  · cases h
  · rename_i row hrow
    split at h
    · cases h
    · split at h
      · cases h
      · rename_i hsame
        rw [hexpected] at hsame
        refine ⟨row, hrow, ?_⟩
        simpa using hsame

/-! ### Writes that change nothing -/

/-- A connection that says whether it is active as a row does, and whose values
are as they will be stored. -/
def PlainConnection (c : Connection) : Prop :=
  (∃ b, c "isActive" = .bool b) ∧ ∀ k ∈ refreshFields, (c k).stored = c k

theorem rowToConn_plain (row : ConnectionRow) : PlainConnection (rowToConn row) := by
  refine ⟨⟨row.isActive, rfl⟩, fun k hk => ?_⟩
  simp only [refreshFields, List.mem_cons, List.not_mem_nil, or_false] at hk
  rcases hk with rfl | rfl | rfl | rfl | rfl | rfl | rfl | rfl | rfl | rfl | rfl | rfl | rfl | rfl
  all_goals first | rfl | exact row.data_stored _

theorem PlainConnection.set {c : Connection} (h : PlainConnection c) {key : String}
    {value : JsValue}
    (hkey : key ≠ "isActive") (hvalue : key ∈ refreshFields → value.stored = value) : PlainConnection (c.set key value) := by
  refine ⟨?_, fun k hk => ?_⟩
  · rw [Connection.set, if_neg (Ne.symm hkey)]
    exact h.1
  · rw [Connection.set]
    split
    · rename_i heq
      exact hvalue (heq ▸ hk)
    · exact h.2 k hk

theorem PlainConnection.setActive {c : Connection} (h : PlainConnection c) (b : Bool) :
    PlainConnection (c.set "isActive" (.bool b)) := by
  refine ⟨⟨b, rfl⟩, fun k hk => ?_⟩
  rw [Connection.set]
  split
  · rfl
  · exact h.2 k hk

/-- Data of a caller that says whether the account is active as a row does, and whose values
are as they will be stored. -/
def PlainData (data : JsFields) : Prop :=
  (data.has "isActive" = true → ∃ b, data.get "isActive" = .bool b) ∧ ∀ k ∈ refreshFields, (data.get k).stored = data.get k

theorem PlainConnection.spread {c : Connection} (h : PlainConnection c) {data : JsFields}
    (hdata : PlainData data) :
    PlainConnection (c.spread data) := by
  refine ⟨?_, fun k hk => ?_⟩
  · rw [Connection.spread]
    split
    · rename_i hhas
      exact hdata.1 hhas
    · exact h.1
  · rw [Connection.spread]
    split
    · exact hdata.2 k hk
    · exact h.2 k hk

theorem PlainConnection.clear {c : Connection}
    (h : PlainConnection c) : PlainConnection (clearReauthFailureState c) := by
  have hsame : ∀ k ∈ refreshFields, clearReauthFailureState c k = c k := by
    intro k hk
    refine if_neg ?_
    revert k
    decide
  refine ⟨?_, fun k hk => ?_⟩
  · rw [hsame _ (by decide)]
    exact h.1
  · rw [hsame k hk]
    exact h.2 k hk

theorem upsert_keeps {db db' : ConnectionDb} {c : Connection} (hplain : PlainConnection c)
    (h : upsert db c = .ok db')
    {id : JsValue} {row row' : ConnectionRow} (hrow : db.rows.get? id = some row) (hrow' : db'.rows.get? id = some row')
    (hsame : credentialContentRevision (rowToConn row') = credentialContentRevision (rowToConn row)) :
    credentialRevision (rowToConn row') = credentialRevision (rowToConn row) := by
  obtain ⟨written, hid, hrows, -, hget⟩ := upsert_ok h
  rw [hrows, Table.get?_put] at hrow'
  split at hrow'
  · rename_i hkey
    cases hrow'
    obtain ⟨previous, hprevious, -, -, hkept⟩ | ⟨-, -, hchanged⟩ := renewed_cases db c
    · rw [hkey, hid, hprevious] at hrow
      cases hrow
      have hrevision : revisionId (rowToConn row') = revisionId (rowToConn row) := by
        rw [revisionId, hget _ (Or.inr rfl), if_neg (by decide), hkept]
      rw [credentialRevision, credentialRevision, hsame, hrevision]
    · refine absurd (hsame.symm.trans (List.map_congr_left fun k hk => ?_)) (hchanged row (by rw [← hid, ← hkey, hrow]))
      have hne : k ≠ "credentialRevisionId" := by
        rintro rfl
        exact absurd hk (by decide)
      rw [hget k (Or.inl hk), renewed_ne db c hne]
      split
      · rename_i hactive
        subst hactive
        obtain ⟨b, hb⟩ := hplain.1
        rw [hb]
        cases b <;> rfl
      · rw [hplain.2 k hk]
  · rw [hrow] at hrow'
    cases hrow'
    rfl

/-! ### Pool snapshots that change nothing -/

theorem get_insert (key : String) (value : JsValue) (k : String) (fields : JsFields) :
    (fields.insert key value).get k = if key = k then value else fields.get k := by
  induction fields with
  | nil => rfl
  | cons k' v fields ih =>
    rw [JsFields.insert]
    split
    · rfl
    · rename_i hlt
      rw [JsFields.get, ih, JsFields.get]
      by_cases hk : k' = k
      · subst hk
        rw [if_pos rfl, if_pos rfl, if_neg]
        rintro rfl
        exact hlt (String.le_refl _)
      · rw [if_neg hk, if_neg hk]

theorem get_canonicalFields (k : String) (fields : JsFields) :
    (canonicalFields fields).get k = if fields.has k then canonical (fields.get k) else .undefined := by
  induction fields with
  | nil => rfl
  | cons k' v fields ih =>
    rw [canonicalFields_cons, get_insert, ih, JsFields.has, JsFields.get]
    by_cases hk : k' = k
    · simp [hk]
    · simp [hk]

theorem get_stored_put {key : String} {value : JsValue} (hv : value ≠ .undefined)
    (fields : JsFields) :
    (fields.put key value).stored.has key = true ∧ (fields.put key value).stored.get key = value.stored := by
  induction fields with
  | nil => simp [JsFields.put, JsFields.stored_cons key hv, JsFields.has, JsFields.get]
  | cons k v fields ih =>
    rw [JsFields.put]
    split
    · rename_i hk
      rw [JsFields.stored_cons k hv, JsFields.has, JsFields.get, if_pos hk]
      simp [hk]
    · rename_i hk
      by_cases hundefined : v = .undefined
      · rw [hundefined]
        exact ih
      · rw [JsFields.stored_cons k hundefined, JsFields.has, JsFields.get, if_neg hk]
        simpa [hk] using ih

theorem boundRow_content {row : ConnectionRow} {psd : JsFields} (hpsd : row.data "providerSpecificData" = .object psd)
    {strictProxy : Bool} (hstrict : psd.get "strictProxy" ≠ .bool strictProxy) (proxyPoolId : JsValue) (supply : Nat) (now : JsValue) :
    credentialContentRevision (rowToConn (boundRow row ((psd.put "proxyPoolId" proxyPoolId).put "strictProxy" (.bool strictProxy))
        supply now)) ≠ credentialContentRevision (rowToConn row) := by
  intro hsame
  have hcanonical := content_get hsame (k := "providerSpecificData") (by decide)
  have hold : rowToConn row "providerSpecificData" = .object psd := hpsd
  rw [hold] at hcanonical
  injection hcanonical with hfields
  obtain ⟨hhas, hget⟩ := @get_stored_put "strictProxy" (.bool strictProxy) (by simp)
    (psd.put "proxyPoolId" proxyPoolId)
  have hnew := get_canonicalFields "strictProxy" ((psd.put "proxyPoolId" proxyPoolId).put "strictProxy" (.bool strictProxy)).stored
  rw [if_pos hhas, hget, hfields, get_canonicalFields] at hnew
  split at hnew
  · exact hstrict (canonical_eq_bool hnew)
  · cases hnew

/-- A change of a pool that leaves its transport alone renews the identifiers of the
accounts whose strictness changes. -/
theorem boundSnapshots_keeps {proxyPoolId now id : JsValue} {strictProxy : Bool}
    {row : ConnectionRow} (rows : List ConnectionRow)
    (hrows : ∀ r ∈ rows, r.id = id → r = row) (db : ConnectionDb)
    (h : ∃ r, db.rows.get? id = some r ∧
      (r = row ∨ credentialContentRevision (rowToConn r) ≠ credentialContentRevision (rowToConn row))) :
    ∃ r, (rows.foldl (updateBoundConnectionSnapshot proxyPoolId strictProxy false now) db).rows.get? id = some r ∧
      (r = row ∨ credentialContentRevision (rowToConn r) ≠ credentialContentRevision (rowToConn row)) := by
  induction rows generalizing db with
  | nil => exact h
  | cons x rows ih =>
    refine ih (fun r hr => hrows r (List.mem_cons_of_mem x hr)) _ ?_
    obtain ⟨r, hr, hcase⟩ := h
    unfold updateBoundConnectionSnapshot
    split
    · rename_i psd hpsd
      split
      · exact ⟨r, hr, hcase⟩
      · split
        · exact ⟨r, hr, hcase⟩
        · rename_i hstrict
          rw [Table.get?_put]
          split
          · rename_i hkey
            obtain rfl := hrows x List.mem_cons_self hkey.symm
            refine ⟨_, rfl, Or.inr (boundRow_content hpsd ?_ proxyPoolId db.supply now)⟩
            exact fun he => hstrict ⟨rfl, he⟩
          · exact ⟨r, hr, hcase⟩
    · exact ⟨r, hr, hcase⟩

/-! ### Every write that changes nothing -/

/-- A write whose values are as they will be stored, and no change of a pool's transport. -/
def Plain : CredentialOp → Prop
  | .create data _ _ => PlainData data
  | .update _ data _ => PlainData data
  | .reauthorize _ data => ∀ k ∈ refreshFields, (data.get k).stored = data.get k
  | .merge _ _ providerSpecificData => providerSpecificData.stored = providerSpecificData
  | .snapshot _ _ proxyPoolId _ => proxyPoolId ≠ .undefined ∧ proxyPoolId.stored = proxyPoolId
  | .poolChanged _ _ transportChanged => transportChanged = false
  | .renumber _ => True

theorem fields_stored {v : JsValue} (h : v.stored = v) : v.fields.stored = v.fields := by
  cases v with
  | object fields =>
    injection h
  | _ => rfl

theorem eraseAll_stored (keys : List String) {fields : JsFields} (h : fields.stored = fields) :
    (keys.foldl (fun psd key => psd.erase key) fields).stored = keys.foldl (fun psd key => psd.erase key) fields := by
  induction keys generalizing fields with
  | nil => exact h
  | cons key keys ih => exact ih (JsFields.stored_erase h)

theorem get_of_not_has {k : String} {fields : JsFields}
    (h : fields.has k ≠ true) : fields.get k = .undefined := by
  induction fields with
  | nil => rfl
  | cons k' v fields ih =>
    simp only [JsFields.has, Bool.or_eq_true, decide_eq_true_eq, ne_eq, not_or] at h
    rw [JsFields.get, if_neg h.1]
    exact ih h.2

theorem newConnection_plain {id : JsValue} {data : JsFields} (hdata : PlainData data)
    (name priority now : JsValue) :
    PlainConnection (newConnection id data name priority now) := by
  refine ⟨?_, fun k hk => ?_⟩
  · show ∃ b, (if data.get "isActive" = .undefined then JsValue.bool true else data.get "isActive") = .bool b
    split
    · exact ⟨true, rfl⟩
    · rename_i hactive
      refine hdata.1 ?_
      by_contra hhas
      exact hactive (get_of_not_has hhas)
  · have hvalue := hdata.2 k hk
    have hne : k ≠ "id" ∧ k ≠ "name" ∧ k ≠ "priority" ∧ k ≠ "createdAt" ∧ k ≠ "updatedAt" := by
      clear hvalue
      revert k
      decide
    simp only [newConnection, hne, if_false]
    split
    · rename_i hkey
      exact hkey ▸ hvalue
    · split
      · rename_i hkey
        subst hkey
        unfold JsValue.orElse
        split
        · exact hvalue
        · rfl
      · split
        · rename_i hkey
          subst hkey
          split
          · rfl
          · exact hvalue
        · split
          · split
            · rfl
            · exact hvalue
          · split
            · rename_i hkey
              subst hkey
              split
              · exact hvalue
              · rfl
            · rfl

theorem mergeReauthorization_plain (row : ConnectionRow) {data : JsFields}
    (hdata : ∀ k ∈ refreshFields, (data.get k).stored = data.get k) (now : JsValue) :
    PlainConnection (mergeReauthorization (rowToConn row) data now) := by
  have hexisting := rowToConn_plain row
  have hcredentials : PlainConnection (withCredentials (rowToConn row) data) := by
    refine ⟨?_, fun k hk => ?_⟩
    · exact hexisting.1
    · rw [withCredentials]
      split
      · exact hdata k hk
      · exact hexisting.2 k hk
  have hpsd : (mergedProviderData (rowToConn row) data).stored = mergedProviderData (rowToConn row) data :=
    JsFields.stored_spread (fields_stored (hexisting.2 "providerSpecificData" (by decide)))
      (eraseAll_stored proxyBoundKeys (fields_stored (hdata "providerSpecificData" (by decide))))
  simp only [mergeReauthorization]
  refine PlainConnection.clear (((PlainConnection.setActive ?_ true).set (by decide) (fun _ => rfl)).set (by decide) fun h =>
    absurd h (by decide))
  have hauth : PlainConnection (if trimmed (data.get "authType") = [] then withCredentials (rowToConn row) data
      else (withCredentials (rowToConn row) data).set "authType" (.string (String.ofList (trimmed (data.get "authType"))))) := by
    split
    · exact hcredentials
    · exact hcredentials.set (by decide) fun _ => rfl
  have hmail {c : Connection} (hc : PlainConnection c) :
      PlainConnection (if trimmed (data.get "email") = [] then c else c.set "email" (data.get "email")) := by
    split
    · exact hc
    · exact hc.set (by decide) fun h => absurd h (by decide)
  split
  · exact hmail hauth
  · exact (hmail hauth).set (by decide) fun _ => congrArg JsValue.object hpsd

theorem write_keeps {db db' : ConnectionDb} {op : CredentialOp} {now : JsValue} (hplain : Plain op)
    (h : op.write db now = .ok db') {id : JsValue} {row row' : ConnectionRow} (hrow : db.rows.get? id = some row)
    (hrow' : db'.rows.get? id = some row')
    (hsame : credentialContentRevision (rowToConn row') = credentialContentRevision (rowToConn row)) :
    credentialRevision (rowToConn row') = credentialRevision (rowToConn row) := by
  have hupdated {c : Connection} (hc : PlainConnection c) : PlainConnection (c.set "updatedAt" now) :=
    hc.set (by decide) fun h => absurd h (by decide)
  cases op with
  | create data name priority =>
    simp only [CredentialOp.write, createProviderConnection] at h
    split at h
    · rename_i existing _
      have hspread : PlainConnection ((rowToConn existing).spread data) := (rowToConn_plain existing).spread hplain
      split at h
      · refine upsert_keeps (PlainConnection.clear ?_) h hrow hrow' hsame
        exact ((hupdated hspread).setActive true).set (by decide) fun h => absurd h (by decide)
      · exact upsert_keeps (hupdated hspread) h hrow hrow' hsame
    · have hrow₀ : ({ db with supply := db.supply + 1 } : ConnectionDb).rows.get? id = some row := hrow
      exact upsert_keeps (newConnection_plain hplain name priority now) h hrow₀ hrow' hsame
  | update cid data options =>
    simp only [CredentialOp.write, updateProviderConnection] at h
    split at h
    · cases h
    · rename_i r _
      split at h
      · cases h
      · split at h
        · cases h
        · split at h
          · cases h
          · exact upsert_keeps (hupdated ((rowToConn_plain r).spread hplain)) h hrow hrow' hsame
  | reauthorize cid data =>
    simp only [CredentialOp.write, reauthorizeProviderConnection] at h
    split at h
    · cases h
    · rename_i r _
      split at h
      · cases h
      · split at h
        · cases h
        · split at h
          · cases h
          · exact upsert_keeps (mergeReauthorization_plain r hplain now) h hrow hrow' hsame
  | merge cid name providerSpecificData =>
    simp only [CredentialOp.write, mergeProviderConnectionData] at h
    split at h
    · cases h
    · rename_i r _
      have hpsd : (JsValue.object ((rowToConn r "providerSpecificData").fields.spread providerSpecificData.fields)).stored =
          .object ((rowToConn r "providerSpecificData").fields.spread providerSpecificData.fields) :=
        congrArg JsValue.object
          (JsFields.stored_spread (fields_stored ((rowToConn_plain r).2 "providerSpecificData" (by decide))) (fields_stored hplain))
      have hnamed : PlainConnection (if name = .undefined then rowToConn r else (rowToConn r).set "name" name) := by
        split
        · exact rowToConn_plain r
        · exact (rowToConn_plain r).set (by decide) fun h => absurd h (by decide)
      exact upsert_keeps (hupdated (hnamed.set (by decide) fun _ => hpsd)) h hrow hrow' hsame
  | snapshot cid expectedPoolId proxyPoolId strictProxy =>
    simp only [CredentialOp.write, updateConnectionProxyPoolSnapshotIfBound] at h
    split at h
    · cases h
    · rename_i r _
      split at h
      · rename_i psd hr
        split at h
        · cases h
        · have hstored : (JsValue.object psd).stored = .object psd := by
            rw [← hr]
            exact (rowToConn_plain r).2 "providerSpecificData" (by decide)
          injection hstored with hpsd
          have hbound : (psd.put "proxyPoolId" proxyPoolId).stored = psd.put "proxyPoolId" proxyPoolId :=
            JsFields.stored_put hplain.1 hplain.2 hpsd
          have hput : (JsValue.object ((psd.put "proxyPoolId" proxyPoolId).put "strictProxy" (.bool strictProxy))).stored =
              .object ((psd.put "proxyPoolId" proxyPoolId).put "strictProxy" (.bool strictProxy)) :=
            congrArg JsValue.object (JsFields.stored_put (by simp) rfl hbound)
          exact upsert_keeps (hupdated ((rowToConn_plain r).set (by decide) fun _ => hput)) h hrow hrow' hsame
      · cases h
  | poolChanged proxyPoolId strictProxy transportChanged =>
    obtain rfl : transportChanged = false := hplain
    cases h
    have hrows : ∀ r ∈ db.rows.rows, r.id = id → r = row := fun r hr hid =>
      Table.eq_of_key hr (Table.get?_mem hrow) (hid.trans (Table.get?_key hrow).symm)
    obtain ⟨r, hr, hcase⟩ := @boundSnapshots_keeps proxyPoolId now id strictProxy row db.rows.rows hrows db
      ⟨row, hrow, Or.inl rfl⟩
    have heq : some r = some row' := hr.symm.trans hrow'
    cases heq
    obtain rfl | hchanged := hcase
    · rfl
    · exact absurd hsame hchanged
  | renumber priority =>
    cases h
    rw [Table.get?_mapRows, hrow] at hrow'
    cases hrow'
    rfl

/-! ### The law -/

theorem run_update_ok {db db' : ConnectionDb} {id : JsValue} {data : JsFields}
    {options : UpdateOptions} {now : JsValue}
    {expected : Connection} (h : Fresh db) {row : ConnectionRow} (hrow : db.rows.get? id = some row) (steps : List CredentialStep)
    (hexpected : options.expectedCredentials = some expected)
    (hread : credentialRevision expected = credentialRevision (rowToConn row))
    (hok : updateProviderConnection (run credentialStep db steps) id data options now = .ok db') {xs : List CredentialStep}
    (hxs : xs <+: steps) :
    ∃ r, (run credentialStep db xs).rows.get? id = some r ∧ credentialRevision (rowToConn r) = credentialRevision (rowToConn row) := by
  obtain ⟨row', hrow', hsame⟩ := update_expected hexpected hok
  obtain ⟨ys, rfl⟩ := hxs
  rw [run_append] at hrow'
  exact revision_between h (run_moves db xs) (run_moves _ ys) hrow hrow' (hsame.trans hread)

/-- **Credential writes compare and swap.** After any run a row is read, and any writes follow. A
write that expects the revision that was read is applied only if all the while the row has held what
it held then; so two of them are never both applied if the first changes what matters. A write that
changes nothing of it keeps the revision, and one that is refused changes no row. -/
theorem credentialWrites_compareAndSwap (db : ConnectionDb) (h : Fresh db)
    (before steps : List CredentialStep) (id : JsValue)
    (row : ConnectionRow) (hrow : (run credentialStep db before).rows.get? id = some row) :
    let read := run credentialStep db before
    (∀ data options expected now db', options.expectedCredentials = some expected →
        credentialRevision expected = credentialRevision (rowToConn row) →
        updateProviderConnection (run credentialStep read steps) id data options now = .ok db' →
        ∀ xs, xs <+: steps → ∃ r, (run credentialStep read xs).rows.get? id = some r ∧
          ∀ k ∈ refreshFields, canonical (rowToConn r k) = canonical (rowToConn row k)) ∧
      (∀ (xs ys : List CredentialStep) (s : CredentialStep) data options expected data' options' expected' now db₁ db₂, steps = xs ++ s :: ys →
        s.op = .update id data options → options.expectedCredentials = some expected →
        options'.expectedCredentials = some expected' → credentialRevision expected = credentialRevision (rowToConn row) →
        credentialRevision expected' = credentialRevision (rowToConn row) →
        updateProviderConnection (run credentialStep read xs) id data options s.now = .ok db₁ →
        updateProviderConnection (run credentialStep read steps) id data' options' now = .ok db₂ →
        ∀ r r', (run credentialStep read xs).rows.get? id = some r → (run credentialStep read (xs ++ [s])).rows.get? id = some r' →
          ∀ k ∈ refreshFields, canonical (rowToConn r' k) = canonical (rowToConn r k)) ∧
      (∀ op now db' row' r', Plain op → op.write (run credentialStep read steps) now = .ok db' →
        (run credentialStep read steps).rows.get? id = some row' → db'.rows.get? id = some r' →
        (∀ k ∈ refreshFields, canonical (rowToConn r' k) = canonical (rowToConn row' k)) →
        credentialRevision (rowToConn r') = credentialRevision (rowToConn row')) ∧
      ∀ s : CredentialStep, (∀ db', s.op.write (run credentialStep read steps) s.now ≠ .ok db') →
        credentialStep (run credentialStep read steps) s = run credentialStep read steps := by
  intro read
  have hfresh : Fresh read := h.moves (run_moves db before)
  refine ⟨?_, ?_, ?_, ?_⟩
  · intro data options expected now db' hexpected hread hok xs hxs
    obtain ⟨r, hr, hsame⟩ := run_update_ok hfresh hrow steps hexpected hread hok hxs
    exact ⟨r, hr, fun k hk => content_get (congrArg Prod.fst hsame) hk⟩
  · intro xs ys s data options expected data' options' expected' now db₁ db₂ hsteps hop hexpected hexpected' hread hread' hok hok'
      r r' hr hr' k hk
    obtain ⟨a, ha, hsame⟩ := run_update_ok hfresh hrow steps hexpected' hread' hok' (hsteps ▸ List.prefix_append xs (s :: ys))
    have hmid : xs ++ [s] <+: steps := ⟨ys, by rw [hsteps, List.append_assoc]; rfl⟩
    obtain ⟨b, hb, hsame'⟩ := run_update_ok hfresh hrow steps hexpected' hread' hok' hmid
    cases ha.symm.trans hr
    cases hb.symm.trans hr'
    exact (content_get (congrArg Prod.fst hsame') hk).trans (content_get (congrArg Prod.fst hsame) hk).symm
  · intro op now db' row' r' hplain hok hrow' hr' hsame
    exact write_keeps hplain hok hrow' hr' (List.map_congr_left hsame)
  · intro s hrefused
    unfold credentialStep
    split
    · rfl
    · rename_i db' hok
      exact absurd hok (hrefused db')

def legacyRow : ConnectionRow where
  id := .string "account"
  provider := "codex"
  authType := "oauth"
  name := .null
  email := .null
  priority := .number 1
  isActive := true
  data := fun k =>
    if k = "refreshToken" then .string "first"
    else if k = "providerSpecificData" then
      .object (.cons "proxyPoolId" (.string "pool") (.cons "strictProxy" (.bool false) .nil))
    else .undefined
  createdAt := .null
  updatedAt := .null
  data_stored := fun k => by
    split
    · rfl
    · split <;> rfl

def legacyDb : ConnectionDb := { rows := Table.empty.put legacyRow }

theorem legacyDb_fresh : Fresh legacyDb := by
  intro id row n hrow hid
  obtain rfl | ⟨hmem, -⟩ := Table.mem_put.1 (Table.get?_mem hrow)
  · have hlegacy : revisionId (rowToConn legacyRow) = .string "legacy" := rfl
    rw [hlegacy] at hid
    cases hid
  · cases hmem

def rotate (token : String) : CredentialStep :=
  { op := .update (.string "account") (.cons "refreshToken" (.string token) .nil) {} }

/-- A token that was replaced and put back is not the one that was read. -/
theorem restored_token_conflicts :
    ¬ ∃ db', updateProviderConnection (run credentialStep legacyDb [rotate "second", rotate "first"]) (.string "account") .nil
      { expectedCredentials := some (rowToConn legacyRow) } .null = .ok db' := by
  rintro ⟨db', hok⟩
  obtain ⟨r, hr, hsame⟩ := (credentialWrites_compareAndSwap legacyDb legacyDb_fresh [] [rotate "second", rotate "first"]
    (.string "account") legacyRow rfl).1 .nil _ _ _ db' rfl rfl hok [rotate "second"] ⟨[rotate "first"], rfl⟩
  have hkept : canonical (rowToConn r "refreshToken") = .string "first" := hsame "refreshToken" (by decide)
  have hsecond : ((run credentialStep legacyDb [rotate "second"]).rows.get? (.string "account")).map
      (fun r => canonical (rowToConn r "refreshToken")) = some (.string "second") := by decide +kernel
  rw [run_nil] at hr
  rw [hr, Option.map_some, hkept] at hsecond
  exact absurd hsecond (by decide)

/-- A new transport of the pool renews the revision of an account none of whose fields change. -/
theorem transport_renews :
    let after := credentialStep legacyDb { op := .poolChanged (.string "pool") false true }
    (after.rows.get? (.string "account")).map (fun r => credentialContentRevision (rowToConn r)) =
        (legacyDb.rows.get? (.string "account")).map (fun r => credentialContentRevision (rowToConn r)) ∧
      (after.rows.get? (.string "account")).map (fun r => credentialRevision (rowToConn r)) ≠
        (legacyDb.rows.get? (.string "account")).map (fun r => credentialRevision (rowToConn r)) := by
  decide +kernel

end TokenProxy.Credentials
