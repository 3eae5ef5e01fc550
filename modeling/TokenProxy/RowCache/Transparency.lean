import TokenProxy.Lib.Run
import TokenProxy.RowCache.Cache

/-!
# When the cache of decrypted rows is transparent

A clone is of the object that the cache keeps, and that object is in a caller's hands since the miss
that made it. So a read is right as long as no caller has changed the objects that it hits.
-/

namespace TokenProxy.RowCache

open Credentials (Connection)
open Lib

variable {decryptSecretJson : List Char → Connection} {s : State} {row : Row} {rows : List Row}

/-- Each object that the cache keeps was handed out as the connection of the row
whose text it is kept under. -/
def Inv (decryptSecretJson : List Char → Connection) (s : State) : Prop :=
  ∀ id e, s.decryptedRowCache.get? id = some e → ∃ row o,
    e.fingerprint = fingerprintOf row ∧ s.heap[e.conn]? = some o ∧ o.given = rowToConn decryptSecretJson row

/-- If the cache keeps an object for the row as it is stored, then it
still is as it was handed out. -/
def UntouchedRow (s : State) (row : Row) : Prop :=
  ∀ hit, s.decryptedRowCache.get? row.id = some hit → hit.fingerprint = fingerprintOf row → ∀ o, s.heap[hit.conn]? = some o → o.value = o.given

theorem value_of_getElem? {conn : ℕ} {o : Handed}
    (h : s.heap[conn]? = some o) : s.value conn = o.value := by
  rw [State.value, h, Option.map_some, Option.getD_some]

structure Reads (decryptSecretJson : List Char → Connection) (s : State) (row : Row)
    (r : State × ℕ) : Prop where
  place : r.2 = s.heap.length
  heap : ∃ value, r.1.heap = s.heap ++ [{ value, given := value }] ∧ (value = rowToConn decryptSecretJson row ↔ UntouchedRow s row)
  others : ∀ id, id ≠ row.id → r.1.decryptedRowCache.get? id = s.decryptedRowCache.get? id
  inv : Inv decryptSecretJson r.1

theorem Inv.hand (h : Inv decryptSecretJson s)
    (value : Connection) : Inv decryptSecretJson (s.hand value) := by
  intro id e he
  obtain ⟨row, o, hfingerprint, ho, hgiven⟩ := h id e he
  refine ⟨row, o, hfingerprint, ?_, hgiven⟩
  exact (List.getElem?_append_left (List.getElem?_eq_some_iff.1 ho).1).trans ho

theorem reads_cachedRowToConn (h : Inv decryptSecretJson s) (row : Row) :
    Reads decryptSecretJson s row (cachedRowToConn decryptSecretJson s row) := by
  have hmiss : (∀ hit, s.decryptedRowCache.get? row.id = some hit → hit.fingerprint ≠ fingerprintOf row) →
      Reads decryptSecretJson s row ({ s.hand (rowToConn decryptSecretJson row) with
        decryptedRowCache := s.decryptedRowCache.put { id := row.id, fingerprint := fingerprintOf row, conn := s.heap.length } },
        s.heap.length) := by
    intro hother
    refine ⟨rfl, ⟨_, rfl, iff_of_true rfl fun hit hget hfingerprint => absurd hfingerprint (hother hit hget)⟩, fun id hid => ?_, ?_⟩
    · exact Table.get?_put_ne _ hid
    · intro id e he
      rw [Table.get?_put] at he
      split at he
      · obtain rfl := Option.some.inj he
        exact ⟨row, _, rfl, List.getElem?_concat_length .., rfl⟩
      · exact h.hand _ id e he
  unfold cachedRowToConn
  cases hget : s.decryptedRowCache.get? row.id with
  | none => exact hmiss fun hit hhit => by simp [hget] at hhit
  | some hit =>
    simp only
    split
    · rename_i hfingerprint
      obtain ⟨row', o, hrow', ho, hgiven⟩ := h _ hit hget
      obtain rfl : row = row' := fingerprintOf_injective (hfingerprint.symm.trans hrow')
      refine ⟨rfl, ⟨_, rfl, ?_⟩, fun _ _ => rfl, h.hand _⟩
      rw [value_of_getElem? ho, ← hgiven]
      constructor
      · intro hvalue hit' hget' _ o' ho'
        obtain rfl : hit = hit' := Option.some.inj (hget.symm.trans hget')
        obtain rfl : o = o' := Option.some.inj (ho.symm.trans ho')
        exact hvalue
      · exact fun huntouched => huntouched hit hget hfingerprint o ho
    · rename_i hfingerprint
      refine hmiss fun hit' hget' => ?_
      obtain rfl : hit = hit' := Option.some.inj (hget.symm.trans hget')
      exact hfingerprint

theorem Reads.untouchedRow {r : State × ℕ} (hreads : Reads decryptSecretJson s row r)
    (h : Inv decryptSecretJson s) {other : Row}
    (hother : other.id ≠ row.id) : UntouchedRow r.1 other ↔ UntouchedRow s other := by
  obtain ⟨value, hheap, -⟩ := hreads.heap
  unfold UntouchedRow
  rw [hreads.others _ hother, hheap]
  refine forall_congr' fun hit => forall_congr' fun hget => ?_
  obtain ⟨row', o, -, ho, -⟩ := h _ hit hget
  rw [List.getElem?_append_left (List.getElem?_eq_some_iff.1 ho).1]

structure MapsRows (decryptSecretJson : List Char → Connection) (s : State) (rows : List Row)
    (r : State × List (Row × ℕ)) : Prop where
  rows_eq : r.2.map Prod.fst = rows
  heap : s.heap <+: r.1.heap
  inv : Inv decryptSecretJson r.1
  right : (∀ e ∈ r.2, r.1.value e.2 = rowToConn decryptSecretJson e.1) ↔ ∀ row ∈ rows, UntouchedRow s row

theorem mapRows_spec (h : Inv decryptSecretJson s) (hids : (rows.map Row.id).Nodup) :
    MapsRows decryptSecretJson s rows (mapRows decryptSecretJson s rows) := by
  induction rows generalizing s with
  | nil => exact ⟨rfl, List.prefix_refl _, h, by simp [mapRows]⟩
  | cons row rows ih =>
    obtain ⟨hnotMem, hrest⟩ := List.nodup_cons.1 hids
    have hreads := reads_cachedRowToConn h row
    have hmaps := ih hreads.inv hrest
    obtain ⟨value, hheap, hvalue⟩ := hreads.heap
    have hprefix : s.heap <+: (cachedRowToConn decryptSecretJson s row).1.heap := by
      rw [hheap]
      exact List.prefix_append _ _
    refine ⟨?_, hprefix.trans hmaps.heap, hmaps.inv, ?_⟩
    · rw [mapRows, List.map_cons, hmaps.rows_eq]
    · have hplace : (mapRows decryptSecretJson s (row :: rows)).1.value (cachedRowToConn decryptSecretJson s row).2 = value := by
        have hfirst : (cachedRowToConn decryptSecretJson s row).1.heap[s.heap.length]? = some { value, given := value } := by
          rw [hheap]
          exact List.getElem?_concat_length ..
        obtain ⟨more, hmore⟩ := hmaps.heap
        have hstill : (mapRows decryptSecretJson s (row :: rows)).1.heap[s.heap.length]? = some { value, given := value } := by
          rw [mapRows, ← hmore, List.getElem?_append_left (List.getElem?_eq_some_iff.1 hfirst).1, hfirst]
        rw [hreads.place]
        exact value_of_getElem? hstill
      rw [mapRows, List.forall_mem_cons, List.forall_mem_cons]
      refine and_congr ?_ (hmaps.right.trans ?_)
      · rw [← hvalue]
        exact iff_of_eq (congrArg (· = rowToConn decryptSecretJson row) hplace)
      · refine forall_congr' fun other => forall_congr' fun hother => hreads.untouchedRow h fun hid => ?_
        exact hnotMem (List.mem_map.2 ⟨other, hother, hid⟩)

/-! ### Operations -/

/-- An operation returns an object for each row that it reads, and each
is what its row decrypts to. -/
def Correct (decryptSecretJson : List Char → Connection) (s : State) (op : Op) : Prop :=
  ((op.run decryptSecretJson s).2.map Prod.fst).Perm (op.reads s) ∧
    ∀ e ∈ (op.run decryptSecretJson s).2, (op.run decryptSecretJson s).1.value e.2 = rowToConn decryptSecretJson e.1

def Untouched (s : State) (op : Op) : Prop := ∀ row ∈ op.reads s, UntouchedRow s row

theorem select_ids (s : State) (filter : Filter) : ((s.select filter).map Row.id).Nodup := Table.nodup_filter s.rows.nodup _

theorem get?_ids (s : State) (id : List Char) : ((s.rows.get? id).toList.map Row.id).Nodup := by
  cases s.rows.get? id <;> simp

theorem correct_iff (h : Inv decryptSecretJson s)
    (op : Op) : Correct decryptSecretJson s op ↔ Untouched s op := by
  unfold Correct Untouched
  cases op with
  | readAll filter =>
    have hmaps := mapRows_spec h (select_ids s filter)
    have hsort := sortBy_perm (compareOn fun e => sortKey ((mapRows decryptSecretJson s (s.select filter)).1.value e.2))
      (mapRows decryptSecretJson s (s.select filter)).2
    have hrows := hsort.map Prod.fst
    rw [hmaps.rows_eq] at hrows
    refine (and_iff_right hrows).trans (Iff.trans ?_ hmaps.right)
    exact forall_congr' fun e => imp_congr_left hsort.mem_iff
  | readById id =>
    have hmaps := mapRows_spec h (get?_ids s id)
    exact (and_iff_right (List.Perm.of_eq hmaps.rows_eq)).trans hmaps.right
  | write rows => simp [Op.run, Op.reads]
  | mutate conn value => simp [Op.run, Op.reads]

theorem Inv.step (h : Inv decryptSecretJson s)
    (op : Op) : Inv decryptSecretJson (RowCache.step decryptSecretJson s op) := by
  cases op with
  | write rows => exact h
  | readAll filter => exact (mapRows_spec h (select_ids s filter)).inv
  | readById id => exact (mapRows_spec h (get?_ids s id)).inv
  | mutate conn value =>
    intro id e he
    show ∃ row o, _ ∧ (s.mutate conn value).heap[e.conn]? = some o ∧ _
    unfold RowCache.step Op.run State.mutate at he
    unfold State.mutate
    cases hconn : s.heap[conn]? with
    | none =>
      simp only [hconn] at he ⊢
      exact h id e he
    | some changed =>
      simp only [hconn] at he ⊢
      obtain ⟨row, o, hfingerprint, ho, hgiven⟩ := h id e he
      by_cases hsame : e.conn = conn
      · rw [hsame] at ho ⊢
        obtain rfl : changed = o := Option.some.inj (hconn.symm.trans ho)
        exact ⟨row, { changed with value }, hfingerprint, getElem?_set_of_some hconn, hgiven⟩
      · exact ⟨row, o, hfingerprint, by rw [getElem?_set_ne hsame, ho], hgiven⟩

/-- In every run, every read is right just if none hits an object that a caller has changed. -/
theorem reads_correct_iff (decryptSecretJson : List Char → Connection) (stored : Table Row.id)
    (ops : List Op) :
    Meets (step decryptSecretJson) (Correct decryptSecretJson) { rows := stored } ops ↔
      Meets (step decryptSecretJson) Untouched { rows := stored } ops := by
  have hstart : Inv decryptSecretJson { rows := stored } := fun id e he => by simp at he
  exact meets_congr_of_inv (fun s op h => h.step op) (fun s op h => correct_iff h op) hstart

def account : Row where
  id := ['a']
  provider := ['p']
  authType := ['o']
  priority := some 1
  data := ['d']
  createdAt := ['t']
  updatedAt := ['t']

def changed : Connection := fun k => if k = "priority" then .number 7 else .undefined

/-- A caller raises the priority of the object that its first read returned, and
the second read returns that. -/
theorem changed_object_is_read :
    ¬ Meets (step fun _ _ => .undefined) (Correct fun _ _ => .undefined) { rows := Table.empty.put account }
      [.readById ['a'], .mutate 0 changed, .readById ['a']] := by
  intro h
  have hread := congrFun (h.2.2.1.2 (account, 1) (by decide +kernel)) "priority"
  exact absurd hread (by decide +kernel)

end TokenProxy.RowCache
