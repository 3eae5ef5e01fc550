import TokenProxy.Critical.Transaction
import TokenProxy.Lib.Run
import TokenProxy.Lib.Transaction

/-!
# Safety of the acknowledgments

Across transactions, deaths, recoveries and restorations of the database file:

* a receipt, once published, stays (`step_receipts`), and it is the receipt of a marker that was
  committed;
* the markers of every version of the database are numbered without a gap, each with the hash of the
  one before;
* a number that has a receipt is not issued again.

A database behind its receipts is reported unless it was restored into a gap: a version whose next
number has no receipt while a later one has. A transaction that dies between its commit and its
receipt leaves such a gap.
-/

namespace TokenProxy.Critical

open TokenProxy.Lib

variable {β : Type} {criticalAckDigest : Document → String}

/-! ### The chain of markers -/

/-- The hash that the marker at position `i` names. -/
def hashBefore (markers : List Marker) : Nat → String
  | 0 => ZERO_HASH
  | i + 1 => (markers[i]?).elim ZERO_HASH Marker.markerSha256

namespace Database

def sequence (db : Database β) : Nat := db.state.elim 0 AckState.sequence

/-- The markers are numbered from 1 without a gap, each over the one before,
and the state is at the last. -/
structure Gapless (db : Database β) : Prop where
  numbered : ∀ (i : Nat) (m : Marker), db.markers[i]? = some m → m.sequence = i + 1
  linked : ∀ (i : Nat) (m : Marker), db.markers[i]? = some m → m.previousMarkerSha256 = hashBefore db.markers i
  blank : db.state = none → db.markers = []
  counted : ∀ a, db.state = some a → a.sequence = db.markers.length
  head : ∀ a, db.state = some a → a.lastMarkerSha256 = hashBefore db.markers db.markers.length

end Database

theorem hashBefore_append (markers : List Marker) (m : Marker) {i : Nat} (h : i ≤ markers.length) :
    hashBefore (markers ++ [m]) i = hashBefore markers i := by
  cases i with
  | zero => rfl
  | succ i => rw [hashBefore, hashBefore, List.getElem?_append_left (by omega)]

theorem hashBefore_length (markers : List Marker) (m : Marker) :
    hashBefore (markers ++ [m]) (markers.length + 1) = m.markerSha256 := by
  simp [hashBefore]

namespace Database.Gapless

variable {db db' : Database β} {m : Marker}

theorem length_eq (h : db.Gapless) : db.sequence = db.markers.length := by
  unfold Database.sequence
  cases hs : db.state with
  | none => simp [h.blank hs]
  | some a => exact h.counted a hs

theorem le_sequence (h : db.Gapless) (hm : m ∈ db.markers) : m.sequence ≤ db.sequence := by
  obtain ⟨i, hi⟩ := List.mem_iff_getElem?.mp hm
  have hlt := (List.getElem?_eq_some_iff.mp hi).1
  rw [h.numbered i m hi, h.length_eq]
  omega

theorem snoc (h : db.Gapless) (hmarkers : db'.markers = db.markers ++ [m])
    (hseq : m.sequence = db.sequence + 1)
    (hprev : m.previousMarkerSha256 = hashBefore db.markers db.markers.length)
    (hstate : ∃ a, db'.state = some a ∧ a.sequence = m.sequence ∧ a.lastMarkerSha256 = m.markerSha256) :
    db'.Gapless := by
  obtain ⟨a, ha, hcount, hhead⟩ := hstate
  have hlen := h.length_eq
  have hsnoc : ∀ (i : Nat) (m' : Marker), db'.markers[i]? = some m' →
      db.markers[i]? = some m' ∨ (i = db.markers.length ∧ m' = m) := by
    intro i m' hi
    rw [hmarkers, List.getElem?_append] at hi
    split at hi
    · exact Or.inl hi
    · obtain ⟨hj, rfl⟩ := List.getElem?_eq_some_iff.mp hi
      simp only [List.length_singleton] at hj
      exact Or.inr ⟨by omega, by simp⟩
  constructor
  · intro i m' hi
    rcases hsnoc i m' hi with hold | ⟨rfl, rfl⟩
    · exact h.numbered i m' hold
    · omega
  · intro i m' hi
    rcases hsnoc i m' hi with hold | ⟨rfl, rfl⟩
    · rw [hmarkers, hashBefore_append _ _ (List.getElem?_eq_some_iff.mp hold).1.le]
      exact h.linked i m' hold
    · rw [hmarkers, hashBefore_append _ _ le_rfl]
      exact hprev
  · intro hnone
    rw [ha] at hnone
    cases hnone
  · intro a' ha'
    rw [ha] at ha'
    cases ha'
    rw [hmarkers, List.length_append, List.length_singleton]
    omega
  · intro a' ha'
    rw [ha] at ha'
    cases ha'
    rw [hmarkers, List.length_append, List.length_singleton, hashBefore_length]
    exact hhead

end Database.Gapless

/-! ### What the journal's operations do -/

section journal

variable {journal journal' : Journal} {db db' work : Database β} {intent : Intent} {marker : Marker}

theorem publishRow_get? {ρ κ : Type} [DecidableEq κ] {key : ρ → κ} (document : ρ → Document)
    (files : Table key) (record : ρ) (fault : PublishFault) (k : κ) :
    (publishRow criticalAckDigest document files record fault).1.get? k = files.get? k ∨
      (k = key record ∧ files.get? k = none ∧
        (publishRow criticalAckDigest document files record fault).1.get? k = some record) := by
  unfold publishRow publish
  cases hf : files.get? (key record) with
  | some old => exact Or.inl rfl
  | none =>
    by_cases hk : k = key record
    · subst hk
      cases fault
      · exact Or.inr ⟨rfl, hf, files.get?_put_self record⟩
      · exact Or.inl rfl
      · exact Or.inr ⟨rfl, hf, files.get?_put_self record⟩
    · left
      cases fault
      · exact files.get?_put_ne hk
      · rfl
      · exact files.get?_put_ne hk

/-- What an operation does to the receipts: none goes, and a new one is for `marker`. -/
def Acknowledges (marker : Marker) (journal journal' : Journal) : Prop :=
  ∀ n, journal'.receipts.get? n = journal.receipts.get? n ∨
    (journal.receipts.get? n = none ∧ ∃ r, journal'.receipts.get? n = some r ∧ r.marker = marker)

theorem acknowledge_receipts (criticalAckDigest : Document → String) (journal : Journal)
    (marker : Marker) (now : Nat) (fault : PublishFault) :
    Acknowledges marker journal (acknowledge criticalAckDigest journal marker now fault).1 := by
  intro n
  rcases @publishRow_get? criticalAckDigest _ _ _ _ .receipt journal.receipts
    (marker.toReceipt criticalAckDigest now) fault n with hsame | ⟨-, hnone, hnew⟩
  · exact Or.inl hsame
  · exact Or.inr ⟨hnone, _, hnew, rfl⟩

theorem checkRecovery_mem {transactionId : Nat}
    (h : checkRecovery criticalAckDigest journal db transactionId = .ok marker) :
    marker ∈ db.markers := by
  unfold checkRecovery at h
  split at h
  · cases h
  · rename_i m hm
    have hmem := List.mem_of_find?_eq_some hm
    suffices hmm : marker = m by rw [hmm]; exact hmem
    obtain ⟨-, -, h⟩ := bind_ok h
    split at h
    · cases h
    · split at h <;> cases h
    · split at h
      · cases h
      · obtain ⟨-, -, h⟩ := bind_ok h
        split at h
        · cases h
        · split at h
          · cases h
            rfl
          · obtain ⟨-, -, h⟩ := bind_ok h
            split at h
            · cases h
            · cases h
              rfl

theorem recover_receipts (criticalAckDigest : Document → String) (journal : Journal)
    (db : Database β) (transactionId now : Nat) (fault : PublishFault) :
    (recoverCriticalAcknowledgment criticalAckDigest journal db transactionId now fault).1.receipts = journal.receipts ∨
      ∃ m ∈ db.markers, Acknowledges m journal
        (recoverCriticalAcknowledgment criticalAckDigest journal db transactionId now fault).1 := by
  unfold recoverCriticalAcknowledgment
  cases hc : checkRecovery criticalAckDigest journal db transactionId with
  | error e => exact Or.inl rfl
  | ok m =>
    refine Or.inr ⟨m, checkRecovery_mem hc, fun n => ?_⟩
    rcases @publishRow_get? criticalAckDigest _ _ _ _ .receipt journal.receipts
      ((journal.receipts.get? m.sequence).getD (m.toReceipt criticalAckDigest now)) fault n with
        hsame | ⟨hn, hnone, hnew⟩
    · exact Or.inl hsame
    · refine Or.inr ⟨hnone, _, hnew, ?_⟩
      -- an existing receipt would be found under this very number
      cases hr : journal.receipts.get? m.sequence with
      | none => rfl
      | some old =>
        rw [hr, Option.getD_some, Table.get?_key hr] at hn
        rw [hn, hr] at hnone
        cases hnone

/-- What a prepared transaction sees: the database, with the state of a new epoch if it had none. -/
structure Opened (db work : Database β) (intent : Intent) : Prop where
  markers : work.markers = db.markers
  state : ∃ a, work.state = some a ∧ intent.sequence = a.sequence + 1 ∧ intent.previousMarkerSha256 = a.lastMarkerSha256 ∧
    (db.state = some a ∨ (db.state = none ∧ a.sequence = 0 ∧ a.lastMarkerSha256 = ZERO_HASH))

/-- What a marked transaction sees: the database and one more marker. -/
structure Extended (db work : Database β) (marker : Marker) : Prop where
  gapless : work.Gapless
  markers : work.markers = db.markers ++ [marker]
  sequence : work.sequence = db.sequence + 1

theorem openEpoch_receipts {input : PrepareInput} :
    (openEpoch criticalAckDigest input journal db).1.receipts = journal.receipts := by
  unfold openEpoch
  split
  · rfl
  · split
    · rfl
    · split
      · rfl
      · simp only
        split <;> rfl

/-- The epoch of a prepared transaction: its own, or a new one while there is no receipt at all. -/
theorem openEpoch_ok {input : PrepareInput} {a : AckState}
    (h : openEpoch criticalAckDigest input journal db = (journal', .ok (work, a))) :
    work.markers = db.markers ∧ work.state = some a ∧
      (db.state = some a ∨
        (db.state = none ∧ a.sequence = 0 ∧ a.lastMarkerSha256 = ZERO_HASH ∧ journal.receipts.rows = [])) := by
  unfold openEpoch at h
  split at h
  · cases h
  · split at h
    · rename_i state hs
      cases h
      exact ⟨rfl, hs, Or.inl hs⟩
    · rename_i hs
      split at h
      · cases h
      · rename_i hrows
        simp only at h
        split at h
        · cases h
        · split at h
          · cases h
          · cases h
            exact ⟨rfl, rfl, Or.inr ⟨hs, rfl, rfl, not_not.mp hrows⟩⟩

/-- **`prepare`** publishes no receipt, and issues a number that has none. -/
theorem prepare_receipts (criticalAckDigest : Document → String) (journal : Journal)
    (db : Database β) (input : PrepareInput) :
    (prepare criticalAckDigest input journal db).1.receipts = journal.receipts := by
  have hopen := @openEpoch_receipts β criticalAckDigest journal db input
  unfold prepare
  split
  · rename_i heq
    rw [heq] at hopen
    exact hopen
  · rename_i heq
    rw [heq] at hopen
    split
    · exact hopen
    · split
      · exact hopen
      · simp only
        split <;> exact hopen

theorem prepare_ok {input : PrepareInput} (h : prepare criticalAckDigest input journal db = (journal', .ok (work, intent))) :
    Opened db work intent ∧ journal.receipts.get? intent.sequence = none ∧
      ((∃ a, db.state = some a ∧ intent.sequence = a.sequence + 1) ∨ (db.state = none ∧ journal.receipts.rows = [])) := by
  unfold prepare at h
  split at h
  · cases h
  · rename_i journal₁ db₁ a heq
    obtain ⟨hmarkers, hstate, hcases⟩ := openEpoch_ok heq
    have hrec : journal₁.receipts = journal.receipts := by
      have hopen := @openEpoch_receipts β criticalAckDigest journal db input
      rw [heq] at hopen
      exact hopen
    split at h
    · cases h
    · split at h
      · cases h
      · rename_i hfree
        simp only at h
        split at h
        · cases h
        · cases h
          rw [not_or, Bool.not_eq_true, Option.isSome_eq_false_iff, Option.isNone_iff_eq_none, hrec] at hfree
          refine ⟨⟨hmarkers, a, hstate, rfl, rfl, hcases.imp id fun hn => ⟨hn.1, hn.2.1, hn.2.2.1⟩⟩, hfree.2, ?_⟩
          exact hcases.imp (fun hs => ⟨a, hs, rfl⟩) fun hn => ⟨hn.1, hn.2.2.2⟩

/-- **`mark`** extends the chain by the marker of the intent. -/
theorem mark_ok {work' : Database β} {changes : Nat} (hdb : db.Gapless)
    (hopen : Opened db work intent)
    (h : mark criticalAckDigest work intent changes = .ok (work', marker)) :
    Extended db work' marker := by
  obtain ⟨a, hstate, hseq, hprev, hcases⟩ := hopen.state
  obtain ⟨-, -, h⟩ := bind_ok h
  obtain ⟨db₁, hinsert, h⟩ := bind_ok h
  obtain ⟨db₂, hadvance, h⟩ := bind_ok h
  unfold insertMarker at hinsert
  split at hinsert
  · cases hinsert
  cases hinsert
  unfold advanceState at hadvance
  rw [show ({ work with markers := _ } : Database β).state = some a from hstate] at hadvance
  simp only at hadvance
  split at hadvance
  · cases hadvance
    cases h
    have hsequence : a.sequence = db.sequence ∧ a.lastMarkerSha256 = hashBefore db.markers db.markers.length := by
      rcases hcases with hs | ⟨hs, hz, hh⟩
      · exact ⟨by simp [Database.sequence, hs], hdb.head a hs⟩
      · exact ⟨by simp [Database.sequence, hs, hz], by rw [hdb.blank hs]; exact hh⟩
    refine ⟨?_, ?_, ?_⟩
    · refine hdb.snoc (m := intent.toMarker criticalAckDigest changes) ?_ ?_ ?_ ⟨_, rfl, rfl, rfl⟩
      · rw [hopen.markers]
      · exact hseq.trans (by rw [hsequence.1])
      · exact hprev.trans hsequence.2
    · rw [hopen.markers]
    · change intent.sequence = db.sequence + 1
      rw [hseq, hsequence.1]
  · cases hadvance

end journal

/-! ### The invariant -/

section invariant

variable {st st' : State β} {p : Nat} {marker : Marker} {intent : Intent}

/-- What the open transaction of a process sees, given how far the process is. -/
def Phase.Sees (db work : Database β) : Phase → Prop
  | .prepared intent => Opened db work intent
  | .called intent _ => Opened db work intent
  | .marked _ marker => Extended db work marker
  | .stuck => True
  | .idle => False
  | .committed _ _ => False

def Phase.Rests (db : Database β) : Phase → Prop
  | .idle => True
  | .committed _ marker => marker ∈ db.markers
  | _ => False

structure Inv (st : State β) : Prop where
  current : st.db ∈ st.versions
  gapless : ∀ db ∈ st.versions, db.Gapless
  receipts : ∀ n r, st.journal.receipts.get? n = some r → ∃ db ∈ st.versions, r.marker ∈ db.markers
  sees : ∀ p work, st.tx = some (p, work) → (st.phase p).Sees st.db work
  rests : ∀ p, (∀ work, st.tx ≠ some (p, work)) → (st.phase p).Rests st.db

/-- No receipt lies beyond the database while a transaction is under way. -/
def Within (st : State β) : Prop := ∀ n r, st.journal.receipts.get? n = some r → n ≤ st.db.sequence

/-- Where a receipt lies beyond the database, the next number has one. -/
structure Unbroken (st : State β) : Prop where
  next : ∀ a, st.db.state = some a → ∀ n r, st.journal.receipts.get? n = some r → a.sequence < n →
    (st.journal.receipts.get? (a.sequence + 1)).isSome = true
  within : ∀ p work, st.tx = some (p, work) → st.phase p ≠ .stuck → Within st

namespace Inv

variable (h : Inv st)
include h

theorem db_gapless : st.db.Gapless := h.gapless _ h.current

theorem tx_of_phase (hphase : ¬ (st.phase p).Rests st.db) : ∃ work, st.tx = some (p, work) := by
  by_contra hno
  exact hphase (h.rests p fun work hw => hno ⟨work, hw⟩)

theorem owner_eq {q : Nat} {work : Database β} (hphase : ¬ (st.phase p).Rests st.db)
    (htx : st.tx = some (q, work)) :
    q = p := by
  obtain ⟨work', hw⟩ := h.tx_of_phase hphase
  rw [htx] at hw
  cases hw
  rfl

end Inv

/-- A step that changes the phase of `p`, and the transaction of no other process. -/
structure Moves (p : Nat) (phase : Phase) (st st' : State β) : Prop where
  phase : st'.phase = Function.update st.phase p phase
  others : ∀ q, q ≠ p → ∀ work, st.tx ≠ some (q, work)
  others' : ∀ q, q ≠ p → ∀ work, st'.tx ≠ some (q, work)
  markers : st.db.markers ⊆ st'.db.markers

theorem Phase.Rests.mono {db db' : Database β} {phase : Phase} (h : phase.Rests db)
    (hsub : db.markers ⊆ db'.markers) :
    phase.Rests db' := by
  cases phase with
  | committed intent marker => exact hsub h
  | idle => trivial
  | prepared | called | marked | stuck => exact h

theorem Inv.moves (h : Inv st) (phase : Phase) (hm : Moves p phase st st')
    (hcurrent : st'.db ∈ st'.versions) (hgapless : ∀ db ∈ st'.versions, db.Gapless)
    (hreceipts : ∀ n r, st'.journal.receipts.get? n = some r → ∃ db ∈ st'.versions, r.marker ∈ db.markers)
    (hsees : ∀ work, st'.tx = some (p, work) → phase.Sees st'.db work)
    (hrests : (∀ work, st'.tx ≠ some (p, work)) → phase.Rests st'.db) : Inv st' where
  current := hcurrent
  gapless := hgapless
  receipts := hreceipts
  sees q work hw := by
    by_cases hq : q = p
    · subst hq
      rw [hm.phase, Function.update_self]
      exact hsees work hw
    · exact absurd hw (hm.others' q hq work)
  rests q hw := by
    rw [hm.phase]
    by_cases hq : q = p
    · subst hq
      rw [Function.update_self]
      exact hrests hw
    · rw [Function.update_of_ne hq]
      exact (h.rests q (hm.others q hq)).mono hm.markers

end invariant

/-! ### Every step keeps it -/

section steps

variable {st : State β} {p : Nat}

theorem abort_receipts (criticalAckDigest : Document → String) (st : State β) (p : Nat)
    (intent : Option Intent) (a : Abort) :
    (st.abort criticalAckDigest p intent a).journal.receipts = st.journal.receipts := by
  unfold State.abort
  cases intent <;> simp only <;> split <;> rfl

theorem abort_db (criticalAckDigest : Document → String) (st : State β) (p : Nat)
    (intent : Option Intent) (a : Abort) :
    (st.abort criticalAckDigest p intent a).db = st.db := by
  unfold State.abort
  cases intent <;> simp only <;> split <;> rfl

theorem Inv.abort (h : Inv st) {journal : Journal} {tx : Option (Nat × Database β)}
    {work : Database β}
    (hrec : journal.receipts = st.journal.receipts) (hothers : ∀ q, q ≠ p → ∀ work, st.tx ≠ some (q, work))
    (htx : tx = some (p, work)) (intent : Option Intent) (a : Abort) :
    Inv (({ st with journal, tx } : State β).abort criticalAckDigest p intent a) := by
  subst htx
  have hreceipts := abort_receipts criticalAckDigest { st with journal, tx := some (p, work) } p intent a
  have hr : ∀ n r, (({ st with journal, tx := some (p, work) } : State β).abort criticalAckDigest p intent a).journal.receipts.get? n
      = some r → ∃ db ∈ st.versions, r.marker ∈ db.markers := by
    intro n r hn
    rw [hreceipts, hrec] at hn
    exact h.receipts n r hn
  unfold State.abort at hr ⊢
  by_cases hroll : a.rollback = true
  · simp only [hroll, if_true] at hr ⊢
    refine h.moves .idle ⟨rfl, hothers, fun _ _ _ hw => (by cases hw), List.Subset.refl _⟩ h.current h.gapless hr
      (fun _ hw => by cases hw) fun _ => trivial
  · rw [Bool.not_eq_true] at hroll
    simp only [hroll] at hr ⊢
    refine h.moves .stuck ⟨rfl, hothers, fun q hq work' hw => ?_,
      List.Subset.refl _⟩ h.current h.gapless hr (fun _ _ => trivial)
      fun hno => absurd rfl (hno work)
    cases hw
    exact hq rfl

theorem Inv.prepare (h : Inv st) (input : PrepareInput)
    (a : Abort) : Inv (st.prepare criticalAckDigest p input a) := by
  unfold State.prepare
  split
  · rename_i hphase htx
    have hrec := prepare_receipts criticalAckDigest st.journal st.db input
    have hothers : ∀ q, q ≠ p → ∀ work, st.tx ≠ some (q, work) := fun q _ work => by simp [htx]
    split
    · rename_i journal e heq
      rw [heq] at hrec
      exact h.abort hrec hothers rfl none a
    · rename_i journal work intent heq
      rw [heq] at hrec
      refine h.moves (.prepared intent) ⟨rfl, hothers, fun q hq work' hw => ?_,
        List.Subset.refl _⟩ h.current h.gapless
        (fun n r hn => h.receipts n r (hrec ▸ hn)) (fun work' hw => ?_) fun hno => absurd rfl (hno work)
      · cases hw
        exact hq rfl
      · cases hw
        exact (prepare_ok heq).1
  · exact h

theorem Inv.others (h : Inv st) (hphase : ¬ (st.phase p).Rests st.db) :
    ∀ q, q ≠ p → ∀ work, st.tx ≠ some (q, work) :=
  fun _ hq _ htx => hq (h.owner_eq hphase htx)

theorem Inv.callback (h : Inv st) (outcome : Option (β × Nat)) (a : Abort) :
    Inv (st.callback criticalAckDigest p outcome a) := by
  unfold State.callback
  split
  · rename_i intent q work hphase htx
    have hopen : ¬ (st.phase p).Rests st.db := by rw [hphase]; exact id
    obtain rfl := h.owner_eq hopen htx
    split
    · exact h.abort rfl (h.others hopen) htx _ a
    · rename_i rows changes
      have hsees := h.sees q work htx
      rw [hphase] at hsees
      refine h.moves (.called intent changes) ⟨rfl, h.others hopen, fun q' hq work' hw => ?_, List.Subset.refl _⟩
        h.current h.gapless h.receipts (fun work' hw => ?_) fun hno => absurd rfl (hno _)
      · cases hw
        exact hq rfl
      · cases hw
        exact ⟨hsees.markers, hsees.state⟩
  · exact h

theorem Inv.mark (h : Inv st) (fault : Bool) (a : Abort) :
    Inv (st.mark criticalAckDigest p fault a) := by
  unfold State.mark
  split
  · rename_i intent changes q work hphase htx
    have hopen : ¬ (st.phase p).Rests st.db := by rw [hphase]; exact id
    obtain rfl := h.owner_eq hopen htx
    split
    · rename_i work' marker hmark
      have hsees := h.sees q work htx
      rw [hphase] at hsees
      refine h.moves (.marked intent marker) ⟨rfl, h.others hopen, fun q' hq work' hw => ?_, List.Subset.refl _⟩
        h.current h.gapless h.receipts (fun work' hw => ?_) fun hno => absurd rfl (hno _)
      · cases hw
        exact hq rfl
      · cases hw
        exact mark_ok h.db_gapless hsees hmark
    · exact h.abort rfl (h.others hopen) htx _ a
  · exact h

theorem Inv.land (h : Inv st) {db : Database β} (journal : Journal) {phase : Phase}
    (hdb : db.Gapless)
    (hsub : st.db.markers ⊆ db.markers) (hrec : journal.receipts = st.journal.receipts)
    (hothers : ∀ q, q ≠ p → ∀ work, st.tx ≠ some (q, work)) (hrests : phase.Rests db) :
    Inv (({ st.land db with journal } : State β).setPhase p phase) := by
  refine h.moves phase ⟨rfl, hothers, nofun, hsub⟩ (List.mem_append_right _ List.mem_cons_self) (fun db' hdb' => ?_)
    (fun n r hn => ?_) nofun fun _ => hrests
  · rcases List.mem_append.mp hdb' with hold | hnew
    · exact h.gapless db' hold
    · exact List.mem_singleton.mp hnew ▸ hdb
  · obtain ⟨db', hmem, hm⟩ := h.receipts n r (hrec ▸ hn)
    exact ⟨db', List.mem_append_left _ hmem, hm⟩

theorem Inv.commit (h : Inv st) (outcome : CommitOutcome) :
    Inv (st.commit criticalAckDigest p outcome) := by
  unfold State.commit
  split
  · rename_i intent marker q work hphase htx
    have hopen : ¬ (st.phase p).Rests st.db := by rw [hphase]; exact id
    obtain rfl := h.owner_eq hopen htx
    have hsees := h.sees q work htx
    rw [hphase] at hsees
    have hsub : st.db.markers ⊆ work.markers := by
      rw [hsees.markers]
      exact List.subset_append_left _ _
    cases outcome with
    | done =>
      refine h.land st.journal hsees.gapless hsub rfl (h.others hopen) ?_
      show marker ∈ work.markers
      rw [hsees.markers]
      exact List.mem_append_right _ List.mem_cons_self
    | refused a => exact h.abort rfl (h.others hopen) htx _ a
    | unknown landed now failure =>
      cases landed with
      | true => exact h.land _ hsees.gapless hsub rfl (h.others hopen) trivial
      | false =>
        exact h.moves .idle ⟨rfl, h.others hopen, nofun, List.Subset.refl _⟩ h.current h.gapless h.receipts nofun
          fun _ => trivial
  · exact h

theorem Inv.rest (h : Inv st) (journal : Journal) (hphase : (st.phase p).Rests st.db)
    (hreceipts : ∀ n r, journal.receipts.get? n = some r → ∃ db ∈ st.versions, r.marker ∈ db.markers) :
    Inv (({ st with journal } : State β).setPhase p .idle) where
  current := h.current
  gapless := h.gapless
  receipts := hreceipts
  sees q work hw := by
    change (Function.update st.phase p .idle q).Sees st.db work
    have hsees := h.sees q work hw
    rw [Function.update_of_ne]
    · exact hsees
    · rintro rfl
      -- a process at rest sees no transaction
      generalize st.phase q = phase at hphase hsees
      cases phase <;> first | exact hsees | exact hphase
  rests q hw := by
    change (Function.update st.phase p .idle q).Rests st.db
    by_cases hq : q = p
    · rw [hq, Function.update_self]
      trivial
    · rw [Function.update_of_ne hq]
      exact h.rests q hw

theorem Inv.acknowledges (h : Inv st) {journal : Journal} {marker : Marker}
    (hm : marker ∈ st.db.markers)
    (hack : Acknowledges marker st.journal journal) (n : Nat) (r : Receipt) (hn : journal.receipts.get? n = some r) :
    ∃ db ∈ st.versions, r.marker ∈ db.markers := by
  rcases hack n with hsame | ⟨-, r', hnew, hmarker⟩
  · exact h.receipts n r (hsame ▸ hn)
  · rw [hnew] at hn
    cases hn
    exact ⟨st.db, h.current, hmarker ▸ hm⟩

theorem Inv.committed_mem (h : Inv st) {intent : Intent} {marker : Marker}
    (hphase : st.phase p = .committed intent marker) :
    marker ∈ st.db.markers := by
  have hrests := h.rests p fun work hw => by
    have hsees := h.sees p work hw
    rw [hphase] at hsees
    exact hsees
  rw [hphase] at hrests
  exact hrests

theorem Inv.acknowledge (h : Inv st) (now : Nat) (outcome : AckOutcome) (failure : PublishFault) :
    Inv (st.acknowledge criticalAckDigest p now outcome failure) := by
  unfold State.acknowledge
  split
  · rename_i intent marker hphase
    have hm := h.committed_mem hphase
    have hrests : (st.phase p).Rests st.db := by rw [hphase]; exact hm
    cases outcome with
    | restoreFailed => exact h.rest _ hrests h.receipts
    | publish fault =>
      have hack := acknowledge_receipts criticalAckDigest st.journal marker now fault
      simp only
      split
      · rename_i journal heq
        rw [heq] at hack
        exact h.rest _ hrests (h.acknowledges hm hack)
      · rename_i journal e heq
        rw [heq] at hack
        exact h.rest _ hrests (h.acknowledges hm hack)
  · exact h

theorem Inv.crash (h : Inv st) : Inv (st.crash p) := by
  unfold State.crash
  cases htx : st.tx with
  | none =>
    have hrests := h.rests p (by simp [htx])
    exact h.rest st.journal hrests h.receipts
  | some x =>
    obtain ⟨q, work⟩ := x
    by_cases hq : q = p
    · subst hq
      simp only [if_true]
      exact h.moves .idle ⟨rfl, fun q' hq' work' hw => hq' (by rw [htx] at hw; cases hw; rfl), nofun, List.Subset.refl _⟩
        h.current h.gapless h.receipts nofun fun _ => trivial
    · simp only [if_neg hq]
      have hrests := h.rests p fun work' hw => hq (by rw [htx] at hw; cases hw; rfl)
      have hrest := h.rest st.journal hrests h.receipts
      rw [htx] at hrest
      exact hrest

theorem Inv.recover (h : Inv st) (transactionId now : Nat) (fault : PublishFault) :
    Inv (st.recover criticalAckDigest transactionId now fault) := by
  have hreceipts : ∀ n r, (st.recover criticalAckDigest transactionId now fault).journal.receipts.get? n = some r →
      ∃ db ∈ st.versions, r.marker ∈ db.markers := by
    rcases recover_receipts criticalAckDigest st.journal st.db transactionId now fault with hsame | ⟨m, hm, hack⟩
    · exact fun n r hn => h.receipts n r (hsame ▸ hn)
    · exact h.acknowledges hm hack
  exact ⟨h.current, h.gapless, hreceipts, h.sees, h.rests⟩

theorem Inv.write (h : Inv st) (rows : β) : Inv (st.write rows) := by
  unfold State.write
  split
  · rename_i htx
    have hg := h.db_gapless
    have hland : ({ st.db with rows } : Database β).Gapless := ⟨hg.numbered, hg.linked, hg.blank,
      hg.counted, hg.head⟩
    refine ⟨List.mem_append_right _ List.mem_cons_self, fun db hdb => ?_, fun n r hn => ?_, nofun, fun q _ => ?_⟩
    · rcases List.mem_append.mp hdb with hold | hnew
      · exact h.gapless db hold
      · exact List.mem_singleton.mp hnew ▸ hland
    · obtain ⟨db, hmem, hm⟩ := h.receipts n r hn
      exact ⟨db, List.mem_append_left _ hmem, hm⟩
    · exact (h.rests q (by simp [htx])).mono (List.Subset.refl _)
  · exact h

theorem Inv.restore (h : Inv st) (version : Nat) : Inv (st.restore version) := by
  unfold State.restore
  split
  · rename_i db hdb
    exact ⟨List.mem_of_getElem? hdb, h.gapless, h.receipts, nofun, fun _ _ => trivial⟩
  · exact h

theorem Inv.step (h : Inv st) (ev : Event β) : Inv (step criticalAckDigest st ev) := by
  cases ev with
  | prepare p input a => exact h.prepare input a
  | callback p outcome a => exact h.callback outcome a
  | mark p fault a => exact h.mark fault a
  | commit p outcome => exact h.commit outcome
  | acknowledge p now outcome failure => exact h.acknowledge now outcome failure
  | crash p => exact h.crash
  | recover transactionId now fault => exact h.recover transactionId now fault
  | write rows => exact h.write rows
  | restore version => exact h.restore version

theorem inv_newState (rows : β) : Inv (newState rows) where
  current := List.mem_cons_self
  gapless db hdb := by
    cases List.mem_singleton.mp hdb
    exact ⟨nofun, nofun, fun _ => rfl, nofun, nofun⟩
  receipts n r hn := nomatch hn
  sees := nofun
  rests _ _ := trivial

end steps

/-! ### Behind the receipts -/

section behind

variable {st st' : State β} {p : Nat}

def Behind (st : State β) : Prop := ∃ r ∈ st.journal.receipts.rows, st.db.sequence < r.marker.sequence

/-- `prepare` refuses every transaction. -/
def Reports (criticalAckDigest : Document → String) (st : State β) : Prop :=
  ∀ input, ∃ e, (prepare criticalAckDigest input st.journal st.db).2 = .error e

/-- The database is not restored to a version whose next number has no
receipt while a later one has. -/
def OutsideGaps (st : State β) : Event β → Prop
  | .restore version => ∀ db ∈ st.versions[version]?, ∀ a ∈ db.state,
      (∃ r ∈ st.journal.receipts.rows, a.sequence < r.marker.sequence) →
      (st.journal.receipts.get? (a.sequence + 1)).isSome = true
  | _ => True

instance (st : State β) (ev : Event β) : Decidable (OutsideGaps st ev) := by
  cases ev <;> unfold OutsideGaps <;> infer_instance

theorem Acknowledges.le_sequence {journal journal' : Journal} {db : Database β} {marker : Marker}
    (hack : Acknowledges marker journal journal') (hdb : db.Gapless) (hm : marker ∈ db.markers) {n : Nat} {r : Receipt}
    (hn : journal'.receipts.get? n = some r) :
    journal.receipts.get? n = some r ∨ n ≤ db.sequence := by
  rcases hack n with hsame | ⟨-, r', hnew, hmarker⟩
  · exact Or.inl (hsame ▸ hn)
  · right
    rw [← Table.get?_key hnew, hmarker]
    exact hdb.le_sequence hm

theorem Acknowledges.isSome {journal journal' : Journal} {marker : Marker}
    (hack : Acknowledges marker journal journal')
    {n : Nat} (h : (journal.receipts.get? n).isSome = true) :
    (journal'.receipts.get? n).isSome = true := by
  rcases hack n with hsame | ⟨-, r', hnew, -⟩
  · exact hsame ▸ h
  · rw [hnew]
    rfl

theorem Unbroken.of_state (h : Unbroken st) (hi : Inv st) (hstate : st'.db.state = st.db.state)
    (hrec : st'.journal.receipts = st.journal.receipts ∨ ∃ m ∈ st.db.markers, Acknowledges m st.journal st'.journal)
    (hwithin : ∀ p work, st'.tx = some (p, work) → st'.phase p ≠ .stuck → Within st) :
    Unbroken st' := by
  have hseq : st'.db.sequence = st.db.sequence := by rw [Database.sequence, hstate, Database.sequence]
  have hold : ∀ n r, st'.journal.receipts.get? n = some r →
      st.journal.receipts.get? n = some r ∨ n ≤ st.db.sequence := by
    rcases hrec with hsame | ⟨m, hm, hack⟩
    · exact fun n r hn => Or.inl (hsame ▸ hn)
    · exact fun n r hn => hack.le_sequence hi.db_gapless hm hn
  have hkeeps : ∀ n, (st.journal.receipts.get? n).isSome = true → (st'.journal.receipts.get? n).isSome = true := by
    rcases hrec with hsame | ⟨m, hm, hack⟩
    · exact fun n hn => hsame ▸ hn
    · exact fun n hn => hack.isSome hn
  constructor
  · intro a ha n r hn hlt
    rw [hstate] at ha
    rcases hold n r hn with hold | hle
    · exact hkeeps _ (h.next a ha n r hold hlt)
    · simp only [Database.sequence, ha, Option.elim_some] at hle
      omega
  · intro p work hw hphase n r hn
    rw [hseq]
    rcases hold n r hn with hold | hle
    · exact hwithin p work hw hphase n r hold
    · exact hle

theorem Unbroken.abort (h : Unbroken st) (hi : Inv st) {journal : Journal}
    {tx : Option (Nat × Database β)}
    {work : Database β} (hrec : journal.receipts = st.journal.receipts) (htx : tx = some (p, work))
    (intent : Option Intent) (a : Abort) :
    Unbroken (({ st with journal, tx } : State β).abort criticalAckDigest p intent a) := by
  have hreceipts := abort_receipts criticalAckDigest { st with journal, tx } p intent a
  refine h.of_state hi ?_ (Or.inl (hreceipts.trans hrec)) fun q work' hw hphase => ?_
  · rw [abort_db]
  · unfold State.abort at hw hphase
    by_cases hroll : a.rollback = true
    · simp only [hroll, if_true] at hw
      cases hw
    · rw [Bool.not_eq_true] at hroll
      simp only [hroll] at hw hphase
      change tx = some (q, work') at hw
      rw [htx] at hw
      cases hw
      exact absurd (Function.update_self _ _ _) hphase

theorem Unbroken.within_of_phase (h : Unbroken st) (hi : Inv st)
    (hopen : ¬ (st.phase p).Rests st.db) (hphase : st.phase p ≠ .stuck) : Within st := by
  obtain ⟨work, hw⟩ := hi.tx_of_phase hopen
  exact h.within p work hw hphase

theorem Unbroken.prepare (h : Unbroken st) (hi : Inv st) (input : PrepareInput) (a : Abort) :
    Unbroken (st.prepare criticalAckDigest p input a) := by
  unfold State.prepare
  split
  · have hrec := prepare_receipts criticalAckDigest st.journal st.db input
    split
    · rename_i journal e heq
      rw [heq] at hrec
      exact h.abort hi hrec rfl none a
    · rename_i journal work intent heq
      rw [heq] at hrec
      refine h.of_state hi rfl (Or.inl hrec) fun q work' _ _ n r hn => ?_
      obtain ⟨-, hfree, ⟨b, hb, hseq⟩ | ⟨-, hrows⟩⟩ := prepare_ok heq
      · -- the next number is free, so nothing lies beyond it
        by_contra hlt
        simp only [Database.sequence, hb, Option.elim_some, not_le] at hlt
        have hnext := h.next b hb n r hn hlt
        rw [← hseq, hfree] at hnext
        cases hnext
      · have hmem := Table.get?_mem hn
        rw [hrows] at hmem
        cases hmem
  · exact h

theorem Unbroken.callback (h : Unbroken st) (hi : Inv st) (outcome : Option (β × Nat)) (a : Abort) :
    Unbroken (st.callback criticalAckDigest p outcome a) := by
  unfold State.callback
  split
  · rename_i intent q work hphase htx
    have hopen : ¬ (st.phase p).Rests st.db := by rw [hphase]; exact id
    obtain rfl := hi.owner_eq hopen htx
    split
    · exact h.abort hi rfl htx _ a
    · exact h.of_state hi rfl (Or.inl rfl) fun _ _ _ _ => h.within_of_phase hi hopen (by simp [hphase])
  · exact h

theorem Unbroken.mark (h : Unbroken st) (hi : Inv st) (fault : Bool) (a : Abort) :
    Unbroken (st.mark criticalAckDigest p fault a) := by
  unfold State.mark
  split
  · rename_i intent changes q work hphase htx
    have hopen : ¬ (st.phase p).Rests st.db := by rw [hphase]; exact id
    obtain rfl := hi.owner_eq hopen htx
    split
    · exact h.of_state hi rfl (Or.inl rfl) fun _ _ _ _ => h.within_of_phase hi hopen (by simp [hphase])
    · exact h.abort hi rfl htx _ a
  · exact h

theorem Unbroken.land (h : Within st) {db : Database β} {marker : Marker}
    (hext : Extended st.db db marker)
    (hdb : st'.db = db) (htx : st'.tx = none) (hrec : st'.journal.receipts = st.journal.receipts) :
    Unbroken st' := by
  constructor
  · intro a ha n r hn hlt
    have hle := h n r (hrec ▸ hn)
    have hseq := hext.sequence
    rw [hdb] at ha
    rw [show db.sequence = a.sequence by simp [Database.sequence, ha]] at hseq
    omega
  · intro p work hw
    rw [htx] at hw
    cases hw

theorem Unbroken.commit (h : Unbroken st) (hi : Inv st) (outcome : CommitOutcome) :
    Unbroken (st.commit criticalAckDigest p outcome) := by
  unfold State.commit
  split
  · rename_i intent marker q work hphase htx
    have hopen : ¬ (st.phase p).Rests st.db := by rw [hphase]; exact id
    obtain rfl := hi.owner_eq hopen htx
    have hsees := hi.sees q work htx
    rw [hphase] at hsees
    have hwithin := h.within_of_phase hi hopen (by simp [hphase])
    cases outcome with
    | done => exact Unbroken.land hwithin hsees rfl rfl rfl
    | refused a => exact h.abort hi rfl htx _ a
    | unknown landed now failure =>
      cases landed with
      | true => exact Unbroken.land hwithin hsees rfl rfl rfl
      | false => exact h.of_state hi rfl (Or.inl rfl) nofun
  · exact h

theorem Unbroken.rest (h : Unbroken st) (hi : Inv st) (journal : Journal)
    (hrec : journal.receipts = st.journal.receipts ∨ ∃ m ∈ st.db.markers, Acknowledges m st.journal journal)
    (hphase : (st.phase p).Rests st.db) :
    Unbroken (({ st with journal } : State β).setPhase p .idle) := by
  refine h.of_state hi rfl hrec fun q work hw hstuck => h.within q work hw fun hq => hstuck ?_
  change Function.update st.phase p .idle q = .stuck
  rw [Function.update_of_ne, hq]
  rintro rfl
  rw [hq] at hphase
  exact hphase

theorem Unbroken.acknowledge (h : Unbroken st) (hi : Inv st) (now : Nat) (outcome : AckOutcome)
    (failure : PublishFault) :
    Unbroken (st.acknowledge criticalAckDigest p now outcome failure) := by
  unfold State.acknowledge
  split
  · rename_i intent marker hphase
    have hm := hi.committed_mem hphase
    have hrests : (st.phase p).Rests st.db := by rw [hphase]; exact hm
    cases outcome with
    | restoreFailed => exact h.rest hi _ (Or.inl rfl) hrests
    | publish fault =>
      have hack := acknowledge_receipts criticalAckDigest st.journal marker now fault
      simp only
      split
      · rename_i journal heq
        rw [heq] at hack
        exact h.rest hi _ (Or.inr ⟨marker, hm, hack⟩) hrests
      · rename_i journal e heq
        rw [heq] at hack
        exact h.rest hi _ (Or.inr ⟨marker, hm, hack⟩) hrests
  · exact h

theorem Unbroken.crash (h : Unbroken st) (hi : Inv st) : Unbroken (st.crash p) := by
  unfold State.crash
  cases htx : st.tx with
  | none => exact h.rest hi st.journal (Or.inl rfl) (hi.rests p (by simp [htx]))
  | some x =>
    obtain ⟨q, work⟩ := x
    by_cases hq : q = p
    · simp only [if_pos hq]
      exact h.of_state hi rfl (Or.inl rfl) nofun
    · simp only [if_neg hq]
      have hrests := hi.rests p fun work' hw => hq (by rw [htx] at hw; cases hw; rfl)
      have hrest := h.rest hi st.journal (Or.inl rfl) hrests
      rw [htx] at hrest
      exact hrest

theorem Unbroken.step (h : Unbroken st) (hi : Inv st) (ev : Event β) (hev : OutsideGaps st ev) :
    Unbroken (step criticalAckDigest st ev) := by
  cases ev with
  | prepare p input a => exact h.prepare hi input a
  | callback p outcome a => exact h.callback hi outcome a
  | mark p fault a => exact h.mark hi fault a
  | commit p outcome => exact h.commit hi outcome
  | acknowledge p now outcome failure => exact h.acknowledge hi now outcome failure
  | crash p => exact h.crash hi
  | recover transactionId now fault =>
    exact h.of_state hi rfl (recover_receipts criticalAckDigest st.journal st.db transactionId now fault) h.within
  | write rows =>
    change Unbroken (st.write rows)
    unfold State.write
    split
    · exact h.of_state hi rfl (Or.inl rfl) nofun
    · exact h
  | restore version =>
    change Unbroken (st.restore version)
    unfold State.restore
    split
    · rename_i db hdb
      refine ⟨fun a ha n r hn hlt => hev db hdb a ha ⟨r, Table.get?_mem hn, ?_⟩, nofun⟩
      rw [Table.get?_key hn]
      exact hlt
    · exact h

/-- **A database behind its receipts is reported**, outside the gaps. -/
theorem Unbroken.reports (h : Unbroken st) (hb : Behind st) : Reports criticalAckDigest st := by
  intro input
  obtain ⟨r, hr, hlt⟩ := hb
  have hn := Table.get?_of_mem hr
  rcases hp : Critical.prepare criticalAckDigest input st.journal st.db with ⟨journal, e | ⟨work, intent⟩⟩
  · exact ⟨e, rfl⟩
  · exfalso
    obtain ⟨-, hfree, ⟨b, hb, hseq⟩ | ⟨-, hrows⟩⟩ := prepare_ok hp
    · simp only [Database.sequence, hb, Option.elim_some] at hlt
      have hnext := h.next b hb _ r hn hlt
      rw [← hseq, hfree] at hnext
      cases hnext
    · rw [hrows] at hr
      cases hr

theorem unbroken_newState (rows : β) : Unbroken (newState rows) := ⟨nofun, nofun⟩

end behind

/-! ### Receipts stay -/

section receipts

variable {st : State β} {n : Nat} {r : Receipt}

theorem Acknowledges.keeps {journal journal' : Journal} {marker : Marker}
    (hack : Acknowledges marker journal journal')
    (h : journal.receipts.get? n = some r) : journal'.receipts.get? n = some r := by
  rcases hack n with hsame | ⟨hnone, -⟩
  · rw [hsame, h]
  · rw [hnone] at h
    cases h

theorem keeps_of_eq {journal journal' : Journal} (hsame : journal'.receipts = journal.receipts)
    (h : journal.receipts.get? n = some r) : journal'.receipts.get? n = some r := by
  rw [hsame, h]

theorem prepare_step_receipts (st : State β) (p : Nat) (input : PrepareInput) (a : Abort) :
    (st.prepare criticalAckDigest p input a).journal.receipts = st.journal.receipts := by
  unfold State.prepare
  split
  · have hrec := prepare_receipts criticalAckDigest st.journal st.db input
    split <;> rename_i heq <;> rw [heq] at hrec
    · exact (abort_receipts criticalAckDigest _ p none a).trans hrec
    · exact hrec
  · rfl

theorem callback_receipts (st : State β) (p : Nat) (outcome : Option (β × Nat)) (a : Abort) :
    (st.callback criticalAckDigest p outcome a).journal.receipts = st.journal.receipts := by
  unfold State.callback
  split
  · split
    · exact abort_receipts criticalAckDigest st p _ a
    · rfl
  · rfl

theorem mark_receipts (st : State β) (p : Nat) (fault : Bool) (a : Abort) :
    (st.mark criticalAckDigest p fault a).journal.receipts = st.journal.receipts := by
  unfold State.mark
  split
  · split
    · rfl
    · exact abort_receipts criticalAckDigest st p _ a
  · rfl

theorem commit_receipts (st : State β) (p : Nat) (outcome : CommitOutcome) :
    (st.commit criticalAckDigest p outcome).journal.receipts = st.journal.receipts := by
  unfold State.commit
  split
  · cases outcome with
    | done => rfl
    | refused a => exact abort_receipts criticalAckDigest st p _ a
    | unknown landed now failure => cases landed <;> rfl
  · rfl

/-- **A receipt, once published, stays as it is**: only a receipt and a recovery
publish any, and never over one. -/
theorem step_receipts (ev : Event β) (h : st.journal.receipts.get? n = some r) :
    (step criticalAckDigest st ev).journal.receipts.get? n = some r := by
  cases ev with
  | prepare p input a =>
    apply keeps_of_eq _ h
    exact prepare_step_receipts st p input a
  | callback p outcome a =>
    apply keeps_of_eq _ h
    exact callback_receipts st p outcome a
  | mark p fault a =>
    apply keeps_of_eq _ h
    exact mark_receipts st p fault a
  | commit p outcome =>
    apply keeps_of_eq _ h
    exact commit_receipts st p outcome
  | acknowledge p now outcome failure =>
    show (st.acknowledge criticalAckDigest p now outcome failure).journal.receipts.get? n = some r
    unfold State.acknowledge
    split
    · rename_i intent marker hphase
      cases outcome with
      | restoreFailed => exact h
      | publish fault =>
        have hack := acknowledge_receipts criticalAckDigest st.journal marker now fault
        simp only
        split <;> rename_i heq <;> rw [heq] at hack <;> exact hack.keeps h
    · exact h
  | crash p =>
    show (st.crash p).journal.receipts.get? n = some r
    unfold State.crash
    split <;> exact h
  | recover transactionId now fault =>
    rcases recover_receipts criticalAckDigest st.journal st.db transactionId now fault with hsame | ⟨m, -, hack⟩
    · exact keeps_of_eq hsame h
    · exact hack.keeps h
  | write rows =>
    show (st.write rows).journal.receipts.get? n = some r
    unfold State.write
    split <;> exact h
  | restore version =>
    show (st.restore version).journal.receipts.get? n = some r
    unfold State.restore
    split <;> exact h

end receipts

/-! ### The guarantees of every run -/

/-- **The journal is safe.** In every state that transactions, deaths, recoveries and restorations
of the database reach from a new database: a receipt stays as it is; it is for a marker of its
number that a durable version of the database holds; the markers of the database are numbered
without a gap; and no number with a receipt is issued again. A database behind its receipts is
reported, if it was restored outside their gaps. -/
theorem criticalAck_safe (criticalAckDigest : Document → String) (rows : β) (ops : List (Event β)) :
    let st := run (step criticalAckDigest) (newState rows) ops
    (∀ more n r, st.journal.receipts.get? n = some r →
      (run (step criticalAckDigest) st more).journal.receipts.get? n = some r) ∧
    (∀ n r, st.journal.receipts.get? n = some r → r.marker.sequence = n ∧ ∃ db ∈ st.versions, r.marker ∈ db.markers) ∧
    (st.db ∈ st.versions ∧ ∀ db ∈ st.versions, db.Gapless) ∧
    (∀ input journal work intent, prepare criticalAckDigest input st.journal st.db = (journal, .ok (work, intent)) →
      st.journal.receipts.get? intent.sequence = none) ∧
    (Meets (step criticalAckDigest) OutsideGaps (newState rows) ops → Behind st → Reports criticalAckDigest st) := by
  intro st
  have hi : Inv st := run_inv (fun s ev hs => hs.step ev) (inv_newState rows)
  refine ⟨fun more n r hn => ?_, fun n r hn => ⟨?_, hi.receipts n r hn⟩, ⟨hi.current, hi.gapless⟩,
    fun input journal work intent hp => (prepare_ok hp).2.1, fun hm hb => ?_⟩
  · exact run_inv (I := fun s : State β => s.journal.receipts.get? n = some r) (fun s ev hs => step_receipts ev hs) hn
  · have hk := Table.get?_key hn
    exact hk
  · have hu : Inv st ∧ Unbroken st := by
      apply run_inv_of_meets (I := fun s : State β => Inv s ∧ Unbroken s) _ hm ⟨inv_newState rows,
        unbroken_newState rows⟩
      rintro s ev hev ⟨hs, hus⟩
      exact ⟨hs.step ev, hus.step hs ev hev⟩
    exact hu.2.reports hb

/-! ### A restoration into a gap -/

section gap

/-- A hash that tells apart the documents of runs whose transactions have numbers of their own. -/
def plainDigest : Document → String
  | .header h => "epoch".pushn '+' h.epoch
  | .intentBody i => "intent".pushn '+' i.transactionId
  | .markerBody m => "marker".pushn '+' m.transactionId
  | .receiptBody r => "receipt".pushn '+' r.marker.transactionId
  | .failureBody f => "failure".pushn '+' f.transactionId
  | .intent i => i.intentSha256
  | .receipt r => r.receiptSha256
  | .failure f => f.failureSha256

def plainInput (transactionId : Nat) : PrepareInput :=
  { process := ⟨"writer", 1, "better-sqlite3", none⟩, epoch := 1, transactionId, recordedAt := 0, opening := false,
    header := .none, insertion := false, intent := .none }

def commits (transactionId : Nat) : List (Event Unit) :=
  [.prepare 0 (plainInput transactionId) ⟨true, 0, .none⟩, .callback 0 (some ((), 1)) ⟨true, 0, .none⟩,
    .mark 0 false ⟨true, 0, .none⟩, .commit 0 .done]

def acknowledges : List (Event Unit) := [.acknowledge 0 0 (.publish .none) .none]

/-- Two acknowledged transactions, then the database of the first. -/
def restoredRun : List (Event Unit) := commits 1 ++ acknowledges ++ commits 2 ++ acknowledges ++ [Event.restore 1]

/-- The second of three transactions dies before its receipt; then the
database of the first is restored. -/
def gapRun : List (Event Unit) :=
  commits 1 ++ acknowledges ++ commits 2 ++ [Event.crash 0] ++ commits 3 ++ acknowledges ++ [Event.restore 1]

instance (st : State β) : Decidable (Behind st) := inferInstanceAs (Decidable (∃ r ∈ _, _))

/-- A database restored behind its receipts, outside their gaps, refuses to go on. -/
theorem criticalAck_safe_restored :
    Reports plainDigest (run (step plainDigest) (newState ()) restoredRun) :=
  (criticalAck_safe plainDigest () restoredRun).2.2.2.2 (by decide +kernel) (by decide +kernel)

/-- The third transaction is acknowledged and gone, and the next one is not refused. -/
theorem gapRun_unreported :
    Behind (run (step plainDigest) (newState ()) gapRun) ∧
      ¬ Reports plainDigest (run (step plainDigest) (newState ()) gapRun) := by
  refine ⟨by decide +kernel, fun h => ?_⟩
  obtain ⟨e, he⟩ := h (plainInput 4)
  have hok : (prepare plainDigest (plainInput 4) (run (step plainDigest) (newState ()) gapRun).journal
      (run (step plainDigest) (newState ()) gapRun).db).2.toOption.isSome = true := by decide +kernel
  rw [he] at hok
  cases hok

end gap

end TokenProxy.Critical
