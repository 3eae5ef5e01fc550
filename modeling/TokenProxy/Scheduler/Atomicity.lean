import TokenProxy.Scheduler.SelectAndReserve

/-!
# A selection is atomic

Whatever throws, a call of `selectAndReserve` leaves exactly one lease more when it returns one and
the same leases otherwise; what it returns is what the stores say. The order is that of the code:
the transaction up to the walk writes no pin and no receipt (`prepare_ok`), the walk takes one lease
or none (`walk_some`, `walk_none`), and what follows writes the pin and its receipt together
(`settle_ok`).
-/

namespace TokenProxy.Admission

open TokenProxy.Lib

variable {st st' : LeaseSystem}

def LeaseSystem.liveLeases (st : LeaseSystem) : Int := st.issued.total Issued.units

theorem LeaseSystem.reserveAccount_some {c : String} {permit : Option (String × Nat)} {a : AnyLease}
    (hr : st.reserveAccount c permit = (st', some a)) :
    ∃ registry lease, a = .account lease ∧ st.registry.reserve st.capacityOf c = (registry, some lease) ∧
      st'.registry = registry ∧ st'.issued = st.issued.put { lease := a, permit } ∧
      st'.capacityByConnection = st.capacityByConnection := by
  unfold LeaseSystem.reserveAccount at hr
  split at hr
  · cases hr
  · rename_i registry lease hres
    cases hr
    exact ⟨registry, lease, rfl, hres, rfl, rfl, rfl⟩

/-- **A reservation that succeeds** hands out one live lease of the
connection, below its ceiling. -/
theorem LeaseInv.reserve_some (h : LeaseInv st) {c : String} {a : AnyLease}
    (hr : st.reserve c = (st', some a)) :
    c ≠ "" ∧ a.connection = some c ∧ (∃ i ∈ st'.issued.rows, i.lease = a ∧ i.released = false) ∧
      (∀ c', st'.inFlight c' = st.inFlight c' + if c' = c then 1 else 0) ∧
      st'.liveLeases = st.liveLeases + 1 ∧
      (∀ cap ∈ LeaseRegistry.gated (st.capacityOf c), st.inFlight c + 1 ≤ cap) ∧
      st'.capacityByConnection = st.capacityByConnection := by
  have haccount : ∃ (st₀ : LeaseSystem) (permit : Option (String × Nat)), st₀.reserveAccount c permit = (st', some a) ∧
      st₀.registry = st.registry ∧ st₀.issued = st.issued ∧ st₀.capacityByConnection = st.capacityByConnection := by
    unfold LeaseSystem.reserve at hr
    split at hr
    · exact ⟨_, _, hr, rfl, rfl, rfl⟩
    · split at hr
      · cases hr
      · exact ⟨_, _, hr, rfl, rfl, rfl⟩
  obtain ⟨st₀, permit, hacc, hreg, hiss, hcap⟩ := haccount
  obtain ⟨registry, lease, rfl, hres, hreg', hiss', hcap'⟩ := LeaseSystem.reserveAccount_some hacc
  have hcapOf : st₀.capacityOf = st.capacityOf := by
    funext c
    rw [LeaseSystem.capacityOf, hcap, LeaseSystem.capacityOf]
  rw [hreg, hcapOf] at hres
  obtain ⟨hconn, -, -, -, hset, hroom⟩ := LeaseRegistry.reserve_some st.capacityOf hres
  have hnew : st.issued.get? (.account lease) = none := (h.leases.issue_account hres permit).1
  have hne : c ≠ "" := by
    rintro rfl
    simp [LeaseRegistry.reserve] at hres
  refine ⟨hne, by rw [AnyLease.connection, hconn], ?_, ?_, ?_, hroom, hcap'.trans hcap⟩
  · rw [hiss', hiss]
    exact ⟨_, Table.mem_put_self _ _, rfl, rfl⟩
  · intro c'
    rw [LeaseSystem.inFlight, LeaseSystem.inFlight, hreg', LeaseRegistry.countOf, LeaseRegistry.countOf, hset]
    by_cases hc : c' = c
    · simp [hc]
    · simp [hc]
  · rw [LeaseSystem.liveLeases, hiss', hiss, Table.total_put_none _ hnew]
    rfl

theorem LeaseSystem.reserve_capacity (st : LeaseSystem) (c : String) :
    (st.reserve c).1.capacityByConnection = st.capacityByConnection := by
  have haccount : ∀ (st : LeaseSystem) permit,
      (st.reserveAccount c permit).1.capacityByConnection = st.capacityByConnection := by
    intro st permit
    unfold LeaseSystem.reserveAccount
    split
    · unfold LeaseSystem.releasePermit
      split <;> rfl
    · rfl
  unfold LeaseSystem.reserve
  split
  · exact haccount _ _
  · split
    · rfl
    · exact haccount _ _

/-- **A reservation that is refused** leaves the leases as they were. -/
theorem LeaseInv.reserve_none (h : LeaseInv st) {c : String} (hr : st.reserve c = (st', none)) :
    LeaseInv st' ∧ (∀ c', st'.inFlight c' = st.inFlight c') ∧ st'.liveLeases = st.liveLeases ∧
      st'.capacityByConnection = st.capacityByConnection := by
  have hinv := h.reserve c
  have hissued : (st.reserve c).1.issued = st.issued := reserve_refused (by rw [hr])
  have hcap := st.reserve_capacity c
  rw [hr] at hinv hissued hcap
  refine ⟨hinv, fun c' => ?_, ?_, hcap⟩
  · rw [hinv.inFlight_eq, h.inFlight_eq, hissued]
  · rw [LeaseSystem.liveLeases, hissued, LeaseSystem.liveLeases]

/-- **The release of a lease just taken** undoes its reservation. -/
theorem LeaseInv.release_live_counts (h : LeaseInv st) {i : Issued} (hi : i ∈ st.issued.rows)
    (hl : i.released = false) :
    (∀ c, (st.release i.lease).1.inFlight c + (if i.lease.connection = some c then 1 else 0) = st.inFlight c) ∧
      (st.release i.lease).1.liveLeases + 1 = st.liveLeases := by
  obtain ⟨-, hinv, hissued⟩ := h.release_live hi hl
  constructor
  · intro c
    rw [hinv.inFlight_eq, h.inFlight_eq, hissued]
    exact liveOn_giveBack hi hl c
  · have hget : st.issued.get? i.lease = some i := Table.get?_of_mem hi
    have ht := Table.total_put_some (t := st.issued) (r := { i with released := true }) Issued.units hget
    rw [LeaseSystem.liveLeases, hissued, LeaseSystem.liveLeases]
    simp only [Issued.units, hl, if_true, Bool.false_eq_true, if_false] at ht ⊢
    omega

end TokenProxy.Admission

namespace TokenProxy.Scheduler

open TokenProxy.Lib TokenProxy.Admission

variable {α : Type} {policy : Policy α} {leases : LeaseSystem} {db db' : SchedulerDb} {input : Input α}
  {faults : Faults}

/-! ## The parts of the transaction -/

def previousPin (db : SchedulerDb) (input : Input α) : Option String :=
  (db.getPin input.now input.sessionHash input.model).map Pin.connectionId

theorem getPin_congr {db db' : SchedulerDb} (h : db'.pins = db.pins) (now : Int) (s m : String) :
    db'.getPin now s m = db.getPin now s m := by
  simp only [SchedulerDb.getPin, SchedulerDb.pinRow, h]

theorem prepare_ok {p : Prepared α} (h : prepare policy leases input faults db = .ok (db', p)) :
    db'.pins = db.pins ∧ db'.switches = db.switches ∧
      ∀ plan prev action, p = .walk plan prev action → prev = previousPin db input := by
  have hpins := SchedulerDb.getPendingPinAction_pins db input.now input.sessionHash input.model policy.hash
  unfold prepare at h
  obtain ⟨-, -, h⟩ := bind_ok h
  simp only at h
  generalize db.getPendingPinAction policy.hash input.now input.sessionHash input.model = x at h hpins
  obtain ⟨db₁, pending⟩ := x
  simp only at h hpins
  split at h
  · cases h
    exact ⟨hpins.1, hpins.2, fun _ _ _ hp => by cases hp⟩
  split at h
  · cases h
    exact ⟨hpins.1, hpins.2, fun _ _ _ hp => by cases hp⟩
  obtain ⟨-, -, h⟩ := bind_ok h
  obtain ⟨-, -, h⟩ := bind_ok h
  split at h
  · cases h
    exact ⟨hpins.1, hpins.2, fun _ _ _ hp => by cases hp⟩
  · cases h
    refine ⟨hpins.1, hpins.2, fun plan prev action hp => ?_⟩
    cases hp
    rw [previousPin, getPin_congr hpins.1]

theorem walk_some (h : LeaseInv leases) {order : List (Candidate α)}
    {skipped skipped' : List String}
    {leases' : LeaseSystem} {record : Candidate α} {lease : AnyLease}
    (hw : walk leases skipped order = (leases', some (record, lease), skipped')) :
    LeaseInv leases' ∧ record.id ≠ "" ∧ lease.connection = some record.id ∧
      (∃ i ∈ leases'.issued.rows, i.lease = lease ∧ i.released = false) ∧
      (∀ c, leases'.inFlight c = leases.inFlight c + if c = record.id then 1 else 0) ∧
      leases'.liveLeases = leases.liveLeases + 1 ∧
      (∀ cap ∈ LeaseRegistry.gated (leases.capacityOf record.id), leases.inFlight record.id + 1 ≤ cap) ∧
      leases'.capacityByConnection = leases.capacityByConnection := by
  induction order generalizing leases skipped with
  | nil => cases hw
  | cons c rest ih =>
    unfold walk at hw
    split at hw
    · rename_i st' a hr
      cases hw
      have hinv := h.reserve record.id
      rw [hr] at hinv
      exact ⟨hinv, h.reserve_some hr⟩
    · rename_i st' hr
      obtain ⟨hinv, hcount, hlive, hcap⟩ := h.reserve_none hr
      obtain ⟨h1, h2, h3, h4, h5, h6, h7, h8⟩ := ih hinv hw
      refine ⟨h1, h2, h3, h4, fun c' => by rw [h5, hcount], by rw [h6, hlive], ?_, h8.trans hcap⟩
      intro cap hgate
      rw [← hcount]
      refine h7 cap ?_
      rwa [LeaseSystem.capacityOf, hcap]

theorem walk_none (h : LeaseInv leases) {order : List (Candidate α)}
    {skipped skipped' : List String}
    {leases' : LeaseSystem} (hw : walk leases skipped order = (leases', none, skipped')) :
    LeaseInv leases' ∧ (∀ c, leases'.inFlight c = leases.inFlight c) ∧ leases'.liveLeases = leases.liveLeases ∧
      leases'.capacityByConnection = leases.capacityByConnection := by
  induction order generalizing leases skipped with
  | nil =>
    cases hw
    exact ⟨h, fun _ => rfl, rfl, rfl⟩
  | cons c rest ih =>
    unfold walk at hw
    split at hw
    · cases hw
    · rename_i st' hr
      obtain ⟨hinv, hcount, hlive, hcap⟩ := h.reserve_none hr
      obtain ⟨h1, h2, h3, h4⟩ := ih hinv hw
      exact ⟨h1, fun c' => by rw [h2, hcount], by rw [h3, hlive], h4.trans hcap⟩

def movedRow (policy : Policy α) (input : Input α) (plan : Plan α) (prev : Option String)
    (action : Option PinAction) (record : Candidate α) : SwitchRow :=
  (buildSwitchReceipt policy input plan prev action record).row input.uuid

theorem map_ok {ε β γ : Type} {x : Except ε β} {f : β → γ} {c : γ}
    (h : x.map f = .ok c) : ∃ b, x = .ok b ∧ c = f b := by
  cases x with
  | error e => cases h
  | ok b => cases h; exact ⟨b, rfl, rfl⟩

theorem writePin_ok {prev : Option String} {record : Candidate α} (hid : record.id ≠ "")
    (hprev : prev = previousPin db input) (h : writePin input faults prev record db = .ok db') :
    (db'.pinRow input.sessionHash input.model).map PinRow.connectionId = some record.id ∧
      db'.switches = db.switches := by
  unfold writePin at h
  split at h
  · obtain ⟨-, -, rfl⟩ := map_ok h
    exact ⟨SchedulerDb.setPin_pinRow _ _ input.sessionHash_ne input.model_ne hid,
      SchedulerDb.setPin_switches _ _ _ _ _⟩
  · rename_i hsame
    obtain ⟨-, -, rfl⟩ := map_ok h
    refine ⟨?_, SchedulerDb.touchPin_switches _ _ _ _⟩
    -- the pin that is reused names the account already
    rw [Moves, not_not, hprev, previousPin, Option.map_eq_some_iff] at hsame
    obtain ⟨pin, hget, hconn⟩ := hsame
    rw [SchedulerDb.touchPin_pinRow, SchedulerDb.pinRow_of_getPin _ _ hget, hconn]

theorem writeReceipt_ok {plan : Plan α} {prev : Option String} {action : Option PinAction}
    {record : Candidate α} {receipt : Option Receipt} (hid : record.id ≠ "")
    (h : writeReceipt policy input faults plan prev action record db = .ok (db', receipt)) :
    db'.pins = db.pins ∧
      db'.switches = db.switches ++ (if Moves prev record then [movedRow policy input plan prev action record] else []) ∧
      (receipt.isSome ↔ Moves prev record) := by
  unfold writeReceipt at h
  split at h
  · rename_i hmoves
    obtain ⟨-, -, he⟩ := map_ok h
    cases he
    refine ⟨SchedulerDb.recordSwitch_pins _ _, ?_, by simp [hmoves]⟩
    rw [if_pos hmoves]
    have hrow : ¬ ((movedRow policy input plan prev action record).sessionHash = "" ∨
        (movedRow policy input plan prev action record).model = "" ∨
        (movedRow policy input plan prev action record).toConnectionId = "") := by
      simp [movedRow, Receipt.row, buildSwitchReceipt, input.sessionHash_ne, input.model_ne, hid]
    show (db.recordSwitch (movedRow policy input plan prev action record)).switches = _
    unfold SchedulerDb.recordSwitch
    rw [if_neg hrow]
  · rename_i hsame
    cases h
    exact ⟨rfl, by rw [if_neg hsame, List.append_nil], by simp [hsame]⟩

theorem writeCommand_ok {action : Option PinAction}
    (h : writeCommand input faults action db = .ok db') :
    db'.pins = db.pins ∧ db'.switches = db.switches := by
  unfold writeCommand at h
  split at h
  · obtain ⟨-, -, rfl⟩ := map_ok h
    exact SchedulerDb.completePinAction_pins _ _ _
  · cases h
    exact ⟨rfl, rfl⟩

/-- After the walk the pin names the account, and a receipt is written
just when it did not before. -/
theorem settle_ok {plan : Plan α} {prev : Option String} {action : Option PinAction}
    {record : Candidate α}
    {receipt : Option Receipt} {reason : String} (hid : record.id ≠ "") (hprev : prev = previousPin db input)
    (h : settle policy input faults plan prev action record db = .ok (db', receipt, reason)) :
    (db'.pinRow input.sessionHash input.model).map PinRow.connectionId = some record.id ∧
      db'.switches = db.switches ++ (if Moves prev record then [movedRow policy input plan prev action record] else []) ∧
      (receipt.isSome ↔ Moves prev record) := by
  unfold settle at h
  obtain ⟨db₁, h₁, h⟩ := bind_ok h
  obtain ⟨⟨db₂, receipt₂⟩, h₂, h⟩ := bind_ok h
  obtain ⟨db₃, h₃, h⟩ := bind_ok h
  cases h
  obtain ⟨hpin, hswitches⟩ := writePin_ok hid hprev h₁
  obtain ⟨hpins₂, hswitches₂, hreceipt⟩ := writeReceipt_ok hid h₂
  obtain ⟨hpins₃, hswitches₃⟩ := writeCommand_ok h₃
  refine ⟨?_, ?_, hreceipt⟩
  · rw [SchedulerDb.pinRow, hpins₃, hpins₂]
    exact hpin
  · rw [hswitches₃, hswitches₂, hswitches]

/-! ## One call -/

/-- What one call guarantees about the leases, the pins and the receipts, whatever threw. -/
structure Atomic (leases : LeaseSystem) (db : SchedulerDb) (input : Input α)
    (r : Result α) : Prop where
  /-- One live lease more if and only if one is returned, on the account it is of. -/
  live : r.leases.liveLeases = leases.liveLeases + if r.outcome.lease.isSome then 1 else 0
  inFlight : ∀ c, r.leases.inFlight c = leases.inFlight c + if (r.outcome.lease.bind AnyLease.connection) = some c then 1 else 0
  /-- The lease returned is of the chosen account, and the stored pin names that account. -/
  selected : ∀ s, r.outcome = .selected s →
    s.lease.connection = some s.connection.id ∧ Live r.leases.issued s.lease ∧
      (r.db.pinRow input.sessionHash input.model).map PinRow.connectionId = some s.connection.id
  /-- A receipt is written if and only if the pin was created or changed. -/
  receipt : ∀ s, r.outcome = .selected s →
    (Moves (previousPin db input) s.connection → s.receipt.isSome ∧ ∃ row : SwitchRow, r.db.switches = db.switches ++ [row] ∧
      row.fromConnectionId = previousPin db input ∧ row.toConnectionId = s.connection.id) ∧
    (¬ Moves (previousPin db input) s.connection → s.receipt = none ∧ r.db.switches = db.switches)
  /-- A refusal leaves every pin and every receipt. -/
  refused : ∀ u, r.outcome = .unavailable u → r.db.pins = db.pins ∧ r.db.switches = db.switches
  threw : ∀ e, r.outcome = .threw e → r.db = db

theorem Atomic.of_none {r : Result α} (hlive : r.leases.liveLeases = leases.liveLeases)
    (hcount : ∀ c, r.leases.inFlight c = leases.inFlight c) (hnone : ∀ s, r.outcome ≠ .selected s)
    (hrefused : ∀ u, r.outcome = .unavailable u → r.db.pins = db.pins ∧ r.db.switches = db.switches)
    (hthrew : ∀ e, r.outcome = .threw e → r.db = db) : Atomic leases db input r := by
  have hlease : r.outcome.lease = none := by
    cases ho : r.outcome with
    | selected s => exact absurd ho (hnone s)
    | unavailable u => rfl
    | threw e => rfl
  refine ⟨?_, fun c => ?_, fun s hs => absurd hs (hnone s), fun s hs => absurd hs (hnone s), hrefused, hthrew⟩
  · rw [hlease, hlive]; simp
  · rw [hlease, hcount]; simp

theorem refuse_atomic {leases' : LeaseSystem} (hlive : leases'.liveLeases = leases.liveLeases)
    (hcount : ∀ c, leases'.inFlight c = leases.inFlight c) (hpins : db'.pins = db.pins)
    (hswitches : db'.switches = db.switches) (u : Unavailable) (commit : Option String) :
    Atomic leases db input (match transaction (fun _ => .ok (db', u)) commit db with
      | (db, .ok u) => { db, leases := leases', outcome := .unavailable u }
      | (db, .error e) => { db, leases := leases', outcome := .threw e } : Result α) := by
  cases commit with
  | none =>
    exact Atomic.of_none hlive hcount (fun s hs => by cases hs) (fun u hu => ⟨hpins, hswitches⟩) (fun e he => by cases he)
  | some e =>
    exact Atomic.of_none hlive hcount (fun s hs => by cases hs) (fun u hu => by cases hu) (fun e he => rfl)

/-- After a slot was taken: the lease is returned with its pin and
receipt written, or given back. -/
theorem settle_atomic {leases' : LeaseSystem} {plan : Plan α} {action : Option PinAction}
    {record : Candidate α}
    {lease : AnyLease} (hinv : LeaseInv leases') (hid : record.id ≠ "") (hconn : lease.connection = some record.id)
    (hissued : ∃ i ∈ leases'.issued.rows, i.lease = lease ∧ i.released = false)
    (hcount : ∀ c, leases'.inFlight c = leases.inFlight c + if c = record.id then 1 else 0)
    (hlive : leases'.liveLeases = leases.liveLeases + 1) (hpins : db'.pins = db.pins)
    (hswitches : db'.switches = db.switches) (skipped : List String) :
    let r : Result α :=
      match transaction (fun _ => settle policy input faults plan (previousPin db input) action record db') faults.commit
        db with
      | (db, .ok (receipt, reason)) =>
        { db, leases := leases', outcome := .selected { connection := record, lease, receipt, reason, skipped } }
      | (db, .error e) => { db, leases := (leases'.release lease).1, outcome := .threw e }
    LeaseInv r.leases ∧ Atomic leases db input r := by
  obtain ⟨i, hi, rfl, hl⟩ := hissued
  -- what is left when anything after the reservation throws
  have hthrown : ∀ e, LeaseInv (leases'.release i.lease).1 ∧
      Atomic leases db input { db, leases := (leases'.release i.lease).1, outcome := .threw e } := by
    intro e
    obtain ⟨hback, hliveBack⟩ := hinv.release_live_counts hi hl
    refine ⟨hinv.release _, Atomic.of_none (by simp only; omega) (fun c => ?_) (fun s hs => by cases hs)
      (fun u hu => by cases hu) (fun e he => rfl)⟩
    have := hback c
    have := hcount c
    simp only [hconn, Option.some.injEq, eq_comm (a := record.id)] at *
    omega
  intro r
  cases hsettle : settle policy input faults plan (previousPin db input) action record db' with
  | error e =>
    have hr : r = { db, leases := (leases'.release i.lease).1, outcome := .threw e } := by
      simp only [r, transaction, hsettle]
    rw [hr]
    exact hthrown e
  | ok out =>
    obtain ⟨db₁, receipt, reason⟩ := out
    cases hcommit : faults.commit with
    | some e =>
      have hr : r = { db, leases := (leases'.release i.lease).1, outcome := .threw e } := by
        simp only [r, transaction, hsettle, hcommit]
      rw [hr]
      exact hthrown e
    | none =>
      let chosen : Selection α := { connection := record, lease := i.lease, receipt, reason, skipped }
      have hr : r = { db := db₁, leases := leases', outcome := .selected chosen } := by
        simp only [r, transaction, hsettle, hcommit, chosen]
      have hprev : previousPin db input = previousPin db' input := by
        rw [previousPin, previousPin, getPin_congr hpins]
      obtain ⟨hpin, hrows, hreceipt⟩ := settle_ok hid hprev hsettle
      rw [hr]
      refine ⟨hinv, ?_, fun c => ?_, fun s hs => ?_, fun s hs => ?_, fun u hu => (by cases hu), fun e he => (by cases he)⟩
      · rw [hlive]; rfl
      · show leases'.inFlight c = leases.inFlight c + if i.lease.connection = some c then 1 else 0
        rw [hcount]
        by_cases hc : c = record.id
        · simp [hc, hconn]
        · simp [hc, hconn, Ne.symm hc]
      · cases hs
        exact ⟨hconn, ⟨i, hi, rfl, hl⟩, hpin⟩
      · cases hs
        rw [hswitches] at hrows
        constructor
        · intro hmoves
          rw [if_pos hmoves] at hrows
          exact ⟨hreceipt.2 hmoves, _, hrows, rfl, rfl⟩
        · intro hsame
          rw [if_neg hsame, List.append_nil] at hrows
          exact ⟨Option.not_isSome_iff_eq_none.1 fun hsome => hsame (hreceipt.1 hsome), hrows⟩

/-- **One call is atomic**, whatever it is given and whatever throws. -/
theorem selectAndReserve_spec (h : LeaseInv leases) (policy : Policy α) (db : SchedulerDb)
    (input : Input α) (faults : Faults) :
    LeaseInv (selectAndReserve policy leases db input faults).leases ∧
      Atomic leases db input (selectAndReserve policy leases db input faults) := by
  unfold selectAndReserve
  split
  · exact ⟨h, Atomic.of_none rfl (fun _ => rfl) (fun s hs => by cases hs) (fun u hu => by cases hu) fun e he => rfl⟩
  · rename_i db' u hp
    obtain ⟨hpins, hswitches, -⟩ := prepare_ok hp
    refine ⟨?_, refuse_atomic rfl (fun _ => rfl) hpins hswitches u faults.commit⟩
    split <;> exact h
  · rename_i db' plan prev action hp
    obtain ⟨hpins, hswitches, hprev⟩ := prepare_ok hp
    obtain rfl := hprev plan prev action rfl
    split
    · rename_i leases' skipped hw
      obtain ⟨hinv, hcount, hlive, -⟩ := walk_none h hw
      refine ⟨?_, refuse_atomic hlive hcount hpins hswitches _ faults.commit⟩
      split <;> exact hinv
    · rename_i leases' record lease skipped hw
      obtain ⟨hinv, hid, hconn, hissued, hcount, hlive, -⟩ := walk_some h hw
      exact settle_atomic hinv hid hconn hissued hcount hlive hpins hswitches skipped

/-! ## Runs -/

structure SchedulerState where
  db : SchedulerDb
  leases : LeaseSystem

/-- What requests do: select, and give a lease back. Between them anyone may write the store. -/
inductive RequestOp (α : Type)
  | select (input : Input α) (faults : Faults)
  | release (lease : AnyLease)
  | store (db : SchedulerDb)

def requestStep (policy : Policy α) (st : SchedulerState) : RequestOp α → SchedulerState
  | .select input faults =>
    let r := selectAndReserve policy st.leases st.db input faults
    { db := r.db, leases := r.leases }
  | .release lease => { st with leases := (st.leases.release lease).1 }
  | .store db => { st with db }

inductive SchedulerOp (α : Type)
  | request (op : RequestOp α)
  | lease (op : LeaseOp)

def schedulerStep (policy : Policy α) (st : SchedulerState) : SchedulerOp α → SchedulerState
  | .request op => requestStep policy st op
  | .lease op => { st with leases := leaseStep st.leases op }

theorem requestStep_inv {st : SchedulerState} (h : LeaseInv st.leases) (policy : Policy α)
    (op : RequestOp α) :
    LeaseInv (requestStep policy st op).leases := by
  cases op with
  | select input faults => exact (selectAndReserve_spec h policy st.db input faults).1
  | release lease => exact h.release lease
  | store db => exact h

theorem schedulerStep_inv {st : SchedulerState} (h : LeaseInv st.leases) (policy : Policy α)
    (op : SchedulerOp α) :
    LeaseInv (schedulerStep policy st op).leases := by
  cases op with
  | request op => exact requestStep_inv h policy op
  | lease op => exact h.step op

/-! ### Capacity -/

def WithinCapacity (leases : LeaseSystem) : Prop :=
  ∀ c, ∀ cap ∈ LeaseRegistry.gated (leases.capacityOf c), leases.inFlight c ≤ cap

theorem release_counts (h : LeaseInv leases) (a : AnyLease) :
    (∀ c, (leases.release a).1.inFlight c ≤ leases.inFlight c) ∧
      (leases.release a).1.capacityByConnection = leases.capacityByConnection := by
  constructor
  · intro c
    by_cases ha : Live leases.issued a
    · obtain ⟨i, hi, rfl, hl⟩ := ha
      have := (h.release_live_counts hi hl).1 c
      split at this <;> omega
    · rw [(h.release_dead ha).2]
  · by_cases ha : Live leases.issued a
    · obtain ⟨i, hi, rfl, hl⟩ := ha
      obtain ⟨registry, only, hfree, -⟩ := h.freeLease_live hi hl
      simp only [LeaseSystem.release, hfree, if_true]
      rfl
    · rw [(h.release_dead ha).2]

theorem selectAndReserve_capacity (h : LeaseInv leases) (hcap : WithinCapacity leases)
    (policy : Policy α) (db : SchedulerDb) (input : Input α) (faults : Faults) :
    WithinCapacity (selectAndReserve policy leases db input faults).leases ∧
      (selectAndReserve policy leases db input faults).leases.capacityByConnection = leases.capacityByConnection := by
  -- fewer leases under the same capacities stay within them
  have hless : ∀ leases' : LeaseSystem, (∀ c, leases'.inFlight c ≤ leases.inFlight c) →
      leases'.capacityByConnection = leases.capacityByConnection → WithinCapacity leases' := by
    intro leases' hcount hsame c cap hgate
    rw [LeaseSystem.capacityOf, hsame] at hgate
    have := hcap c cap hgate
    have := hcount c
    omega
  unfold selectAndReserve
  split
  · exact ⟨hcap, rfl⟩
  · split <;> exact ⟨hcap, rfl⟩
  · split
    · rename_i leases' skipped hw
      obtain ⟨-, hcount, -, hsame⟩ := walk_none h hw
      have hwithin := hless leases' (fun c => (hcount c).le) hsame
      split <;> exact ⟨hwithin, hsame⟩
    · rename_i leases' record lease skipped hw
      obtain ⟨hinv, -, hconn, ⟨i, hi, rfl, hl⟩, hcount, -, hroom, hsame⟩ := walk_some h hw
      split
      · refine ⟨fun c cap hgate => ?_, hsame⟩
        rw [LeaseSystem.capacityOf, hsame] at hgate
        rw [hcount]
        by_cases hc : c = record.id
        · rw [if_pos hc, hc]
          exact hroom cap (hc ▸ hgate)
        · rw [if_neg hc, add_zero]
          exact hcap c cap hgate
      · obtain ⟨hback, -⟩ := hinv.release_live_counts hi hl
        have hsame' := (release_counts hinv i.lease).2.trans hsame
        refine ⟨hless _ (fun c => ?_) hsame', hsame'⟩
        show (leases'.release i.lease).1.inFlight c ≤ leases.inFlight c
        have h1 := hback c
        have h2 := hcount c
        rw [hconn] at h1
        by_cases hc : c = record.id
        · subst hc
          simp only [if_true] at h1 h2
          omega
        · simp only [Option.some.injEq, if_neg (Ne.symm hc), if_neg hc] at h1 h2
          omega

theorem requestStep_capacity {st : SchedulerState} (h : LeaseInv st.leases)
    (hcap : WithinCapacity st.leases) (policy : Policy α) (op : RequestOp α) :
    WithinCapacity (requestStep policy st op).leases := by
  cases op with
  | select input faults => exact (selectAndReserve_capacity h hcap policy st.db input faults).1
  | release lease =>
    obtain ⟨hcount, hsame⟩ := release_counts h lease
    intro c cap hgate
    change cap ∈ LeaseRegistry.gated ((st.leases.release lease).1.capacityOf c) at hgate
    rw [LeaseSystem.capacityOf, hsame] at hgate
    exact le_trans (hcount c) (hcap c cap hgate)
  | store db => exact hcap

/-- The capacity, and the provider, that an account is registered with. -/
structure Registration where
  connectionId : String
  limit : Option Int
  provider : Option String
  limitOfProvider : Option Int

def Registration.register (st : LeaseSystem) (r : Registration) : LeaseSystem :=
  st.registerAccountCapacity r.connectionId r.limit r.provider r.limitOfProvider

/-- **`selectAndReserve` is atomic and consistent with its stores**: in every reachable state of the
leases, for every store, input and fault. And when the accounts' capacities are registered, no
interleaving of selections and releases takes an account past its capacity. -/
theorem selectAndReserve_atomic (policy : Policy α) (clock : Nat → Int)
    (admission : AdmissionPolicy) (db₀ : SchedulerDb) :
    (∀ (ops : List (SchedulerOp α)) (db : SchedulerDb) (input : Input α) (faults : Faults),
      let leases := (run (schedulerStep policy) ⟨db₀, createLeaseSystem clock admission⟩ ops).leases
      Atomic leases db input (selectAndReserve policy leases db input faults)) ∧
    ∀ (accounts : List Registration) (ops : List (RequestOp α)),
      let leases := run Registration.register (createLeaseSystem clock admission) accounts
      WithinCapacity (run (requestStep policy) ⟨db₀, leases⟩ ops).leases := by
  have hinit := leaseInv_createLeaseSystem clock admission
  constructor
  · intro ops db input faults leases
    have h : LeaseInv leases := run_inv (I := fun st : SchedulerState => LeaseInv st.leases)
      (fun st op hs => schedulerStep_inv hs policy op) hinit
    exact (selectAndReserve_spec h policy db input faults).2
  · intro accounts ops leases
    -- registering accounts takes no lease
    have hreg : LeaseInv leases ∧ ∀ c, leases.inFlight c = 0 :=
      run_inv (I := fun st : LeaseSystem => LeaseInv st ∧ ∀ c, st.inFlight c = 0)
        (fun st r hs => ⟨hs.1.step (.registerAccountCapacity r.connectionId r.limit r.provider r.limitOfProvider), hs.2⟩)
        ⟨hinit, fun _ => rfl⟩
    have hcap : WithinCapacity leases := by
      intro c cap hgate
      rw [hreg.2]
      unfold LeaseRegistry.gated at hgate
      split at hgate
      · split at hgate
        · cases hgate
          omega
        · cases hgate
      · cases hgate
    exact (run_inv (I := fun st : SchedulerState => LeaseInv st.leases ∧ WithinCapacity st.leases)
      (fun st op hs => ⟨requestStep_inv hs.1 policy op, requestStep_capacity hs.1 hs.2 policy op⟩) ⟨hreg.1, hcap⟩).2

end TokenProxy.Scheduler
