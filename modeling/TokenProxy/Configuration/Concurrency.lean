import TokenProxy.Configuration.Publication
import TokenProxy.Lib.Run

/-!
# Optimistic concurrency of the configuration

Every step of every operation has one of a few effects on the database (`Effect`, `step_effect`): it
notes a receipt, revises a draft, applies its operation, or does nothing. From this alone:

* an operation that carries an `expectedCurrent` is applied only to a configuration with that hash;
* an operation that throws has changed neither the configuration nor its history nor anything else
  in the store;
* the receipts of the applied operations are a chain from hash to hash (`Linked`), one for each
  operation.

A direct save carries no `expectedCurrent`: it is applied to whatever it finds.
-/

namespace TokenProxy.Configuration

open TokenProxy.Lib

variable {σ δ : Type} {repo : Repository σ δ}

/-! ### Receipts -/

/-- The receipt that a transaction writes which applies its operation. -/
def Receipt.applies (r : Receipt) : Bool :=
  match r.action, r.details with
  | .directSave, _ => true
  | .draftCreated, _ => true
  | .draftRevised, _ => false
  | .validate, _ => false
  | .activate, .publication .pending => true
  | .rollback, .publication .pending => true
  | .activate, _ => false
  | .rollback, _ => false

def Database.applied (db : Database σ δ) : List Receipt := db.receipts.filter Receipt.applies

/-- The receipts lead from one hash to another, each from where the one before ends. -/
def Linked : Option String → List Receipt → Option String → Prop
  | h, [], h' => h = h'
  | h, r :: rs, h' => r.beforeHash = h ∧ Linked r.afterHash rs h'

theorem Linked.append {rs rs' : List Receipt} {a b c : Option String} (h : Linked a rs b)
    (h' : Linked b rs' c) :
    Linked a (rs ++ rs') c := by
  induction rs generalizing a with
  | nil =>
    obtain rfl : a = b := h
    exact h'
  | cons r rs ih => exact ⟨h.1, ih h.2⟩

/-- One receipt more, and whether it is that of an applied operation. -/
structure Appends (db db' : Database σ δ) (r : Receipt) : Prop where
  receipts : db'.receipts = db.receipts ++ [r]

theorem Appends.applied {db db' : Database σ δ} {r : Receipt} (h : Appends db db' r) :
    db'.applied = db.applied ++ if r.applies then [r] else [] := by
  rw [Database.applied, h.receipts, List.filter_append, List.filter_singleton, Database.applied]
  cases r.applies <;> rfl

/-! ### The transactions -/

structure Notes (db db' : Database σ δ) (r : Receipt) : Prop extends Appends db db' r where
  store : db'.store = db.store
  versions : db'.versions = db.versions
  drafts : db'.drafts = db.drafts
  other : r.applies = false

structure Revises (db db' : Database σ δ) (r : Receipt) : Prop extends Appends db db' r where
  store : db'.store = db.store
  other : r.applies = false

/-- A transaction that applies operation `o`. -/
structure Commits (repo : Repository σ δ) (o : Nat) (db db' : Database σ δ) (r : Receipt) : Prop
    extends Appends db db' r where
  applies : r.applies = true
  operation : r.operationId = o
  before : r.beforeHash = repo.currentHash db.store
  after : r.afterHash = repo.currentHash db'.store

section helpers

variable {db db' : Database σ δ} {version : Version δ} {fault : Bool}

theorem appendConfigReceipt_ok {fields : ReceiptFields} {r : Receipt}
    (h : appendConfigReceipt db fields fault = .ok (db', r)) :
    db' = { db with receipts := db.receipts ++ [r] } ∧
      r.toReceiptFields = { fields with provenance := configProvenance fields.provenance } := by
  obtain ⟨-, -, h⟩ := bind_ok h
  cases h
  exact ⟨rfl, rfl⟩

theorem insertConfigVersion_ok {document : δ} {options : VersionOptions}
    (h : insertConfigVersion repo db document options fault = .ok (db', version)) :
    db' = { db with versions := db.versions ++ [version] } ∧ version.contentHash = repo.configHash document := by
  obtain ⟨-, -, h⟩ := bind_ok h
  obtain ⟨-, -, h⟩ := bind_ok h
  cases h
  exact ⟨rfl, rfl⟩

theorem snapshotCurrent_ok {document : δ} {provenance : Provenance}
    (h : snapshotCurrent repo db document provenance fault = .ok (db', version)) :
    (∃ versions, db' = { db with versions }) ∧ version.contentHash = repo.configHash document := by
  unfold snapshotCurrent at h
  split at h
  · rename_i old hold
    cases h
    have hmem := List.mem_of_getLast? hold
    rw [List.mem_filter, decide_eq_true_eq] at hmem
    exact ⟨⟨_, rfl⟩, hmem.2.1⟩
  · obtain ⟨rfl, hhash⟩ := insertConfigVersion_ok h
    exact ⟨⟨_, rfl⟩, hhash⟩

theorem currentHash_of_read {document : δ} {store : σ} (h : repo.read store = .ok document) :
    repo.currentHash store = some (repo.configHash document) := by
  rw [Repository.currentHash, h]
  rfl

theorem checkCurrent_ok {expectedCurrent : String} {document : δ}
    (h : checkCurrent repo db expectedCurrent = .ok document) :
    repo.configHash document = expectedCurrent ∧ repo.currentHash db.store = some expectedCurrent := by
  obtain ⟨document', hread, h⟩ := bind_ok h
  obtain ⟨⟨⟩, hreq, h⟩ := bind_ok h
  have hhash := require_ok hreq
  cases h
  exact ⟨hhash, by rw [currentHash_of_read hread, hhash]⟩

end helpers

section bodies

variable {db db' : Database σ δ} {request : PublishRequest} {target : Version δ} {o : Nat} {faults : WriteFaults}

theorem stage_ok {r : Receipt} (h : stage repo request o faults db = .ok (db', target, r)) :
    Notes db db' r := by
  obtain ⟨before, -, h⟩ := bind_ok h
  obtain ⟨target', -, h⟩ := bind_ok h
  obtain ⟨⟨db₁, r'⟩, happend, h⟩ := bind_ok h
  obtain ⟨rfl, hfields⟩ := appendConfigReceipt_ok happend
  cases h
  refine ⟨⟨rfl⟩, rfl, rfl, rfl, ?_⟩
  cases hp : request.publish <;> simp [Receipt.applies, hfields, hp, Publish.action]

theorem reportFailure_ok {staged : Receipt} {error : Thrown} {fault : Bool}
    {thrown : ConfigurationError}
    (h : reportFailure repo request target staged o error fault db = .ok (db', thrown)) :
    ∃ r, Notes db db' r := by
  obtain ⟨current, -, h⟩ := bind_ok h
  obtain ⟨⟨db₁, r⟩, happend, h⟩ := bind_ok h
  obtain ⟨rfl, hfields⟩ := appendConfigReceipt_ok happend
  cases h
  refine ⟨r, ⟨rfl⟩, rfl, rfl, rfl, ?_⟩
  cases hp : request.publish <;> simp [Receipt.applies, hfields, hp, Publish.action]

theorem finalize_ok {applied : Applied δ} {refreshed fault : Bool} {r : Receipt}
    (h : finalize request target applied o refreshed fault db = .ok (db', r)) : Notes db db' r := by
  obtain ⟨rfl, hfields⟩ := appendConfigReceipt_ok h
  refine ⟨⟨rfl⟩, rfl, rfl, rfl, ?_⟩
  cases hp : request.publish <;> cases refreshed <;> simp [Receipt.applies, hfields, hp, Publish.action]

theorem validateDraft_ok {id expectedRevision : Nat} {result : Validation}
    (h : validateDraft repo id expectedRevision o faults db = .ok (db', result)) :
    ∃ r, Notes db db' r := by
  obtain ⟨draft, -, h⟩ := bind_ok h
  split at h
  · cases h
  · obtain ⟨result', -, h⟩ := bind_ok h
    obtain ⟨current, -, h⟩ := bind_ok h
    obtain ⟨⟨db₁, r⟩, happend, h⟩ := bind_ok h
    obtain ⟨rfl, hfields⟩ := appendConfigReceipt_ok happend
    cases h
    exact ⟨r, ⟨rfl⟩, rfl, rfl, rfl, by simp [Receipt.applies, hfields]⟩

theorem reviseDraft_ok {id expectedRevision : Nat} {projected : δ} {draft : Draft}
    (h : reviseDraft repo id projected expectedRevision o faults db = .ok (db', draft)) :
    ∃ r, Revises db db' r := by
  obtain ⟨draft', -, h⟩ := bind_ok h
  obtain ⟨⟨db₁, version⟩, hinsert, h⟩ := bind_ok h
  obtain ⟨rfl, -⟩ := insertConfigVersion_ok hinsert
  obtain ⟨-, -, h⟩ := bind_ok h
  obtain ⟨⟨db₂, r⟩, happend, h⟩ := bind_ok h
  obtain ⟨rfl, hfields⟩ := appendConfigReceipt_ok happend
  cases h
  exact ⟨r, ⟨rfl⟩, rfl, by simp [Receipt.applies, hfields]⟩

/-- **The second transaction** applies a publication to a configuration with the hash it expects. -/
theorem apply_ok {applied : Applied δ} (h : apply repo request target o faults db = .ok (db', applied)) :
    repo.currentHash db.store = some request.expectedCurrent ∧ Commits repo o db db' applied.receipt := by
  obtain ⟨before, hcheck, h⟩ := bind_ok h
  obtain ⟨hbefore, hcurrent⟩ := checkCurrent_ok hcheck
  obtain ⟨-, -, h⟩ := bind_ok h
  obtain ⟨result, -, h⟩ := bind_ok h
  obtain ⟨-, -, h⟩ := bind_ok h
  obtain ⟨⟨db₁, parent⟩, hsnapshot, h⟩ := bind_ok h
  obtain ⟨⟨versions, rfl⟩, hparent⟩ := snapshotCurrent_ok hsnapshot
  obtain ⟨-, -, h⟩ := bind_ok h
  obtain ⟨store, -, h⟩ := bind_ok h
  obtain ⟨after, hread, h⟩ := bind_ok h
  obtain ⟨-, -, h⟩ := bind_ok h
  obtain ⟨⟨db₂, published⟩, hinsert, h⟩ := bind_ok h
  obtain ⟨rfl, hpublished⟩ := insertConfigVersion_ok hinsert
  obtain ⟨⟨db₃, r⟩, happend, h⟩ := bind_ok h
  obtain ⟨rfl, hfields⟩ := appendConfigReceipt_ok happend
  cases h
  refine ⟨hcurrent, ⟨⟨rfl⟩, ?_, ?_, ?_, ?_⟩⟩
  · cases hp : request.publish <;> simp [Receipt.applies, hfields, hp, Publish.action]
  · simp [hfields]
  · rw [hcurrent, hfields]
    show some parent.contentHash = some request.expectedCurrent
    rw [hparent, hbefore]
  · rw [hfields]
    show some published.contentHash = repo.currentHash store
    rw [hpublished, currentHash_of_read hread]

theorem createDraft_ok {projected : δ} {expectedCurrent : String}
    {restoration : Option (Nat × List String)} {draft : Draft}
    {r : Receipt} (h : createDraft repo projected expectedCurrent restoration o faults db = .ok (db', draft, r)) :
    repo.currentHash db.store = some expectedCurrent ∧ Commits repo o db db' r := by
  obtain ⟨current, hcheck, h⟩ := bind_ok h
  obtain ⟨-, hcurrent⟩ := checkCurrent_ok hcheck
  obtain ⟨⟨db₁, parent⟩, hsnapshot, h⟩ := bind_ok h
  obtain ⟨⟨versions, rfl⟩, -⟩ := snapshotCurrent_ok hsnapshot
  obtain ⟨⟨db₂, version⟩, hinsert, h⟩ := bind_ok h
  obtain ⟨rfl, -⟩ := insertConfigVersion_ok hinsert
  obtain ⟨-, -, h⟩ := bind_ok h
  obtain ⟨-, -, h⟩ := bind_ok h
  obtain ⟨⟨db₃, r'⟩, happend, h⟩ := bind_ok h
  obtain ⟨rfl, hfields⟩ := appendConfigReceipt_ok happend
  cases h
  refine ⟨hcurrent, ⟨⟨rfl⟩, ?_, ?_, ?_, ?_⟩⟩
  · simp [Receipt.applies, hfields]
  · simp [hfields]
  · rw [hcurrent, hfields]
  · rw [hfields]
    exact hcurrent.symm

/-- A direct save that leaves the configuration as it was leaves no receipt. -/
structure Saves (repo : Repository σ δ) (db db' : Database σ δ) : Prop where
  receipts : db'.receipts = db.receipts
  current : repo.currentHash db'.store = repo.currentHash db.store

theorem directSave_ok {mutation : σ → Except Thrown σ} {source : String} {r : Option Receipt}
    (h : directSave repo mutation source o faults db = .ok (db', r)) :
    Saves repo db db' ∨ ∃ r', r = some r' ∧ Commits repo o db db' r' := by
  obtain ⟨before, hbefore, h⟩ := bind_ok h
  obtain ⟨-, -, h⟩ := bind_ok h
  obtain ⟨store, -, h⟩ := bind_ok h
  obtain ⟨after, hafter, h⟩ := bind_ok h
  split at h
  · rename_i hsame
    cases h
    left
    refine ⟨rfl, ?_⟩
    rw [currentHash_of_read hbefore, currentHash_of_read hafter, hsame]
  · obtain ⟨⟨db₁, previous⟩, hsnapshot, h⟩ := bind_ok h
    obtain ⟨⟨versions, rfl⟩, hprevious⟩ := snapshotCurrent_ok hsnapshot
    obtain ⟨⟨db₂, next⟩, hinsert, h⟩ := bind_ok h
    obtain ⟨rfl, hnext⟩ := insertConfigVersion_ok hinsert
    obtain ⟨⟨db₃, r'⟩, happend, h⟩ := bind_ok h
    obtain ⟨rfl, hfields⟩ := appendConfigReceipt_ok happend
    cases h
    right
    refine ⟨r', rfl, ⟨rfl⟩, ?_, ?_, ?_, ?_⟩
    · simp [Receipt.applies, hfields]
    · simp [hfields]
    · rw [hfields, currentHash_of_read hbefore]
      exact congrArg some hprevious
    · rw [hfields]
      show some next.contentHash = repo.currentHash store
      rw [hnext, currentHash_of_read hafter]

end bodies

/-! ### What a step does -/

def Phase.Pending : Phase δ → Prop
  | .ready => True
  | .drafting _ _ _ => True
  | .staged _ _ _ => True
  | .refused _ _ _ _ => True
  | _ => False

/-- The operation has been carried out: it returns, whatever fails from here on. -/
def Phase.Succeeded : Phase δ → Prop
  | .committed _ _ _ => True
  | .flushed _ _ _ => True
  | .refreshed _ _ _ _ => True
  | .returned _ => True
  | _ => False

def Phase.expectedCurrent : Phase δ → Option String
  | .drafting _ expectedCurrent _ => some expectedCurrent
  | .staged request _ _ => some request.expectedCurrent
  | _ => none

def Event.operation : Event σ δ → Option Nat
  | .stage o _ _ _ => some o
  | .apply o _ => some o
  | .reportFailure o _ => some o
  | .flush o _ => some o
  | .refresh o _ => some o
  | .finalize o _ _ => some o
  | .select o _ _ _ _ => some o
  | .draft o _ _ => some o
  | .createDraft o _ _ => some o
  | .reviseDraft o _ _ _ _ _ => some o
  | .validateDraft o _ _ _ _ => some o
  | .directSave o _ _ _ => some o
  | .uncovered _ => none

def Event.Unflushed : Event σ δ → Prop
  | .createDraft _ _ unflushed => unflushed = true
  | .reviseDraft _ _ _ _ _ unflushed => unflushed = true
  | _ => False

/-- What a step of operation `o` does to the database, and what it may be asked to have found. -/
inductive Effect (repo : Repository σ δ) (o : Nat) (ev : Event σ δ) (st st' : State σ δ) : Prop where
  | waits (hdb : st'.db = st.db)
  | notes (r : Receipt) (h : Notes st.db st'.db r)
  | revises (r : Receipt) (h : Revises st.db st'.db r) (hdone : ¬ ev.Unflushed → (st'.phase o).Succeeded)
  | saves (h : Saves repo st.db st'.db) (hdirect : (st.phase o).expectedCurrent = none) (hdone : (st'.phase o).Succeeded)
  | applies (r : Receipt) (h : Commits repo o st.db st'.db r) (hpending : (st.phase o).Pending)
      (hsettled : ¬ (st'.phase o).Pending) (hdone : ¬ ev.Unflushed → (st'.phase o).Succeeded)
      (hcurrent : ∀ e, (st.phase o).expectedCurrent = some e → repo.currentHash st.db.store = some e)

/-- A step of operation `o`: its effect, and where it leaves the operations. -/
structure StepOf (repo : Repository σ δ) (o : Nat) (ev : Event σ δ)
    (st st' : State σ δ) : Prop where
  others : ∀ q, q ≠ o → st'.phase q = st.phase q
  pending : (st'.phase o).Pending → (st.phase o).Pending
  succeeded : (st.phase o).Succeeded → (st'.phase o).Succeeded
  effect : Effect repo o ev st st'

section steps

variable {st : State σ δ} {o : Nat} {ev : Event σ δ}

theorem StepOf.refl : StepOf repo o ev st st := ⟨fun _ _ => rfl, id, id, .waits rfl⟩

theorem StepOf.of_phase {db : Database σ δ} {phase : Phase δ}
    (hpending : phase.Pending → (st.phase o).Pending)
    (hsucceeded : (st.phase o).Succeeded → phase.Succeeded)
    (heffect : Effect repo o ev st ({ st with db }.setPhase o phase)) :
    StepOf repo o ev st ({ st with db }.setPhase o phase) where
  others _ hq := Function.update_of_ne hq _ _
  pending h := by
    change (Function.update st.phase o phase o).Pending at h
    rw [Function.update_self] at h
    exact hpending h
  succeeded h := by
    change (Function.update st.phase o phase o).Succeeded
    rw [Function.update_self]
    exact hsucceeded h
  effect := heffect

theorem setPhase_self {db : Database σ δ} {phase : Phase δ} :
    (({ st with db } : State σ δ).setPhase o phase).phase o = phase :=
  Function.update_self _ _ _

theorem StepOf.of_setPhase {phase : Phase δ} (hpending : phase.Pending → (st.phase o).Pending)
    (hsucceeded : (st.phase o).Succeeded → phase.Succeeded) (heffect : Effect repo o ev st (st.setPhase o phase)) :
    StepOf repo o ev st (st.setPhase o phase) := by
  show StepOf repo o ev st (({ st with db := st.db } : State σ δ).setPhase o phase)
  exact StepOf.of_phase hpending hsucceeded heffect

theorem StepOf.threw {e : Thrown} (hpending : (st.phase o).Pending) :
    StepOf repo o ev st (st.setPhase o (.threw e)) := by
  apply StepOf.of_setPhase (fun _ => hpending) _ (.waits rfl)
  intro h
  cases hp : st.phase o <;> rw [hp] at hpending h <;> cases hpending <;> cases h

theorem StepOf.settle {α : Type} {next : α → Phase δ}
    {body : Database σ δ → Except Thrown (Database σ δ × α)}
    {commit : Option Thrown} (hpending : (st.phase o).Pending)
    (heffect : ∀ db a, body st.db = .ok (db, a) → Effect repo o ev st ({ st with db }.setPhase o (next a))) :
    StepOf repo o ev st (st.settle o next (transaction body commit st.db)) := by
  rcases transaction_cases body commit st.db with ⟨e, he⟩ | ⟨db, a, hbody, hok⟩
  · rw [he]
    exact StepOf.threw hpending
  · rw [hok]
    apply StepOf.of_phase (fun _ => hpending) _ (heffect db a hbody)
    intro h
    cases hp : st.phase o <;> rw [hp] at hpending h <;> cases hpending <;> cases h

theorem StepOf.beginDraft {document : δ} {expectedCurrent : String}
    {restoration : Option (Nat × List String)}
    (hphase : st.phase o = .ready) :
    StepOf repo o ev st (st.beginDraft repo o document expectedCurrent restoration) := by
  have hpending : (st.phase o).Pending := by rw [hphase]; trivial
  unfold State.beginDraft
  split
  · exact StepOf.threw hpending
  · exact StepOf.threw hpending
  · refine StepOf.of_setPhase (fun _ => hpending) (fun h => ?_) (.waits rfl)
    rw [hphase] at h
    cases h

theorem persisted_succeeded {α : Type} {flush : Bool} {next : α → Phase δ} {a : α}
    (h : ¬ flush = true)
    (hnext : (next a).Succeeded) : (State.persisted flush next a).Succeeded := by
  rw [State.persisted, if_neg h]
  exact hnext

theorem persisted_not_pending {α : Type} {flush : Bool} {next : α → Phase δ} {a : α}
    (hnext : ¬ (next a).Pending) :
    ¬ (State.persisted flush next a).Pending := by
  unfold State.persisted
  split
  · exact id
  · exact hnext

/-- **One step.** The step of an operation has one of the effects, on the
database and on the operation. -/
theorem step_effect (ho : ev.operation = some o) : StepOf repo o ev st (step repo st ev) := by
  cases ev with
  | uncovered write => cases ho
  | stage o' request faults flush =>
    cases ho
    simp only [step]
    split
    · rename_i hphase _
      exact StepOf.threw (by rw [hphase]; trivial)
    · rename_i hphase _
      apply StepOf.settle (by rw [hphase]; trivial)
      rintro db ⟨target, r⟩ hbody
      exact .notes r (stage_ok hbody)
    · exact StepOf.refl
  | apply o' faults =>
    cases ho
    simp only [step]
    split
    · rename_i request target receipt hphase
      rcases transaction_cases (apply repo request target o faults) faults.commitError st.db with
        ⟨e, he⟩ | ⟨db, applied, hbody, hok⟩
      · rw [he]
        refine StepOf.of_setPhase (fun _ => by rw [hphase]; trivial) (fun h => ?_) (.waits rfl)
        rw [hphase] at h
        cases h
      · rw [hok]
        obtain ⟨hcurrent, hcommits⟩ := apply_ok hbody
        apply StepOf.of_phase
        · exact nofun
        · exact fun _ => trivial
        · refine .applies _ hcommits (by rw [hphase]; trivial) (by rw [setPhase_self]; exact id)
            (fun _ => by rw [setPhase_self]; trivial) fun e he => ?_
          rw [hphase] at he
          cases he
          exact hcurrent
    · exact StepOf.refl
  | reportFailure o' fault =>
    cases ho
    simp only [step]
    split
    · rename_i hphase
      apply StepOf.settle (by rw [hphase]; trivial)
      intro db thrown hbody
      obtain ⟨r, hr⟩ := reportFailure_ok hbody
      exact .notes r hr
    · exact StepOf.refl
  | flush o' fault =>
    cases ho
    simp only [step]
    split
    · split
      · exact StepOf.of_setPhase nofun (fun _ => trivial) (.waits rfl)
      · exact StepOf.of_setPhase nofun (fun _ => trivial) (.waits rfl)
    · exact StepOf.refl
  | refresh o' success =>
    cases ho
    simp only [step]
    split
    · exact StepOf.of_setPhase nofun (fun _ => trivial) (.waits rfl)
    · exact StepOf.refl
  | finalize o' fault flush =>
    cases ho
    simp only [step]
    split
    · rename_i request target applied success hphase
      rcases transaction_cases (finalize request target applied o success fault) none st.db with
        ⟨e, he⟩ | ⟨db, r, hbody, hok⟩
      · rw [he]
        exact StepOf.of_phase nofun (fun _ => trivial) (.waits rfl)
      · rw [hok]
        exact StepOf.of_phase nofun (fun _ => trivial) (.notes r (finalize_ok hbody))
    · exact StepOf.refl
  | select o' versionId expectedCurrent paths select =>
    cases ho
    simp only [step]
    split
    · rename_i hphase
      split
      · exact StepOf.threw (by rw [hphase]; trivial)
      · exact StepOf.beginDraft hphase
    · exact StepOf.refl
  | draft o' document expectedCurrent =>
    cases ho
    simp only [step]
    split
    · rename_i hphase
      exact StepOf.beginDraft hphase
    · exact StepOf.refl
  | createDraft o' faults flush =>
    cases ho
    simp only [step]
    split
    · rename_i document expectedCurrent restoration hphase
      apply StepOf.settle (by rw [hphase]; trivial)
      rintro db ⟨draft, r⟩ hbody
      obtain ⟨hcurrent, hcommits⟩ := createDraft_ok hbody
      refine .applies r hcommits (by rw [hphase]; trivial) (by rw [setPhase_self]; exact persisted_not_pending id)
        (fun hflush => by rw [setPhase_self]; exact persisted_succeeded hflush trivial) fun e he => ?_
      rw [hphase] at he
      cases he
      exact hcurrent
    · exact StepOf.refl
  | reviseDraft o' id document expectedRevision faults flush =>
    cases ho
    simp only [step]
    split
    · rename_i hphase _
      exact StepOf.threw (by rw [hphase]; trivial)
    · rename_i hphase _
      apply StepOf.settle (by rw [hphase]; trivial)
      intro db draft hbody
      obtain ⟨r, hr⟩ := reviseDraft_ok hbody
      exact .revises r hr fun hflush => by rw [setPhase_self]; exact persisted_succeeded hflush trivial
    · exact StepOf.refl
  | validateDraft o' id expectedRevision faults flush =>
    cases ho
    simp only [step]
    split
    · rename_i hphase _
      exact StepOf.threw (by rw [hphase]; trivial)
    · rename_i hphase _
      apply StepOf.settle (by rw [hphase]; trivial)
      intro db result hbody
      obtain ⟨r, hr⟩ := validateDraft_ok hbody
      exact .notes r hr
    · exact StepOf.refl
  | directSave o' mutation source faults =>
    cases ho
    simp only [step]
    split
    · rename_i hphase
      apply StepOf.settle (by rw [hphase]; trivial)
      intro db r hbody
      rcases directSave_ok hbody with hsaves | ⟨r', -, hcommits⟩
      · exact .saves hsaves (by rw [hphase]; rfl) (by rw [setPhase_self]; trivial)
      · refine .applies r' hcommits (by rw [hphase]; trivial) (by rw [setPhase_self]; exact id)
          (fun _ => by rw [setPhase_self]; trivial) fun e he => ?_
        rw [hphase] at he
        cases he
    · exact StepOf.refl

end steps

/-! ### What runs keep -/

section runs

variable {st st' : State σ δ} {o : Nat} {ev : Event σ δ} {more : List (Event σ δ)}

/-- A write outside the history leaves the covered configuration as it is. -/
def Covered (repo : Repository σ δ) (st : State σ δ) : Event σ δ → Prop
  | .uncovered write => repo.currentHash (write st.db.store) = repo.currentHash st.db.store
  | _ => True

instance (st : State σ δ) (ev : Event σ δ) : Decidable (Covered repo st ev) := by
  cases ev <;> unfold Covered <;> infer_instance

theorem Notes.applied {db db' : Database σ δ} {r : Receipt}
    (h : Notes db db' r) : db'.applied = db.applied := by
  rw [h.toAppends.applied, h.other]
  exact List.append_nil _

theorem Revises.applied {db db' : Database σ δ} {r : Receipt}
    (h : Revises db db' r) : db'.applied = db.applied := by
  rw [h.toAppends.applied, h.other]
  exact List.append_nil _

theorem Commits.applied {db db' : Database σ δ} {r : Receipt} (h : Commits repo o db db' r) :
    db'.applied = db.applied ++ [r] := by
  rw [h.toAppends.applied, h.applies]
  rfl

theorem Effect.links (h : Effect repo o ev st st') :
    ∃ rs, st'.db.applied = st.db.applied ++ rs ∧
      Linked (repo.currentHash st.db.store) rs (repo.currentHash st'.db.store) := by
  cases h with
  | waits hdb => exact ⟨[], by rw [hdb, List.append_nil], by rw [hdb]; rfl⟩
  | notes r h => exact ⟨[], by rw [h.applied, List.append_nil], by rw [h.store]; rfl⟩
  | revises r h => exact ⟨[], by rw [h.applied, List.append_nil], by rw [h.store]; rfl⟩
  | saves h => exact ⟨[], by rw [Database.applied, h.receipts, List.append_nil, Database.applied], h.current.symm⟩
  | applies r h => exact ⟨[r], h.applied, h.before, h.after⟩

theorem operation_eq_none (h : ev.operation = none) : ∃ write, ev = .uncovered write := by
  cases ev <;> first | exact ⟨_, rfl⟩ | cases h

theorem step_links (hev : Covered repo st ev) :
    ∃ rs, (step repo st ev).db.applied = st.db.applied ++ rs ∧
      Linked (repo.currentHash st.db.store) rs (repo.currentHash (step repo st ev).db.store) := by
  cases ho : ev.operation with
  | some o => exact (step_effect ho).effect.links
  | none =>
    obtain ⟨write, rfl⟩ := operation_eq_none ho
    exact ⟨[], (List.append_nil _).symm, hev.symm⟩

theorem run_links (h : Meets (step repo) (Covered repo) st more) :
    ∃ rs, (run (step repo) st more).db.applied = st.db.applied ++ rs ∧
      Linked (repo.currentHash st.db.store) rs (repo.currentHash (run (step repo) st more).db.store) := by
  induction more generalizing st with
  | nil => exact ⟨[], (List.append_nil _).symm, rfl⟩
  | cons ev more ih =>
    obtain ⟨rs, happlied, hlinked⟩ := step_links h.1
    obtain ⟨rs', happlied', hlinked'⟩ := ih h.2
    refine ⟨rs ++ rs', ?_, hlinked.append hlinked'⟩
    rw [run_cons, happlied', happlied, List.append_assoc]

theorem step_succeeded (ev : Event σ δ) (h : (st.phase o).Succeeded) :
    ((step repo st ev).phase o).Succeeded := by
  cases hq : ev.operation with
  | none =>
    obtain ⟨write, rfl⟩ := operation_eq_none hq
    exact h
  | some q =>
    have hstep := @step_effect _ _ repo st q ev hq
    by_cases hoq : o = q
    · subst hoq
      exact hstep.succeeded h
    · rw [hstep.others o hoq]
      exact h

theorem run_succeeded (h : (st.phase o).Succeeded) :
    ((run (step repo) st more).phase o).Succeeded :=
  run_inv (I := fun s : State σ δ => (s.phase o).Succeeded) (fun _ ev hs => step_succeeded ev hs) h

/-- **Failure.** A step of an operation that throws in the end has changed
neither the store nor the history. -/
theorem Effect.unchanged (h : Effect repo o ev st st') (hflush : ¬ ev.Unflushed)
    (hfail : ¬ (st'.phase o).Succeeded) :
    st'.db.store = st.db.store ∧ st'.db.versions = st.db.versions ∧ st'.db.drafts = st.db.drafts := by
  cases h with
  | waits hdb => exact ⟨by rw [hdb], by rw [hdb], by rw [hdb]⟩
  | notes r h => exact ⟨h.store, h.versions, h.drafts⟩
  | revises r h hdone => exact absurd (hdone hflush) hfail
  | saves h hdirect hdone => exact absurd hdone hfail
  | applies r h hpending hsettled hdone => exact absurd (hdone hflush) hfail

/-- **No lost update.** An operation that carries a hash changes the store, or is
applied, over that hash only. -/
theorem Effect.current (h : Effect repo o ev st st') {e : String}
    (he : (st.phase o).expectedCurrent = some e)
    (hchange : st'.db.store ≠ st.db.store ∨ st'.db.applied ≠ st.db.applied) :
    repo.currentHash st.db.store = some e := by
  cases h with
  | waits hdb =>
    rw [hdb] at hchange
    rcases hchange with h | h <;> exact absurd rfl h
  | notes r h => rcases hchange with hne | hne <;> [exact absurd h.store hne; exact absurd h.applied hne]
  | revises r h => rcases hchange with hne | hne <;> [exact absurd h.store hne; exact absurd h.applied hne]
  | saves h hdirect =>
    rw [hdirect] at he
    cases he
  | applies r h hpending hsettled hdone hcurrent => exact hcurrent e he

structure Once (st : State σ δ) : Prop where
  settled : ∀ r ∈ st.db.applied, ¬ (st.phase r.operationId).Pending
  nodup : (st.db.applied.map fun r => r.operationId).Nodup

theorem Once.of_applied (h : Once st) (hdb : st'.db.applied = st.db.applied)
    (hphase : ∀ q, (st'.phase q).Pending → (st.phase q).Pending) : Once st' where
  settled r hr hp := h.settled r (hdb ▸ hr) (hphase _ hp)
  nodup := hdb ▸ h.nodup

theorem Once.step (h : Once st) (ev : Event σ δ) : Once (step repo st ev) := by
  cases ho : ev.operation with
  | none =>
    obtain ⟨write, rfl⟩ := operation_eq_none ho
    exact ⟨h.settled, h.nodup⟩
  | some o =>
    have hstep := @step_effect _ _ repo st o ev ho
    have hphase : ∀ q, ((Configuration.step repo st ev).phase q).Pending → (st.phase q).Pending := by
      intro q hq
      by_cases hqo : q = o
      · rw [hqo] at hq ⊢
        exact hstep.pending hq
      · rw [hstep.others q hqo] at hq
        exact hq
    cases hstep.effect with
    | waits hdb => exact h.of_applied (by rw [hdb]) hphase
    | notes r hr => exact h.of_applied hr.applied hphase
    | revises r hr => exact h.of_applied hr.applied hphase
    | saves hs => exact h.of_applied (by rw [Database.applied, hs.receipts, Database.applied]) hphase
    | applies r hr hpending hsettled =>
      constructor
      · intro r' hr'
        rw [hr.applied, List.mem_append, List.mem_singleton] at hr'
        rcases hr' with hold | rfl
        · exact fun hp => h.settled r' hold (hphase _ hp)
        · rw [hr.operation]
          exact hsettled
      · rw [hr.applied, List.map_append, List.nodup_append]
        refine ⟨h.nodup, by simp, fun a ha b hb hab => ?_⟩
        -- the receipts so far are of operations that are not pending
        obtain ⟨r', hr', rfl⟩ := List.mem_map.mp ha
        obtain rfl : b = o := by simpa [hr.operation] using hb
        exact h.settled r' hr' (hab ▸ hpending)

theorem applied_newState (store : σ) : (newState store : State σ δ).db.applied = [] := rfl

theorem once_newState (store : σ) : Once (newState store : State σ δ) where
  settled r hr := by
    rw [applied_newState] at hr
    cases hr
  nodup := by
    rw [applied_newState]
    exact List.nodup_nil

end runs

/-- **Optimistic concurrency.** In every run of publications, restorations, drafts and direct saves:
one that carries a hash is applied over that hash only; one that throws has changed nothing but
receipts; every applied operation has one receipt, and over any stretch in which no other writer
changes the configuration these lead from its hash at the start to its hash at the end. -/
theorem configuration_concurrency (repo : Repository σ δ) (store : σ) (ops : List (Event σ δ)) :
    let st := run (step repo) (newState store) ops
    (∀ ev o e, ev.operation = some o → (st.phase o).expectedCurrent = some e →
      (step repo st ev).db.store ≠ st.db.store ∨ (step repo st ev).db.applied ≠ st.db.applied →
      repo.currentHash st.db.store = some e) ∧
    (∀ xs ev ys o e, ops = xs ++ ev :: ys → ev.operation = some o → ¬ ev.Unflushed → st.phase o = .threw e →
      let before := run (step repo) (newState store) xs
      (step repo before ev).db.store = before.db.store ∧ (step repo before ev).db.versions = before.db.versions ∧
        (step repo before ev).db.drafts = before.db.drafts) ∧
    (st.db.applied.map fun r => r.operationId).Nodup ∧
    (∀ more, Meets (step repo) (Covered repo) st more →
      ∃ rs, (run (step repo) st more).db.applied = st.db.applied ++ rs ∧
        Linked (repo.currentHash st.db.store) rs (repo.currentHash (run (step repo) st more).db.store)) := by
  intro st
  refine ⟨fun ev o e ho he hchange => (step_effect ho).effect.current he hchange, ?_, ?_, fun more hm => run_links hm⟩
  · intro xs ev ys o e hops ho hflush hthrew before
    apply (step_effect ho).effect.unchanged hflush
    intro hdone
    have hend : (st.phase o).Succeeded := by
      change ((run (step repo) (newState store) ops).phase o).Succeeded
      rw [hops, run_append, run_cons]
      exact run_succeeded hdone
    rw [hthrew] at hend
    exact hend
  · have honce : Once st := run_inv (fun _ ev hs => hs.step ev) (once_newState store)
    exact honce.nodup

/-! ### Model aliases -/

section aliases

/-- The rows of `modelAliases` in a database without plans and settings. -/
abbrev Aliases := List (String × String)

/-- The statement of `setModelAlias`. -/
def setModelAlias (name model : String) (rows : Aliases) : Except Thrown Aliases :=
  .ok (rows.filter (fun row => row.1 ≠ name) ++ [(name, model)])

def lengthHash (text : String) : String := ("".pushn 'a' (64 - text.length)).pushn 'b' text.length

def aliasRepository : Repository Aliases Aliases where
  read := .ok
  assert := .ok
  validate _ _ _ := .ok ⟨true, []⟩
  write _ document := .ok document
  canonicalConfig rows := String.intercalate "," (rows.map fun row => row.1 ++ ":" ++ row.2)
  sha256 := lengthHash
  requireDraftBase := false

def noFaults : WriteFaults := ⟨false, false, false, false, false, false⟩

/-- A draft over the empty configuration, its publication, and a second publication
that expects the same hash. -/
def publishTwice : List (Event Aliases Aliases) :=
  [.draft 1 [("fast", "a")] (lengthHash ""), .createDraft 1 noFaults false,
    .stage 2 ⟨.activate 1 1, lengthHash "", []⟩ noFaults false, .stage 3 ⟨.activate 1 1, lengthHash "", []⟩ noFaults false,
    .apply 2 noFaults, .apply 3 noFaults, .reportFailure 3 false, .flush 2 false, .refresh 2 true, .finalize 2 false false]

/-- The first publication is applied over the hash it expects, the second one conflicts and changes
nothing, and the receipts are a chain. -/
theorem configuration_concurrency_publishTwice :
    aliasRepository.currentHash (run (step aliasRepository) (newState []) (publishTwice.take 4)).db.store =
        some (lengthHash "") ∧
      (run (step aliasRepository) (newState []) (publishTwice.take 6)).db.store =
        (run (step aliasRepository) (newState []) (publishTwice.take 5)).db.store ∧
      ∃ rs, (run (step aliasRepository) (newState []) publishTwice).db.applied = rs ∧
        Linked (some (lengthHash "")) rs (some (lengthHash "fast:a")) := by
  refine ⟨?_, ?_, ?_⟩
  · exact (configuration_concurrency aliasRepository [] (publishTwice.take 4)).1 (.apply 2 noFaults) 2 _ rfl
      (by decide +kernel) (Or.inl (by decide +kernel))
  · exact ((configuration_concurrency aliasRepository [] publishTwice).2.1 (publishTwice.take 5) (.apply 3 noFaults)
      (publishTwice.drop 6) 3
      (.configuration ⟨"configuration_conflict", 409, some (lengthHash "fast:a"), none, none⟩) rfl rfl id
      (by decide +kernel)).1
  · obtain ⟨rs, happlied, hlinked⟩ :=
      (configuration_concurrency aliasRepository [] []).2.2.2 publishTwice (by decide +kernel)
    have hstart : aliasRepository.currentHash (newState [] : State Aliases Aliases).db.store = some (lengthHash "") := by
      decide +kernel
    have hend : aliasRepository.currentHash (run (step aliasRepository) (newState []) publishTwice).db.store =
        some (lengthHash "fast:a") := by decide +kernel
    refine ⟨rs, happlied, ?_⟩
    rw [run_nil, hstart, hend] at hlinked
    exact hlinked

/-- Two operators who read the same configuration and save the same alias. -/
def savesTwice : List (Event Aliases Aliases) :=
  [.directSave 1 (setModelAlias "fast" "a") "repo.aliases.set" noFaults,
    .directSave 2 (setModelAlias "fast" "bb") "repo.aliases.set" noFaults]

/-- The second save is applied over a configuration that its operator did not
read; the first one is lost. -/
theorem savesTwice_lost :
    let read := run (step aliasRepository) (newState []) []
    let first := run (step aliasRepository) (newState []) (savesTwice.take 1)
    let second := run (step aliasRepository) (newState []) savesTwice
    aliasRepository.currentHash first.db.store ≠ aliasRepository.currentHash read.db.store ∧
      second.db.applied.map (fun r => r.operationId) = [1, 2] ∧
      first.db.store = [("fast", "a")] ∧ second.db.store = [("fast", "bb")] := by
  decide +kernel

end aliases

end TokenProxy.Configuration
