import Mathlib.Data.List.Nodup
import TokenProxy.KeyLifecycle.Rotation

/-!
# When a rotation does not widen access

The successor exists before it is restricted, nothing keeps a second rotation of the same key out,
and no write is undone. So the property holds in the runs in which none of this matters
(`Undisturbed`): what a rotation writes then stays between the copy it read and the row as it is.
-/

namespace TokenProxy.KeyLifecycle

open Lib (Table)

/-! ### The property -/

def AtMost {α : Type} [LE α] : Option α → Option α → Prop
  | _, none => True
  | none, some _ => False
  | some x, some y => x ≤ y

instance {α : Type} [LE α] [DecidableLE α] (a b : Option α) : Decidable (AtMost a b) := by
  cases a <;> cases b <;> unfold AtMost <;> infer_instance

@[simp] theorem AtMost.refl {α : Type} [Preorder α] (a : Option α) : AtMost a a := by
  cases a <;> simp [AtMost]

theorem AtMost.trans {α : Type} [Preorder α] {a b c : Option α} (h : AtMost a b)
    (h' : AtMost b c) : AtMost a c := by
  cases a <;> cases b <;> cases c <;> simp only [AtMost] at h h' ⊢
  exact h.trans h'

structure Within (key previous : ApiKey) : Prop where
  expiry : AtMost key.expiresAt previous.expiresAt
  promptTokens : AtMost key.maxPromptTokens previous.maxPromptTokens
  completionTokens : AtMost key.maxCompletionTokens previous.maxCompletionTokens
  costUsd : AtMost key.maxCostUsd previous.maxCostUsd
  models : ∀ model, matchesAllowedModel key.allowedModels model = true → matchesAllowedModel previous.allowedModels model = true

/-- What a rotation may make of its predecessor's row: it marks it and brings its expiry forward,
but not before the end it reports. -/
structure Shortened (last : Nat) (w : ApiKey × ApiKey) : Prop where
  notLater : AtMost w.2.expiresAt w.1.expiresAt
  kept : w.2 = { w.1 with expiresAt := w.2.expiresAt, supersededAt := w.2.supersededAt }
  alive : ∀ t < last, isExpired w.2.expiresAt t = isExpired w.1.expiresAt t

/-- Key rotation never widens access: a key has at most one successor, a successor that is
valid is no less restricted than its predecessor was when it was read, the predecessor's
expiry is only brought forward, and a rotation that throws leaves no usable key and has
not written the predecessor. -/
structure NeverWidens (s : State) : Prop where
  unique : (s.rotations.map RotationRow.predecessorKeyId).Nodup
  narrow : ∀ r ∈ s.running, ∀ k ∈ r.successor, ∀ key ∈ s.keys.get? k, s.validates key = true → Within key r.previous
  predecessor : ∀ r ∈ s.running, ∀ w ∈ r.written, Shortened r.end w
  failures : ∀ r ∈ s.running, r.failed = true →
    r.written = [] ∧ ∀ k ∈ r.successor, ∀ key ∈ s.keys.get? k, s.validates key = false

/-! ### The condition -/

def ApiKey.Unrestricted (key : ApiKey) : Prop :=
  key.allowedModels = none ∧ key.maxPromptTokens = none ∧ key.maxCompletionTokens = none ∧ key.maxCostUsd = none

instance (key : ApiKey) : Decidable key.Unrestricted := by unfold ApiKey.Unrestricted; infer_instance

def Rotation.inProgress (r : Rotation) : Bool := !r.failed && r.phase ≠ .creating && r.phase ≠ .returned

/-- What must hold of the state for the next write of a rotation, or for its failure. -/
def Rotation.Undisturbed (s : State) (r : Rotation) (fault : Bool) : Prop :=
  match r.phase, fault with
  | .creating, false =>
    (r.previous.Unrestricted ∨ isExpired r.previous.expiresAt s.clock = true) ∧
      (∀ key ∈ s.keys.get? r.keyId, key.supersededAt = none) ∧ ∀ r' ∈ s.running, r'.keyId = r.keyId → r'.inProgress = false
  | .copying, true => isExpired r.previous.expiresAt s.clock = true
  | .shortening, false => ∀ key ∈ s.keys.get? r.keyId, AtMost (some r.end) key.expiresAt
  | .shortening, true => isExpired r.previous.expiresAt s.clock = true
  | .recording, true => False
  | .superseding, true => False
  | _, _ => True

instance (s : State) (r : Rotation) (fault : Bool) : Decidable (r.Undisturbed s fault) := by
  unfold Rotation.Undisturbed
  split <;> infer_instance

/-- What must hold of a patch: it does not give a successor a later
expiry than its predecessor had. -/
def PatchUndisturbed (s : State) (id : Nat) (data : KeyPatch) : Prop :=
  ∀ r ∈ s.running, r.successor = some id → ∀ key ∈ s.keys.get? id, AtMost (data.expiresAt.getD key.expiresAt) r.previous.expiresAt

instance (s : State) (id : Nat) (data : KeyPatch) : Decidable (PatchUndisturbed s id data) := by
  unfold PatchUndisturbed
  infer_instance

def Undisturbed (s : State) (op : Op) : Prop :=
  match op with
  | .resume i fault =>
    match s.running[i]? with
    | some r => r.failed = true ∨ r.phase = .returned ∨ r.Undisturbed s fault
    | none => True
  | op =>
    match op.patch with
    | some (id, data) => PatchUndisturbed s id data
    | none => True

instance (s : State) (op : Op) : Decidable (Undisturbed s op) := by
  unfold Undisturbed
  split <;> split <;> infer_instance

/-! ### One rotation -/

structure Rotation.Ok (s : State) (r : Rotation) : Prop where
  creating : r.successor = none ↔ r.phase = .creating
  known : r.keyId < s.nextId
  bare : r.phase ≠ .creating → r.previous.Unrestricted ∨ isExpired r.previous.expiresAt s.clock = true
  successor : ∀ k ∈ r.successor, k < s.nextId ∧ ∀ key ∈ s.keys.get? k, AtMost key.expiresAt r.previous.expiresAt
  written : ∀ w ∈ r.written, Shortened r.end w
  early : r.phase = .creating ∨ r.phase = .copying ∨ r.phase = .shortening → r.written = []
  failed : r.failed = true → r.phase = .creating ∨
    (r.phase = .copying ∨ r.phase = .shortening) ∧ isExpired r.previous.expiresAt s.clock = true

theorem isExpired_mono {expiry : Option Nat} {now now' : Nat} (h : now ≤ now')
    (hexpired : isExpired expiry now = true) :
    isExpired expiry now' = true := by
  cases expiry with
  | none => exact hexpired
  | some at' =>
    simp only [isExpired, Option.any_some, decide_eq_true_eq] at hexpired ⊢
    omega

theorem isExpired_of_atMost {a b : Option Nat} {now : Nat} (h : AtMost a b)
    (hexpired : isExpired b now = true) :
    isExpired a now = true := by
  cases b with
  | none => simp [isExpired] at hexpired
  | some y =>
    cases a with
    | none => exact h.elim
    | some x =>
      have hxy : x ≤ y := h
      simp only [isExpired, Option.any_some, decide_eq_true_eq] at hexpired ⊢
      omega

theorem State.validates_expired {s : State} {key : ApiKey}
    (h : isExpired key.expiresAt s.clock = true) : s.validates key = false := by
  simp [State.validates, validateApiKey, h]

theorem Rotation.Ok.mono {s s' : State} {r : Rotation} (h : r.Ok s) (hclock : s.clock ≤ s'.clock)
    (hnext : s.nextId ≤ s'.nextId)
    (hkeys : ∀ k ∈ r.successor, ∀ key ∈ s'.keys.get? k, AtMost key.expiresAt r.previous.expiresAt) : r.Ok s' where
  creating := h.creating
  known := h.known.trans_le hnext
  bare hphase := (h.bare hphase).imp id (isExpired_mono hclock)
  successor k hk := ⟨(h.successor k hk).1.trans_le hnext, hkeys k hk⟩
  written := h.written
  early := h.early
  failed hf := (h.failed hf).imp id fun hp => ⟨hp.1, isExpired_mono hclock hp.2⟩

theorem Rotation.Ok.narrow {s : State} {r : Rotation} (h : r.Ok s) {k : Nat} (hk : k ∈ r.successor)
    {key : ApiKey}
    (hkey : key ∈ s.keys.get? k) (hvalid : s.validates key = true) : Within key r.previous := by
  have hexpiry := (h.successor k hk).2 key hkey
  have hphase : r.phase ≠ .creating := by
    intro hp
    rw [h.creating.2 hp] at hk
    cases hk
  rcases h.bare hphase with ⟨hmodels, hprompt, hcompletion, hcost⟩ | hexpired
  · refine ⟨hexpiry, ?_, ?_, ?_, fun model _ => ?_⟩
    · rw [hprompt]; trivial
    · rw [hcompletion]; trivial
    · rw [hcost]; trivial
    · rw [hmodels]; rfl
  · rw [State.validates_expired (isExpired_of_atMost hexpiry hexpired)] at hvalid
    cases hvalid

theorem Rotation.Ok.failure {s : State} {r : Rotation} (h : r.Ok s) (hf : r.failed = true) :
    r.written = [] ∧ ∀ k ∈ r.successor, ∀ key ∈ s.keys.get? k, s.validates key = false := by
  rcases h.failed hf with hp | ⟨hp, hexpired⟩
  · refine ⟨h.early (Or.inl hp), fun k hk => ?_⟩
    rw [h.creating.2 hp] at hk
    cases hk
  · refine ⟨h.early (Or.inr hp), fun k hk key hkey => ?_⟩
    exact State.validates_expired (isExpired_of_atMost ((h.successor k hk).2 key hkey) hexpired)

/-! ### Rotations of one key -/

def State.mark (s : State) (k : Nat) : Option (Option Nat) := (s.keys.get? k).map ApiKey.supersededAt

structure Exclusive (s : State) : Prop where
  unique : (s.rotations.map RotationRow.predecessorKeyId).Nodup
  recorded : ∀ row ∈ s.rotations, row.predecessorKeyId < s.nextId ∧ (s.mark row.predecessorKeyId = some none →
    ∃ r ∈ s.running, r.keyId = row.predecessorKeyId ∧ r.inProgress = true ∧ r.phase = .superseding)
  alone : ∀ (i j : Nat) (r r' : Rotation), s.running[i]? = some r → s.running[j]? = some r' → r.inProgress = true → r'.inProgress = true →
    r.keyId = r'.keyId → i = j
  current : ∀ r ∈ s.running, r.inProgress = true → s.mark r.keyId = some none
  unrecorded : ∀ r ∈ s.running, r.inProgress = true → r.phase ≠ .superseding → ∀ row ∈ s.rotations, row.predecessorKeyId ≠ r.keyId

structure Inv (s : State) : Prop where
  ids : ∀ k, (s.mark k).isSome = true → k < s.nextId
  known : ∀ r ∈ s.running, (s.mark r.keyId).isSome = true
  rotations : ∀ r ∈ s.running, r.Ok s
  exclusive : Exclusive s

theorem Inv.neverWidens {s : State} (h : Inv s) : NeverWidens s where
  unique := h.exclusive.unique
  narrow r hr _ hk _ hkey hvalid := (h.rotations r hr).narrow hk hkey hvalid
  predecessor r hr := (h.rotations r hr).written
  failures r hr := (h.rotations r hr).failure

end TokenProxy.KeyLifecycle
