import TokenProxy.Writer.Admission

/-!
# The admission protocol

What every state of the directory meets (`Inv`) and what a step of one process guarantees to the
others (`Guar`): it leaves their claims alone while they live, it hands out a lease only while no
other process has the exclusive claim, and it removes an exclusive claim that is not its own only at
the head of the reclaimers.

* `Chain`, `OwnsTip`: the reclaimers of one claim follow each other, each over a dead predecessor;
  so at most one live process is at the tip (`OwnsTip.unique`).
* `Gone`: a reclaimer takes its own claim back only when the claim it reclaims has left
  `sqljs.json`, to which no claim returns.
* `Claimed`, `Removing`, `Scanned`: what a process knows between two operations, and that it is
  stable.
-/

namespace TokenProxy.Writer

open TokenProxy.Lib

def File.owner? (f : File) : Option Nat := f.content.map fun r => r.identity.instanceId

namespace WriterState

variable (s : WriterState)

/-- The claim `name` is in the directory and was written by `p`. -/
def Mine (p : Nat) (name : FileName) : Prop := ∃ f, s.files name = some f ∧ f.owner? = some p

/-- An admission in hand: not released, and its process is alive. -/
def Live (l : Lease) : Prop := l.released = false ∧ l.owner ∉ s.crashed

/-- After `k` dead reclaimers of the claim `n`, the next one takes the
name with the predecessor `a`. -/
inductive Chain (n : Nat) : Nat → Option Nat → Prop
  | root : Chain n 0 none
  | after {k : Nat} {a : Option Nat} {f : File} {r : Record} (h : Chain n k a) (hf : s.files (.reap n a) = some f)
      (hr : f.content = some r) (hdead : r.identity.instanceId ∈ s.crashed) : Chain n (k + 1) (some r.nonce)

/-- `p` is the last reclaimer of the claim `n`. -/
def OwnsTip (p n : Nat) : Prop := ∃ k a, s.Chain n k a ∧ s.Mine p (.reap n a)

/-- The claim `n` was in `sqljs.json` and has left it. -/
def Gone (n : Nat) : Prop := n ∈ s.exclusives ∧ ∀ f r, s.files .sqljs = some f → f.content = some r → r.nonce ≠ n

/-- The claim read from `sqljs.json` is still there, or has left it. -/
def Seen (c : Claim) : Prop := s.files .sqljs = some ⟨c.ino, c.dev, some c.record⟩ ∨ s.Gone c.record.nonce

/-- `p` has the claim `name` and no admission under it yet. -/
def Claimed (p : Nat) (name : FileName) : Prop :=
  s.Mine p name ∧ ∀ l ∈ s.leases, s.Live l → l.name ≠ name

/-- `p` is about to remove the exclusive claim of a dead process. -/
def Removing (p : Nat) : Prop :=
  ∃ f r, s.files .sqljs = some f ∧ f.content = some r ∧ r.identity.instanceId ∈ s.crashed ∧ s.OwnsTip p r.nonce

/-- `p` has the exclusive claim, and the live admissions have names it has yet to look at. -/
def Scanned (p : Nat) (names : List FileName) : Prop :=
  s.Mine p .sqljs ∧ ∀ l ∈ s.leases, s.Live l → l.name ≠ .sqljs ∧ l.name ∈ names

end WriterState

def FileName.Fixed (name : FileName) : Prop := ∀ n, name ≠ .claim n

@[simp] theorem FileName.fixed_sqljs : FileName.sqljs.Fixed := fun _ => nofun

@[simp] theorem FileName.fixed_native (m : Nat) : (FileName.native m).Fixed := fun _ => nofun

@[simp] theorem FileName.fixed_reap (m : Nat)
    (a : Option Nat) : (FileName.reap m a).Fixed := fun _ => nofun

/-- A record fits a name: native and temporary names carry the nonce. -/
def Record.Fits (r : Record) (name : FileName) : Prop := name = .native r.nonce ∨ ∀ n, name ≠ .native n

structure Inv (s : WriterState) : Prop where
  drawn : ∀ {name f r}, s.files name = some f → f.content = some r → s.uuids[r.nonce]? = some r.identity.instanceId
  fits : ∀ {name f r}, s.files name = some f → f.content = some r → r.Fits name
  temporary : ∀ {n f r}, s.files (.claim n) = some f → f.content = some r → r.nonce = n
  carried : ∀ {f r}, s.files .sqljs = some f → f.content = some r → r.nonce ∈ s.exclusives
  past : ∀ {n}, n ∈ s.exclusives → n < s.uuids.length
  complete : ∀ {name f}, s.files name = some f → name.Fixed → f.content ≠ none
  named : ∀ {l}, l ∈ s.leases → l.name = .sqljs ∨ ∃ n, l.name = .native n
  leased : ∀ {l}, l ∈ s.leases → s.Live l → s.Mine l.owner l.name
  distinct : ∀ {i j : Nat} {l l'}, s.leases[i]? = some l → s.leases[j]? = some l' → s.Live l → s.Live l' → l.name = l'.name → i = j
  exclusive : ∀ {i j : Nat} {l l'}, s.leases[i]? = some l → s.leases[j]? = some l' → s.Live l → s.Live l' → l.name = .sqljs → i = j

/-- What a step of the process `p` guarantees. -/
structure Guar (p : Nat) (s s' : WriterState) : Prop where
  alive : p ∉ s.crashed
  crashed : s'.crashed = s.crashed
  uuids : s.uuids <+: s'.uuids
  /-- the claims of the living, and all reclaimers, are left to their owners -/
  files : ∀ {name f q}, s.files name = some f → f.owner? = some q → q ≠ p →
    (q ∉ s.crashed ∨ ∃ n a, name = .reap n a) → s'.files name = some f
  temporary : ∀ {n q}, s.uuids[n]? = some q → q ≠ p → s'.files (.claim n) = s.files (.claim n)
  exclusive : ∀ {f r}, s.files .sqljs = some f → f.content = some r → s'.files .sqljs ≠ some f →
    r.identity.instanceId = p ∨ s.OwnsTip p r.nonce
  carried : s.exclusives ⊆ s'.exclusives
  carrying : ∀ {n}, n ∈ s'.exclusives → n ∈ s.exclusives ∨ s.uuids[n]? = some p
  /-- a claim comes to `sqljs.json` once -/
  published : ∀ {f r}, s'.files .sqljs = some f → f.content = some r → s.files .sqljs = some f ∨ r.nonce ∉ s.exclusives
  withdrawn : ∀ {n a f}, s.files (.reap n a) = some f → s'.files (.reap n a) ≠ some f → s.Gone n
  kept : ∀ {i : Nat} {l}, s.leases[i]? = some l → l.owner ≠ p → s'.leases[i]? = some l
  granted : ∀ {l}, l ∈ s'.leases → l.released = false →
    l ∈ s.leases ∨ (l.owner = p ∧ ∀ q, q ≠ p → ¬ s'.Mine q .sqljs)

namespace WriterState

variable {s s' : WriterState} {p q n k : Nat} {name : FileName} {a b : Option Nat}

theorem Chain.functional (h : s.Chain n k a) (h' : s.Chain n k b) : a = b := by
  induction h generalizing b with
  | root =>
    cases h'
    rfl
  | after _ hf hr _ ih =>
    cases h' with
    | after h₂ hf₂ hr₂ _ =>
      obtain rfl := ih h₂
      rw [hf] at hf₂
      cases hf₂
      rw [hr] at hr₂
      cases hr₂
      rfl

theorem Chain.through {k' : Nat} (h : s.Chain n k' b) (hlt : k < k') :
    ∃ a f r, s.Chain n k a ∧ s.files (.reap n a) = some f ∧ f.content = some r ∧ r.identity.instanceId ∈ s.crashed := by
  induction h with
  | root => omega
  | @after k₀ a₀ f r h₀ hf hr hdead ih =>
    rcases Nat.lt_succ_iff_lt_or_eq.mp hlt with hlt' | rfl
    · exact ih hlt'
    · exact ⟨a₀, f, r, h₀, hf, hr, hdead⟩

theorem Mine.owner {f : File} {r : Record} (h : s.Mine p name) (hf : s.files name = some f)
    (hr : f.content = some r) : r.identity.instanceId = p := by
  obtain ⟨f', hf', ho⟩ := h
  rw [hf] at hf'
  cases hf'
  simpa [File.owner?, hr] using ho

theorem Mine.unique (h : s.Mine p name) (h' : s.Mine q name) : p = q := by
  obtain ⟨f, hf, ho⟩ := h
  obtain ⟨f', hf', ho'⟩ := h'
  rw [hf] at hf'
  cases hf'
  rw [ho] at ho'
  cases ho'
  rfl

theorem Chain.dead_of_mine {k' : Nat} (h : s.Chain n k a) (h' : s.Chain n k' b)
    (hm : s.Mine p (.reap n a)) (hlt : k < k') : p ∈ s.crashed := by
  obtain ⟨a', f, r, ha, hf, hr, hdead⟩ := h'.through hlt
  obtain rfl := h.functional ha
  exact hm.owner hf hr ▸ hdead

/-- **At most one live process is the last reclaimer of a claim.** -/
theorem OwnsTip.unique (h : s.OwnsTip p n) (h' : s.OwnsTip q n) (hp : p ∉ s.crashed)
    (hq : q ∉ s.crashed) : p = q := by
  obtain ⟨k, a, hc, hm⟩ := h
  obtain ⟨k', a', hc', hm'⟩ := h'
  rcases Nat.lt_trichotomy k k' with hlt | rfl | hlt
  · exact absurd (hc.dead_of_mine hc' hm hlt) hp
  · obtain rfl := hc.functional hc'
    exact hm.unique hm'
  · exact absurd (hc'.dead_of_mine hc hm' hlt) hq

end WriterState

/-! ### What others cannot falsify -/

section stable

variable {p q n k : Nat} {name : FileName} {s s' : WriterState}

namespace Guar

variable (h : Guar q s s')
include h

theorem file (hq : q ≠ p) (hp : p ∉ s.crashed) {f : File} (hf : s.files name = some f)
    (ho : f.owner? = some p) :
    s'.files name = some f :=
  h.files hf ho hq.symm (Or.inl hp)

theorem mine (hq : q ≠ p) (hp : p ∉ s.crashed) (hm : s.Mine p name) : s'.Mine p name := by
  obtain ⟨f, hf, ho⟩ := hm
  exact ⟨f, h.file hq hp hf ho, ho⟩

theorem chain {a : Option Nat} (hc : s.Chain n k a) : s'.Chain n k a := by
  induction hc with
  | root => exact .root
  | @after k a f r _ hf hr hdead ih =>
    have hne : r.identity.instanceId ≠ q := fun heq => h.alive (heq ▸ hdead)
    exact .after ih (h.files hf (by simp [File.owner?, hr]) hne (Or.inr ⟨n, a, rfl⟩)) hr (h.crashed ▸ hdead)

theorem ownsTip (hq : q ≠ p) (hp : p ∉ s.crashed) (ht : s.OwnsTip p n) : s'.OwnsTip p n := by
  obtain ⟨k, a, hc, hm⟩ := ht
  exact ⟨k, a, h.chain hc, h.mine hq hp hm⟩

theorem uuid {m : Nat} (hd : s.uuids[m]? = some p) : s'.uuids[m]? = some p := by
  obtain ⟨rest, hrest⟩ := h.uuids
  rw [← hrest, List.getElem?_append_left (List.getElem?_eq_some_iff.mp hd).1]
  exact hd

theorem gone (hgone : s.Gone n) : s'.Gone n := by
  refine ⟨h.carried hgone.1, fun f r hf hr => ?_⟩
  rcases h.published hf hr with hold | hnew
  · exact hgone.2 f r hold hr
  · rintro rfl
    exact hnew hgone.1

theorem seen (hi : Inv s) {c : Claim} (hc : s.Seen c) : s'.Seen c := by
  rcases hc with hf | hgone
  · by_cases hf' : s'.files .sqljs = some ⟨c.ino, c.dev, some c.record⟩
    · exact Or.inl hf'
    · have hcarried := hi.carried hf rfl
      refine Or.inr ⟨h.carried hcarried, fun f r hg hr heq => ?_⟩
      rcases h.published hg hr with hold | hnew
      · exact hf' (by rw [hg, ← hold, hf])
      · exact hnew (heq ▸ hcarried)
  · exact Or.inr (h.gone hgone)

/-- A live admission is an old one, or one that `q` was granted while no
other process was exclusive. -/
theorem live_granted {l : Lease} (hl : l ∈ s'.leases) (hlive : s'.Live l) :
    (l ∈ s.leases ∧ s.Live l) ∨ (l.owner = q ∧ ∀ p, p ≠ q → ¬ s'.Mine p .sqljs) := by
  rcases h.granted hl hlive.1 with hin | hnew
  · exact Or.inl ⟨hin, hlive.1, h.crashed ▸ hlive.2⟩
  · exact Or.inr hnew

theorem claimed (hi' : Inv s') (hq : q ≠ p) (hp : p ∉ s.crashed)
    (hc : s.Claimed p name) : s'.Claimed p name := by
  have hm := h.mine hq hp hc.1
  refine ⟨hm, fun l hl hlive hname => ?_⟩
  rcases h.live_granted hl hlive with ⟨hin, hlive'⟩ | ⟨howner, -⟩
  · exact hc.2 l hin hlive' hname
  · exact hq ((hname ▸ howner ▸ hi'.leased hl hlive).unique hm)

theorem scanned {names : List FileName} (hq : q ≠ p) (hp : p ∉ s.crashed) (hc : s.Scanned p names) :
    s'.Scanned p names := by
  have hm := h.mine hq hp hc.1
  refine ⟨hm, fun l hl hlive => ?_⟩
  rcases h.live_granted hl hlive with ⟨hin, hlive'⟩ | ⟨-, hnone⟩
  · exact hc.2 l hin hlive'
  · exact absurd hm (hnone p hq.symm)

theorem removing (hq : q ≠ p) (hp : p ∉ s.crashed) (hr : s.Removing p) : s'.Removing p := by
  obtain ⟨f, r, hf, hc, hdead, htip⟩ := hr
  refine ⟨f, r, ?_, hc, h.crashed ▸ hdead, h.ownsTip hq hp htip⟩
  by_contra hne
  rcases h.exclusive hf hc hne with rfl | htip'
  · exact h.alive hdead
  · exact hq (htip'.unique htip h.alive hp)

end Guar

namespace WriterState

def stop (s : WriterState) (p : Nat) : WriterState := { s with crashed := p :: s.crashed }

theorem Live.of_stop {l : Lease} (h : (s.stop q).Live l) : s.Live l :=
  ⟨h.1, fun hin => h.2 (List.mem_cons_of_mem _ hin)⟩

theorem Chain.stop {a : Option Nat} (h : s.Chain n k a) : (s.stop q).Chain n k a := by
  induction h with
  | root => exact .root
  | after _ hf hr hdead ih => exact .after ih hf hr (List.mem_cons_of_mem _ hdead)

theorem OwnsTip.stop (h : s.OwnsTip p n) : (s.stop q).OwnsTip p n := by
  obtain ⟨k, a, hc, hm⟩ := h
  exact ⟨k, a, hc.stop, hm⟩

theorem Removing.stop (h : s.Removing p) : (s.stop q).Removing p := by
  obtain ⟨f, r, hf, hc, hdead, htip⟩ := h
  exact ⟨f, r, hf, hc, List.mem_cons_of_mem _ hdead, htip.stop⟩

theorem Gone.stop (h : s.Gone n) : (s.stop q).Gone n := h

theorem Seen.stop {c : Claim} (h : s.Seen c) : (s.stop q).Seen c := h

theorem Claimed.stop (h : s.Claimed p name) : (s.stop q).Claimed p name :=
  ⟨h.1, fun l hl hlive => h.2 l hl hlive.of_stop⟩

theorem Scanned.stop {names : List FileName} (h : s.Scanned p names) : (s.stop q).Scanned p names :=
  ⟨h.1, fun l hl hlive => h.2 l hl hlive.of_stop⟩

end WriterState

theorem Inv.stop (h : Inv s) : Inv (s.stop q) where
  drawn := h.drawn
  fits := h.fits
  temporary := h.temporary
  carried := h.carried
  past := h.past
  complete := h.complete
  named := h.named
  leased hl hlive := h.leased hl hlive.of_stop
  distinct hi hj hl hl' := h.distinct hi hj hl.of_stop hl'.of_stop
  exclusive hi hj hl hl' := h.exclusive hi hj hl.of_stop hl'.of_stop

end stable

/-! ### What one operation does -/

section operations

variable {p n : Nat} {name : FileName} {s : WriterState}

theorem Guar.refl (hp : p ∉ s.crashed) : Guar p s s where
  alive := hp
  crashed := rfl
  uuids := List.prefix_refl _
  files hf _ _ _ := hf
  temporary _ _ := rfl
  exclusive hf _ hne := absurd hf hne
  carried _ h := h
  carrying h := Or.inl h
  published hf _ := Or.inl hf
  withdrawn hf hne := absurd hf hne
  kept hi _ := hi
  granted hl _ := Or.inl hl

theorem getElem?_append_of_some {α : Type} {l l' : List α} {i : Nat} {a : α} (h : l[i]? = some a) :
    (l ++ l')[i]? = some a := by
  rw [List.getElem?_append_left (List.getElem?_eq_some_iff.mp h).1]
  exact h

/-- `randomUUID`. -/
def WriterState.draw (s : WriterState) (p : Nat) : WriterState := { s with uuids := s.uuids ++ [p] }

theorem Inv.draw (h : Inv s) : Inv (s.draw p) where
  drawn hf hr := getElem?_append_of_some (h.drawn hf hr)
  fits := h.fits
  temporary := h.temporary
  carried := h.carried
  past hn := Nat.lt_of_lt_of_le (h.past hn) (by simp [WriterState.draw])
  complete := h.complete
  named := h.named
  leased := h.leased
  distinct := h.distinct
  exclusive := h.exclusive

theorem Guar.draw (hp : p ∉ s.crashed) : Guar p s (s.draw p) :=
  { Guar.refl hp with uuids := List.prefix_append _ _ }

namespace WriterState

theorem put_self (f : File) : (s.put name f).files name = some f := Function.update_self _ _ _

theorem put_ne {name' : FileName} (f : File) (h : name' ≠ name) :
    (s.put name f).files name' = s.files name' :=
  Function.update_of_ne h _ _

theorem remove_self : (s.remove name).files name = none := Function.update_self _ _ _

theorem remove_ne {name' : FileName} (h : name' ≠ name) :
    (s.remove name).files name' = s.files name' :=
  Function.update_of_ne h _ _

theorem remove_some {name' : FileName} {f : File} (h : (s.remove name).files name' = some f) :
    s.files name' = some f := by
  by_cases hn : name' = name
  · rw [hn, remove_self] at h
    cases h
  · rwa [remove_ne hn] at h

theorem put_some {name' : FileName} {f f' : File} (h : (s.put name f).files name' = some f') :
    (name' = name ∧ f' = f) ∨ (name' ≠ name ∧ s.files name' = some f') := by
  by_cases hn : name' = name
  · subst hn
    rw [put_self] at h
    cases h
    exact Or.inl ⟨rfl, rfl⟩
  · rw [put_ne f hn] at h
    exact Or.inr ⟨hn, h⟩

theorem Mine.put {q : Nat} {name' : FileName} {f : File} (h : s.Mine q name') (hne : name' ≠ name) :
    (s.put name f).Mine q name' := by
  obtain ⟨f', hf', ho⟩ := h
  exact ⟨f', by rw [put_ne f hne, hf'], ho⟩

theorem Mine.remove {q : Nat} {name' : FileName} (h : s.Mine q name') (hne : name' ≠ name) :
    (s.remove name).Mine q name' := by
  obtain ⟨f', hf', ho⟩ := h
  exact ⟨f', by rw [remove_ne hne, hf'], ho⟩

end WriterState

open WriterState

theorem Inv.lease_name (h : Inv s) {l : Lease}
    (hl : l ∈ s.leases) : l.name ≠ .claim n ∧ ∀ m a, l.name ≠ .reap m a := by
  rcases h.named hl with hname | ⟨m, hname⟩ <;> simp [hname]

theorem Inv.putTemporary (h : Inv s) {f : File} (hd : s.uuids[n]? = some p)
    (hf : ∀ r, f.content = some r → r.nonce = n ∧ r.identity.instanceId = p) : Inv (s.put (.claim n) f) where
  drawn {name f' r} hf' hr := by
    rcases put_some hf' with ⟨-, rfl⟩ | ⟨-, hold⟩
    · obtain ⟨rfl, ho⟩ := hf r hr
      exact ho ▸ hd
    · exact h.drawn hold hr
  fits {name f' r} hf' hr := by
    rcases put_some hf' with ⟨rfl, -⟩ | ⟨-, hold⟩
    · exact Or.inr fun m hm => by cases hm
    · exact h.fits hold hr
  temporary {m f' r} hf' hr := by
    rcases put_some hf' with ⟨hm, rfl⟩ | ⟨-, hold⟩
    · cases hm
      exact (hf r hr).1
    · exact h.temporary hold hr
  carried {f' r} hf' hr := by
    rw [put_ne f (by simp)] at hf'
    exact h.carried hf' hr
  past := h.past
  complete {name f'} hf' hfixed := by
    rcases put_some hf' with ⟨rfl, -⟩ | ⟨-, hold⟩
    · exact absurd rfl (hfixed n)
    · exact h.complete hold hfixed
  named := h.named
  leased hl hlive := (h.leased hl hlive).put (h.lease_name hl).1
  distinct := h.distinct
  exclusive := h.exclusive

theorem Inv.temporary_owner (h : Inv s) (hd : s.uuids[n]? = some p) {f : File} {q : Nat}
    (hf : s.files (.claim n) = some f) (ho : f.owner? = some q) : q = p := by
  obtain ⟨r, hr, hq⟩ := Option.map_eq_some_iff.mp ho
  have hdrawn := h.drawn hf hr
  rw [h.temporary hf hr, hd] at hdrawn
  exact hq.symm.trans (Option.some.inj hdrawn).symm

theorem Guar.putTemporary (h : Inv s) (hp : p ∉ s.crashed) {f : File} (hd : s.uuids[n]? = some p) :
    Guar p s (s.put (.claim n) f) where
  alive := hp
  crashed := rfl
  uuids := List.prefix_refl _
  files {name f' q} hf' ho hne _ := by
    refine (put_ne f ?_).trans hf'
    rintro rfl
    exact hne (h.temporary_owner hd hf' ho)
  temporary {m q} hm hne := by
    refine put_ne f fun heq => ?_
    cases heq
    rw [hd] at hm
    exact hne (Option.some.inj hm).symm
  exclusive hf' _ hne := absurd (by rw [put_ne f (by simp), hf']) hne
  carried _ h := h
  carrying h := Or.inl h
  published hf' _ := by
    rw [put_ne f (by simp)] at hf'
    exact Or.inl hf'
  withdrawn hf' hne := absurd (by rw [put_ne f (by simp), hf']) hne
  kept hi _ := hi
  granted hl _ := Or.inl hl

namespace WriterState

theorem publish_exclusives (f : File) (h : name ≠ .sqljs) :
    (s.publish name f).exclusives = s.exclusives := by
  unfold publish
  cases name <;> simp at h ⊢

theorem publish_sqljs_exclusives {f : File} {r : Record} (h : f.content = some r) :
    (s.publish .sqljs f).exclusives = r.nonce :: s.exclusives := by
  simp [publish, h]

end WriterState

theorem Inv.publish (h : Inv s) {f : File} {r : Record} (hfree : s.files name = none)
    (hfixed : name.Fixed)
    (hf : f.content = some r) (hd : s.uuids[r.nonce]? = some r.identity.instanceId) (hfits : r.Fits name) :
    Inv (s.publish name f) where
  drawn {name' f' r'} hf' hr := by
    rcases put_some hf' with ⟨-, rfl⟩ | ⟨-, hold⟩
    · rw [hf] at hr
      cases hr
      exact hd
    · exact h.drawn hold hr
  fits {name' f' r'} hf' hr := by
    rcases put_some hf' with ⟨rfl, rfl⟩ | ⟨-, hold⟩
    · rw [hf] at hr
      cases hr
      exact hfits
    · exact h.fits hold hr
  temporary {m f' r'} hf' hr := by
    rcases put_some hf' with ⟨hm, -⟩ | ⟨-, hold⟩
    · exact absurd hm.symm (hfixed m)
    · exact h.temporary hold hr
  carried {f' r'} hf' hr := by
    rcases put_some hf' with ⟨rfl, rfl⟩ | ⟨hne, hold⟩
    · rw [publish_sqljs_exclusives hr]
      exact List.mem_cons_self
    · rw [publish_exclusives f (Ne.symm hne)]
      exact h.carried hold hr
  past {m} hm := by
    by_cases hname : name = .sqljs
    · subst hname
      rw [publish_sqljs_exclusives hf, List.mem_cons] at hm
      rcases hm with rfl | hm
      · exact (List.getElem?_eq_some_iff.mp hd).1
      · exact h.past hm
    · rw [publish_exclusives f hname] at hm
      exact h.past hm
  complete {name' f'} hf' hfixed' := by
    rcases put_some hf' with ⟨-, rfl⟩ | ⟨-, hold⟩
    · simp [hf]
    · exact h.complete hold hfixed'
  named := h.named
  leased hl hlive := by
    have hm := h.leased hl hlive
    refine hm.put fun heq => ?_
    obtain ⟨f', hf', -⟩ := hm
    rw [heq, hfree] at hf'
    cases hf'
  distinct := h.distinct
  exclusive := h.exclusive

theorem Guar.publish (hp : p ∉ s.crashed) {f : File} {r : Record} (hfree : s.files name = none)
    (hfixed : name.Fixed)
    (hf : f.content = some r) (hd : s.uuids[r.nonce]? = some p) (hnew : name = .sqljs → r.nonce ∉ s.exclusives) :
    Guar p s (s.publish name f) := by
  have hstays : ∀ {name' f'}, s.files name' = some f' → (s.publish name f).files name' = some f' := by
    intro name' f' hf'
    refine (put_ne f ?_).trans hf'
    rintro rfl
    rw [hfree] at hf'
    cases hf'
  refine
    { alive := hp
      crashed := rfl
      uuids := List.prefix_refl _
      files := fun hf' _ _ _ => hstays hf'
      temporary := fun {m q} _ _ => put_ne f (hfixed m).symm
      exclusive := fun hf' _ hne => absurd (hstays hf') hne
      carried := List.subset_append_right _ _
      carrying := fun {m} hm => ?_
      published := fun {f' r'} hf' hr => ?_
      withdrawn := fun hf' hne => absurd (hstays hf') hne
      kept := fun hi _ => hi
      granted := fun hl _ => Or.inl hl }
  · by_cases hname : name = .sqljs
    · subst hname
      rw [publish_sqljs_exclusives hf, List.mem_cons] at hm
      rcases hm with rfl | hm
      · exact Or.inr hd
      · exact Or.inl hm
    · rw [publish_exclusives f hname] at hm
      exact Or.inl hm
  · rcases put_some hf' with ⟨rfl, rfl⟩ | ⟨-, hold⟩
    · rw [hf] at hr
      cases hr
      exact Or.inr (hnew rfl)
    · exact Or.inl hold

theorem Inv.remove (h : Inv s) (hfree : ∀ l ∈ s.leases, s.Live l → l.name ≠ name) : Inv (s.remove name) where
  drawn hf := h.drawn (remove_some hf)
  fits hf := h.fits (remove_some hf)
  temporary hf := h.temporary (remove_some hf)
  carried hf := h.carried (remove_some hf)
  past := h.past
  complete hf := h.complete (remove_some hf)
  named := h.named
  leased hl hlive := (h.leased hl hlive).remove (hfree _ hl hlive)
  distinct := h.distinct
  exclusive := h.exclusive

/-- A process removes files of its own or of the dead; a reclaimer's file only its own, and the
exclusive claim of another only as the last reclaimer. It takes its own reclaimer's claim back once
the claim it reclaims is gone. -/
theorem Guar.remove (hp : p ∉ s.crashed)
    (hfile : ∀ f q, s.files name = some f → f.owner? = some q → q ≠ p → q ∈ s.crashed ∧ ∀ m a, name ≠ .reap m a)
    (htemp : ∀ m, name = .claim m → s.uuids[m]? = some p)
    (hexcl : name = .sqljs → ∀ f r, s.files .sqljs = some f → f.content = some r →
      r.identity.instanceId = p ∨ s.OwnsTip p r.nonce)
    (hgone : ∀ m a, name = .reap m a → s.Gone m) : Guar p s (s.remove name) where
  alive := hp
  crashed := rfl
  uuids := List.prefix_refl _
  files {name' f q} hf ho hne hliving := by
    rw [remove_ne, hf]
    rintro rfl
    obtain ⟨hdead, hreap⟩ := hfile f q hf ho hne
    rcases hliving with hlive | ⟨m, a, hname⟩
    · exact hlive hdead
    · exact hreap m a hname
  temporary {m q} hm hne := by
    refine remove_ne fun heq => ?_
    rw [htemp m heq.symm] at hm
    exact hne (Option.some.inj hm).symm
  exclusive {f r} hf hr hne := by
    refine hexcl ?_ f r hf hr
    by_contra hname
    exact hne (by rw [remove_ne (Ne.symm hname), hf])
  carried _ h := h
  carrying h := Or.inl h
  published hf _ := Or.inl (remove_some hf)
  withdrawn {m a f} hf hne := by
    refine hgone m a ?_
    by_contra hname
    exact hne (by rw [remove_ne (Ne.symm hname), hf])
  kept hi _ := hi
  granted hl _ := Or.inl hl

theorem Guar.removeTemporary (h : Inv s) (hp : p ∉ s.crashed) (hd : s.uuids[n]? = some p) :
    Guar p s (s.remove (.claim n)) := by
  refine Guar.remove hp (fun f q hf ho hne => absurd (h.temporary_owner hd hf ho) hne) (fun m hm => ?_) nofun nofun
  cases hm
  exact hd

theorem Inv.native_owner (h : Inv s) {m q : Nat} {f : File} (hf : s.files (.native m) = some f)
    (ho : f.owner? = some q) : s.uuids[m]? = some q := by
  obtain ⟨r, hr, hq⟩ := Option.map_eq_some_iff.mp ho
  have hdrawn := h.drawn hf hr
  rcases h.fits hf hr with hm | hno
  · cases hm
    exact hq ▸ hdrawn
  · exact absurd rfl (hno m)

theorem Inv.removeDead (h : Inv s) (hp : p ∉ s.crashed) {m q : Nat} (hd : s.uuids[m]? = some q)
    (hdead : q ∈ s.crashed) :
    Inv (s.remove (.native m)) ∧ Guar p s (s.remove (.native m)) := by
  refine ⟨h.remove fun l hl hlive hname => ?_, Guar.remove hp (fun f q' hf ho _ => ?_) nofun nofun nofun⟩
  · obtain ⟨f, hf, ho⟩ := h.leased hl hlive
    have howner := h.native_owner (hname ▸ hf) ho
    rw [hd] at howner
    exact hlive.2 (Option.some.inj howner ▸ hdead)
  · have howner := h.native_owner hf ho
    rw [hd] at howner
    exact ⟨Option.some.inj howner ▸ hdead, nofun⟩

namespace WriterState

theorem Scanned.skip {names : List FileName} (h : s.Scanned p (name :: names))
    (hno : ∀ l ∈ s.leases, s.Live l → l.name ≠ name) : s.Scanned p names := by
  refine ⟨h.1, fun l hl hlive => ⟨(h.2 l hl hlive).1, ?_⟩⟩
  exact (List.mem_cons.mp (h.2 l hl hlive).2).resolve_left (hno l hl hlive)

theorem Scanned.claimed {names : List FileName} (h : s.Scanned p names) : s.Claimed p .sqljs :=
  ⟨h.1, fun l hl hlive => (h.2 l hl hlive).1⟩

end WriterState

theorem Claimed.remove (hi : Inv s) (hp : p ∉ s.crashed) (h : s.Claimed p name)
    (hfixed : name.Fixed)
    (hreap : ∀ m a, name ≠ .reap m a) : Inv (s.remove name) ∧ Guar p s (s.remove name) := by
  refine ⟨hi.remove h.2, Guar.remove hp (fun f q hf ho hne => ?_) (fun m hm => absurd hm (hfixed m)) ?_
    fun m a hm => absurd hm (hreap m a)⟩
  · exact absurd (Mine.unique ⟨f, hf, ho⟩ h.1) hne
  · rintro rfl f r hf hr
    exact Or.inl (h.1.owner hf hr)

end operations

/-! ### What a call that returns leaves -/

section deliveries

variable {p i : Nat} {s₀ s : WriterState} {l : Lease}

namespace WriterState

def grant (s : WriterState) (l : Lease) : WriterState := { s with leases := s.leases ++ [l] }

def mark (s : WriterState) (i : Nat) : WriterState :=
  { s with leases := s.leases.modify i fun l => { l with released := true } }

theorem mark_some {j : Nat} {l' : Lease} (h : (s.mark i).leases[j]? = some l')
    (hl : l'.released = false) :
    s.leases[j]? = some l' ∧ j ≠ i := by
  simp only [mark, List.getElem?_modify] at h
  obtain ⟨l, hold, hnew⟩ := Option.map_eq_some_iff.mp h
  by_cases hj : i = j
  · rw [if_pos hj] at hnew
    subst hnew
    cases hl
  · simp only [if_neg hj] at hnew
    exact ⟨hnew ▸ hold, Ne.symm hj⟩

theorem mark_mem {l' : Lease} (h : l' ∈ (s.mark i).leases)
    (hl : l'.released = false) : l' ∈ s.leases := by
  obtain ⟨j, hj⟩ := List.mem_iff_getElem?.mp h
  exact List.mem_of_getElem? (mark_some hj hl).1

theorem grant_some {j : Nat} {l' : Lease} (h : (s.grant l).leases[j]? = some l') :
    s.leases[j]? = some l' ∨ (j = s.leases.length ∧ l' = l) := by
  simp only [grant, List.getElem?_append] at h
  split at h
  · exact Or.inl h
  · obtain ⟨hj, rfl⟩ := List.getElem?_eq_some_iff.mp h
    simp only [List.length_singleton] at hj
    exact Or.inr ⟨by omega, by simp⟩

end WriterState

open WriterState

theorem Inv.mark (h : Inv s) : Inv (s.mark i) where
  drawn := h.drawn
  fits := h.fits
  temporary := h.temporary
  carried := h.carried
  past := h.past
  complete := h.complete
  named {l'} hl := by
    obtain ⟨j, hj⟩ := List.mem_iff_getElem?.mp hl
    simp only [WriterState.mark, List.getElem?_modify] at hj
    obtain ⟨l, hold, hnew⟩ := Option.map_eq_some_iff.mp hj
    have hname : l'.name = l.name := by
      subst hnew
      split <;> rfl
    exact hname ▸ h.named (List.mem_of_getElem? hold)
  leased hl hlive := h.leased (mark_mem hl hlive.1) hlive
  distinct hi hj hl hl' := h.distinct (mark_some hi hl.1).1 (mark_some hj hl'.1).1 hl hl'
  exclusive hi hj hl hl' := h.exclusive (mark_some hi hl.1).1 (mark_some hj hl'.1).1 hl hl'

theorem Guar.mark (h : Guar p s₀ s) (hi : s.leases[i]? = some l)
    (howner : l.owner = p) : Guar p s₀ (s.mark i) where
  alive := h.alive
  crashed := h.crashed
  uuids := h.uuids
  files := h.files
  temporary := h.temporary
  exclusive := h.exclusive
  carried := h.carried
  carrying := h.carrying
  published := h.published
  withdrawn := h.withdrawn
  kept {j l'} hj hne := by
    have hj' := h.kept hj hne
    have hij : i ≠ j := by
      rintro rfl
      rw [hi] at hj'
      cases hj'
      exact hne howner
    simp [WriterState.mark, hij, hj']
  granted hl hrel := h.granted (mark_mem hl hrel) hrel

theorem Inv.grant (h : Inv s) (hname : l.name = .sqljs ∨ ∃ m, l.name = .native m)
    (hclaimed : s.Claimed l.owner l.name)
    (halone : (l.name = .sqljs ∧ ∀ l' ∈ s.leases, ¬ s.Live l') ∨ s.files .sqljs = none) :
    Inv (s.grant l) := by
  have hmem : ∀ {j l'}, s.leases[j]? = some l' → l' ∈ s.leases := fun hj => List.mem_of_getElem? hj
  -- without an exclusive claim there is no exclusive admission
  have hshared : s.files .sqljs = none → ∀ l' : Lease, s.Mine l'.owner l'.name → l'.name ≠ .sqljs := by
    rintro hnone l' ⟨f, hf, -⟩ hl'
    rw [hl', hnone] at hf
    cases hf
  refine
    { drawn := h.drawn
      fits := h.fits
      temporary := h.temporary
      carried := h.carried
      past := h.past
      complete := h.complete
      named := fun hl => ?_
      leased := fun hl hlive => ?_
      distinct := fun hi hj hl hl' heq => ?_
      exclusive := fun hi hj hl hl' heq => ?_ }
  · rcases List.mem_append.mp hl with hl | hl
    · exact h.named hl
    · exact List.mem_singleton.mp hl ▸ hname
  · rcases List.mem_append.mp hl with hl | hl
    · exact h.leased hl hlive
    · exact List.mem_singleton.mp hl ▸ hclaimed.1
  · rcases grant_some hi with hold | ⟨rfl, rfl⟩ <;> rcases grant_some hj with hold' | ⟨rfl, rfl⟩
    · exact h.distinct hold hold' hl hl' heq
    · exact absurd heq (hclaimed.2 _ (hmem hold) hl)
    · exact absurd heq.symm (hclaimed.2 _ (hmem hold') hl')
    · rfl
  · rcases grant_some hi with hold | ⟨rfl, rfl⟩ <;> rcases grant_some hj with hold' | ⟨rfl, rfl⟩
    · exact h.exclusive hold hold' hl hl' heq
    · rcases halone with ⟨-, hnone⟩ | hnone
      · exact absurd hl (hnone _ (hmem hold))
      · exact absurd heq (hshared hnone _ (h.leased (hmem hold) hl))
    · rcases halone with ⟨-, hnone⟩ | hnone
      · exact absurd hl' (hnone _ (hmem hold'))
      · exact absurd heq (hshared hnone _ hclaimed.1)
    · rfl

theorem Guar.grant (h : Guar p s₀ s) (howner : l.owner = p)
    (halone : ∀ q, q ≠ p → ¬ s.Mine q .sqljs) :
    Guar p s₀ (s.grant l) where
  alive := h.alive
  crashed := h.crashed
  uuids := h.uuids
  files := h.files
  temporary := h.temporary
  exclusive := h.exclusive
  carried := h.carried
  carrying := h.carrying
  published := h.published
  withdrawn := h.withdrawn
  kept hj hne := getElem?_append_of_some (h.kept hj hne)
  granted hl hrel := by
    rcases List.mem_append.mp hl with hl | hl
    · rcases h.granted hl hrel with hold | hnew
      · exact Or.inl hold
      · exact Or.inr hnew
    · exact Or.inr ⟨List.mem_singleton.mp hl ▸ howner, halone⟩

end deliveries

end TokenProxy.Writer
