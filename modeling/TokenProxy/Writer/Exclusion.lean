import TokenProxy.Writer.Protocol

/-!
# Mutual exclusion of the admissions

Each program of the admission keeps to the protocol, operation by operation; so the protocol holds
in every interleaving of any number of processes.
-/

namespace TokenProxy.Writer

open TokenProxy.Lib WriterState

/-- What the host may answer: a listing shows the native claims in the directory, and a process is
reported dead only when it is dead. -/
def Honest (self : Identity) : (o : Op) → Host → WriterState → Prop
  | .readdir, host, s =>
    ∀ nonce < s.uuids.length, s.files (.native nonce) ≠ none → .native nonce ∈ host.listing
  | .ownerState record, host, s =>
    ownerState self record.identity host.startIdentity = .dead → record.identity.instanceId ∈ s.crashed
  | _, _, _ => True

instance (self : Identity) (o : Op) (host : Host)
    (s : WriterState) : Decidable (Honest self o host s) := by
  cases o
  case readdir => exact inferInstanceAs (Decidable (∀ nonce < s.uuids.length, _ → _))
  case ownerState record => exact inferInstanceAs (Decidable (_ → _))
  all_goals exact isTrue trivial

def admissionProtocol (processes : Nat → Identity) : Protocol (writers processes) where
  Honest p o host s := Honest (identityOf processes p) o host s
  Inv := Inv
  Guar := Guar

variable {processes : Nat → Identity} {p : Nat} {name : FileName} {s₀ s : WriterState} {A F : WriterState → Prop}

theorem stopped_eq_false : (writers processes).stopped s p = false ↔ p ∉ s.crashed := decide_eq_false_iff_not

theorem stable_of (hguar : ∀ q s s', q ≠ p → p ∉ s.crashed → Inv s → Inv s' → Guar q s s' → A s → A s')
    (hstop : ∀ q s, A s → A (s.stop q)) : (admissionProtocol processes).Stable p A := by
  rintro s s' hi hi' hs ⟨q, hq, hg | rfl⟩ hA
  · exact hguar q s s' hq (stopped_eq_false.mp hs) hi hi' hg hA
  · exact hstop q s hA

/-- A step of `p` towards the claim `name`: it takes nothing away. -/
structure Quiet (name : FileName) (s s' : WriterState) : Prop where
  uuids : s.uuids <+: s'.uuids
  crashed : s'.crashed = s.crashed
  leases : s'.leases = s.leases
  files : ∀ {name' f}, name'.Fixed → s.files name' = some f → s'.files name' = some f
  sqljs : name ≠ .sqljs → s'.files .sqljs = s.files .sqljs ∧ s'.exclusives = s.exclusives

/-- What `p` knows while it publishes the claim `name`. -/
structure Carried (processes : Nat → Identity) (p : Nat) (name : FileName)
    (F : WriterState → Prop) : Prop where
  stable : (admissionProtocol processes).Stable p F
  quiet : ∀ s s', Quiet name s s' → F s → F s'

namespace Carried

theorem trivial : Carried processes p name fun _ => True where
  stable := stable_of (fun _ _ _ _ _ _ _ _ h => h) fun _ _ h => h
  quiet _ _ _ h := h

theorem and {G : WriterState → Prop} (hF : Carried processes p name F)
    (hG : Carried processes p name G) :
    Carried processes p name fun s => F s ∧ G s where
  stable s s' hi hi' hs hr h := ⟨hF.stable s s' hi hi' hs hr h.1, hG.stable s s' hi hi' hs hr h.2⟩
  quiet s s' hq h := ⟨hF.quiet s s' hq h.1, hG.quiet s s' hq h.2⟩

theorem or {G : WriterState → Prop} (hF : Carried processes p name F)
    (hG : Carried processes p name G) :
    Carried processes p name fun s => F s ∨ G s where
  stable s s' hi hi' hs hr h := h.imp (hF.stable s s' hi hi' hs hr) (hG.stable s s' hi hi' hs hr)
  quiet s s' hq h := h.imp (hF.quiet s s' hq) (hG.quiet s s' hq)

theorem drawn (n q : Nat) : Carried processes p name fun s => s.uuids[n]? = some q where
  stable := stable_of (fun _ _ _ _ _ _ _ hg h => hg.uuid h) fun _ _ h => h
  quiet s s' hq h := by
    obtain ⟨rest, hrest⟩ := hq.uuids
    rw [← hrest]
    exact getElem?_append_of_some h

theorem dead (q : Nat) : Carried processes p name fun s => q ∈ s.crashed where
  stable := stable_of (fun _ _ _ _ _ _ _ hg h => hg.crashed ▸ h) fun _ _ h => List.mem_cons_of_mem _ h
  quiet _ _ hq h := hq.crashed ▸ h

theorem chain (n k : Nat) (a : Option Nat) : Carried processes p name fun s => s.Chain n k a where
  stable := stable_of (fun _ _ _ _ _ _ _ hg h => hg.chain h) fun _ _ h => h.stop
  quiet s s' hq h := by
    induction h with
    | root => exact .root
    | after _ hf hr hdead ih => exact .after ih (hq.files nofun hf) hr (hq.crashed ▸ hdead)

theorem gone (hname : name ≠ .sqljs) (n : Nat) : Carried processes p name fun s => s.Gone n where
  stable := stable_of (fun _ _ _ _ _ _ _ hg h => hg.gone h) fun _ _ h => h
  quiet s s' hq h := by
    obtain ⟨hfiles, hexcl⟩ := hq.sqljs hname
    exact ⟨hexcl ▸ h.1, hfiles ▸ h.2⟩

theorem seen (hname : name ≠ .sqljs) (c : Claim) : Carried processes p name fun s => s.Seen c where
  stable := stable_of (fun _ _ _ _ _ hi _ hg h => hg.seen hi h) fun _ _ h => h
  quiet s s' hq h := by
    obtain ⟨hfiles, -⟩ := hq.sqljs hname
    exact h.imp (fun hf => by rw [hfiles, hf]) ((gone hname _ : Carried processes p name _).quiet s s' hq)

theorem unpublished (hname : name ≠ .sqljs) (n : Nat) :
    Carried processes p name fun s => s.uuids[n]? = some p ∧ n ∉ s.exclusives where
  stable := stable_of
    (fun _ _ _ hne _ _ _ hg h => ⟨hg.uuid h.1, fun hin => (hg.carrying hin).elim h.2 fun hq => by
      rw [h.1] at hq
      exact hne (Option.some.inj hq).symm⟩)
    fun _ _ h => h
  quiet s s' hq h :=
    ⟨(drawn n p : Carried processes p name _).quiet s s' hq h.1, (hq.sqljs hname).2 ▸ h.2⟩

theorem mine {name' : FileName} (hfixed : name'.Fixed) : Carried processes p name fun s => s.Mine p name' where
  stable := stable_of (fun _ _ _ hne hp _ _ hg h => hg.mine hne hp h) fun _ _ h => h
  quiet _ _ hq h := by
    obtain ⟨f, hf, ho⟩ := h
    exact ⟨f, hq.files hfixed hf, ho⟩

theorem claimed {name' : FileName} (hfixed : name'.Fixed) : Carried processes p name fun s => s.Claimed p name' where
  stable := stable_of (fun _ _ _ hne hp _ hi' hg h => hg.claimed hi' hne hp h) fun _ _ h => h.stop
  quiet s s' hq h :=
    ⟨(mine hfixed : Carried processes p name _).quiet s s' hq h.1,
      fun l hl hlive => h.2 l (hq.leases ▸ hl) ⟨hlive.1, hq.crashed ▸ hlive.2⟩⟩

end Carried

theorem Quiet.draw : Quiet name s (s.draw p) := ⟨List.prefix_append _ _, rfl, rfl, fun _ h => h, fun _ => ⟨rfl, rfl⟩⟩

theorem Quiet.putTemporary {n : Nat} (f : File) : Quiet name s (s.put (.claim n) f) :=
  ⟨List.prefix_refl _, rfl, rfl, fun hfixed h => by rw [put_ne f (hfixed n), h], fun _ => ⟨put_ne f nofun, rfl⟩⟩

theorem Quiet.removeTemporary {n : Nat} : Quiet name s (s.remove (.claim n)) :=
  ⟨List.prefix_refl _, rfl, rfl, fun hfixed h => by rw [remove_ne (hfixed n), h], fun _ => ⟨remove_ne nofun, rfl⟩⟩

theorem Quiet.publish {f : File} (hfree : s.files name = none) : Quiet name s (s.publish name f) where
  uuids := List.prefix_refl _
  crashed := rfl
  leases := rfl
  files {name' f'} _ h := by
    refine (put_ne f ?_).trans h
    rintro rfl
    rw [hfree] at h
    cases h
  sqljs h := ⟨put_ne f (Ne.symm h), publish_exclusives f h⟩

/-! ### The operations -/

section operations

variable (hi : Inv s) (hg : Guar p s₀ s) (hA : (admissionProtocol processes).Stable p A) (hAs : A s)
include hi hg hA hAs

theorem wp_readClaim {Q : Except ErrorCode (Option Claim) → WriterState → WriterState → Prop}
    (hfixed : name.Fixed)
    (hnone : ∀ s, Inv s → p ∉ s.crashed → A s → s.files name = none → Q (.ok none) s s)
    (hsome : ∀ s f r, Inv s → p ∉ s.crashed → A s → s.files name = some f → f.content = some r →
      Q (.ok (some ⟨r, f.ino, f.dev⟩)) s s) :
    (admissionProtocol processes).wp p (readClaim name) Q s₀ s := by
  refine Protocol.wp_seq (Protocol.wp_perform A hi hg hA hAs fun s₁ e hi₁ hs _ hA₁ => ?_)
  have hp := stopped_eq_false.mp hs
  change Q (s₁.readClaim name) s₁ s₁
  unfold WriterState.readClaim
  split
  · rename_i hf
    exact hnone s₁ hi₁ hp hA₁ hf
  · rename_i f hf
    split
    · rename_i r hr
      exact hsome s₁ f r hi₁ hp hA₁ hf hr
    · rename_i hr
      exact absurd hr (hi₁.complete hf hfixed)

theorem wp_unlink {Q : Except ErrorCode Unit → WriterState → WriterState → Prop}
    (hnone : ∀ s, Inv s → p ∉ s.crashed → A s → s.files name = none → Q (.error .ENOENT) s s)
    (hsome : ∀ s, Inv s → p ∉ s.crashed → A s → Q (.ok ()) s (s.remove name)) :
    (admissionProtocol processes).wp p (unlink name) Q s₀ s := by
  refine Protocol.wp_seq (Protocol.wp_perform A hi hg hA hAs fun s₁ e hi₁ hs _ hA₁ => ?_)
  have hp := stopped_eq_false.mp hs
  change Q (s₁.unlink name).1 s₁ (s₁.unlink name).2
  unfold WriterState.unlink
  split
  · rename_i hf
    exact hnone s₁ hi₁ hp hA₁ hf
  · exact hsome s₁ hi₁ hp hA₁

theorem wp_openExclusive {Q : Except ErrorCode Unit → WriterState → WriterState → Prop}
    (hsome : ∀ s, Inv s → p ∉ s.crashed → A s → Q (.error .EEXIST) s s)
    (hnone : ∀ s f, Inv s → p ∉ s.crashed → A s → f.content = none → Q (.ok ()) s (s.put name f)) :
    (admissionProtocol processes).wp p (openExclusive name) Q s₀ s := by
  refine Protocol.wp_seq (Protocol.wp_perform A hi hg hA hAs fun s₁ e hi₁ hs _ hA₁ => ?_)
  have hp := stopped_eq_false.mp hs
  change Q (s₁.openExclusive name e.ino e.dev).1 s₁ (s₁.openExclusive name e.ino e.dev).2
  unfold WriterState.openExclusive
  split
  · exact hsome s₁ hi₁ hp hA₁
  · exact hnone s₁ _ hi₁ hp hA₁ rfl

theorem wp_writeFile {r : Record} {Q : Except ErrorCode Unit → WriterState → WriterState → Prop}
    (hnone : ∀ s, Inv s → p ∉ s.crashed → A s → s.files name = none → Q (.ok ()) s s)
    (hsome : ∀ s f, Inv s → p ∉ s.crashed → A s → f.content = some r → Q (.ok ()) s (s.put name f)) :
    (admissionProtocol processes).wp p (writeFile name r) Q s₀ s := by
  refine Protocol.wp_perform A hi hg hA hAs fun s₁ e hi₁ hs _ hA₁ => ?_
  have hp := stopped_eq_false.mp hs
  change Q (.ok ()) s₁ (s₁.writeFile name r)
  unfold WriterState.writeFile
  split
  · exact hsome s₁ _ hi₁ hp hA₁ rfl
  · rename_i hf
    exact hnone s₁ hi₁ hp hA₁ hf

theorem wp_link {source : FileName} {Q : Except ErrorCode Unit → WriterState → WriterState → Prop}
    (herr : ∀ e s, Inv s → p ∉ s.crashed → A s → Q (.error e) s s)
    (hok : ∀ s f, Inv s → p ∉ s.crashed → A s → s.files source = some f → s.files name = none →
      Q (.ok ()) s (s.publish name f)) :
    (admissionProtocol processes).wp p (link source name) Q s₀ s := by
  refine Protocol.wp_seq (Protocol.wp_perform A hi hg hA hAs fun s₁ e hi₁ hs _ hA₁ => ?_)
  have hp := stopped_eq_false.mp hs
  change Q (s₁.link source name).1 s₁ (s₁.link source name).2
  unfold WriterState.link
  split
  · exact herr _ s₁ hi₁ hp hA₁
  · exact herr _ s₁ hi₁ hp hA₁
  · rename_i f hf hfree
    exact hok s₁ f hi₁ hp hA₁ hf hfree

theorem wp_ownerState {r : Record} {Q : Except ErrorCode OwnerState → WriterState → WriterState → Prop}
    (h : ∀ state s, Inv s → p ∉ s.crashed → A s → (state = .dead → r.identity.instanceId ∈ s.crashed) →
      Q (.ok state) s s) :
    (admissionProtocol processes).wp p (ownerStateOf r) Q s₀ s :=
  Protocol.wp_perform A hi hg hA hAs fun s₁ _ hi₁ hs he hA₁ => h _ s₁ hi₁ (stopped_eq_false.mp hs) hA₁ he

theorem wp_claim {role : Role} {Q : Except ErrorCode Record → WriterState → WriterState → Prop}
    (h : ∀ s n, Inv s → p ∉ s.crashed → A s → (s.draw p).uuids[n]? = some p → n ∉ (s.draw p).exclusives →
      Q (.ok ⟨role, n, identityOf processes p⟩) s (s.draw p)) :
    (admissionProtocol processes).wp p (claim (identityOf processes p) role) Q s₀ s := by
  refine Protocol.wp_seq (Protocol.wp_perform A hi hg hA hAs fun s₁ e hi₁ hs _ hA₁ => ?_)
  refine h s₁ s₁.uuids.length hi₁ (stopped_eq_false.mp hs) hA₁ (by simp [WriterState.draw]) fun hin => ?_
  exact Nat.lt_irrefl _ (hi₁.past hin)

end operations

/-! ### Publishing a claim -/

section publish

variable {r : Record}

/-- A process that carries `F` from one operation to the next drew the record `r`. -/
structure Publishes (processes : Nat → Identity) (p : Nat) (name : FileName) (r : Record)
    (F : WriterState → Prop) : Prop where
  carried : Carried processes p name F
  fixed : name.Fixed
  fits : r.Fits name
  owner : r.identity.instanceId = p
  drawn : ∀ s, F s → s.uuids[r.nonce]? = some p

/-- The record may come to `name`. -/
def Fresh (name : FileName) (r : Record) (s : WriterState) : Prop := name = .sqljs → r.nonce ∉ s.exclusives

namespace Publishes

variable (h : Publishes processes p name r F)
include h

theorem stable : (admissionProtocol processes).Stable p fun s => F s ∧ Fresh name r s := by
  rintro s s' hi hi' hs hr ⟨hF, hnew⟩
  refine ⟨h.carried.stable s s' hi hi' hs hr hF, ?_⟩
  obtain ⟨q, hq, hg | rfl⟩ := hr
  · refine fun hname hin => (hg.carrying hin).elim (hnew hname) fun hd => hq ?_
    rw [h.drawn s hF] at hd
    exact (Option.some.inj hd).symm
  · exact hnew

theorem stable_temporary :
    (admissionProtocol processes).Stable p fun s =>
      (F s ∧ Fresh name r s) ∧ ∀ f, s.files (.claim r.nonce) = some f → f.content = some r := by
  rintro s s' hi hi' hs hr ⟨hF, hf⟩
  refine ⟨h.stable s s' hi hi' hs hr hF, ?_⟩
  obtain ⟨q, hq, hg | rfl⟩ := hr
  · rwa [hg.temporary (h.drawn s hF.1) (Ne.symm hq)]
  · exact hf

theorem wp_linkTemporary {Q : Except ErrorCode Unit → WriterState → WriterState → Prop} (hi : Inv s)
    (hg : Guar p s₀ s) (hF : F s) (hnew : Fresh name r s)
    (hf : ∀ f, s.files (.claim r.nonce) = some f → f.content = some r)
    (hok : ∀ s₀ s, Inv s → Guar p s₀ s → F s → s.Claimed p name → Q (.ok ()) s₀ s)
    (herr : ∀ e s₀ s, Inv s → Guar p s₀ s → F s → Fresh name r s → Q (.error e) s₀ s) :
    (admissionProtocol processes).wp p (link (.claim r.nonce) name) Q s₀ s := by
  refine wp_link hi hg h.stable_temporary ⟨⟨hF, hnew⟩, hf⟩
    (fun e s hi hp hA => herr e s s hi (Guar.refl hp) hA.1.1 hA.1.2) fun s f hi hp hA hf hfree => ?_
  have hr := hA.2 f hf
  have hd := h.drawn s hA.1.1
  refine hok s _ (hi.publish hfree h.fixed hr (h.owner ▸ hd) h.fits) (Guar.publish hp hfree h.fixed hr hd hA.1.2)
    (h.carried.quiet _ _ (Quiet.publish hfree) hA.1.1) ⟨⟨f, put_self f, ?_⟩, fun l hl hlive hname => ?_⟩
  · simp [File.owner?, hr, h.owner]
  · -- no admission has a name that is free
    obtain ⟨f', hf', -⟩ := hi.leased hl hlive
    rw [hname, hfree] at hf'
    cases hf'

theorem wp_writeTemporary {Q : Except ErrorCode Unit → WriterState → WriterState → Prop}
    (hi : Inv s) (hg : Guar p s₀ s) (hF : F s) (hnew : Fresh name r s)
    (hok : ∀ s₀ s, Inv s → Guar p s₀ s → F s → s.Claimed p name → Q (.ok ()) s₀ s)
    (herr : ∀ e s₀ s, Inv s → Guar p s₀ s → F s → Fresh name r s → Q (.error e) s₀ s) :
    (admissionProtocol processes).wp p (writeTemporary (.claim r.nonce) name r) Q s₀ s := by
  refine Protocol.wp_seq (wp_openExclusive hi hg h.stable ⟨hF, hnew⟩
    (fun s hi hp hA => herr _ s s hi (Guar.refl hp) hA.1 hA.2) fun s f hi hp hA hf => ?_)
  have hd := h.drawn s hA.1
  refine Protocol.wp_seq (wp_writeFile (hi.putTemporary hd (by simp [hf])) (Guar.putTemporary hi hp hd) h.stable
    ⟨h.carried.quiet _ _ (Quiet.putTemporary f) hA.1, hA.2⟩ ?_ ?_)
  all_goals clear hi hp hF hnew hA hd hg s
  -- the record is in the temporary file, if that is still there
  · intro s hi hp hA hf
    exact h.wp_linkTemporary hi (Guar.refl hp) hA.1 hA.2 (by simp [hf]) hok herr
  · intro s f hi hp hA hf
    have hd := h.drawn s hA.1
    refine h.wp_linkTemporary (hi.putTemporary hd fun r' hr' => ?_) (Guar.putTemporary hi hp hd)
      (h.carried.quiet _ _ (Quiet.putTemporary f) hA.1) hA.2 ?_ hok herr
    · rw [hf] at hr'
      cases hr'
      exact ⟨rfl, h.owner⟩
    · intro f' hf'
      rw [put_self] at hf'
      cases hf'
      exact hf

theorem wp_unlinkTemporary {G : WriterState → Prop}
    {Q : Except ErrorCode Unit → WriterState → WriterState → Prop}
    (hstable : (admissionProtocol processes).Stable p fun s => F s ∧ G s)
    (hG : ∀ s, G s → G (s.remove (.claim r.nonce))) (hi : Inv s) (hg : Guar p s₀ s) (hF : F s) (hGs : G s)
    (hok : ∀ s₀ s, Inv s → Guar p s₀ s → F s → G s → Q (.ok ()) s₀ s) :
    (admissionProtocol processes).wp p (unlinkTemporary (.claim r.nonce)) Q s₀ s := by
  refine Protocol.wp_seq (Protocol.wp_attempt (wp_unlink hi hg hstable ⟨hF, hGs⟩ ?_ ?_))
  · intro s hi hp hA _
    exact hok s s hi (Guar.refl hp) hA.1 hA.2
  · intro s hi hp hA
    exact hok s _ (hi.remove fun l hl _ => (hi.lease_name hl).1) (Guar.removeTemporary hi hp (h.drawn s hA.1))
      (h.carried.quiet _ _ (Quiet.removeTemporary (n := r.nonce)) hA.1) (hG s hA.2)

/-- **`publish`** leaves the claim under its name, or nothing of it. -/
theorem wp_publish {Q : Except ErrorCode (Option Claim) → WriterState → WriterState → Prop}
    (hi : Inv s) (hg : Guar p s₀ s) (hF : F s) (hnew : Fresh name r s)
    (hok : ∀ held s₀ s, Inv s → Guar p s₀ s → F s → s.Claimed p name → Q (.ok held) s₀ s)
    (herr : ∀ e s₀ s, Inv s → Guar p s₀ s → F s → Fresh name r s → Q (.error e) s₀ s) :
    (admissionProtocol processes).wp p (publish name r) Q s₀ s := by
  have hclaimed : Carried processes p name fun s => s.Claimed p name := .claimed h.fixed
  have hboth := (h.carried.and hclaimed).stable
  refine Protocol.wp_seq (Protocol.wp_seq (Protocol.wp_attempt (h.wp_writeTemporary hi hg hF hnew ?_ ?_)))
  · intro s₀ s hi hg hF hc
    refine Protocol.wp_seq (h.wp_unlinkTemporary hboth
      (fun s hc => hclaimed.quiet _ _ (Quiet.removeTemporary (n := r.nonce)) hc) hi hg hF hc fun s₀ s hi hg hF hc => ?_)
    exact wp_readClaim hi hg hboth ⟨hF, hc⟩ h.fixed (fun s hi hp hA _ => hok _ s s hi (Guar.refl hp) hA.1 hA.2)
      fun s f r hi hp hA _ _ => hok _ s s hi (Guar.refl hp) hA.1 hA.2
  · intro e s₀ s hi hg hF hnew
    exact Protocol.wp_seq (h.wp_unlinkTemporary h.stable (fun _ hnew => hnew) hi hg hF hnew
      fun s₀ s hi hg hF hnew => herr e s₀ s hi hg hF hnew)

end Publishes

end publish

/-! ### Reclaiming a stale claim -/

section reclaim

/-- What a process carries through the reclaiming of an exclusive claim. -/
structure Reclaims (processes : Nat → Identity) (p : Nat) (F : WriterState → Prop) : Prop where
  carried : ∀ name, name ≠ .sqljs → Carried processes p name F
  exclusive : ∀ s, F s → F (s.remove .sqljs)
  reaper : ∀ s n a, F s → F (s.remove (.reap n a))

/-- What a reclaimer knows of the claim `c` that it reclaims. -/
def Stale (c : Claim) (s : WriterState) : Prop :=
  s.Seen c ∧ c.record.identity.instanceId ∈ s.crashed ∧ s.uuids[c.record.nonce]? = some c.record.identity.instanceId

/-- It follows `k` dead reclaimers, unless the claim is gone. -/
def Follows (c : Claim) (k : Nat) (a : Option Nat) (s : WriterState) : Prop :=
  s.Chain c.record.nonce k a ∨ s.Gone c.record.nonce

theorem Carried.stale (hname : name ≠ .sqljs) (c : Claim) : Carried processes p name (Stale c) :=
  (Carried.seen hname c).and ((Carried.dead _).and (Carried.drawn _ _))

theorem Carried.follows (hname : name ≠ .sqljs) (c : Claim) (k : Nat) (a : Option Nat) :
    Carried processes p name (Follows c k a) :=
  (Carried.chain _ k a).or (Carried.gone hname _)

theorem Reclaims.stable (h : Reclaims processes p F) : (admissionProtocol processes).Stable p F :=
  (h.carried (.claim 0) nofun).stable

theorem stable_gone (n : Nat) : (admissionProtocol processes).Stable p fun s => s.Gone n :=
  (Carried.gone (by simp) n : Carried processes p (.claim 0) _).stable

theorem stable_removing : (admissionProtocol processes).Stable p fun s => s.Removing p :=
  stable_of (fun _ _ _ hne hp _ _ hg h => hg.removing hne hp h) fun _ _ h => h.stop

variable {c : Claim} {n k : Nat} {a : Option Nat}

theorem sameClaim_nonce {left right : Claim} (h : sameClaim (some left) (some right) = true) :
    left.record.nonce = right.record.nonce := by
  simp only [sameClaim, Bool.and_eq_true, beq_iff_eq] at h
  exact h.2

theorem Stale.eq_of_nonce (h : Stale c s) {f : File} {r : Record} (hf : s.files .sqljs = some f)
    (hr : f.content = some r)
    (hn : r.nonce = c.record.nonce) : f = ⟨c.ino, c.dev, some c.record⟩ := by
  rcases h.1 with hs | hgone
  · rw [hs] at hf
    exact (Option.some.inj hf).symm
  · exact absurd hn (hgone.2 f r hf hr)

theorem Stale.gone (h : Stale c s) (hne : s.files .sqljs ≠ some ⟨c.ino, c.dev, some c.record⟩) :
    s.Gone c.record.nonce :=
  h.1.resolve_left hne

/-- What `p` knows once its reclaimer's claim is in place. -/
structure AtTip (c : Claim) (k : Nat) (a : Option Nat) (p : Nat) (s : WriterState) : Prop where
  stale : Stale c s
  follows : Follows c k a s
  mine : s.Mine p (.reap c.record.nonce a)

theorem Carried.atTip (hname : name ≠ .sqljs) : Carried processes p name (AtTip c k a p) where
  stable s s' hi hi' hs hr h :=
    ⟨(Carried.stale hname c).stable s s' hi hi' hs hr h.stale,
      (Carried.follows hname c k a).stable s s' hi hi' hs hr h.follows,
      (Carried.mine (FileName.fixed_reap _ _) : Carried processes p name _).stable s s' hi hi' hs hr h.mine⟩
  quiet s s' hq h :=
    ⟨(Carried.stale hname c : Carried processes p name _).quiet s s' hq h.stale,
      (Carried.follows hname c k a : Carried processes p name _).quiet s s' hq h.follows,
      (Carried.mine (FileName.fixed_reap _ _) : Carried processes p name _).quiet s s' hq h.mine⟩

theorem stable_atTip (c : Claim) (k : Nat) (a : Option Nat) :
    (admissionProtocol processes).Stable p (AtTip c k a p) :=
  (Carried.atTip (by simp) : Carried processes p (.claim 0) _).stable

theorem AtTip.removing (h : AtTip c k a p s) {f : File} {r : Record} (hf : s.files .sqljs = some f)
    (hr : f.content = some r) (hn : r.nonce = c.record.nonce) : s.Removing p := by
  have heq := h.stale.eq_of_nonce hf hr hn
  subst heq
  cases hr
  refine ⟨_, _, hf, rfl, h.stale.2.1, k, a, h.follows.resolve_right fun hgone => ?_, h.mine⟩
  exact hgone.2 _ _ hf rfl rfl

theorem remove_removing (h : s.Removing p) (hi : Inv s) (hp : p ∉ s.crashed) :
    Inv (s.remove .sqljs) ∧ Guar p s (s.remove .sqljs) := by
  obtain ⟨f, r, hf, hr, hdead, htip⟩ := h
  refine ⟨hi.remove fun l hl hlive hname => ?_, Guar.remove hp ?_ nofun ?_ nofun⟩
  · have howner := (hname ▸ hi.leased hl hlive).owner hf hr
    exact hlive.2 (howner ▸ hdead)
  · intro f' q hf' ho _
    rw [hf] at hf'
    cases hf'
    simp only [File.owner?, hr, Option.map_some, Option.some.injEq] at ho
    exact ⟨ho ▸ hdead, nofun⟩
  · intro _ f' r' hf' hr'
    rw [hf] at hf'
    cases hf'
    rw [hr] at hr'
    cases hr'
    exact Or.inr htip

namespace Reclaims

variable (h : Reclaims processes p F) (hi : Inv s) (hg : Guar p s₀ s) (hF : F s)
include h hi hg hF

theorem wp_withdraw {held : Option Claim} {Q : Except ErrorCode Unit → WriterState → WriterState → Prop}
    (ht : AtTip c k a p s) (hgone : s.Gone c.record.nonce)
    (hdone : ∀ r s₀ s, Inv s → Guar p s₀ s → F s → Q r s₀ s) :
    (admissionProtocol processes).wp p (withdraw (.reap c.record.nonce a) held) Q s₀ s := by
  have hstable := h.stable.and ((stable_atTip c k a).and (stable_gone c.record.nonce))
  have hunlink : ∀ s, Inv s → p ∉ s.crashed → (F s ∧ AtTip c k a p s ∧ s.Gone c.record.nonce) →
      (admissionProtocol processes).wp p (unlink (.reap c.record.nonce a)) Q s s := by
    intro s hi hp hA
    refine wp_unlink hi (Guar.refl hp) hstable hA (fun s hi hp hA _ => hdone _ s s hi (Guar.refl hp) hA.1) ?_
    intro s hi hp hA
    refine hdone _ s _ (hi.remove fun l hl _ => (hi.lease_name (n := 0) hl).2 _ _) (Guar.remove hp ?_ nofun nofun ?_)
      (h.reaper s _ _ hA.1)
    · intro f q hf ho hne
      exact absurd (WriterState.Mine.unique ⟨f, hf, ho⟩ hA.2.1.mine) hne
    · intro m b hname
      cases hname
      exact hA.2.2
  refine Protocol.wp_seq (wp_readClaim hi hg hstable ⟨hF, ht, hgone⟩ (by simp) ?_ ?_)
  · intro s hi hp hA _
    exact hdone _ s s hi (Guar.refl hp) hA.1
  · intro s f r hi hp hA _ _
    exact Protocol.wp_ite (fun _ => hunlink s hi hp hA) fun _ => hdone _ s s hi (Guar.refl hp) hA.1

theorem wp_removeExclusive {Q : Except ErrorCode Unit → WriterState → WriterState → Prop}
    (ht : AtTip c k a p s)
    (hok : ∀ s₀ s, Inv s → Guar p s₀ s → F s → s.files .sqljs = none → Q (.ok ()) s₀ s)
    (herr : ∀ e s₀ s, Inv s → Guar p s₀ s → F s → AtTip c k a p s → s.Gone c.record.nonce → Q (.error e) s₀ s) :
    (admissionProtocol processes).wp p (removeExclusive c) Q s₀ s := by
  have hstable := h.stable.and (stable_atTip c k a)
  refine Protocol.wp_seq (wp_readClaim hi hg hstable ⟨hF, ht⟩ (by simp) ?_ ?_)
  · intro s hi hp hA hf
    exact herr _ s s hi (Guar.refl hp) hA.1 hA.2 (hA.2.stale.gone (by simp [hf]))
  · intro s f r hi hp hA hf hr
    refine Protocol.wp_ite (fun hdiffers => ?_) fun hsame => ?_
    · -- another claim is in its place
      refine herr _ s s hi (Guar.refl hp) hA.1 hA.2 (hA.2.stale.gone fun hin => ?_)
      rw [hf] at hin
      cases hin
      cases hr
      simp [sameClaim] at hdiffers
    · have hn : r.nonce = c.record.nonce := sameClaim_nonce (by simpa using hsame)
      refine wp_unlink hi (Guar.refl hp) (hstable.and stable_removing) ⟨hA, hA.2.removing hf hr hn⟩ ?_ ?_
      · intro s hi hp hA hf
        exact herr _ s s hi (Guar.refl hp) hA.1.1 hA.1.2 (hA.1.2.stale.gone (by simp [hf]))
      · intro s hi hp hA
        obtain ⟨hi', hg'⟩ := remove_removing hA.2 hi hp
        exact hok s _ hi' hg' (h.exclusive s hA.1.1) remove_self

theorem wp_reclaimHeld {held : Option Claim} {Q : Except ErrorCode Unit → WriterState → WriterState → Prop}
    (ht : AtTip c k a p s)
    (hok : ∀ s₀ s, Inv s → Guar p s₀ s → F s → s.files .sqljs = none → Q (.ok ()) s₀ s)
    (herr : ∀ e s₀ s, Inv s → Guar p s₀ s → F s → Q (.error e) s₀ s) :
    (admissionProtocol processes).wp p (reclaimHeld c (.reap c.record.nonce a) held) Q s₀ s := by
  refine Protocol.wp_seq (Protocol.wp_attempt (h.wp_removeExclusive hi hg hF ht hok ?_))
  intro e s₀ s hi hg hF ht hgone
  refine Protocol.wp_seq (h.wp_withdraw hi hg hF ht hgone fun r s₀ s hi hg hF => ?_)
  cases r with
  | ok => exact herr e s₀ s hi hg hF
  | error e' => exact herr e' s₀ s hi hg hF

end Reclaims

theorem Follows.after {f : File} {r : Record} (h : Follows c k a s)
    (hf : s.files (.reap c.record.nonce a) = some f ∨ s.Gone c.record.nonce) (hr : f.content = some r)
    (hdead : r.identity.instanceId ∈ s.crashed) : Follows c (k + 1) (some r.nonce) s := by
  rcases h with hc | hgone
  · rcases hf with hf | hgone
    · exact Or.inl (.after hc hf hr hdead)
    · exact Or.inr hgone
  · exact Or.inr hgone

theorem stable_reaper (n : Nat) (a : Option Nat) (f : File) :
    (admissionProtocol processes).Stable p fun s => s.files (.reap n a) = some f ∨ s.Gone n := by
  refine stable_of (fun q s s' _ _ _ _ hg h => ?_) fun _ _ h => h
  rcases h with hf | hgone
  · by_cases hf' : s'.files (.reap n a) = some f
    · exact Or.inl hf'
    · exact Or.inr (hg.gone (hg.withdrawn hf hf'))
  · exact Or.inr (hg.gone hgone)

namespace Reclaims

variable (h : Reclaims processes p F)
include h

theorem publishes {m : Nat} :
    Publishes processes p (.reap c.record.nonce a) ⟨.reaper, m, identityOf processes p⟩
      fun s => (F s ∧ Stale c s ∧ Follows c k a s) ∧ s.uuids[m]? = some p where
  carried := ((h.carried _ (by simp)).and ((Carried.stale (by simp) c).and (Carried.follows (by simp) c k a))).and (.drawn m p)
  fixed := by simp
  fits := Or.inr fun _ => nofun
  owner := rfl
  drawn _ h := h.2

/-- **The reclaimers**: by induction on the rounds left, each round one dead reclaimer further. -/
theorem wp_reclaimFrom {Q : Except ErrorCode Unit → WriterState → WriterState → Prop}
    (hok : ∀ s₀ s, Inv s → Guar p s₀ s → F s → s.files .sqljs = none → Q (.ok ()) s₀ s)
    (herr : ∀ e s₀ s, Inv s → Guar p s₀ s → F s → Q (.error e) s₀ s) (depth : Nat) :
    ∀ k a s₀ s, Inv s → Guar p s₀ s → F s → Stale c s → Follows c k a s →
      (admissionProtocol processes).wp p (reclaimFrom (identityOf processes p) c depth a) Q s₀ s := by
  induction depth with
  | zero => exact fun k a s₀ s hi hg hF _ _ => herr _ s₀ s hi hg hF
  | succ depth ih =>
    intro k a s₀ s hi hg hF hs hc
    have hcarried : Carried processes p (.claim 0) fun s => F s ∧ Stale c s ∧ Follows c k a s :=
      (h.carried _ (by simp)).and ((Carried.stale (by simp) c).and (Carried.follows (by simp) c k a))
    refine Protocol.wp_seq (wp_claim hi hg hcarried.stable ⟨hF, hs, hc⟩ fun s n hi hp hA hn _ => ?_)
    have hA' := hcarried.quiet _ _ (Quiet.draw (p := p)) hA
    refine Protocol.wp_seq (Protocol.wp_attempt (h.publishes.wp_publish hi.draw (Guar.draw hp) ⟨hA', hn⟩ nofun ?_ ?_))
    · intro held s₀ s hi hg hA hclaimed
      exact h.wp_reclaimHeld hi hg hA.1.1 ⟨hA.1.2.1, hA.1.2.2, hclaimed.1⟩ hok herr
    · intro e s₀ s hi hg hA _
      by_cases he : e = .EEXIST
      · subst he
        -- another reclaimer is there: a dead one is followed
        refine Protocol.wp_seq (wp_readClaim hi hg hcarried.stable hA.1 (by simp) ?_ ?_)
        · exact fun s hi hp hA _ => herr _ s s hi (Guar.refl hp) hA.1
        · intro s f r hi hp hA hf hr
          refine Protocol.wp_ite (fun _ => herr _ s s hi (Guar.refl hp) hA.1) fun _ => ?_
          refine Protocol.wp_seq (wp_ownerState hi (Guar.refl hp) (hcarried.stable.and (stable_reaper _ _ f))
            ⟨hA, Or.inl hf⟩ fun state s hi hp hA hdead => ?_)
          refine Protocol.wp_ite (fun _ => herr _ s s hi (Guar.refl hp) hA.1.1) fun hstate => ?_
          exact ih (k + 1) _ s s hi (Guar.refl hp) hA.1.1 hA.1.2.1
            (hA.1.2.2.after hA.2 hr (hdead (not_not.mp hstate)))
      · cases e <;> first | exact absurd rfl he | exact herr _ s₀ s hi hg hA.1.1

/-- **`ensureNoExclusive`** returns at a moment without an exclusive claim. -/
theorem wp_ensureNoExclusive {Q : Except ErrorCode Unit → WriterState → WriterState → Prop}
    (hi : Inv s) (hg : Guar p s₀ s) (hF : F s)
    (hok : ∀ s₀ s, Inv s → Guar p s₀ s → F s → s.files .sqljs = none → Q (.ok ()) s₀ s)
    (herr : ∀ e s₀ s, Inv s → Guar p s₀ s → F s → Q (.error e) s₀ s) :
    (admissionProtocol processes).wp p (ensureNoExclusive (identityOf processes p)) Q s₀ s := by
  refine Protocol.wp_seq (wp_readClaim hi hg h.stable hF (by simp) ?_ ?_)
  · exact fun s hi hp hF hf => hok s s hi (Guar.refl hp) hF hf
  · intro s f r hi hp hF hf hr
    refine Protocol.wp_ite (fun _ => herr _ s s hi (Guar.refl hp) hF) fun _ => ?_
    have hseen : s.Seen ⟨r, f.ino, f.dev⟩ := Or.inl (by rw [hf, ← hr])
    have hcarried : Carried processes p (.claim 0) fun s => s.Seen ⟨r, f.ino, f.dev⟩ ∧
        s.uuids[r.nonce]? = some r.identity.instanceId := (Carried.seen (by simp) _).and (.drawn _ _)
    refine Protocol.wp_seq (wp_ownerState hi (Guar.refl hp) (h.stable.and hcarried.stable)
      ⟨hF, hseen, hi.drawn hf hr⟩ fun state s hi hp hA hdead => ?_)
    refine Protocol.wp_ite (fun _ => herr _ s s hi (Guar.refl hp) hA.1) fun hstate => ?_
    exact h.wp_reclaimFrom hok herr MAX_RECLAIM_DEPTH 0 none s s hi (Guar.refl hp) hA.1
      ⟨hA.2.1, hdead (not_not.mp hstate), hA.2.2⟩ (Or.inl .root)

end Reclaims

end reclaim

/-! ### The admissions -/

section admissions

variable {l : Lease}

theorem wp_withAdmission {body : Fs Unit} {Q : Except ErrorCode Lease → WriterState → WriterState → Prop}
    (hrel : l.released = false) (hfixed : l.name.Fixed) (hreap : ∀ m a, l.name ≠ .reap m a)
    (hbody : (admissionProtocol processes).wp p body (fun r s₀ s => match r with
      | .ok () => Q (.ok l) s₀ s
      | .error _ => Inv s ∧ Guar p s₀ s ∧ s.Claimed p l.name) s₀ s)
    (herr : ∀ e s₀ s, Inv s → Guar p s₀ s → Q (.error e) s₀ s) :
    (admissionProtocol processes).wp p (withAdmission l body) Q s₀ s := by
  have hstable : (admissionProtocol processes).Stable p fun s => s.Claimed p l.name :=
    (Carried.claimed hfixed : Carried processes p (.claim 0) _).stable
  refine Protocol.wp_seq (Protocol.wp_attempt (Protocol.wp_mono (fun r s₀ s h => ?_) hbody))
  cases r with
  | ok => exact h
  | error e =>
    obtain ⟨hi, hg, hc⟩ := h
    -- the claim is checked, and removed
    refine Protocol.wp_seq (Protocol.wp_ite (fun hreleased => ?_) fun _ => ?_)
    · rw [hrel] at hreleased
      cases hreleased
    refine Protocol.wp_seq (Protocol.wp_ite (fun hreleased => ?_) fun _ => ?_)
    · rw [hrel] at hreleased
      cases hreleased
    have hremove : ∀ s, Inv s → p ∉ s.crashed → s.Claimed p l.name →
        (admissionProtocol processes).wp p (unlink l.name)
          (fun r s₀ s => (admissionProtocol processes).wp p (Fallible.andThen (fun _ => Fallible.throw e) r) Q s₀ s) s s := by
      intro s hi hp hc
      refine wp_unlink hi (Guar.refl hp) hstable hc ?_ ?_
      · intro s hi hp _ _
        exact herr _ s s hi (Guar.refl hp)
      · intro s hi hp hc
        obtain ⟨hi', hg'⟩ := Claimed.remove hi hp hc hfixed hreap
        exact herr e s _ hi' hg'
    refine Protocol.wp_seq (wp_readClaim hi hg hstable hc hfixed ?_ ?_)
    · intro s hi hp hc _
      exact herr _ s s hi (Guar.refl hp)
    · intro s f r hi hp hc _ _
      refine Protocol.wp_ite (fun _ => ?_) fun _ => ?_
      · exact herr _ s s hi (Guar.refl hp)
      · exact hremove s hi hp hc

theorem Reclaims.trivial : Reclaims processes p fun _ => True :=
  ⟨fun _ _ => Carried.trivial, fun _ _ => True.intro, fun _ _ _ _ => True.intro⟩

theorem Reclaims.claimed (m : Nat) : Reclaims processes p fun s => s.Claimed p (.native m) where
  carried _ _ := Carried.claimed (by simp)
  exclusive _ h := ⟨h.1.remove (by simp), h.2⟩
  reaper _ _ _ h := ⟨h.1.remove (by simp), h.2⟩

theorem Reclaims.unpublished (n : Nat) : Reclaims processes p fun s => s.uuids[n]? = some p ∧ n ∉ s.exclusives where
  carried _ hname := Carried.unpublished hname n
  exclusive _ h := h
  reaper _ _ _ h := h

variable {Q : Except ErrorCode Lease → WriterState → WriterState → Prop} (hi : Inv s) (hp : p ∉ s.crashed)
include hi hp

theorem wp_acquireNative
    (hok : ∀ m held s₀ s, Inv s → Guar p s₀ s → s.Claimed p (.native m) → s.files .sqljs = none →
      Q (.ok ⟨p, .native m, held, false⟩) s₀ s)
    (herr : ∀ e s₀ s, Inv s → Guar p s₀ s → Q (.error e) s₀ s) :
    (admissionProtocol processes).wp p (acquireNativeWriterAdmission (identityOf processes p)) Q s s := by
  refine Protocol.wp_seq (Reclaims.trivial.wp_ensureNoExclusive hi (Guar.refl hp) True.intro ?_ ?_)
  · intro s₀ s hi hg _ _
    refine Protocol.wp_seq (wp_claim hi hg Reclaims.trivial.stable True.intro fun s m hi hp _ hm _ => ?_)
    have hpub : Publishes processes p (.native m) ⟨.native, m, identityOf processes p⟩ fun s => s.uuids[m]? = some p :=
      ⟨.drawn m p, by simp, Or.inl rfl, rfl, fun _ h => h⟩
    refine Protocol.wp_seq (hpub.wp_publish hi.draw (Guar.draw hp) hm nofun ?_ ?_)
    · intro held s₀ s hi hg _ hc
      refine wp_withAdmission rfl (by simp) (by simp) ((Reclaims.claimed m).wp_ensureNoExclusive hi hg hc ?_ ?_) herr
      · exact fun s₀ s hi hg hc hnone => hok m held s₀ s hi hg hc hnone
      · exact fun e s₀ s hi hg hc => ⟨hi, hg, hc⟩
    · exact fun e s₀ s hi hg _ _ => herr e s₀ s hi hg
  · exact fun e s₀ s hi hg _ => herr e s₀ s hi hg

omit hp in
theorem wp_publishExclusive {n : Nat} {Q : Except ErrorCode (Option Claim) → WriterState → WriterState → Prop}
    (hg : Guar p s₀ s) (hn : s.uuids[n]? = some p) (hnew : n ∉ s.exclusives)
    (hok : ∀ held s₀ s, Inv s → Guar p s₀ s → s.Claimed p .sqljs → Q (.ok held) s₀ s)
    (herr : ∀ e s₀ s, Inv s → Guar p s₀ s → Q (.error e) s₀ s) :
    (admissionProtocol processes).wp p
      (publishExclusive (identityOf processes p) ⟨.sqljs, n, identityOf processes p⟩) Q s₀ s := by
  have hpub : Publishes processes p .sqljs ⟨.sqljs, n, identityOf processes p⟩ fun s => s.uuids[n]? = some p :=
    ⟨.drawn n p, by simp, Or.inr fun _ => nofun, rfl, fun _ h => h⟩
  refine Protocol.wp_seq (Protocol.wp_attempt (hpub.wp_publish hi hg hn (fun _ => hnew) ?_ ?_))
  · exact fun held s₀ s hi hg _ hc => hok held s₀ s hi hg hc
  · intro e s₀ s hi hg hn hnew
    by_cases he : e = .EEXIST
    · subst he
      refine Protocol.wp_seq ((Reclaims.unpublished n).wp_ensureNoExclusive hi hg ⟨hn, hnew rfl⟩ ?_ ?_)
      · intro s₀ s hi hg hF _
        refine Protocol.wp_seq (Protocol.wp_attempt (hpub.wp_publish hi hg hF.1 (fun _ => hF.2) ?_ ?_))
        · exact fun held s₀ s hi hg _ hc => hok held s₀ s hi hg hc
        · intro e s₀ s hi hg _ _
          cases e <;> exact herr _ s₀ s hi hg
      · exact fun e s₀ s hi hg _ => herr e s₀ s hi hg
    · cases e <;> first | exact absurd rfl he | exact herr _ s₀ s hi hg

omit hi hp in
theorem stable_scanned (processes : Nat → Identity) (p : Nat) (names : List FileName) :
    (admissionProtocol processes).Stable p fun s => s.Scanned p names :=
  stable_of (fun _ _ _ hne hp _ _ hg h => hg.scanned hne hp h) fun _ _ h => h.stop

omit hi hp in
/-- **The listing**: by induction on the names left, each native claim
belongs to no live admission. -/
theorem wp_scanNatives {Q : Except ErrorCode Unit → WriterState → WriterState → Prop}
    (hok : ∀ s₀ s, Inv s → Guar p s₀ s → s.Scanned p [] → Q (.ok ()) s₀ s)
    (herr : ∀ e s₀ s, Inv s → Guar p s₀ s → s.Claimed p .sqljs → Q (.error e) s₀ s) (names : List FileName) :
    ∀ s₀ s, Inv s → Guar p s₀ s → s.Scanned p names →
      (admissionProtocol processes).wp p (scanNatives names) Q s₀ s := by
  induction names with
  | nil => exact hok
  | cons name names ih =>
    intro s₀ s hi hg hc
    cases name with
    | sqljs => exact ih s₀ s hi hg (hc.skip fun l hl hlive => (hc.2 l hl hlive).1)
    | reap n a => exact ih s₀ s hi hg (hc.skip fun l hl _ => (hi.lease_name (n := 0) hl).2 n a)
    | claim n => exact ih s₀ s hi hg (hc.skip fun l hl _ => (hi.lease_name hl).1)
    | native m =>
      have hstable := stable_scanned processes p (.native m :: names)
      refine Protocol.wp_seq (wp_readClaim hi hg hstable hc (by simp) ?_ ?_)
      · intro s hi hp hc hf
        refine ih s s hi (Guar.refl hp) (hc.skip fun l hl hlive hname => ?_)
        obtain ⟨f, hf', -⟩ := hi.leased hl hlive
        rw [hname, hf] at hf'
        cases hf'
      · intro s f r hi hp hc hf hr
        refine Protocol.wp_ite (fun _ => herr _ s s hi (Guar.refl hp) hc.claimed) fun _ => ?_
        have hdrawn : s.uuids[m]? = some r.identity.instanceId := hi.native_owner hf (by simp [File.owner?, hr])
        have hd : Carried processes p (.claim 0) fun s => s.uuids[m]? = some r.identity.instanceId := .drawn m _
        refine Protocol.wp_seq (wp_ownerState hi (Guar.refl hp) (hstable.and hd.stable) ⟨hc, hdrawn⟩
          fun state s hi hp hA hdead => ?_)
        refine Protocol.wp_ite (fun _ => herr _ s s hi (Guar.refl hp) hA.1.claimed) fun hstate => ?_
        have hdead := hdead (not_not.mp hstate)
        have hcrashed : Carried processes p (.claim 0) fun s => r.identity.instanceId ∈ s.crashed := .dead _
        refine Protocol.wp_seq (wp_unlink hi (Guar.refl hp) ((hstable.and hd.stable).and hcrashed.stable) ⟨hA, hdead⟩ ?_ ?_)
        · exact fun s hi hp hA _ => herr _ s s hi (Guar.refl hp) hA.1.1.claimed
        · intro s hi hp hA
          obtain ⟨hi', hg'⟩ := hi.removeDead hp hA.1.2 hA.2
          have hc' : (s.remove (.native m)).Scanned p (.native m :: names) := ⟨hA.1.1.1.remove (by simp), hA.1.1.2⟩
          refine ih s _ hi' hg' (hc'.skip fun l hl hlive hname => ?_)
          obtain ⟨f', hf', -⟩ := hi'.leased hl hlive
          rw [hname, remove_self] at hf'
          cases hf'

theorem wp_acquireSqlJs
    (hok : ∀ held s₀ s, Inv s → Guar p s₀ s → s.Scanned p [] → Q (.ok ⟨p, .sqljs, held, false⟩) s₀ s)
    (herr : ∀ e s₀ s, Inv s → Guar p s₀ s → Q (.error e) s₀ s) :
    (admissionProtocol processes).wp p (acquireSqlJsWriterAdmission (identityOf processes p)) Q s s := by
  have hsqljs : Carried processes p (.claim 0) fun s => s.Claimed p .sqljs := .claimed (by simp)
  refine Protocol.wp_seq (wp_claim hi (Guar.refl hp) Reclaims.trivial.stable True.intro fun s n hi hp _ hn hnew => ?_)
  refine Protocol.wp_seq (wp_publishExclusive hi.draw (Guar.draw hp) hn hnew ?_ herr)
  intro held s₀ s hi hg hc
  refine wp_withAdmission rfl (by simp) (by simp) (Protocol.wp_seq (Protocol.wp_perform _ hi hg hsqljs.stable hc ?_)) herr
  intro s e hi hs he hc
  have hp := stopped_eq_false.mp hs
  refine wp_scanNatives (fun s₀ s hi hg hc => hok held s₀ s hi hg hc) (fun e s₀ s hi hg hc => ⟨hi, hg, hc⟩) e.listing s s
    hi (Guar.refl hp) ⟨hc.1, fun l hl hlive => ⟨hc.2 l hl hlive, ?_⟩⟩
  obtain ⟨f, hf, ho⟩ := Inv.leased hi hl hlive
  obtain ⟨m, hm⟩ := (Inv.named hi hl).resolve_left (hc.2 l hl hlive)
  rw [hm] at hf ⊢
  exact he m (List.getElem?_eq_some_iff.mp (Inv.native_owner hi hf ho)).1 (by simp [hf])

end admissions

/-! ### The calls -/

section calls

variable {i : Nat} {l : Lease}

theorem stable_lease (processes : Nat → Identity) (howner : l.owner = p) (i : Nat) :
    (admissionProtocol processes).Stable p fun s => s.leases[i]? = some l :=
  stable_of (fun _ _ _ hne _ _ _ hg h => hg.kept h (fun heq => hne (heq.symm.trans howner))) fun _ _ h => h

theorem release_removed (hi : Inv s) (hp : p ∉ s.crashed) (hl : s.leases[i]? = some l)
    (howner : l.owner = p) (hrel : l.released = false) :
    Inv ((s.remove l.name).mark i) ∧ Guar p s ((s.remove l.name).mark i) := by
  have hmem : l ∈ s.leases := List.mem_of_getElem? hl
  have hlive : s.Live l := ⟨hrel, howner ▸ hp⟩
  have hmine := hi.leased hmem hlive
  constructor
  · -- no other live admission has the name
    refine Inv.remove hi.mark fun l' hl' hlive' hname => ?_
    obtain ⟨j, hj⟩ := List.mem_iff_getElem?.mp hl'
    obtain ⟨hj', hne⟩ := mark_some hj hlive'.1
    exact hne (hi.distinct hj' hl hlive' hlive hname)
  · refine Guar.mark (Guar.remove hp (fun f q hf ho hne => ?_) (fun m hm => absurd hm (hi.lease_name hmem).1) ?_
      (fun m a hm => absurd hm ((hi.lease_name (n := 0) hmem).2 m a))) hl howner
    · exact absurd (Mine.unique ⟨f, hf, ho⟩ (howner ▸ hmine)) hne
    · intro hname f r hf hr
      exact Or.inl (howner ▸ hmine.owner (hname ▸ hf) hr)

theorem wp_release (hi : Inv s) (hp : p ∉ s.crashed) (hl : s.leases[i]? = some l)
    (howner : l.owner = p) :
    (admissionProtocol processes).wp p (onLease (identityOf processes p) s i Lease.release)
      ((admissionProtocol processes).Post p (.release i)) s s := by
  have hstable := stable_lease processes howner i
  have hsame : ∀ e s, Inv s → p ∉ s.crashed → (admissionProtocol processes).Post p (.release i) (.error e) s s :=
    fun e s hi hp => ⟨hi, Guar.refl hp⟩
  unfold onLease
  rw [hl]
  refine Protocol.wp_ite (fun _ => ?_) fun hne => absurd howner hne
  refine Protocol.wp_seq (Protocol.wp_ite (fun hrel => ?_) fun hrel => ?_)
  · -- a lease already released
    exact ⟨hi.mark, (Guar.refl hp).mark hl howner⟩
  · rw [Bool.not_eq_true] at hrel
    refine Protocol.wp_seq (Protocol.wp_ite (fun hreleased => ?_) fun _ => ?_)
    · rw [hrel] at hreleased
      cases hreleased
    have hfixed : l.name.Fixed := fun n => (hi.lease_name (List.mem_of_getElem? hl)).1
    refine Protocol.wp_seq (wp_readClaim hi (Guar.refl hp) hstable hl hfixed ?_ ?_)
    · intro s hi hp _ _
      exact hsame _ s hi hp
    · intro s f r hi hp hl _ _
      refine Protocol.wp_ite (fun _ => ?_) fun _ => ?_
      · exact hsame _ s hi hp
      · refine wp_unlink hi (Guar.refl hp) hstable hl ?_ ?_
        · intro s hi hp _ _
          exact hsame _ s hi hp
        · intro s hi hp hl
          exact release_removed hi hp hl howner hrel

theorem wp_assertOwned (hi : Inv s) (hp : p ∉ s.crashed) (hl : s.leases[i]? = some l)
    (howner : l.owner = p) :
    (admissionProtocol processes).wp p (onLease (identityOf processes p) s i Lease.assertOwned)
      ((admissionProtocol processes).Post p (.assertOwned i)) s s := by
  unfold onLease
  rw [hl]
  refine Protocol.wp_ite (fun _ => ?_) fun hne => absurd howner hne
  refine Protocol.wp_seq (Protocol.wp_ite (fun _ => ⟨hi, Guar.refl hp⟩) fun _ => ?_)
  have hfixed : l.name.Fixed := fun n => (hi.lease_name (List.mem_of_getElem? hl)).1
  refine Protocol.wp_seq (wp_readClaim hi (Guar.refl hp) (stable_lease processes howner i) hl hfixed ?_ ?_)
  · exact fun s hi hp _ _ => ⟨hi, Guar.refl hp⟩
  · intro s f r hi hp _ _ _
    refine Protocol.wp_ite (fun _ => ?_) fun _ => ?_
    · exact ⟨hi, Guar.refl hp⟩
    · exact ⟨hi, Guar.refl hp⟩

theorem onLease_other {f : Lease → Fs Unit} (h : ∀ l, s.leases[i]? = some l → l.owner ≠ p) :
    onLease (identityOf processes p) s i f = invalid := by
  unfold onLease
  split
  · rename_i l hl
    exact if_neg (h l hl)
  · rfl

/-- **Every call keeps to the protocol.** -/
theorem wp_code (hi : Inv s) (hp : p ∉ s.crashed) (c : Call) :
    (admissionProtocol processes).wp p (code (identityOf processes p) c s)
      ((admissionProtocol processes).Post p c) s s := by
  cases c with
  | acquireNativeWriterAdmission =>
    refine Protocol.wp_seq (wp_acquireNative hi hp ?_ fun e s₀ s hi hg => ⟨hi, hg⟩)
    intro m held s₀ s hi hg hc hnone
    refine ⟨hi.grant (Or.inr ⟨m, rfl⟩) hc (Or.inr hnone), hg.grant rfl ?_⟩
    rintro q - ⟨f, hf, -⟩
    rw [hnone] at hf
    cases hf
  | acquireSqlJsWriterAdmission =>
    refine Protocol.wp_seq (wp_acquireSqlJs hi hp ?_ fun e s₀ s hi hg => ⟨hi, hg⟩)
    intro held s₀ s hi hg hc
    refine ⟨hi.grant (Or.inl rfl) hc.claimed (Or.inl ⟨rfl, fun l hl hlive => ?_⟩), hg.grant rfl ?_⟩
    · exact List.not_mem_nil (hc.2 l hl hlive).2
    · exact fun q hne hm => hne (hm.unique hc.1)
  | assertOwned i =>
    by_cases h : ∃ l, s.leases[i]? = some l ∧ l.owner = p
    · obtain ⟨l, hl, howner⟩ := h
      exact wp_assertOwned hi hp hl howner
    · change (admissionProtocol processes).wp p (onLease _ s i _) _ s s
      rw [onLease_other fun l hl howner => h ⟨l, hl, howner⟩]
      exact ⟨hi, Guar.refl hp⟩
  | release i =>
    by_cases h : ∃ l, s.leases[i]? = some l ∧ l.owner = p
    · obtain ⟨l, hl, howner⟩ := h
      exact wp_release hi hp hl howner
    · change (admissionProtocol processes).wp p (onLease _ s i _) _ s s
      rw [onLease_other fun l hl howner => h ⟨l, hl, howner⟩]
      exact ⟨hi, Guar.refl hp⟩

theorem admissionProtocol_sound (processes : Nat → Identity) : (admissionProtocol processes).Sound where
  code _ c _ hi hs := wp_code hi (stopped_eq_false.mp hs) c
  stop _ _ hi := hi.stop
  stopped_stop p q s := by
    rw [stopped_eq_false, stopped_eq_false]
    exact List.mem_cons.not.trans not_or
  stopped_guar p q s s' hg := by
    change decide (q ∈ s'.crashed) = decide (q ∈ s.crashed)
    rw [Guar.crashed hg]

theorem inv_noWriters : Inv noWriters.shared := by
  constructor <;> intros <;> simp_all [noWriters]

theorem safe_noWriters (processes : Nat → Identity) :
    (admissionProtocol processes).Safe noWriters :=
  ⟨inv_noWriters, nofun⟩

end calls

/-- **Writer admission is exclusive.** However the operations of any number of processes interleave
and wherever processes die, if a process is reported dead only when it is dead: a live exclusive
admission is the only live admission; the claim of every live admission is in the directory; and a
step removes no claim of another process that is alive. -/
theorem writerAdmission_exclusive (processes : Nat → Identity) (events : List (Event Nat Call Host))
    (honest : Meets (writers processes).next (admissionProtocol processes).Admissible noWriters events) :
    let w := run (writers processes).next noWriters events
    (∀ (i j : Nat) (l l' : Lease), w.shared.leases[i]? = some l → w.shared.leases[j]? = some l' →
      w.shared.Live l → w.shared.Live l' → l.name = .sqljs → i = j) ∧
    (∀ l ∈ w.shared.leases, w.shared.Live l → w.shared.Mine l.owner l.name) ∧
    ∀ (p : Nat) (host : Host), (admissionProtocol processes).Admissible w (.step p host) →
      ∀ (name : FileName) (f : File) (q : Nat), w.shared.files name = some f → f.owner? = some q → q ≠ p →
        q ∉ w.shared.crashed → ((writers processes).next w (.step p host)).shared.files name = some f := by
  intro w
  have hsafe : (admissionProtocol processes).Safe w :=
    (admissionProtocol_sound processes).run_safe (safe_noWriters processes) honest
  have hi : Inv w.shared := hsafe.inv
  refine ⟨fun i j l l' h h' hl hl' hname => hi.exclusive h h' hl hl' hname, fun l hl hlive => hi.leased hl hlive, ?_⟩
  intro p host hhost name f q hf ho hne hlive
  rcases hsafe.step_guar (admissionProtocol_sound processes) hhost with hsame | hg
  · rw [hsame]
    exact hf
  · have hg : Guar p w.shared ((writers processes).next w (.step p host)).shared := hg
    exact hg.files hf ho hne (Or.inl hlive)

def honestly (processes : Nat → Identity) (w : World Nat Call Op WriterState Answer (Except ErrorCode (Option Lease))) :
    Event Nat Call Host → Bool
  | .step p host =>
    match w.running p with
    | some (_, .call o _) => decide (Honest (identityOf processes p) o host w.shared)
    | _ => true
  | _ => true

theorem admissible_of_honestly {processes : Nat → Identity}
    {w : World Nat Call Op WriterState Answer (Except ErrorCode (Option Lease))} {ev : Event Nat Call Host}
    (h : honestly processes w ev = true) : (admissionProtocol processes).Admissible w ev := by
  cases ev with
  | start p c => trivial
  | crash p => trivial
  | step p host =>
    intro c o k hrun
    simp only [honestly, hrun] at h
    show Honest (identityOf processes p) o host w.shared
    exact of_decide_eq_true h

def someProcesses (p : Nat) : Identity := ⟨p, 100 + p, some "machine", some "boot", some "1"⟩

def someHost : Host := ⟨7, 1, [.sqljs], fun _ => .error .ESRCH⟩

/-- Process 0 is admitted exclusively and dies; process 1 reclaims its claim and is admitted. -/
def someAdmissions : List (Event Nat Call Host) :=
  @List.cons (Event Nat Call Host) (.start 0 .acquireSqlJsWriterAdmission) [] ++ @List.replicate (Event Nat Call Host) 7 (.step 0 someHost) ++
    @List.cons (Event Nat Call Host) (.crash 0) [] ++ @List.cons (Event Nat Call Host) (.start 1 .acquireSqlJsWriterAdmission) [] ++
    @List.replicate (Event Nat Call Host) 21 (.step 1 someHost)

theorem someAdmissions_exclusive :
    let w := run (writers someProcesses).next noWriters someAdmissions
    w.shared.leases.map (fun l => (l.owner, l.name)) = [(0, .sqljs), (1, .sqljs)] ∧
    ∀ (i j : Nat) (l l' : Lease), w.shared.leases[i]? = some l → w.shared.leases[j]? = some l' →
      w.shared.Live l → w.shared.Live l' → l.name = .sqljs → i = j := by
  have honest : Meets (writers someProcesses).next (fun w ev => honestly someProcesses w ev = true) noWriters
      someAdmissions := by
    decide +kernel
  exact ⟨by decide +kernel,
    (writerAdmission_exclusive someProcesses someAdmissions (honest.mono fun _ _ => admissible_of_honestly)).1⟩

end TokenProxy.Writer
