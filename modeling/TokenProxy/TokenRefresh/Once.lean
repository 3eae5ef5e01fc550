import TokenProxy.TokenRefresh.Entries

/-!
# Refresh tokens are redeemed and published once

What is in flight holds its lock or its place in the cache (`Inv`), and what has settled stays
(`Grows`). A call that asks for a publication gets one of its own redemption unless it meets a
publication that is in flight for an earlier one (`fits`).
-/

namespace TokenProxy.TokenRefresh

open Lib

variable {S : Type} {providers : Providers}

/-! ### What becomes of a redemption and of a publication -/

structure Redemption.Keeps (r r' : Redemption) : Prop where
  key : r'.key = r.key
  provider : r'.provider = r.provider
  credentials : r'.credentials = r.credentials
  settled : ∀ entry answer, r.phase = .settled entry answer → r'.phase = .settled entry answer

theorem Redemption.Keeps.refl (r : Redemption) : Redemption.Keeps r r := ⟨rfl, rfl, rfl, fun _ _ h => h⟩

structure Publication.Keeps (p p' : Publication S) : Prop where
  key : p'.key = p.key
  redemption : p'.redemption = p.redemption
  settled : ∀ answer, p.phase = .settled answer → p'.phase = .settled answer

theorem Redemption.Keeps.trans (r r' r'' : Redemption) (h : Redemption.Keeps r r')
    (h' : Redemption.Keeps r' r'') :
    Redemption.Keeps r r'' where
  key := h'.key.trans h.key
  provider := h'.provider.trans h.provider
  credentials := h'.credentials.trans h.credentials
  settled entry answer hr := h'.settled entry answer (h.settled entry answer hr)

theorem Publication.Keeps.refl (p : Publication S) : Publication.Keeps p p := ⟨rfl, rfl, fun _ h => h⟩

theorem Publication.Keeps.trans (p p' p'' : Publication S) (h : Publication.Keeps p p')
    (h' : Publication.Keeps p' p'') :
    Publication.Keeps p p'' where
  key := h'.key.trans h.key
  redemption := h'.redemption.trans h.redemption
  settled answer hp := h'.settled answer (h.settled answer hp)

structure Grows (now : Nat) (s s' : RefreshState S) : Prop where
  entries : Extends Entry.Keeps (Unanswered s now) s.entries s'.entries
  redemptions : Extends Redemption.Keeps (fun _ => True) s.redemptions s'.redemptions
  publications : Extends Publication.Keeps (fun _ => True) s.publications s'.publications

theorem Grows.refl (now : Nat) (s : RefreshState S) : Grows now s s :=
  ⟨.refl Entry.Keeps.refl _, .refl Redemption.Keeps.refl _, .refl Publication.Keeps.refl _⟩

theorem Grows.trans {now : Nat} {s s' s'' : RefreshState S} (h : Grows now s s')
    (h' : Grows now s' s'')
    (hentries : s'.entries = s.entries) (hcache : s'.refreshDedupCache = s.refreshDedupCache) : Grows now s s'' where
  entries := by
    have hunanswered : ∀ e, Unanswered s' now e → Unanswered s now e := by
      intro e h id hit hhit
      exact h id hit (by rw [cachedEntry, hcache, hentries]; exact hhit)
    rw [← hentries]
    exact h'.entries.mono hunanswered
  redemptions := h.redemptions.trans Redemption.Keeps.trans (fun _ _ _ _ => trivial) h'.redemptions
  publications := h.publications.trans Publication.Keeps.trans (fun _ _ _ _ => trivial) h'.publications

/-! ### The invariant -/

def Redemption.entry? (r : Redemption) : Option Nat :=
  match r.phase with
  | .awaiting entry => some entry
  | .settled entry _ => entry
  | _ => none

def Redemption.Unsettled (r : Redemption) : Prop := ∀ entry answer, r.phase ≠ .settled entry answer

def Publication.Unsettled (p : Publication S) : Prop := ∀ answer, p.phase ≠ .settled answer

def Publication.answer? (p : Publication S) : Option (Answer (Delivered S)) :=
  match p.phase with
  | .returned answer => some answer
  | .settled answer => some answer
  | _ => none

/-- The entry is of the redemption's token, and registered for its connection
with its credential revision. -/
structure Registered (providers : Providers) (e : Entry) (r : Redemption) : Prop where
  token : ∃ key token, refreshHandler providers r.provider = .exchange key ∧ truthy r.credentials.refreshToken = some token ∧
    e.key = s!"{key}:{token}"
  context : e.context = credentialContentRevision r.credentials
  revision : ∀ owner, ownerOf r.credentials = some owner → e.revisions.lookup owner = some (credentialRevision r.credentials)

structure RedemptionOk (providers : Providers) (s : RefreshState S) (i : Nat)
    (r : Redemption) : Prop where
  key : r.key = getRefreshLockKey r.provider r.credentials
  held : r.Unsettled → s.refreshLocks.lookup r.key = some i
  sourced : ∀ id, r.entry? = some id → ∃ e, s.entries[id]? = some e ∧ Registered providers e r ∧
    ∀ entry answer, r.phase = .settled entry answer →
      e.outcome.map (fun a => a.map (mergeRefreshedCredentials r.credentials)) = some answer

structure Published (p : Publication S) (answer : Answer (Option Refreshed)) : Prop where
  offered : ∀ refreshed offered, answer = .ok refreshed → toPublish refreshed = some offered → p.offered = some offered
  offering : p.phase = .offering → ∃ refreshed, answer = .ok refreshed ∧ (toPublish refreshed).isSome
  delivered : ∀ delivered, p.answer? = some (.ok delivered) → ∃ refreshed, answer = .ok refreshed ∧
    (delivered = .refreshed refreshed ∨ (toPublish refreshed).isSome)

structure PublicationOk (s : RefreshState S) (i : Nat) (p : Publication S) : Prop where
  held : p.Unsettled → s.publicationLocks.lookup p.key = some i
  redeemed : ∃ r, s.redemptions[p.redemption]? = some r ∧ r.key = p.key ∧
    (p.phase = .waiting ∨ ∃ entry answer, r.phase = .settled entry answer ∧ Published p answer)

structure Inv (providers : Providers) (s : RefreshState S) : Prop where
  cache : CacheInv s
  redemptions : ∀ (i : Nat) r, s.redemptions[i]? = some r → RedemptionOk providers s i r
  locked : ∀ k i, s.refreshLocks.lookup k = some i → ∃ r, s.redemptions[i]? = some r ∧ r.key = k
  publications : ∀ (i : Nat) p, s.publications[i]? = some p → PublicationOk s i p
  published : ∀ k i, s.publicationLocks.lookup k = some i → ∃ p, s.publications[i]? = some p ∧ p.key = k

theorem RedemptionOk.grows {now : Nat} {s s' : RefreshState S} (hgrows : Grows now s s') {i : Nat}
    {r : Redemption}
    (h : RedemptionOk providers s i r) (hlock : r.Unsettled → s'.refreshLocks.lookup r.key = s.refreshLocks.lookup r.key) :
    RedemptionOk providers s' i r where
  key := h.key
  held hopen := (hlock hopen).trans (h.held hopen)
  sourced id hid := by
    obtain ⟨e, he, hregistered, hsettled⟩ := h.sourced id hid
    obtain ⟨e', he', hkeeps⟩ := hgrows.entries.kept id e he
    refine ⟨e', he', ⟨?_, hkeeps.context.trans hregistered.context, fun o ho => hkeeps.revisions o _ (hregistered.revision o ho)⟩, ?_⟩
    · rw [hkeeps.key]
      exact hregistered.token
    · intro entry answer hphase
      obtain ⟨a, ha, hanswer⟩ := Option.map_eq_some_iff.1 (hsettled entry answer hphase)
      rw [hkeeps.outcome a ha, Option.map_some, hanswer]

theorem PublicationOk.grows {now : Nat} {s s' : RefreshState S} (hgrows : Grows now s s') {i : Nat}
    {p : Publication S} (h : PublicationOk s i p)
    (hlock : p.Unsettled → s'.publicationLocks.lookup p.key = s.publicationLocks.lookup p.key) : PublicationOk s' i p where
  held hopen := (hlock hopen).trans (h.held hopen)
  redeemed := by
    obtain ⟨r, hr, hkey, hphase⟩ := h.redeemed
    obtain ⟨r', hr', hkeeps⟩ := hgrows.redemptions.kept _ r hr
    refine ⟨r', hr', hkeeps.key.trans hkey, hphase.imp_right ?_⟩
    rintro ⟨entry, answer, hsettled, hpublished⟩
    exact ⟨entry, answer, hkeeps.settled entry answer hsettled, hpublished⟩

/-- The invariant is kept if what changed is in order and what is in flight still holds its lock. -/
theorem Inv.grows {now : Nat} {s s' : RefreshState S} (h : Inv providers s)
    (hgrows : Grows now s s') (hcache : CacheInv s')
    (hlocks : ∀ k i, s'.refreshLocks.lookup k = some i →
      s.refreshLocks.lookup k = some i ∨ ∃ r, s'.redemptions[i]? = some r ∧ r.key = k)
    (hplocks : ∀ k i, s'.publicationLocks.lookup k = some i →
      s.publicationLocks.lookup k = some i ∨ ∃ p, s'.publications[i]? = some p ∧ p.key = k)
    (hredemptions : ∀ (i : Nat) r, s'.redemptions[i]? = some r →
      (s.redemptions[i]? = some r ∧ (r.Unsettled → s'.refreshLocks.lookup r.key = s.refreshLocks.lookup r.key)) ∨
        RedemptionOk providers s' i r)
    (hpublications : ∀ (i : Nat) p, s'.publications[i]? = some p →
      (s.publications[i]? = some p ∧ (p.Unsettled → s'.publicationLocks.lookup p.key = s.publicationLocks.lookup p.key)) ∨
        PublicationOk s' i p) :
    Inv providers s' where
  cache := hcache
  redemptions i r hr := by
    obtain ⟨hold, hlock⟩ | hok := hredemptions i r hr
    · exact (h.redemptions i r hold).grows hgrows hlock
    · exact hok
  locked k i hk := by
    obtain hold | hnew := hlocks k i hk
    · obtain ⟨r, hr, hkey⟩ := h.locked k i hold
      obtain ⟨r', hr', hkeeps⟩ := hgrows.redemptions.kept i r hr
      exact ⟨r', hr', hkeeps.key.trans hkey⟩
    · exact hnew
  publications i p hp := by
    obtain ⟨hold, hlock⟩ | hok := hpublications i p hp
    · exact (h.publications i p hold).grows hgrows hlock
    · exact hok
  published k i hk := by
    obtain hold | hnew := hplocks k i hk
    · obtain ⟨p, hp, hkey⟩ := h.published k i hold
      obtain ⟨p', hp', hkeeps⟩ := hgrows.publications.kept i p hp
      exact ⟨p', hp', hkeeps.key.trans hkey⟩
    · exact hnew

theorem Inv.redemptionStep {now : Nat} {s s' : RefreshState S} (h : Inv providers s)
    (hgrows : Grows now s s') (hcache : CacheInv s')
    (hlocks : s'.refreshLocks = s.refreshLocks) (hplocks : s'.publicationLocks = s.publicationLocks)
    (hpublications : s'.publications = s.publications)
    (hredemptions : ∀ (i : Nat) r, s'.redemptions[i]? = some r → s.redemptions[i]? = some r ∨ RedemptionOk providers s' i r) :
    Inv providers s' := by
  refine h.grows hgrows hcache (fun k i hk => Or.inl (hlocks ▸ hk)) (fun k i hk => Or.inl (hplocks ▸ hk))
    (fun i r hr => (hredemptions i r hr).imp_left fun hold => ⟨hold, fun _ => by rw [hlocks]⟩) fun i p hp => ?_
  rw [hpublications] at hp
  exact Or.inl ⟨hp, fun _ => by rw [hplocks]⟩

/-! ### Redemption -/

theorem setRedemption_grows {now : Nat} {s s' : RefreshState S} {i : Nat} {r r' : Redemption}
    (hr : s.redemptions[i]? = some r)
    (hkeeps : Redemption.Keeps r r') (hredemptions : s'.redemptions = s.redemptions.set i r')
    (hentries : Extends Entry.Keeps (Unanswered s now) s.entries s'.entries) (hpublications : s'.publications = s.publications) :
    Grows now s s' where
  entries := hentries
  redemptions := by
    rw [hredemptions]
    exact .set Redemption.Keeps.refl hr hkeeps
  publications := by
    rw [hpublications]
    exact .refl Publication.Keeps.refl _

theorem setRedemption_cases {s s' : RefreshState S} {i : Nat} {r' : Redemption}
    (hredemptions : s'.redemptions = s.redemptions.set i r')
    (hok : RedemptionOk providers s' i r') (j : Nat) (x : Redemption) (hx : s'.redemptions[j]? = some x) :
    s.redemptions[j]? = some x ∨ RedemptionOk providers s' j x := by
  rw [hredemptions] at hx
  exact items_set (P := fun j x => s.redemptions[j]? = some x ∨ RedemptionOk providers s' j x) (fun _ _ h => Or.inl h) (Or.inr hok) j x hx

structure Redeemed (providers : Providers) (s : RefreshState S) (provider : String)
    (credentials : Credentials) (now : Nat) (result : RefreshState S × RedemptionPhase) : Prop where
  inv : CacheInv result.1
  frame : ∃ cache entries, result.1 = { s with refreshDedupCache := cache, entries := entries }
  entries : Extends Entry.Keeps (Unanswered s now) s.entries result.1.entries
  phase : (∃ answer, result.2 = .answered answer) ∨ ∃ id e, result.2 = .awaiting id ∧ result.1.entries[id]? = some e ∧
    ∀ r : Redemption, r.provider = provider → r.credentials = credentials → Registered providers e r

theorem refreshTokenByProvider_redeemed {s : RefreshState S} (hinv : CacheInv s) (provider : String)
    (credentials : Credentials) (minted : Option Refreshed) (now : Nat) :
    Redeemed providers s provider credentials now (refreshTokenByProvider providers s provider credentials minted now) := by
  unfold refreshTokenByProvider
  have hanswered : ∀ answer, Redeemed providers s provider credentials now (s, .answered answer) := fun answer =>
    ⟨hinv, ⟨_, _, rfl⟩, .refl Entry.Keeps.refl _, Or.inl ⟨answer, rfl⟩⟩
  split
  · exact hanswered _
  · rename_i token htoken
    split
    · rename_i key hkey
      obtain ⟨hinv', hframe, hentries, hphase⟩ := dedupRefresh_deduped hinv s!"{key}:{token}" (credentialContentRevision credentials)
        (ownerOf credentials) (credentialRevision credentials) now
      refine ⟨hinv', hframe, hentries, ?_⟩
      obtain ⟨code, hcode⟩ | ⟨id, e, hphase, he, hekey, hcontext, howner⟩ := hphase
      · exact Or.inl ⟨_, hcode⟩
      · refine Or.inr ⟨id, e, hphase, he, fun r hprovider hcredentials => ?_⟩
        subst hprovider hcredentials
        exact ⟨⟨key, token, hkey, htoken, hekey⟩, hcontext, howner⟩
    · exact hanswered _
    · exact hanswered _

theorem redeems_ok {s : RefreshState S} (hinv : Inv providers s) {i : Nat} {r : Redemption}
    (hr : s.redemptions[i]? = some r) (minted : Option Refreshed) (now : Nat) :
    Inv providers (redeems providers s i r minted now) ∧ Grows now s (redeems providers s i r minted now) := by
  unfold redeems
  split
  · rename_i hqueued
    have hredeemed := @refreshTokenByProvider_redeemed S providers s hinv.cache r.provider r.credentials minted now
    generalize refreshTokenByProvider providers s r.provider r.credentials minted now = result at hredeemed
    obtain ⟨s', phase⟩ := result
    obtain ⟨hcache, ⟨cache, entries, rfl⟩, hentries, hphase⟩ := hredeemed
    have hnotSettled : ∀ entry answer, phase ≠ .settled entry answer := by
      rintro entry answer rfl
      obtain ⟨_, h⟩ | ⟨_, _, h, -⟩ := hphase <;> cases h
    have hkeeps : Redemption.Keeps r { r with phase := phase } := by
      refine ⟨rfl, rfl, rfl, fun entry answer h => ?_⟩
      rw [hqueued] at h
      cases h
    have hgrows : Grows now s
        (setRedemption { s with refreshDedupCache := cache, entries := entries } i { r with phase := phase }) :=
      setRedemption_grows hr hkeeps rfl hentries rfl
    refine ⟨hinv.redemptionStep hgrows (hcache.same rfl rfl) rfl rfl rfl (setRedemption_cases rfl ?_), hgrows⟩
    have hok := hinv.redemptions i r hr
    refine ⟨hok.key, fun _ => hok.held fun entry answer h => ?_, fun id hid => ?_⟩
    · rw [hqueued] at h
      cases h
    · obtain ⟨answer, rfl⟩ | ⟨id', e, rfl, he, hregistered⟩ := hphase
      · cases hid
      · cases hid
        exact ⟨e, he, hregistered _ rfl rfl, fun entry answer h => absurd h (hnotSettled entry answer)⟩
  · exact ⟨hinv, .refl now s⟩

/-! ### Answers -/

theorem entries_grows {now : Nat} {s s' : RefreshState S}
    (hentries : Extends Entry.Keeps (Unanswered s now) s.entries s'.entries)
    (hredemptions : s'.redemptions = s.redemptions) (hpublications : s'.publications = s.publications) : Grows now s s' where
  entries := hentries
  redemptions := by
    rw [hredemptions]
    exact .refl Redemption.Keeps.refl _
  publications := by
    rw [hpublications]
    exact .refl Publication.Keeps.refl _

theorem Inv.cacheStep {now : Nat} {s s' : RefreshState S} (hinv : Inv providers s)
    (hentries : Extends Entry.Keeps (Unanswered s now) s.entries s'.entries) (hcache : CacheInv s')
    (hframe : ∃ cache entries, s' = { s with refreshDedupCache := cache, entries := entries }) :
    Inv providers s' ∧ Grows now s s' := by
  obtain ⟨cache, entries, rfl⟩ := hframe
  have hgrows : Grows now s { s with refreshDedupCache := cache, entries := entries } := entries_grows hentries rfl rfl
  exact ⟨hinv.redemptionStep hgrows hcache rfl rfl rfl fun _ _ hr => Or.inl hr, hgrows⟩

theorem settle_keeps {e : Entry} (hpending : e.outcome = none) (answer : Answer (Option Refreshed))
    (expiresAt : Nat) :
    Entry.Keeps e { e with outcome := some answer, expiresAt := expiresAt } := by
  refine ⟨rfl, rfl, fun _ _ h => h, fun a ha => ?_⟩
  rw [hpending] at ha
  cases ha

theorem answers_ok {s : RefreshState S} (hinv : Inv providers s) {i : Nat} {e : Entry}
    (he : s.entries[i]? = some e) (answer : Answer (Option Refreshed)) (now : Nat) :
    Inv providers (answers s i e answer now) ∧ Grows now s (answers s i e answer now) := by
  unfold answers
  split
  · rename_i result hpending
    have hkeeps := settle_keeps hpending (.ok result) (now + refreshResultTtlMs)
    refine hinv.cacheStep (.set Entry.Keeps.refl he hkeeps) ?_ ⟨_, _, rfl⟩
    constructor
    · exact items_set (P := fun i (e : Entry) => e.outcome = none → s.refreshDedupCache.lookup e.key = some i) hinv.cache.pending
        fun h => by cases h
    · exact fun _ _ hk => hinv.cache.cached_set he hkeeps hk
  · rename_i code hpending
    have hkeeps := settle_keeps hpending (.error code) e.expiresAt
    refine hinv.cacheStep (.set Entry.Keeps.refl he hkeeps) ?_ ⟨_, _, rfl⟩
    constructor
    · intro j x hx hopen
      dsimp only at hx ⊢
      rw [List.getElem?_set] at hx
      split at hx
      · split at hx
        · cases hx
          cases hopen
        · cases hx
      · rename_i hij
        have hcached := hinv.cache.pending j x hx hopen
        rw [Table.lookup_erase, if_neg, hcached]
        intro hkey
        rw [hkey, hinv.cache.pending i e he hpending] at hcached
        exact hij (Option.some.inj hcached)
    · intro k j hk
      dsimp only at hk ⊢
      rw [Table.lookup_erase] at hk
      split at hk
      · cases hk
      · exact hinv.cache.cached_set he hkeeps hk
  · exact ⟨hinv, .refl now s⟩

theorem expires_ok {s : RefreshState S} (hinv : Inv providers s) {i : Nat} {e : Entry}
    (he : s.entries[i]? = some e) (now : Nat) :
    Inv providers (expires s i e) ∧ Grows now s (expires s i e) := by
  unfold expires
  split
  · rename_i hsettled
    refine hinv.cacheStep (.refl Entry.Keeps.refl _) (hinv.cache.erase fun j x hx hopen hkey => ?_) ⟨_, _, rfl⟩
    have hcached := hinv.cache.pending j x hx hopen
    rw [hkey, hsettled.2] at hcached
    cases hcached
    rw [he] at hx
    cases hx
    rw [hopen] at hsettled
    exact Bool.noConfusion hsettled.1
  · exact ⟨hinv, .refl now s⟩

/-! ### Settling -/

theorem ends_ok {s : RefreshState S} (hinv : Inv providers s) {i : Nat} {r : Redemption}
    (hr : s.redemptions[i]? = some r)
    (now : Nat) : Inv providers (ends s i r) ∧ Grows now s (ends s i r) := by
  unfold ends
  split
  · rename_i entry answer hanswer
    have hok := hinv.redemptions i r hr
    have hopen : r.Unsettled := by
      intro e a h
      rw [h] at hanswer
      cases hanswer
    let r' : Redemption := { r with phase := .settled entry (answer.map (mergeRefreshedCredentials r.credentials)) }
    have hkeeps : Redemption.Keeps r r' := ⟨rfl, rfl, rfl, fun e a h => absurd h (hopen e a)⟩
    have hgrows : Grows now s (setRedemption { s with refreshLocks := s.refreshLocks.erase r.key } i r') :=
      setRedemption_grows hr hkeeps rfl (.refl Entry.Keeps.refl _) rfl
    refine ⟨hinv.grows hgrows (hinv.cache.same rfl rfl) (fun k j hk => ?_) (fun k j hk => Or.inl hk) (fun j x hx => ?_)
      fun j p hp => Or.inl ⟨hp, fun _ => rfl⟩, hgrows⟩
    · simp only [setRedemption, Table.lookup_erase] at hk
      split at hk
      · cases hk
      · exact Or.inl hk
    · simp only [setRedemption, List.getElem?_set] at hx
      split at hx
      · rename_i hij
        subst hij
        split at hx
        · cases hx
          refine Or.inr ⟨hok.key, fun h => absurd rfl (h _ _), fun id hid => ?_⟩
          obtain rfl : entry = some id := hid
          simp only [answerOf] at hanswer
          split at hanswer
          · rename_i id' hphase
            obtain ⟨a, ha, hpair⟩ := Option.map_eq_some_iff.1 hanswer
            cases hpair
            obtain ⟨e, he, houtcome⟩ := Option.bind_eq_some_iff.1 ha
            obtain ⟨e', he', hregistered, -⟩ := hok.sourced id (by rw [Redemption.entry?, hphase])
            cases he.symm.trans he'
            refine ⟨e, he, ⟨hregistered.token, hregistered.context, hregistered.revision⟩, fun entry answer h => ?_⟩
            cases h
            rw [houtcome]
            rfl
          · cases hanswer
          · cases hanswer
        · cases hx
      · rename_i hij
        refine Or.inl ⟨hx, fun hxopen => ?_⟩
        simp only [setRedemption, Table.lookup_erase]
        rw [if_neg]
        intro hkey
        have hheld := (hinv.redemptions j x hx).held hxopen
        rw [hkey, hok.held hopen] at hheld
        exact hij (Option.some.inj hheld)
  · exact ⟨hinv, .refl now s⟩

/-! ### Publication -/

theorem publicationStep {s : RefreshState S} (hinv : Inv providers s) {i : Nat}
    {p q : Publication S}
    (hp : s.publications[i]? = some p) (hopen : p.Unsettled) (hkey : q.key = p.key) (hredemption : q.redemption = p.redemption)
    {d : Dict LockKey Nat} (hother : ∀ k, k ≠ p.key → d.lookup k = s.publicationLocks.lookup k)
    (hsub : ∀ k j, d.lookup k = some j → s.publicationLocks.lookup k = some j)
    (hok : PublicationOk (setPublication { s with publicationLocks := d } i q) i q) (now : Nat) :
    Inv providers (setPublication { s with publicationLocks := d } i q) ∧
      Grows now s (setPublication { s with publicationLocks := d } i q) := by
  have hgrows : Grows now s (setPublication { s with publicationLocks := d } i q) :=
    ⟨.refl Entry.Keeps.refl _, .refl Redemption.Keeps.refl _,
      .set Publication.Keeps.refl hp ⟨hkey, hredemption, fun a h => absurd h (hopen a)⟩⟩
  refine ⟨hinv.grows hgrows (hinv.cache.same rfl rfl) (fun k j hk => Or.inl hk) (fun k j hk => Or.inl (hsub k j hk))
    (fun j r hr => Or.inl ⟨hr, fun _ => rfl⟩) fun j x hx => ?_, hgrows⟩
  by_cases hij : i = j
  · subst hij
    obtain rfl : q = x := Option.some.inj ((getElem?_set_of_some hp).symm.trans hx)
    exact Or.inr hok
  · have hold : s.publications[j]? = some x := by
      rw [← hx]
      exact (List.getElem?_set_ne hij).symm
    refine Or.inl ⟨hold, fun hxopen => hother x.key fun hsame => hij ?_⟩
    have hheld := (hinv.publications j x hold).held hxopen
    rw [hsame, (hinv.publications i p hp).held hopen] at hheld
    exact Option.some.inj hheld

theorem publication_goesOn {s : RefreshState S} (hinv : Inv providers s) {i : Nat}
    {p : Publication S}
    (hp : s.publications[i]? = some p) (hopen : p.Unsettled) (q : Publication S) (hkey : q.key = p.key)
    (hredemption : q.redemption = p.redemption) (hok : PublicationOk (setPublication s i q) i q) (now : Nat) :
    Inv providers (setPublication s i q) ∧ Grows now s (setPublication s i q) :=
  publicationStep hinv hp hopen hkey hredemption (d := s.publicationLocks) (fun _ _ => rfl) (fun _ _ h => h) hok now

theorem publishes_ok {s : RefreshState S} (hinv : Inv providers s) {i : Nat} {p : Publication S}
    (hp : s.publications[i]? = some p)
    (now : Nat) : Inv providers (publishes s i p) ∧ Grows now s (publishes s i p) := by
  have hok := hinv.publications i p hp
  unfold publishes
  split
  · rename_i entry refreshed hphase hsettled
    obtain ⟨r, hr, hrphase⟩ := Option.map_eq_some_iff.1 hsettled
    have hopen : p.Unsettled := fun a h => by rw [hphase] at h; cases h
    obtain ⟨x, hx, hkey, -⟩ := hok.redeemed
    cases hr.symm.trans hx
    split
    · rename_i offered hoffered
      refine publication_goesOn hinv hp hopen { p with phase := .offering, offered := some offered } rfl rfl
        ⟨fun _ => hok.held hopen, r, hr, hkey, ?_⟩ now
      refine Or.inr ⟨entry, .ok refreshed, hrphase, fun x y hx hy => ?_, fun _ => ⟨refreshed, rfl, by rw [hoffered]; rfl⟩, ?_⟩
      · cases hx
        rw [← hy, hoffered]
      · intro d h
        cases h
    · rename_i hnone
      refine publication_goesOn hinv hp hopen { p with phase := .returned (.ok (.refreshed refreshed)) } rfl rfl
        ⟨fun _ => hok.held hopen, r, hr, hkey, ?_⟩ now
      refine Or.inr ⟨entry, .ok refreshed, hrphase, fun x y hx hy => ?_, (fun h => by cases h), fun d h => ?_⟩
      · cases hx
        rw [hnone] at hy
        cases hy
      · cases h
        exact ⟨refreshed, rfl, Or.inl rfl⟩
  · rename_i entry code hphase hsettled
    obtain ⟨r, hr, hrphase⟩ := Option.map_eq_some_iff.1 hsettled
    have hopen : p.Unsettled := fun a h => by rw [hphase] at h; cases h
    obtain ⟨x, hx, hkey, -⟩ := hok.redeemed
    cases hr.symm.trans hx
    refine publication_goesOn hinv hp hopen { p with phase := .returned (.error code) } rfl rfl
      ⟨fun _ => hok.held hopen, r, hr, hkey, ?_⟩ now
    refine Or.inr ⟨entry, .error code, hrphase, (fun x y hx => by cases hx), (fun h => by cases h), fun d h => ?_⟩
    cases h
  · exact ⟨hinv, .refl now s⟩

theorem returned_ok {s : RefreshState S} (hinv : Inv providers s) {i : Nat} {p : Publication S}
    (hp : s.publications[i]? = some p)
    (hphase : p.phase = .offering) (answer : Answer (Delivered S)) (now : Nat) :
    Inv providers (setPublication s i { p with phase := .returned answer }) ∧
      Grows now s (setPublication s i { p with phase := .returned answer }) := by
  have hok := hinv.publications i p hp
  have hopen : p.Unsettled := fun a h => by rw [hphase] at h; cases h
  obtain ⟨r, hr, hkey, hwaiting | ⟨entry, a, hsettled, hpublished⟩⟩ := hok.redeemed
  · rw [hphase] at hwaiting
    cases hwaiting
  · refine publication_goesOn hinv hp hopen { p with phase := .returned answer } rfl rfl
      ⟨fun _ => hok.held hopen, r, hr, hkey, ?_⟩ now
    refine Or.inr ⟨entry, a, hsettled, hpublished.offered, (fun h => by cases h), fun d hd => ?_⟩
    obtain ⟨refreshed, ha, hsome⟩ := hpublished.offering hphase
    exact ⟨refreshed, ha, Or.inr hsome⟩

theorem stores_ok {s : RefreshState S} (hinv : Inv providers s) {i : Nat} {p : Publication S}
    (hp : s.publications[i]? = some p)
    (answer : Answer (Option S)) (now : Nat) :
    Inv providers (stores s i p answer) ∧ Grows now s (stores s i p answer) := by
  unfold stores
  split
  · rename_i row hphase
    exact returned_ok hinv hp hphase _ now
  · rename_i hphase
    exact returned_ok hinv hp hphase _ now
  · rename_i code hphase
    exact returned_ok hinv hp hphase _ now
  · exact ⟨hinv, .refl now s⟩

theorem returns_ok {s : RefreshState S} (hinv : Inv providers s) {i : Nat} {p : Publication S}
    (hp : s.publications[i]? = some p)
    (now : Nat) : Inv providers (returns s i p) ∧ Grows now s (returns s i p) := by
  unfold returns
  split
  · rename_i answer hphase
    have hopen : p.Unsettled := fun a h => by rw [hphase] at h; cases h
    obtain ⟨r, hr, hkey, hwaiting | ⟨entry, a, hsettled, hpublished⟩⟩ := (hinv.publications i p hp).redeemed
    · rw [hphase] at hwaiting
      cases hwaiting
    · refine publicationStep hinv hp hopen (q := { p with phase := .settled answer }) rfl rfl (d := s.publicationLocks.erase p.key)
        (fun k hk => ?_) (fun k j h => ?_) ⟨fun h => absurd rfl (h answer), r, hr, hkey, ?_⟩ now
      · rw [Table.lookup_erase, if_neg hk]
      · rw [Table.lookup_erase] at h
        split at h
        · cases h
        · exact h
      · refine Or.inr ⟨entry, a, hsettled, hpublished.offered, (fun h => by cases h), fun d hd => ?_⟩
        exact hpublished.delivered d (by rw [Publication.answer?, hphase]; exact hd)
  · exact ⟨hinv, .refl now s⟩

/-! ### Calls -/

theorem withCredentialRefreshLock_ok {s : RefreshState S} (hinv : Inv providers s)
    (provider : String) (credentials : Credentials) (now : Nat) :
    let result := withCredentialRefreshLock s provider credentials
    Inv providers result.1 ∧ Grows now s result.1 ∧
      (∃ r, result.1.redemptions[result.2]? = some r ∧ r.key = getRefreshLockKey provider credentials) ∧
      (result.1.publicationLocks = s.publicationLocks ∧ result.1.publications = s.publications) ∧
      (result.1.entries = s.entries ∧ result.1.refreshDedupCache = s.refreshDedupCache) ∧
      ∀ id, s.refreshLocks.lookup (getRefreshLockKey provider credentials) = some id → result.2 = id := by
  have hmade : ∀ (x : Redemption) (locks : Dict LockKey Nat), x.key = getRefreshLockKey x.provider x.credentials →
      x.entry? = none → (∀ k, k ≠ x.key → locks.lookup k = s.refreshLocks.lookup k) →
      ((¬ x.Unsettled ∧ locks = s.refreshLocks) ∨
        (s.refreshLocks.lookup x.key = none ∧ locks.lookup x.key = some s.redemptions.length)) →
      Inv providers { s with refreshLocks := locks, redemptions := s.redemptions ++ [x] } ∧
        Grows now s { s with refreshLocks := locks, redemptions := s.redemptions ++ [x] } := by
    intro x locks hkey hentry hother hheld
    have hgrows : Grows now s { s with refreshLocks := locks, redemptions := s.redemptions ++ [x] } :=
      ⟨.refl Entry.Keeps.refl _, .snoc Redemption.Keeps.refl _ trivial, .refl Publication.Keeps.refl _⟩
    have hlast : (s.redemptions ++ [x])[s.redemptions.length]? = some x := List.getElem?_concat_length
    refine ⟨hinv.grows hgrows (hinv.cache.same rfl rfl) (fun k j hk => ?_) (fun k j hk => Or.inl hk) ?_
      fun j p hp => Or.inl ⟨hp, fun _ => rfl⟩, hgrows⟩
    · obtain ⟨-, rfl⟩ | ⟨-, hlock⟩ := hheld
      · exact Or.inl hk
      · by_cases hkx : k = x.key
        · subst hkx
          obtain rfl : s.redemptions.length = j := Option.some.inj (hlock.symm.trans hk)
          exact Or.inr ⟨x, hlast, rfl⟩
        · exact Or.inl ((hother k hkx).symm.trans hk)
    · refine items_snoc (P := fun (j : Nat) (r : Redemption) => (s.redemptions[j]? = some r ∧
        (r.Unsettled → locks.lookup r.key = s.refreshLocks.lookup r.key)) ∨ RedemptionOk providers _ j r) (fun j r hr => ?_) ?_
      · refine Or.inl ⟨hr, fun hopen => ?_⟩
        obtain ⟨-, rfl⟩ | ⟨hfree, -⟩ := hheld
        · rfl
        · refine hother _ fun hsame => ?_
          rw [← hsame, (hinv.redemptions j r hr).held hopen] at hfree
          cases hfree
      · refine Or.inr ⟨hkey, fun hopen => ?_, fun id hid => ?_⟩
        · exact hheld.elim (fun h => absurd hopen h.1) fun h => h.2
        · rw [hentry] at hid
          cases hid
  simp only [withCredentialRefreshLock]
  split
  · rename_i id hid
    obtain ⟨r, hr, hkey⟩ := hinv.locked _ _ hid
    refine ⟨hinv, .refl now s, ⟨r, hr, hkey⟩, ⟨rfl, rfl⟩, ⟨rfl, rfl⟩, fun id' hid' => ?_⟩
    rw [hid] at hid'
    exact Option.some.inj hid'
  · rename_i hnone
    split
    · obtain ⟨hinv', hgrows⟩ := hmade
        { key := getRefreshLockKey provider credentials, provider := provider, credentials := credentials,
          phase := .settled none (.error "REFRESH_CAPACITY") }
        s.refreshLocks rfl rfl (fun _ _ => rfl) (Or.inl ⟨fun h => h _ _ rfl, rfl⟩)
      refine ⟨hinv', hgrows, ⟨_, List.getElem?_concat_length, rfl⟩, ⟨rfl, rfl⟩, ⟨rfl, rfl⟩, fun id hid => ?_⟩
      rw [hnone] at hid
      cases hid
    · obtain ⟨hinv', hgrows⟩ := hmade
        { key := getRefreshLockKey provider credentials, provider := provider, credentials := credentials }
        (s.refreshLocks.put (getRefreshLockKey provider credentials, s.redemptions.length)) rfl rfl
        (fun k hk => by rw [Table.lookup_put, if_neg hk]) (Or.inr ⟨hnone, by rw [Table.lookup_put, if_pos rfl]⟩)
      refine ⟨hinv', hgrows, ⟨_, List.getElem?_concat_length, rfl⟩, ⟨rfl, rfl⟩, ⟨rfl, rfl⟩, fun id hid => ?_⟩
      rw [hnone] at hid
      cases hid

theorem withPublicationLock_ok {s : RefreshState S} (hinv : Inv providers s) {key : LockKey}
    {redemption : Nat} {r : Redemption}
    (hr : s.redemptions[redemption]? = some r) (hkey : r.key = key) (now : Nat) :
    let result := withPublicationLock s key redemption
    Inv providers result.1 ∧ Grows now s result.1 ∧
      ∃ p, result.1.publications[result.2]? = some p ∧ p.key = key ∧
        (p.redemption = redemption ∨ ∃ i, s.publicationLocks.lookup key = some i ∧ s.publications[i]? = some p) := by
  simp only [withPublicationLock]
  split
  · rename_i id hid
    obtain ⟨p, hp, hpkey⟩ := hinv.published _ _ hid
    exact ⟨hinv, .refl now s, p, hp, hpkey, Or.inr ⟨id, hid, hp⟩⟩
  · rename_i hnone
    let x : Publication S := { key := key, redemption := redemption }
    have hlast : (s.publications ++ [x])[s.publications.length]? = some x := List.getElem?_concat_length
    have hgrows : Grows now s
        { s with
          publicationLocks := s.publicationLocks.put (key, s.publications.length)
          publications := s.publications ++ [x] } :=
      ⟨.refl Entry.Keeps.refl _, .refl Redemption.Keeps.refl _, .snoc Publication.Keeps.refl _ trivial⟩
    refine ⟨hinv.grows hgrows (hinv.cache.same rfl rfl) (fun k j hk => Or.inl hk) (fun k j hk => ?_)
      (fun j y hy => Or.inl ⟨hy, fun _ => rfl⟩) ?_, hgrows, x, hlast, rfl, Or.inl rfl⟩
    · dsimp only at hk
      rw [Table.lookup_put] at hk
      split at hk
      · rename_i hkx
        cases hk
        exact Or.inr ⟨x, hlast, hkx.symm⟩
      · exact Or.inl hk
    · refine items_snoc (P := fun (j : Nat) (p : Publication S) => (s.publications[j]? = some p ∧
        (p.Unsettled → (s.publicationLocks.put (key, s.publications.length)).lookup p.key = s.publicationLocks.lookup p.key)) ∨
          PublicationOk _ j p) (fun j p hp => ?_) ?_
      · refine Or.inl ⟨hp, fun hopen => ?_⟩
        rw [Table.lookup_put, if_neg]
        intro hsame
        rw [← hsame, (hinv.publications j p hp).held hopen] at hnone
        cases hnone
      · refine Or.inr ⟨fun _ => ?_, r, hr, hkey, Or.inl rfl⟩
        rw [Table.lookup_put, if_pos rfl]

/-- A result comes of a redemption under the caller's own key: as its provider
gave it, or as it was stored. -/
def Receives (s : RefreshState S) (caller : Caller S) (delivered : Delivered S) : Prop :=
  ∃ (t : Nat) (r : Redemption) (entry : Option Nat) (refreshed : Option Refreshed), s.redemptions[t]? = some r ∧ r.key = caller.key ∧
    r.phase = .settled entry (.ok refreshed) ∧ (delivered = .refreshed refreshed ∨ (toPublish refreshed).isSome)

structure CallerOk (s : RefreshState S) (caller : Caller S) : Prop where
  redeemed : ∀ t, caller.redemption = some t → ∃ r, s.redemptions[t]? = some r ∧ r.key = caller.key
  redemption : ∀ t, caller.delivery = some (.redemption t) → caller.redemption = some t
  publication : ∀ i, caller.delivery = some (.publication i) → ∃ p, s.publications[i]? = some p ∧ p.key = caller.key
  received : ∀ delivered, caller.phase = .received (.ok delivered) → Receives s caller delivered

/-- A caller that asked for a publication has one, of its own redemption. -/
def Owned (s : RefreshState S) (caller : Caller S) : Prop :=
  caller.asked → ∀ t, caller.redemption = some t →
    ∃ (i : Nat) (p : Publication S), s.publications[i]? = some p ∧ p.redemption = t ∧ p.key = caller.key

theorem CallerOk.grows {now : Nat} {s s' : RefreshState S} (hgrows : Grows now s s')
    {caller : Caller S} (h : CallerOk s caller) :
    CallerOk s' caller where
  redeemed t ht := by
    obtain ⟨r, hr, hkey⟩ := h.redeemed t ht
    obtain ⟨r', hr', hkeeps⟩ := hgrows.redemptions.kept t r hr
    exact ⟨r', hr', hkeeps.key.trans hkey⟩
  redemption := h.redemption
  publication i hi := by
    obtain ⟨p, hp, hkey⟩ := h.publication i hi
    obtain ⟨p', hp', hkeeps⟩ := hgrows.publications.kept i p hp
    exact ⟨p', hp', hkeeps.key.trans hkey⟩
  received d hd := by
    obtain ⟨t, r, entry, refreshed, hr, hkey, hphase, hsame⟩ := h.received d hd
    obtain ⟨r', hr', hkeeps⟩ := hgrows.redemptions.kept t r hr
    exact ⟨t, r', entry, refreshed, hr', hkeeps.key.trans hkey, hkeeps.settled _ _ hphase, hsame⟩

theorem Owned.grows {now : Nat} {s s' : RefreshState S} (hgrows : Grows now s s')
    {caller : Caller S} (h : Owned s caller) :
    Owned s' caller := by
  intro hasked t ht
  obtain ⟨i, p, hp, hredemption, hkey⟩ := h hasked t ht
  obtain ⟨p', hp', hkeeps⟩ := hgrows.publications.kept i p hp
  exact ⟨i, p', hp', hkeeps.redemption.trans hredemption, hkeeps.key.trans hkey⟩

def publicationInFlight (s : RefreshState S) (key : LockKey) : Option (Publication S) :=
  (s.publicationLocks.lookup key).bind fun i => s.publications[i]?

/-- A call that asks for a publication says what it expects to replace, and a publication in flight
for its key is of the redemption in flight. -/
def fitsRequest (s : RefreshState S) (request : Request) : Bool :=
  let key := getRefreshLockKey request.provider request.credentials
  request.aborted || !request.onCredentialsRefreshed ||
    (request.expectedCredentials && (publicationInFlight s key).all fun p => s.refreshLocks.lookup key = some p.redemption)

theorem refreshProviderCredentials_ok {s : RefreshState S} (hinv : Inv providers s)
    (request : Request) (now : Nat) :
    let result := refreshProviderCredentials s request
    Inv providers result.1 ∧ Grows now s result.1 ∧ CallerOk result.1 result.2 ∧ (fitsRequest s request = true → Owned result.1 result.2) := by
  have hlock := withCredentialRefreshLock_ok hinv request.provider request.credentials now
  simp only [refreshProviderCredentials]
  split
  · exact ⟨hinv, .refl now s, ⟨(fun t h => by cases h), (fun t h => by cases h), (fun i h => by cases h), (fun d h => by cases h)⟩,
      fun _ _ t h => by cases h⟩
  · rename_i haborted
    generalize withCredentialRefreshLock s request.provider request.credentials = locked at hlock
    obtain ⟨s', t⟩ := locked
    obtain ⟨hinv', hgrows, ⟨r, hr, hkey⟩, ⟨hplocks, hpublications⟩, ⟨hentries, hcache⟩, hjoined⟩ := hlock
    dsimp only at hinv' hgrows hr hplocks hpublications hentries hcache hjoined ⊢
    split
    · rename_i hasked
      refine ⟨hinv', hgrows, ⟨?_, ?_, (fun i h => by cases h), (fun d h => by cases h)⟩, fun _ h => ?_⟩
      · intro t' ht
        cases ht
        exact ⟨r, hr, hkey⟩
      · intro t' ht
        cases ht
        rfl
      · rw [hasked] at h
        cases h
    · rename_i hasked
      split
      · rename_i hexpected
        refine ⟨hinv', hgrows, ⟨?_, (fun t h => by cases h), (fun i h => by cases h), (fun d h => by cases h)⟩, fun hfits => ?_⟩
        · intro t' ht
          cases ht
          exact ⟨r, hr, hkey⟩
        · simp [fitsRequest, haborted, hasked, hexpected] at hfits
      · obtain ⟨hinv'', hgrows', p, hp, hpkey, hpredemption⟩ := withPublicationLock_ok hinv' hr hkey now
        refine ⟨hinv'', hgrows.trans hgrows' hentries hcache, ⟨?_, (fun t h => by cases h), ?_, (fun d h => by cases h)⟩,
          fun hfits _ t' ht => ?_⟩
        · intro t' ht
          cases ht
          obtain ⟨r', hr', hkeeps⟩ := hgrows'.redemptions.kept t r hr
          exact ⟨r', hr', hkeeps.key.trans hkey⟩
        · intro i hi
          cases hi
          exact ⟨p, hp, hpkey⟩
        · cases ht
          refine ⟨_, p, hp, ?_, hpkey⟩
          obtain hsame | ⟨i, hlookup, hi⟩ := hpredemption
          · exact hsame
          · -- the publication that was in flight is of the redemption in flight
            rw [hplocks] at hlookup
            rw [hpublications] at hi
            have hflight : publicationInFlight s (getRefreshLockKey request.provider request.credentials) = some p := by
              rw [publicationInFlight, hlookup, Option.bind_some, hi]
            obtain ⟨-, hsame⟩ : request.expectedCredentials = true ∧
                s.refreshLocks.lookup (getRefreshLockKey request.provider request.credentials) = some p.redemption := by
              simpa [fitsRequest, haborted, hasked, hflight] using hfits
            exact (hjoined _ hsame).symm

/-! ### Steps -/

def fits (g : RefreshRun S) (op : Nat × RefreshOp S) : Bool :=
  match op.2 with
  | .call request => fitsRequest g.state request
  | _ => true

theorem stateStep_ok {s : RefreshState S} (hinv : Inv providers s) (now : Nat) (op : RefreshOp S) :
    Inv providers (stateStep providers s now op).1 ∧ Grows now s (stateStep providers s now op).1 := by
  have helim : ∀ {α : Type} (found : Option α) (f : α → RefreshState S),
      (∀ x, found = some x → Inv providers (f x) ∧ Grows now s (f x)) →
      Inv providers (found.elim s f) ∧ Grows now s (found.elim s f) := by
    intro α found f h
    cases found with
    | none => exact ⟨hinv, .refl now s⟩
    | some x => exact h x rfl
  cases op with
  | call request =>
    obtain ⟨hinv', hgrows, -⟩ := refreshProviderCredentials_ok hinv request now
    exact ⟨hinv', hgrows⟩
  | redeems id minted => exact helim _ _ fun r hr => redeems_ok hinv hr minted now
  | answers id answer => exact helim _ _ fun e he => answers_ok hinv he answer now
  | expires id => exact helim _ _ fun e he => expires_ok hinv he now
  | ends id => exact helim _ _ fun r hr => ends_ok hinv hr now
  | publishes id => exact helim _ _ fun p hp => publishes_ok hinv hp now
  | stores id answer => exact helim _ _ fun p hp => stores_ok hinv hp answer now
  | returns id => exact helim _ _ fun p hp => returns_ok hinv hp now
  | resumes id => exact ⟨hinv, .refl now s⟩
  | cancels id => exact ⟨hinv, .refl now s⟩

theorem resumeCaller_ok {s : RefreshState S} (hinv : Inv providers s) {caller : Caller S}
    (h : CallerOk s caller) :
    CallerOk s (resumeCaller s caller) := by
  unfold resumeCaller
  split
  · rename_i answer _ hdelivered
    refine ⟨h.redeemed, h.redemption, h.publication, fun d hd => ?_⟩
    obtain rfl : answer = .ok d := by
      cases hd
      rfl
    obtain ⟨delivery, hdelivery, hdelivered⟩ := Option.bind_eq_some_iff.1 hdelivered
    cases delivery with
    | redemption t =>
      simp only [deliveredOf] at hdelivered
      split at hdelivered
      · rename_i entry a hphase
        obtain ⟨r, hr, hphase⟩ := Option.map_eq_some_iff.1 hphase
        obtain ⟨x, hx, hkey⟩ := h.redeemed t (h.redemption t hdelivery)
        cases hr.symm.trans hx
        cases a with
        | error code => cases hdelivered
        | ok refreshed =>
          cases hdelivered
          exact ⟨t, r, entry, refreshed, hr, hkey, hphase, Or.inl rfl⟩
      · cases hdelivered
    | publication i =>
      simp only [deliveredOf] at hdelivered
      split at hdelivered
      · rename_i a hphase
        cases hdelivered
        obtain ⟨p, hp, hphase⟩ := Option.map_eq_some_iff.1 hphase
        obtain ⟨x, hx, hkey⟩ := h.publication i hdelivery
        cases hp.symm.trans hx
        obtain ⟨r, hr, hrkey, hwaiting | ⟨entry, a, hsettled, hpublished⟩⟩ := (hinv.publications i p hp).redeemed
        · rw [hphase] at hwaiting
          cases hwaiting
        · obtain ⟨refreshed, rfl, hd⟩ := hpublished.delivered d (by rw [Publication.answer?, hphase])
          exact ⟨p.redemption, r, entry, refreshed, hr, hrkey.trans hkey, hsettled, hd⟩
      · cases hdelivered
  · exact h

theorem cancelCaller_ok {s : RefreshState S} {caller : Caller S}
    (h : CallerOk s caller) : CallerOk s (cancelCaller caller) := by
  unfold cancelCaller
  split
  · exact ⟨h.redeemed, h.redemption, h.publication, fun d hd => by cases hd⟩
  · exact h

def SameCaller (c c' : Caller S) : Prop :=
  c'.key = c.key ∧ c'.asked = c.asked ∧ c'.redemption = c.redemption ∧ c'.delivery = c.delivery

theorem resumeCaller_same (s : RefreshState S)
    (c : Caller S) : SameCaller c (resumeCaller s c) := by
  unfold resumeCaller
  split <;> exact ⟨rfl, rfl, rfl, rfl⟩

theorem cancelCaller_same (c : Caller S) : SameCaller c (cancelCaller c) := by
  unfold cancelCaller
  split <;> exact ⟨rfl, rfl, rfl, rfl⟩

theorem Owned.same {s : RefreshState S} {c c' : Caller S} (h : Owned s c)
    (hsame : SameCaller c c') : Owned s c' := by
  obtain ⟨hkey, hasked, hredemption, -⟩ := hsame
  unfold Owned at h ⊢
  rw [hkey, hasked, hredemption]
  exact h

theorem mem_modify {α : Type} {l : List α} {i : Nat} {f : α → α} {x : α}
    (h : x ∈ l.modify i f) : x ∈ l ∨ ∃ y ∈ l, x = f y := by
  obtain ⟨j, hj⟩ := List.mem_iff_getElem?.1 h
  rw [List.getElem?_modify] at hj
  obtain ⟨y, hy, hxy⟩ := Option.map_eq_some_iff.1 hj
  split at hxy
  · exact Or.inr ⟨y, List.mem_of_getElem? hy, hxy.symm⟩
  · exact Or.inl (hxy ▸ List.mem_of_getElem? hy)

theorem refreshStep_callers (g : RefreshRun S) (now : Nat) (op : RefreshOp S) {c' : Caller S}
    (h : c' ∈ (refreshStep providers g (now, op)).callers) :
    (∃ c ∈ g.callers, c' = c ∨ (c' = resumeCaller g.state c ∧ (stateStep providers g.state now op).1 = g.state) ∨ c' = cancelCaller c) ∨
      ∃ request, op = .call request ∧ c' = (refreshProviderCredentials g.state request).2 := by
  obtain h | h := List.mem_append.1 h
  · left
    cases op with
    | resumes id =>
      obtain hc | ⟨c, hc, rfl⟩ := mem_modify h
      · exact ⟨c', hc, Or.inl rfl⟩
      · exact ⟨c, hc, Or.inr (Or.inl ⟨rfl, rfl⟩)⟩
    | cancels id =>
      obtain hc | ⟨c, hc, rfl⟩ := mem_modify h
      · exact ⟨c', hc, Or.inl rfl⟩
      · exact ⟨c, hc, Or.inr (Or.inr rfl)⟩
    | _ => exact ⟨c', h, Or.inl rfl⟩
  · right
    cases op with
    | call request => exact ⟨request, rfl, List.mem_singleton.1 h⟩
    | _ => cases h

structure RunInv (providers : Providers) (g : RefreshRun S) : Prop where
  state : Inv providers g.state
  callers : ∀ c ∈ g.callers, CallerOk g.state c

theorem RunInv.step {g : RefreshRun S} (h : RunInv providers g) (op : Nat × RefreshOp S) :
    RunInv providers (refreshStep providers g op) := by
  obtain ⟨hinv, hgrows⟩ := stateStep_ok h.state op.1 op.2
  refine ⟨hinv, fun c' hc' => ?_⟩
  obtain ⟨c, hc, rfl | ⟨rfl, -⟩ | rfl⟩ | ⟨request, hop, rfl⟩ := refreshStep_callers g op.1 op.2 hc'
  · exact (h.callers _ hc).grows hgrows
  · exact (resumeCaller_ok h.state (h.callers c hc)).grows hgrows
  · exact (cancelCaller_ok (h.callers c hc)).grows hgrows
  · obtain ⟨-, -, hok, -⟩ := refreshProviderCredentials_ok h.state request op.1
    have hstate : (refreshStep providers g op).state = (refreshProviderCredentials g.state request).1 := by
      rw [refreshStep, hop]
      rfl
    rw [hstate]
    exact hok

theorem owned_step {g : RefreshRun S} (hinv : RunInv providers g)
    (h : ∀ c ∈ g.callers, Owned g.state c) {op : Nat × RefreshOp S}
    (hfits : fits g op = true) :
    ∀ c ∈ (refreshStep providers g op).callers, Owned (refreshStep providers g op).state c := by
  obtain ⟨-, hgrows⟩ := stateStep_ok hinv.state op.1 op.2
  intro c' hc'
  obtain ⟨c, hc, rfl | ⟨rfl, -⟩ | rfl⟩ | ⟨request, hop, rfl⟩ := refreshStep_callers g op.1 op.2 hc'
  · exact (h _ hc).grows hgrows
  · exact ((h c hc).same (resumeCaller_same _ c)).grows hgrows
  · exact ((h c hc).same (cancelCaller_same c)).grows hgrows
  · obtain ⟨-, -, -, howned⟩ := refreshProviderCredentials_ok hinv.state request op.1
    have hstate : (refreshStep providers g op).state = (refreshProviderCredentials g.state request).1 := by
      rw [refreshStep, hop]
      rfl
    rw [hstate]
    exact howned (by rw [fits, hop] at hfits; exact hfits)

theorem runInv_initial : RunInv providers ({} : RefreshRun S) where
  state :=
    { cache := ⟨(fun i e h => by cases h), fun k i h => by cases h⟩
      redemptions := fun i r h => by cases h
      locked := fun k i h => by cases h
      publications := fun i p h => by cases h
      published := fun k i h => by cases h }
  callers c hc := by cases hc

/-! ### Cancellation -/

structure SameBut (i : Nat) (g g' : RefreshRun S) : Prop where
  state : g'.state = g.state
  length : g'.callers.length = g.callers.length
  others : ∀ j, j ≠ i → g'.callers[j]? = g.callers[j]?

theorem SameBut.step {i : Nat} {g g' : RefreshRun S} (h : SameBut i g g') (op : Nat × RefreshOp S) :
    SameBut i (refreshStep providers g op) (refreshStep providers g' op) := by
  have hmodify : ∀ (k : Nat) (f : Caller S → Caller S), (g'.callers.modify k f).length = (g.callers.modify k f).length ∧
      ∀ j, j ≠ i → (g'.callers.modify k f)[j]? = (g.callers.modify k f)[j]? := by
    intro k f
    refine ⟨by rw [List.length_modify, List.length_modify, h.length], fun j hj => ?_⟩
    rw [List.getElem?_modify, List.getElem?_modify, h.others j hj]
  have hcallers : (callerStep g.state g'.callers op.2).length = (callerStep g.state g.callers op.2).length ∧
      ∀ j, j ≠ i → (callerStep g.state g'.callers op.2)[j]? = (callerStep g.state g.callers op.2)[j]? := by
    cases op.2 with
    | resumes id => exact hmodify id _
    | cancels id => exact hmodify id _
    | _ => exact ⟨h.length, h.others⟩
  constructor
  · simp only [refreshStep, h.state]
  · simp only [refreshStep, h.state, List.length_append, hcallers.1]
  · intro j hj
    simp only [refreshStep, h.state, List.getElem?_append, hcallers.1, hcallers.2 j hj]

theorem cancel_sameBut (g : RefreshRun S) (now i : Nat) : SameBut i g (refreshStep providers g (now, .cancels i)) where
  state := rfl
  length := by simp [refreshStep, callerStep, stateStep]
  others j hj := by
    simp [refreshStep, stateStep, callerStep, Ne.symm hj]

theorem run_sameBut {i : Nat} {g g' : RefreshRun S} (h : SameBut i g g')
    (ops : List (Nat × RefreshOp S)) :
    SameBut i (run (refreshStep providers) g ops) (run (refreshStep providers) g' ops) := by
  induction ops generalizing g g' with
  | nil => exact h
  | cons op ops ih => exact ih (h.step op)

/-! ### Runs -/

theorem run_inv' (ops : List (Nat × RefreshOp S)) :
    RunInv providers (run (refreshStep providers) {} ops) :=
  run_inv (I := RunInv providers) (fun _ op h => h.step op) runInv_initial

theorem run_owned {ops : List (Nat × RefreshOp S)}
    (h : Meets (refreshStep providers) (fun g op => fits g op) {} ops) :
    ∀ c ∈ (run (refreshStep providers) {} ops).callers, Owned (run (refreshStep providers) {} ops).state c := by
  have hrun : RunInv providers (run (refreshStep providers) {} ops) ∧
      ∀ c ∈ (run (refreshStep providers) {} ops).callers, Owned (run (refreshStep providers) {} ops).state c :=
    run_inv_of_meets (I := fun g => RunInv providers g ∧ ∀ c ∈ g.callers, Owned g.state c)
      (fun _ op hfits h => ⟨h.1.step op, owned_step h.1 h.2 hfits⟩) h ⟨runInv_initial, fun c hc => by cases hc⟩
  exact hrun.2

theorem publishes_offers {g : RefreshRun S} {i : Nat} {p : Publication S}
    (hp : g.state.publications[i]? = some p)
    (hphase : p.phase = .waiting) {r : Redemption} (hr : g.state.redemptions[p.redemption]? = some r) {entry : Option Nat}
    {refreshed : Option Refreshed} (hsettled : r.phase = .settled entry (.ok refreshed)) {offered : Refreshed}
    (hoffered : toPublish refreshed = some offered) (now : Nat) :
    ((refreshStep providers g (now, .publishes i)).state.publications[i]?).bind Publication.offered = some offered := by
  have hphases : (g.state.redemptions[p.redemption]?).map Redemption.phase = some (.settled entry (.ok refreshed)) := by
    rw [hr, Option.map_some, hsettled]
  simp only [refreshStep, stateStep, hp, Option.elim_some, publishes, hphase, hphases, hoffered, setPublication]
  rw [getElem?_set_of_some hp]
  rfl

/-- **Refresh tokens are redeemed and published once.** In every run that fits: no two
redemptions of a token overlap, and none begins while a result of it is cached; one publication
at most is in flight for a key; a cancellation changes no other call and nothing shared;
whoever asked for a publication has one of its own redemption, which offers what that redeems;
and what a caller receives was redeemed under its own credential revision, the one that its
connection is registered with. -/
theorem refreshTokens_once {ops : List (Nat × RefreshOp S)}
    (h : Meets (refreshStep providers) (fun g op => fits g op) {} ops) :
    let step := refreshStep providers
    let g := run step {} ops
    (∀ (i j : Nat) e e', g.state.entries[i]? = some e → g.state.entries[j]? = some e' → e.outcome = none → e'.outcome = none →
        e.key = e'.key → i = j) ∧
      (∀ now op (i : Nat) e, g.state.entries[i]? = none → (step g (now, op)).state.entries[i]? = some e →
        Unanswered g.state now e) ∧
      (∀ (i j : Nat) p p', g.state.publications[i]? = some p → g.state.publications[j]? = some p' → p.Unsettled → p'.Unsettled →
        p.key = p'.key → i = j) ∧
      (∀ now i later, SameBut i (run step g later) (run step (step g (now, .cancels i)) later)) ∧
      (∀ caller ∈ g.callers, caller.asked → ∀ t, caller.redemption = some t →
        ∃ (i : Nat) (p : Publication S), g.state.publications[i]? = some p ∧ p.redemption = t ∧ p.key = caller.key ∧
          ∀ r entry refreshed offered, g.state.redemptions[t]? = some r → r.phase = .settled entry (.ok refreshed) →
            toPublish refreshed = some offered → p.offered = some offered ∨
              ∀ now, ((step g (now, .publishes i)).state.publications[i]?).bind Publication.offered = some offered) ∧
      ∀ caller ∈ g.callers, ∀ delivered, caller.phase = .received (.ok delivered) →
        ∃ (t : Nat) (r : Redemption) (entry : Option Nat) (refreshed : Option Refreshed), g.state.redemptions[t]? = some r ∧
          r.key = caller.key ∧ r.phase = .settled entry (.ok refreshed) ∧
          (delivered = .refreshed refreshed ∨ (toPublish refreshed).isSome) ∧
          ∀ id, entry = some id → ∃ e, g.state.entries[id]? = some e ∧ Registered providers e r ∧
            (∀ owner, ownerOf r.credentials = some owner → e.revisions.lookup owner = some caller.key.revision) ∧
            ∃ result, e.outcome = some (.ok result) ∧ refreshed = mergeRefreshedCredentials r.credentials result := by
  intro step g
  have hinv : RunInv providers g := run_inv' ops
  refine ⟨fun i j e e' he he' hopen hopen' hkey => ?_, fun now op i e hnone he => ?_, fun i j p p' hp hp' hopen hopen' hkey => ?_,
    fun now i later => run_sameBut (cancel_sameBut g now i) later, fun caller hcaller hasked t ht => ?_,
    fun caller hcaller delivered hphase => ?_⟩
  · have hlookup := hinv.state.cache.pending i e he hopen
    rw [hkey, hinv.state.cache.pending j e' he' hopen'] at hlookup
    exact (Option.some.inj hlookup).symm
  · obtain ⟨x, hx, -⟩ | ⟨-, hunanswered⟩ := (stateStep_ok hinv.state now op).2.entries.back i e he
    · rw [hnone] at hx
      cases hx
    · exact hunanswered
  · have hlookup := (hinv.state.publications i p hp).held hopen
    rw [hkey, (hinv.state.publications j p' hp').held hopen'] at hlookup
    exact (Option.some.inj hlookup).symm
  · obtain ⟨i, p, hp, rfl, hkey⟩ := run_owned h caller hcaller hasked t ht
    refine ⟨i, p, hp, rfl, hkey, fun r entry refreshed offered hr hsettled hoffered => ?_⟩
    obtain ⟨x, hx, -, hwaiting | ⟨entry', answer, hsettled', hpublished⟩⟩ := (hinv.state.publications i p hp).redeemed
    · exact Or.inr fun now => publishes_offers hp hwaiting hr hsettled hoffered now
    · cases hr.symm.trans hx
      cases hsettled.symm.trans hsettled'
      exact Or.inl (hpublished.offered refreshed offered rfl hoffered)
  · obtain ⟨t, r, entry, refreshed, hr, hkey, hsettled, hdelivered⟩ := (hinv.callers caller hcaller).received delivered hphase
    refine ⟨t, r, entry, refreshed, hr, hkey, hsettled, hdelivered, fun id hid => ?_⟩
    subst hid
    have hok := hinv.state.redemptions t r hr
    obtain ⟨e, he, hregistered, hanswer⟩ := hok.sourced id (by rw [Redemption.entry?, hsettled])
    obtain ⟨result, hresult, hmerged⟩ := Option.map_eq_some_iff.1 (hanswer _ _ hsettled)
    refine ⟨e, he, hregistered, fun owner howner => ?_, ?_⟩
    · rw [hregistered.revision owner howner, ← hkey, hok.key]
      rfl
    · cases result with
      | error code => cases hmerged
      | ok result =>
        cases hmerged
        exact ⟨result, hresult, rfl⟩

/-! ### A publication that outlives the result cache -/

def someProviders : Providers where
  clientId _ := ""
  hasRefreshUrl _ := true

def publishedCall : Request where
  provider := "codex"
  credentials := { connectionId := some "a", refreshToken := some "r0" }
  onCredentialsRefreshed := true
  expectedCredentials := true

def issued (refreshToken : String) : Refreshed := { accessToken := some "x", refreshToken := some refreshToken }

/-- Two callers share a redemption and its publication; one of them gives up. -/
def sharedRun : List (Nat × RefreshOp Unit) :=
  [(0, .call publishedCall), (0, .redeems 0 none), (1, .call publishedCall), (1, .cancels 0), (2, .answers 0 (.ok (some (issued "r1")))),
    (2, .ends 0), (2, .publishes 0), (3, .stores 0 (.ok (some ()))), (3, .returns 0), (3, .resumes 1)]

theorem sharedRun_once :
    (∀ caller ∈ (run (refreshStep someProviders) {} sharedRun).callers, caller.redemption = some 0) ∧
      ((run (refreshStep someProviders) {} sharedRun).state.publications.map fun p => (p.redemption, p.offered)) =
        [(0, some (issued "r1"))] ∧
      ∀ (i j : Nat) e e', (run (refreshStep someProviders) {} sharedRun).state.entries[i]? = some e →
        (run (refreshStep someProviders) {} sharedRun).state.entries[j]? = some e' → e.outcome = none → e'.outcome = none →
          e.key = e'.key → i = j :=
  ⟨by decide +kernel, by decide +kernel, (@refreshTokens_once Unit someProviders sharedRun (by decide +kernel)).1⟩

/-- While the publisher stores the first replacement, its cached result expires: the next call
redeems the old token again, and gets the stored row, but what it redeemed is offered to nobody. -/
def lateRun : List (Nat × RefreshOp Unit) :=
  [(0, .call publishedCall), (0, .redeems 0 none), (1, .answers 0 (.ok (some (issued "r1")))), (1, .ends 0), (1, .publishes 0),
    (20000, .call publishedCall), (20000, .redeems 1 none), (20001, .answers 1 (.ok (some (issued "r2")))), (20001, .ends 1),
    (20002, .stores 0 (.ok (some ()))), (20002, .returns 0), (20002, .resumes 0), (20002, .resumes 1)]

def Redemption.result? (r : Redemption) : Option (Option Refreshed) :=
  match r.phase with
  | .settled _ (.ok refreshed) => some refreshed
  | _ => none

theorem lateRun_lost :
    let g := run (refreshStep someProviders) {} lateRun
    (g.callers.map fun caller => (caller.asked, caller.redemption)) = [(true, some 0), (true, some 1)] ∧
      (g.state.redemptions.map Redemption.result?) = [some (some (issued "r1")), some (some (issued "r2"))] ∧
      toPublish (some (issued "r2")) = some (issued "r2") ∧
      (g.state.publications.map fun p => (p.redemption, p.offered)) = [(0, some (issued "r1"))] ∧
      g.state.publicationLocks.rows = [] := by
  decide +kernel

end TokenProxy.TokenRefresh
