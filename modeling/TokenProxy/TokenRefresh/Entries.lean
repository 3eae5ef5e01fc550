import TokenProxy.TokenRefresh.Sharing

/-!
# Entries of the result cache

An entry whose promise is pending is in the cache (`CacheInv`), so no second redemption of its token
begins; an entry that a connection joined keeps the credential revision that was registered for it
(`Entry.Keeps`).
-/

namespace TokenProxy.TokenRefresh

open Lib

variable {S : Type}

structure Entry.Keeps (e e' : Entry) : Prop where
  key : e'.key = e.key
  context : e'.context = e.context
  revisions : ∀ owner revision, e.revisions.lookup owner = some revision → e'.revisions.lookup owner = some revision
  outcome : ∀ answer, e.outcome = some answer → e'.outcome = some answer

theorem Entry.Keeps.refl (e : Entry) : Entry.Keeps e e := ⟨rfl, rfl, fun _ _ h => h, fun _ h => h⟩

theorem Entry.Keeps.trans {e e' e'' : Entry} (h : Entry.Keeps e e')
    (h' : Entry.Keeps e' e'') : Entry.Keeps e e'' where
  key := h'.key.trans h.key
  context := h'.context.trans h.context
  revisions owner revision hr := h'.revisions owner revision (h.revisions owner revision hr)
  outcome answer ho := h'.outcome answer (h.outcome answer ho)

/-- No entry that is pending, or cached and unexpired, answers for the key of the entry. -/
def Unanswered (s : RefreshState S) (now : Nat) (e : Entry) : Prop :=
  ∀ id hit, cachedEntry s e.key = some (id, hit) → hit.live now = false

structure CacheInv (s : RefreshState S) : Prop where
  pending : ∀ (i : Nat) e, s.entries[i]? = some e → e.outcome = none → s.refreshDedupCache.lookup e.key = some i
  cached : ∀ k i, s.refreshDedupCache.lookup k = some i → ∃ e, s.entries[i]? = some e ∧ e.key = k

theorem CacheInv.same {s s' : RefreshState S} (h : CacheInv s)
    (hcache : s'.refreshDedupCache = s.refreshDedupCache)
    (hentries : s'.entries = s.entries) : CacheInv s' where
  pending i e he := by
    rw [hcache]
    rw [hentries] at he
    exact h.pending i e he
  cached k i hk := by
    rw [hentries]
    rw [hcache] at hk
    exact h.cached k i hk

theorem CacheInv.shrink {s : RefreshState S} (h : CacheInv s) {cache : Dict String Nat}
    (hsub : ∀ k i, cache.lookup k = some i → s.refreshDedupCache.lookup k = some i)
    (hpending : ∀ (i : Nat) e, s.entries[i]? = some e → e.outcome = none → cache.lookup e.key = some i) :
    CacheInv { s with refreshDedupCache := cache } where
  pending := hpending
  cached k i hk := h.cached k i (hsub k i hk)

theorem cachedEntry_of_lookup {s : RefreshState S} {key : String} {i : Nat} {e : Entry}
    (hcache : s.refreshDedupCache.lookup key = some i) (he : s.entries[i]? = some e) :
    cachedEntry s key = some (i, e) := by
  rw [cachedEntry, hcache, Option.bind_some, he, Option.map_some]

theorem lookup_of_cachedEntry {s : RefreshState S} {key : String} {i : Nat} {e : Entry}
    (h : cachedEntry s key = some (i, e)) :
    s.refreshDedupCache.lookup key = some i ∧ s.entries[i]? = some e := by
  obtain ⟨id, hid, h⟩ := Option.bind_eq_some_iff.1 h
  obtain ⟨entry, hentry, h⟩ := Option.map_eq_some_iff.1 h
  cases h
  exact ⟨hid, hentry⟩

theorem live_of_pending {e : Entry} (h : e.outcome = none) (now : Nat) : e.live now = true := by
  rw [Entry.live, h]
  rfl

/-! ### Leaving the cache -/

theorem CacheInv.erase {s : RefreshState S} (h : CacheInv s) {key : String}
    (hkey : ∀ (i : Nat) e, s.entries[i]? = some e → e.outcome = none → e.key ≠ key) :
    CacheInv { s with refreshDedupCache := s.refreshDedupCache.erase key } := by
  refine h.shrink (fun k i hk => ?_) fun i e he hpending => ?_
  · rw [Table.lookup_erase] at hk
    split at hk
    · cases hk
    · exact hk
  · rw [Table.lookup_erase, if_neg (hkey i e he hpending)]
    exact h.pending i e he hpending

theorem CacheInv.sweep {s : RefreshState S} (h : CacheInv s)
    (now : Nat) : CacheInv (sweep s now) := by
  refine h.shrink (fun k i hk => ?_) fun i e he hpending => ?_
  · obtain ⟨row, hrow, rfl⟩ := Option.map_eq_some_iff.1 hk
    rw [Table.get?_filter] at hrow
    rw [Table.lookup, (Option.filter_eq_some_iff.1 hrow).1, Option.map_some]
  · obtain ⟨row, hrow, rfl⟩ := Option.map_eq_some_iff.1 (h.pending i e he hpending)
    have hlive : ((s.entries[row.2]?).any fun entry => entry.live now) = true := by
      rw [he, Option.any_some, live_of_pending hpending]
    rw [Table.lookup, Table.get?_filter, hrow, Option.filter_some, if_pos hlive, Option.map_some]

/-! ### Joining and starting -/

theorem joinEntry_ok {entry entry' : Entry} {context : ContentRevision} {owner : Option String}
    {revision : Revision} (h : joinEntry entry context owner revision = .ok entry') :
    Entry.Keeps entry entry' ∧ entry'.outcome = entry.outcome ∧ entry'.context = context ∧
      ∀ o, owner = some o → entry'.revisions.lookup o = some revision := by
  unfold joinEntry at h
  split at h
  · cases h
  · rename_i hno
    rw [not_or, not_not] at hno
    obtain ⟨hcontext, hrevision⟩ := hno
    cases owner with
    | none =>
      cases h
      exact ⟨.refl _, rfl, hcontext, fun o ho => by cases ho⟩
    | some owner =>
      dsimp only at h
      split at h
      · rename_i hhas
        cases h
        obtain ⟨r, hr⟩ := Option.isSome_iff_exists.1 hhas
        refine ⟨.refl _, rfl, hcontext, fun o ho => ?_⟩
        cases ho
        rw [Option.bind_some, hr, Option.any_some, decide_eq_true_eq, not_not] at hrevision
        rw [hr, hrevision]
      · rename_i hhas
        split at h
        · cases h
        · cases h
          refine ⟨⟨rfl, rfl, fun o r hr => ?_, fun a ha => ha⟩, rfl, hcontext, fun o ho => ?_⟩
          · rw [Table.lookup_put]
            split
            · rename_i ho
              rw [ho] at hr
              rw [hr] at hhas
              exact absurd rfl hhas
            · exact hr
          · cases ho
            rw [Table.lookup_put, if_pos rfl]

/-- What a deduplicated refresh does: the cache stays sound, and an entry that it joins or begins is
registered for its caller. -/
structure Deduped (s : RefreshState S) (key : String) (context : ContentRevision)
    (owner : Option String) (revision : Revision)
    (now : Nat) (result : RefreshState S × RedemptionPhase) : Prop where
  inv : CacheInv result.1
  frame : ∃ cache entries, result.1 = { s with refreshDedupCache := cache, entries := entries }
  entries : Extends Entry.Keeps (Unanswered s now) s.entries result.1.entries
  phase : (∃ code, result.2 = .answered (.error code)) ∨
    ∃ id e, result.2 = .awaiting id ∧ result.1.entries[id]? = some e ∧ e.key = key ∧ e.context = context ∧
      ∀ o, owner = some o → e.revisions.lookup o = some revision

theorem CacheInv.cached_set {s : RefreshState S} (h : CacheInv s) {id : Nat} {e e' : Entry}
    (he : s.entries[id]? = some e)
    (hkeeps : Entry.Keeps e e') {k : String} {i : Nat} (hk : s.refreshDedupCache.lookup k = some i) :
    ∃ x, (s.entries.set id e')[i]? = some x ∧ x.key = k := by
  obtain ⟨x, hx, hkey⟩ := h.cached k i hk
  have hset : Extends Entry.Keeps (fun _ => False) s.entries (s.entries.set id e') := .set Entry.Keeps.refl he hkeeps
  obtain ⟨x', hx', hkept⟩ := hset.kept i x hx
  exact ⟨x', hx', hkept.key.trans hkey⟩

theorem CacheInv.join {s : RefreshState S} (h : CacheInv s) {id : Nat} {e e' : Entry}
    (he : s.entries[id]? = some e)
    (hkeeps : Entry.Keeps e e') (hsame : e'.outcome = e.outcome) : CacheInv { s with entries := s.entries.set id e' } where
  pending := by
    refine items_set (P := fun i (e : Entry) => e.outcome = none → s.refreshDedupCache.lookup e.key = some i) h.pending ?_
    rw [hsame, hkeeps.key]
    exact h.pending id e he
  cached _ _ hk := h.cached_set he hkeeps hk

theorem startEntry_inv {s : RefreshState S} (h : CacheInv s) {entry : Entry}
    (hfree : s.refreshDedupCache.lookup entry.key = none) :
    CacheInv (startEntry s entry).1 where
  pending := by
    refine items_snoc (P := fun i (e : Entry) => e.outcome = none → (s.refreshDedupCache.put (entry.key, s.entries.length)).lookup e.key = some i)
      (fun i e he hpending => ?_) fun _ => ?_
    · have hcached := h.pending i e he hpending
      rw [Table.lookup_put, if_neg, hcached]
      intro hkey
      rw [hkey, hfree] at hcached
      cases hcached
    · rw [Table.lookup_put, if_pos rfl]
  cached k i hk := by
    simp only [startEntry] at hk ⊢
    rw [Table.lookup_put] at hk
    split at hk
    · rename_i hkey
      cases hk
      exact ⟨entry, by simp, hkey.symm⟩
    · obtain ⟨x, hx, hkey⟩ := h.cached k i hk
      exact ⟨x, by rw [List.getElem?_append_left (List.getElem?_eq_some_iff.1 hx).1, hx], hkey⟩

theorem sweep_lookup_none {s : RefreshState S} {key : String}
    (h : s.refreshDedupCache.lookup key = none) (now : Nat) :
    (sweep s now).refreshDedupCache.lookup key = none := by
  rw [Table.lookup, Option.map_eq_none_iff] at h ⊢
  rw [sweep, Table.get?_filter, h, Option.filter_none]

theorem dedupRefresh_deduped {s : RefreshState S} (hinv : CacheInv s) (key : String)
    (context : ContentRevision) (owner : Option String) (revision : Revision) (now : Nat) :
    Deduped s key context owner revision now (dedupRefresh s key context owner revision now) := by
  unfold dedupRefresh
  split
  · rename_i id hit hhit
    obtain ⟨hcache, hentry⟩ := lookup_of_cachedEntry (Option.filter_eq_some_iff.1 hhit).1
    obtain ⟨x, hx, hkey⟩ := hinv.cached key id hcache
    obtain rfl : hit = x := Option.some.inj (hentry.symm.trans hx)
    split
    · rename_i hit' hjoin
      obtain ⟨hkeeps, houtcome, hcontext, howner⟩ := joinEntry_ok hjoin
      exact ⟨hinv.join hentry hkeeps houtcome, ⟨_, _, rfl⟩, Extends.set Entry.Keeps.refl hentry hkeeps,
        Or.inr ⟨id, hit', rfl, getElem?_set_of_some hentry, hkeeps.key.trans hkey, hcontext, howner⟩⟩
    · rename_i code hjoin
      exact ⟨hinv, ⟨_, _, rfl⟩, Extends.refl Entry.Keeps.refl _, Or.inl ⟨code, rfl⟩⟩
  · rename_i hmiss
    have hunanswered : ∀ id hit, cachedEntry s key = some (id, hit) → hit.live now = false := by
      intro id hit hhit
      rw [hhit, Option.filter_some] at hmiss
      by_contra hlive
      rw [if_pos (by simpa using hlive)] at hmiss
      cases hmiss
    have herased : CacheInv { s with refreshDedupCache := s.refreshDedupCache.erase key } := by
      refine hinv.erase fun i e he hpending hkey => ?_
      have hlive := hunanswered i e (cachedEntry_of_lookup (hkey ▸ hinv.pending i e he hpending) he)
      rw [live_of_pending hpending] at hlive
      cases hlive
    have hfree : ({ s with refreshDedupCache := s.refreshDedupCache.erase key }).refreshDedupCache.lookup key = none := by
      rw [Table.lookup_erase, if_pos rfl]
    -- with or without the expired entries swept, the key is free and nothing else changed
    have hswept : ∀ s' : RefreshState S, CacheInv s' → (∃ cache, s' = { s with refreshDedupCache := cache }) →
        s'.refreshDedupCache.lookup key = none →
        Deduped s key context owner revision now
          (if maxRefreshEntries ≤ s'.refreshDedupCache.rows.length then (s', .answered (.error "REFRESH_CAPACITY"))
          else startEntry s' (newEntry key context owner revision)) := by
      rintro s' hinv' ⟨cache, rfl⟩ hnone
      split
      · exact ⟨hinv', ⟨_, _, rfl⟩, Extends.refl Entry.Keeps.refl _, Or.inl ⟨_, rfl⟩⟩
      · refine ⟨startEntry_inv hinv' hnone, ⟨_, _, rfl⟩, Extends.snoc Entry.Keeps.refl _ hunanswered,
          Or.inr ⟨s.entries.length, newEntry key context owner revision, rfl, ?_, rfl, rfl, fun o ho => ?_⟩⟩
        · simp [startEntry]
        · simp only [newEntry, ho, Option.elim_some, Table.lookup_put, if_pos]
    by_cases hfull : maxRefreshEntries ≤ (s.refreshDedupCache.erase key).rows.length
    · simp only [if_pos hfull]
      exact hswept _ (herased.sweep now) ⟨_, rfl⟩ (sweep_lookup_none hfree now)
    · simp only [if_neg hfull]
      have h := hswept _ herased ⟨_, rfl⟩ hfree
      simp only [if_neg hfull] at h
      exact h

end TokenProxy.TokenRefresh
