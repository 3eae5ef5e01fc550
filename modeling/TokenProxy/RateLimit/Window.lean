import TokenProxy.Lib.Run
import TokenProxy.Lib.Table

/-!
# The window of callers without a key

`chat.js`: a caller without an API key may make `maxRequests` requests in `windowMs`. Of each caller
the instants of the admitted requests are kept as long as they are in the window, and once a window
the callers that went quiet are forgotten.

The limiter is compared with one that never forgets (`admitted`, all requests that it ever let
through):

* `isRateLimited_iff`: a request is refused if and only if the window up to it is full, whatever was
  forgotten before;
* `admitted_window`: no window of that length has more than `maxRequests` admitted requests of one
  caller;
* `reset_truthful`: the instant that a refused caller is told is the first at which it is admitted
  again.
-/

namespace TokenProxy.RateLimit

open Lib

structure Limits where
  windowMs : ℕ
  maxRequests : ℕ
  /-- `readPositiveIntEnv` -/
  window_pos : 0 < windowMs
  max_pos : 0 < maxRequests

variable {κ : Type} [DecidableEq κ]

structure State (κ : Type) [DecidableEq κ] where
  rateLimitHits : Dict κ (List ℕ)
  lastRateLimitSweep : ℕ

/-- `rateLimitHits.get(key) || []` -/
def State.timestamps (s : State κ) (key : κ) : List ℕ := (s.rateLimitHits.lookup key).getD []

def isQuiet (limits : Limits) (now : ℕ) (timestamps : List ℕ) : Bool :=
  match timestamps.getLast? with
  | none => true
  | some newest => newest + limits.windowMs ≤ now

def sweepRateLimitHits (limits : Limits) (s : State κ) (now : ℕ) : State κ :=
  if now < s.lastRateLimitSweep + limits.windowMs then s
  else { rateLimitHits := s.rateLimitHits.filter fun row => !isQuiet limits now row.2, lastRateLimitSweep := now }

/-- `timestamps.filter((t) => now - t < RATE_LIMIT_WINDOW_MS)` -/
def inWindow (limits : Limits) (now : ℕ) (timestamps : List ℕ) : List ℕ := timestamps.filter fun t => now < t + limits.windowMs

def isRateLimited (limits : Limits) (s : State κ) (key : κ) (now : ℕ) : Bool × State κ :=
  let s := sweepRateLimitHits limits s now
  let timestamps := inWindow limits now (s.timestamps key)
  if limits.maxRequests ≤ timestamps.length then (true, s)
  else (false, { s with rateLimitHits := s.rateLimitHits.put (key, timestamps ++ [now]) })

def rateLimitResetAtMs (limits : Limits) (s : State κ) (key : κ) : Option ℕ :=
  (s.timestamps key).head?.map fun oldest => oldest + limits.windowMs

/-! ### Runs -/

abbrev Request (κ : Type) := κ × ℕ

structure Served (κ : Type) [DecidableEq κ] where
  state : State κ
  admitted : List (Request κ)

def serve (limits : Limits) (s : Served κ) (r : Request κ) : Served κ where
  state := (isRateLimited limits s.state r.1 r.2).2
  admitted := if (isRateLimited limits s.state r.1 r.2).1 then s.admitted else s.admitted ++ [r]

def started (start : ℕ) : Served κ := ⟨⟨Table.empty, start⟩, []⟩

def served (limits : Limits) (start : ℕ) (requests : List (Request κ)) : Served κ := run (serve limits) (started start) requests

def Ordered (requests : List (Request κ)) : Prop := requests.Pairwise fun r r' => r.2 ≤ r'.2

def hitsOf (admitted : List (Request κ)) (key : κ) : List ℕ := (admitted.filter fun r => r.1 = key).map Prod.snd

@[simp] theorem hitsOf_nil (key : κ) : hitsOf ([] : List (Request κ)) key = [] := rfl

theorem hitsOf_snoc (admitted : List (Request κ)) (r : Request κ) (key : κ) :
    hitsOf (admitted ++ [r]) key = if r.1 = key then hitsOf admitted key ++ [r.2] else hitsOf admitted key := by
  unfold hitsOf
  rw [List.filter_append, List.map_append]
  by_cases h : r.1 = key
  · rw [if_pos h]
    simp [h]
  · rw [if_neg h]
    simp [h]

/-! ### What is in the window -/

variable {limits : Limits}

theorem mem_inWindow {now t : ℕ} {timestamps : List ℕ} :
    t ∈ inWindow limits now timestamps ↔ t ∈ timestamps ∧ now < t + limits.windowMs := by
  simp [inWindow]

theorem inWindow_append (now : ℕ) (xs ys : List ℕ) :
    inWindow limits now (xs ++ ys) = inWindow limits now xs ++ inWindow limits now ys :=
  List.filter_append ..

theorem inWindow_inWindow {now later : ℕ} (h : now ≤ later) (timestamps : List ℕ) :
    inWindow limits later (inWindow limits now timestamps) = inWindow limits later timestamps := by
  unfold inWindow
  rw [List.filter_filter]
  apply List.filter_congr
  intro t _
  by_cases ht : later < t + limits.windowMs
  · have : now < t + limits.windowMs := by omega
    simp [ht, this]
  · simp [ht]

theorem inWindow_eq_self {now : ℕ} {timestamps : List ℕ}
    (h : timestamps.length ≤ (inWindow limits now timestamps).length) :
    inWindow limits now timestamps = timestamps :=
  List.filter_sublist.eq_of_length_le h

theorem inWindow_of_isQuiet {now later : ℕ} {timestamps : List ℕ}
    (hq : isQuiet limits now timestamps = true)
    (hs : timestamps.Pairwise (· ≤ ·)) (h : now ≤ later) :
    inWindow limits later timestamps = [] := by
  unfold inWindow
  rw [List.filter_eq_nil_iff]
  intro t ht
  rcases List.eq_nil_or_concat timestamps with rfl | ⟨before, newest, rfl⟩
  · exact absurd ht (by simp)
  · have hnewest : newest + limits.windowMs ≤ now := by simpa [isQuiet] using hq
    have hle : t ≤ newest := by
      rw [List.concat_eq_append, List.pairwise_append] at hs
      rw [List.concat_eq_append, List.mem_append, List.mem_singleton] at ht
      rcases ht with ht | rfl
      · exact hs.2.2 t ht newest (by simp)
      · exact le_rfl
    simp only [decide_eq_true_eq, not_lt]
    omega

theorem full_iff_oldest {oldest : ℕ} {rest : List ℕ} (hs : (oldest :: rest).Pairwise (· ≤ ·))
    (later : ℕ) :
    (oldest :: rest).length ≤ (inWindow limits later (oldest :: rest)).length ↔ later < oldest + limits.windowMs := by
  constructor
  · intro hfull
    have hall := inWindow_eq_self hfull
    exact (mem_inWindow.mp (hall ▸ List.mem_cons_self)).2
  · intro hlater
    have hall : inWindow limits later (oldest :: rest) = oldest :: rest := by
      apply List.filter_eq_self.mpr
      intro hit hhit
      have hle : oldest ≤ hit := by
        rcases List.mem_cons.mp hhit with rfl | hhit
        · exact le_rfl
        · exact (List.pairwise_cons.mp hs).1 hit hhit
      simp only [decide_eq_true_eq]
      omega
    rw [hall]

/-! ### The limiter against the one that never forgets -/

/-- From `clock` on, what is kept of a caller looks like all its admitted requests. -/
structure Agrees (limits : Limits) (s : Served κ) (clock : ℕ) : Prop where
  same : ∀ key now, clock ≤ now → inWindow limits now (s.state.timestamps key) = inWindow limits now (hitsOf s.admitted key)
  sorted : ∀ key, (s.state.timestamps key).Pairwise (· ≤ ·)
  short : ∀ key, (s.state.timestamps key).length ≤ limits.maxRequests
  past : ∀ key, ∀ t ∈ s.state.timestamps key, t ≤ clock

theorem timestamps_sweep (limits : Limits) (s : State κ) (now : ℕ) (key : κ) :
    (sweepRateLimitHits limits s now).timestamps key = s.timestamps key ∨
      ((sweepRateLimitHits limits s now).timestamps key = [] ∧ isQuiet limits now (s.timestamps key) = true) := by
  unfold sweepRateLimitHits
  split
  · exact Or.inl rfl
  · unfold State.timestamps
    rw [Table.lookup_filter s.rateLimitHits (fun timestamps => !isQuiet limits now timestamps) key]
    cases h : s.rateLimitHits.lookup key with
    | none => exact Or.inl rfl
    | some timestamps =>
      cases hq : isQuiet limits now timestamps with
      | false => exact Or.inl (by simp [Option.filter, hq])
      | true => exact Or.inr ⟨by simp [Option.filter, hq], hq⟩

theorem Agrees.sweep {s : Served κ} {clock now : ℕ} (h : Agrees limits s clock)
    (hnow : clock ≤ now) :
    Agrees limits { s with state := sweepRateLimitHits limits s.state now } now where
  same key later hlater := by
    rw [← h.same key later (hnow.trans hlater)]
    rcases timestamps_sweep limits s.state now key with he | ⟨he, hq⟩
    · rw [he]
    · rw [he, inWindow_of_isQuiet hq (h.sorted key) hlater]
      rfl
  sorted key := by
    rcases timestamps_sweep limits s.state now key with he | ⟨he, -⟩
    · exact he ▸ h.sorted key
    · simp [he]
  short key := by
    rcases timestamps_sweep limits s.state now key with he | ⟨he, -⟩
    · exact he ▸ h.short key
    · simp [he]
  past key t ht := by
    rcases timestamps_sweep limits s.state now key with he | ⟨he, -⟩
    · exact (h.past key t (he ▸ ht)).trans hnow
    · simp [he] at ht

theorem full_of_refused {s : State κ} {key : κ} {now : ℕ}
    (h : (isRateLimited limits s key now).1 = true) :
    limits.maxRequests ≤ (inWindow limits now ((sweepRateLimitHits limits s now).timestamps key)).length ∧
      (isRateLimited limits s key now).2 = sweepRateLimitHits limits s now := by
  unfold isRateLimited at h ⊢
  simp only at h ⊢
  split at h
  · rename_i hfull
    rw [if_pos hfull]
    exact ⟨hfull, rfl⟩
  · exact absurd h (by simp)

theorem serve_full {s : Served κ} {r : Request κ}
    (h : limits.maxRequests ≤ (inWindow limits r.2 ((sweepRateLimitHits limits s.state r.2).timestamps r.1)).length) :
    serve limits s r = { s with state := sweepRateLimitHits limits s.state r.2 } := by
  unfold serve isRateLimited
  simp only [if_pos h]
  rfl

theorem serve_free {s : Served κ} {r : Request κ}
    (h : ¬ limits.maxRequests ≤ (inWindow limits r.2 ((sweepRateLimitHits limits s.state r.2).timestamps r.1)).length) :
    serve limits s r =
      { state :=
          { sweepRateLimitHits limits s.state r.2 with
            rateLimitHits := (sweepRateLimitHits limits s.state r.2).rateLimitHits.put
              (r.1, inWindow limits r.2 ((sweepRateLimitHits limits s.state r.2).timestamps r.1) ++ [r.2]) }
        admitted := s.admitted ++ [r] } := by
  unfold serve isRateLimited
  simp only [if_neg h]
  rfl

theorem Agrees.serve {s : Served κ} {clock : ℕ} {r : Request κ} (h : Agrees limits s clock)
    (hr : clock ≤ r.2) :
    Agrees limits (serve limits s r) r.2 := by
  obtain ⟨caller, now⟩ := r
  have hsweep := h.sweep hr
  by_cases hfull : limits.maxRequests ≤ (inWindow limits now ((sweepRateLimitHits limits s.state now).timestamps caller)).length
  · rw [serve_full hfull]
    exact hsweep
  rw [serve_free hfull]
  generalize sweepRateLimitHits limits s.state now = swept at hsweep hfull
  have hput (key : κ) :
      State.timestamps { swept with rateLimitHits := swept.rateLimitHits.put (caller, inWindow limits now (swept.timestamps caller) ++ [now]) }
        key = if key = caller then inWindow limits now (swept.timestamps caller) ++ [now] else swept.timestamps key := by
    unfold State.timestamps
    rw [Table.lookup_put]
    split <;> rfl
  constructor
  case same =>
    intro key later hlater
    rw [hput, hitsOf_snoc]
    by_cases hkey : key = caller
    · subst hkey
      rw [if_pos rfl, if_pos rfl, inWindow_append, inWindow_append, inWindow_inWindow hlater,
        hsweep.same key later hlater]
    · rw [if_neg hkey, if_neg fun he => hkey he.symm]
      exact hsweep.same key later hlater
  case sorted =>
    intro key
    rw [hput]
    split
    · rw [List.pairwise_append]
      refine ⟨(hsweep.sorted caller).sublist List.filter_sublist, by simp, ?_⟩
      intro t ht t' ht'
      rw [List.mem_singleton.mp ht']
      exact hsweep.past caller t (mem_inWindow.mp ht).1
    · exact hsweep.sorted key
  case short =>
    intro key
    rw [hput]
    split
    · rw [List.length_append, List.length_singleton]
      omega
    · exact hsweep.short key
  case past =>
    intro key t ht
    rw [hput] at ht
    split at ht
    · rcases List.mem_append.mp ht with ht | ht
      · exact hsweep.past caller t (mem_inWindow.mp ht).1
      · exact (List.mem_singleton.mp ht).le
    · exact hsweep.past key t ht

theorem agrees_started (start clock : ℕ) : Agrees limits (started start : Served κ) clock where
  same _ _ _ := rfl
  sorted _ := List.Pairwise.nil
  short _ := Nat.zero_le _
  past _ _ ht := absurd ht (by simp [started, State.timestamps, Table.lookup])

theorem Agrees.run {s : Served κ} {clock : ℕ} (h : Agrees limits s clock) :
    ∀ {requests : List (Request κ)} {later : ℕ}, Ordered requests → (∀ r ∈ requests, clock ≤ r.2) → (∀ r ∈ requests, r.2 ≤ later) →
      clock ≤ later → Agrees limits (Lib.run (RateLimit.serve limits) s requests) later := by
  intro requests
  induction requests generalizing s clock with
  | nil =>
    intro later _ _ _ hlater
    exact ⟨fun key now hnow => h.same key now (hlater.trans hnow), h.sorted, h.short,
      fun key t ht => (h.past key t ht).trans hlater⟩
  | cons r requests ih =>
    intro later hordered hclock hlast _
    obtain ⟨hr, hordered⟩ := List.pairwise_cons.mp hordered
    rw [run_cons]
    exact ih (h.serve (hclock r (by simp))) hordered hr (fun r' hr' => hlast r' (by simp [hr'])) (hlast r (by simp))

theorem agrees_served (start : ℕ) {requests : List (Request κ)} {r : Request κ}
    (h : Ordered (requests ++ [r])) :
    Agrees limits (served limits start requests) r.2 := by
  obtain ⟨hrequests, -, hlast⟩ := List.pairwise_append.mp h
  exact (agrees_started start 0).run hrequests (fun _ _ => Nat.zero_le _) (fun r' hr' => hlast r' hr' r (by simp)) (Nat.zero_le _)

theorem Agrees.refused_iff {s : Served κ} {clock now : ℕ} (h : Agrees limits s clock)
    (hnow : clock ≤ now) (key : κ) :
    (isRateLimited limits s.state key now).1 = true ↔ limits.maxRequests ≤ (inWindow limits now (hitsOf s.admitted key)).length := by
  have hsame : inWindow limits now ((sweepRateLimitHits limits s.state now).timestamps key) = inWindow limits now (hitsOf s.admitted key) :=
    (h.sweep hnow).same key now le_rfl
  unfold isRateLimited
  simp only [hsame]
  split <;> simp [*]

/-! ### What a run of the limiter guarantees -/

/-- A request is refused if and only if the window up to it is full of admitted ones: what the
limiter forgot does not count. -/
theorem isRateLimited_iff (limits : Limits) (start : ℕ) (requests : List (Request κ)) (key : κ)
    (now : ℕ) (h : Ordered (requests ++ [(key, now)])) :
    (isRateLimited limits (served limits start requests).state key now).1 = true ↔
      limits.maxRequests ≤ ((hitsOf (served limits start requests).admitted key).filter fun t => now < t + limits.windowMs).length :=
  (agrees_served start h).refused_iff le_rfl key

/-- No window has more admitted requests of a caller than it may make. -/
def Within (limits : Limits) (admitted : List (Request κ)) : Prop :=
  ∀ key first, ((hitsOf admitted key).filter fun t => first ≤ t ∧ t < first + limits.windowMs).length ≤ limits.maxRequests

theorem Within.serve {s : Served κ} {clock : ℕ} {r : Request κ} (hw : Within limits s.admitted)
    (h : Agrees limits s clock) (hr : clock ≤ r.2) : Within limits (serve limits s r).admitted := by
  have hiff := h.refused_iff hr r.1
  unfold RateLimit.serve
  simp only
  split
  · exact hw
  · rename_i hadmitted
    intro key first
    have hlt := not_le.mp (mt hiff.mpr hadmitted)
    rw [hitsOf_snoc]
    split
    · rename_i hkey
      subst hkey
      rw [List.filter_append, List.length_append]
      by_cases hin : first ≤ r.2 ∧ r.2 < first + limits.windowMs
      · -- what shares a window with the new request is in the window up to it
        have hsub : ((hitsOf s.admitted r.1).filter fun t => first ≤ t ∧ t < first + limits.windowMs).length ≤
            (inWindow limits r.2 (hitsOf s.admitted r.1)).length := by
          apply List.Sublist.length_le
          apply List.monotone_filter_right
          intro t ht
          simp only [decide_eq_true_eq] at ht ⊢
          omega
        have hone := List.length_filter_le (fun t => decide (first ≤ t ∧ t < first + limits.windowMs)) [r.2]
        rw [List.length_singleton] at hone
        omega
      · rw [List.filter_cons_of_neg (by simpa using hin), List.filter_nil, List.length_nil]
        exact hw r.1 first
    · exact hw key first

theorem within_run {s : Served κ} {clock : ℕ} {requests : List (Request κ)}
    (hw : Within limits s.admitted) (h : Agrees limits s clock)
    (hordered : Ordered requests) (hclock : ∀ r ∈ requests, clock ≤ r.2) :
    Within limits (run (serve limits) s requests).admitted := by
  induction requests generalizing s clock with
  | nil => exact hw
  | cons r requests ih =>
    obtain ⟨hr, hordered⟩ := List.pairwise_cons.mp hordered
    have hfirst := hclock r (by simp)
    exact ih (hw.serve h hfirst) (h.serve hfirst) hordered hr

/-- In every run of a clock that does not run backwards, each window has at most `maxRequests`
admitted requests of each caller. -/
theorem admitted_window (limits : Limits) (start : ℕ) (requests : List (Request κ))
    (h : Ordered requests) (key : κ) (first : ℕ) :
    ((hitsOf (served limits start requests).admitted key).filter fun t => first ≤ t ∧ t < first + limits.windowMs).length ≤
      limits.maxRequests :=
  within_run (fun _ _ => Nat.zero_le _) (agrees_started start 0) h (fun _ _ => Nat.zero_le _) key first

/-- As long as the window of a caller stays full, its admitted requests stay as
they are, whoever else asks. -/
theorem hitsOf_run {s : Served κ} {clock reset : ℕ} {key : κ} {requests : List (Request κ)}
    (h : Agrees limits s clock)
    (hfull : ∀ t, clock ≤ t → t < reset → limits.maxRequests ≤ (inWindow limits t (hitsOf s.admitted key)).length)
    (hordered : Ordered requests) (hclock : ∀ r ∈ requests, clock ≤ r.2) (hbefore : ∀ r ∈ requests, r.1 = key → r.2 < reset) :
    hitsOf (run (serve limits) s requests).admitted key = hitsOf s.admitted key := by
  induction requests generalizing s clock with
  | nil => rfl
  | cons r requests ih =>
    obtain ⟨hr, hordered⟩ := List.pairwise_cons.mp hordered
    have hfirst := hclock r (by simp)
    have hsame : hitsOf (serve limits s r).admitted key = hitsOf s.admitted key := by
      unfold RateLimit.serve
      simp only
      split
      · rfl
      · rename_i hadmitted
        rw [hitsOf_snoc, if_neg]
        intro hkey
        have hrefused := (h.refused_iff hfirst r.1).mpr (hkey ▸ hfull r.2 hfirst (hbefore r (by simp) hkey))
        exact hadmitted hrefused
    rw [run_cons, ih (h.serve hfirst) (fun t ht => hsame ▸ hfull t (hfirst.trans ht)) hordered hr fun r' hr' => hbefore r' (by simp [hr']),
      hsame]

/-- The instant told with a refusal is in the next window, and it is the first at which the caller
is admitted again, whoever else asks before. -/
theorem reset_truthful (limits : Limits) (start : ℕ) (requests others : List (Request κ)) (key : κ)
    (now later : ℕ) (h : Ordered (requests ++ (key, now) :: (others ++ [(key, later)])))
    (hrefused : (isRateLimited limits (served limits start requests).state key now).1 = true) :
    ∃ reset, rateLimitResetAtMs limits (isRateLimited limits (served limits start requests).state key now).2 key = some reset ∧
      now < reset ∧ reset ≤ now + limits.windowMs ∧
      ((∀ r ∈ others, r.1 = key → r.2 < reset) →
        ((isRateLimited limits (served limits start (requests ++ (key, now) :: others)).state key later).1 = true ↔ later < reset)) := by
  have hnow : Ordered (requests ++ [(key, now)]) := List.Pairwise.sublist (by simp) h
  have hlater : Ordered ((requests ++ (key, now) :: others) ++ [(key, later)]) := by
    rw [List.append_assoc]
    exact h
  have hagrees : Agrees limits (served limits start requests) now := agrees_served start hnow
  generalize hs : served limits start requests = s at hagrees hrefused
  have hswept : Agrees limits { s with state := sweepRateLimitHits limits s.state now } now := hagrees.sweep le_rfl
  obtain ⟨hfull, hstate⟩ := full_of_refused hrefused
  have hserve : serve limits s (key, now) = { s with state := sweepRateLimitHits limits s.state now } := serve_full hfull
  have hsame : inWindow limits now ((sweepRateLimitHits limits s.state now).timestamps key) = inWindow limits now (hitsOf s.admitted key) :=
    hswept.same key now le_rfl
  have hsorted : ((sweepRateLimitHits limits s.state now).timestamps key).Pairwise (· ≤ ·) := hswept.sorted key
  have hshort : ((sweepRateLimitHits limits s.state now).timestamps key).length ≤ limits.maxRequests := hswept.short key
  have hpast : ∀ t ∈ (sweepRateLimitHits limits s.state now).timestamps key, t ≤ now := hswept.past key
  -- what is kept of the caller is the window, and it is full
  have hall := inWindow_eq_self (hshort.trans hfull)
  unfold rateLimitResetAtMs
  rw [hstate]
  generalize (sweepRateLimitHits limits s.state now).timestamps key = kept at hfull hsame hsorted hshort hpast hall
  rw [hall] at hsame hfull
  obtain _ | ⟨oldest, rest⟩ := kept
  · have := limits.max_pos
    simp only [List.length_nil] at hfull
    omega
  have hlength : (oldest :: rest).length = limits.maxRequests := Nat.le_antisymm hshort hfull
  have hwindow (t : ℕ) (ht : now ≤ t) :
      limits.maxRequests ≤ (inWindow limits t (hitsOf s.admitted key)).length ↔ t < oldest + limits.windowMs := by
    rw [← inWindow_inWindow ht, ← hsame, ← hlength, full_iff_oldest hsorted]
  have hin : now < oldest + limits.windowMs := (mem_inWindow.mp (hall ▸ List.mem_cons_self)).2
  refine ⟨oldest + limits.windowMs, rfl, hin, Nat.add_le_add_right (hpast oldest (by simp)) _, fun hbefore => ?_⟩
  obtain ⟨-, hafter, -⟩ := List.pairwise_append.mp h
  obtain ⟨hnext, hothers⟩ := List.pairwise_cons.mp hafter
  have hhits : hitsOf (served limits start (requests ++ (key, now) :: others)).admitted key = hitsOf s.admitted key := by
    unfold served at hs ⊢
    rw [run_append, hs, run_cons, hserve]
    exact hitsOf_run hswept (fun t ht => (hwindow t ht).mpr) (List.pairwise_append.mp hothers).1 (fun r hr => hnext r (by simp [hr])) hbefore
  rw [(agrees_served start hlater).refused_iff le_rfl, hhits]
  exact hwindow later (hnext (key, later) (by simp))

def twoASecond : Limits := ⟨1000, 2, by decide, by decide⟩

theorem third_is_refused :
    (isRateLimited twoASecond (served twoASecond 0 [("10.0.0.1", 10), ("10.0.0.2", 11), ("10.0.0.1", 500)]).state "10.0.0.1" 900).1 = true :=
  (isRateLimited_iff twoASecond 0 [("10.0.0.1", 10), ("10.0.0.2", 11), ("10.0.0.1", 500)] "10.0.0.1" 900 (by simp [Ordered])).mpr (by decide)

theorem two_in_the_second :
    ((hitsOf (served twoASecond 0 [("10.0.0.1", 10), ("10.0.0.1", 500), ("10.0.0.1", 900)]).admitted "10.0.0.1").filter
      fun t => 10 ≤ t ∧ t < 10 + twoASecond.windowMs).length ≤ 2 :=
  admitted_window twoASecond 0 [("10.0.0.1", 10), ("10.0.0.1", 500), ("10.0.0.1", 900)] (by simp [Ordered]) "10.0.0.1" 10

theorem told_when_to_return :
    ∃ reset, rateLimitResetAtMs twoASecond
        (isRateLimited twoASecond (served twoASecond 0 [("10.0.0.1", 10), ("10.0.0.1", 500)]).state "10.0.0.1" 900).2 "10.0.0.1" = some reset ∧
      900 < reset ∧ reset ≤ 900 + twoASecond.windowMs ∧
      ((∀ r ∈ [("10.0.0.2", 950)], r.1 = "10.0.0.1" → r.2 < reset) →
        ((isRateLimited twoASecond
            (served twoASecond 0 ([("10.0.0.1", 10), ("10.0.0.1", 500)] ++ ("10.0.0.1", 900) :: [("10.0.0.2", 950)])).state
            "10.0.0.1" 1010).1 = true ↔ 1010 < reset)) :=
  reset_truthful twoASecond 0 [("10.0.0.1", 10), ("10.0.0.1", 500)] [("10.0.0.2", 950)] "10.0.0.1" 900 1010 (by simp [Ordered]) (by decide)

end TokenProxy.RateLimit
