import Mathlib.Data.List.Infix
import TokenProxy.Lib.Run
import TokenProxy.Streaming.Peek

/-!
# The replay body

Whatever its consumer and its stream do, what a replay body has given and what is left make up what
was read and what follows.
-/

namespace TokenProxy.Streaming

open Lib (run run_append run_inv)

universe u

variable {ε : Type u} {π : Type}

/-! ### The replay body -/

def Replay.left (b : Replay ε) : List Chunk :=
  b.queue ++ match b.state with
    | .readable => b.reader.rest
    | _ => []

def Replay.ended (b : Replay ε) : Bool :=
  match b.state with
  | .closed => true
  | .errored _ => true
  | _ => false

/-- Whatever happens to the body, its consumer gets `all` from the beginning; unless it cancels,
nothing is lost, the body ends only after `all`, and reading on gets there. -/
def ReplaysAll (all : List Chunk) (b : Replay ε) : Prop :=
  ∀ ops, (run Replay.step b ops).given <+: all ∧
    (ReplayOp.cancel ∉ ops →
      (run Replay.step b ops).given ++ (run Replay.step b ops).left = all ∧
      ((run Replay.step b ops).ended = true → (run Replay.step b ops).given = all) ∧
      ∃ more, ReplayOp.cancel ∉ more ∧ (run Replay.step b (ops ++ more)).given = all)

structure Replay.Sound (all : List Chunk) (b : Replay ε) : Prop where
  conserved : b.given ++ b.left = all
  reading : b.state = .readable → b.reader.state = .readable
  drained : b.ended = true → b.queue = []
  current : b.state ≠ .cancelled

namespace Replay.Sound

variable {all : List Chunk} {b : Replay ε}

theorem pull (h : b.Sound all) : b.pull.Sound all := by
  unfold Replay.pull
  split
  case h_1 hstate hqueue =>
    have hreader := h.reading hstate
    have hall : b.given ++ b.reader.rest = all := by simpa [left, hstate, hqueue] using h.conserved
    rcases hrest : b.reader.rest with _ | ⟨chunk, rest⟩
    · rw [hrest] at hall
      cases hend : b.reader.ending with
      | done =>
        rw [Reader.read_done hreader hrest hend]
        exact ⟨by simpa [left, hqueue] using hall, by simp, fun _ => hqueue, by simp⟩
      | fails e =>
        rw [Reader.read_failed hreader hrest hend]
        exact ⟨by simpa [left, hqueue] using hall, by simp, fun _ => hqueue, by simp⟩
      | silent =>
        rw [Reader.read_pending hreader hrest hend]
        exact ⟨h.conserved, h.reading, h.drained, h.current⟩
    · rw [Reader.read_value hreader hrest]
      refine ⟨?_, fun _ => hreader, fun hended => ?_, h.current⟩
      · simpa [left, hstate, hrest] using hall
      · simp [ended, hstate] at hended
  case h_2 => exact h

theorem take (h : b.Sound all) : b.take.Sound all := by
  unfold Replay.take
  cases hqueue : b.queue with
  | nil => exact h
  | cons chunk queue =>
    have hopen : b.ended = false := by
      by_contra hended
      simpa [hqueue] using h.drained (by simpa using hended)
    have hall := h.conserved
    cases hstate : b.state with
    | readable =>
      refine ⟨?_, fun _ => h.reading hstate, fun hended => ?_, ?_⟩
      · simpa [left, hstate, hqueue, ReplayState.drained] using hall
      · simp [ended, ReplayState.drained] at hended
      · simp [ReplayState.drained]
    | closing =>
      refine ⟨?_, fun hreading => ?_, fun hended => ?_, ?_⟩
      · by_cases hlast : queue = [] <;> simpa [left, hstate, hqueue, ReplayState.drained, hlast] using hall
      · by_cases hlast : queue = [] <;> simp [ReplayState.drained, hlast] at hreading
      · by_cases hlast : queue = []
        · exact hlast
        · simp [ended, hlast] at hended
      · by_cases hlast : queue = [] <;> simp [ReplayState.drained, hlast]
    | closed => simp [ended, hstate] at hopen
    | errored e => simp [ended, hstate] at hopen
    | cancelled => exact absurd hstate h.current

theorem run {ops : List ReplayOp} (h : b.Sound all)
    (hops : ReplayOp.cancel ∉ ops) : (Lib.run Replay.step b ops).Sound all := by
  induction ops generalizing b with
  | nil => exact h
  | cons o ops ih =>
    have hrest : ReplayOp.cancel ∉ ops := fun hmem => hops (List.mem_cons_of_mem _ hmem)
    cases o with
    | pull => exact ih h.pull hrest
    | take => exact ih h.take hrest
    | cancel => exact absurd List.mem_cons_self hops

theorem advance (h : b.Sound all) {chunk : Chunk} {rest : List Chunk}
    (hleft : b.left = chunk :: rest) :
    b.pull.take.given = b.given ++ [chunk] := by
  rcases hqueue : b.queue with _ | ⟨c, queue⟩
  · cases hstate : b.state with
    | readable =>
      have hrest : b.reader.rest = chunk :: rest := by simpa [left, hqueue, hstate] using hleft
      have hpull : b.pull = { b with queue := [chunk], reader := { b.reader with rest } } := by
        unfold Replay.pull
        simp only [hstate, hqueue, Reader.read_value (h.reading hstate) hrest]
      rw [hpull]
      rfl
    | _ => simp [left, hqueue, hstate] at hleft
  · have hpull : b.pull = b := by
      unfold Replay.pull
      simp [hqueue]
    have hc : c = chunk := by
      have := hleft
      simp only [left, hqueue, List.cons_append, List.cons.injEq] at this
      exact this.1
    rw [hpull]
    simp [Replay.take, hqueue, hc]

theorem finish (h : b.Sound all) :
    ∃ more, ReplayOp.cancel ∉ more ∧ (Lib.run Replay.step b more).given = all := by
  induction hn : b.left.length generalizing b with
  | zero =>
    have hnil : b.left = [] := List.eq_nil_of_length_eq_zero hn
    exact ⟨[], List.not_mem_nil, by simpa [hnil] using h.conserved⟩
  | succ n ih =>
    obtain ⟨chunk, rest, hleft⟩ := List.exists_cons_of_length_eq_add_one hn
    have hgiven := h.advance hleft
    have hnext : b.pull.take.Sound all := h.pull.take
    have hlength : b.pull.take.left.length = n := by
      have hall := congrArg List.length (hnext.conserved.trans h.conserved.symm)
      rw [hgiven] at hall
      simp only [List.length_append, List.length_singleton] at hall
      omega
    obtain ⟨more, hmore, hall⟩ := ih hnext hlength
    exact ⟨.pull :: .take :: more, by simpa using hmore, hall⟩

end Replay.Sound

def Replay.Prefixed (all : List Chunk) (b : Replay ε) : Prop :=
  b.given <+: all ∧ (b.state ≠ .cancelled → b.Sound all) ∧ (b.state = .cancelled → b.queue = [])

theorem Replay.Sound.prefixed {all : List Chunk} {b : Replay ε}
    (h : b.Sound all) : b.Prefixed all :=
  ⟨⟨b.left, h.conserved⟩, fun _ => h, fun hc => absurd hc h.current⟩

theorem Replay.Prefixed.step {all : List Chunk} {b : Replay ε} (o : ReplayOp) (h : b.Prefixed all) :
    (b.step o).Prefixed all := by
  by_cases hc : b.state = .cancelled
  · have hqueue := h.2.2 hc
    have hsame : b.step o = b := by
      cases o <;> simp [Replay.step, Replay.pull, Replay.take, Replay.cancel, hc, hqueue]
    rw [hsame]
    exact h
  · have hs := h.2.1 hc
    cases o with
    | pull => exact hs.pull.prefixed
    | take => exact hs.take.prefixed
    | cancel =>
      show Replay.Prefixed all b.cancel
      unfold Replay.cancel
      split
      · exact ⟨h.1, fun hne => absurd rfl hne, fun _ => rfl⟩
      · exact ⟨h.1, fun hne => absurd rfl hne, fun _ => rfl⟩
      · exact h

theorem Replay.Sound.replaysAll {all : List Chunk} {b : Replay ε}
    (h : b.Sound all) : ReplaysAll all b := by
  intro ops
  refine ⟨(run_inv (I := Replay.Prefixed all) (fun b o => Replay.Prefixed.step o) h.prefixed).1, fun hops => ?_⟩
  have hs := h.run hops
  refine ⟨hs.conserved, fun hended => ?_, ?_⟩
  · have hall := hs.conserved
    rw [Replay.left, hs.drained hended] at hall
    cases hstate : (Lib.run Replay.step b ops).state with
    | readable => simp [Replay.ended, hstate] at hended
    | _ => simpa [hstate] using hall
  · obtain ⟨more, hmore, hall⟩ := Replay.Sound.finish hs
    exact ⟨more, hmore, by rw [run_append]; exact hall⟩

end TokenProxy.Streaming
