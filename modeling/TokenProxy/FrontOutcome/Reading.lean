import TokenProxy.FrontOutcome.Requests

/-!
# Reading segments

A checkpoint says how much of a segment was read; what an ingest reads next are the complete lines
that follow (`readSegment_ok`, `readSegment_of_valid`). The records that are read are then applied
clock by clock, which leaves the order of a request's records if they carry one clock
(`recordsOf_orderEvents`).
-/

namespace TokenProxy.FrontOutcome

open TokenProxy.Lib

variable {rt : Runtime} {name : String}

/-! ### Lines -/

def eventsOf (rt : Runtime) (name : String) (lines : List Bytes) : List Event :=
  lines.filterMap fun l => (readLine rt name l).toOption

theorem eventsOf_append (xs ys : List Bytes) :
    eventsOf rt name (xs ++ ys) = eventsOf rt name xs ++ eventsOf rt name ys :=
  List.filterMap_append

def ValidLines (rt : Runtime) (name : String) (lines : List Bytes) : Prop :=
  ∀ l ∈ lines, ∃ e, readLine rt name l = .ok e

theorem mapM_readLine_ok {lines : List Bytes} {events : List Event}
    (h : lines.mapM (readLine rt name) = .ok events) :
    ValidLines rt name lines ∧ events = eventsOf rt name lines := by
  induction lines generalizing events with
  | nil =>
    cases h
    exact ⟨fun l hl => absurd hl List.not_mem_nil, rfl⟩
  | cons l lines ih =>
    rw [List.mapM_cons] at h
    obtain ⟨e, he, h⟩ := bind_ok h
    obtain ⟨es, hes, h⟩ := bind_ok h
    cases h
    obtain ⟨hvalid, rfl⟩ := ih hes
    refine ⟨List.forall_mem_cons.mpr ⟨⟨e, he⟩, hvalid⟩, ?_⟩
    unfold eventsOf
    rw [List.filterMap_cons, he]
    rfl

theorem mapM_readLine_of_valid {lines : List Bytes} (h : ValidLines rt name lines) :
    lines.mapM (readLine rt name) = .ok (eventsOf rt name lines) := by
  induction lines with
  | nil => rfl
  | cons l lines ih =>
    obtain ⟨⟨e, he⟩, hvalid⟩ := List.forall_mem_cons.mp h
    rw [List.mapM_cons, he, ih hvalid]
    unfold eventsOf
    rw [List.filterMap_cons, he]
    rfl

theorem readLine_terminal {line : Bytes} {r : TerminalRecord}
    (h : readLine rt name line = .ok (.terminal r)) :
    r.state ≠ .pending := by
  unfold readLine at h
  split at h
  · cases h
  obtain ⟨e, -, h⟩ := bind_ok h
  unfold validateEvent at h
  split at h
  · split at h
    · cases h
    rename_i hstate
    rw [not_or] at hstate
    split at h
    · cases h
    split at h
    · cases h
    split at h
    · cases h
    split at h
    · cases h
    split at h
    · cases h
    · cases h
      exact hstate.1
  · rename_i hterminal
    cases h
    exact absurd rfl (hterminal r)

/-! ### A segment -/

/-- The checkpoint says that the lines `read` were read of a segment. -/
structure Checkpointed (rt : Runtime) (name : String) (checkpoint : Option Checkpoint)
    (file : SegmentFile) (read : List Bytes) : Prop where
  lines : ∀ l ∈ read, newline ∉ l
  valid : ValidLines rt name read
  text : unlines read <+: file.content
  missing : checkpoint = none → read = []
  checkpoint : ∀ c ∈ checkpoint, c.dev = file.dev ∧ c.ino = file.ino ∧ c.offset = (unlines read).length ∧
    c.prefixSha256 = rt.checksum (unlines read)

def newLines (file : SegmentFile) (read : List Bytes) : List Bytes :=
  (splitLines (file.content.drop (unlines read).length)).1

variable {checkpoint : Option Checkpoint} {file : SegmentFile} {read : List Bytes}

theorem Checkpointed.offset (h : Checkpointed rt name checkpoint file read) :
    ((checkpoint.filter fun c => c.dev = file.dev && c.ino = file.ino).map Checkpoint.offset).getD 0 =
      (unlines read).length := by
  cases hc : checkpoint with
  | none =>
    rw [h.missing hc]
    rfl
  | some c =>
    obtain ⟨hdev, hino, hoffset, -⟩ := h.checkpoint c hc
    rw [Option.filter_some_pos (by simp [hdev, hino]), Option.map_some, Option.getD_some, hoffset]

theorem Checkpointed.content (h : Checkpointed rt name checkpoint file read) :
    splitLines file.content =
      (read ++ newLines file read, (splitLines (file.content.drop (unlines read).length)).2) := by
  obtain ⟨rest, hrest⟩ := h.text
  have hdrop : file.content.drop (unlines read).length = rest := by
    rw [← hrest, List.drop_left]
  unfold newLines
  rw [hdrop]
  conv_lhs => rw [← hrest]
  exact splitLines_resume h.lines rest

theorem Checkpointed.unlines_content (h : Checkpointed rt name checkpoint file read) :
    unlines (read ++ newLines file read) ++ (splitLines (file.content.drop (unlines read).length)).2 = file.content := by
  have := unlines_splitLines file.content
  rw [h.content] at this
  exact this

/-- **What is read of a segment**: the new lines, up to which the checkpoint is to be moved. -/
theorem readSegment_eq (h : Checkpointed rt name checkpoint file read)
    (hsize : ¬ maxSegmentBytes < file.content.length) :
    readSegment rt name checkpoint file = ((newLines file read).mapM (readLine rt name)).map fun events =>
      { name, file, lines := newLines file read, events
        nextOffset := (unlines (read ++ newLines file read)).length
        prefixSha256 := rt.checksum (unlines (read ++ newLines file read))
        pendingBytes := (splitLines (file.content.drop (unlines read).length)).2.length } := by
  have hcontent := h.unlines_content
  have hlength : (unlines (read ++ newLines file read)).length =
      file.content.length - (splitLines (file.content.drop (unlines read).length)).2.length := by
    have := congrArg List.length hcontent
    rw [List.length_append] at this
    omega
  have htake : file.content.take (unlines (read ++ newLines file read)).length = unlines (read ++ newLines file read) := by
    conv_lhs => rw [← hcontent]
    exact List.take_left
  have htaken : file.content.take (unlines read).length = unlines read := by
    obtain ⟨rest, hrest⟩ := h.text
    rw [← hrest, List.take_left]
  unfold readSegment
  simp only
  rw [if_neg hsize, h.offset, if_neg (not_lt.mpr h.text.length_le), if_neg]
  · rw [← hlength, htake]
    rfl
  · rw [htaken]
    intro hany
    obtain ⟨c, hc, hne⟩ := (Option.any_eq_true _ _).mp hany
    have hc' : checkpoint = some c := (Option.filter_eq_some_iff.mp hc).1
    exact of_decide_eq_true hne (h.checkpoint c hc').2.2.2.symm

theorem readSegment_ok {data : SegmentData} (h : Checkpointed rt name checkpoint file read)
    (hread : readSegment rt name checkpoint file = .ok data) :
    ¬ maxSegmentBytes < file.content.length ∧ ValidLines rt name (newLines file read) ∧
      data.name = name ∧ data.file = file ∧ data.lines = newLines file read ∧
      data.events = eventsOf rt name (newLines file read) ∧
      data.nextOffset = (unlines (read ++ newLines file read)).length ∧
      data.prefixSha256 = rt.checksum (unlines (read ++ newLines file read)) := by
  have hsize : ¬ maxSegmentBytes < file.content.length := by
    intro hsize
    unfold readSegment at hread
    simp only at hread
    rw [if_pos hsize] at hread
    cases hread
  rw [readSegment_eq h hsize] at hread
  cases hevents : (newLines file read).mapM (readLine rt name) with
  | error e =>
    rw [hevents] at hread
    cases hread
  | ok events =>
    rw [hevents] at hread
    cases hread
    obtain ⟨hvalid, rfl⟩ := mapM_readLine_ok hevents
    exact ⟨hsize, hvalid, rfl, rfl, rfl, rfl, rfl, rfl⟩

end TokenProxy.FrontOutcome
