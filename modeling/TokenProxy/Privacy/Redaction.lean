import TokenProxy.Lib.Scan
import TokenProxy.Lib.Text
import TokenProxy.Privacy.Filter
import Mathlib.Algebra.Ring.Nat

/-!
# Redacting a text

The terms of the operator give way to aliases first, then the addresses in what is left. What both
passes find is read off the text (`reading`) and numbered (`names`); the redacted text is the
reading with the aliases in place (`redactText_eq`).
-/

namespace TokenProxy.Privacy

open Lib

/-! ### Addresses -/

/-- `[A-Za-z0-9._%+-]` -/
def isLocal (c : Char) : Bool := c.isAlphanum || ['.', '_', '%', '+', '-'].contains c

/-- `[A-Za-z0-9.-]` -/
def isHost (c : Char) : Bool := c.isAlphanum || ['.', '-'].contains c

/-- `\.[A-Za-z]{2,}` -/
def topLevelAt : List Char → ℕ
  | '.' :: rest => if 2 ≤ (rest.takeWhile Char.isAlpha).length then (rest.takeWhile Char.isAlpha).length + 1 else 0
  | _ => 0

/-- `[A-Za-z0-9.-]+\.[A-Za-z]{2,}` in a run of such signs: the first part as long as it can be. -/
def hostAt : List Char → ℕ
  | [] => 0
  | _ :: rest => if 0 < hostAt rest then hostAt rest + 1 else if 0 < topLevelAt rest then topLevelAt rest + 1 else 0

/-- `EMAIL_RE` at the front of a text. -/
def emailAt (text : List Char) : ℕ :=
  let name := text.takeWhile isLocal
  match text.dropWhile isLocal with
  | '@' :: rest => if name ≠ [] ∧ 0 < hostAt (rest.takeWhile isHost) then name.length + 1 + hostAt (rest.takeWhile isHost) else 0
  | _ => 0

/-! ### Terms -/

def unitCount (text : List Char) : ℕ := (text.map fun c => if 0x10000 ≤ c.toNat then 2 else 1).sum

/-- `literalRe`: the first literal that the text begins with. -/
def literalAt (literals : List (List Char)) (text : List Char) : ℕ :=
  ((literals.find? fun literal => literal.isPrefixOf text).map List.length).getD 0

/-- The options of a filter; of the terms, those that are strings. -/
structure Settings where
  emails : Bool := true
  terms : List (List Char) := []

/-- The longest first: a term that contains another is matched before it. -/
def Settings.literals (settings : Settings) : List (List Char) :=
  (settings.terms.filter fun term => trim term ≠ []).eraseDups.insertionSort fun a b => unitCount b ≤ unitCount a

/-! ### The two passes -/

/-- One pass: what is found gives way to its alias, unless it is kept. -/
def putAliases (emailShaped : Bool) (kept : List Char → Bool)
    (filter : PrivacyFilter) : List (Piece Char) → PrivacyFilter × List Char
  | [] => (filter, [])
  | .sign c :: rest =>
    let (last, out) := putAliases emailShaped kept filter rest
    (last, c :: out)
  | .found m :: rest =>
    if kept m then
      let (last, out) := putAliases emailShaped kept filter rest
      (last, m ++ out)
    else
      let (named, a) := filter.aliasFor m emailShaped
      let (last, out) := putAliases emailShaped kept named rest
      (last, a.text ++ out)

def isAliasShaped (m : List Char) : Bool := aliasDomain.isSuffixOf m

def redactText (settings : Settings) (filter : PrivacyFilter)
    (text : List Char) : PrivacyFilter × List Char :=
  if text = [] then (filter, text)
  else
    let (filter, out) :=
      if settings.literals = [] then (filter, text)
      else putAliases false (fun _ => false) filter (scan (literalAt settings.literals) text)
    if settings.emails then putAliases true isAliasShaped filter (scan emailAt out) else (filter, out)

/-! ### What the passes find -/

inductive Mark where
  | kept (c : Char)
  | value (emailShaped : Bool) (original : List Char)
  deriving DecidableEq

namespace Mark

def source : Mark → List Char
  | kept c => [c]
  | value _ original => original

def run : List Mark → List Char
  | kept c :: rest => c :: run rest
  | _ => []

def ofTermPiece : Piece Char → Mark
  | .sign c => kept c
  | .found m => value false m

def ofEmailPiece : Piece Mark → List Mark
  | .sign mark => [mark]
  | .found marks => if isAliasShaped (marks.flatMap source) then marks else [value true (marks.flatMap source)]

def original? (emailShaped : Bool) : Mark → Option (List Char)
  | kept _ => none
  | value shaped original => if shaped = emailShaped then some original else none

def holds (original : List Char) : Mark → Bool
  | kept _ => false
  | value _ original' => original' = original

end Mark

def termReading (settings : Settings) (text : List Char) : List Mark := (scan (literalAt settings.literals) text).map Mark.ofTermPiece

def emailIn (marks : List Mark) : ℕ := emailAt (Mark.run marks)

def emailReading (marks : List Mark) : List Mark := (scan emailIn marks).flatMap Mark.ofEmailPiece

def reading (settings : Settings) (text : List Char) : List Mark :=
  if settings.emails then emailReading (termReading settings text) else termReading settings text

namespace PrivacyFilter

def find (filter : PrivacyFilter) (original : List Char) : Option (Alias × List Char) := filter.toOriginal.find? fun e => e.2 = original

def nameAll (filter : PrivacyFilter) (emailShaped : Bool)
    (originals : List (List Char)) : PrivacyFilter :=
  originals.foldl (fun filter original => (filter.aliasFor original emailShaped).1) filter

end PrivacyFilter

/-- The values of a reading get numbers as they come, the terms before the addresses. -/
def names (marks : List Mark) : PrivacyFilter :=
  (PrivacyFilter.empty.nameAll false (marks.filterMap (Mark.original? false))).nameAll true (marks.filterMap (Mark.original? true))

/-- A mark where the values of a table are replaced by their aliases. -/
def Mark.written (table : List (Alias × List Char)) : Mark → List Char
  | .kept c => [c]
  | .value _ original =>
    match table.find? fun e => e.2 = original with
    | some e => e.1.text
    | none => original

def written (table : List (Alias × List Char))
    (marks : List Mark) : List Char := marks.flatMap (Mark.written table)

/-! ### Numbering -/

namespace PrivacyFilter

section Naming

variable {filter filter' : PrivacyFilter} {original : List Char} {emailShaped : Bool}

/-- A filter that has the aliases of another, and perhaps more. -/
def Extends (filter filter' : PrivacyFilter) : Prop := filter.toOriginal <+: filter'.toOriginal

theorem Extends.find (h : Extends filter filter') {e : Alias × List Char}
    (he : filter.find original = some e) :
    filter'.find original = some e := by
  obtain ⟨more, hmore⟩ := h
  rw [PrivacyFilter.find] at he ⊢
  rw [← hmore, List.find?_append, he, Option.some_or]

theorem Extends.trans {filter'' : PrivacyFilter} (h : Extends filter filter')
    (h' : Extends filter' filter'') : Extends filter filter'' :=
  List.IsPrefix.trans h h'

theorem aliasFor_known {e : Alias × List Char}
    (h : filter.find original = some e) : filter.aliasFor original emailShaped = (filter, e.1) := by
  rw [find] at h
  unfold aliasFor
  rw [h]

theorem aliasFor_new (h : filter.find original = none) :
    (filter.aliasFor original emailShaped).1.toOriginal = filter.toOriginal ++ [((filter.aliasFor original emailShaped).2, original)] ∧
      (filter.aliasFor original emailShaped).2 = if emailShaped then .email (filter.size + 1) else .literal (filter.size + 1) := by
  rw [find] at h
  unfold aliasFor
  rw [h]
  exact ⟨rfl, rfl⟩

theorem aliasFor_extends : Extends filter (filter.aliasFor original emailShaped).1 := by
  cases h : filter.find original with
  | some e => rw [aliasFor_known h, Extends]
  | none => rw [Extends, (aliasFor_new h).1]; exact List.prefix_append _ _

theorem find_aliasFor : (filter.aliasFor original emailShaped).1.find original = some ((filter.aliasFor original emailShaped).2, original) := by
  cases h : filter.find original with
  | some e =>
    have hvalue : e.2 = original := by
      rw [find] at h
      simpa using List.find?_some h
    rw [aliasFor_known h, h, ← hvalue]
  | none =>
    rw [find, (aliasFor_new h).1, List.find?_append]
    rw [find] at h
    rw [h, Option.none_or, List.find?_cons_of_pos (by simp)]

theorem nameAll_cons (original : List Char) (originals : List (List Char)) :
    filter.nameAll emailShaped (original :: originals) = (filter.aliasFor original emailShaped).1.nameAll emailShaped originals := rfl

theorem nameAll_extends (originals : List (List Char)) :
    Extends filter (filter.nameAll emailShaped originals) := by
  induction originals generalizing filter with
  | nil => exact List.prefix_refl _
  | cons original originals ih => exact aliasFor_extends.trans ih

theorem find_nameAll {originals : List (List Char)} (h : original ∈ originals) :
    ((filter.nameAll emailShaped originals).find original).isSome := by
  induction originals generalizing filter with
  | nil => exact absurd h List.not_mem_nil
  | cons first originals ih =>
    rw [nameAll_cons]
    rcases List.mem_cons.mp h with rfl | h
    · rw [(nameAll_extends originals).find find_aliasFor]
      rfl
    · exact ih h

theorem nameAll_induction {P : PrivacyFilter → Prop}
    (hstep : ∀ filter original, P filter → P (filter.aliasFor original emailShaped).1)
    (h : P filter) (originals : List (List Char)) : P (filter.nameAll emailShaped originals) := by
  induction originals generalizing filter with
  | nil => exact h
  | cons original originals ih => exact ih (hstep filter original h)

def Distinct (filter : PrivacyFilter) : Prop := (filter.toOriginal.map fun e => e.2).Nodup

theorem Distinct.aliasFor (h : filter.Distinct) :
    (filter.aliasFor original emailShaped).1.Distinct := by
  cases hfind : filter.find original with
  | some e => rwa [aliasFor_known hfind]
  | none =>
    rw [Distinct, (aliasFor_new hfind).1, List.map_append, List.map_singleton, List.nodup_append]
    refine ⟨h, List.nodup_singleton _, ?_⟩
    rintro value hvalue _ hlast rfl
    obtain ⟨e, he, rfl⟩ := List.mem_map.mp hvalue
    rw [find, List.find?_eq_none] at hfind
    exact hfind e he (by simpa using hlast)

def Literal (filter : PrivacyFilter) : Prop := ∀ e ∈ filter.toOriginal, ∃ seq, e.1 = .literal seq

theorem Literal.aliasFor (h : filter.Literal) : (filter.aliasFor original false).1.Literal := by
  cases hfind : filter.find original with
  | some e => rwa [aliasFor_known hfind]
  | none =>
    obtain ⟨happend, hname⟩ := @aliasFor_new _ _ false hfind
    rw [Literal, happend]
    intro e he
    rcases List.mem_append.mp he with he | he
    · exact h e he
    · rw [List.mem_singleton.mp he]
      exact ⟨_, hname⟩

end Naming

end PrivacyFilter

theorem names_distinct (marks : List Mark) : (names marks).Distinct := by
  apply PrivacyFilter.nameAll_induction fun filter original h => h.aliasFor
  apply PrivacyFilter.nameAll_induction fun filter original h => h.aliasFor
  exact List.nodup_nil

/-! ### One pass -/

def valueOf (kept : List Char → Bool) : Piece Char → Option (List Char)
  | .sign _ => none
  | .found m => if kept m then none else some m

def pieceWritten (kept : List Char → Bool) (table : List (Alias × List Char)) : Piece Char → List Char
  | .sign c => [c]
  | .found m => if kept m then m else (Mark.value false m).written table

theorem putAliases_eq (emailShaped : Bool) (kept : List Char → Bool) (filter : PrivacyFilter)
    (pieces : List (Piece Char)) :
    putAliases emailShaped kept filter pieces = (filter.nameAll emailShaped (pieces.filterMap (valueOf kept)),
      pieces.flatMap (pieceWritten kept (filter.nameAll emailShaped (pieces.filterMap (valueOf kept))).toOriginal)) := by
  induction pieces generalizing filter with
  | nil => rfl
  | cons piece pieces ih =>
    cases piece with
    | sign c =>
      rw [putAliases, ih, List.flatMap_cons, List.filterMap_cons_none rfl]
      rfl
    | found m =>
      by_cases hkept : kept m
      · have hnone : valueOf kept (.found m) = none := if_pos hkept
        rw [putAliases, if_pos hkept, ih, List.flatMap_cons, List.filterMap_cons_none hnone]
        simp only [pieceWritten, if_pos hkept]
      · have hsome : valueOf kept (.found m) = some m := if_neg hkept
        have hfind := (@PrivacyFilter.nameAll_extends _ emailShaped (pieces.filterMap (valueOf kept))).find
          (@PrivacyFilter.find_aliasFor filter m emailShaped)
        rw [PrivacyFilter.find] at hfind
        rw [putAliases, if_neg hkept, List.flatMap_cons, List.filterMap_cons_some hsome, PrivacyFilter.nameAll_cons]
        simp only [ih, pieceWritten, if_neg hkept, Mark.written, hfind]

/-! ### Where an address may stand -/

theorem takeWhile_append_stop {p : Char → Bool} {c : Char} (hc : p c = false)
    (text rest : List Char) :
    (text ++ c :: rest).takeWhile p = text.takeWhile p := by
  induction text with
  | nil => simp [hc]
  | cons d text ih =>
    rw [List.cons_append, List.takeWhile_cons, List.takeWhile_cons, ih]

theorem dropWhile_append_stop {p : Char → Bool} {c : Char} (hc : p c = false)
    (text rest : List Char) :
    (text ++ c :: rest).dropWhile p = text.dropWhile p ++ c :: rest := by
  induction text with
  | nil => simp [hc]
  | cons d text ih =>
    rw [List.cons_append, List.dropWhile_cons, List.dropWhile_cons, ih]
    split <;> rfl

theorem emailAt_append_stop {c : Char} (hlocal : isLocal c = false) (hhost : isHost c = false)
    (hat : c ≠ '@') (text rest : List Char) :
    emailAt (text ++ c :: rest) = emailAt text := by
  unfold emailAt
  rw [takeWhile_append_stop hlocal, dropWhile_append_stop hlocal]
  cases hbehind : text.dropWhile isLocal with
  | nil => simp [hat]
  | cons d behind =>
    by_cases hd : d = '@'
    · simp only [hd, List.cons_append, takeWhile_append_stop hhost]
    · simp [hd]

theorem emailAt_eq_zero {c : Char} (hlocal : isLocal c = false) (hat : c ≠ '@') {text : List Char}
    (htext : '@' ∉ text) (rest : List Char) :
    emailAt (text ++ c :: rest) = 0 := by
  unfold emailAt
  rw [dropWhile_append_stop hlocal]
  cases hbehind : text.dropWhile isLocal with
  | nil => simp [hat]
  | cons d behind =>
    have hd : d ≠ '@' := by
      rintro rfl
      exact htext ((List.dropWhile_suffix isLocal).subset (by rw [hbehind]; exact List.mem_cons_self))
    simp [hd]

theorem topLevelAt_le (text : List Char) : topLevelAt text ≤ text.length := by
  unfold topLevelAt
  split
  · rename_i rest
    have hle := (List.takeWhile_prefix (p := Char.isAlpha) (l := rest)).length_le
    rw [List.length_cons]
    split <;> omega
  · omega

theorem hostAt_le (text : List Char) : hostAt text ≤ text.length := by
  induction text with
  | nil => rfl
  | cons c text ih =>
    have htop := topLevelAt_le text
    rw [hostAt, List.length_cons]
    split
    · omega
    · split <;> omega

theorem emailAt_le (text : List Char) : emailAt text ≤ text.length := by
  unfold emailAt
  simp only
  split
  · rename_i rest hrest
    have hsplit := congrArg List.length (List.takeWhile_append_dropWhile (p := isLocal) (l := text))
    rw [hrest, List.length_append, List.length_cons] at hsplit
    have hhost := hostAt_le (rest.takeWhile isHost)
    have hle := (List.takeWhile_prefix (p := isHost) (l := rest)).length_le
    split <;> omega
  · omega

theorem scan_alias_append {a : Alias} {seq : ℕ} (ha : a = .literal seq) (text : List Char) :
    scan emailAt (a.text ++ text) = a.text.map .sign ++ scan emailAt text := by
  obtain ⟨front, hfront, hat⟩ : ∃ front, a.text = front ++ [']'] ∧ '@' ∉ front := by
    refine ⟨'[' :: ("redacted-".toList ++ Nat.toDigits 10 seq), by rw [ha, Alias.text]; simp, ?_⟩
    have hword : '@' ∉ "redacted-".toList := by decide
    simp only [List.mem_cons, List.mem_append, not_or]
    exact ⟨by decide, hword, notMem_digits (by decide)⟩
  apply scan_signs_append
  intro s t hst ht
  obtain ⟨t', d, rfl⟩ := (List.eq_nil_or_concat' t).resolve_left ht
  rw [hfront, ← List.append_assoc] at hst
  obtain ⟨rfl, hd⟩ := List.append_inj' hst rfl
  obtain rfl := List.singleton_inj.mp hd
  rw [List.append_assoc, List.singleton_append]
  exact emailAt_eq_zero (by decide) (by decide) (fun h => hat (List.mem_append_right s h)) text

/-! ### The two readings are what the passes find -/

section Readings

variable {table : List (Alias × List Char)}

def Mark.IsTerm (table : List (Alias × List Char)) : Mark → Prop
  | .kept _ => True
  | .value shaped original => shaped = false ∧ ∃ e seq, table.find? (fun e => e.2 = original) = some e ∧ e.1 = .literal seq

@[simp] theorem written_nil : written table [] = [] := rfl

theorem written_cons (mark : Mark) (marks : List Mark) : written table (mark :: marks) = mark.written table ++ written table marks := rfl

theorem written_append (marks marks' : List Mark) :
    written table (marks ++ marks') = written table marks ++ written table marks' :=
  List.flatMap_append

theorem written_kept (text : List Char) : written table (text.map .kept) = text := by
  induction text with
  | nil => rfl
  | cons c text ih => rw [List.map_cons, written_cons, ih]; rfl

theorem written_eq_run_append {marks : List Mark} (hterms : ∀ mark ∈ marks, mark.IsTerm table) :
    ∃ behind, written table marks = Mark.run marks ++ behind ∧ (behind = [] ∨ ∃ rest, behind = '[' :: rest) := by
  induction marks with
  | nil => exact ⟨[], rfl, .inl rfl⟩
  | cons mark marks ih =>
    rw [List.forall_mem_cons] at hterms
    cases mark with
    | kept c =>
      obtain ⟨behind, hwritten, hbehind⟩ := ih hterms.2
      exact ⟨behind, by rw [written_cons, hwritten]; rfl, hbehind⟩
    | value shaped original =>
      obtain ⟨-, e, seq, hfind, hseq⟩ := hterms.1
      refine ⟨written table (.value shaped original :: marks), rfl, .inr ?_⟩
      rw [written_cons, Mark.written, hfind]
      simp only [hseq, Alias.text, List.cons_append]
      exact ⟨_, rfl⟩

theorem emailAt_written {marks : List Mark} (hterms : ∀ mark ∈ marks, mark.IsTerm table) :
    emailAt (written table marks) = emailIn marks := by
  obtain ⟨behind, hwritten, rfl | ⟨rest, rfl⟩⟩ := written_eq_run_append hterms
  · rw [hwritten, List.append_nil]
    rfl
  · rw [hwritten]
    exact emailAt_append_stop (by decide) (by decide) (by decide) _ rest

theorem run_length_le (marks : List Mark) : (Mark.run marks).length ≤ marks.length := by
  induction marks with
  | nil => exact Nat.le_refl _
  | cons mark marks ih =>
    cases mark with
    | kept c => simpa [Mark.run] using ih
    | value shaped original => exact Nat.zero_le _

theorem emailIn_le (marks : List Mark) : emailIn marks ≤ marks.length := (emailAt_le _).trans (run_length_le marks)

theorem eq_map_kept {marks rest : List Mark} (h : marks.length ≤ (Mark.run (marks ++ rest)).length) :
    ∃ text, marks = text.map .kept ∧ Mark.run (marks ++ rest) = text ++ Mark.run rest := by
  induction marks with
  | nil => exact ⟨[], rfl, rfl⟩
  | cons mark marks ih =>
    cases mark with
    | value shaped original => simp [Mark.run] at h
    | kept c =>
      simp only [List.cons_append, Mark.run, List.length_cons, Nat.add_le_add_iff_right] at h
      obtain ⟨text, rfl, hrun⟩ := ih h
      exact ⟨c :: text, rfl, by rw [List.cons_append, Mark.run, hrun, List.cons_append]⟩

theorem emailReading_induction {P : List Mark → Prop} (nil : P [])
    (sign : ∀ mark marks, emailIn (mark :: marks) = 0 → P marks → P (mark :: marks))
    (address : ∀ text marks, text ≠ [] → emailAt (text ++ Mark.run marks) = text.length → P marks → P (text.map .kept ++ marks))
    (marks : List Mark) : P marks := by
  induction marks using scan_induction emailIn_le with
  | nil => exact nil
  | sign mark marks h ih => exact sign mark marks h ih
  | found matched marks hne h ih =>
    obtain ⟨text, rfl, hrun⟩ := @eq_map_kept matched marks (by rw [← h]; exact emailAt_le _)
    rw [emailIn, hrun, List.length_map] at h
    exact address text marks (by simpa using hne) h ih

theorem source_map_kept (text : List Char) : (text.map Mark.kept).flatMap Mark.source = text := by
  induction text with
  | nil => rfl
  | cons c text ih => rw [List.map_cons, List.flatMap_cons, ih]; rfl

theorem run_map_kept_append (text : List Char)
    (marks : List Mark) : Mark.run (text.map .kept ++ marks) = text ++ Mark.run marks := by
  induction text with
  | nil => rfl
  | cons c text ih => rw [List.map_cons, List.cons_append, Mark.run, ih, List.cons_append]

theorem emailReading_sign {mark : Mark} {marks : List Mark} (h : emailIn (mark :: marks) = 0) :
    emailReading (mark :: marks) = mark :: emailReading marks := by
  unfold emailReading
  rw [scan_sign h]
  rfl

theorem emailReading_address {text : List Char} {marks : List Mark} (hne : text ≠ [])
    (h : emailAt (text ++ Mark.run marks) = text.length) :
    emailReading (text.map Mark.kept ++ marks) = (if isAliasShaped text then text.map Mark.kept else [Mark.value true text]) ++ emailReading marks := by
  have hmatch : emailIn (text.map Mark.kept ++ marks) = (text.map Mark.kept).length := by
    rw [emailIn, run_map_kept_append, h, List.length_map]
  unfold emailReading
  rw [scan_found (by simpa using hne) hmatch, List.flatMap_cons, Mark.ofEmailPiece, source_map_kept]

theorem Mark.IsTerm.written_eq {mark : Mark} (h : mark.IsTerm table)
    {table' : List (Alias × List Char)} (hmore : table <+: table') :
    mark.written table' = mark.written table := by
  cases mark with
  | kept c => rfl
  | value shaped original =>
    obtain ⟨-, e, seq, hfind, -⟩ := h
    obtain ⟨more, rfl⟩ := hmore
    rw [Mark.written, Mark.written, List.find?_append, hfind, Option.some_or]

theorem Mark.IsTerm.original?_eq {mark : Mark}
    (h : mark.IsTerm table) : mark.original? true = none := by
  cases mark with
  | kept c => rfl
  | value shaped original => rw [Mark.original?, h.1, if_neg Bool.false_ne_true]

theorem scan_mark_append {mark : Mark} (h : mark.IsTerm table) {marks : List Mark}
    (hterms : ∀ mark ∈ marks, mark.IsTerm table) (hnone : emailIn (mark :: marks) = 0) :
    scan emailAt (mark.written table ++ written table marks) = (mark.written table).map .sign ++ scan emailAt (written table marks) := by
  cases mark with
  | kept c =>
    have hall : ∀ mark' ∈ Mark.kept c :: marks, mark'.IsTerm table := List.forall_mem_cons.mpr ⟨h, hterms⟩
    rw [← emailAt_written hall] at hnone
    exact scan_sign hnone
  | value shaped original =>
    obtain ⟨-, e, seq, hfind, hseq⟩ := h
    rw [Mark.written, hfind]
    exact scan_alias_append hseq _

theorem filterMap_signs (kept : List Char → Bool)
    (text : List Char) : (text.map Piece.sign).filterMap (valueOf kept) = [] := by
  rw [List.filterMap_map, List.filterMap_eq_nil_iff]
  exact fun _ _ => rfl

theorem flatMap_signs (kept : List Char → Bool) (table : List (Alias × List Char))
    (text : List Char) :
    (text.map Piece.sign).flatMap (pieceWritten kept table) = text := by
  induction text with
  | nil => rfl
  | cons c text ih => rw [List.map_cons, List.flatMap_cons, ih]; rfl

/-- **The second pass finds what the second reading marks**. -/
theorem scan_written {marks : List Mark} (hterms : ∀ mark ∈ marks, mark.IsTerm table)
    {table' : List (Alias × List Char)} (hmore : table <+: table') :
    (scan emailAt (written table marks)).filterMap (valueOf isAliasShaped) = (emailReading marks).filterMap (Mark.original? true) ∧
      (scan emailAt (written table marks)).flatMap (pieceWritten isAliasShaped table') = written table' (emailReading marks) := by
  induction marks using emailReading_induction with
  | nil => exact ⟨rfl, rfl⟩
  | sign mark marks h ih =>
    obtain ⟨hmark, hmarks⟩ := List.forall_mem_cons.mp hterms
    obtain ⟨hfound, hwritten⟩ := ih hmarks
    rw [written_cons, scan_mark_append hmark hmarks h, emailReading_sign h, List.filterMap_append, List.flatMap_append, filterMap_signs,
      flatMap_signs, hfound, hwritten, written_cons, hmark.written_eq hmore, List.filterMap_cons_none hmark.original?_eq]
    exact ⟨rfl, rfl⟩
  | address text marks hne h ih =>
    have hmarks : ∀ mark ∈ marks, mark.IsTerm table := fun mark hmark => hterms mark (List.mem_append_right _ hmark)
    obtain ⟨hfound, hwritten⟩ := ih hmarks
    have hmatch : emailAt (text ++ written table marks) = text.length := by
      have hall := emailAt_written hterms
      rw [written_append, written_kept, emailIn, run_map_kept_append, h] at hall
      exact hall
    rw [written_append, written_kept, scan_found hne hmatch, emailReading_address hne h, List.flatMap_cons, written_append,
      List.filterMap_append, hwritten]
    by_cases hkept : isAliasShaped text
    · have hnone : valueOf isAliasShaped (.found text) = none := if_pos hkept
      have hsigns : (text.map Mark.kept).filterMap (Mark.original? true) = [] := by
        rw [List.filterMap_map, List.filterMap_eq_nil_iff]
        exact fun _ _ => rfl
      rw [List.filterMap_cons_none hnone, hfound, if_pos hkept, hsigns, written_kept, pieceWritten, if_pos hkept]
      exact ⟨rfl, rfl⟩
    · have hsome : valueOf isAliasShaped (.found text) = some text := if_neg hkept
      rw [List.filterMap_cons_some hsome, hfound, if_neg hkept, pieceWritten, if_neg hkept, written_cons, written_nil, List.append_nil]
      exact ⟨rfl, rfl⟩

end Readings

/-! ### What a call does -/

def termNames (marks : List Mark) : PrivacyFilter := PrivacyFilter.empty.nameAll false (marks.filterMap (Mark.original? false))

theorem termNames_literal (marks : List Mark) : (termNames marks).Literal := by
  apply PrivacyFilter.nameAll_induction fun filter original h => h.aliasFor
  exact fun e he => absurd he List.not_mem_nil

theorem original?_ofTermPiece (piece : Piece Char) :
    (Mark.ofTermPiece piece).original? false = valueOf (fun _ => false) piece := by
  cases piece <;> rfl

theorem written_ofTermPiece (table : List (Alias × List Char)) (piece : Piece Char) :
    (Mark.ofTermPiece piece).written table = pieceWritten (fun _ => false) table piece := by
  cases piece <;> rfl

theorem scan_no_literals (text : List Char) : scan (literalAt []) text = text.map .sign := by
  have happend := @scan_signs_append _ (literalAt []) text [] fun _ _ _ _ => rfl
  rwa [List.append_nil, scan_nil, List.append_nil] at happend

theorem termPass (settings : Settings) (text : List Char) :
    (if settings.literals = [] then (PrivacyFilter.empty, text)
      else putAliases false (fun _ => false) .empty (scan (literalAt settings.literals) text)) =
      (termNames (termReading settings text), written (termNames (termReading settings text)).toOriginal (termReading settings text)) := by
  split
  · rename_i hnil
    have hreading : termReading settings text = text.map .kept := by
      rw [termReading, hnil, scan_no_literals, List.map_map]
      rfl
    have hnone : (text.map Mark.kept).filterMap (Mark.original? false) = [] := by
      rw [List.filterMap_map, List.filterMap_eq_nil_iff]
      exact fun _ _ => rfl
    rw [hreading, written_kept, termNames, hnone]
    rfl
  · have hvalues : (termReading settings text).filterMap (Mark.original? false) =
        (scan (literalAt settings.literals) text).filterMap (valueOf fun _ => false) := by
      rw [termReading, List.filterMap_map]
      exact List.filterMap_congr fun piece _ => original?_ofTermPiece piece
    have hwritten (table : List (Alias × List Char)) : written table (termReading settings text) =
        (scan (literalAt settings.literals) text).flatMap (pieceWritten (fun _ => false) table) := by
      rw [written, termReading, List.flatMap_map]
      exact congrArg (fun f => List.flatMap f _) (funext (written_ofTermPiece table))
    rw [putAliases_eq, termNames, hvalues, hwritten]

theorem termReading_isTerm (settings : Settings) (text : List Char) :
    ∀ mark ∈ termReading settings text, mark.IsTerm (termNames (termReading settings text)).toOriginal := by
  intro mark hmark
  have hpiece := hmark
  rw [termReading] at hpiece
  obtain ⟨piece, -, rfl⟩ := List.mem_map.mp hpiece
  cases piece with
  | sign c => exact trivial
  | found m =>
    have hvalue : m ∈ (termReading settings text).filterMap (Mark.original? false) := List.mem_filterMap.mpr ⟨_, hmark, rfl⟩
    obtain ⟨e, hfind⟩ := Option.isSome_iff_exists.mp (@PrivacyFilter.find_nameAll .empty m false _ hvalue)
    obtain ⟨seq, hseq⟩ := termNames_literal (termReading settings text) e (List.mem_of_find?_eq_some hfind)
    exact ⟨rfl, e, seq, hfind, hseq⟩

theorem terms_of_emailReading (marks : List Mark) :
    (emailReading marks).filterMap (Mark.original? false) = marks.filterMap (Mark.original? false) := by
  induction marks using emailReading_induction with
  | nil => rfl
  | sign mark marks h ih => rw [emailReading_sign h, List.filterMap_cons, ih, List.filterMap_cons]
  | address text marks hne h ih =>
    have hsigns : (text.map Mark.kept).filterMap (Mark.original? false) = [] := by
      rw [List.filterMap_map, List.filterMap_eq_nil_iff]
      exact fun _ _ => rfl
    rw [emailReading_address hne h, List.filterMap_append, List.filterMap_append, ih, hsigns]
    split
    · rw [hsigns]
    · rfl

/-- **What a call returns**: the names of the reading, and the reading with its aliases. -/
theorem redactText_eq (settings : Settings) (text : List Char) :
    redactText settings .empty text = (names (reading settings text), written (names (reading settings text)).toOriginal (reading settings text)) := by
  unfold redactText
  split
  · rename_i hnil
    have hreading : reading settings [] = [] := by
      unfold reading
      split <;> rfl
    rw [hnil, hreading]
    rfl
  · have hterms := termReading_isTerm settings text
    rw [termPass]
    simp only
    unfold reading
    split
    · have hmore : (termNames (termReading settings text)).toOriginal <+: (names (emailReading (termReading settings text))).toOriginal := by
        rw [names, terms_of_emailReading]
        exact PrivacyFilter.nameAll_extends _
      obtain ⟨hfound, hwritten⟩ := scan_written hterms hmore
      have hnames : names (emailReading (termReading settings text)) = (termNames (termReading settings text)).nameAll true
          ((emailReading (termReading settings text)).filterMap (Mark.original? true)) := by
        rw [names, terms_of_emailReading]
        rfl
      rw [putAliases_eq, hfound, ← hnames, hwritten]
    · have hnone : (termReading settings text).filterMap (Mark.original? true) = [] := by
        rw [List.filterMap_eq_nil_iff]
        exact fun mark hmark => (hterms mark hmark).original?_eq
      rw [names, hnone]
      rfl

/-! ### Nothing is lost -/

theorem source_emailReading (marks : List Mark) :
    (emailReading marks).flatMap Mark.source = marks.flatMap Mark.source := by
  induction marks using emailReading_induction with
  | nil => rfl
  | sign mark marks h ih => rw [emailReading_sign h, List.flatMap_cons, ih, List.flatMap_cons]
  | address text marks hne h ih =>
    rw [emailReading_address hne h, List.flatMap_append, List.flatMap_append, ih]
    split
    · rfl
    · rw [source_map_kept]
      simp [Mark.source]

theorem literalAt_spec (literals : List (List Char)) (text : List Char) :
    (∃ literal ∈ literals, literal <+: text ∧ literalAt literals text = literal.length) ∨
      ((∀ literal ∈ literals, ¬ literal <+: text) ∧ literalAt literals text = 0) := by
  unfold literalAt
  cases h : literals.find? fun literal => literal.isPrefixOf text with
  | some literal =>
    have hbegin := List.find?_some h
    exact .inl ⟨literal, List.mem_of_find?_eq_some h, List.isPrefixOf_iff_prefix.mp hbegin, rfl⟩
  | none =>
    rw [List.find?_eq_none] at h
    exact .inr ⟨fun literal hliteral hbegin => h literal hliteral (List.isPrefixOf_iff_prefix.mpr hbegin), rfl⟩

theorem literalAt_le (literals : List (List Char))
    (text : List Char) : literalAt literals text ≤ text.length := by
  rcases literalAt_spec literals text with ⟨literal, -, hbegin, heq⟩ | ⟨-, heq⟩
  · rw [heq]
    exact hbegin.length_le
  · rw [heq]
    exact Nat.zero_le _

theorem source_termReading (settings : Settings)
    (text : List Char) : (termReading settings text).flatMap Mark.source = text := by
  have hsource (piece : Piece Char) : (Mark.ofTermPiece piece).source = piece.source := by cases piece <;> rfl
  rw [termReading, List.flatMap_map]
  simp only [hsource]
  exact flatMap_source_scan (literalAt_le settings.literals) text

theorem source_reading (settings : Settings) (text : List Char) :
    (reading settings text).flatMap Mark.source = text := by
  unfold reading
  split
  · rw [source_emailReading, source_termReading]
  · exact source_termReading settings text

/-! ### Putting the values back -/

def stands (word text : List Char) : Bool := text.tails.any fun rest => word.isPrefixOf rest

theorem stands_iff {word text : List Char} : stands word text = true ↔ word <:+: text := by
  rw [stands, List.any_eq_true, List.infix_iff_prefix_suffix]
  constructor
  · rintro ⟨rest, hrest, hbegin⟩
    exact ⟨rest, List.isPrefixOf_iff_prefix.mp hbegin, (List.mem_tails rest text).mp hrest⟩
  · rintro ⟨rest, hbegin, hrest⟩
    exact ⟨rest, (List.mem_tails rest text).mpr hrest, List.isPrefixOf_iff_prefix.mpr hbegin⟩

/-- When the turn of a value comes, its alias stands nowhere between its places: the values of later
turns still have their aliases there, all others are written out. -/
def apart (marks : List Mark) : List (Alias × List Char) → Bool
  | [] => true
  | e :: later => ((marks.splitOnP (Mark.holds e.2)).all fun stretch => !stands e.1.text (written later stretch)) && apart marks later

theorem written_other {e : Alias × List Char} {later : List (Alias × List Char)} {marks : List Mark}
    (h : ∀ mark ∈ marks, mark.holds e.2 = false) :
    written (e :: later) marks = written later marks := by
  induction marks with
  | nil => rfl
  | cons mark marks ih =>
    rw [List.forall_mem_cons] at h
    rw [written_cons, written_cons, ih h.2]
    cases mark with
    | kept c => rfl
    | value shaped original =>
      have hne : e.2 ≠ original := by
        intro heq
        simp [Mark.holds, heq] at h
      rw [Mark.written, Mark.written, List.find?_cons_of_neg (by simpa using hne)]

/-- **One turn**. -/
theorem replaceAll_written {e : Alias × List Char} {later : List (Alias × List Char)}
    (hother : later.find? (fun e' => e'.2 = e.2) = none)
    {marks : List Mark} (h : ∀ stretch ∈ marks.splitOnP (Mark.holds e.2), ¬ e.1.text <:+: written later stretch) :
    replaceAll e.1.text e.2 (written (e :: later) marks) = written later marks := by
  induction hn : marks.length using Nat.strong_induction_on generalizing marks with
  | h n ih =>
    have hclean {text : List Char} (hnot : ¬ e.1.text <:+: text) : replaceAll e.1.text e.2 text = text := by
      apply substitute_eq_self
      intro e' he'
      rwa [List.mem_singleton.mp he']
    cases hfind : marks.find? (Mark.holds e.2) with
    | none =>
      have hnone : ∀ mark ∈ marks, mark.holds e.2 = false := by simpa using hfind
      rw [List.splitOnP_eq_singleton hnone] at h
      rw [written_other hnone]
      exact hclean (h marks List.mem_cons_self)
    | some mark =>
      obtain ⟨hholds, front, rest, rfl, hfront⟩ := List.find?_eq_some_iff_append.mp hfind
      have hnone : ∀ mark ∈ front, mark.holds e.2 = false := by simpa using hfront
      rw [List.splitOnP_append_cons front rest hholds, List.splitOnP_eq_singleton hnone] at h
      have hrest := ih rest.length (by rw [← hn]; simp; omega) (fun stretch hstretch => h stretch (List.mem_append_right _ hstretch)) rfl
      cases mark with
      | kept c => exact absurd hholds Bool.false_ne_true
      | value shaped original =>
        obtain rfl : original = e.2 := by simpa [Mark.holds] using hholds
        have hplace : (Mark.value shaped e.2).written (e :: later) = e.1.text := by
          rw [Mark.written, List.find?_cons_of_pos (by simp)]
        have hafter : (Mark.value shaped e.2).written later = e.2 := by rw [Mark.written, hother]
        have hne : e.1.text ≠ [] := marked_aliases.ne_nil _ ⟨e.1, rfl⟩
        have hcut := marked_aliases.not_crosses_word ⟨e.1, rfl⟩ (written later front) (written (e :: later) rest)
        have hfirst : lookupWord [(e.1.text, e.2)] (e.1.text ++ written (e :: later) rest) = some (e.1.text, e.2) := by
          unfold lookupWord
          rw [List.find?_cons_of_pos]
          simp
        have htable : ∀ e' ∈ [(e.1.text, e.2)], e'.1 ∈ aliasWords := fun e' he' => by
          rw [List.mem_singleton.mp he']
          exact ⟨e.1, rfl⟩
        have htableNe : ∀ e' ∈ [(e.1.text, e.2)], e'.1 ≠ [] := fun e' he' => marked_aliases.ne_nil _ (htable e' he')
        have hfrontClean := hclean (h front (List.mem_append_left _ List.mem_cons_self))
        rw [replaceAll] at hrest hfrontClean ⊢
        rw [written_append, written_cons, hplace, written_other hnone, substitute_append htableNe htable hcut, substitute_word hne hfirst,
          hrest, hfrontClean, written_append, written_cons, hafter]

/-- **Turn after turn**. -/
theorem replaceInTurn_written {table : List (Alias × List Char)}
    (hdistinct : (table.map fun e => e.2).Nodup) {marks : List Mark}
    (h : apart marks table = true) :
    replaceInTurn (table.map fun e => (e.1.text, e.2)) (written table marks) = marks.flatMap Mark.source := by
  induction table with
  | nil =>
    have hsource (mark : Mark) : mark.written [] = mark.source := by cases mark <;> rfl
    rw [written]
    exact congrArg (fun f => List.flatMap f marks) (funext hsource)
  | cons e later ih =>
    rw [List.map_cons, List.nodup_cons] at hdistinct
    rw [apart, Bool.and_eq_true, List.all_eq_true] at h
    have hother : later.find? (fun e' => e'.2 = e.2) = none := by
      rw [List.find?_eq_none]
      intro e' he' heq
      exact hdistinct.1 (List.mem_map.mpr ⟨e', he', of_decide_eq_true heq⟩)
    have hstretches : ∀ stretch ∈ marks.splitOnP (Mark.holds e.2), ¬ e.1.text <:+: written later stretch := by
      intro stretch hstretch hstands
      have hnot := h.1 stretch hstretch
      rw [stands_iff.mpr hstands] at hnot
      exact Bool.false_ne_true hnot
    rw [List.map_cons, replaceInTurn_cons, replaceAll_written hother hstretches]
    exact ih hdistinct.2 h.2

theorem find?_iff_of_nodup {table : List (Alias × List Char)}
    (hdistinct : (table.map fun e => e.2).Nodup) {original : List Char}
    {e : Alias × List Char} : table.find? (fun e => e.2 = original) = some e ↔ e ∈ table ∧ e.2 = original := by
  constructor
  · intro h
    exact ⟨List.mem_of_find?_eq_some h, by simpa using List.find?_some h⟩
  · rintro ⟨he, rfl⟩
    have hsome : (table.find? fun e' => e'.2 = e.2).isSome := by
      rw [List.find?_isSome]
      exact ⟨e, he, by simp⟩
    obtain ⟨e', hfind⟩ := Option.isSome_iff_exists.mp hsome
    have heq : e'.2 = e.2 := by simpa using List.find?_some hfind
    rw [hfind, List.inj_on_of_nodup_map hdistinct (List.mem_of_find?_eq_some hfind) he heq]

theorem written_perm {table table' : List (Alias × List Char)}
    (hdistinct : (table.map fun e => e.2).Nodup) (hperm : table.Perm table')
    (marks : List Mark) : written table marks = written table' marks := by
  have hdistinct' : (table'.map fun e => e.2).Nodup := (hperm.map _).nodup_iff.mp hdistinct
  have hmark (mark : Mark) : mark.written table = mark.written table' := by
    cases mark with
    | kept c => rfl
    | value shaped original =>
      have hfind : table.find? (fun e => e.2 = original) = table'.find? fun e => e.2 = original := by
        ext e
        rw [find?_iff_of_nodup hdistinct, find?_iff_of_nodup hdistinct', hperm.mem_iff]
      rw [Mark.written, Mark.written, hfind]
  exact congrArg (fun f => List.flatMap f marks) (funext hmark)

theorem sorted_perm (filter : PrivacyFilter) : filter.sorted.Perm filter.toOriginal := List.perm_insertionSort _ _

theorem restore_names {marks : List Mark} (h : apart marks (names marks).sorted = true) :
    (names marks).restore (written (names marks).toOriginal marks) = marks.flatMap Mark.source := by
  have hdistinct := names_distinct marks
  have hperm := sorted_perm (names marks)
  have hsorted : ((names marks).sorted.map fun e => e.2).Nodup := (hperm.map _).nodup_iff.mpr hdistinct
  have hturns := replaceInTurn_written hsorted h
  have horder := written_perm hdistinct hperm.symm marks
  rw [horder, PrivacyFilter.restore, PrivacyFilter.replaceAliases]
  split
  · rename_i hnothing
    rcases hnothing with hnil | hzero
    · rw [hnil] at hturns ⊢
      rw [← hturns, replaceInTurn_nil]
    · have hnil : (names marks).toOriginal = [] := List.length_eq_zero_iff.mp hzero
      rw [hnil, List.perm_nil] at hperm
      rw [hperm] at hturns ⊢
      exact hturns
  · exact hturns

/-! ### Terms in the redacted text -/

def Mark.signs (table : List (Alias × List Char)) : Mark → List (Char × Bool)
  | .kept c => [(c, false)]
  | .value shaped original => ((Mark.value shaped original).written table).map fun c => (c, true)

def signs (table : List (Alias × List Char)) (marks : List Mark) : List (Char × Bool) := marks.flatMap (Mark.signs table)

/-- Whether a term can be read where it takes signs of an alias. -/
def readsAlias (term : List Char) (signs : List (Char × Bool)) : Bool :=
  signs.tails.any fun rest => term.isPrefixOf (rest.map Prod.fst) && (rest.take term.length).any Prod.snd

theorem map_fst_signs (table : List (Alias × List Char))
    (marks : List Mark) : (signs table marks).map Prod.fst = written table marks := by
  have hmark (mark : Mark) : (mark.signs table).map Prod.fst = mark.written table := by
    cases mark with
    | kept c => rfl
    | value shaped original =>
      rw [Mark.signs, List.map_map]
      exact List.map_id'' (fun _ => rfl) _
  rw [signs, List.map_flatMap, written]
  exact congrArg (fun f => List.flatMap f marks) (funext hmark)

theorem flagged_isInfix {term : List Char} {all : List (Char × Bool)}
    (h : term <:+: all.map Prod.fst) (hnot : readsAlias term all = false) :
    (term.map fun c => (c, false)) <:+: all := by
  rw [List.infix_iff_prefix_suffix] at h
  obtain ⟨rest', hbegin, hrest'⟩ := h
  obtain ⟨before, hbefore⟩ := hrest'
  obtain ⟨front, rest, rfl, -, rfl⟩ := List.map_eq_append_iff.mp hbefore.symm
  rw [readsAlias, List.any_eq_false] at hnot
  have hplace := hnot rest ((List.mem_tails rest _).mpr (List.suffix_append front rest))
  rw [Bool.not_eq_true, Bool.and_eq_false_iff] at hplace
  have hleading : term.isPrefixOf (rest.map Prod.fst) = true := List.isPrefixOf_iff_prefix.mpr hbegin
  rw [hleading] at hplace
  have hflags := hplace.resolve_left (by simp)
  rw [List.any_eq_false] at hflags
  have hread : rest.take term.length = term.map fun c => (c, false) := by
    have hfst : (rest.take term.length).map Prod.fst = term := by
      rw [List.map_take]
      exact (List.prefix_iff_eq_take.mp hbegin).symm
    conv_rhs => rw [← hfst, List.map_map]
    refine (List.map_id _).symm.trans (List.map_congr_left fun sign hsign => ?_)
    have hfalse := hflags sign hsign
    simp only [Bool.not_eq_true] at hfalse
    exact Prod.ext rfl hfalse
  refine List.infix_iff_prefix_suffix.mpr ⟨rest, ?_, List.suffix_append front rest⟩
  rw [← hread]
  exact List.take_prefix _ _

def Named (table : List (Alias × List Char)) (mark : Mark) : Prop := mark.written table ≠ []

theorem isPrefix_of_signs {table : List (Alias × List Char)} {marks : List Mark}
    (hnamed : ∀ mark ∈ marks, Named table mark) {text : List Char}
    (h : (text.map fun c => (c, false)) <+: signs table marks) : text.map Mark.kept <+: marks := by
  induction marks generalizing text with
  | nil =>
    rw [signs, List.flatMap_nil, List.prefix_nil, List.map_eq_nil_iff] at h
    rw [h]
    exact List.nil_prefix
  | cons mark marks ih =>
    rw [List.forall_mem_cons] at hnamed
    cases text with
    | nil => exact List.nil_prefix
    | cons c text =>
      rw [signs, List.flatMap_cons, List.map_cons] at h
      cases mark with
      | kept d =>
        rw [Mark.signs, List.singleton_append, List.cons_prefix_cons, Prod.mk.injEq] at h
        obtain ⟨⟨rfl, -⟩, hrest⟩ := h
        rw [List.map_cons, List.cons_prefix_cons]
        exact ⟨rfl, ih hnamed.2 hrest⟩
      | value shaped original =>
        obtain ⟨d, rest, hwritten⟩ := List.exists_cons_of_ne_nil hnamed.1
        rw [Mark.signs, hwritten, List.map_cons, List.cons_append, List.cons_prefix_cons, Prod.mk.injEq] at h
        exact absurd h.1.2 Bool.false_ne_true

theorem isInfix_of_signs {table : List (Alias × List Char)} {marks : List Mark}
    (hnamed : ∀ mark ∈ marks, Named table mark) {text : List Char}
    (hne : text ≠ []) (h : (text.map fun c => (c, false)) <:+: signs table marks) :
    text.map Mark.kept <:+: marks := by
  induction marks with
  | nil =>
    rw [signs, List.flatMap_nil, List.infix_nil, List.map_eq_nil_iff] at h
    exact absurd h hne
  | cons mark marks ih =>
    have hall := hnamed
    rw [List.forall_mem_cons] at hnamed
    have hlater (hrest : (text.map fun c => (c, false)) <:+: signs table marks) : text.map Mark.kept <:+: mark :: marks :=
      List.infix_cons (ih hnamed.2 hrest)
    cases mark with
    | kept d =>
      rcases List.infix_cons_iff.mp (show _ <:+: (d, false) :: signs table marks from h) with hbegin | hrest
      · exact (isPrefix_of_signs hall hbegin).isInfix
      · exact hlater hrest
    | value shaped original =>
      -- No such term begins in an alias.
      apply hlater
      rw [signs, List.flatMap_cons, ← signs, Mark.signs] at h
      generalize (Mark.value shaped original).written table = taken at h
      induction taken with
      | nil => exact h
      | cons d rest ihrest =>
        rcases List.infix_cons_iff.mp h with hbegin | hrest
        · obtain ⟨c, text', rfl⟩ := List.exists_cons_of_ne_nil hne
          rw [List.map_cons, List.cons_prefix_cons, Prod.mk.injEq] at hbegin
          exact absurd hbegin.1.2 Bool.false_ne_true
        · exact ihrest hrest

def Unmatched (literals : List (List Char)) (marks : List Mark) : Prop :=
  ∀ c rest, Mark.kept c :: rest <:+ marks → ∀ literal ∈ literals, ¬ literal <+: c :: rest.flatMap Mark.source

theorem unmatched_termReading {settings : Settings}
    (hne : ∀ literal ∈ settings.literals, literal ≠ []) (text : List Char) :
    Unmatched settings.literals (termReading settings text) := by
  have hsource := source_termReading settings
  unfold termReading at hsource ⊢
  induction text using scan_induction (literalAt_le settings.literals) with
  | nil =>
    intro c rest hsuffix
    simp at hsuffix
  | sign d text h ih =>
    intro c rest hsuffix literal hliteral
    rw [scan_sign h, List.map_cons, List.suffix_cons_iff] at hsuffix
    rcases hsuffix with hhere | hlater
    · obtain ⟨hd, rfl⟩ := List.cons.inj hhere
      obtain rfl : c = d := by simpa [Mark.ofTermPiece] using hd
      rw [hsource text]
      rcases literalAt_spec settings.literals (c :: text) with ⟨first, hfirst, -, hlength⟩ | ⟨hnone, -⟩
      · rw [h] at hlength
        exact absurd (List.length_eq_zero_iff.mp hlength.symm) (hne first hfirst)
      · exact hnone literal hliteral
    · exact ih c rest hlater literal hliteral
  | found m text hm h ih =>
    intro c rest hsuffix literal hliteral
    rw [scan_found hm h, List.map_cons, List.suffix_cons_iff] at hsuffix
    rcases hsuffix with hhere | hlater
    · simp [Mark.ofTermPiece] at hhere
    · exact ih c rest hlater literal hliteral

theorem Unmatched.tail {literals : List (List Char)} {front marks : List Mark}
    (h : Unmatched literals (front ++ marks)) :
    Unmatched literals marks := fun c rest hsuffix => h c rest (hsuffix.trans (List.suffix_append front marks))

theorem Unmatched.map_kept_append {literals : List (List Char)} {text : List Char}
    {marks marks' : List Mark}
    (h : Unmatched literals (text.map .kept ++ marks)) (hsource : marks'.flatMap Mark.source = marks.flatMap Mark.source)
    (h' : Unmatched literals marks') : Unmatched literals (text.map .kept ++ marks') := by
  induction text with
  | nil => exact h'
  | cons d text ih =>
    intro c rest hsuffix literal hliteral
    rw [List.map_cons, List.cons_append] at h hsuffix
    rcases List.suffix_cons_iff.mp hsuffix with hhere | hlater
    · obtain ⟨hd, rfl⟩ := List.cons.inj hhere
      obtain rfl : c = d := by simpa using hd
      have hfirst := h c (text.map .kept ++ marks) (List.suffix_refl _) literal hliteral
      rwa [List.flatMap_append, hsource, ← List.flatMap_append]
    · exact ih (@Unmatched.tail _ [Mark.kept d] _ h) c rest hlater literal hliteral

theorem Unmatched.emailReading {literals : List (List Char)} {marks : List Mark}
    (h : Unmatched literals marks) :
    Unmatched literals (emailReading marks) := by
  induction marks using emailReading_induction with
  | nil => exact h
  | sign mark marks hnone ih =>
    have hlater := ih (@Unmatched.tail _ [mark] _ h)
    rw [emailReading_sign hnone]
    cases mark with
    | kept c => exact @Unmatched.map_kept_append _ [c] _ _ h (source_emailReading marks) hlater
    | value shaped original =>
      intro c rest hsuffix
      rcases List.suffix_cons_iff.mp hsuffix with hhere | hsuffix
      · simp at hhere
      · exact hlater c rest hsuffix
  | address text marks hne hmatch ih =>
    have hlater := ih h.tail
    rw [emailReading_address hne hmatch]
    split
    · exact h.map_kept_append (source_emailReading marks) hlater
    · intro c rest hsuffix
      rcases List.suffix_cons_iff.mp hsuffix with hhere | hsuffix
      · simp at hhere
      · exact hlater c rest hsuffix

theorem mem_literals {settings : Settings} {term : List Char} :
    term ∈ settings.literals ↔ term ∈ settings.terms ∧ trim term ≠ [] := by
  rw [Settings.literals, List.mem_insertionSort, List.mem_eraseDups, List.mem_filter, decide_eq_true_eq]

theorem ne_nil_of_mem_literals {settings : Settings} {literal : List Char}
    (h : literal ∈ settings.literals) : literal ≠ [] := by
  rintro rfl
  exact (mem_literals.mp h).2 rfl

theorem not_isInfix_reading {settings : Settings} {literal : List Char}
    (h : literal ∈ settings.literals) (text : List Char) :
    ¬ literal.map Mark.kept <:+: reading settings text := by
  have hunmatched : Unmatched settings.literals (reading settings text) := by
    have hterms := @unmatched_termReading settings (fun literal hliteral => ne_nil_of_mem_literals hliteral) text
    unfold reading
    split
    · exact hterms.emailReading
    · exact hterms
  rintro ⟨front, behind, hsplit⟩
  obtain ⟨c, literal', rfl⟩ := List.exists_cons_of_ne_nil (ne_nil_of_mem_literals h)
  rw [List.map_cons, List.append_assoc, List.cons_append] at hsplit
  apply hunmatched c (literal'.map .kept ++ behind) ⟨front, hsplit⟩ _ h
  rw [List.flatMap_append, source_map_kept, List.cons_prefix_cons]
  exact ⟨rfl, List.prefix_append _ _⟩

theorem named_names (marks : List Mark) : ∀ mark ∈ marks, Named (names marks).toOriginal mark := by
  intro mark hmark
  cases mark with
  | kept c => exact List.cons_ne_nil c []
  | value shaped original =>
    have hvalue : original ∈ marks.filterMap (Mark.original? shaped) := List.mem_filterMap.mpr ⟨_, hmark, by simp [Mark.original?]⟩
    have hsome : ((names marks).find original).isSome := by
      cases shaped with
      | true => exact PrivacyFilter.find_nameAll hvalue
      | false =>
        obtain ⟨e, he⟩ := Option.isSome_iff_exists.mp (@PrivacyFilter.find_nameAll .empty original false _ hvalue)
        rw [names, (PrivacyFilter.nameAll_extends _).find he]
        rfl
    obtain ⟨e, he⟩ := Option.isSome_iff_exists.mp hsome
    rw [PrivacyFilter.find] at he
    rw [Named, Mark.written, he]
    exact marked_aliases.ne_nil _ ⟨e.1, rfl⟩

/-! ### Redacting and restoring -/

structure Restorable (settings : Settings) (text : List Char) : Prop where
  /-- No alias stands in what is not its place, at its turn. -/
  apart : apart (reading settings text) (names (reading settings text)).sorted = true
  /-- No term can be read with signs of an alias. -/
  unread : ∀ term ∈ settings.terms,
    readsAlias term (signs (names (reading settings text)).toOriginal (reading settings text)) = false
  /-- Terms that are blank are not looked for: none stands in what is kept. -/
  blank : ∀ term ∈ settings.terms, trim term = [] → ¬ term.map Mark.kept <:+: reading settings text

/-- Where aliases do not get mixed up with the text, it comes back, and
no term is in what was sent. -/
theorem redaction_restores (settings : Settings) (text : List Char) (h : Restorable settings text) :
    (redactText settings .empty text).1.restore (redactText settings .empty text).2 = text ∧
      ∀ term ∈ settings.terms, ¬ term <:+: (redactText settings .empty text).2 := by
  rw [redactText_eq]
  refine ⟨by rw [restore_names h.apart, source_reading], fun term hterm hstands => ?_⟩
  rw [← map_fst_signs] at hstands
  have hflagged := flagged_isInfix hstands (h.unread term hterm)
  by_cases hblank : trim term = []
  · refine h.blank term hterm hblank ?_
    by_cases hne : term = []
    · rw [hne]
      exact List.nil_infix
    · exact isInfix_of_signs (named_names _) hne hflagged
  · have hliteral : term ∈ settings.literals := mem_literals.mpr ⟨hterm, hblank⟩
    exact not_isInfix_reading hliteral text (isInfix_of_signs (named_names _) (ne_nil_of_mem_literals hliteral) hflagged)

/-- A term and an address, the term twice. -/
theorem redaction_restores_mail :
    (redactText { terms := ["acme".toList] } .empty "acme: a@acme.io, b@c.io, acme".toList).1.restore
        (redactText { terms := ["acme".toList] } .empty "acme: a@acme.io, b@c.io, acme".toList).2 = "acme: a@acme.io, b@c.io, acme".toList ∧
      ∀ term ∈ ["acme".toList], ¬ term <:+: (redactText { terms := ["acme".toList] } .empty "acme: a@acme.io, b@c.io, acme".toList).2 :=
  redaction_restores { terms := ["acme".toList] } "acme: a@acme.io, b@c.io, acme".toList
    ⟨by decide +kernel, by decide +kernel, by decide +kernel⟩

/-- The text with a mark of its own is not what comes back, and a term is in its own alias. -/
theorem alias_in_text :
    (redactText { terms := ["secret".toList] } .empty "[redacted-1] secret".toList).1.restore
        (redactText { terms := ["secret".toList] } .empty "[redacted-1] secret".toList).2 ≠ "[redacted-1] secret".toList ∧
      "redacted".toList <:+: (redactText { terms := ["redacted".toList] } .empty "redacted".toList).2 := by
  decide +kernel

def crossedTerms : List (List Char) := ["alidalid[redac".toList, "alid[redacted-2]".toList]

def crossedText : List Char := "alidalid[redac alid[redacted-2] p3@redacted.inv p3@redacted.invalidalidalid[redacted-2]".toList

-- Two aliases that are not apart from the text may also make up for each other.
example : apart (reading { terms := crossedTerms } crossedText) (names (reading { terms := crossedTerms } crossedText)).sorted = false ∧
    (redactText { terms := crossedTerms } .empty crossedText).1.restore (redactText { terms := crossedTerms } .empty crossedText).2 =
      crossedText := by
  decide +kernel

end TokenProxy.Privacy
