import TokenProxy.Lib.Utf8
import TokenProxy.Privacy.Filter

/-!
# Restoring a stream

The restorer holds the end of its text back while an alias may go on there, so the network may cut
the stream anywhere (`restoreResponseStream_chunks`): what comes out is what the whole text would be
restored to, if that holds no alias.
-/

namespace TokenProxy.Privacy

open Lib Lib.Json

namespace PrivacyFilter

/-- How much of the text's end is the beginning of an alias, `k` signs at most. -/
def heldBack (buf word : List Char) : Nat → Option Nat
  | 0 => none
  | k + 1 => if (word.take (k + 1)).isSuffixOf buf then some (k + 1) else heldBack buf word k

/-- The cut, once an alias was looked for at the end of the text. -/
def cutBefore (buf : List Char) (cut : Nat) (word : List Char) : Nat :=
  match heldBack buf word (min (word.length - 1) buf.length) with
  | some k => min cut (buf.length - k)
  | none => cut

def cut (filter : PrivacyFilter) (buf : List Char) : Nat := filter.aliases.foldl (cutBefore buf) buf.length

/-- One chunk of text: what is held back from then on, and what is emitted. -/
def push (filter : PrivacyFilter) (carry chunk : List Char) : List Char × List Char :=
  let buf := carry ++ chunk
  (buf.drop (filter.cut buf), filter.restoreJson (buf.take (filter.cut buf)))

def flush (filter : PrivacyFilter) (carry : List Char) : List Char := filter.restoreJson carry

structure Transform where
  decoder : Utf8Decoder := {}
  carry : List Char := []
  deriving DecidableEq

def emit (text : List Char) : List (List UInt8) := if text = [] then [] else [Utf8Decoder.encode text]

def transform (filter : PrivacyFilter) (s : Transform)
    (chunk : List UInt8) : Transform × List (List UInt8) :=
  let (decoder, text) := s.decoder.decode chunk
  let (carry, out) := filter.push s.carry text
  ({ decoder, carry }, emit out)

def flushTransform (filter : PrivacyFilter) (s : Transform) : List (List UInt8) :=
  let (carry, out) := filter.push s.carry s.decoder.finish
  emit (out ++ filter.flush carry)

def transformAll (filter : PrivacyFilter) (s : Transform) : List (List UInt8) → List (List UInt8)
  | [] => filter.flushTransform s
  | chunk :: chunks =>
    let (next, out) := filter.transform s chunk
    out ++ filter.transformAll next chunks

/-- The bytes that reach the client, for the chunks that arrive from upstream. -/
def restoreResponseStream (filter : PrivacyFilter)
    (chunks : List (List UInt8)) : List (List UInt8) :=
  if filter.size = 0 then chunks else filter.transformAll {} chunks

def restorePieces (filter : PrivacyFilter) (carry : List Char) : List (List Char) → List Char
  | [] => filter.flush carry
  | piece :: pieces => (filter.push carry piece).2 ++ filter.restorePieces (filter.push carry piece).1 pieces

/-! ### The aliases of a filter -/

variable (filter : PrivacyFilter)

def words : Set (List Char) := {w | w ∈ filter.aliases}

theorem replaceAliases_eq (text : List Char) (escape : List Char → List Char) :
    filter.replaceAliases text escape = replaceInTurn (filter.sorted.map fun e => (e.1.text, escape e.2)) text := by
  unfold replaceAliases
  split
  · rename_i hoff
    rcases hoff with rfl | hsize
    · rw [replaceInTurn_nil]
    · have hempty : filter.toOriginal = [] := List.length_eq_zero_iff.mp hsize
      simp [sorted, hempty, replaceInTurn]
  · rfl

theorem restore_eq (text : List Char) : filter.restore text = replaceInTurn filter.originals text :=
  filter.replaceAliases_eq text id

theorem restoreJson_eq (text : List Char) :
    filter.restoreJson text = replaceInTurn (escaped filter.originals) text := by
  have htable : escaped filter.originals = filter.sorted.map fun e => (e.1.text, escape e.2) := by
    unfold escaped originals
    rw [List.map_map]
    rfl
  rw [htable]
  exact filter.replaceAliases_eq text escape

theorem words_subset : filter.words ⊆ aliasWords := by
  intro w hw
  obtain ⟨e, -, rfl⟩ := List.mem_map.mp hw
  exact ⟨e.1, rfl⟩

theorem marked_words : Marked filter.words := marked_aliases.subset filter.words_subset

theorem originals_mem : ∀ e ∈ filter.originals, e.1 ∈ filter.words := by
  intro e he
  obtain ⟨e', he', rfl⟩ := List.mem_map.mp he
  exact List.mem_map.mpr ⟨e', he', rfl⟩

theorem escaped_originals_mem : ∀ e ∈ escaped filter.originals, e.1 ∈ filter.words :=
  forall_escaped (· ∈ filter.words) filter.originals_mem

/-! ### What is held back -/

theorem heldBack_some {buf word : List Char} {n k : Nat} (h : heldBack buf word n = some k) :
    0 < k ∧ k ≤ n ∧ word.take k <:+ buf := by
  induction n with
  | zero => exact absurd h (by simp [heldBack])
  | succ n ih =>
    rw [heldBack] at h
    split at h
    · rename_i hsuffix
      rw [Option.some.injEq] at h
      subst h
      exact ⟨by omega, by omega, List.isSuffixOf_iff_suffix.mp hsuffix⟩
    · obtain ⟨hpos, hle, hsuffix⟩ := ih h
      exact ⟨hpos, by omega, hsuffix⟩

theorem le_heldBack {buf word : List Char} {n k : Nat} (hpos : 0 < k) (hle : k ≤ n)
    (hsuffix : word.take k <:+ buf) :
    ∃ j, heldBack buf word n = some j ∧ k ≤ j := by
  induction n with
  | zero => omega
  | succ n ih =>
    rw [heldBack]
    split
    · exact ⟨n + 1, rfl, hle⟩
    · rename_i hno
      have hne : k ≠ n + 1 := by
        rintro rfl
        exact hno (List.isSuffixOf_iff_suffix.mpr hsuffix)
      exact ih (by omega)

theorem cutBefore_le (buf : List Char) (cut : Nat)
    (word : List Char) : cutBefore buf cut word ≤ cut := by
  unfold cutBefore
  split
  · exact Nat.min_le_left _ _
  · exact Nat.le_refl cut

theorem foldl_cutBefore_le (buf : List Char) (start : Nat) (aliases : List (List Char)) :
    aliases.foldl (cutBefore buf) start ≤ start := by
  induction aliases generalizing start with
  | nil => exact Nat.le_refl start
  | cons word aliases ih => exact (ih _).trans (cutBefore_le buf start word)

theorem foldl_cutBefore_le_of_isSuffix {buf word : List Char} {aliases : List (List Char)} {k : Nat}
    (start : Nat)
    (hword : word ∈ aliases) (hpos : 0 < k) (hlt : k < word.length) (hsuffix : word.take k <:+ buf) :
    aliases.foldl (cutBefore buf) start ≤ buf.length - k := by
  induction aliases generalizing start with
  | nil => exact absurd hword List.not_mem_nil
  | cons first aliases ih =>
    rw [List.foldl_cons]
    rcases List.mem_cons.mp hword with rfl | hword
    · have hlen : k ≤ buf.length := by
        have hle := hsuffix.length_le
        rw [List.length_take] at hle
        omega
      obtain ⟨j, hj, hkj⟩ := le_heldBack hpos (show k ≤ min (word.length - 1) buf.length by omega) hsuffix
      apply (foldl_cutBefore_le buf _ aliases).trans
      unfold cutBefore
      rw [hj]
      simp only
      omega
    · exact ih _ hword

theorem foldl_cutBefore_cases (buf : List Char) (start : Nat) (aliases : List (List Char)) :
    aliases.foldl (cutBefore buf) start = start ∨
      ∃ word ∈ aliases, ∃ k, 0 < k ∧ k < word.length ∧ word.take k <:+ buf ∧
        aliases.foldl (cutBefore buf) start = buf.length - k := by
  induction aliases generalizing start with
  | nil => exact .inl rfl
  | cons first aliases ih =>
    cases hheld : heldBack buf first (min (first.length - 1) buf.length) with
    | none =>
      have hcut : cutBefore buf start first = start := by
        unfold cutBefore
        rw [hheld]
      rw [List.foldl_cons, hcut]
      rcases ih start with h | ⟨word, hword, h⟩
      · exact .inl h
      · exact .inr ⟨word, List.mem_cons_of_mem first hword, h⟩
    | some k =>
      have hcut : cutBefore buf start first = min start (buf.length - k) := by
        unfold cutBefore
        rw [hheld]
      obtain ⟨hpos, hle, hsuffix⟩ := heldBack_some hheld
      rw [List.foldl_cons, hcut]
      rcases ih (min start (buf.length - k)) with h | ⟨word, hword, h⟩
      · rw [h]
        rcases Nat.le_total start (buf.length - k) with hstart | hstart
        · exact .inl (Nat.min_eq_left hstart)
        · exact .inr ⟨first, List.mem_cons_self, k, hpos, by omega, hsuffix, Nat.min_eq_right hstart⟩
      · exact .inr ⟨word, List.mem_cons_of_mem first hword, h⟩

theorem drop_cut_cases (buf : List Char) :
    buf.drop (filter.cut buf) = [] ∨ ∃ v, v ≠ [] ∧ buf.drop (filter.cut buf) ++ v ∈ filter.words := by
  rcases foldl_cutBefore_cases buf buf.length filter.aliases with h | ⟨word, hword, k, hpos, hlt, hsuffix, h⟩
  · refine .inl ?_
    rw [cut, h, List.drop_length]
  · refine .inr ⟨word.drop k, ?_, ?_⟩
    · intro hnil
      rw [List.drop_eq_nil_iff] at hnil
      omega
    · have hheld : buf.drop (filter.cut buf) = word.take k := by
        obtain ⟨front, hfront⟩ := hsuffix
        have hlen := congrArg List.length hfront
        rw [List.length_append, List.length_take] at hlen
        have hdrop : buf.length - k = front.length := by omega
        rw [cut, h, hdrop, ← hfront, List.drop_left]
      rw [hheld, List.take_append_drop]
      exact hword

/-- **Nothing crosses the cut**, whatever the stream goes on with. -/
theorem not_crosses_cut (buf future : List Char) :
    ¬ Crosses filter.words (buf.take (filter.cut buf)) (buf.drop (filter.cut buf) ++ future) := by
  have hle : filter.cut buf ≤ buf.length := foldl_cutBefore_le buf buf.length filter.aliases
  apply filter.marked_words.not_crosses_of_longest
  · exact filter.drop_cut_cases buf
  · intro u v hword hv hsuffix
    rw [List.take_append_drop] at hsuffix
    rw [List.length_drop]
    by_cases hnil : u = []
    · simp [hnil]
    have hvpos : 0 < v.length := List.length_pos_of_ne_nil hv
    have hlt : u.length < (u ++ v).length := by
      rw [List.length_append]
      omega
    have htake : (u ++ v).take u.length <:+ buf := by rwa [List.take_left]
    have hcut := foldl_cutBefore_le_of_isSuffix buf.length hword (List.length_pos_of_ne_nil hnil) hlt htake
    have hlen := hsuffix.length_le
    rw [← cut] at hcut
    omega

/-! ### The network may cut the stream anywhere -/

/-- What the text becomes if every alias gives way to what it stands for. -/
def substituteJson (text : List Char) : List Char := substitute (escaped filter.originals) text

theorem substituteJson_append {x y : List Char} (h : ¬ Crosses filter.words x y) :
    filter.substituteJson (x ++ y) = filter.substituteJson x ++ filter.substituteJson y :=
  substitute_append (fun e he => filter.marked_words.ne_nil _ (filter.escaped_originals_mem e he))
    filter.escaped_originals_mem h

theorem restoreJson_eq_substituteJson {text : List Char}
    (h : Clean (escaped filter.originals) (filter.substituteJson text)) :
    filter.restoreJson text = filter.substituteJson text := by
  rw [restoreJson_eq]
  exact replaceInTurn_eq_substitute filter.marked_words filter.escaped_originals_mem h

/-- **The pieces of a text**: what has been emitted and what is still
held back make up what came in. -/
theorem restorePieces_eq (pieces : List (List Char)) {done carry : List Char}
    (hcut : ∀ future, ¬ Crosses filter.words done (carry ++ future))
    (hclean : Clean (escaped filter.originals) (filter.substituteJson (done ++ (carry ++ pieces.flatten)))) :
    filter.substituteJson done ++ filter.restorePieces carry pieces =
      filter.substituteJson (done ++ (carry ++ pieces.flatten)) := by
  induction pieces generalizing done carry with
  | nil =>
    have hend := hcut []
    rw [List.append_nil] at hend
    rw [List.flatten_nil, List.append_nil] at hclean ⊢
    rw [substituteJson_append _ hend] at hclean ⊢
    have hheld : filter.flush carry = filter.substituteJson carry :=
      filter.restoreJson_eq_substituteJson fun e he hwithin =>
        hclean e he (hwithin.trans (List.suffix_append _ _).isInfix)
    rw [restorePieces, hheld]
  | cons piece pieces ih =>
    let out := (carry ++ piece).take (filter.cut (carry ++ piece))
    let held := (carry ++ piece).drop (filter.cut (carry ++ piece))
    have hbuf : out ++ held = carry ++ piece := List.take_append_drop _ _
    have hall : done ++ (carry ++ (piece :: pieces).flatten) = (done ++ out) ++ (held ++ pieces.flatten) := by
      rw [List.flatten_cons, ← List.append_assoc carry, ← hbuf]
      simp only [List.append_assoc]
    have hfirst (rest : List Char) : ¬ Crosses filter.words done (out ++ (held ++ rest)) := by
      rw [← List.append_assoc, hbuf, List.append_assoc]
      exact hcut (piece ++ rest)
    have hnext (future : List Char) : ¬ Crosses filter.words (done ++ out) (held ++ future) :=
      not_crosses_append (hfirst future) (filter.not_crosses_cut (carry ++ piece) future)
    have hdone : filter.substituteJson (done ++ out) = filter.substituteJson done ++ filter.substituteJson out := by
      apply substituteJson_append
      exact fun hcross => hfirst [] (hcross.of_isPrefix (List.prefix_append out _))
    rw [hall] at hclean ⊢
    have hrest := ih hnext hclean
    have hput : filter.restoreJson out = filter.substituteJson out := by
      apply restoreJson_eq_substituteJson
      intro e he hwithin
      apply hclean e he
      rw [← hrest, hdone, List.append_assoc]
      exact hwithin.trans ((List.prefix_append _ _).isInfix.trans (List.suffix_append _ _).isInfix)
    rw [← hrest, hdone, List.append_assoc]
    show _ ++ (filter.restoreJson out ++ filter.restorePieces held pieces) = _
    rw [hput]

theorem restoreJson_cut (buf : List Char) :
    filter.restoreJson (buf.take (filter.cut buf)) ++ filter.restoreJson (buf.drop (filter.cut buf)) =
      filter.restoreJson buf := by
  have hbuf : buf.take (filter.cut buf) ++ buf.drop (filter.cut buf) = buf := List.take_append_drop _ _
  rcases filter.drop_cut_cases buf with hnil | ⟨v, hv, hstem⟩
  · rw [hnil, List.append_nil] at hbuf
    rw [hnil, hbuf]
    simp [restoreJson, replaceAliases]
  · generalize buf.take (filter.cut buf) = kept at hbuf ⊢
    generalize buf.drop (filter.cut buf) = held at hbuf hstem ⊢
    by_cases hnil : held = []
    · rw [hnil, List.append_nil] at hbuf
      rw [hnil, hbuf]
      simp [restoreJson, replaceAliases]
    · have hself : replaceInTurn (escaped filter.originals) held = held :=
        replaceInTurn_eq_self fun e he =>
          filter.marked_words.not_isInfix_stem hv hstem (filter.escaped_originals_mem e he)
      rw [← hbuf, restoreJson_eq, restoreJson_eq, restoreJson_eq, hself]
      exact (replaceInTurn_append_stem filter.escaped_originals_mem filter.marked_words hnil hv hstem kept).symm

theorem push_flush (carry chunk : List Char) :
    (filter.push carry chunk).2 ++ filter.flush (filter.push carry chunk).1 = filter.restoreJson (carry ++ chunk) :=
  filter.restoreJson_cut (carry ++ chunk)

theorem restorePieces_whole (text : List Char) :
    filter.restorePieces [] [text, []] = filter.restoreJson text := by
  rw [restorePieces, restorePieces, restorePieces, push_flush, List.append_nil]
  exact filter.push_flush [] text

def piecesOf (decoder : Utf8Decoder) : List (List UInt8) → List (List Char)
  | [] => [decoder.finish]
  | chunk :: chunks => (decoder.decode chunk).2 :: piecesOf (decoder.decode chunk).1 chunks

theorem flatten_emit (text : List Char) : (emit text).flatten = Utf8Decoder.encode text := by
  unfold emit
  split
  · rename_i h
    rw [h]
    rfl
  · simp

theorem flatten_transformAll (decoder : Utf8Decoder) (carry : List Char)
    (chunks : List (List UInt8)) :
    (filter.transformAll { decoder, carry } chunks).flatten =
      Utf8Decoder.encode (filter.restorePieces carry (piecesOf decoder chunks)) := by
  induction chunks generalizing decoder carry with
  | nil =>
    show (emit _).flatten = _
    rw [flatten_emit]
    rfl
  | cons chunk chunks ih =>
    show (emit _ ++ filter.transformAll _ chunks).flatten = _
    rw [List.flatten_append, flatten_emit, ih]
    exact List.flatMap_append.symm

theorem flatten_piecesOf (decoder : Utf8Decoder) (chunks : List (List UInt8)) :
    (piecesOf decoder chunks).flatten = (decoder.decode chunks.flatten).2 ++ (decoder.decode chunks.flatten).1.finish := by
  induction chunks generalizing decoder with
  | nil => simp [piecesOf, Utf8Decoder.decode]
  | cons chunk chunks ih => simp [piecesOf, ih, Utf8Decoder.decode_append]

/-- **However the network cuts the stream**, the client gets the text with its aliases put back,
where that holds none any more. -/
theorem restoreResponseStream_chunks {text : List Char} {chunks : List (List UInt8)}
    (hchunks : chunks.flatten = Utf8Decoder.encode text)
    (hclean : Clean (escaped filter.originals) (filter.substituteJson text)) :
    (filter.restoreResponseStream chunks).flatten = Utf8Decoder.encode (filter.substituteJson text) := by
  unfold restoreResponseStream
  split
  · rename_i hsize
    have hempty : filter.toOriginal = [] := List.length_eq_zero_iff.mp hsize
    have hoff : filter.substituteJson text = text := by
      apply substitute_eq_self
      simp [escaped, originals, sorted, hempty]
    rw [hchunks, hoff]
  · have htext : (piecesOf {} chunks).flatten = text := by
      rw [flatten_piecesOf, hchunks, Utf8Decoder.decode_encode]
      simp [Utf8Decoder.finish]
    have hrun := filter.restorePieces_eq (piecesOf {} chunks) (fun future => not_crosses_nil_left)
      (by rw [List.nil_append, List.nil_append, htext]; exact hclean)
    rw [List.nil_append, List.nil_append, htext] at hrun
    rw [show ({} : Transform) = { decoder := {}, carry := [] } by rfl, flatten_transformAll, ← hrun]
    rfl

theorem restoreResponseStream_whole (text : List Char) :
    (filter.restoreResponseStream [Utf8Decoder.encode text]).flatten = Utf8Decoder.encode (filter.restoreJson text) := by
  unfold restoreResponseStream
  split
  · rename_i hsize
    simp [restoreJson, replaceAliases, hsize]
  · have hpieces : piecesOf {} [Utf8Decoder.encode text] = [text, []] := by
      simp [piecesOf, Utf8Decoder.decode_encode, Utf8Decoder.finish]
    rw [show ({} : Transform) = { decoder := {}, carry := [] } by rfl, flatten_transformAll, hpieces, restorePieces_whole]

end PrivacyFilter

end TokenProxy.Privacy
