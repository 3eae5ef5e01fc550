import TokenProxy.Lib.CommonPrefix
import TokenProxy.Lib.JsonPlaces
import TokenProxy.Lib.Run
import TokenProxy.Lib.Table

/-!
# The cut behind the cached prefix

The final body of a request is kept as one digest a block and the bytes of its last block. The next
body of the session is compared with that (`peekCacheEpoch`), and the message that reaches over the
shared prefix is the cut (`computeEpochCutIndex`): the stages that compact a conversation run only
when the cut is positive, and change only the messages behind it.

* `sharedPrefixBytes_le`: no more than the two bodies share.
* `epochCut_sound`: what this means for the bodies of any run.
-/

namespace TokenProxy.Compaction

open Lib
open Utf8Decoder (encode)

abbrev Bytes := List UInt8

def CE_CAP : ℕ := 2048

/-- What is left of a full store: `CE_CAP * 0.9`, rounded down. -/
def ceKept : ℕ := 1843

def CE_TTL_MS : ℤ := 30 * 60 * 1000

def CE_BLOCK_BYTES : ℕ := 64 * 1024

structure CeBody (δ : Type*) where
  blocks : List δ
  tail : Bytes
  tailOff : ℕ
  len : ℕ
  at_ : ℤ
  deriving DecidableEq

structure Epoch where
  ce : ℕ
  prevBytes : ℕ
  bytes : ℕ
  deriving DecidableEq

section Digest

variable {δ : Type*} [DecidableEq δ] (digest : Bytes → δ)

/-- One digest per block of `size` bytes. -/
def blockDigests (size : ℕ) (whole : Bytes) : List δ :=
  (List.range ((whole.length + size - 1) / size)).map fun i => digest (blockAt size whole i)

def sharedPrefixBytes (prev : CeBody δ) (whole : Bytes) : ℕ :=
  let blocks := blockDigests digest CE_BLOCK_BYTES whole
  let fullPrev := prev.blocks.length - 1
  let n := min fullPrev blocks.length
  let i := commonLength (prev.blocks.take n) (blocks.take n)
  let ce :=
    if i = fullPrev then prev.tailOff + commonLength prev.tail ((whole.drop prev.tailOff).take prev.tail.length)
    else i * CE_BLOCK_BYTES
  min ce (min prev.len whole.length)

abbrev CeBodies (δ : Type*) := Dict String (CeBody δ)

def peekCacheEpoch (ceBodies : CeBodies δ) (sid : String) (serialized : List Char)
    (now : ℤ) : Option Epoch :=
  if sid = "" then none
  else match ceBodies.lookup sid with
  | none => none
  | some prev =>
    if CE_TTL_MS < now - prev.at_ then none
    else
      let whole := encode serialized
      some ⟨sharedPrefixBytes digest prev whole, prev.len, whole.length⟩

def keptBody (serialized : List Char) (now : ℤ) : CeBody δ :=
  let whole := encode serialized
  let blocks := blockDigests digest CE_BLOCK_BYTES whole
  let lastOff := (blocks.length - 1) * CE_BLOCK_BYTES
  { blocks, tail := whole.drop lastOff, tailOff := lastOff, len := whole.length, at_ := now }

def storeBody (ceBodies : CeBodies δ) (sid : String) (body : CeBody δ) : CeBodies δ :=
  let ceBodies := (ceBodies.erase sid).put (sid, body)
  if CE_CAP < ceBodies.rows.length then ceBodies.keepLast ceKept else ceBodies

def trackCacheEpoch (ceBodies : CeBodies δ) (sid : String) (serialized : List Char)
    (now : ℤ) : CeBodies δ × Option Epoch :=
  let whole := encode serialized
  let out := match ceBodies.lookup sid with
    | none => none
    | some prev =>
      if now - prev.at_ ≤ CE_TTL_MS then some ⟨sharedPrefixBytes digest prev whole, prev.len, whole.length⟩ else none
  (storeBody ceBodies sid (keptBody digest serialized now), out)

end Digest

/-! ### The cut -/

/-- The index of the first message whose cumulative length exceeds `ce`. -/
def firstBeyond (ce : ℕ) : List Json → ℕ → ℕ → ℕ
  | [], _, _ => 0
  | message :: messages, i, cumulative =>
    if ce < cumulative + message.byteLength then i else firstBeyond ce messages (i + 1) (cumulative + message.byteLength)

def computeEpochCutIndex (messages : Json) (peek : Epoch) : ℕ :=
  match messages with
  | .array items =>
    if peek.prevBytes = 0 then 0
    -- half or more of the previous body is shared: a stable epoch
    else if peek.prevBytes ≤ 2 * peek.ce then 0
    else firstBeyond peek.ce items.toList 0 0
  | _ => 0

theorem firstBeyond_spec {ce : ℕ} {messages : List Json} {i cumulative : ℕ}
    (h : 0 < firstBeyond ce messages i cumulative) :
    ∃ k, k < messages.length ∧ firstBeyond ce messages i cumulative = i + k ∧
      ce < cumulative + ((messages.take (k + 1)).map Json.byteLength).sum := by
  induction messages generalizing i cumulative with
  | nil => simp [firstBeyond] at h
  | cons message messages ih =>
    simp only [firstBeyond] at h ⊢
    split at h
    · rename_i hce
      exact ⟨0, by simp, by simp [hce], by simpa using hce⟩
    · rename_i hce
      obtain ⟨k, hk, hcut, hsum⟩ := ih h
      refine ⟨k + 1, by simpa using hk, ?_, ?_⟩
      · rw [if_neg hce, hcut]
        omega
      · rw [List.take_succ_cons, List.map_cons, List.sum_cons]
        omega

theorem computeEpochCutIndex_spec {items : JsonItems} {peek : Epoch}
    (h : 0 < computeEpochCutIndex (.array items) peek) :
    computeEpochCutIndex (.array items) peek < items.toList.length ∧
      peek.ce < ((items.toList.take (computeEpochCutIndex (.array items) peek + 1)).map Json.byteLength).sum := by
  unfold computeEpochCutIndex at h ⊢
  simp only at h ⊢
  split at h
  · omega
  · split at h
    · omega
    · rename_i hzero hstable
      obtain ⟨k, hk, hcut, hsum⟩ := firstBeyond_spec h
      rw [if_neg hzero, if_neg hstable, hcut]
      rw [Nat.zero_add] at hsum ⊢
      exact ⟨hk, hsum⟩

theorem firstBeyond_eq_zero {ce : ℕ} {messages : List Json} {i cumulative : ℕ}
    (h : cumulative + (messages.map Json.byteLength).sum ≤ ce) :
    firstBeyond ce messages i cumulative = 0 := by
  induction messages generalizing i cumulative with
  | nil => rfl
  | cons message messages ih =>
    rw [List.map_cons, List.sum_cons, ← Nat.add_assoc] at h
    rw [firstBeyond, if_neg (by omega)]
    exact ih h

theorem computeEpochCutIndex_eq_zero {items : JsonItems} {peek : Epoch}
    (h : peek.prevBytes = 0 ∨ peek.prevBytes ≤ 2 * peek.ce ∨ (items.toList.map Json.byteLength).sum ≤ peek.ce) :
    computeEpochCutIndex (.array items) peek = 0 := by
  simp only [computeEpochCutIndex]
  split
  · rfl
  split
  · rfl
  rename_i hsome hstable
  exact firstBeyond_eq_zero (by rw [Nat.zero_add]; exact (h.resolve_left hsome).resolve_left hstable)

/-! ### The shared prefix -/

section Digest

variable {δ : Type*} [DecidableEq δ] (digest : Bytes → δ)

/-- No block of a body has the digest of another block at its place. -/
def Distinguishes (prev whole : Bytes) : Prop :=
  ∀ i, digest (blockAt CE_BLOCK_BYTES prev i) = digest (blockAt CE_BLOCK_BYTES whole i) → blockAt CE_BLOCK_BYTES prev i = blockAt CE_BLOCK_BYTES whole i

omit [DecidableEq δ] in
theorem getElem?_blockDigests {size i : ℕ} {whole : Bytes}
    (h : i < (blockDigests digest size whole).length) :
    (blockDigests digest size whole)[i]? = some (digest (blockAt size whole i)) := by
  have h : i < (whole.length + size - 1) / size := by simpa [blockDigests] using h
  simp [blockDigests, h]

variable {digest}

omit [DecidableEq δ] in
theorem take_eq_of_digests {prev whole : Bytes} (h : Distinguishes digest prev whole) {i : ℕ}
    (hp : i ≤ (blockDigests digest CE_BLOCK_BYTES prev).length) (hw : i ≤ (blockDigests digest CE_BLOCK_BYTES whole).length)
    (heq : (blockDigests digest CE_BLOCK_BYTES prev).take i = (blockDigests digest CE_BLOCK_BYTES whole).take i) :
    prev.take (i * CE_BLOCK_BYTES) = whole.take (i * CE_BLOCK_BYTES) := by
  refine take_eq_of_blocks fun k hk => h k ?_
  have hk' := congrArg (fun digests : List δ => digests[k]?) heq
  simp only [List.getElem?_take_of_lt hk] at hk'
  rw [getElem?_blockDigests digest (by omega), getElem?_blockDigests digest (by omega)] at hk'
  exact Option.some.inj hk'

theorem take_tail_eq {prev whole : Bytes} {off : ℕ} (h : prev.take off = whole.take off) :
    prev.take (off + commonLength (prev.drop off) ((whole.drop off).take (prev.drop off).length))
      = whole.take (off + commonLength (prev.drop off) ((whole.drop off).take (prev.drop off).length)) := by
  have hle := commonLength_le_left (prev.drop off) ((whole.drop off).take (prev.drop off).length)
  refine take_add_eq h ?_
  rw [take_commonLength, List.take_take, min_eq_left hle]

theorem take_sharedPrefixBytes {serialized : List Char} {now : ℤ} {whole : Bytes}
    (h : Distinguishes digest (encode serialized) whole) :
    (encode serialized).take (sharedPrefixBytes digest (keptBody digest serialized now) whole)
      = whole.take (sharedPrefixBytes digest (keptBody digest serialized now) whole) := by
  set prev := encode serialized with hprev
  unfold sharedPrefixBytes keptBody
  simp only [← hprev]
  set fullPrev := (blockDigests digest CE_BLOCK_BYTES prev).length - 1
  set n := min fullPrev (blockDigests digest CE_BLOCK_BYTES whole).length with hn
  set i := commonLength ((blockDigests digest CE_BLOCK_BYTES prev).take n) ((blockDigests digest CE_BLOCK_BYTES whole).take n) with hi
  have hle : i ≤ n := (commonLength_le_left _ _).trans (by simp)
  have hdigests := take_commonLength ((blockDigests digest CE_BLOCK_BYTES prev).take n) ((blockDigests digest CE_BLOCK_BYTES whole).take n)
  rw [← hi, List.take_take, List.take_take, min_eq_left hle] at hdigests
  have hblocks := take_eq_of_digests h (by omega) (by omega) hdigests
  have hmin : ∀ {a : ℕ} (b : ℕ), prev.take a = whole.take a → prev.take (min a b) = whole.take (min a b) := by
    intro a b hab
    rw [min_comm, ← List.take_take, ← List.take_take, hab]
  refine hmin _ ?_
  split
  · rename_i hfull
    rw [hfull] at hblocks
    exact take_tail_eq hblocks
  · exact hblocks

/-- **The prefix that is counted is shared.** -/
theorem sharedPrefixBytes_le {serialized : List Char} {now : ℤ} {whole : Bytes}
    (h : Distinguishes digest (encode serialized) whole) :
    sharedPrefixBytes digest (keptBody digest serialized now) whole ≤ commonLength (encode serialized) whole := by
  refine le_commonLength ?_ (take_sharedPrefixBytes h)
  unfold sharedPrefixBytes keptBody
  simp only
  omega

/-! ### The bodies of a session -/

variable (digest)

structure FinalBody where
  sid : String
  serialized : List Char
  now : ℤ

def lastBody (bodies : List FinalBody) (sid : String) : Option FinalBody := (bodies.filter fun body => body.sid = sid).getLast?

def trackAll (bodies : List FinalBody) : CeBodies δ :=
  run (fun ceBodies body => (trackCacheEpoch digest ceBodies body.sid body.serialized body.now).1) Table.empty bodies

omit [DecidableEq δ] in
theorem mem_storeBody {ceBodies : CeBodies δ} {sid : String} {body : CeBody δ}
    {row : String × CeBody δ}
    (h : row ∈ (storeBody ceBodies sid body).rows) :
    row = (sid, body) ∨ row ∈ ceBodies.rows ∧ row.1 ≠ sid := by
  have hput : row ∈ ((ceBodies.erase sid).put (sid, body)).rows := by
    unfold storeBody at h
    simp only at h
    split at h
    · exact Table.mem_of_mem_keepLast h
    · exact h
  obtain h | ⟨h, -⟩ := Table.mem_put.1 hput
  · exact .inl h
  · exact .inr (Table.mem_erase.1 h)

theorem kept_last (bodies : List FinalBody) :
    ∀ row ∈ (trackAll digest bodies).rows, ∃ body, lastBody bodies row.1 = some body ∧ row.2 = keptBody digest body.serialized body.now := by
  induction bodies using List.reverseRecOn with
  | nil =>
    intro row h
    simp [trackAll, Table.empty] at h
  | append_singleton bodies body ih =>
    intro row h
    rw [trackAll, run_snoc] at h
    obtain rfl | ⟨h, hne⟩ := mem_storeBody h
    · exact ⟨body, by simp [lastBody], rfl⟩
    · obtain ⟨last, hlast, hkept⟩ := ih row h
      refine ⟨last, ?_, hkept⟩
      rw [← hlast, lastBody, lastBody, List.filter_append]
      simp [Ne.symm hne]

theorem peek_spec {bodies : List FinalBody} {sid : String} {serialized : List Char} {now : ℤ}
    {peek : Epoch}
    (h : peekCacheEpoch digest (trackAll digest bodies) sid serialized now = some peek) :
    ∃ body, lastBody bodies sid = some body ∧
      peek.ce = sharedPrefixBytes digest (keptBody digest body.serialized body.now) (encode serialized) := by
  unfold peekCacheEpoch at h
  split at h
  · simp at h
  · split at h
    · simp at h
    · rename_i prev hlookup
      split at h
      · simp at h
      · simp only [Option.some.injEq] at h
        obtain ⟨row, hrow, hprev⟩ := Option.map_eq_some_iff.1 hlookup
        obtain ⟨body, hbody, hkept⟩ := kept_last digest bodies row (Table.get?_mem hrow)
        rw [Table.get?_key hrow] at hbody
        refine ⟨body, hbody, ?_⟩
        rw [← h, ← hkept, hprev]

end Digest

/-! ### The messages of a body -/

def messageStart (fields : JsonFields) (items : JsonItems) (i : ℕ) : ℕ := (encode ('{' :: fields.before "messages" ++ '[' :: items.before i)).length

/-- A stage that was given the cut: it runs behind a positive one, and
leaves the messages up to it. -/
def EpochStage (cut : ℕ) (body body' : Json) : Prop :=
  0 < cut ∧ ∃ fields items items', body = .object fields ∧ fields.get "messages" = some (.array items) ∧
    body' = .object (fields.put "messages" (.array items')) ∧ items'.toList.take (cut + 1) = items.toList.take (cut + 1)

theorem print_put_body {fields : JsonFields} {items : JsonItems} (h : fields.get "messages" = some (.array items)) {items' : JsonItems} {i : ℕ}
    {message : Json} (hi : items'.toList[i]? = some message) :
    ∃ after, (Json.object (fields.put "messages" (.array items'))).print
      = ('{' :: fields.before "messages" ++ '[' :: items'.before i) ++ message.print ++ after := by
  obtain ⟨after, hafter⟩ := JsonFields.print_put h
  obtain ⟨behind, hbehind⟩ := JsonItems.print_eq hi
  exact ⟨behind ++ ']' :: (after ++ ['}']), by simp [Json.print, hafter, hbehind]⟩

theorem print_body {fields : JsonFields} {items : JsonItems} (h : fields.get "messages" = some (.array items)) {i : ℕ} {message : Json}
    (hi : items.toList[i]? = some message) :
    ∃ after, (Json.object fields).print = ('{' :: fields.before "messages" ++ '[' :: items.before i) ++ message.print ++ after := by
  have hbody := print_put_body h hi
  rwa [JsonFields.put_of_get h] at hbody

theorem sum_lt_messageStart (fields : JsonFields) (items : JsonItems) (i : ℕ) :
    ((items.toList.take i).map Json.byteLength).sum < messageStart fields items i := by
  have hsum := JsonItems.sum_byteLength_le items i
  have hsplit : encode ('{' :: fields.before "messages" ++ '[' :: items.before i)
      = encode ('{' :: fields.before "messages" ++ ['[']) ++ encode (items.before i) := by
    rw [← encode_append]
    simp
  have hhead : 0 < (encode ('{' :: fields.before "messages" ++ ['['])).length := by
    rw [length_encode, List.cons_append, List.map_cons, List.sum_cons]
    have : 0 < Char.utf8Size '{' := by decide
    omega
  rw [messageStart, hsplit, List.length_append]
  omega

theorem sum_take_le {f : Json → ℕ} (messages : List Json) {m n : ℕ} (h : m ≤ n) :
    ((messages.take m).map f).sum ≤ ((messages.take n).map f).sum := by
  obtain ⟨k, rfl⟩ := Nat.exists_eq_add_of_le h
  rw [List.take_add, List.map_append, List.sum_append]
  omega

theorem take_put_body {fields : JsonFields} {items items' : JsonItems} (h : fields.get "messages" = some (.array items)) {cut ce : ℕ}
    (hcut : cut < items.toList.length) (hce : ce < ((items.toList.take (cut + 1)).map Json.byteLength).sum)
    (htake : items'.toList.take (cut + 1) = items.toList.take (cut + 1)) :
    (encode (Json.object (fields.put "messages" (.array items'))).print).take ce = (encode (Json.object fields).print).take ce := by
  have hi : items.toList[cut]? = some items.toList[cut] := List.getElem?_eq_getElem hcut
  have hi' : items'.toList[cut]? = some items.toList[cut] := by
    rw [← hi, ← List.getElem?_take_of_lt (Nat.lt_succ_self cut), htake,
      List.getElem?_take_of_lt (Nat.lt_succ_self cut)]
  have hbefore : items'.before cut = items.before cut := by
    refine JsonItems.before_congr ?_
    have := congrArg (List.take cut) htake
    simpa [List.take_take] using this
  obtain ⟨after, hafter⟩ := print_body h hi
  obtain ⟨after', hafter'⟩ := print_put_body h hi'
  have hlt := sum_lt_messageStart fields items cut
  have hsum : ((items.toList.take (cut + 1)).map Json.byteLength).sum
      = ((items.toList.take cut).map Json.byteLength).sum + (encode items.toList[cut].print).length := by
    rw [List.take_succ_eq_append_getElem hcut, List.map_append, List.sum_append]
    simp [Json.byteLength_eq]
  have hlong : ce ≤ (encode (('{' :: fields.before "messages" ++ '[' :: items.before cut) ++ items.toList[cut].print)).length := by
    rw [encode_append, List.length_append]
    unfold messageStart at hlt
    omega
  rw [hafter, hafter', hbefore, encode_append _ after, encode_append _ after', List.take_append_of_le_length hlong,
    List.take_append_of_le_length hlong]

theorem EpochStage.keeps {cut ce : ℕ} {body body' : Json} (hstage : EpochStage cut body body')
    {fields : JsonFields} {items : JsonItems}
    (hbody : body = .object fields) (h : fields.get "messages" = some (.array items)) (hcut : cut < items.toList.length)
    (hce : ce < ((items.toList.take (cut + 1)).map Json.byteLength).sum) :
    (∃ fields' items', body' = .object fields' ∧ fields'.get "messages" = some (.array items') ∧
      items'.toList.take (cut + 1) = items.toList.take (cut + 1)) ∧ (encode body'.print).take ce = (encode body.print).take ce := by
  obtain ⟨-, fields₁, items₁, items', hfields, hitems, rfl, htake⟩ := hstage
  rw [hbody, Json.object.injEq] at hfields
  subst hfields
  rw [h, Option.some.injEq, Json.array.injEq] at hitems
  subst hitems
  refine ⟨⟨_, items', rfl, ?_, htake⟩, ?_⟩
  · rw [JsonFields.get_put, if_pos rfl]
  · rw [hbody]
    exact take_put_body h hcut hce htake

theorem stages_keep {cut ce : ℕ} {body body' : Json}
    (hstages : Relation.ReflTransGen (EpochStage cut) body body') {fields : JsonFields}
    {items : JsonItems} (hbody : body = .object fields) (h : fields.get "messages" = some (.array items)) (hcut : cut < items.toList.length)
    (hce : ce < ((items.toList.take (cut + 1)).map Json.byteLength).sum) :
    (∃ fields' items', body' = .object fields' ∧ fields'.get "messages" = some (.array items') ∧
      items'.toList.take (cut + 1) = items.toList.take (cut + 1)) ∧ (encode body'.print).take ce = (encode body.print).take ce := by
  induction hstages with
  | refl => exact ⟨⟨fields, items, hbody, h, rfl⟩, rfl⟩
  | tail _ hstage ih =>
    obtain ⟨⟨fields₁, items₁, hbody₁, h₁, htake₁⟩, hbytes₁⟩ := ih
    have hcut₁ : cut < items₁.toList.length := by
      have := congrArg List.length htake₁
      simp only [List.length_take] at this
      omega
    obtain ⟨⟨fields₂, items₂, hbody₂, h₂, htake₂⟩, hbytes₂⟩ := hstage.keeps hbody₁ h₁ hcut₁ (by rwa [htake₁])
    exact ⟨⟨fields₂, items₂, hbody₂, h₂, htake₂.trans htake₁⟩, hbytes₂.trans hbytes₁⟩

/-- **The cut is sound.** The prefix that is counted is one that the body shares with the
last one of its session; behind a positive cut every message begins after it, and no
stages change a byte of it. -/
theorem epochCut_sound {δ : Type*} [DecidableEq δ] (digest : Bytes → δ) (bodies : List FinalBody)
    (sid : String) (now : ℤ) (fields : JsonFields)
    (items : JsonItems) (peek : Epoch) (h : fields.get "messages" = some (.array items))
    (hpeek : peekCacheEpoch digest (trackAll digest bodies) sid (Json.object fields).print now = some peek)
    (hdigest : ∀ body ∈ bodies, Distinguishes digest (encode body.serialized) (encode (Json.object fields).print)) :
    let cut := computeEpochCutIndex (.array items) peek
    (∃ last, lastBody bodies sid = some last ∧ peek.ce ≤ commonLength (encode last.serialized) (encode (Json.object fields).print)) ∧
      (0 < cut → cut < items.toList.length ∧ ∀ i, cut < i → i < items.toList.length → peek.ce ≤ messageStart fields items i) ∧
      (∀ body', Relation.ReflTransGen (EpochStage cut) (.object fields) body' →
        (encode body'.print).take peek.ce = (encode (Json.object fields).print).take peek.ce) ∧
      (peek.prevBytes = 0 ∨ peek.prevBytes ≤ 2 * peek.ce ∨ (items.toList.map Json.byteLength).sum ≤ peek.ce → cut = 0) := by
  intro cut
  refine ⟨?_, ?_, ?_, computeEpochCutIndex_eq_zero⟩
  · obtain ⟨last, hlast, hce⟩ := peek_spec digest hpeek
    refine ⟨last, hlast, ?_⟩
    rw [hce]
    exact sharedPrefixBytes_le (hdigest last (List.mem_filter.1 (List.mem_of_getLast? hlast)).1)
  · intro hpos
    obtain ⟨hlt, hsum⟩ := computeEpochCutIndex_spec hpos
    refine ⟨hlt, fun i hi _ => ?_⟩
    have hmono := sum_take_le (f := Json.byteLength) items.toList hi
    have hstart := sum_lt_messageStart fields items i
    exact (hsum.trans_le hmono).le.trans hstart.le
  · intro body' hstages
    rcases Nat.eq_zero_or_pos cut with hzero | hpos
    · induction hstages with
      | refl => rfl
      | tail _ hstage _ => exact absurd hzero hstage.1.ne'
    · obtain ⟨hlt, hsum⟩ := computeEpochCutIndex_spec hpos
      exact (stages_keep hstages rfl h hlt hsum).2

def textItems (texts : List String) : JsonItems := .ofList (texts.map Json.string)

def textBody (texts : List String) : JsonFields := .cons "messages" (.array (textItems texts)) .nil

def rewritten : List FinalBody :=
  [⟨"s", (Json.object (textBody ["read the file a.txt now", "the first answer was a long one", "and the next question"])).print, 0⟩]

theorem rewritten_sound :
    computeEpochCutIndex (.array (textItems ["read the file a.txt now", "a short answer", "done"])) ⟨40, 98, 64⟩ = 1 ∧
      40 ≤ messageStart (textBody ["read the file a.txt now", "a short answer", "done"])
        (textItems ["read the file a.txt now", "a short answer", "done"]) 2 := by
  have hcut : computeEpochCutIndex (.array (textItems ["read the file a.txt now", "a short answer", "done"])) ⟨40, 98, 64⟩ = 1 := by
    decide +kernel
  obtain ⟨-, hstart, -⟩ := epochCut_sound id rewritten "s" 5 (textBody ["read the file a.txt now", "a short answer", "done"])
    (textItems ["read the file a.txt now", "a short answer", "done"]) ⟨40, 98, 64⟩ rfl (by decide +kernel) (by
      intro body _ i hi
      exact hi)
  rw [hcut] at hstart
  exact ⟨hcut, (hstart Nat.one_pos).2 2 (by decide) (by decide)⟩

/-- **A stable epoch has no cut.** The same body again shares all of its bytes with itself; its cut
is 0, and message 1 begins long before their end. -/
theorem stableEpoch_early :
    ∃ peek, peekCacheEpoch id (trackAll id [⟨"s", (Json.object (textBody ["a", "b"])).print, 0⟩]) "s" (Json.object (textBody ["a", "b"])).print 5
        = some peek ∧
      ¬ ∀ i, computeEpochCutIndex (.array (textItems ["a", "b"])) peek < i → i < 2 →
        peek.ce ≤ messageStart (textBody ["a", "b"]) (textItems ["a", "b"]) i := by
  refine ⟨⟨22, 22, 22⟩, by decide +kernel, fun h => ?_⟩
  exact absurd (h 1 (by decide +kernel) (by decide)) (by decide +kernel)

end TokenProxy.Compaction
