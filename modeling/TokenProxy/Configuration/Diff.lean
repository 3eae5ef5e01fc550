import TokenProxy.Lib.CanonicalJson
import TokenProxy.Lib.Substitute

/-!
# Comparing configurations, and restoring a selection

`configDiff` compares two documents field by field and writes down the paths at which they differ;
`restoreConfigurationSelection` takes the values at some of these paths over.
-/

namespace TokenProxy.Configuration

open Lib Lib.JsonText Lib.CanonicalJson

/-! ### Reading a key -/

/-- What a script reads under a key: a document, or what all objects inherit. -/
inductive Value where
  | undefined
  | function
  | prototype
  | doc (d : Doc)

def unitsOf (s : String) : Text := s.toList.map Char.toNat

def protoKey : Text := unitsOf "__proto__"

def functionNames : List Text :=
  ["constructor", "__defineGetter__", "__defineSetter__", "hasOwnProperty", "__lookupGetter__", "__lookupSetter__", "isPrototypeOf",
    "propertyIsEnumerable", "toString", "valueOf", "toLocaleString"].map unitsOf

def inherited (key : Text) : Value :=
  if key = protoKey then .prototype else if functionNames.contains key then .function else .undefined

namespace Value

/-- `value[key]` of a plain object. -/
def read : Value → Text → Value
  | .doc (.object fields), key =>
    match get fields key with
    | some value => .doc value
    | none => inherited key
  | .prototype, key => if key = protoKey then .doc .null else inherited key
  | _, _ => .undefined

/-- `Object.hasOwn(value, key)`, with what is there. -/
def own : Value → Text → Option Doc
  | .doc (.object fields), key => get fields key
  | _, _ => none

def isPlain : Value → Bool
  | .doc (.object _) => true
  | .prototype => true
  | _ => false

def keys : Value → List Text
  | .doc (.object fields) => fields.map fun field => field.1
  | _ => []

/-- `canonicalConfig(value)`; a function has none. -/
def canonicalConfig : Value → Option Text
  | .undefined => some nullWord
  | .function => none
  | .prototype => some [123, 125]
  | .doc d => some d.canonical

def size : Value → ℕ
  | .doc d => d.size
  | _ => 0

end Value

/-! ### The comparison -/

inductive Operation where
  | add
  | remove
  | replace
  deriving DecidableEq

structure Change where
  path : Text
  before : Value
  after : Value
  operation : Operation

/-- `value ?? null` -/
def orNull : Value → Value
  | .undefined => .doc .null
  | value => value

def operationOf : Value → Value → Operation
  | .undefined, _ => .add
  | _, .undefined => .remove
  | _, _ => .replace

/-- `key.replaceAll("~", "~0").replaceAll("/", "~1")` -/
def escapeKey (key : Text) : Text := replaceAll [47] [126, 49] (replaceAll [126] [126, 48] key)

/-- `[...new Set([...Object.keys(before), ...Object.keys(after)])].sort()` -/
def unionKeys (before after : Value) : List Text := (before.keys ++ after.keys).eraseDups.insertionSort fun a b => unitsLE a b

theorem mem_unionKeys {before after : Value} {key : Text} :
    key ∈ unionKeys before after ↔ key ∈ before.keys ∨ key ∈ after.keys := by
  rw [unionKeys, (List.perm_insertionSort _ _).mem_iff, List.mem_eraseDups, List.mem_append]

@[simp] theorem size_inherited (key : Text) : (inherited key).size = 0 := by
  unfold inherited
  split_ifs <;> rfl

theorem size_lt_of_get {fields : List (Text × Doc)} {key : Text} {value : Doc}
    (h : get fields key = some value) :
    value.size < (Doc.object fields).size := size_lt_object (mem_of_get h)

theorem size_read_le (value : Value) (key : Text) : (value.read key).size ≤ value.size := by
  unfold Value.read
  split
  · rename_i fields
    cases h : get fields key with
    | some d => exact (size_lt_of_get h).le
    | none => simp
  · split_ifs
    · exact Nat.le_refl _
    · rw [size_inherited]
      exact Nat.zero_le _
  · exact Nat.zero_le _

theorem size_read_lt {value : Value} {key : Text}
    (h : key ∈ value.keys) : (value.read key).size < value.size := by
  unfold Value.keys at h
  split at h
  · rename_i fields
    rw [Value.read]
    cases hget : get fields key with
    | some d => exact size_lt_of_get hget
    | none =>
      obtain ⟨field, hfield, hkey⟩ := List.mem_map.mp h
      exact absurd hkey (get_eq_none_iff.mp hget field hfield)
  · exact absurd h List.not_mem_nil

theorem size_read {before after : Value} {key : Text} (h : key ∈ unionKeys before after) :
    (before.read key).size + (after.read key).size < before.size + after.size := by
  have hbefore := size_read_le before key
  have hafter := size_read_le after key
  rcases mem_unionKeys.mp h with h | h
  · have hlt := size_read_lt h
    omega
  · have hlt := size_read_lt h
    omega

def configDiff (before after : Value) (path : Text) : List Change :=
  if before.canonicalConfig = after.canonicalConfig then []
  else if before.isPlain ∧ after.isPlain then
    (unionKeys before after).attach.flatMap fun ⟨key, _⟩ => configDiff (before.read key) (after.read key) (path ++ 47 :: escapeKey key)
  else [⟨if path = [] then [47] else path, orNull before, orNull after, operationOf before after⟩]
termination_by before.size + after.size
decreasing_by exact size_read ‹_›

theorem flatMap_attach {α β : Type} (l : List α)
    (f : α → List β) : (l.attach.flatMap fun x => f x.1) = l.flatMap f := by
  conv_rhs => rw [← List.attach_map_subtype_val l, List.flatMap_map]

theorem configDiff_of_plain {before after : Value}
    (h : before.canonicalConfig ≠ after.canonicalConfig)
    (hplain : before.isPlain ∧ after.isPlain) (path : Text) : configDiff before after path =
      (unionKeys before after).flatMap fun key => configDiff (before.read key) (after.read key) (path ++ 47 :: escapeKey key) := by
  rw [configDiff, if_neg h, if_pos hplain]
  exact flatMap_attach (unionKeys before after) fun key => configDiff (before.read key) (after.read key) (path ++ 47 :: escapeKey key)

/-! ### The restoration -/

/-- `part.replaceAll("~1", "/").replaceAll("~0", "~")` -/
def unescapeKey (part : Text) : Text := replaceAll [126, 48] [126] (replaceAll [126, 49] [47] part)

/-- `path.slice(1).split("/")`, unescaped -/
def pathParts (path : Text) : List Text := ((path.drop 1).splitOn 47).map unescapeKey

def refusedParts : List Text := ["__proto__", "constructor", "prototype"].map unitsOf

def putField (fields : List (Text × Doc)) (key : Text) (value : Doc) : List (Text × Doc) :=
  match fields with
  | [] => [(key, value)]
  | field :: fields => if field.1 = key then (key, value) :: fields else field :: putField fields key value

def eraseField (fields : List (Text × Doc)) (key : Text) : List (Text × Doc) := fields.filter fun field => field.1 ≠ key

/-- The walk of one path: the last part is taken over, or deleted where the source has none. The
paths of a comparison lead through objects only. -/
def assignAt : Value → List Text → Doc → Option Doc
  | source, [key], .object fields =>
    match source.own key with
    | some value => some (.object (putField fields key value))
    | none => some (.object (eraseField fields key))
  | source, key :: parts, .object fields =>
    (get fields key).bind fun inner => (assignAt (source.read key) parts inner).map fun inner => .object (putField fields key inner)
  | _, _, _ => none

def restorePath (target : Doc) (document : Doc) (path : Text) : Option Doc :=
  if (pathParts path).any refusedParts.contains then none else assignAt (.doc target) (pathParts path) document

/-- The document that `restoreConfigurationSelection` makes a draft of; none where it refuses. -/
def restoreConfigurationSelection (current target : Doc) (paths : List Text) : Option Doc :=
  let diff := configDiff (.doc current) (.doc target) []
  if paths = [] ∨ 1000 < paths.length ∨ paths.eraseDups.length ≠ paths.length ∨
      paths.any fun path => !(diff.any fun change => change.path == path) then none
  else paths.foldlM (restorePath target) current


/-! ### Differences by place -/

def differences (before after : Value) : List (List Text × Value × Value) :=
  if before.canonicalConfig = after.canonicalConfig then []
  else if before.isPlain ∧ after.isPlain then
    (unionKeys before after).attach.flatMap fun ⟨key, _⟩ =>
      (differences (before.read key) (after.read key)).map fun e => (key :: e.1, e.2)
  else [([], before, after)]
termination_by before.size + after.size
decreasing_by exact size_read ‹_›

def pointer (parts : List Text) : Text := parts.flatMap fun key => 47 :: escapeKey key

def changeAt (path : Text) (e : List Text × Value × Value) : Change :=
  ⟨if path ++ pointer e.1 = [] then [47] else path ++ pointer e.1, orNull e.2.1, orNull e.2.2, operationOf e.2.1 e.2.2⟩

theorem differences_of_eq {before after : Value}
    (h : before.canonicalConfig = after.canonicalConfig) : differences before after = [] := by
  rw [differences, if_pos h]

theorem differences_of_plain {before after : Value}
    (h : before.canonicalConfig ≠ after.canonicalConfig)
    (hplain : before.isPlain ∧ after.isPlain) : differences before after =
      (unionKeys before after).flatMap fun key => (differences (before.read key) (after.read key)).map fun e => (key :: e.1, e.2) := by
  rw [differences, if_neg h, if_pos hplain]
  exact flatMap_attach (unionKeys before after) fun key =>
    (differences (before.read key) (after.read key)).map fun e => (key :: e.1, e.2)

theorem differences_of_leaf {before after : Value}
    (h : before.canonicalConfig ≠ after.canonicalConfig)
    (hplain : ¬ (before.isPlain ∧ after.isPlain)) :
    differences before after = [([], before, after)] := by
  rw [differences, if_neg h, if_neg hplain]

theorem pointer_cons (key : Text) (parts : List Text) : pointer (key :: parts) = 47 :: escapeKey key ++ pointer parts := rfl

theorem changeAt_cons (path key : Text) (e : List Text × Value × Value) :
    changeAt path (key :: e.1, e.2) = changeAt (path ++ 47 :: escapeKey key) e := by
  simp [changeAt, pointer_cons]

theorem configDiff_eq (before after : Value) (path : Text) :
    configDiff before after path = (differences before after).map (changeAt path) := by
  induction hn : before.size + after.size using Nat.strong_induction_on generalizing before after path with
  | h n ih =>
    by_cases hsame : before.canonicalConfig = after.canonicalConfig
    · rw [configDiff, if_pos hsame, differences_of_eq hsame, List.map_nil]
    by_cases hplain : before.isPlain ∧ after.isPlain
    · rw [configDiff_of_plain hsame hplain, differences_of_plain hsame hplain, List.map_flatMap]
      apply List.flatMap_congr
      intro key hkey
      rw [List.map_map, ih _ (hn ▸ size_read hkey) _ _ _ rfl]
      exact List.map_congr_left fun e _ => (changeAt_cons path key e).symm
    · rw [configDiff, if_neg hsame, if_neg hplain, differences_of_leaf hsame hplain, List.map_singleton, changeAt]
      simp only [pointer, List.flatMap_nil, List.append_nil]

/-! ### Paths -/

theorem replaceAll_single (c : ℕ) (replacement text : Text) :
    replaceAll [c] replacement text = text.flatMap fun d => if d = c then replacement else [d] := by
  induction text with
  | nil => rfl
  | cons d text ih =>
    by_cases hd : d = c
    · rw [List.flatMap_cons, if_pos hd, ← ih, hd]
      exact replaceAll_word (List.cons_ne_nil c []) replacement text
    · rw [List.flatMap_cons, if_neg hd, ← ih]
      apply replaceAll_sign
      rw [List.cons_prefix_cons]
      exact fun h => hd h.1.symm

/-- A key with its tildes escaped, and one with its slashes escaped too. -/
def tildes (c : ℕ) : Text := if c = 126 then [126, 48] else [c]

def escapes (c : ℕ) : Text := if c = 126 then [126, 48] else if c = 47 then [126, 49] else [c]

theorem escapeKey_eq (key : Text) : escapeKey key = key.flatMap escapes := by
  rw [escapeKey, replaceAll_single, replaceAll_single, List.flatMap_assoc]
  apply List.flatMap_congr
  intro c _
  unfold escapes
  split_ifs with h h' <;> simp_all

theorem unescape_slashes (key : Text) :
    replaceAll [126, 49] [47] (key.flatMap escapes) = key.flatMap tildes := by
  induction key with
  | nil => rfl
  | cons c key ih =>
    rw [List.flatMap_cons, List.flatMap_cons, escapes, tildes]
    split_ifs with htilde hslash
    · rw [List.cons_append, replaceAll_sign (by simp), List.cons_append, replaceAll_sign (by simp), List.nil_append, ih]
      rfl
    · rw [replaceAll_word (List.cons_ne_nil _ _), ih, hslash]
    · have hc : ¬ [126, 49] <+: c :: key.flatMap escapes := by
        rw [List.cons_prefix_cons]
        exact fun h => htilde h.1.symm
      rw [List.singleton_append, replaceAll_sign hc, ih]
      rfl

theorem unescape_tildes (key : Text) : replaceAll [126, 48] [126] (key.flatMap tildes) = key := by
  induction key with
  | nil => rfl
  | cons c key ih =>
    rw [List.flatMap_cons, tildes]
    split_ifs with htilde
    · rw [replaceAll_word (List.cons_ne_nil _ _), ih, htilde]
      rfl
    · have hc : ¬ [126, 48] <+: c :: key.flatMap tildes := by
        rw [List.cons_prefix_cons]
        exact fun h => htilde h.1.symm
      rw [List.singleton_append, replaceAll_sign hc, ih]

theorem unescapeKey_escapeKey (key : Text) : unescapeKey (escapeKey key) = key := by
  rw [unescapeKey, escapeKey_eq, unescape_slashes, unescape_tildes]

theorem slash_notMem_escapeKey (key : Text) : 47 ∉ escapeKey key := by
  rw [escapeKey_eq, List.mem_flatMap]
  rintro ⟨c, -, hc⟩
  unfold escapes at hc
  split_ifs at hc with h h' <;> simp_all

theorem pathParts_pointer {parts : List Text}
    (h : parts ≠ []) : pathParts (pointer parts) = parts := by
  obtain ⟨key, parts, rfl⟩ := List.exists_cons_of_ne_nil h
  rw [pathParts, pointer_cons, List.cons_append, List.drop_one, List.tail_cons]
  clear h
  induction parts generalizing key with
  | nil =>
    rw [pointer, List.flatMap_nil, List.append_nil, List.splitOn_eq_singleton (slash_notMem_escapeKey key), List.map_singleton,
      unescapeKey_escapeKey]
  | cons next parts ih =>
    rw [pointer_cons, List.cons_append, List.splitOn_append_cons_self_of_not_mem (slash_notMem_escapeKey key), List.map_cons,
      unescapeKey_escapeKey, ih next]

/-! ### Lists without repetitions -/

theorem flatMap_filter_of_nil {α β : Type} {l : List α} {p : α → Bool} {q : α → List β}
    (h : ∀ a ∈ l, p a = false → q a = []) :
    (l.filter p).flatMap q = l.flatMap q := by
  induction l with
  | nil => rfl
  | cons a l ih =>
    obtain ⟨ha, hl⟩ := List.forall_mem_cons.mp h
    rw [List.filter_cons, List.flatMap_cons]
    split_ifs with hp
    · rw [List.flatMap_cons, ih hl]
    · rw [ih hl, ha (by simpa using hp), List.nil_append]

section EraseDups

variable {α : Type} [BEq α] [LawfulBEq α]

omit [LawfulBEq α] in
theorem eraseDups_sublist (l : List α) : l.eraseDups.Sublist l := by
  induction hn : l.length using Nat.strong_induction_on generalizing l with
  | h n ih =>
    cases l with
    | nil => exact List.Sublist.refl _
    | cons a l =>
      rw [List.eraseDups_cons]
      have hle := List.length_filter_le (fun b => !b == a) l
      have hrest := ih (l.filter fun b => !b == a).length (by rw [← hn, List.length_cons]; omega) _ rfl
      exact (hrest.trans List.filter_sublist).cons_cons a

theorem nodup_eraseDups (l : List α) : l.eraseDups.Nodup := by
  induction hn : l.length using Nat.strong_induction_on generalizing l with
  | h n ih =>
    cases l with
    | nil => exact List.nodup_nil
    | cons a l =>
      rw [List.eraseDups_cons, List.nodup_cons]
      have hle := List.length_filter_le (fun b => !b == a) l
      refine ⟨?_, ih (l.filter fun b => !b == a).length (by rw [← hn, List.length_cons]; omega) _ rfl⟩
      rw [List.mem_eraseDups, List.mem_filter]
      simp

theorem length_eraseDups_eq_iff {l : List α} : l.eraseDups.length = l.length ↔ l.Nodup := by
  constructor
  · intro h
    rw [← (eraseDups_sublist l).eq_of_length h]
    exact nodup_eraseDups l
  · intro h
    have hperm : l.eraseDups.Perm l := by
      rw [List.perm_ext_iff_of_nodup (nodup_eraseDups l) h]
      exact fun a => List.mem_eraseDups
    exact hperm.length_eq

end EraseDups

/-! ### Objects, key by key -/

section Objects

variable {f g : List (Text × Doc)}

theorem read_object (fields : List (Text × Doc)) (key : Text) :
    (Value.doc (.object fields)).read key = ((get fields key).map Value.doc).getD (inherited key) := by
  rw [Value.read]
  cases get fields key <;> rfl

theorem mem_keys_object {fields : List (Text × Doc)}
    {key : Text} : key ∈ (Value.doc (.object fields)).keys ↔ (get fields key).isSome := by
  rw [Value.keys, List.mem_map, ← not_iff_not, Option.not_isSome_iff_eq_none, get_eq_none_iff]
  push Not
  rfl

def keysOf (f g : List (Text × Doc)) : List Text := unionKeys (.doc (.object f)) (.doc (.object g))

theorem mem_keysOf {key : Text} : key ∈ keysOf f g ↔ (get f key).isSome ∨ (get g key).isSome := by
  rw [keysOf, mem_unionKeys, mem_keys_object, mem_keys_object]

theorem canonicalConfig_read_eq {key : Text} (h : (get f key).map Doc.canonical = (get g key).map Doc.canonical) :
    ((Value.doc (.object f)).read key).canonicalConfig = ((Value.doc (.object g)).read key).canonicalConfig := by
  rw [read_object, read_object]
  cases hf : get f key with
  | none =>
    rw [hf] at h
    cases hg : get g key with
    | none => rfl
    | some w =>
      rw [hg] at h
      cases h
  | some v =>
    rw [hf] at h
    cases hg : get g key with
    | none =>
      rw [hg] at h
      cases h
    | some w =>
      rw [hg] at h
      exact h

def under (f g : List (Text × Doc)) (key : Text) : List (List Text × Value × Value) :=
  (differences ((Value.doc (.object f)).read key) ((Value.doc (.object g)).read key)).map fun e => (key :: e.1, e.2)

theorem differences_object (hf : (Doc.object f).Proper) (hg : (Doc.object g).Proper) :
    differences (.doc (.object f)) (.doc (.object g)) = (keysOf f g).flatMap (under f g) := by
  by_cases hsame : (Value.doc (.object f)).canonicalConfig = (Value.doc (.object g)).canonicalConfig
  · rw [differences_of_eq hsame, eq_comm, List.flatMap_eq_nil_iff]
    intro key _
    have hkeys := (canonical_object_eq_iff hf hg).mp (Option.some.inj hsame)
    rw [under, differences_of_eq (canonicalConfig_read_eq (hkeys key)), List.map_nil]
  · exact differences_of_plain hsame ⟨rfl, rfl⟩

theorem keysOf_pairwise (f g : List (Text × Doc)) :
    (keysOf f g).Pairwise fun a b => unitsLE a b = true := by
  have htotal : Std.Total fun a b : Text => unitsLE a b = true := ⟨unitsLE_total⟩
  have htrans : IsTrans Text fun a b => unitsLE a b = true := ⟨fun _ _ _ => unitsLE_trans⟩
  exact List.pairwise_insertionSort _ _

theorem keysOf_nodup (f g : List (Text × Doc)) : (keysOf f g).Nodup :=
  (List.perm_insertionSort _ _).nodup_iff.mpr (nodup_eraseDups _)

theorem keysOf_eq_filter {f' g' : List (Text × Doc)} (h : ∀ key ∈ keysOf f' g', key ∈ keysOf f g) :
    keysOf f' g' = (keysOf f g).filter fun key => key ∈ keysOf f' g' := by
  refine List.Perm.eq_of_pairwise (fun a b _ _ hab hba => unitsLE_antisymm hab hba) (keysOf_pairwise f' g')
    ((keysOf_pairwise f g).filter _) ?_
  rw [List.perm_ext_iff_of_nodup (keysOf_nodup f' g') ((keysOf_nodup f g).filter _)]
  intro key
  rw [List.mem_filter, decide_eq_true_eq]
  exact ⟨fun hkey => ⟨h key hkey, hkey⟩, fun hkey => hkey.2⟩

theorem flatMap_keysOf {β : Type} {f' g' : List (Text × Doc)}
    (h : ∀ key ∈ keysOf f' g', key ∈ keysOf f g) {p q : Text → List β}
    (hsame : ∀ key ∈ keysOf f' g', p key = q key) (hnone : ∀ key ∈ keysOf f g, key ∉ keysOf f' g' → q key = []) :
    (keysOf f' g').flatMap p = (keysOf f g).flatMap q := by
  rw [List.flatMap_congr hsame, keysOf_eq_filter h]
  exact flatMap_filter_of_nil fun key hkey hnot => hnone key hkey (of_decide_eq_false hnot)

end Objects

/-! ### Told apart -/

/-- A field is told apart from a missing one: null is not, unless all objects inherit something
under the key, and `__proto__` never is. -/
def Stands (key : Text) (value : Doc) : Prop := key ≠ protoKey ∧ (value.kind ≠ 0 ∨ functionNames.contains key = true)

mutual

/-- Wherever both documents hold an object, a field of one that the other has not is
told apart from a missing one. -/
def Told : Doc → Doc → Prop
  | .object f, .object g => ToldFields f g ∧ ∀ field ∈ g, get f field.1 = none → Stands field.1 field.2
  | _, _ => True

def ToldFields : List (Text × Doc) → List (Text × Doc) → Prop
  | [], _ => True
  | (key, value) :: fields, g =>
    (match get g key with
      | some value' => Told value value'
      | none => Stands key value) ∧ ToldFields fields g

end

def ToldAt (key : Text) : Option Doc → Option Doc → Prop
  | some value, some value' => Told value value'
  | some value, none => Stands key value
  | none, some value' => Stands key value'
  | none, none => True

section Telling

variable {f g : List (Text × Doc)}

theorem toldFields_iff : ToldFields f g ↔ ∀ field ∈ f, ToldAt field.1 (some field.2) (get g field.1) := by
  induction f with
  | nil => simp [ToldFields]
  | cons field f ih =>
    obtain ⟨key, value⟩ := field
    rw [ToldFields, ih, List.forall_mem_cons]
    apply and_congr_left'
    simp only
    cases get g key <;> rfl

theorem told_object_iff (hf : (Doc.object f).Proper) (hg : (Doc.object g).Proper) :
    Told (.object f) (.object g) ↔ ∀ key, ToldAt key (get f key) (get g key) := by
  rw [Told, toldFields_iff]
  constructor
  · rintro ⟨hleft, hright⟩ key
    cases hfkey : get f key with
    | some value => exact hleft (key, value) (mem_of_get hfkey)
    | none =>
      cases hgkey : get g key with
      | some value' => exact hright (key, value') (mem_of_get hgkey) hfkey
      | none => exact trivial
  · intro h
    constructor
    · rintro ⟨key, value⟩ hmem
      have hkey := h key
      rwa [(get_eq_some_iff hf.1).mpr hmem] at hkey
    · rintro ⟨key, value'⟩ hmem hnone
      have hkey := h key
      rwa [hnone, (get_eq_some_iff hg.1).mpr hmem] at hkey

theorem kind_of_canonical {d : Doc} (h : d.Proper)
    (hnull : d.canonical = nullWord) : d.kind = 0 := by
  obtain ⟨c, rest, hc, hkind, -⟩ := canonical_lead h
  rw [hnull, nullWord, List.cons.injEq] at hc
  rw [← hkind, ← hc.1]
  rfl

theorem stands_iff {key : Text} (hkey : key ≠ protoKey) {value : Doc} (h : value.Proper) :
    Stands key value ↔ (Value.doc value).canonicalConfig ≠ (inherited key).canonicalConfig := by
  rw [Stands, inherited, if_neg hkey]
  split_ifs with hfunction
  · constructor
    · intro _ heq
      cases heq
    · exact fun _ => ⟨hkey, .inr hfunction⟩
  · constructor
    · rintro ⟨-, hkind | hlisted⟩ hnull
      · exact hkind (kind_of_canonical h (Option.some.inj hnull))
      · exact hfunction hlisted
    · intro hnot
      refine ⟨hkey, .inl fun hkind => hnot ?_⟩
      cases value <;> simp [Doc.kind] at hkind
      rfl

theorem isPlain_inherited {key : Text} (hkey : key ≠ protoKey) :
    (inherited key).isPlain = false := by
  rw [inherited, if_neg hkey]
  split_ifs <;> rfl

theorem differences_missing {key : Text} {value : Doc} (h : value.Proper)
    (hstands : Stands key value) :
    differences (.doc value) (inherited key) = [([], .doc value, inherited key)] ∧
      differences (inherited key) (.doc value) = [([], inherited key, .doc value)] := by
  have hplain := isPlain_inherited hstands.1
  have hne := (stands_iff hstands.1 h).mp hstands
  constructor
  · apply differences_of_leaf hne
    rw [hplain]
    exact fun h => Bool.false_ne_true h.2
  · apply differences_of_leaf hne.symm
    rw [hplain]
    exact fun h => Bool.false_ne_true h.1

theorem told_of_canonical_eq {a b : Doc} (ha : a.Proper) (hb : b.Proper)
    (h : a.canonical = b.canonical) : Told a b := by
  induction hn : a.size using Nat.strong_induction_on generalizing a b with
  | h n ih =>
    cases a with
    | object f =>
      cases b with
      | object g =>
        rw [told_object_iff ha hb]
        intro key
        have hkey := (canonical_object_eq_iff ha hb).mp h key
        cases hfkey : get f key with
        | none =>
          cases hgkey : get g key with
          | none => exact trivial
          | some value' =>
            rw [hfkey, hgkey] at hkey
            cases hkey
        | some value =>
          cases hgkey : get g key with
          | none =>
            rw [hfkey, hgkey] at hkey
            cases hkey
          | some value' =>
            rw [hfkey, hgkey] at hkey
            exact ih _ (hn ▸ size_lt_of_get hfkey) (properFields_iff.mp ha.2 _ (mem_of_get hfkey))
              (properFields_iff.mp hb.2 _ (mem_of_get hgkey)) (Option.some.inj hkey) rfl
      | _ => exact trivial
    | _ => exact trivial

theorem canonical_eq_of_told {a b : Doc} (ha : a.Proper) (hb : b.Proper) (htold : Told a b)
    (h : differences (.doc a) (.doc b) = []) :
    a.canonical = b.canonical := by
  induction hn : a.size using Nat.strong_induction_on generalizing a b with
  | h n ih =>
    by_contra hne
    have hconfig : (Value.doc a).canonicalConfig ≠ (Value.doc b).canonicalConfig := fun heq => hne (Option.some.inj heq)
    by_cases hplain : (Value.doc a).isPlain ∧ (Value.doc b).isPlain
    · cases a with
      | object f =>
        cases b with
        | object g =>
          rw [differences_object ha hb, List.flatMap_eq_nil_iff] at h
          rw [told_object_iff ha hb] at htold
          apply hne
          rw [canonical_object_eq_iff ha hb]
          intro key
          have hkey := htold key
          -- What stands under the key differs nowhere.
          have hunder (hmem : (get f key).isSome ∨ (get g key).isSome) :
              differences ((Value.doc (.object f)).read key) ((Value.doc (.object g)).read key) = [] := by
            have hnil := h key (mem_keysOf.mpr hmem)
            rwa [under, List.map_eq_nil_iff] at hnil
          rw [read_object, read_object] at hunder
          cases hfkey : get f key with
          | none =>
            cases hgkey : get g key with
            | none => rfl
            | some value' =>
              rw [hfkey, hgkey] at hkey hunder
              have hnil := hunder (.inr rfl)
              rw [Option.map_none, Option.getD_none, Option.map_some, Option.getD_some,
                (differences_missing (properFields_iff.mp hb.2 _ (mem_of_get hgkey)) hkey).2] at hnil
              cases hnil
          | some value =>
            cases hgkey : get g key with
            | none =>
              rw [hfkey, hgkey] at hkey hunder
              have hnil := hunder (.inl rfl)
              rw [Option.map_none, Option.getD_none, Option.map_some, Option.getD_some,
                (differences_missing (properFields_iff.mp ha.2 _ (mem_of_get hfkey)) hkey).1] at hnil
              cases hnil
            | some value' =>
              rw [hfkey, hgkey] at hkey hunder
              have hsame := ih _ (hn ▸ size_lt_of_get hfkey) (properFields_iff.mp ha.2 _ (mem_of_get hfkey))
                (properFields_iff.mp hb.2 _ (mem_of_get hgkey)) hkey (hunder (.inl rfl)) rfl
              exact congrArg some hsame
        | _ => exact absurd hplain.2 Bool.false_ne_true
      | _ => exact absurd hplain.1 Bool.false_ne_true
    · rw [differences_of_leaf hconfig hplain] at h
      cases h

/-! ### One path -/

def Replaces (f f' : List (Text × Doc)) (key : Text) (value : Option Doc) : Prop :=
  ∀ key', get f' key' = if key' = key then value else get f key'

theorem get_cons (field : Text × Doc) (fields : List (Text × Doc)) (key : Text) :
    get (field :: fields) key = if field.1 = key then some field.2 else get fields key := by
  unfold CanonicalJson.get
  by_cases h : field.1 = key
  · rw [List.find?_cons_of_pos (by simpa using h), if_pos h]
    rfl
  · rw [List.find?_cons_of_neg (by simpa using h), if_neg h]

theorem get_putField (fields : List (Text × Doc)) (key : Text)
    (value : Doc) : Replaces fields (putField fields key value) key (some value) := by
  intro key'
  induction fields with
  | nil =>
    rw [putField, get_cons]
    by_cases h : key = key'
    · rw [if_pos h, if_pos h.symm]
    · rw [if_neg h, if_neg (Ne.symm h)]
  | cons field fields ih =>
    rw [putField]
    split_ifs with hkey h h
    · rw [get_cons, if_pos h.symm]
    · rw [get_cons, get_cons, if_neg (Ne.symm h), if_neg (by rw [hkey]; exact Ne.symm h)]
    · rw [get_cons, ih, if_pos h, if_neg (by rw [h]; exact hkey)]
    · rw [get_cons, get_cons, ih, if_neg h]

theorem get_eraseField (fields : List (Text × Doc))
    (key : Text) : Replaces fields (eraseField fields key) key none := by
  intro key'
  induction fields with
  | nil => simp [eraseField, CanonicalJson.get]
  | cons field fields ih =>
    rw [eraseField, List.filter_cons]
    by_cases hkey : field.1 = key
    · rw [if_neg (by simpa using hkey), ← eraseField, ih, get_cons, hkey]
      by_cases h : key' = key
      · rw [if_pos h, if_pos h]
      · rw [if_neg h, if_neg h, if_neg (Ne.symm h)]
    · rw [if_pos (by simpa using hkey), ← eraseField, get_cons, get_cons, ih]
      by_cases h : key' = key
      · rw [if_pos h, if_pos h, if_neg (by rw [h]; exact hkey)]
      · rw [if_neg h, if_neg h]

theorem mem_keys_putField {fields : List (Text × Doc)} {key key' : Text} {value : Doc}
    (h : key' ∈ (putField fields key value).map fun field => field.1) :
    key' = key ∨ key' ∈ fields.map fun field => field.1 := by
  induction fields with
  | nil => exact .inl (List.mem_singleton.mp h)
  | cons field fields ih =>
    rw [putField] at h
    split_ifs at h with hkey
    · rcases List.mem_cons.mp h with h | h
      · exact .inl h
      · exact .inr (List.mem_cons_of_mem _ h)
    · rcases List.mem_cons.mp h with h | h
      · exact .inr (List.mem_cons.mpr (.inl h))
      · rcases ih h with h | h
        · exact .inl h
        · exact .inr (List.mem_cons_of_mem _ h)

theorem putField_proper {fields : List (Text × Doc)} (h : (Doc.object fields).Proper) (key : Text)
    {value : Doc} (hvalue : value.Proper) :
    (Doc.object (putField fields key value)).Proper := by
  induction fields with
  | nil => exact ⟨List.nodup_singleton _, hvalue, trivial⟩
  | cons field fields ih =>
    obtain ⟨hkeys, hfield, hfields⟩ := h
    rw [List.map_cons, List.nodup_cons] at hkeys
    rw [putField]
    split_ifs with hkey
    · refine ⟨?_, hvalue, hfields⟩
      rw [List.map_cons, List.nodup_cons, ← hkey]
      exact hkeys
    · obtain ⟨hkeys', hfields'⟩ := ih ⟨hkeys.2, hfields⟩
      refine ⟨?_, hfield, hfields'⟩
      rw [List.map_cons, List.nodup_cons]
      refine ⟨fun hmem => ?_, hkeys'⟩
      rcases mem_keys_putField hmem with h | h
      · exact hkey h
      · exact hkeys.1 h

theorem eraseField_proper {fields : List (Text × Doc)} (h : (Doc.object fields).Proper)
    (key : Text) :
    (Doc.object (eraseField fields key)).Proper := by
  refine ⟨h.1.sublist (List.filter_sublist.map _), properFields_iff.mpr fun field hfield => ?_⟩
  exact properFields_iff.mp h.2 field (List.mem_of_mem_filter hfield)

theorem under_of_replaces {f' : List (Text × Doc)} {key key' : Text} {value : Option Doc}
    (h : Replaces f f' key value) (hne : key' ≠ key) :
    under f' g key' = under f g key' := by
  rw [under, under, read_object, read_object, h key', if_neg hne, read_object]

theorem told_of_replaces {f' : List (Text × Doc)} {key : Text} {value : Option Doc}
    (hf : (Doc.object f).Proper)
    (hf' : (Doc.object f').Proper) (hg : (Doc.object g).Proper) (h : Replaces f f' key value)
    (hkey : ToldAt key value (get g key) ↔ ToldAt key (get f key) (get g key)) :
    Told (.object f') (.object g) ↔ Told (.object f) (.object g) := by
  rw [told_object_iff hf' hg, told_object_iff hf hg]
  apply forall_congr'
  intro key'
  rw [h key']
  by_cases hkey' : key' = key
  · rw [if_pos hkey', hkey']
    exact hkey
  · rw [if_neg hkey']

theorem differences_of_replaces {f' : List (Text × Doc)} {key : Text} {value : Option Doc}
    {parts : List Text}
    (hf : (Doc.object f).Proper) (hf' : (Doc.object f').Proper) (hg : (Doc.object g).Proper) (h : Replaces f f' key value)
    (hmem : key ∈ keysOf f g) (hunder : under f' g key = (under f g key).filter fun e => e.1 ≠ key :: parts) :
    differences (.doc (.object f')) (.doc (.object g)) =
      (differences (.doc (.object f)) (.doc (.object g))).filter fun e => e.1 ≠ key :: parts := by
  have hall (key' : Text) : under f' g key' = (under f g key').filter fun e => e.1 ≠ key :: parts := by
    by_cases hkey : key' = key
    · rw [hkey, hunder]
    · rw [under_of_replaces h hkey, eq_comm, List.filter_eq_self]
      intro e he
      obtain ⟨e', -, rfl⟩ := List.mem_map.mp he
      simp [hkey]
  rw [differences_object hf' hg, differences_object hf hg, List.filter_flatMap]
  have hkeys (key' : Text) (hkey' : key' ≠ key) : key' ∈ keysOf f' g ↔ key' ∈ keysOf f g := by
    rw [mem_keysOf, mem_keysOf, h key', if_neg hkey']
  apply flatMap_keysOf
  · intro key' hkey'
    by_cases heq : key' = key
    · rw [heq]
      exact hmem
    · exact (hkeys key' heq).mp hkey'
  · exact fun key' _ => hall key'
  · intro key' hkey' hnot
    by_cases heq : key' = key
    · rw [← hall, under]
      rw [mem_keysOf, not_or, Option.not_isSome_iff_eq_none, Option.not_isSome_iff_eq_none] at hnot
      rw [read_object, read_object, hnot.1, hnot.2, differences_of_eq rfl, List.map_nil]
    · exact absurd ((hkeys key' heq).mpr hkey') hnot

theorem mem_differences_object (hf : (Doc.object f).Proper) (hg : (Doc.object g).Proper)
    {e : List Text × Value × Value}
    (he : e ∈ differences (.doc (.object f)) (.doc (.object g))) :
    ∃ key ∈ keysOf f g, e ∈ under f g key := by
  rw [differences_object hf hg] at he
  exact List.mem_flatMap.mp he

theorem leaf_of_mem {x y : Value} {e : List Text × Value × Value} (he : e ∈ differences x y)
    (hnil : e.1 = []) :
    x.canonicalConfig ≠ y.canonicalConfig ∧ ¬ (x.isPlain ∧ y.isPlain) := by
  have hne : x.canonicalConfig ≠ y.canonicalConfig := by
    intro heq
    rw [differences_of_eq heq] at he
    exact List.not_mem_nil he
  refine ⟨hne, fun hplain => ?_⟩
  rw [differences_of_plain hne hplain] at he
  obtain ⟨key, -, hmem⟩ := List.mem_flatMap.mp he
  obtain ⟨e', -, rfl⟩ := List.mem_map.mp hmem
  exact List.cons_ne_nil _ _ hnil

theorem plain_of_mem {x y : Value} {e : List Text × Value × Value} (he : e ∈ differences x y)
    (hne : e.1 ≠ []) :
    x.isPlain ∧ y.isPlain := by
  by_contra hplain
  by_cases heq : x.canonicalConfig = y.canonicalConfig
  · rw [differences_of_eq heq] at he
    exact List.not_mem_nil he
  · rw [differences_of_leaf heq hplain] at he
    obtain rfl := List.mem_singleton.mp he
    exact hne rfl

theorem told_of_not_plain {v w : Doc} (h : ¬ ((Value.doc v).isPlain ∧ (Value.doc w).isPlain)) :
    Told v w := by
  cases v with
  | object f =>
    cases w with
    | object g => exact absurd ⟨rfl, rfl⟩ h
    | _ => exact trivial
  | _ => exact trivial

theorem get_proper {fields : List (Text × Doc)} (h : (Doc.object fields).Proper) {key : Text}
    {value : Doc} (hget : CanonicalJson.get fields key = some value) : value.Proper :=
  properFields_iff.mp h.2 _ (mem_of_get hget)

theorem toldAt_of_leaf (hf : (Doc.object f).Proper) (hg : (Doc.object g).Proper) {key : Text}
    (hkey : key ≠ protoKey)
    (hne : ((Value.doc (.object f)).read key).canonicalConfig ≠ ((Value.doc (.object g)).read key).canonicalConfig)
    (hplain : ¬ (((Value.doc (.object f)).read key).isPlain ∧ ((Value.doc (.object g)).read key).isPlain)) :
    ToldAt key (CanonicalJson.get f key) (CanonicalJson.get g key) := by
  rw [read_object, read_object] at hne hplain
  cases hfkey : CanonicalJson.get f key with
  | none =>
    rw [hfkey] at hne
    cases hgkey : CanonicalJson.get g key with
    | none => exact trivial
    | some w =>
      rw [hgkey] at hne
      exact (stands_iff hkey (get_proper hg hgkey)).mpr (Ne.symm hne)
  | some v =>
    rw [hfkey] at hne hplain
    cases hgkey : CanonicalJson.get g key with
    | none =>
      rw [hgkey] at hne
      exact (stands_iff hkey (get_proper hf hfkey)).mpr hne
    | some w =>
      rw [hgkey] at hplain
      exact told_of_not_plain hplain

theorem toldAt_self (hg : (Doc.object g).Proper)
    (key : Text) : ToldAt key (CanonicalJson.get g key) (CanonicalJson.get g key) := by
  cases hgkey : CanonicalJson.get g key with
  | none => exact trivial
  | some w => exact told_of_canonical_eq (get_proper hg hgkey) (get_proper hg hgkey) rfl

theorem get_of_plain {key : Text} (hkey : key ≠ protoKey)
    (hplain : ((Value.doc (.object f)).read key).isPlain) :
    ∃ fields, CanonicalJson.get f key = some (.object fields) := by
  rw [read_object] at hplain
  cases hfkey : CanonicalJson.get f key with
  | none =>
    rw [hfkey, Option.map_none, Option.getD_none, isPlain_inherited hkey] at hplain
    exact absurd hplain Bool.false_ne_true
  | some v =>
    rw [hfkey] at hplain
    cases v with
    | object fields => exact ⟨fields, rfl⟩
    | _ => exact absurd hplain Bool.false_ne_true

/-- **One path is restored**: it is no difference any more, and all others are what they were. -/
theorem assignAt_spec {parts : List Text} (hsafe : protoKey ∉ parts) (hf : (Doc.object f).Proper)
    (hg : (Doc.object g).Proper)
    (hmem : ∃ e ∈ differences (.doc (.object f)) (.doc (.object g)), e.1 = parts) :
    ∃ f', assignAt (.doc (.object g)) parts (.object f) = some (.object f') ∧ (Doc.object f').Proper ∧
      differences (.doc (.object f')) (.doc (.object g)) =
        (differences (.doc (.object f)) (.doc (.object g))).filter (fun e => e.1 ≠ parts) ∧
      (Told (.object f') (.object g) ↔ Told (.object f) (.object g)) := by
  induction parts generalizing f g with
  | nil =>
    obtain ⟨e, he, hnil⟩ := hmem
    obtain ⟨key, -, hunder⟩ := mem_differences_object hf hg he
    obtain ⟨e', -, rfl⟩ := List.mem_map.mp hunder
    exact absurd hnil (List.cons_ne_nil _ _)
  | cons key parts ih =>
    rw [List.mem_cons, not_or] at hsafe
    have hkey : key ≠ protoKey := Ne.symm hsafe.1
    obtain ⟨e, he, hparts⟩ := hmem
    obtain ⟨key', hkeys, hunder⟩ := mem_differences_object hf hg he
    obtain ⟨e', he', rfl⟩ := List.mem_map.mp hunder
    obtain ⟨rfl, hrest⟩ := List.cons.inj hparts
    cases parts with
    | nil =>
      obtain ⟨hne, hplain⟩ := leaf_of_mem he' hrest
      obtain ⟨f', hassign, hproper, hreplaces⟩ : ∃ f', assignAt (.doc (.object g)) [key'] (.object f) = some (.object f') ∧
          (Doc.object f').Proper ∧ Replaces f f' key' (CanonicalJson.get g key') := by
        rw [assignAt, Value.own]
        cases hgkey : CanonicalJson.get g key' with
        | none => exact ⟨_, rfl, eraseField_proper hf key', get_eraseField f key'⟩
        | some w => exact ⟨_, rfl, putField_proper hf key' (get_proper hg hgkey), get_putField f key' w⟩
      have hread : (Value.doc (.object f')).read key' = (Value.doc (.object g)).read key' := by
        rw [read_object, read_object, hreplaces key', if_pos rfl]
      have hunder' : under f' g key' = (under f g key').filter fun e => e.1 ≠ [key'] := by
        rw [under, under, hread, differences_of_eq rfl, differences_of_leaf hne hplain]
        simp
      have htold : ToldAt key' (CanonicalJson.get g key') (CanonicalJson.get g key') ↔
          ToldAt key' (CanonicalJson.get f key') (CanonicalJson.get g key') :=
        iff_of_true (toldAt_self hg key') (toldAt_of_leaf hf hg hkey hne hplain)
      exact ⟨f', hassign, hproper, differences_of_replaces hf hproper hg hreplaces hkeys hunder',
        told_of_replaces hf hproper hg hreplaces htold⟩
    | cons part parts =>
      obtain ⟨hx, hy⟩ := plain_of_mem he' (by rw [hrest]; exact List.cons_ne_nil _ _)
      obtain ⟨fx, hfx⟩ := get_of_plain hkey hx
      obtain ⟨gx, hgx⟩ := get_of_plain hkey hy
      have hreadf : (Value.doc (.object f)).read key' = .doc (.object fx) := by rw [read_object, hfx]; rfl
      have hreadg : (Value.doc (.object g)).read key' = .doc (.object gx) := by rw [read_object, hgx]; rfl
      rw [hreadf, hreadg] at he'
      obtain ⟨fx', hinner, hproperx, hdiffx, htoldx⟩ := ih hsafe.2 (get_proper hf hfx) (get_proper hg hgx) ⟨e', he', hrest⟩
      have hassign : assignAt (.doc (.object g)) (key' :: part :: parts) (.object f) =
          some (.object (putField f key' (.object fx'))) := by
        simp only [assignAt, hfx, hreadg, Option.bind_some, hinner, Option.map_some]
      have hreplaces := get_putField f key' (.object fx')
      have hproper := putField_proper hf key' hproperx
      have hread' : (Value.doc (.object (putField f key' (.object fx')))).read key' = .doc (.object fx') := by
        rw [read_object, hreplaces key', if_pos rfl]
        rfl
      have hunder' : under (putField f key' (.object fx')) g key' = (under f g key').filter fun e => e.1 ≠ key' :: part :: parts := by
        rw [under, under, hread', hreadf, hreadg, hdiffx, List.filter_map]
        congr 1
        apply List.filter_congr
        intro e _
        simp
      have htold : ToldAt key' (some (.object fx')) (CanonicalJson.get g key') ↔
          ToldAt key' (CanonicalJson.get f key') (CanonicalJson.get g key') := by
        rw [hfx, hgx]
        exact htoldx
      exact ⟨_, hassign, hproper, differences_of_replaces hf hproper hg hreplaces hkeys hunder',
        told_of_replaces hf hproper hg hreplaces htold⟩

end Telling

/-! ### The paths of a comparison -/

theorem differences_nodup (x y : Value) : ((differences x y).map Prod.fst).Nodup := by
  induction hn : x.size + y.size using Nat.strong_induction_on generalizing x y with
  | h n ih =>
    by_cases hsame : x.canonicalConfig = y.canonicalConfig
    · rw [differences_of_eq hsame]
      exact List.nodup_nil
    by_cases hplain : x.isPlain ∧ y.isPlain
    · rw [differences_of_plain hsame hplain, List.map_flatMap, List.nodup_flatMap]
      constructor
      · intro key hkey
        have hrest := ih _ (hn ▸ size_read hkey) _ _ rfl
        have hmap := hrest.map (f := fun parts => key :: parts) fun parts parts' h => (List.cons.inj h).2
        rw [List.map_map] at hmap ⊢
        exact hmap
      · have hkeys : (unionKeys x y).Nodup := (List.perm_insertionSort _ _).nodup_iff.mpr (nodup_eraseDups _)
        refine hkeys.imp fun {key key'} hne => ?_
        rintro parts hparts hparts'
        simp only [List.map_map, List.mem_map] at hparts hparts'
        obtain ⟨e, -, rfl⟩ := hparts
        obtain ⟨e', -, heq⟩ := hparts'
        exact hne (List.cons.inj heq).1.symm
    · rw [differences_of_leaf hsame hplain]
      exact List.nodup_singleton _

structure Document where
  fields : List (Text × Doc)
  proper : (Doc.object fields).Proper

namespace Document

def doc (a : Document) : Doc := .object a.fields

def value (a : Document) : Value := .doc (.object a.fields)

end Document

section Paths

variable {f g : List (Text × Doc)}

theorem place_ne_nil (hf : (Doc.object f).Proper) (hg : (Doc.object g).Proper)
    {e : List Text × Value × Value}
    (he : e ∈ differences (.doc (.object f)) (.doc (.object g))) : e.1 ≠ [] := by
  obtain ⟨key, -, hunder⟩ := mem_differences_object hf hg he
  obtain ⟨e', -, rfl⟩ := List.mem_map.mp hunder
  exact List.cons_ne_nil _ _

theorem path_changeAt {e : List Text × Value × Value}
    (h : e.1 ≠ []) : (changeAt [] e).path = pointer e.1 := by
  obtain ⟨key, parts, hcons⟩ := List.exists_cons_of_ne_nil h
  have hpointer : [] ++ pointer e.1 ≠ [] := by
    rw [hcons, pointer_cons]
    simp
  rw [changeAt, if_neg hpointer, List.nil_append]

theorem pathParts_changeAt {e : List Text × Value × Value}
    (h : e.1 ≠ []) : pathParts (changeAt [] e).path = e.1 := by
  rw [path_changeAt h, pathParts_pointer h]

def pathsOf (before after : Value) : List Text := (configDiff before after []).map Change.path

theorem mem_pathsOf (hf : (Doc.object f).Proper) (hg : (Doc.object g).Proper) {path : Text} :
    path ∈ pathsOf (.doc (.object f)) (.doc (.object g)) ↔
      ∃ e ∈ differences (.doc (.object f)) (.doc (.object g)), e.1 = pathParts path ∧ path = pointer (pathParts path) := by
  rw [pathsOf, configDiff_eq, List.map_map, List.mem_map]
  constructor
  · rintro ⟨e, he, rfl⟩
    have hne := place_ne_nil hf hg he
    refine ⟨e, he, (pathParts_changeAt hne).symm, ?_⟩
    rw [Function.comp_apply, pathParts_changeAt hne, path_changeAt hne]
  · rintro ⟨e, he, hparts, hpath⟩
    refine ⟨e, he, ?_⟩
    rw [Function.comp_apply, path_changeAt (place_ne_nil hf hg he), hparts, ← hpath]

theorem pathsOf_nodup (hf : (Doc.object f).Proper) (hg : (Doc.object g).Proper) :
    (pathsOf (.doc (.object f)) (.doc (.object g))).Nodup := by
  have hplaces := differences_nodup (.doc (.object f)) (.doc (.object g))
  have hparts : (pathsOf (.doc (.object f)) (.doc (.object g))).map pathParts =
      (differences (.doc (.object f)) (.doc (.object g))).map Prod.fst := by
    rw [pathsOf, configDiff_eq, List.map_map, List.map_map]
    exact List.map_congr_left fun e he => pathParts_changeAt (place_ne_nil hf hg he)
  rw [← hparts] at hplaces
  exact hplaces.of_map _

theorem configDiff_filter (hf : (Doc.object f).Proper) (hg : (Doc.object g).Proper)
    {f' : List (Text × Doc)} {path : Text}
    (hpath : path = pointer (pathParts path)) (hdiff : differences (.doc (.object f')) (.doc (.object g)) =
      (differences (.doc (.object f)) (.doc (.object g))).filter fun e => e.1 ≠ pathParts path) :
    configDiff (.doc (.object f')) (.doc (.object g)) [] =
      (configDiff (.doc (.object f)) (.doc (.object g)) []).filter fun change => change.path ≠ path := by
  rw [configDiff_eq, configDiff_eq, hdiff, List.filter_map]
  congr 1
  apply List.filter_congr
  intro e he
  have hne := place_ne_nil hf hg he
  have hiff : e.1 = pathParts path ↔ (changeAt [] e).path = path := by
    constructor
    · intro h
      rw [path_changeAt hne, h, ← hpath]
    · intro h
      rw [← pathParts_changeAt hne, h]
  simp only [Function.comp_apply, ne_eq, hiff]

/-- **Paths are restored one after the other**. -/
theorem restorePaths_spec {selected : List Text} (hf : (Doc.object f).Proper)
    (hg : (Doc.object g).Proper) (hnodup : selected.Nodup)
    (hmem : ∀ path ∈ selected, path ∈ pathsOf (.doc (.object f)) (.doc (.object g)))
    (hsafe : ∀ path ∈ selected, (pathParts path).any refusedParts.contains = false) :
    ∃ f', selected.foldlM (restorePath (.object g)) (.object f) = some (.object f') ∧ (Doc.object f').Proper ∧
      configDiff (.doc (.object f')) (.doc (.object g)) [] =
        (configDiff (.doc (.object f)) (.doc (.object g)) []).filter (fun change => !selected.contains change.path) ∧
      (Told (.object f') (.object g) ↔ Told (.object f) (.object g)) := by
  induction selected generalizing f with
  | nil => exact ⟨f, rfl, hf, by simp, Iff.rfl⟩
  | cons path selected ih =>
    obtain ⟨hnew, hnodup⟩ := List.nodup_cons.mp hnodup
    obtain ⟨hpathMem, hmem⟩ := List.forall_mem_cons.mp hmem
    obtain ⟨hpathSafe, hsafe⟩ := List.forall_mem_cons.mp hsafe
    obtain ⟨e, he, hparts, hpath⟩ := (mem_pathsOf hf hg).mp hpathMem
    have hproto : protoKey ∉ pathParts path := by
      intro hin
      rw [List.any_eq_false] at hpathSafe
      exact hpathSafe protoKey hin (by decide +kernel)
    obtain ⟨f₁, hassign, hproper₁, hdiff₁, htold₁⟩ := assignAt_spec hproto hf hg ⟨e, he, hparts⟩
    have hconfig₁ := configDiff_filter hf hg hpath hdiff₁
    have hmem₁ : ∀ path' ∈ selected, path' ∈ pathsOf (.doc (.object f₁)) (.doc (.object g)) := by
      intro path' hpath'
      obtain ⟨change, hchange, rfl⟩ := List.mem_map.mp (hmem path' hpath')
      rw [pathsOf, hconfig₁]
      refine List.mem_map_of_mem (List.mem_filter.mpr ⟨hchange, decide_eq_true ?_⟩)
      rintro rfl
      exact hnew hpath'
    obtain ⟨f', hrest, hproper', hconfig', htold'⟩ := ih hproper₁ hnodup hmem₁ hsafe
    have hstep : restorePath (.object g) (.object f) path = some (.object f₁) := by
      rw [restorePath, hpathSafe, if_neg Bool.false_ne_true, hassign]
    refine ⟨f', ?_, hproper', ?_, htold'.trans htold₁⟩
    · rw [List.foldlM_cons, hstep]
      exact hrest
    · rw [hconfig', hconfig₁, List.filter_filter]
      apply List.filter_congr
      intro change _
      by_cases h : change.path = path <;> simp [h]

end Paths

/-! ### Restoring a configuration -/

/-- What a comparison is for: it is empty for documents of one hash, and its paths, restored, leave
what was not selected. -/
structure Restores (a b : Document) : Prop where
  hash : ∀ sha256 : Text → Text, (sha256 a.doc.canonical = sha256 b.doc.canonical → a.doc.canonical = b.doc.canonical) →
    (configDiff a.value b.value [] = [] ↔ sha256 a.doc.canonical = sha256 b.doc.canonical)
  all : configDiff a.value b.value [] ≠ [] →
    ∃ restored, restoreConfigurationSelection a.doc b.doc (pathsOf a.value b.value) = some restored ∧
      restored.canonical = b.doc.canonical
  part : ∀ selected : List Text, selected ≠ [] → selected.Nodup → (∀ path ∈ selected, path ∈ pathsOf a.value b.value) →
    ∃ restored, restoreConfigurationSelection a.doc b.doc selected = some restored ∧
      configDiff (.doc restored) b.value [] = (configDiff a.value b.value []).filter fun change => !selected.contains change.path

/-- No null on one side is a missing field on the other, and the selection is one that the
restoration does not refuse. -/
structure Restorable (a b : Document) : Prop where
  told : Told a.doc b.doc
  safe : ∀ path ∈ pathsOf a.value b.value, (pathParts path).any refusedParts.contains = false
  few : (pathsOf a.value b.value).length ≤ 1000

theorem restoreConfigurationSelection_eq {a b : Document} {selected : List Text}
    (hne : selected ≠ []) (hnodup : selected.Nodup)
    (hmem : ∀ path ∈ selected, path ∈ pathsOf a.value b.value) (hfew : (pathsOf a.value b.value).length ≤ 1000) :
    restoreConfigurationSelection a.doc b.doc selected = selected.foldlM (restorePath b.doc) a.doc := by
  have hlength := (List.subperm_of_subset hnodup hmem).length_le
  have hall : (selected.any fun path => !((configDiff a.value b.value []).any fun change => change.path == path)) = false := by
    rw [List.any_eq_false]
    intro path hpath
    obtain ⟨change, hchange, rfl⟩ := List.mem_map.mp (hmem path hpath)
    rw [Bool.not_eq_true, Bool.not_eq_false', List.any_eq_true]
    exact ⟨change, hchange, beq_self_eq_true _⟩
  unfold restoreConfigurationSelection
  simp only
  rw [if_neg]
  rintro (h | h | h | h)
  · exact hne h
  · omega
  · exact h (length_eraseDups_eq_iff.mpr hnodup)
  · exact Bool.false_ne_true (hall.symm.trans h)

theorem of_restoreConfigurationSelection {current target restored : Doc} {paths : List Text}
    (h : restoreConfigurationSelection current target paths = some restored) :
    paths.length ≤ 1000 ∧ paths.foldlM (restorePath target) current = some restored := by
  unfold restoreConfigurationSelection at h
  simp only at h
  split_ifs at h with hrefused
  rw [not_or, not_or] at hrefused
  exact ⟨Nat.le_of_not_lt hrefused.2.1, h⟩

theorem safe_of_foldlM {target current restored : Doc} {paths : List Text}
    (h : paths.foldlM (restorePath target) current = some restored) :
    ∀ path ∈ paths, (pathParts path).any refusedParts.contains = false := by
  induction paths generalizing current with
  | nil => exact fun path hpath => absurd hpath List.not_mem_nil
  | cons path paths ih =>
    rw [List.foldlM_cons] at h
    obtain ⟨next, hnext, hrest⟩ := Option.bind_eq_some_iff.mp h
    rw [restorePath] at hnext
    split_ifs at hnext with hrefused
    exact List.forall_mem_cons.mpr ⟨Bool.eq_false_iff.mpr hrefused, ih hrest⟩

theorem diff_of_canonical_eq {a b : Document}
    (h : a.doc.canonical = b.doc.canonical) : configDiff a.value b.value [] = [] := by
  have hsame : a.value.canonicalConfig = b.value.canonicalConfig := congrArg some h
  rw [configDiff_eq, differences_of_eq hsame, List.map_nil]

/-- **A comparison restores** exactly when no null meets a missing field and
none of its paths is refused. -/
theorem restores_iff (a b : Document) : Restores a b ↔ Restorable a b := by
  constructor
  · intro h
    by_cases hdiff : configDiff a.value b.value [] = []
    · have hsame := (h.hash id fun heq => heq).mp hdiff
      have hnone : pathsOf a.value b.value = [] := by rw [pathsOf, hdiff, List.map_nil]
      refine ⟨told_of_canonical_eq a.proper b.proper hsame, ?_, ?_⟩
      · rw [hnone]
        exact fun path hpath => absurd hpath List.not_mem_nil
      · rw [hnone]
        exact Nat.zero_le _
    · obtain ⟨restored, hrestored, hsame⟩ := h.all hdiff
      obtain ⟨hfew, hfold⟩ := of_restoreConfigurationSelection hrestored
      have hsafe := safe_of_foldlM hfold
      obtain ⟨f', hfold', hproper, -, htold⟩ := restorePaths_spec a.proper b.proper (pathsOf_nodup a.proper b.proper) (fun _ hpath => hpath) hsafe
      obtain rfl : restored = .object f' := Option.some.inj (hfold.symm.trans hfold')
      exact ⟨htold.mp (told_of_canonical_eq hproper b.proper hsame), hsafe, hfew⟩
  · intro h
    have hequal : configDiff a.value b.value [] = [] → a.doc.canonical = b.doc.canonical := by
      intro hnil
      rw [configDiff_eq, List.map_eq_nil_iff] at hnil
      exact canonical_eq_of_told a.proper b.proper h.told hnil
    have hpart : ∀ selected : List Text, selected ≠ [] → selected.Nodup → (∀ path ∈ selected, path ∈ pathsOf a.value b.value) →
        ∃ f', restoreConfigurationSelection a.doc b.doc selected = some (.object f') ∧ (Doc.object f').Proper ∧
          configDiff (.doc (.object f')) b.value [] =
            (configDiff a.value b.value []).filter (fun change => !selected.contains change.path) ∧ Told (.object f') b.doc := by
      intro selected hne hnodup hmem
      obtain ⟨f', hfold, hproper, hconfig, htold⟩ := restorePaths_spec a.proper b.proper hnodup hmem fun path hpath => h.safe path (hmem path hpath)
      refine ⟨f', ?_, hproper, hconfig, htold.mpr h.told⟩
      rw [restoreConfigurationSelection_eq hne hnodup hmem h.few]
      exact hfold
    refine ⟨fun sha256 hcollision => ?_, fun hdiff => ?_, fun selected hne hnodup hmem => ?_⟩
    · constructor
      · exact fun hnil => congrArg sha256 (hequal hnil)
      · exact fun hhash => diff_of_canonical_eq (hcollision hhash)
    · have hne : pathsOf a.value b.value ≠ [] := by
        rw [pathsOf]
        simpa using hdiff
      obtain ⟨f', hrestored, hproper, hconfig, htold⟩ := hpart _ hne (pathsOf_nodup a.proper b.proper) fun _ hpath => hpath
      refine ⟨_, hrestored, canonical_eq_of_told hproper b.proper htold ?_⟩
      rw [← List.map_eq_nil_iff, ← configDiff_eq]
      refine hconfig.trans (List.filter_eq_nil_iff.mpr fun change hchange => ?_)
      simpa [pathsOf] using ⟨change, hchange, rfl⟩
    · obtain ⟨f', hrestored, -, hconfig, -⟩ := hpart selected hne hnodup hmem
      exact ⟨_, hrestored, hconfig⟩

/-- `{ combos: [], aliases: {}, settings }` -/
def withSettings (settings : List (Text × Doc)) : List (Text × Doc) :=
  [(unitsOf "combos", .array []), (unitsOf "aliases", .object []), (unitsOf "settings", .object settings)]

/-- A strategy that was not understood, and no strategy. -/
theorem null_meets_missing :
    configDiff (.doc (.object (withSettings [(unitsOf "comboStrategy", .null)]))) (.doc (.object (withSettings []))) [] = [] ∧
      (Doc.object (withSettings [(unitsOf "comboStrategy", .null)])).canonical ≠ (Doc.object (withSettings [])).canonical :=
  ⟨List.length_eq_zero_iff.mp (by decide +kernel), by decide +kernel⟩

end TokenProxy.Configuration
