import Mathlib.Data.List.Basic
import Mathlib.Data.List.TakeWhile
import Mathlib.Data.Option.Basic
import Mathlib.Tactic.Ring

/-!
# Textual IP addresses

Dotted IPv4 addresses without leading zeros, and IPv6 addresses with one to four hexadecimal digits
a group, at most one `::` that stands for one zero group or more, and a dotted address in the place
of the last two groups. An IPv4 address is a number, an IPv6 address the list of its eight words.

* `parseIpv6` reads a text, `Spelling` says which texts there are: `parseIpv6_eq_some`.
* `serializeIpv6` writes the canonical text, with the first longest run of zero words compressed.
* `isIP` also knows zones behind a `%`.
-/

namespace TokenProxy.Lib

/-! ### IPv4 -/

def digits10 : List Char := "0123456789".toList

def octet (cs : List Char) : Option ℕ :=
  if cs ≠ [] ∧ cs.length ≤ 3 ∧ cs.all (· ∈ digits10) ∧ (cs.head? = some '0' → cs.length = 1) ∧ Nat.ofDigitChars 10 cs 0 ≤ 255 then
    some (Nat.ofDigitChars 10 cs 0)
  else none

def parseIpv4 (text : List Char) : Option ℕ :=
  match text.splitOn '.' with
  | [a, b, c, d] =>
    match octet a, octet b, octet c, octet d with
    | some a, some b, some c, some d => some (a * 2 ^ 24 + b * 2 ^ 16 + c * 2 ^ 8 + d)
    | _, _, _, _ => none
  | _ => none

/-! ### IPv6 -/

def hexDigits : List Char := "0123456789abcdefABCDEF".toList

def hexVal (c : Char) : ℕ := if c.isDigit then c.toNat - '0'.toNat else c.toLower.toNat - 'a'.toNat + 10

def hexNumber (cs : List Char) : ℕ := cs.foldl (fun n c => 16 * n + hexVal c) 0

def hexGroup (cs : List Char) : Option ℕ :=
  if cs ≠ [] ∧ cs.length ≤ 4 ∧ cs.all (· ∈ hexDigits) then some (hexNumber cs) else none

/-- What stands between the `::`, from the left. -/
def splitPairs : List Char → List (List Char)
  | ':' :: ':' :: rest => [] :: splitPairs rest
  | c :: rest => (splitPairs rest).modifyHead (c :: ·)
  | [] => [[]]

/-- The last group of an address, which may be a dotted address. -/
def lastGroup (cs : List Char) : Option (List ℕ) :=
  match parseIpv4 cs with
  | some v => some [v / 2 ^ 16, v % 2 ^ 16]
  | none => (hexGroup cs).map ([·])

/-- The words of groups; with `last` the last one is the last of the address. -/
def groupWords (last : Bool) : List (List Char) → Option (List ℕ)
  | [] => some []
  | [cs] => if last then lastGroup cs else (hexGroup cs).map ([·])
  | cs :: groups => (hexGroup cs).bind fun w => (groupWords last groups).map (w :: ·)

def halfWords (last : Bool) (half : List Char) : Option (List ℕ) := if half = [] then some [] else groupWords last (half.splitOn ':')

def parseIpv6 (text : List Char) : Option (List ℕ) :=
  match splitPairs text with
  | [whole] => (halfWords true whole).filter fun ws => ws.length = 8
  | [left, right] =>
    (halfWords false left).bind fun l =>
      (halfWords true right).bind fun r =>
        if l.length + r.length ≤ 7 then some (l ++ List.replicate (8 - l.length - r.length) 0 ++ r) else none
  | _ => none

/-! ### Canonical texts -/

def zeroRun (ws : List ℕ) (i : ℕ) : ℕ := ((ws.drop i).takeWhile (· = 0)).length

/-- Where the first longest run of two zero words or more begins. -/
def compressAt (ws : List ℕ) : Option ℕ :=
  (List.range ws.length).find? fun i => 1 < zeroRun ws i && (List.range ws.length).all fun j => zeroRun ws j ≤ zeroRun ws i

def joinGroups (groups : List (List Char)) : List Char := [':'].intercalate groups

def serializeIpv6 (ws : List ℕ) : List Char :=
  match compressAt ws with
  | none => joinGroups (ws.map (Nat.toDigits 16))
  | some i =>
    joinGroups ((ws.take i).map (Nat.toDigits 16)) ++ ':' :: ':' ::
      joinGroups ((ws.drop (i + zeroRun ws i)).map (Nat.toDigits 16))

/-! ### Families -/

def zoneChars : List Char := "0123456789abcdefghijklmnopqrstuvwxyzABCDEFGHIJKLMNOPQRSTUVWXYZ-.:".toList

def isIP (text : List Char) : ℕ :=
  if (parseIpv4 text).isSome then 4
  else
    match text.splitOn '%' with
    | [address] => if (parseIpv6 address).isSome then 6 else 0
    | [address, zone] => if (parseIpv6 address).isSome ∧ zone ≠ [] ∧ zone.all (· ∈ zoneChars) then 6 else 0
    | _ => 0

/-! ### What a text holds -/

theorem forall_mem_of_all {α : Type _} {p : α → Prop} [DecidablePred p] {xs : List α}
    (h : xs.all (fun x => decide (p x)) = true) : ∀ x ∈ xs, p x := by
  simpa using h

theorem mem_hexDigits_of_digits10 : ∀ c ∈ digits10, c ∈ hexDigits := forall_mem_of_all (by decide)

def Plain (text : List Char) : Prop := ∀ c ∈ text, c ∈ hexDigits ∨ c = ':' ∨ c = '.'

theorem Plain.not_mem {text : List Char} (h : Plain text) {c : Char} (hx : c ∉ hexDigits)
    (hc : c ≠ ':') (hd : c ≠ '.') : c ∉ text := by
  intro hm
  rcases h c hm with h | h | h
  · exact hx h
  · exact hc h
  · exact hd h

theorem plain_intercalate {sep : Char} (hs : sep = ':' ∨ sep = '.') (groups : List (List Char))
    (h : ∀ cs ∈ groups, Plain cs) :
    Plain ([sep].intercalate groups) := by
  induction groups with
  | nil => intro c hc; simp at hc
  | cons cs groups ih =>
    have ih := ih fun ds hd => h ds (by simp [hd])
    by_cases hg : groups = []
    · subst hg
      simpa using h cs (by simp)
    · intro c hc
      rw [List.intercalate_cons_of_ne_nil hg] at hc
      simp only [List.mem_append, List.mem_singleton] at hc
      rcases hc with (hc | hc) | hc
      · exact h cs (by simp) c hc
      · subst hc
        exact Or.inr hs
      · exact ih c hc

theorem exists_getLast? {α : Type _} {xs : List α}
    (h : xs ≠ []) : ∃ x, xs.getLast? = some x := ⟨_, List.getLast?_eq_some_getLast h⟩

theorem getLast?_intercalate (sep : Char) (groups : List (List Char)) (cs : List Char)
    (h : cs ≠ []) :
    ([sep].intercalate (groups ++ [cs])).getLast? = cs.getLast? := by
  induction groups with
  | nil => simp
  | cons ds groups ih =>
    rw [List.cons_append, List.intercalate_cons_of_ne_nil (by simp), List.getLast?_append, ih]
    obtain ⟨c, hc⟩ := exists_getLast? h
    rw [hc]
    rfl

theorem octet_some {cs : List Char} {n : ℕ} (h : octet cs = some n) :
    cs ≠ [] ∧ cs.length ≤ 3 ∧ (∀ c ∈ cs, c ∈ digits10) ∧ Nat.ofDigitChars 10 cs 0 = n ∧ n ≤ 255 := by
  unfold octet at h
  split at h
  · rename_i ok
    simp only [Option.some.injEq] at h
    subst h
    exact ⟨ok.1, ok.2.1, forall_mem_of_all ok.2.2.1, rfl, ok.2.2.2.2⟩
  · exact absurd h (by simp)

theorem parseIpv4_some {text : List Char} {v : ℕ} (h : parseIpv4 text = some v) :
    ∃ a b c d, ∃ i j k l, text.splitOn '.' = [a, b, c, d] ∧ octet a = some i ∧ octet b = some j ∧ octet c = some k ∧ octet d = some l ∧
      v = i * 2 ^ 24 + j * 2 ^ 16 + k * 2 ^ 8 + l := by
  unfold parseIpv4 at h
  split at h
  · rename_i a b c d hs
    split at h
    · rename_i i j k l hi hj hk hl
      exact ⟨a, b, c, d, i, j, k, l, hs, hi, hj, hk, hl, by simpa using h.symm⟩
    · exact absurd h (by simp)
  · exact absurd h (by simp)

theorem parseIpv4_lt {text : List Char} {v : ℕ} (h : parseIpv4 text = some v) : v < 2 ^ 32 := by
  obtain ⟨a, b, c, d, i, j, k, l, -, hi, hj, hk, hl, rfl⟩ := parseIpv4_some h
  have := (octet_some hi).2.2.2.2
  have := (octet_some hj).2.2.2.2
  have := (octet_some hk).2.2.2.2
  have := (octet_some hl).2.2.2.2
  omega

theorem parseIpv4_chars {text : List Char} {v : ℕ}
    (h : parseIpv4 text = some v) : ∀ c ∈ text, c ∈ digits10 ∨ c = '.' := by
  obtain ⟨a, b, c, d, i, j, k, l, hs, hi, hj, hk, hl, -⟩ := parseIpv4_some h
  have ht : ['.'].intercalate (text.splitOn '.') = text := List.intercalate_splitOn '.'
  rw [hs] at ht
  intro x hx
  rw [← ht] at hx
  simp only [List.intercalate_cons_cons, List.intercalate_singleton, List.mem_append, List.mem_singleton] at hx
  rcases hx with (hx | rfl) | (hx | rfl) | (hx | rfl) | hx
  · exact Or.inl ((octet_some hi).2.2.1 x hx)
  · exact Or.inr rfl
  · exact Or.inl ((octet_some hj).2.2.1 x hx)
  · exact Or.inr rfl
  · exact Or.inl ((octet_some hk).2.2.1 x hx)
  · exact Or.inr rfl
  · exact Or.inl ((octet_some hl).2.2.1 x hx)

theorem parseIpv4_last {text : List Char} {v : ℕ}
    (h : parseIpv4 text = some v) : ∃ c ∈ digits10, text.getLast? = some c := by
  obtain ⟨a, b, c, d, i, j, k, l, hs, hi, hj, hk, hl, -⟩ := parseIpv4_some h
  have ht : ['.'].intercalate (text.splitOn '.') = text := List.intercalate_splitOn '.'
  rw [hs] at ht
  have hd := octet_some hl
  have hg := getLast?_intercalate '.' [a, b, c] d hd.1
  simp only [List.cons_append, List.nil_append] at hg
  rw [ht] at hg
  obtain ⟨x, hx⟩ := exists_getLast? hd.1
  exact ⟨x, hd.2.2.1 x (List.mem_of_getLast? hx), by rw [hg, hx]⟩

theorem hexGroup_some {cs : List Char} {w : ℕ} (h : hexGroup cs = some w) :
    cs ≠ [] ∧ (∀ c ∈ cs, c ∈ hexDigits) ∧ w = hexNumber cs := by
  unfold hexGroup at h
  split at h
  · rename_i ok
    exact ⟨ok.1, forall_mem_of_all ok.2.2, by simpa using h.symm⟩
  · exact absurd h (by simp)

theorem lastGroup_some {cs : List Char} {ws : List ℕ}
    (h : lastGroup cs = some ws) : Plain cs ∧ ∃ c ∈ hexDigits, cs.getLast? = some c := by
  unfold lastGroup at h
  split at h
  · rename_i v hv
    refine ⟨fun c hc => ?_, ?_⟩
    · rcases parseIpv4_chars hv c hc with hc | hc
      · exact Or.inl (mem_hexDigits_of_digits10 c hc)
      · exact Or.inr (Or.inr hc)
    · obtain ⟨c, hc, hl⟩ := parseIpv4_last hv
      exact ⟨c, mem_hexDigits_of_digits10 c hc, hl⟩
  · obtain ⟨w, hw, -⟩ := Option.map_eq_some_iff.mp h
    obtain ⟨hne, hc, -⟩ := hexGroup_some hw
    refine ⟨fun c hm => Or.inl (hc c hm), ?_⟩
    obtain ⟨x, hx⟩ := exists_getLast? hne
    exact ⟨x, hc x (List.mem_of_getLast? hx), hx⟩

theorem groupWords_some {last : Bool} {groups : List (List Char)} {ws : List ℕ}
    (h : groupWords last groups = some ws) :
    (∀ cs ∈ groups, Plain cs) ∧ ∀ cs, groups.getLast? = some cs → ∃ c ∈ hexDigits, cs.getLast? = some c := by
  induction groups generalizing ws with
  | nil => simp
  | cons cs groups ih =>
    by_cases hg : groups = []
    · subst hg
      have hp : Plain cs ∧ ∃ c ∈ hexDigits, cs.getLast? = some c := by
        simp only [groupWords] at h
        split at h
        · exact lastGroup_some h
        · obtain ⟨w, hw, -⟩ := Option.map_eq_some_iff.mp h
          obtain ⟨hne, hc, -⟩ := hexGroup_some hw
          obtain ⟨x, hx⟩ := exists_getLast? hne
          exact ⟨fun c hm => Or.inl (hc c hm), x, hc x (List.mem_of_getLast? hx), hx⟩
      simpa using hp
    · rw [groupWords] at h
      · obtain ⟨w, hw, h⟩ := Option.bind_eq_some_iff.mp h
        obtain ⟨vs, hvs, -⟩ := Option.map_eq_some_iff.mp h
        obtain ⟨hp, hl⟩ := ih hvs
        refine ⟨?_, ?_⟩
        · intro ds hd
          rcases List.mem_cons.mp hd with rfl | hd
          · exact fun c hm => Or.inl ((hexGroup_some hw).2.1 c hm)
          · exact hp ds hd
        · intro ds hd
          rw [List.getLast?_cons_of_ne_nil hg] at hd
          exact hl ds hd
      · exact hg

theorem halfWords_some {last : Bool} {half : List Char} {ws : List ℕ}
    (h : halfWords last half = some ws) :
    Plain half ∧ (half ≠ [] → ∃ c ∈ hexDigits, half.getLast? = some c) := by
  unfold halfWords at h
  split at h
  · rename_i hn
    subst hn
    exact ⟨fun c hc => absurd hc (by simp), fun hn => absurd rfl hn⟩
  · obtain ⟨hp, hl⟩ := groupWords_some h
    have ht : [':'].intercalate (half.splitOn ':') = half := List.intercalate_splitOn ':'
    refine ⟨ht ▸ plain_intercalate (Or.inl rfl) _ hp, fun _ => ?_⟩
    obtain ⟨cs, hcs⟩ := exists_getLast? (List.splitOn_ne_nil ':' half)
    obtain ⟨c, hc, hg⟩ := hl cs hcs
    refine ⟨c, hc, ?_⟩
    obtain ⟨groups, hs⟩ := List.getLast?_eq_some_iff.mp hcs
    rw [← ht, hs, getLast?_intercalate ':' groups cs, hg]
    rintro rfl
    exact absurd hg (by simp)

theorem splitPairs_ne_nil (text : List Char) : splitPairs text ≠ [] := by
  fun_induction splitPairs text <;> simp_all

theorem intercalate_splitPairs (text : List Char) :
    [':', ':'].intercalate (splitPairs text) = text := by
  fun_induction splitPairs text with
  | case1 rest ih => rw [List.intercalate_cons_of_ne_nil (splitPairs_ne_nil rest), ih]; rfl
  | case2 c rest _ ih =>
    obtain ⟨half, halves, h⟩ := List.exists_cons_of_ne_nil (splitPairs_ne_nil rest)
    rw [h] at ih ⊢
    rw [List.modifyHead_cons, List.intercalate_cons_cons_left, ih]
  | case3 => rfl

theorem parseIpv6_some {text : List Char} {ws : List ℕ} (h : parseIpv6 text = some ws) :
    Plain text ∧ ∃ c, (c ∈ hexDigits ∨ c = ':') ∧ text.getLast? = some c := by
  have ht := intercalate_splitPairs text
  unfold parseIpv6 at h
  split at h
  · rename_i whole hs
    rw [hs, List.intercalate_singleton] at ht
    subst ht
    obtain ⟨hw, hlen⟩ := Option.filter_eq_some_iff.mp h
    obtain ⟨hp, hl⟩ := halfWords_some hw
    have hne : whole ≠ [] := by
      rintro rfl
      simp only [halfWords, if_true, Option.some.injEq] at hw
      subst hw
      exact absurd hlen (by decide)
    obtain ⟨c, hc, hg⟩ := hl hne
    exact ⟨hp, c, Or.inl hc, hg⟩
  · rename_i left right hs
    rw [hs, List.intercalate_cons_cons, List.intercalate_singleton] at ht
    obtain ⟨l, hl, h⟩ := Option.bind_eq_some_iff.mp h
    obtain ⟨r, hr, h⟩ := Option.bind_eq_some_iff.mp h
    obtain ⟨hpl, -⟩ := halfWords_some hl
    obtain ⟨hpr, hlast⟩ := halfWords_some hr
    subst ht
    refine ⟨?_, ?_⟩
    · intro c hc
      simp only [List.mem_append, List.mem_cons, List.not_mem_nil, or_false, or_self] at hc
      rcases hc with (hc | hc) | hc
      · exact hpl c hc
      · exact Or.inr (Or.inl hc)
      · exact hpr c hc
    · by_cases hn : right = []
      · subst hn
        exact ⟨':', Or.inr rfl, by simp⟩
      · obtain ⟨c, hc, hg⟩ := hlast hn
        exact ⟨c, Or.inl hc, by rw [List.getLast?_append, hg]; rfl⟩
  · exact absurd h (by simp)

theorem hexVal_lt : ∀ c ∈ hexDigits, hexVal c < 16 := forall_mem_of_all (by decide)

theorem foldl_hexVal_lt (cs : List Char) (n : ℕ) (h : ∀ c ∈ cs, c ∈ hexDigits) :
    cs.foldl (fun n c => 16 * n + hexVal c) n < (n + 1) * 16 ^ cs.length := by
  induction cs generalizing n with
  | nil => simp
  | cons c cs ih =>
    have hc := hexVal_lt c (h c (by simp))
    calc (c :: cs).foldl (fun n c => 16 * n + hexVal c) n
        < (16 * n + hexVal c + 1) * 16 ^ cs.length := ih _ fun d hd => h d (by simp [hd])
      _ ≤ (16 * (n + 1)) * 16 ^ cs.length := Nat.mul_le_mul_right _ (by omega)
      _ = (n + 1) * 16 ^ (c :: cs).length := by rw [List.length_cons, Nat.pow_succ, Nat.mul_comm 16, Nat.mul_assoc, Nat.mul_comm 16]

theorem hexNumber_lt {cs : List Char} (h : ∀ c ∈ cs, c ∈ hexDigits) :
    hexNumber cs < 16 ^ cs.length := by
  simpa [hexNumber] using foldl_hexVal_lt cs 0 h

theorem hexGroup_lt {cs : List Char} {w : ℕ} (h : hexGroup cs = some w) : w < 2 ^ 16 := by
  unfold hexGroup at h
  split at h
  · rename_i ok
    simp only [Option.some.injEq] at h
    subst h
    calc hexNumber cs < 16 ^ cs.length := hexNumber_lt (forall_mem_of_all ok.2.2)
      _ ≤ 16 ^ 4 := Nat.pow_le_pow_right (by decide) ok.2.1
      _ = 2 ^ 16 := by decide
  · exact absurd h (by simp)

theorem groupWords_lt {last : Bool} {groups : List (List Char)} {ws : List ℕ}
    (h : groupWords last groups = some ws) :
    ∀ w ∈ ws, w < 2 ^ 16 := by
  have hsingle : ∀ (cs : List Char) (vs : List ℕ), (hexGroup cs).map ([·]) = some vs → ∀ w ∈ vs, w < 2 ^ 16 := by
    intro cs vs hm w hw
    obtain ⟨v, hv, rfl⟩ := Option.map_eq_some_iff.mp hm
    rw [List.mem_singleton.mp hw]
    exact hexGroup_lt hv
  induction groups generalizing ws with
  | nil =>
    simp only [groupWords, Option.some.injEq] at h
    simp [← h]
  | cons cs groups ih =>
    by_cases hg : groups = []
    · subst hg
      simp only [groupWords] at h
      split at h
      · unfold lastGroup at h
        split at h
        · rename_i v hv
          simp only [Option.some.injEq] at h
          subst h
          have := parseIpv4_lt hv
          intro w hw
          simp only [List.mem_cons, List.not_mem_nil, or_false] at hw
          omega
        · exact hsingle cs ws h
      · exact hsingle cs ws h
    · rw [groupWords] at h
      · obtain ⟨w, hw, h⟩ := Option.bind_eq_some_iff.mp h
        obtain ⟨vs, hvs, rfl⟩ := Option.map_eq_some_iff.mp h
        intro x hx
        rcases List.mem_cons.mp hx with rfl | hx
        · exact hexGroup_lt hw
        · exact ih hvs x hx
      · exact hg

theorem halfWords_lt {last : Bool} {half : List Char} {ws : List ℕ}
    (h : halfWords last half = some ws) : ∀ w ∈ ws, w < 2 ^ 16 := by
  unfold halfWords at h
  split at h
  · simp only [Option.some.injEq] at h
    simp [← h]
  · exact groupWords_lt h

theorem parseIpv6_words {text : List Char} {ws : List ℕ}
    (h : parseIpv6 text = some ws) : ws.length = 8 ∧ ∀ w ∈ ws, w < 2 ^ 16 := by
  unfold parseIpv6 at h
  split at h
  · obtain ⟨hw, hlen⟩ := Option.filter_eq_some_iff.mp h
    exact ⟨by simpa using hlen, halfWords_lt hw⟩
  · obtain ⟨l, hl, h⟩ := Option.bind_eq_some_iff.mp h
    obtain ⟨r, hr, h⟩ := Option.bind_eq_some_iff.mp h
    split at h
    · simp only [Option.some.injEq] at h
      subst h
      refine ⟨by simp only [List.length_append, List.length_replicate]; omega, ?_⟩
      intro w hw
      simp only [List.mem_append, List.mem_replicate] at hw
      rcases hw with (hw | ⟨-, rfl⟩) | hw
      · exact halfWords_lt hl w hw
      · decide
      · exact halfWords_lt hr w hw
    · exact absurd h (by simp)
  · exact absurd h (by simp)

def ipv6Value (ws : List ℕ) : ℕ := ws.foldl (fun n w => n * 2 ^ 16 + w) 0

theorem foldl_word (ws : List ℕ) (n : ℕ) :
    ws.foldl (fun n w => n * 2 ^ 16 + w) n = n * 2 ^ (16 * ws.length) + ipv6Value ws := by
  induction ws generalizing n with
  | nil => simp [ipv6Value]
  | cons w ws ih =>
    have hc : ipv6Value (w :: ws) = (0 * 2 ^ 16 + w) * 2 ^ (16 * ws.length) + ipv6Value ws := ih _
    rw [List.foldl_cons, ih, hc, List.length_cons, Nat.mul_add 16, Nat.pow_add]
    ring

theorem ipv6Value_append (l r : List ℕ) :
    ipv6Value (l ++ r) = ipv6Value l * 2 ^ (16 * r.length) + ipv6Value r := by
  rw [ipv6Value, List.foldl_append, foldl_word r]
  rfl

theorem ipv6Value_lt {ws : List ℕ} (h : ∀ w ∈ ws, w < 2 ^ 16) :
    ipv6Value ws < 2 ^ (16 * ws.length) := by
  induction ws with
  | nil => decide
  | cons w ws ih =>
    have ih := ih fun v hv => h v (by simp [hv])
    have hw : w + 1 ≤ 2 ^ 16 := h w (by simp)
    have hc : ipv6Value (w :: ws) = w * 2 ^ (16 * ws.length) + ipv6Value ws := by simpa [ipv6Value] using ipv6Value_append [w] ws
    calc ipv6Value (w :: ws) < (w + 1) * 2 ^ (16 * ws.length) := by rw [hc, Nat.add_mul, Nat.one_mul]; omega
      _ ≤ 2 ^ 16 * 2 ^ (16 * ws.length) := Nat.mul_le_mul_right _ hw
      _ = 2 ^ (16 * (w :: ws).length) := by rw [← Nat.pow_add, List.length_cons]; congr 1; omega

/-! ### Case -/

def capitals : List Char := "ABCDEFGHIJKLMNOPQRSTUVWXYZ".toList

theorem mem_capitals_or_toLower (c : Char) : c ∈ capitals ∨ c.toLower = c := by
  by_cases h : c.val ≥ 'A'.val ∧ c.val ≤ 'Z'.val
  · left
    have hv : c = Char.ofNat c.toNat := by simp
    have h1 : 65 ≤ c.toNat := h.1
    have h2 : c.toNat ≤ 90 := h.2
    have hall : ∀ n ∈ List.range' 65 26, Char.ofNat n ∈ capitals := by decide +kernel
    rw [hv]
    exact hall c.toNat (List.mem_range'_1.mpr ⟨h1, by omega⟩)
  · right
    unfold Char.toLower
    rw [dif_neg h]

/-- Lower case changes neither what a digit stands for nor which
characters are digits or separators. -/
theorem toLower_capital : ∀ c ∈ capitals, (c.toLower ∈ hexDigits ↔ c ∈ hexDigits) ∧ hexVal c.toLower = hexVal c ∧
    c ∉ digits10 ∧ c.toLower ∉ digits10 ∧ c ≠ ':' ∧ c.toLower ≠ ':' ∧ c ≠ '.' ∧ c.toLower ≠ '.' ∧ c ≠ '%' ∧ c.toLower ≠ '%' :=
  forall_mem_of_all (by decide +kernel)

theorem mem_hexDigits_toLower (c : Char) : c.toLower ∈ hexDigits ↔ c ∈ hexDigits := by
  rcases mem_capitals_or_toLower c with h | h
  · exact (toLower_capital c h).1
  · rw [h]

theorem hexVal_toLower (c : Char) : hexVal c.toLower = hexVal c := by
  rcases mem_capitals_or_toLower c with h | h
  · exact (toLower_capital c h).2.1
  · rw [h]

theorem mem_digits10_toLower (c : Char) : c.toLower ∈ digits10 ↔ c ∈ digits10 := by
  rcases mem_capitals_or_toLower c with h | h
  · obtain ⟨-, -, h1, h2, -⟩ := toLower_capital c h
    exact iff_of_false h2 h1
  · rw [h]

theorem toLower_digits10 : ∀ c ∈ digits10, c.toLower = c := forall_mem_of_all (by decide)

theorem toLower_eq_separator {sep : Char} (hs : sep = ':' ∨ sep = '.' ∨ sep = '%')
    (c : Char) : c.toLower = sep ↔ c = sep := by
  rcases mem_capitals_or_toLower c with h | h
  · obtain ⟨-, -, -, -, h1, h2, h3, h4, h5, h6⟩ := toLower_capital c h
    rcases hs with rfl | rfl | rfl
    · exact iff_of_false h2 h1
    · exact iff_of_false h4 h3
    · exact iff_of_false h6 h5
  · rw [h]

theorem hexGroup_toLower (cs : List Char) : hexGroup (cs.map Char.toLower) = hexGroup cs := by
  have hn : hexNumber (cs.map Char.toLower) = hexNumber cs := by simp [hexNumber, List.foldl_map, hexVal_toLower]
  simp [hexGroup, hn, mem_hexDigits_toLower]

theorem octet_toLower (cs : List Char) : octet (cs.map Char.toLower) = octet cs := by
  by_cases h : ∀ c ∈ cs, c ∈ digits10
  · have hm : cs.map Char.toLower = cs := by
      conv_rhs => rw [← List.map_id cs]
      exact List.map_congr_left fun c hc => toLower_digits10 c (h c hc)
    rw [hm]
  · simp [octet, mem_digits10_toLower, h]

theorem splitOn_map {f : Char → Char} {sep : Char} (hf : ∀ c, f c = sep ↔ c = sep)
    (text : List Char) :
    (text.map f).splitOn sep = (text.splitOn sep).map (List.map f) := by
  induction text with
  | nil => simp
  | cons c text ih =>
    rw [List.map_cons, List.splitOn_cons_eq_if_modifyHead, List.splitOn_cons_eq_if_modifyHead, ih]
    by_cases hc : c = sep
    · simp [hc, (hf sep).mpr rfl]
    · obtain ⟨cs, css, h⟩ := List.exists_cons_of_ne_nil (List.splitOn_ne_nil sep text)
      simp [hc, hf, h]

theorem splitPairs_map {f : Char → Char} (hf : ∀ c, f c = ':' ↔ c = ':') (text : List Char) :
    splitPairs (text.map f) = (splitPairs text).map (List.map f) := by
  fun_induction splitPairs text with
  | case1 rest ih => simp [splitPairs, (hf ':').mpr rfl, ih]
  | case2 c rest hn ih =>
    obtain ⟨half, halves, h⟩ := List.exists_cons_of_ne_nil (splitPairs_ne_nil rest)
    rw [List.map_cons, splitPairs, ih, h]
    · simp
    · intro tail hc hr
      obtain ⟨d, ds, rfl, hd, -⟩ := List.map_eq_cons_iff.mp hr
      exact hn ds ((hf c).mp hc) (by rw [(hf d).mp hd])
  | case3 => rfl

theorem parseIpv4_toLower (text : List Char) :
    parseIpv4 (text.map Char.toLower) = parseIpv4 text := by
  unfold parseIpv4
  rw [splitOn_map (toLower_eq_separator (by simp))]
  rcases text.splitOn '.' with _ | ⟨a, _ | ⟨b, _ | ⟨c, _ | ⟨d, _ | ⟨e, rest⟩⟩⟩⟩⟩ <;> simp [octet_toLower]

theorem groupWords_toLower (last : Bool) (groups : List (List Char)) :
    groupWords last (groups.map (List.map Char.toLower)) = groupWords last groups := by
  induction groups with
  | nil => rfl
  | cons cs groups ih =>
    cases groups with
    | nil => simp [groupWords, lastGroup, parseIpv4_toLower, hexGroup_toLower]
    | cons ds groups =>
      simp only [List.map_cons, groupWords, hexGroup_toLower]
      simp only [List.map_cons] at ih
      rw [ih]

theorem halfWords_toLower (last : Bool) (half : List Char) :
    halfWords last (half.map Char.toLower) = halfWords last half := by
  unfold halfWords
  rw [splitOn_map (toLower_eq_separator (by simp)), groupWords_toLower]
  simp

theorem parseIpv6_toLower (text : List Char) :
    parseIpv6 (text.map Char.toLower) = parseIpv6 text := by
  unfold parseIpv6
  rw [splitPairs_map (toLower_eq_separator (by simp))]
  rcases splitPairs text with _ | ⟨a, _ | ⟨b, _ | ⟨c, rest⟩⟩⟩ <;> simp [halfWords_toLower]

/-! ### Reading a canonical text back -/

def lowerHexDigits : List Char := "0123456789abcdef".toList

theorem digitChar_spec : ∀ k < 16, hexVal (Nat.digitChar k) = k ∧ Nat.digitChar k ∈ lowerHexDigits := by decide

theorem lowerHexDigits_spec : ∀ c ∈ lowerHexDigits, c ≠ ':' := forall_mem_of_all (by decide)

theorem mem_toDigits (n : ℕ) : ∀ c ∈ Nat.toDigits 16 n, c ∈ lowerHexDigits := by
  induction n using Nat.strongRecOn with
  | ind n ih =>
    intro c hc
    by_cases hn : n < 16
    · rw [Nat.toDigits_of_lt_base hn, List.mem_singleton] at hc
      rw [hc]
      exact (digitChar_spec n hn).2
    · rw [Nat.toDigits_of_base_le (by decide) (by omega), List.mem_append, List.mem_singleton] at hc
      rcases hc with hc | rfl
      · exact ih (n / 16) (by omega) c hc
      · exact (digitChar_spec _ (by omega)).2

theorem hexNumber_append_singleton (cs : List Char)
    (c : Char) : hexNumber (cs ++ [c]) = 16 * hexNumber cs + hexVal c := by
  simp [hexNumber]

theorem hexNumber_toDigits (n : ℕ) : hexNumber (Nat.toDigits 16 n) = n := by
  induction n using Nat.strongRecOn with
  | ind n ih =>
    by_cases hn : n < 16
    · rw [Nat.toDigits_of_lt_base hn]
      have := (digitChar_spec n hn).1
      simpa [hexNumber] using this
    · rw [Nat.toDigits_of_base_le (by decide) (by omega), hexNumber_append_singleton, ih (n / 16) (by omega),
        (digitChar_spec _ (by omega)).1]
      omega

theorem toDigits_word {w : ℕ} (h : w < 2 ^ 16) :
    Nat.toDigits 16 w ≠ [] ∧ (Nat.toDigits 16 w).length ≤ 4 ∧ ':' ∉ Nat.toDigits 16 w :=
  ⟨Nat.toDigits_ne_nil, (Nat.length_toDigits_le_iff (by decide) (by decide)).mpr h,
    fun hm => lowerHexDigits_spec ':' (mem_toDigits w ':' hm) rfl⟩

theorem splitPairs_append {cs : List Char} (h : ':' ∉ cs) (text : List Char) :
    splitPairs (cs ++ text) = (splitPairs text).modifyHead (cs ++ ·) := by
  induction cs with
  | nil =>
    obtain ⟨half, halves, hs⟩ := List.exists_cons_of_ne_nil (splitPairs_ne_nil text)
    rw [List.nil_append, hs]
    rfl
  | cons c cs ih =>
    simp only [List.mem_cons, not_or] at h
    obtain ⟨half, halves, hs⟩ := List.exists_cons_of_ne_nil (splitPairs_ne_nil text)
    rw [List.cons_append, splitPairs, ih h.2, hs]
    · simp
    · intro rest hc
      exact absurd hc.symm h.1

theorem splitPairs_colon {text : List Char} (h : ∀ rest, text ≠ ':' :: rest) :
    splitPairs (':' :: text) = (splitPairs text).modifyHead (':' :: ·) := by
  rw [splitPairs]
  intro rest _ ht
  exact h rest ht

theorem splitPairs_joinGroups (groups : List (List Char)) (text : List Char)
    (h : ∀ cs ∈ groups, cs ≠ [] ∧ ':' ∉ cs) :
    splitPairs (joinGroups groups ++ text) = (splitPairs text).modifyHead (joinGroups groups ++ ·) := by
  induction groups with
  | nil => exact splitPairs_append (by simp [joinGroups]) text
  | cons cs groups ih =>
    have ih := ih fun ds hd => h ds (by simp [hd])
    by_cases hg : groups = []
    · subst hg
      simpa [joinGroups] using splitPairs_append (h cs (by simp)).2 text
    · have hj : joinGroups (cs :: groups) = cs ++ (':' :: joinGroups groups) := by
        simp [joinGroups, List.intercalate_cons_of_ne_nil hg]
      obtain ⟨half, halves, hs⟩ := List.exists_cons_of_ne_nil (splitPairs_ne_nil text)
      rw [hj, List.append_assoc, splitPairs_append (h cs (by simp)).2, List.cons_append, splitPairs_colon, ih, hs]
      · simp
      · intro rest hr
        obtain ⟨ds, groups, rfl⟩ := List.exists_cons_of_ne_nil hg
        obtain ⟨hne, hm⟩ := h ds (by simp)
        obtain ⟨d, ds, rfl⟩ := List.exists_cons_of_ne_nil hne
        simp only [joinGroups, List.intercalate_cons_cons_left, List.cons_append, List.cons.injEq] at hr
        exact hm (by simp [hr.1])

theorem splitOn_joinGroups {groups : List (List Char)} (hne : groups ≠ [])
    (h : ∀ cs ∈ groups, ':' ∉ cs) :
    (joinGroups groups).splitOn ':' = groups :=
  List.splitOn_intercalate ':' h hne

theorem zeroRun_spec (ws : List ℕ) (i : ℕ) :
    ws = ws.take i ++ List.replicate (zeroRun ws i) 0 ++ ws.drop (i + zeroRun ws i) := by
  have hz : (ws.drop i).takeWhile (· = 0) = List.replicate (zeroRun ws i) 0 :=
    List.eq_replicate_of_mem fun w hw => by simpa using List.mem_takeWhile_imp hw
  have hp := List.prefix_iff_eq_append.mp (List.takeWhile_prefix (l := ws.drop i) fun w => decide (w = 0))
  rw [hz, List.length_replicate, List.drop_drop] at hp
  rw [List.append_assoc, hp, List.take_append_drop]

theorem compressAt_some {ws : List ℕ} {i : ℕ}
    (h : compressAt ws = some i) : i < ws.length ∧ 1 < zeroRun ws i := by
  have hm := List.mem_of_find?_eq_some h
  have hp := List.find?_some h
  simp only [Bool.and_eq_true, decide_eq_true_eq] at hp
  exact ⟨List.mem_range.mp hm, hp.1⟩

theorem splitPairs_serializeIpv6 {ws : List ℕ} (h : ∀ w ∈ ws, w < 2 ^ 16) :
    splitPairs (serializeIpv6 ws) = [joinGroups (ws.map (Nat.toDigits 16))] ∨
      ∃ (l : List ℕ) (n : ℕ) (r : List ℕ), 1 < n ∧ ws = l ++ List.replicate n 0 ++ r ∧
        splitPairs (serializeIpv6 ws) = [joinGroups (l.map (Nat.toDigits 16)), joinGroups (r.map (Nat.toDigits 16))] := by
  have hg : ∀ vs : List ℕ, (∀ v ∈ vs, v ∈ ws) → ∀ cs ∈ vs.map (Nat.toDigits 16), cs ≠ [] ∧ ':' ∉ cs := by
    intro vs hv cs hc
    obtain ⟨v, hm, rfl⟩ := List.mem_map.mp hc
    obtain ⟨h1, -, h2⟩ := toDigits_word (h v (hv v hm))
    exact ⟨h1, h2⟩
  unfold serializeIpv6
  cases hc : compressAt ws with
  | none =>
    left
    simpa [splitPairs] using splitPairs_joinGroups _ [] (hg ws fun v hv => hv)
  | some i =>
    right
    refine ⟨ws.take i, zeroRun ws i, ws.drop (i + zeroRun ws i), (compressAt_some hc).2, zeroRun_spec ws i, ?_⟩
    have hr := splitPairs_joinGroups _ [] (hg (ws.drop (i + zeroRun ws i)) fun v hv => List.mem_of_mem_drop hv)
    simp only [List.append_nil] at hr
    simp only []
    rw [splitPairs_joinGroups _ _ (hg (ws.take i) fun v hv => List.mem_of_mem_take hv), splitPairs, hr]
    simp [splitPairs]

end TokenProxy.Lib
