import TokenProxy.Lib.IpText
import TokenProxy.Lib.Prefixes
import TokenProxy.Lib.Text

/-!
# The guard of server-side requests

`createPublicOnlyConnector` checks the host before it connects: names that are internal by
convention and literal addresses of blocked ranges are refused, and every record of a DNS answer is
checked before the socket sees it. A literal that `isIP` knows is handed to the socket as it stands,
without a lookup.

* `isBlockedIpv4_iff`, `isBlockedIpv6_iff`: the masks and the word tests are the blocked prefixes of
  the number of an address.
* `assertPublicAddress_iff`: what passes is `Public`.
* `connector_public`: what the connector hands on.
-/

namespace TokenProxy.Ssrf

open Lib

/-! ### IPv4 -/

/-- `/^\\d{1,3}$/`, and no more than 255. -/
def ipv4Part (part : List Char) : Option ℕ :=
  if part ≠ [] ∧ part.length ≤ 3 ∧ part.all (· ∈ digits10) then
    let octet := Nat.ofDigitChars 10 part 0
    if 255 < octet then none else some octet
  else none

def ipv4ToInt (host : List Char) : Option (BitVec 32) :=
  let parts := host.splitOn '.'
  if parts.length ≠ 4 then none
  else (parts.foldlM (fun value part => (ipv4Part part).map fun octet => value * 256 + octet) 0).map (BitVec.ofNat 32)

def blockedV4Ranges : List (BitVec 32 × ℕ) :=
  [("0.0.0.0", 8), ("10.0.0.0", 8), ("100.64.0.0", 10), ("127.0.0.0", 8), ("169.254.0.0", 16), ("172.16.0.0", 12), ("192.0.0.0", 24),
    ("192.0.2.0", 24), ("192.168.0.0", 16), ("198.18.0.0", 15), ("198.51.100.0", 24), ("203.0.113.0", 24), ("224.0.0.0", 4),
    ("240.0.0.0", 4)].map fun range : String × ℕ => ((ipv4ToInt range.1.toList).getD 0, range.2)

def isBlockedIpv4 (host : List Char) : Bool :=
  match ipv4ToInt host with
  | none => false
  | some ip =>
    blockedV4Ranges.any fun range =>
      let mask : BitVec 32 := if range.2 = 0 then 0 else 0xffffffff#32 <<< (32 - range.2)
      ip &&& mask == range.1 &&& mask

/-! ### IPv6 -/

/-- `replace(/^\\[|\\]$/g, "")` -/
def stripBrackets (host : List Char) : List Char :=
  let host := if host.head? = some '[' then host.tail else host
  if host.getLast? = some ']' then host.dropLast else host

def lower (host : List Char) : List Char := host.flatMap lowerCase

def halfParts (half : Option (List Char)) : List (List Char) :=
  match half with
  | none => []
  | some half => if half = [] then [] else half.splitOn ':'

/-- `/^[0-9a-f]{1,4}$/` -/
def isWord (part : List Char) : Bool := part ≠ [] ∧ part.length ≤ 4 ∧ part.all (· ∈ lowerHexDigits)

def expandHalves (halves : List (List Char)) : Option (List ℕ) :=
  let left := halfParts halves[0]?
  let right := halfParts halves[1]?
  if 2 < halves.length then none
  else if 8 < left.length + right.length ∨ (halves.length = 1 ∧ left.length + right.length ≠ 8) then none
  else
    let parts := if halves.length = 2 then left ++ List.replicate (8 - left.length - right.length) ['0'] ++ right else left
    if parts.length ≠ 8 ∨ parts.any (! isWord ·) then none else some (parts.map hexNumber)

def ipv6ToWords (host : List Char) : Option (List ℕ) :=
  let raw := lower (stripBrackets host)
  if raw = [] ∨ '%' ∈ raw then none
  else
    (parseIpv6 raw).bind fun ws =>
      let normalized := serializeIpv6 ws
      expandHalves (splitPairs normalized)

def wordsToIpv4 (words : List ℕ) : List Char :=
  let value : BitVec 32 := (BitVec.ofNat 32 (words.getD 6 0) <<< 16) ||| BitVec.ofNat 32 (words.getD 7 0)
  ['.'].intercalate
    ([value >>> 24, (value >>> 16) &&& 255#32, (value >>> 8) &&& 255#32, value &&& 255#32].map fun octet => Nat.toDigits 10 octet.toNat)

def isBlockedIpv6 (host : List Char) : Bool :=
  match ipv6ToWords host with
  | none => true
  | some words =>
    if (words.take 5).all (· = 0) ∧ words[5]? = some 0xffff then isBlockedIpv4 (wordsToIpv4 words)
    else if (words.take 6).all (· = 0) then true
    else
      let first := BitVec.ofNat 32 (words.getD 0 0)
      if first &&& 0xfe00#32 = 0xfc00#32 then true
      else if first &&& 0xffc0#32 = 0xfe80#32 then true
      else if first &&& 0xffc0#32 = 0xfec0#32 then true
      else if first &&& 0xff00#32 = 0xff00#32 then true
      else words[0]? = some 0x2001 ∧ words[1]? = some 0x0db8

/-! ### Checks -/

inductive Refusal where
  | blocked (message : String)
  | lookup (error : String)
  deriving DecidableEq

def assertPublicAddress (address : List Char) : Except Refusal Unit :=
  let family := isIP address
  if family = 4 ∧ ¬ isBlockedIpv4 address then .ok ()
  else if family = 6 ∧ ¬ isBlockedIpv6 address then .ok ()
  else if family = 4 ∨ family = 6 then .error (.blocked "Blocked URL: private IP")
  else .error (.blocked "Blocked URL: invalid DNS address")

def blockedHostnames : List String := ["localhost", "ip6-localhost", "ip6-loopback"]

def blockedSuffixes : List String := [".internal", ".local", ".localhost"]

/-- `replace(/\\.$/, "")` -/
def stripDot (host : List Char) : List Char := if host.getLast? = some '.' then host.dropLast else host

def assertPublicHostname (rawHost : List Char) : Except Refusal Unit :=
  let host := stripDot (stripBrackets (lower rawHost))
  if host = [] then .error (.blocked "Blocked URL: missing host")
  else if ∃ name ∈ blockedHostnames, host = name.toList then .error (.blocked "Blocked URL: internal host")
  else if ∃ suffix ∈ blockedSuffixes, suffix.toList <:+ host then .error (.blocked "Blocked URL: internal host")
  else if isIP host ≠ 0 then assertPublicAddress host
  else .ok ()

/-! ### Lookup and connector -/

structure Record where
  address : List Char
  family : ℕ
  deriving DecidableEq

/-- What a lookup calls back with: an error, a list of records, or one address. -/
inductive Answer where
  | error (error : String)
  | records (records : List Record)
  | single (address : List Char) (family : ℕ)
  deriving DecidableEq

def checkRecords : List Record → Except Refusal Unit
  | [] => .ok ()
  | record :: records =>
    match assertPublicAddress record.address with
    | .ok () => checkRecords records
    | .error refusal => .error refusal

/-- The records that the caller of the lookup gets: all of them, or the first one. -/
def handOn (requestedAll : Bool) (addresses : List Record) : Except Refusal (List Record) :=
  if addresses = [] then .error (.blocked "Blocked URL: DNS returned no addresses")
  else
    match checkRecords addresses with
    | .error refusal => .error refusal
    | .ok () => .ok (if requestedAll then addresses else addresses.take 1)

def createPublicOnlyLookup (lookup : List Char → Answer) (hostname : List Char)
    (requestedAll : Bool) : Except Refusal (List Record) :=
  match lookup hostname with
  | .error error => .error (.lookup error)
  | .records records => handOn requestedAll records
  | .single address family => handOn requestedAll [⟨address, family⟩]

/-- The addresses that the socket layer is given: `net.connect` does not look up a literal. -/
def createPublicOnlyConnector (lookup : List Char → Answer) (hostname : List Char)
    (requestedAll : Bool) : Except Refusal (List (List Char)) :=
  match assertPublicHostname hostname with
  | .error refusal => .error refusal
  | .ok () =>
    if isIP hostname ≠ 0 then .ok [hostname]
    else (createPublicOnlyLookup lookup hostname requestedAll).map fun records => records.map Record.address

/-! ### Which addresses are public -/

def blockedV6Ranges : List (ℕ × ℕ) :=
  [(0, 96), (0xfc00 * 2 ^ 112, 7), (0xfe80 * 2 ^ 112, 10), (0xfec0 * 2 ^ 112, 10), (0xff00 * 2 ^ 112, 8), (0x20010db8 * 2 ^ 96, 32)]

def PublicV4 (v : ℕ) : Prop := ∀ range ∈ blockedV4Ranges, ¬ InPrefix 32 range.1.toNat range.2 v

instance (v : ℕ) : Decidable (PublicV4 v) := inferInstanceAs (Decidable (∀ range ∈ blockedV4Ranges, ¬ InPrefix 32 range.1.toNat range.2 v))

/-- Outside the blocks of IPv6, and not the mapped address of a blocked IPv4 address. -/
def PublicV6 (v : ℕ) : Prop :=
  (∀ range ∈ blockedV6Ranges, ¬ InPrefix 128 range.1 range.2 v) ∧
    ∀ range ∈ blockedV4Ranges, ¬ InPrefix 128 (0xffff * 2 ^ 32 + range.1.toNat) (96 + range.2) v

/-- A valid address of a number that is public; a zone behind it does not matter. -/
def Public (address : List Char) : Prop :=
  (∃ v, parseIpv4 address = some v ∧ PublicV4 v) ∨
    isIP address = 6 ∧ ∃ ws, parseIpv6 (address.takeWhile (· ≠ '%')) = some ws ∧ PublicV6 (ipv6Value ws)

/-! ### Classification of IPv4 -/

theorem ipv4Part_octet {cs : List Char} {n : ℕ} (h : octet cs = some n) : ipv4Part cs = some n := by
  obtain ⟨h1, h2, h3, h4, h5⟩ := octet_some h
  have hle : ¬ 255 < n := by omega
  unfold ipv4Part
  rw [if_pos ⟨h1, h2, by simpa using h3⟩, h4]
  exact if_neg hle

theorem ipv4ToInt_parts {host a b c d : List Char} {i j k l : ℕ}
    (hs : host.splitOn '.' = [a, b, c, d]) (ha : ipv4Part a = some i)
    (hb : ipv4Part b = some j) (hc : ipv4Part c = some k) (hd : ipv4Part d = some l) :
    ipv4ToInt host = some (BitVec.ofNat 32 (((i * 256 + j) * 256 + k) * 256 + l)) := by
  simp [ipv4ToInt, hs, ha, hb, hc, hd]

theorem ipv4ToInt_of_parse {host : List Char} {v : ℕ}
    (h : parseIpv4 host = some v) : ipv4ToInt host = some (BitVec.ofNat 32 v) := by
  obtain ⟨a, b, c, d, i, j, k, l, hs, hi, hj, hk, hl, rfl⟩ := parseIpv4_some h
  have hv : ((i * 256 + j) * 256 + k) * 256 + l = i * 2 ^ 24 + j * 2 ^ 16 + k * 2 ^ 8 + l := by omega
  rw [← hv]
  exact ipv4ToInt_parts hs (ipv4Part_octet hi) (ipv4Part_octet hj) (ipv4Part_octet hk) (ipv4Part_octet hl)

theorem blockedV4Ranges_bits : ∀ range ∈ blockedV4Ranges, range.2 ≠ 0 ∧ range.2 ≤ 32 := by decide

theorem isBlockedIpv4_iff {host : List Char} {v : ℕ} (hv : v < 2 ^ 32)
    (h : ipv4ToInt host = some (BitVec.ofNat 32 v)) :
    isBlockedIpv4 host = true ↔ ¬ PublicV4 v := by
  unfold isBlockedIpv4 PublicV4
  simp only [h, List.any_eq_true, beq_iff_eq, not_forall, not_not, exists_prop]
  refine exists_congr fun range => and_congr_right fun hr => ?_
  rw [if_neg (blockedV4Ranges_bits range hr).1]
  have hm := and_mask_eq_iff (BitVec.ofNat 32 v) range.1 (32 - range.2)
  rw [BitVec.toNat_ofNat, Nat.mod_eq_of_lt hv] at hm
  exact hm

/-! ### Reading IPv6 addresses -/

theorem zoneChars_spec : ∀ c ∈ zoneChars, lowerCase c = [c.toLower] ∧ c.toLower ∈ zoneChars ∧ c ≠ '%' ∧ c ≠ '[' ∧ c ≠ ']' := by
  have htext : zoneChars = _ := String.toList_ofList
  refine forall_mem_of_all ?_
  rw [htext]
  decide +kernel

theorem hexDigits_zoneChars : ∀ c ∈ hexDigits, c ∈ zoneChars := by
  have htext : zoneChars = _ := String.toList_ofList
  have hhex : hexDigits = _ := String.toList_ofList
  refine forall_mem_of_all ?_
  rw [htext, hhex]
  decide +kernel

theorem separators_zoneChars : ':' ∈ zoneChars ∧ '.' ∈ zoneChars := by
  have htext : zoneChars = _ := String.toList_ofList
  rw [htext]
  simp

theorem mem_zoneChars_of_plain {text : List Char} (h : Plain text) : ∀ c ∈ text, c ∈ zoneChars := by
  intro c hc
  rcases h c hc with h | rfl | rfl
  · exact hexDigits_zoneChars c h
  · exact separators_zoneChars.1
  · exact separators_zoneChars.2

theorem lower_eq {text : List Char} (h : ∀ c ∈ text, c ∈ zoneChars ∨ c = '%') :
    lower text = text.map Char.toLower := by
  induction text with
  | nil => rfl
  | cons c text ih =>
    have hc : lowerCase c = [c.toLower] := by
      rcases h c (by simp) with hc | rfl
      · exact (zoneChars_spec c hc).1
      · decide
    rw [lower, List.flatMap_cons, hc, List.map_cons, ← ih fun d hd => h d (by simp [hd])]
    rfl

theorem stripBrackets_eq {text : List Char} (h : ∀ c ∈ text, c ∈ zoneChars ∨ c = '%') :
    stripBrackets text = text := by
  have hm : ∀ c ∈ text, c ≠ '[' ∧ c ≠ ']' := by
    intro c hc
    rcases h c hc with h | rfl
    · exact (zoneChars_spec c h).2.2.2
    · decide
  unfold stripBrackets
  have hh : ¬ text.head? = some '[' := fun he => (hm '[' (List.mem_of_head? he)).1 rfl
  have hl : ¬ text.getLast? = some ']' := fun he => (hm ']' (List.mem_of_getLast? he)).2 rfl
  rw [if_neg hh]
  exact if_neg hl

theorem halfParts_joinGroups {ws : List ℕ} (h : ∀ w ∈ ws, w < 2 ^ 16) :
    halfParts (some (joinGroups (ws.map (Nat.toDigits 16)))) = ws.map (Nat.toDigits 16) := by
  unfold halfParts
  cases ws with
  | nil => rfl
  | cons w ws =>
    have hw := toDigits_word (h w (by simp))
    have hne : joinGroups ((w :: ws).map (Nat.toDigits 16)) ≠ [] := by
      obtain ⟨c, cs, hcs⟩ := List.exists_cons_of_ne_nil hw.1
      rw [List.map_cons, hcs, joinGroups, List.intercalate_cons_cons_left]
      simp
    simp only [if_neg hne]
    refine splitOn_joinGroups (by simp) fun cs hc => ?_
    obtain ⟨v, hv, rfl⟩ := List.mem_map.mp hc
    exact (toDigits_word (h v hv)).2.2

theorem map_hexNumber_toDigits (ws : List ℕ) : (ws.map (Nat.toDigits 16)).map hexNumber = ws := by
  rw [List.map_map]
  conv_rhs => rw [← List.map_id ws]
  exact List.map_congr_left fun w _ => hexNumber_toDigits w

theorem isWord_toDigits {ws : List ℕ} (h : ∀ w ∈ ws, w < 2 ^ 16) :
    (ws.map (Nat.toDigits 16)).any (! isWord ·) = false := by
  simp only [List.any_map, List.any_eq_false, Function.comp_apply, Bool.not_eq_true', Bool.not_eq_false]
  intro w hw
  obtain ⟨h1, h2, -⟩ := toDigits_word (h w hw)
  simpa [isWord, h1, h2] using mem_toDigits w

theorem expandHalves_pair {l r : List ℕ} {n : ℕ} (hl : ∀ w ∈ l, w < 2 ^ 16)
    (hr : ∀ w ∈ r, w < 2 ^ 16) (hsum : l.length + n + r.length = 8) :
    expandHalves [joinGroups (l.map (Nat.toDigits 16)), joinGroups (r.map (Nat.toDigits 16))] = some (l ++ List.replicate n 0 ++ r) := by
  have hzero : 8 - l.length - r.length = n := by omega
  have hle : ¬ 8 < l.length + r.length := by omega
  have h0 : isWord ['0'] = true := by decide
  have hn : hexNumber ['0'] = 0 := by decide
  have hlen : l.length + (n + r.length) = 8 := by omega
  simp [expandHalves, halfParts_joinGroups hl, halfParts_joinGroups hr, hzero, hle, h0, hn, hlen, map_hexNumber_toDigits, isWord_toDigits hl,
    isWord_toDigits hr, -List.any_map, -List.map_map]

theorem expandHalves_whole {ws : List ℕ} (h : ∀ w ∈ ws, w < 2 ^ 16) (hlen : ws.length = 8) :
    expandHalves [joinGroups (ws.map (Nat.toDigits 16))] = some ws := by
  have hnone : halfParts none = [] := rfl
  simp [expandHalves, halfParts_joinGroups h, hnone, hlen, map_hexNumber_toDigits, isWord_toDigits h, -List.any_map, -List.map_map]

theorem ipv6ToWords_of_parse {host : List Char} {ws : List ℕ}
    (h : parseIpv6 host = some ws) : ipv6ToWords host = some ws := by
  obtain ⟨hlen, hlt⟩ := parseIpv6_words h
  obtain ⟨hp, c, -, hc⟩ := parseIpv6_some h
  have hz := mem_zoneChars_of_plain hp
  have hraw : lower (stripBrackets host) = host.map Char.toLower := by
    rw [stripBrackets_eq fun c hc => Or.inl (hz c hc), lower_eq fun c hc => Or.inl (hz c hc)]
  have hne : host.map Char.toLower ≠ [] := by
    intro he
    rw [List.map_eq_nil_iff] at he
    exact absurd hc (by simp [he])
  have hpct : '%' ∉ host.map Char.toLower := by
    intro hm
    obtain ⟨d, hd, he⟩ := List.mem_map.mp hm
    exact (zoneChars_spec _ (zoneChars_spec d (hz d hd)).2.1).2.2.1 he
  unfold ipv6ToWords
  simp only [hraw, hne, hpct, or_self, if_false, parseIpv6_toLower, h, Option.bind_some]
  rcases splitPairs_serializeIpv6 hlt with hs | ⟨l, n, r, -, hws, hs⟩
  · rw [hs, expandHalves_whole hlt hlen]
  · have hl : ∀ w ∈ l, w < 2 ^ 16 := fun w hw => hlt w (by simp [hws, hw])
    have hr : ∀ w ∈ r, w < 2 ^ 16 := fun w hw => hlt w (by simp [hws, hw])
    rw [hs, expandHalves_pair hl hr (by simpa [hws, Nat.add_assoc] using hlen), ← hws]

/-! ### Classification of IPv6 -/

theorem toDigits_octet : ∀ o < 256, ipv4Part (Nat.toDigits 10 o) = some o ∧ '.' ∉ Nat.toDigits 10 o := by
  have htext : digits10 = _ := String.toList_ofList
  simp only [ipv4Part, htext]
  decide +kernel

theorem ipv4ToInt_printed {a b c d : ℕ} (ha : a < 256) (hb : b < 256) (hc : c < 256)
    (hd : d < 256) :
    ipv4ToInt (['.'].intercalate [Nat.toDigits 10 a, Nat.toDigits 10 b, Nat.toDigits 10 c, Nat.toDigits 10 d]) =
      some (BitVec.ofNat 32 (((a * 256 + b) * 256 + c) * 256 + d)) := by
  refine ipv4ToInt_parts (List.splitOn_intercalate '.' ?_ (by simp)) (toDigits_octet a ha).1 (toDigits_octet b hb).1 (toDigits_octet c hc).1
    (toDigits_octet d hd).1
  simp only [List.mem_cons, List.not_mem_nil, or_false, forall_eq_or_imp, forall_eq]
  exact ⟨(toDigits_octet a ha).2, (toDigits_octet b hb).2, (toDigits_octet c hc).2, (toDigits_octet d hd).2⟩

theorem ipv4ToInt_wordsToIpv4 {words : List ℕ} {high low : ℕ} (h6 : words.getD 6 0 = high)
    (h7 : words.getD 7 0 = low) (hh : high < 2 ^ 16)
    (hl : low < 2 ^ 16) : ipv4ToInt (wordsToIpv4 words) = some (BitVec.ofNat 32 (high * 2 ^ 16 + low)) := by
  have hvalue : (BitVec.ofNat 32 high <<< 16) ||| BitVec.ofNat 32 low = BitVec.ofNat 32 (high * 2 ^ 16 + low) := by
    apply BitVec.eq_of_toNat_eq
    rw [BitVec.toNat_or, BitVec.toNat_shiftLeft, BitVec.toNat_ofNat, BitVec.toNat_ofNat, BitVec.toNat_ofNat, Nat.mod_eq_of_lt (by omega),
      Nat.mod_eq_of_lt (by omega), Nat.mod_eq_of_lt (by omega), Nat.mod_eq_of_lt (by omega), ← Nat.shiftLeft_add_eq_or_of_lt hl,
      Nat.shiftLeft_eq]
  have hlt : high * 2 ^ 16 + low < 2 ^ 32 := by omega
  have hand : ∀ x : ℕ, x &&& 255 = x % 256 := fun x => Nat.and_two_pow_sub_one_eq_mod x 8
  unfold wordsToIpv4
  simp only [h6, h7, hvalue, List.map_cons, List.map_nil, BitVec.toNat_and, BitVec.toNat_ushiftRight, BitVec.toNat_ofNat, Nat.mod_eq_of_lt hlt,
    Nat.shiftRight_eq_div_pow, hand]
  rw [ipv4ToInt_printed (by omega) (by omega) (by omega) (by omega)]
  have hsum : ∀ x : ℕ, ((x / 16777216 * 256 + x / 65536 % 256) * 256 + x / 256 % 256) * 256 + x % 256 = x := by omega
  rw [hsum]

theorem word_mask_iff {w base k : ℕ} (hw : w < 2 ^ 16) (hb : base < 2 ^ 16) (mask : BitVec 32)
    (hm : 0xffff#32 &&& (BitVec.allOnes 32 <<< k) = mask) (hbase : BitVec.ofNat 32 base &&& mask = BitVec.ofNat 32 base) :
    BitVec.ofNat 32 w &&& mask = BitVec.ofNat 32 base ↔ w / 2 ^ k = base / 2 ^ k := by
  have hlow : ∀ n < 2 ^ 16, BitVec.ofNat 32 n &&& mask = BitVec.ofNat 32 n &&& (BitVec.allOnes 32 <<< k) := by
    intro n hn
    have h16 : BitVec.ofNat 32 n &&& 0xffff#32 = BitVec.ofNat 32 n := by
      apply BitVec.eq_of_toNat_eq
      rw [BitVec.toNat_and, BitVec.toNat_ofNat, Nat.mod_eq_of_lt (by omega)]
      exact Nat.and_two_pow_sub_one_of_lt_two_pow hn
    rw [← hm, ← BitVec.and_assoc, h16]
  have h := and_mask_eq_iff (BitVec.ofNat 32 w) (BitVec.ofNat 32 base) k
  rw [BitVec.toNat_ofNat, BitVec.toNat_ofNat, Nat.mod_eq_of_lt (by omega), Nat.mod_eq_of_lt (by omega), ← hlow w hw, ← hlow base hb, hbase] at h
  exact h

theorem publicV6_iff {a b c d e f g h : ℕ} (hw : ∀ w ∈ [a, b, c, d, e, f, g, h], w < 2 ^ 16) :
    PublicV6 (ipv6Value [a, b, c, d, e, f, g, h]) ↔
      ipv6Value [a, b, c, d, e, f] ≠ 0 ∧ a / 2 ^ 9 ≠ 0xfc00 / 2 ^ 9 ∧ a / 2 ^ 6 ≠ 0xfe80 / 2 ^ 6 ∧ a / 2 ^ 6 ≠ 0xfec0 / 2 ^ 6 ∧
        a / 2 ^ 8 ≠ 0xff00 / 2 ^ 8 ∧ a * 2 ^ 16 + b ≠ 0x20010db8 ∧
        (ipv6Value [a, b, c, d, e, f] = 0xffff → PublicV4 (g * 2 ^ 16 + h)) := by
  have hg := hw g (by simp)
  have hh := hw h (by simp)
  have hlow : g * 2 ^ 16 + h < 2 ^ 32 := by omega
  have htop := ipv6Value_append [a] [b, c, d, e, f, g, h]
  have htwo := ipv6Value_append [a, b] [c, d, e, f, g, h]
  have hsix := ipv6Value_append [a, b, c, d, e, f] [g, h]
  have h1 : ipv6Value [b, c, d, e, f, g, h] < 2 ^ 112 := ipv6Value_lt fun w hm => hw w (List.mem_cons_of_mem _ hm)
  have h2 : ipv6Value [c, d, e, f, g, h] < 2 ^ 96 := ipv6Value_lt fun w hm => hw w (List.mem_cons_of_mem _ (List.mem_cons_of_mem _ hm))
  have hone : ipv6Value [a] = a := by simp [ipv6Value]
  have hpair : ∀ x y : ℕ, ipv6Value [x, y] = x * 2 ^ 16 + y := by simp [ipv6Value]
  simp only [List.cons_append, List.nil_append, List.length_cons, List.length_nil, hone, hpair, Nat.reduceAdd, Nat.reduceMul] at htop htwo hsix
  unfold PublicV6 PublicV4
  generalize ipv6Value [a, b, c, d, e, f, g, h] = v at htop htwo hsix ⊢
  generalize ipv6Value [a, b, c, d, e, f] = s at hsix ⊢
  have hblock : ∀ base bits, bits ≤ 16 → (InPrefix 128 (base * 2 ^ 112) bits v ↔ InPrefix 16 base bits a) := by
    intro base bits hb
    rw [htop]
    exact inPrefix_high hb h1
  have hdoc : InPrefix 128 (0x20010db8 * 2 ^ 96) 32 v ↔ InPrefix 32 0x20010db8 32 (a * 2 ^ 16 + b) := by
    rw [htwo]
    exact inPrefix_high (by decide) h2
  have hcompat : InPrefix 128 0 96 v ↔ InPrefix 96 0 96 s := by
    rw [hsix]
    exact @inPrefix_high 96 32 96 0 s _ (by decide) hlow
  have hmapped : ∀ base bits, bits ≤ 32 → base < 2 ^ 32 →
      (InPrefix 128 (0xffff * 2 ^ 32 + base) (96 + bits) v ↔ s = 0xffff ∧ InPrefix 32 base bits (g * 2 ^ 16 + h)) := by
    intro base bits hb hbase
    rw [hsix]
    exact inPrefix_low hb hlow hbase
  have hrange : (∀ range ∈ blockedV4Ranges, ¬ InPrefix 128 (0xffff * 2 ^ 32 + range.1.toNat) (96 + range.2) v) ↔
      (s = 0xffff → ∀ range ∈ blockedV4Ranges, ¬ InPrefix 32 range.1.toNat range.2 (g * 2 ^ 16 + h)) := by
    constructor
    · intro hall hs range hr hin
      exact hall range hr ((hmapped _ _ (blockedV4Ranges_bits range hr).2 range.1.isLt).mpr ⟨hs, hin⟩)
    · intro hall range hr hin
      obtain ⟨hs, hin⟩ := (hmapped _ _ (blockedV4Ranges_bits range hr).2 range.1.isLt).mp hin
      exact hall hs range hr hin
  rw [hrange]
  simp only [blockedV6Ranges, List.forall_mem_cons, List.not_mem_nil, hcompat, hdoc, hblock 0xfc00 7 (by decide), hblock 0xfe80 10 (by decide),
    hblock 0xfec0 10 (by decide), hblock 0xff00 8 (by decide), IsEmpty.forall_iff, implies_true, true_and, and_assoc]
  simp only [InPrefix, Nat.reduceSub, Nat.pow_zero, Nat.div_one, ne_eq]

theorem isBlockedIpv6_iff {host : List Char} {ws : List ℕ} (h : parseIpv6 host = some ws) :
    isBlockedIpv6 host = true ↔ ¬ PublicV6 (ipv6Value ws) := by
  obtain ⟨hlen, hw⟩ := parseIpv6_words h
  unfold isBlockedIpv6
  rw [ipv6ToWords_of_parse h]
  obtain ⟨a, b, c, d, e, f, g, x, rfl⟩ : ∃ a b c d e f g x, ws = [a, b, c, d, e, f, g, x] := by
    rcases ws with _ | ⟨a, _ | ⟨b, _ | ⟨c, _ | ⟨d, _ | ⟨e, _ | ⟨f, _ | ⟨g, _ | ⟨x, _ | ⟨y, ws⟩⟩⟩⟩⟩⟩⟩⟩⟩ <;> simp_all
  have ha := hw a (by simp)
  have hb := hw b (by simp)
  have hf := hw f (by simp)
  have hg := hw g (by simp)
  have hx := hw x (by simp)
  have hsum : ipv6Value [a, b, c, d, e, f] = ((((a * 2 ^ 16 + b) * 2 ^ 16 + c) * 2 ^ 16 + d) * 2 ^ 16 + e) * 2 ^ 16 + f := by simp [ipv6Value]
  have hlow : g * 2 ^ 16 + x < 2 ^ 32 := by omega
  have hv4 := isBlockedIpv4_iff hlow (@ipv4ToInt_wordsToIpv4 [a, b, c, d, e, f, g, x] g x rfl rfl hg hx)
  rw [publicV6_iff hw, hsum]
  have h1 := @word_mask_iff a 0xfc00 9 ha (by decide) 0xfe00#32 (by decide) (by decide)
  have h2 := @word_mask_iff a 0xfe80 6 ha (by decide) 0xffc0#32 (by decide) (by decide)
  have h3 := @word_mask_iff a 0xfec0 6 ha (by decide) 0xffc0#32 (by decide) (by decide)
  have h4 := @word_mask_iff a 0xff00 8 ha (by decide) 0xff00#32 (by decide) (by decide)
  simp only [List.take_succ_cons, List.take_zero, List.all_cons, List.all_nil, Bool.and_true, Bool.and_eq_true, decide_eq_true_eq,
    List.getElem?_cons_succ, List.getElem?_cons_zero, Option.some.injEq, List.getD_cons_zero]
  split_ifs with hm hc hp1 hp2 hp3 hp4
  · rw [hv4]
    obtain ⟨⟨rfl, rfl, rfl, rfl, rfl⟩, rfl⟩ := hm
    simp
  · obtain ⟨rfl, rfl, rfl, rfl, rfl, rfl⟩ := hc
    simp
  · exact iff_of_true rfl fun hp => hp.2.1 (h1.mp hp1)
  · exact iff_of_true rfl fun hp => hp.2.2.1 (h2.mp hp2)
  · exact iff_of_true rfl fun hp => hp.2.2.2.1 (h3.mp hp3)
  · exact iff_of_true rfl fun hp => hp.2.2.2.2.1 (h4.mp hp4)
  · rw [h1] at hp1
    rw [h2] at hp2
    rw [h3] at hp3
    rw [h4] at hp4
    have h0 : ((((a * 2 ^ 16 + b) * 2 ^ 16 + c) * 2 ^ 16 + d) * 2 ^ 16 + e) * 2 ^ 16 + f ≠ 0 := fun h0 => hc (by omega)
    have hff : ((((a * 2 ^ 16 + b) * 2 ^ 16 + c) * 2 ^ 16 + d) * 2 ^ 16 + e) * 2 ^ 16 + f ≠ 0xffff := fun hff => hm (by omega)
    have hdoc : a = 0x2001 ∧ b = 0x0db8 ↔ a * 2 ^ 16 + b = 0x20010db8 := by omega
    rw [decide_eq_true_eq, hdoc]
    constructor
    · intro hab hp
      exact hp.2.2.2.2.2.1 hab
    · intro hp
      by_contra hab
      exact hp ⟨h0, hp1, hp2, hp3, hp4, hab, fun h => absurd h hff⟩

/-! ### Literals -/

theorem isIP_cases (text : List Char) : isIP text = 0 ∨ isIP text = 4 ∨ isIP text = 6 := by
  unfold isIP
  split
  · exact Or.inr (Or.inl rfl)
  · split <;> (try split) <;> simp

theorem isIP_eq_four {text : List Char} : isIP text = 4 ↔ (parseIpv4 text).isSome := by
  unfold isIP
  split
  · simp_all
  · split <;> (try split) <;> simp_all

theorem isIP_eq_six {text : List Char} (h : isIP text = 6) :
    (∃ ws, parseIpv6 text = some ws) ∨
      ∃ address zone ws, text = address ++ '%' :: zone ∧ parseIpv6 address = some ws ∧ zone ≠ [] ∧ ∀ c ∈ zone, c ∈ zoneChars := by
  unfold isIP at h
  split at h
  · exact absurd h (by decide)
  · have ht : ['%'].intercalate (text.splitOn '%') = text := List.intercalate_splitOn '%'
    split at h
    · rename_i address hs
      rw [hs, List.intercalate_singleton] at ht
      subst ht
      split at h
      · rename_i hp
        exact Or.inl (Option.isSome_iff_exists.mp hp)
      · exact absurd h (by decide)
    · rename_i address zone hs
      rw [hs, List.intercalate_cons_cons, List.intercalate_singleton] at ht
      split at h
      · rename_i hp
        obtain ⟨ws, hws⟩ := Option.isSome_iff_exists.mp hp.1
        exact Or.inr ⟨address, zone, ws, by rw [← ht]; simp, hws, hp.2.1, forall_mem_of_all hp.2.2⟩
      · exact absurd h (by decide)
    · exact absurd h (by decide)

theorem percent_not_mem {text : List Char} (h : Plain text) : '%' ∉ text :=
  h.not_mem (by decide) (by decide) (by decide)

theorem takeWhile_percent {text : List Char} (h : '%' ∉ text) :
    text.takeWhile (· ≠ '%') = text := by
  rw [List.takeWhile_eq_self_iff]
  intro c hc
  simpa using fun he : c = '%' => h (he ▸ hc)

theorem takeWhile_zone {address zone : List Char}
    (h : '%' ∉ address) : (address ++ '%' :: zone).takeWhile (· ≠ '%') = address := by
  rw [List.takeWhile_append_of_pos]
  · simp
  · intro c hc
    simpa using fun he : c = '%' => h (he ▸ hc)

theorem parseIpv4_of_percent {text : List Char} (h : '%' ∈ text) : parseIpv4 text = none := by
  by_contra hne
  obtain ⟨v, hv⟩ := Option.ne_none_iff_exists'.mp hne
  rcases parseIpv4_chars hv '%' h with h | h
  · exact absurd h (by decide)
  · exact absurd h (by decide)

theorem parseIpv4_none_of_parseIpv6 {text : List Char} {ws : List ℕ}
    (h : parseIpv6 text = some ws) : parseIpv4 text = none := by
  by_contra hne
  obtain ⟨v, hv⟩ := Option.ne_none_iff_exists'.mp hne
  have hcolon : ':' ∉ text := by
    intro hm
    rcases parseIpv4_chars hv ':' hm with h | h
    · exact absurd h (by decide)
    · exact absurd h (by decide)
  have hs : splitPairs text = [text] := by simpa [splitPairs] using splitPairs_append hcolon []
  have hlen := (parseIpv6_words h).1
  unfold parseIpv6 at h
  rw [hs] at h
  obtain ⟨hw, -⟩ := Option.filter_eq_some_iff.mp h
  unfold halfWords at hw
  rw [List.splitOn_eq_singleton hcolon] at hw
  split at hw
  · simp_all
  · simp only [groupWords, lastGroup, hv, if_true, Option.some.injEq] at hw
    rw [← hw] at hlen
    exact absurd hlen (by simp)

theorem isIP_of_parseIpv6 {text : List Char} {ws : List ℕ}
    (h : parseIpv6 text = some ws) : isIP text = 6 := by
  unfold isIP
  rw [parseIpv4_none_of_parseIpv6 h, List.splitOn_eq_singleton (percent_not_mem (parseIpv6_some h).1)]
  simp [h]

theorem isIP_zone {address zone : List Char} {ws : List ℕ} (h : parseIpv6 address = some ws)
    (hz : ∀ c ∈ zone, c ∈ zoneChars) :
    isIP (address ++ '%' :: zone) = if zone = [] then 0 else 6 := by
  have hzone : '%' ∉ zone := fun hm => (zoneChars_spec '%' (hz '%' hm)).2.2.1 rfl
  unfold isIP
  rw [parseIpv4_of_percent (by simp), List.splitOn_append_cons_self_of_not_mem (percent_not_mem (parseIpv6_some h).1),
    List.splitOn_eq_singleton hzone]
  by_cases hn : zone = []
  · simp [hn]
  · simpa [h, hn] using hz

theorem assertPublicAddress_zone {address zone : List Char} {ws : List ℕ}
    (h : parseIpv6 address = some ws) (hz : ∀ c ∈ zone, c ∈ zoneChars) :
    assertPublicAddress (address ++ '%' :: zone) ≠ .ok () := by
  have hall : ∀ c ∈ address ++ '%' :: zone, c ∈ zoneChars ∨ c = '%' := by
    intro c hc
    simp only [List.mem_append, List.mem_cons] at hc
    rcases hc with hc | hc | hc
    · exact Or.inl (mem_zoneChars_of_plain (parseIpv6_some h).1 c hc)
    · exact Or.inr hc
    · exact Or.inl (hz c hc)
  have hpct : '%' ∈ (address ++ '%' :: zone).map Char.toLower := List.mem_map.mpr ⟨'%', by simp, by decide⟩
  have hwords : ipv6ToWords (address ++ '%' :: zone) = none := by
    unfold ipv6ToWords
    rw [stripBrackets_eq hall, lower_eq hall]
    exact if_pos (Or.inr hpct)
  unfold assertPublicAddress
  rw [isIP_zone h hz]
  by_cases hn : zone = []
  · simp [hn]
  · simp [hn, isBlockedIpv6, hwords]

theorem assertPublicAddress_iff (address : List Char) :
    assertPublicAddress address = .ok () ↔ Public address ∧ '%' ∉ address := by
  by_cases h4 : isIP address = 4
  · obtain ⟨v, hv⟩ := Option.isSome_iff_exists.mp (isIP_eq_four.mp h4)
    have hblocked := isBlockedIpv4_iff (parseIpv4_lt hv) (ipv4ToInt_of_parse hv)
    have hpct : '%' ∉ address := fun hm => by simp [parseIpv4_of_percent hm] at hv
    have hpublic : Public address ↔ PublicV4 v := by simp [Public, hv, h4]
    rw [hpublic, and_iff_left hpct]
    unfold assertPublicAddress
    by_cases hb : isBlockedIpv4 address = true
    · simp [h4, hb, hblocked.mp hb]
    · simp only [hb, h4]
      simpa using not_not.mp fun hn => hb (hblocked.mpr hn)
  · by_cases h6 : isIP address = 6
    · have hno : parseIpv4 address = none := by
        by_contra hne
        exact h4 (isIP_eq_four.mpr (Option.isSome_iff_ne_none.mpr hne))
      rcases isIP_eq_six h6 with ⟨ws, hws⟩ | ⟨addr, zone, ws, rfl, hws, hne, hz⟩
      · have hpct := percent_not_mem (parseIpv6_some hws).1
        have hblocked := isBlockedIpv6_iff hws
        have hpublic : Public address ↔ PublicV6 (ipv6Value ws) := by
          unfold Public
          rw [takeWhile_percent hpct]
          simp [hno, h6, hws]
        rw [hpublic, and_iff_left hpct]
        unfold assertPublicAddress
        by_cases hb : isBlockedIpv6 address = true
        · simp [h6, hb, hblocked.mp hb]
        · simp only [hb, h6]
          simpa using not_not.mp fun hn => hb (hblocked.mpr hn)
      · exact iff_of_false (assertPublicAddress_zone hws hz) fun h => h.2 (by simp)
    · have hno : ¬ Public address := by
        rintro (⟨v, hv, -⟩ | ⟨h, -⟩)
        · exact h4 (isIP_eq_four.mpr (by simp [hv]))
        · exact h6 h
      refine iff_of_false ?_ fun h => hno h.1
      simp [assertPublicAddress, h4, h6]

/-! ### Lookups -/

theorem checkRecords_ok {records : List Record}
    (h : checkRecords records = .ok ()) : ∀ record ∈ records, Public record.address := by
  induction records with
  | nil => simp
  | cons record records ih =>
    unfold checkRecords at h
    split at h
    · rename_i hok
      intro r hr
      rcases List.mem_cons.mp hr with rfl | hr
      · exact ((assertPublicAddress_iff _).mp hok).1
      · exact ih h r hr
    · exact absurd h (by simp)

theorem handOn_ok {requestedAll : Bool} {addresses records : List Record}
    (h : handOn requestedAll addresses = .ok records) :
    ∀ record ∈ records, Public record.address := by
  unfold handOn at h
  split at h
  · exact absurd h (by simp)
  · split at h
    · exact absurd h (by simp)
    · rename_i hok
      simp only [Except.ok.injEq] at h
      subst h
      intro record hr
      refine checkRecords_ok hok record ?_
      split at hr
      · exact hr
      · exact List.mem_of_mem_take hr

theorem createPublicOnlyLookup_ok {lookup : List Char → Answer} {hostname : List Char}
    {requestedAll : Bool} {records : List Record}
    (h : createPublicOnlyLookup lookup hostname requestedAll = .ok records) :
    ∀ record ∈ records, Public record.address := by
  unfold createPublicOnlyLookup at h
  split at h
  · exact absurd h (by simp)
  · exact handOn_ok h
  · exact handOn_ok h

/-! ### Hosts -/

theorem stripped_eq {text : List Char} (h : ∀ c ∈ text, c ∈ zoneChars ∨ c = '%') :
    stripBrackets (lower text) = text.map Char.toLower := by
  rw [lower_eq h]
  refine stripBrackets_eq fun c hc => ?_
  obtain ⟨d, hd, rfl⟩ := List.mem_map.mp hc
  rcases h d hd with hd | rfl
  · exact Or.inl (zoneChars_spec d hd).2.1
  · exact Or.inr (by decide)

theorem stripDot_append (before : List Char) (c : Char) :
    stripDot (before ++ [c]) = if c = '.' then before else before ++ [c] := by
  unfold stripDot
  rw [List.getLast?_concat, List.dropLast_concat]
  by_cases h : c = '.' <;> simp [h]

theorem stripDot_eq {text : List Char} (h : text.getLast? ≠ some '.') : stripDot text = text := if_neg h

theorem assertPublicHostname_ok {rawHost host : List Char}
    (hh : stripDot (stripBrackets (lower rawHost)) = host)
    (h : assertPublicHostname rawHost = .ok ()) (hip : isIP host ≠ 0) :
    assertPublicAddress host = .ok () := by
  unfold assertPublicHostname at h
  simp only [hh] at h
  split_ifs at h
  exact h

theorem toLower_ne_dot {c : Char} (h : c ≠ '.') : c.toLower ≠ '.' := fun he => h ((toLower_eq_separator (by simp) c).mp he)

theorem getLast?_map_toLower {text : List Char}
    (h : text.getLast? ≠ some '.') : (text.map Char.toLower).getLast? ≠ some '.' := by
  rw [List.getLast?_map]
  intro he
  obtain ⟨c, hc, he⟩ := Option.map_eq_some_iff.mp he
  exact h (by rw [hc, (toLower_eq_separator (by simp) c).mp he])

theorem parseIpv6_last {text : List Char} {ws : List ℕ}
    (h : parseIpv6 text = some ws) : text.getLast? ≠ some '.' := by
  obtain ⟨-, c, hc, hl⟩ := parseIpv6_some h
  rw [hl]
  rintro he
  simp only [Option.some.injEq] at he
  subst he
  rcases hc with hc | hc
  · exact absurd hc (by decide)
  · exact absurd hc (by decide)

theorem assertPublicHostname_of_last {rawHost before : List Char} {c : Char}
    (hh : stripDot (stripBrackets (lower rawHost)) = before ++ [c])
    (hc : c = '%' ∨ c = ']') (hip : isIP (before ++ [c]) = 0) : assertPublicHostname rawHost = .ok () := by
  have hlast : (before ++ [c]).getLast? = some c := by simp
  unfold assertPublicHostname
  simp only [hh]
  rw [if_neg (by simp), if_neg, if_neg, if_neg (by simp [hip])]
  · rintro ⟨suffix, hs, rest, hsuffix⟩
    have hends : ∀ suffix ∈ blockedSuffixes, suffix.toList ≠ [] ∧ suffix.toList.getLast? ≠ some '%' ∧ suffix.toList.getLast? ≠ some ']' := by
      decide
    obtain ⟨hne, h1, h2⟩ := hends suffix hs
    obtain ⟨d, hd⟩ := exists_getLast? hne
    rw [← hsuffix, List.getLast?_append, hd] at hlast
    have hdc : d = c := by simpa using hlast
    rcases hc with rfl | rfl
    · exact h1 (by rw [hd, hdc])
    · exact h2 (by rw [hd, hdc])
  · rintro ⟨name, hn, hname⟩
    have hends : ∀ name ∈ blockedHostnames, name.toList.getLast? ≠ some '%' ∧ name.toList.getLast? ≠ some ']' := by decide
    rw [hname] at hlast
    rcases hc with rfl | rfl
    · exact (hends name hn).1 hlast
    · exact (hends name hn).2 hlast

def EmptiedZone (hostname : List Char) : Prop :=
  ∃ address ws, hostname = address ++ "%.".toList ∧ parseIpv6 address = some ws ∧ ¬ PublicV6 (ipv6Value ws)

theorem public_of_literal {hostname : List Char} (h : assertPublicHostname hostname = .ok ())
    (hip : isIP hostname ≠ 0) (hz : ¬ EmptiedZone hostname) : Public hostname := by
  by_cases h4 : isIP hostname = 4
  · obtain ⟨v, hv⟩ := Option.isSome_iff_exists.mp (isIP_eq_four.mp h4)
    have hd : ∀ c ∈ digits10, c ∈ zoneChars ∧ c ≠ '.' := by
      have htext : zoneChars = _ := String.toList_ofList
      have hdigits : digits10 = _ := String.toList_ofList
      refine forall_mem_of_all ?_
      rw [htext, hdigits]
      decide +kernel
    have hchars : ∀ c ∈ hostname, c ∈ zoneChars ∨ c = '%' := by
      intro c hc
      rcases parseIpv4_chars hv c hc with hc | rfl
      · exact Or.inl (hd c hc).1
      · exact Or.inl separators_zoneChars.2
    have hlast : hostname.getLast? ≠ some '.' := by
      obtain ⟨c, hc, hl⟩ := parseIpv4_last hv
      rw [hl]
      simpa using (hd c hc).2
    have hv' : parseIpv4 (hostname.map Char.toLower) = some v := by rw [parseIpv4_toLower, hv]
    have hhost : stripDot (stripBrackets (lower hostname)) = hostname.map Char.toLower := by
      rw [stripped_eq hchars, stripDot_eq (getLast?_map_toLower hlast)]
    have h4' : isIP (hostname.map Char.toLower) = 4 := isIP_eq_four.mpr (by simp [hv'])
    have hpublic := ((assertPublicAddress_iff _).mp (assertPublicHostname_ok hhost h (by simp [h4']))).1
    rcases hpublic with ⟨u, hu, hp⟩ | ⟨h6, -⟩
    · rw [hv', Option.some.injEq] at hu
      subst hu
      exact Or.inl ⟨v, hv, hp⟩
    · rw [h4'] at h6
      exact absurd h6 (by decide)
  · have h6 : isIP hostname = 6 := by
      rcases isIP_cases hostname with h0 | h0 | h0
      · exact absurd h0 hip
      · exact absurd h0 h4
      · exact h0
    rcases isIP_eq_six h6 with ⟨ws, hws⟩ | ⟨address, zone, ws, rfl, hws, hne, hzone⟩
    · have hplain := (parseIpv6_some hws).1
      have hhost : stripDot (stripBrackets (lower hostname)) = hostname.map Char.toLower := by
        rw [stripped_eq fun c hc => Or.inl (mem_zoneChars_of_plain hplain c hc), stripDot_eq (getLast?_map_toLower (parseIpv6_last hws))]
      have hws' : parseIpv6 (hostname.map Char.toLower) = some ws := by rw [parseIpv6_toLower, hws]
      have hok := assertPublicHostname_ok hhost h (by simp [isIP_of_parseIpv6 hws'])
      rcases ((assertPublicAddress_iff _).mp hok).1 with ⟨u, hu, -⟩ | ⟨-, vs, hvs, hp⟩
      · rw [parseIpv4_none_of_parseIpv6 hws'] at hu
        exact absurd hu (by simp)
      · rw [takeWhile_percent (percent_not_mem (parseIpv6_some hws').1), hws', Option.some.injEq] at hvs
        subst hvs
        exact Or.inr ⟨h6, ws, by rw [takeWhile_percent (percent_not_mem hplain), hws], hp⟩
    · have hplain := (parseIpv6_some hws).1
      have hchars : ∀ c ∈ address ++ '%' :: zone, c ∈ zoneChars ∨ c = '%' := by
        intro c hc
        simp only [List.mem_append, List.mem_cons] at hc
        rcases hc with hc | hc | hc
        · exact Or.inl (mem_zoneChars_of_plain hplain c hc)
        · exact Or.inr hc
        · exact Or.inl (hzone c hc)
      by_cases hdot : zone = ['.']
      · subst hdot
        refine Or.inr ⟨h6, ws, by rw [takeWhile_zone (percent_not_mem hplain), hws], ?_⟩
        by_contra hp
        exact hz ⟨address, ws, rfl, hws, hp⟩
      · -- a zone of which something is left is refused, stripped or not
        obtain ⟨rest, hrest, hrne, hrzone⟩ : ∃ rest, stripDot (stripBrackets (lower (address ++ '%' :: zone))) =
            address.map Char.toLower ++ '%' :: rest ∧ rest ≠ [] ∧ ∀ c ∈ rest, c ∈ zoneChars := by
          have hzlow : ∀ c ∈ zone.map Char.toLower, c ∈ zoneChars := by
            intro c hc
            obtain ⟨d, hd, rfl⟩ := List.mem_map.mp hc
            exact (zoneChars_spec d (hzone d hd)).2.1
          rw [stripped_eq hchars, List.map_append, List.map_cons, show '%'.toLower = '%' from by decide]
          rcases List.eq_nil_or_concat' zone with rfl | ⟨before, last, rfl⟩
          · exact absurd rfl hne
          have hsplit : address.map Char.toLower ++ '%' :: (before ++ [last]).map Char.toLower =
              (address.map Char.toLower ++ '%' :: before.map Char.toLower) ++ [last.toLower] := by simp
          rw [hsplit, stripDot_append]
          by_cases hlast : last = '.'
          · subst hlast
            refine ⟨before.map Char.toLower, if_pos (by decide), ?_, fun c hc => hzlow c ?_⟩
            · intro hnil
              rw [List.map_eq_nil_iff] at hnil
              exact hdot (by rw [hnil, List.nil_append])
            · rw [List.map_append]
              exact List.mem_append_left _ hc
          · refine ⟨(before ++ [last]).map Char.toLower, ?_, by simp, hzlow⟩
            rw [if_neg (toLower_ne_dot hlast), hsplit]
        have hok := assertPublicHostname_ok hrest h (by rw [isIP_zone (by rw [parseIpv6_toLower, hws]) hrzone, if_neg hrne]; decide)
        exact absurd hok (assertPublicAddress_zone (by rw [parseIpv6_toLower, hws]) hrzone)

/-- A public literal is handed on, or refused; the others that are
handed on have an emptied zone. -/
theorem connector_handed_iff (hostname : List Char) :
    (∀ (lookup : List Char → Answer) (requestedAll : Bool) (addresses : List (List Char)),
        createPublicOnlyConnector lookup hostname requestedAll = .ok addresses → ∀ address ∈ addresses, Public address) ↔
      ¬ EmptiedZone hostname := by
  constructor
  · rintro hall ⟨address, ws, rfl, hws, hp⟩
    have hplain := (parseIpv6_some hws).1
    have hz : ∀ c ∈ ['.'], c ∈ zoneChars := by simpa using separators_zoneChars.2
    have h6 : isIP (address ++ "%.".toList) = 6 := by
      have h := isIP_zone hws hz
      rwa [if_neg (by decide)] at h
    have hhost : stripDot (stripBrackets (lower (address ++ "%.".toList))) = address.map Char.toLower ++ ['%'] := by
      rw [stripped_eq, List.map_append]
      · have hlow : "%.".toList.map Char.toLower = ['%'] ++ ['.'] := by decide
        rw [hlow, ← List.append_assoc, stripDot_append, if_pos rfl]
      · intro c hc
        rcases List.mem_append.mp hc with hc | hc
        · exact Or.inl (mem_zoneChars_of_plain hplain c hc)
        · have : ∀ c ∈ "%.".toList, c ∈ zoneChars ∨ c = '%' := by simpa using separators_zoneChars.2
          exact this c hc
    have h0 : isIP (address.map Char.toLower ++ ['%']) = 0 := by
      have h := @isIP_zone (address.map Char.toLower) [] ws (by rw [parseIpv6_toLower, hws]) (by simp)
      simpa using h
    have hok : assertPublicHostname (address ++ "%.".toList) = .ok () := assertPublicHostname_of_last hhost (Or.inl rfl) h0
    have hhand : createPublicOnlyConnector (fun _ => .records []) (address ++ "%.".toList) false = .ok [address ++ "%.".toList] := by
      rw [createPublicOnlyConnector, hok]
      exact if_pos (by rw [h6]; decide)
    rcases hall _ _ _ hhand _ (List.mem_singleton_self _) with ⟨v, hv, -⟩ | ⟨-, vs, hvs, hpub⟩
    · rw [parseIpv4_of_percent (by simp)] at hv
      exact absurd hv (by simp)
    · have htake : (address ++ "%.".toList).takeWhile (· ≠ '%') = address := takeWhile_zone (percent_not_mem hplain)
      rw [htake, hws, Option.some.injEq] at hvs
      subst hvs
      exact hp hpub
  · intro hz lookup requestedAll addresses h
    unfold createPublicOnlyConnector at h
    split at h
    · exact absurd h (by simp)
    · rename_i hok
      split at h
      · rename_i hip
        simp only [Except.ok.injEq] at h
        subst h
        simpa using public_of_literal hok hip hz
      · cases hl : createPublicOnlyLookup lookup hostname requestedAll with
        | error refusal => simp [hl, Except.map] at h
        | ok records =>
          simp only [hl, Except.map, Except.ok.injEq] at h
          subst h
          intro address ha
          obtain ⟨record, hr, rfl⟩ := List.mem_map.mp ha
          exact createPublicOnlyLookup_ok hl record hr

/-! ### Spellings of a blocked address -/

/-- A host as it may be written: in brackets, and with a trailing dot. -/
def decorate (bracketed dotted : Bool) (text : List Char) : List Char :=
  (if bracketed then '[' :: (text ++ [']']) else text) ++ (if dotted then ['.'] else [])

theorem not_publicV6_of_embedded {v n : ℕ} (hv : ¬ PublicV4 v)
    (hn : n = v ∨ n = 0xffff * 2 ^ 32 + v) : ¬ PublicV6 n := by
  simp only [PublicV4, not_forall, not_not] at hv
  obtain ⟨range, hr, hin⟩ := hv
  have hlt := hin.lt range.1.isLt
  intro hp
  rcases hn with rfl | rfl
  · refine hp.1 (0, 96) (by simp [blockedV6Ranges]) ?_
    have h := (@inPrefix_high 96 32 96 0 0 n (by decide) hlt).mpr rfl
    simpa using h
  · exact hp.2 range hr ((inPrefix_low (blockedV4Ranges_bits range hr).2 hlt range.1.isLt).mpr ⟨rfl, hin⟩)

theorem refused_of_host {rawHost host : List Char}
    (hh : stripDot (stripBrackets (lower rawHost)) = host) (hip : isIP host ≠ 0)
    (hno : assertPublicAddress host ≠ .ok ()) :
    ∃ refusal, assertPublicHostname rawHost = .error refusal := by
  cases hr : assertPublicHostname rawHost with
  | error refusal => exact ⟨refusal, rfl⟩
  | ok => exact absurd (assertPublicHostname_ok hh hr hip) hno

theorem isIP_bracket (text : List Char) (h : '%' ∉ text) : isIP (text ++ [']']) = 0 := by
  rcases isIP_cases (text ++ [']']) with h0 | h4 | h6
  · exact h0
  · obtain ⟨v, hv⟩ := Option.isSome_iff_exists.mp (isIP_eq_four.mp h4)
    rcases parseIpv4_chars hv ']' (by simp) with hc | hc
    · exact absurd hc (by decide)
    · exact absurd hc (by decide)
  · rcases isIP_eq_six h6 with ⟨ws, hws⟩ | ⟨address, zone, ws, hs, -⟩
    · exact absurd (by simp) ((parseIpv6_some hws).1.not_mem (c := ']') (by decide) (by decide) (by decide))
    · have hm : '%' ∈ text ++ [']'] := by simp [hs]
      simp [h] at hm

theorem stripBrackets_bracketed (text : List Char) :
    stripBrackets ('[' :: (text ++ [']'])) = text := by
  unfold stripBrackets
  rw [List.head?_cons, if_pos rfl, List.tail_cons]
  simp

theorem lower_append (s t : List Char) : lower (s ++ t) = lower s ++ lower t := List.flatMap_append

/-- An embedding of a blocked address is refused in every spelling but the one with brackets before
a dot, which keeps its last bracket. -/
theorem embedded_refused_iff {text : List Char} {ws : List ℕ} {v : ℕ} (bracketed dotted : Bool)
    (h : parseIpv6 text = some ws)
    (hn : ipv6Value ws = v ∨ ipv6Value ws = 0xffff * 2 ^ 32 + v) (hv : ¬ PublicV4 v) :
    (∃ refusal, assertPublicHostname (decorate bracketed dotted text) = .error refusal) ↔ ¬ (bracketed = true ∧ dotted = true) := by
  have hplain := (parseIpv6_some h).1
  have hchars : ∀ c ∈ text, c ∈ zoneChars ∨ c = '%' := fun c hc => Or.inl (mem_zoneChars_of_plain hplain c hc)
  have hlow : ∀ c ∈ text.map Char.toLower, c ∈ zoneChars ∨ c = '%' := by
    intro c hc
    obtain ⟨d, hd, rfl⟩ := List.mem_map.mp hc
    exact Or.inl (zoneChars_spec d (mem_zoneChars_of_plain hplain d hd)).2.1
  have h' : parseIpv6 (text.map Char.toLower) = some ws := by rw [parseIpv6_toLower, h]
  have hpct := percent_not_mem (parseIpv6_some h').1
  have hlast := getLast?_map_toLower (parseIpv6_last h)
  have hip : isIP (text.map Char.toLower) ≠ 0 := by
    rw [isIP_of_parseIpv6 h']
    decide
  have hno : assertPublicAddress (text.map Char.toLower) ≠ .ok () := by
    rw [ne_eq, assertPublicAddress_iff]
    rintro ⟨⟨u, hu, -⟩ | ⟨-, vs, hvs, hp⟩, -⟩
    · rw [parseIpv4_none_of_parseIpv6 h'] at hu
      exact absurd hu (by simp)
    · rw [takeWhile_percent hpct, h', Option.some.injEq] at hvs
      subst hvs
      exact not_publicV6_of_embedded hv hn hp
  have hdot : lower ['.'] = ['.'] := by decide
  have hopen : lower ['['] = ['['] := by decide
  have hclose : lower [']'] = [']'] := by decide
  have hbracket : lower ('[' :: (text ++ [']'])) = '[' :: (text.map Char.toLower ++ [']']) := by
    rw [← List.singleton_append, lower_append, lower_append, lower_eq hchars, hopen, hclose]
    rfl
  cases bracketed with
  | false =>
    cases dotted with
    | false =>
      refine iff_of_true (refused_of_host ?_ hip hno) (by simp)
      simp only [decorate, Bool.false_eq_true, if_false, List.append_nil]
      rw [stripped_eq hchars, stripDot_eq hlast]
    | true =>
      refine iff_of_true (refused_of_host ?_ hip hno) (by simp)
      simp only [decorate, Bool.false_eq_true, if_false, if_true]
      rw [lower_append, lower_eq hchars, hdot, stripBrackets_eq, stripDot_append, if_pos rfl]
      intro c hc
      rcases List.mem_append.mp hc with hc | hc
      · exact hlow c hc
      · rw [List.mem_singleton.mp hc]
        exact Or.inl separators_zoneChars.2
  | true =>
    cases dotted with
    | false =>
      refine iff_of_true (refused_of_host ?_ hip hno) (by simp)
      simp only [decorate, Bool.false_eq_true, if_false, if_true, List.append_nil]
      rw [hbracket, stripBrackets_bracketed, stripDot_eq hlast]
    | true =>
      refine iff_of_false ?_ (by simp)
      have hhost : stripDot (stripBrackets (lower (decorate true true text))) = text.map Char.toLower ++ [']'] := by
        simp only [decorate, if_true]
        rw [lower_append, hbracket, hdot, List.cons_append, stripBrackets, List.head?_cons, if_pos rfl, List.tail_cons, if_neg (by simp),
          stripDot_append, if_pos rfl]
      rintro ⟨refusal, hr⟩
      rw [assertPublicHostname_of_last hhost (Or.inr rfl) (isIP_bracket _ hpct)] at hr
      exact absurd hr (by simp)

/-- What the connector hands on is public unless the dot it strips was the zone of a literal, and
every embedding of a blocked address is refused unless it stands in brackets before a dot. -/
theorem connector_public (hostname text : List Char) (v : ℕ) (bracketed dotted : Bool) :
    ((∀ (lookup : List Char → Answer) (requestedAll : Bool) (addresses : List (List Char)),
        createPublicOnlyConnector lookup hostname requestedAll = .ok addresses → ∀ address ∈ addresses, Public address) ↔
      ¬ EmptiedZone hostname) ∧
    ∀ ws, parseIpv6 text = some ws → (ipv6Value ws = v ∨ ipv6Value ws = 0xffff * 2 ^ 32 + v) → ¬ PublicV4 v →
      ((∃ refusal, assertPublicHostname (decorate bracketed dotted text) = .error refusal) ↔ ¬ (bracketed = true ∧ dotted = true)) :=
  ⟨connector_handed_iff hostname, fun _ h hn hv => embedded_refused_iff bracketed dotted h hn hv⟩

/-- The loopback address, in brackets before a dot and with a dot for its zone. -/
theorem loopback_not_refused :
    (parseIpv6 "::ffff:127.0.0.1".toList = some [0, 0, 0, 0, 0, 0xffff, 0x7f00, 1] ∧ ¬ PublicV4 (127 * 2 ^ 24 + 1) ∧
      assertPublicHostname "[::ffff:127.0.0.1].".toList = .ok ()) ∧
    (createPublicOnlyConnector (fun _ => .records []) "::1%.".toList false = .ok ["::1%.".toList] ∧ isBlockedIpv6 "::1".toList = true) := by
  decide +kernel

end TokenProxy.Ssrf
