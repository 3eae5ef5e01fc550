import TokenProxy.Lib.JsonText

/-!
# What may follow a text

Nothing but spaces follows the text of an object: the tokens of what is in front of a text are the
first of its tokens (`lex_append`), and the reader takes no token behind a value with nothing open
around it. So no object text begins with a text written twice (`not_twice`).
-/

namespace TokenProxy.Lib.JsonText

def Closed (tokens : List Token) : Prop := ∀ token ∈ tokens.getLast?, token.isWord = false

theorem Closed.tail {token : Token} {tokens : List Token}
    (h : Closed (token :: tokens)) : Closed tokens := by
  cases tokens with
  | nil => simp [Closed]
  | cons next tokens => simpa [Closed, List.getLast?_cons_cons] using h

theorem Spelled.ne_nil {tokens : List Token} {text : Text} (h : Spelled tokens text)
    (hne : tokens ≠ []) : text ≠ [] := by
  rintro rfl
  have hlex := lex_eq_some.2 h
  rw [lex, lexUpTo_nil] at hlex
  exact hne (Option.some.inj hlex).symm

theorem lexUpTo_append {tokens : List Token} {text : Text} (h : Spelled tokens text)
    (hclosed : Closed tokens) (rest : Text) {n : ℕ}
    (hn : (text ++ rest).length ≤ n) :
    ∃ m, rest.length ≤ m ∧ lexUpTo n (text ++ rest) = (lexUpTo m rest).map (tokens ++ ·) := by
  induction h generalizing n with
  | nil => exact ⟨n, hn, by simp⟩
  | @space c tokens text hspace _ ih =>
    cases n with
    | zero => simp at hn
    | succ n =>
      obtain ⟨m, hm, heq⟩ := ih hclosed (n := n) (by simpa using hn)
      exact ⟨m, hm, by rw [List.cons_append, lexUpTo, if_pos hspace, heq]⟩
  | @mark k tokens text _ ih =>
    cases n with
    | zero => simp at hn
    | succ n =>
      obtain ⟨m, hm, heq⟩ := ih hclosed.tail (n := n) (by simpa using hn)
      obtain ⟨hspace, hquote⟩ := unit_ne k
      refine ⟨m, hm, ?_⟩
      rw [List.cons_append, lexUpTo, if_neg (Bool.eq_false_iff.1 hspace), if_neg hquote, markOf_unit, heq]
      cases lexUpTo m rest <;> rfl
  | @string body tokens text hbody _ ih =>
    cases n with
    | zero => simp at hn
    | succ n =>
      have hlength : (text ++ rest).length ≤ n := by
        simp only [List.cons_append, List.length_cons, List.length_append] at hn ⊢
        omega
      obtain ⟨m, hm, heq⟩ := ih hclosed.tail hlength
      refine ⟨m, hm, ?_⟩
      rw [List.cons_append, List.cons_append, List.append_assoc, List.cons_append, lexUpTo, if_neg (by decide), if_pos rfl,
        readString_of_body hbody (text ++ rest), Option.bind_eq_bind, Option.bind_some]
      simp only [heq]
      cases lexUpTo m rest <;> rfl
  | @word w tokens text hne hplain hword hend hspelled ih =>
    have htokens : tokens ≠ [] := by
      rintro rfl
      have := hclosed (.word w) (by simp)
      cases this
    have htext := hspelled.ne_nil htokens
    cases n with
    | zero =>
      rw [Nat.le_zero, List.length_append, List.length_append] at hn
      have := List.length_pos_iff.2 hne
      omega
    | succ n =>
      cases w with
      | nil => exact absurd rfl hne
      | cons c w =>
        obtain ⟨m, hm, heq⟩ := ih hclosed.tail (n := n) (by simp at hn ⊢; omega)
        have hc := hplain c (List.mem_cons_self ..)
        simp only [isPlain, Bool.and_eq_true, Bool.not_eq_true', decide_eq_true_eq] at hc
        have hw : ∀ d ∈ w, isPlain d = true := fun d hd => hplain d (List.mem_cons_of_mem c hd)
        have hafter : (text ++ rest).takeWhile isPlain = [] ∧ (text ++ rest).dropWhile isPlain = text ++ rest := by
          cases text with
          | nil => exact absurd rfl htext
          | cons d text =>
            have hd := hend d rfl
            rw [List.cons_append, List.takeWhile_cons, List.dropWhile_cons, hd]
            exact ⟨rfl, rfl⟩
        have htake : (w ++ (text ++ rest)).takeWhile isPlain = w := by
          rw [List.takeWhile_append_of_pos hw, hafter.1, List.append_nil]
        have hdrop : (w ++ (text ++ rest)).dropWhile isPlain = text ++ rest := by
          rw [List.dropWhile_append_of_pos hw, hafter.2]
        refine ⟨m, hm, ?_⟩
        rw [List.append_assoc, List.cons_append, lexUpTo, if_neg (Bool.eq_false_iff.1 hc.1.1), if_neg hc.1.2, hc.2]
        simp only [htake, hdrop, hword, if_true, heq]
        cases lexUpTo m rest <;> rfl

theorem lexUpTo_of_length_le {text : Text} {n : ℕ}
    (h : text.length ≤ n) : lexUpTo n text = lex text := by
  cases hlex : lex text with
  | some tokens => exact lexUpTo_of_spelled (lex_eq_some.1 hlex) h
  | none =>
    cases hup : lexUpTo n text with
    | none => rfl
    | some tokens =>
      rw [lex_eq_some.2 (lexUpTo_spelled hup)] at hlex
      cases hlex

theorem lex_append {tokens : List Token} {text : Text} (h : lex text = some tokens)
    (hclosed : Closed tokens) (rest : Text) :
    lex (text ++ rest) = (lex rest).map (tokens ++ ·) := by
  obtain ⟨m, hm, heq⟩ := lexUpTo_append (lex_eq_some.1 h) hclosed rest (Nat.le_refl _)
  rw [lex, heq, lexUpTo_of_length_le hm]

/-! ### Objects -/

/-- Behind the first brace of a text a value is complete only behind a mark. -/
def Inside (r : Reader) : Prop := r.stack = [] → r.mode ≠ .value ∧ r.mode ≠ .firstItem

theorem Reader.valueToken_inside {r r' : Reader} {token : Token} (hr : r.stack ≠ [])
    (h : r.valueToken token = some r') :
    Inside r' ∧ (token.isWord = true → r'.stack ≠ []) := by
  cases token with
  | string body =>
    obtain rfl := Option.some.inj h
    exact ⟨fun hstack => absurd hstack hr, fun _ => hr⟩
  | word text =>
    obtain rfl := Option.some.inj h
    exact ⟨fun hstack => absurd hstack hr, fun _ => hr⟩
  | mark m =>
    refine ⟨fun hstack => ?_, fun hword => absurd hword Bool.false_ne_true⟩
    cases m with
    | openArray =>
      obtain rfl := Option.some.inj h
      cases hstack
    | openObject =>
      obtain rfl := Option.some.inj h
      exact absurd hstack hr
    | _ => cases h

theorem Reader.keyToken_inside {r r' : Reader} {fields : List (Text × Value)} {token : Token}
    (h : r.keyToken fields token = some r') :
    Inside r' ∧ token.isWord = false := by
  cases token with
  | string key =>
    obtain rfl := Option.some.inj h
    exact ⟨fun _ => ⟨by simp, by simp⟩, rfl⟩
  | _ => cases h

theorem Reader.afterToken_inside {value : Value} {stack : List Frame} {token : Token} {r' : Reader}
    (h : Reader.afterToken value stack token = some r') : Inside r' ∧ token.isWord = false := by
  cases stack with
  | nil => simp [Reader.afterToken] at h
  | cons frame stack =>
    cases token with
    | mark m =>
      refine ⟨fun hstack => ?_, rfl⟩
      cases frame <;> cases m <;> simp [Reader.afterToken] at h <;> subst h <;> simp at hstack ⊢
    | _ => cases frame <;> simp [Reader.afterToken] at h

theorem Reader.read_inside {r r' : Reader} {token : Token} (hr : Inside r)
    (h : r.read token = some r') :
    Inside r' ∧ (token.isWord = true → r'.stack ≠ []) := by
  have hnone : token.isWord = false → token.isWord = true → r'.stack ≠ [] := by
    intro hfalse htrue
    rw [hfalse] at htrue
    cases htrue
  rw [Reader.read] at h
  cases hmode : r.mode with
  | value =>
    simp only [hmode] at h
    exact Reader.valueToken_inside (fun hstack => (hr hstack).1 hmode) h
  | firstItem =>
    simp only [hmode] at h
    split_ifs at h with hclose
    · obtain rfl := Option.some.inj h
      exact ⟨fun _ => ⟨by simp, by simp⟩, hnone (by rw [hclose]; rfl)⟩
    · exact Reader.valueToken_inside (fun hstack => (hr hstack).2 hmode) h
  | firstKey =>
    simp only [hmode] at h
    split_ifs at h with hclose
    · obtain rfl := Option.some.inj h
      exact ⟨fun _ => ⟨by simp, by simp⟩, hnone (by rw [hclose]; rfl)⟩
    · exact (Reader.keyToken_inside h).imp_right hnone
  | key fields =>
    simp only [hmode] at h
    exact (Reader.keyToken_inside h).imp_right hnone
  | colon fields key =>
    simp only [hmode] at h
    split_ifs at h with hcolon
    obtain rfl := Option.some.inj h
    exact ⟨fun hstack => absurd hstack (List.cons_ne_nil _ _), hnone (by rw [hcolon]; rfl)⟩
  | after value =>
    simp only [hmode] at h
    exact (Reader.afterToken_inside h).imp_right hnone

theorem closed_of_foldlM {tokens : List Token} {r r' : Reader} (hr : Inside r)
    (h : tokens.foldlM Reader.read r = some r') (hstack : r'.stack = []) : Closed tokens := by
  induction tokens generalizing r with
  | nil => simp [Closed]
  | cons token tokens ih =>
    rw [List.foldlM_cons, Option.bind_eq_bind, Option.bind_eq_some_iff] at h
    obtain ⟨r₁, hread, hrest⟩ := h
    obtain ⟨hinside, hword⟩ := Reader.read_inside hr hread
    cases tokens with
    | nil =>
      obtain rfl := Option.some.inj hrest
      intro last hlast
      obtain rfl : token = last := by simpa using hlast
      cases htoken : token.isWord with
      | false => rfl
      | true => exact absurd hstack (hword htoken)
    | cons next tokens =>
      have := ih hinside hrest
      simpa [Closed, List.getLast?_cons_cons] using this

theorem closed_of_container {tokens : List Token} {m : Mark} {value : Value}
    (hopen : m = .openArray ∨ m = .openObject)
    (h : parseTokens (.mark m :: tokens) = some value) : Closed (.mark m :: tokens) := by
  obtain ⟨r, hread, hfinish⟩ := Option.bind_eq_some_iff.1 h
  have hstack : r.stack = [] := by
    obtain ⟨stack, mode⟩ := r
    cases stack with
    | nil => rfl
    | cons frame stack => simp [Reader.finish] at hfinish
  rw [List.foldlM_cons, Option.bind_eq_bind, Option.bind_eq_some_iff] at hread
  obtain ⟨r₁, hfirst, hrest⟩ := hread
  have hinside : Inside r₁ := by
    rcases hopen with rfl | rfl
    · obtain rfl : { stack := [.array []], mode := .firstItem } = r₁ := Option.some.inj hfirst
      exact fun hnil => absurd hnil (List.cons_ne_nil _ _)
    · obtain rfl : { stack := [], mode := .firstKey } = r₁ := Option.some.inj hfirst
      exact fun _ => ⟨by simp, by simp⟩
  have hclosed := closed_of_foldlM hinside hrest hstack
  cases tokens with
  | nil =>
    intro last hlast
    obtain rfl : Token.mark m = last := by simpa using hlast
    rfl
  | cons next tokens => simpa [Closed, List.getLast?_cons_cons] using hclosed

theorem parseTokens_append {tokens rest : List Token} {value value' : Value}
    (h : parseTokens tokens = some value)
    (h' : parseTokens (tokens ++ rest) = some value') : rest = [] := by
  obtain ⟨r, hread, hfinish⟩ := Option.bind_eq_some_iff.1 h
  obtain ⟨r', hread', -⟩ := Option.bind_eq_some_iff.1 h'
  rw [List.foldlM_append, hread] at hread'
  obtain ⟨stack, mode⟩ := r
  cases rest with
  | nil => rfl
  | cons token rest =>
    rw [Option.bind_eq_bind, Option.bind_some, List.foldlM_cons, Option.bind_eq_bind, Option.bind_eq_some_iff] at hread'
    obtain ⟨r₁, hfirst, -⟩ := hread'
    cases stack with
    | cons frame stack => simp [Reader.finish] at hfinish
    | nil =>
      cases mode with
      | after value => simp [Reader.read, Reader.afterToken] at hfirst
      | _ => simp [Reader.finish] at hfinish

def firstUnit (text : Text) : Option CodeUnit := text.find? fun c => !isSpace c

theorem firstUnit_mark {m : Mark} {tokens : List Token} {text : Text}
    (h : Spelled (.mark m :: tokens) text) :
    firstUnit text = some m.unit := by
  generalize htokens : Token.mark m :: tokens = all at h
  induction h with
  | space hspace _ ih =>
    rw [firstUnit, List.find?_cons_of_neg (by simpa using hspace)]
    exact ih htokens
  | mark k _ _ =>
    obtain ⟨rfl, -⟩ : m = k ∧ _ := by simpa using htokens
    simp [firstUnit, (unit_ne m).1]
  | _ => simp at htokens

theorem firstUnit_of_ne_nil {tokens : List Token} {text : Text} (h : Spelled tokens text)
    (hne : tokens ≠ []) :
    ∃ c, firstUnit text = some c := by
  induction h with
  | nil => exact absurd rfl hne
  | space hspace _ ih =>
    obtain ⟨c, hc⟩ := ih hne
    exact ⟨c, by rw [firstUnit, List.find?_cons_of_neg (by simpa using hspace)]; exact hc⟩
  | mark m _ _ => exact ⟨m.unit, by simp [firstUnit, (unit_ne m).1]⟩
  | string hbody _ _ =>
    have hspace : isSpace quote = false := by decide
    exact ⟨quote, by simp [firstUnit, hspace]⟩
  | @word w tokens text hw hplain _ _ _ _ =>
    cases w with
    | nil => exact absurd rfl hw
    | cons c w =>
      have hc := hplain c (List.mem_cons_self ..)
      simp only [isPlain, Bool.and_eq_true, Bool.not_eq_true'] at hc
      exact ⟨c, by simp [firstUnit, hc.1.1]⟩

theorem firstUnit_append {text : Text} {c : CodeUnit} (h : firstUnit text = some c)
    (rest : Text) : firstUnit (text ++ rest) = some c := by
  rw [firstUnit] at h
  rw [firstUnit, List.find?_append, h, Option.some_or]

theorem first_of_firstUnit {tokens : List Token} {text : Text} {m : Mark} (h : Spelled tokens text)
    (hfirst : firstUnit text = some m.unit) :
    ∃ rest, tokens = .mark m :: rest := by
  induction h with
  | nil => simp [firstUnit] at hfirst
  | space hspace _ ih =>
    rw [firstUnit, List.find?_cons_of_neg (by simpa using hspace)] at hfirst
    exact ih hfirst
  | mark k _ _ =>
    have hunit : k.unit = m.unit := by simpa [firstUnit, (unit_ne k).1] using hfirst
    have hmark : markOf k.unit = markOf m.unit := by rw [hunit]
    rw [markOf_unit, markOf_unit, Option.some.injEq] at hmark
    exact ⟨_, by rw [hmark]⟩
  | string hbody _ _ =>
    have hspace : isSpace quote = false := by decide
    have hunit : quote = m.unit := by simpa [firstUnit, hspace] using hfirst
    exact absurd hunit.symm (unit_ne m).2
  | @word w tokens text hne hplain _ _ _ _ =>
    cases w with
    | nil => exact absurd rfl hne
    | cons c w =>
      have hc := hplain c (List.mem_cons_self ..)
      simp only [isPlain, Bool.and_eq_true, Bool.not_eq_true', decide_eq_true_eq] at hc
      have hunit : c = m.unit := by simpa [firstUnit, hc.1.1] using hfirst
      rw [hunit, markOf_unit] at hc
      cases hc.2

theorem not_twice {text half rest : Text} {value : Value} (h : parse text = some value)
    (hcontainer : value.isContainer = true)
    (htwice : text = half ++ half ++ rest) : parse half = none := by
  cases hhalf : parse half with
  | none => rfl
  | some value' =>
    exfalso
    obtain ⟨tokens, hlex, hparse⟩ := Option.bind_eq_some_iff.1 h
    obtain ⟨tokens', hlex', hparse'⟩ := Option.bind_eq_some_iff.1 hhalf
    obtain ⟨m, tail, rfl, hopen⟩ := first_of_container hparse hcontainer
    have hspelled := lex_eq_some.1 hlex
    have hspelled' := lex_eq_some.1 hlex'
    -- the half begins as the text does
    have hfirst : firstUnit text = some m.unit := firstUnit_mark hspelled
    have hne : tokens' ≠ [] := by
      rintro rfl
      cases hparse'
    have hfirst' : firstUnit half = some m.unit := by
      obtain ⟨c, hc⟩ := firstUnit_of_ne_nil hspelled' hne
      have happend := firstUnit_append hc (half ++ rest)
      rw [← List.append_assoc, ← htwice, hfirst] at happend
      rw [hc, happend]
    obtain ⟨tail', rfl⟩ := first_of_firstUnit hspelled' hfirst'
    have hclosed := closed_of_container hopen hparse'
    rw [htwice, List.append_assoc, lex_append hlex' hclosed, lex_append hlex' hclosed] at hlex
    cases hrest : lex rest with
    | none => rw [hrest] at hlex; cases hlex
    | some more =>
      rw [hrest, Option.map_some, Option.map_some] at hlex
      rw [← Option.some.inj hlex] at hparse
      have hnil := parseTokens_append hparse' hparse
      simp at hnil

end TokenProxy.Lib.JsonText
