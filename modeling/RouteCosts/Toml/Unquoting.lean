import RouteCosts.Toml.Quoted
import RouteCosts.Toml.Quoting

/-!
# Reading quoted text back

Every text that is put between quotes is read back as it was, in whichever of the four forms it was
written (`quotedText_quoted`).

* `basicText_basicEscaped`: between double quotes every character is written so that it stands for
  itself, be it plain, with a letter after a backslash or by its number (`escaped_cases`).
* `multilineBasicText_multilineEscaped`: between triple double quotes at most two quotes stand in a
  row without an escape, and the reader takes up to five quotes at the end for two of the text and
  the closing ones.
* `literalText_append`, `multilineLiteralText_append`: between single quotes a text stands as it is,
  provided that the form can hold it.
-/

namespace RouteCosts.Toml

@[simp]
theorem push_some (c : Char) (text rest : List Char) :
    push (some c) (some (text, rest)) = some (c :: text, rest) := rfl

/-! ### Escapes -/

/-- The letters of escapes. -/
def escapeLetters : List Char := ['b', 't', 'n', 'f', 'r', '\\']

theorem codePoint?_hexCapital : ∀ n < 128,
    codePoint? ['0', '0', hexCapital (n / 16), hexCapital (n % 16)] = some (Char.ofNat n) := by
  decide

theorem toNat_lt_of_isControl {c : Char} (h : isControl c = true) : c.toNat < 128 := by
  simp [isControl] at h
  omega

theorem isCommentChar_of_not_isControl {c : Char} (hn : c ≠ '\n') (hc : isControl c = false) :
    isCommentChar c = true := by
  simp only [isControl, isCommentChar] at *
  by_cases ht : c = '\t' <;> simp_all

theorem isBasicChar_of_not_isControl {c : Char} (hq : c ≠ '"') (hb : c ≠ '\\') (hn : c ≠ '\n')
    (hc : isControl c = false) : isBasicChar c = true := by
  simp [isBasicChar, isCommentChar_of_not_isControl hn hc, hq, hb]

/-- A character is written as itself, as a letter after a backslash, or by its number. -/
theorem escaped_cases {c : Char} (hq : c ≠ '"') :
    (escaped c = [c] ∧ isBasicChar c = true ∧ c ≠ '\\' ∧ c ≠ '\n' ∧ c ≠ '\r') ∨
      (∃ letter ∈ escapeLetters, escaped c = ['\\', letter] ∧ escape? letter = some c) ∨
      ∃ high low, escaped c = ['\\', 'u', '0', '0', high, low] ∧
        codePoint? ['0', '0', high, low] = some c := by
  by_cases hm : c ∈ ['\x08', '\t', '\n', '\x0c', '\r', '\\']
  · simp only [List.mem_cons, List.not_mem_nil, or_false] at hm
    right; left
    rcases hm with rfl | rfl | rfl | rfl | rfl | rfl
    · exact ⟨'b', by simp [escapeLetters], rfl, rfl⟩
    · exact ⟨'t', by simp [escapeLetters], rfl, rfl⟩
    · exact ⟨'n', by simp [escapeLetters], rfl, rfl⟩
    · exact ⟨'f', by simp [escapeLetters], rfl, rfl⟩
    · exact ⟨'r', by simp [escapeLetters], rfl, rfl⟩
    · exact ⟨'\\', by simp [escapeLetters], rfl, rfl⟩
  · simp only [List.mem_cons, List.not_mem_nil, or_false, not_or] at hm
    obtain ⟨h₁, h₂, h₃, h₄, h₅, h₆⟩ := hm
    cases hc : isControl c with
    | true =>
      refine .inr (.inr ⟨hexCapital (c.toNat / 16), hexCapital (c.toNat % 16), ?_, ?_⟩)
      · simp [escaped, h₁, h₂, h₃, h₄, h₅, h₆, hc]
      · rw [codePoint?_hexCapital _ (toNat_lt_of_isControl hc), Char.ofNat_toNat]
    | false =>
      exact .inl ⟨by simp [escaped, h₁, h₂, h₃, h₄, h₅, h₆, hc],
        isBasicChar_of_not_isControl hq h₆ h₃ hc, h₆, h₃, h₅⟩

/-- What is written for a character begins, and not with a quote. -/
theorem escaped_eq_cons {c : Char} (hq : c ≠ '"') : ∃ x more, escaped c = x :: more ∧ x ≠ '"' := by
  rcases escaped_cases hq with ⟨h, -⟩ | ⟨_, _, h, -⟩ | ⟨_, _, h, -⟩
  · exact ⟨c, [], h, hq⟩
  · exact ⟨'\\', _, h, by decide⟩
  · exact ⟨'\\', _, h, by decide⟩

/-! ### On one line -/

theorem basicText_escaped {c : Char} (hq : c ≠ '"') (rest : List Char) :
    basicText (escaped c ++ rest) = push (some c) (basicText rest) := by
  rcases escaped_cases hq with ⟨h, hc, hb, -⟩ | ⟨letter, hl, h, he⟩ | ⟨high, low, h, hc⟩
  · simp [h, basicText, hb, hc]
  · simp only [escapeLetters, List.mem_cons, List.not_mem_nil, or_false] at hl
    rcases hl with rfl | rfl | rfl | rfl | rfl | rfl <;> simp [h, basicText, he]
  · simp [h, basicText, hc]

theorem basicEscaped_cons (c : Char) (text : List Char) :
    basicEscaped (c :: text) =
      (if c = '"' then ['\\', '"'] else escaped c) ++ basicEscaped text := rfl

theorem basicText_basicEscaped (text rest : List Char) :
    basicText (basicEscaped text ++ '"' :: rest) = some (text, rest) := by
  induction text with
  | nil => rfl
  | cons c text ih =>
    rw [basicEscaped_cons, List.append_assoc]
    split
    · next h =>
      subst h
      simp [basicText, ih, escape?]
    · next h => rw [basicText_escaped h, ih, push_some]

theorem basicEscaped_eq_cons (c : Char) (text : List Char) :
    ∃ x more, basicEscaped (c :: text) = x :: more ∧ x ≠ '"' := by
  rw [basicEscaped_cons]
  split
  · exact ⟨'\\', _, rfl, by decide⟩
  · next h =>
    obtain ⟨x, more, hx, hne⟩ := escaped_eq_cons h
    exact ⟨x, _, by rw [hx]; rfl, hne⟩

theorem literalText_append {text : List Char} (h : ∀ c ∈ text, isLiteralChar c = true)
    (rest : List Char) : literalText (text ++ '\'' :: rest) = some (text, rest) := by
  induction text with
  | nil => rfl
  | cons c text ih =>
    have hc := h c List.mem_cons_self
    have hq : c ≠ '\'' := by
      rintro rfl
      exact absurd hc (by decide)
    simp [literalText, hc, ih fun d hd => h d (List.mem_cons_of_mem _ hd)]

/-! ### On several lines, between double quotes -/

theorem multilineBasicText_escaped {c : Char} (hq : c ≠ '"') (rest : List Char) :
    multilineBasicText false (escaped c ++ rest) =
      push (some c) (multilineBasicText false rest) := by
  rcases escaped_cases hq with ⟨h, hc, hb, hn, hr⟩ | ⟨letter, hl, h, he⟩ | ⟨high, low, h, hc⟩
  · simp [h, multilineBasicText, hq, hb, hc, hr]
  · simp only [escapeLetters, List.mem_cons, List.not_mem_nil, or_false] at hl
    rcases hl with rfl | rfl | rfl | rfl | rfl | rfl <;>
      simp [h, multilineBasicText, endsLine, skipSpaces, newline?, isSpace, he]
  · simp [h, multilineBasicText, hc]

theorem multilineBasicText_one {x : Char} (hx : x ≠ '"') (rest : List Char) :
    multilineBasicText false ('"' :: x :: rest) =
      push (some '"') (multilineBasicText false (x :: rest)) := by
  simp [multilineBasicText, hx]

theorem multilineBasicText_two {x : Char} (hx : x ≠ '"') (rest : List Char) :
    multilineBasicText false ('"' :: '"' :: x :: rest) =
      push (some '"') (multilineBasicText false ('"' :: x :: rest)) := by
  simp [multilineBasicText, hx]

/-- Up to two quotes before the closing ones belong to the text. -/
theorem multilineBasicText_close {n : Nat} (hn : n ≤ 2) {rest : List Char}
    (h : rest.head? ≠ some '"') :
    multilineBasicText false (List.replicate n '"' ++ '"' :: '"' :: '"' :: rest) =
      some (List.replicate n '"', rest) := by
  match n, hn with
  | 0, _ | 1, _ | 2, _ =>
    cases rest with
    | nil => rfl
    | cons x rest =>
      have : x ≠ '"' := by simpa using h
      simp [List.replicate, multilineBasicText, this]

theorem multilineEscaped_quote (left : Nat) (text : List Char) :
    multilineEscaped (left + 1) ('"' :: text) = '"' :: multilineEscaped left text := by
  simp [multilineEscaped]

/-- Text that does not begin with a bare quote. -/
theorem multilineEscaped_eq_cons {left : Nat} {c : Char} (h : left = 0 ∨ c ≠ '"')
    (text : List Char) : ∃ x more, multilineEscaped left (c :: text) = x :: more ∧ x ≠ '"' := by
  by_cases hq : c = '"'
  · obtain rfl := h.resolve_right fun hc => hc hq
    exact ⟨'\\', '"' :: multilineEscaped 2 text, by simp [multilineEscaped, hq], by decide⟩
  by_cases hn : c = '\n'
  · exact ⟨'\n', multilineEscaped 2 text, by simp [multilineEscaped, hn], by decide⟩
  obtain ⟨x, more, he, hx⟩ := escaped_eq_cons hq
  exact ⟨x, more ++ multilineEscaped 2 text, by simp [multilineEscaped, hq, hn, he], hx⟩

theorem multilineBasicText_multilineEscaped {left : Nat} (hl : left ≤ 2) (text : List Char)
    {rest : List Char} (hr : rest.head? ≠ some '"') :
    multilineBasicText false (multilineEscaped left text ++ '"' :: '"' :: '"' :: rest) =
      some (text, rest) := by
  induction text generalizing left with
  | nil => exact multilineBasicText_close (Nat.zero_le 2) hr
  | cons c text ih =>
    by_cases hq : c = '"'
    · subst hq
      match left, hl with
      | 0, _ =>
        simp [multilineEscaped, multilineBasicText, endsLine, skipSpaces, newline?, isSpace,
          escape?, ih]
      | left + 1, hl =>
        have ih := @ih left (by omega)
        rw [multilineEscaped_quote]
        cases text with
        | nil => exact multilineBasicText_close (n := 1) (by decide) hr
        | cons d text =>
          by_cases hd : left = 0 ∨ d ≠ '"'
          · obtain ⟨x, more, hx, hne⟩ := multilineEscaped_eq_cons hd text
            rw [hx] at ih ⊢
            exact (multilineBasicText_one hne _).trans (by rw [← push_some, ← ih]; rfl)
          · obtain ⟨h0, hne⟩ := not_or.1 hd
            obtain rfl : left = 1 := by omega
            obtain rfl := Decidable.of_not_not hne
            cases text with
            | nil => exact multilineBasicText_close (n := 2) (by decide) hr
            | cons d text =>
              obtain ⟨x, more, hx, hne⟩ := multilineEscaped_eq_cons (.inl rfl) (c := d) text
              rw [multilineEscaped_quote, hx] at ih ⊢
              exact (multilineBasicText_two hne _).trans (by rw [← push_some, ← ih]; rfl)
    · by_cases hn : c = '\n'
      · subst hn
        simp [multilineEscaped, multilineBasicText, ih]
      · simp [multilineEscaped, hq, hn, multilineBasicText_escaped hq, ih]

/-! ### On several lines, between single quotes -/

/-- Up to two quotes before the closing ones belong to the text. -/
theorem multilineLiteralText_close {n : Nat} (hn : n ≤ 2) {rest : List Char}
    (h : rest.head? ≠ some '\'') :
    multilineLiteralText (List.replicate n '\'' ++ '\'' :: '\'' :: '\'' :: rest) =
      some (List.replicate n '\'', rest) := by
  match n, hn with
  | 0, _ | 1, _ | 2, _ =>
    cases rest with
    | nil => rfl
    | cons x rest =>
      have : x ≠ '\'' := by simpa using h
      simp [List.replicate, multilineLiteralText, this]

theorem multilineLiteralText_one {x : Char} (hx : x ≠ '\'') (rest : List Char) :
    multilineLiteralText ('\'' :: x :: rest) =
      push (some '\'') (multilineLiteralText (x :: rest)) := by
  simp [multilineLiteralText, hx]

theorem multilineLiteralText_two {x : Char} (hx : x ≠ '\'') (rest : List Char) :
    multilineLiteralText ('\'' :: '\'' :: x :: rest) =
      push (some '\'') (multilineLiteralText ('\'' :: x :: rest)) := by
  simp [multilineLiteralText, hx]

theorem multilineLiteralText_append {left : Nat} {text : List Char} (hl : left ≤ 2)
    (hq : quotesWithin '\'' 2 left text = true) (hc : ∀ c ∈ text, isControl c = false)
    {rest : List Char} (hr : rest.head? ≠ some '\'') :
    multilineLiteralText (text ++ '\'' :: '\'' :: '\'' :: rest) = some (text, rest) := by
  induction text generalizing left with
  | nil => exact multilineLiteralText_close (Nat.zero_le 2) hr
  | cons c text ih =>
    have hc' : ∀ d ∈ text, isControl d = false := fun d hd => hc d (List.mem_cons_of_mem _ hd)
    by_cases hs : c = '\''
    · subst hs
      match left with
      | 0 => simp [quotesWithin] at hq
      | left + 1 =>
        replace hq : quotesWithin '\'' 2 left text = true := by simpa [quotesWithin] using hq
        have ih := @ih left (by omega) hq hc'
        match text, left with
        | [], _ => exact multilineLiteralText_close (n := 1) (by decide) hr
        | d :: text, left =>
          by_cases hd : d = '\''
          · subst hd
            match left with
            | 0 => simp [quotesWithin] at hq
            | left + 1 =>
              obtain rfl : left = 0 := by omega
              match text with
              | [] => exact multilineLiteralText_close (n := 2) (by decide) hr
              | e :: text =>
                have he : e ≠ '\'' := by
                  rintro rfl
                  simp [quotesWithin] at hq
                exact (multilineLiteralText_two he _).trans (by rw [← push_some, ← ih]; rfl)
          · exact (multilineLiteralText_one hd _).trans (by rw [← push_some, ← ih]; rfl)
    · replace hq : quotesWithin '\'' 2 2 text = true := by simpa [quotesWithin, hs] using hq
      have ih := @ih 2 (by decide) hq hc'
      have h := hc c List.mem_cons_self
      have hr' : c ≠ '\r' := by
        rintro rfl
        exact absurd h (by decide)
      by_cases hn : c = '\n'
      · subst hn
        simp [multilineLiteralText, ih]
      · simp [multilineLiteralText, hs, hr', isLiteralChar,
          isCommentChar_of_not_isControl hn h, ih]

/-! ### All forms -/

/-- A form between single quotes is chosen only if it holds the text. -/
theorem Quotes.holds_of {text : List Char} {quotes : Quotes} (h : Quotes.of text = quotes)
    (hq : quotes = literal ∨ quotes = multilineLiteral) : quotes.holds text = true := by
  unfold Quotes.of at h
  split at h
  · next hf =>
    subst h
    exact List.find?_some hf
  · split at h <;> subst h <;> simp at hq

theorem not_mem_of_quotesWithin {quote : Char} {text : List Char}
    (h : quotesWithin quote 0 0 text = true) : quote ∉ text := by
  induction text with
  | nil => simp
  | cons c text ih =>
    by_cases hc : c = quote
    · simp [quotesWithin, hc] at h
    · simp only [quotesWithin, hc, if_false] at h
      simp [Ne.symm hc, ih h]

theorem isLiteralChar_of_holds {text : List Char} (h : Quotes.literal.holds text = true) :
    ∀ c ∈ text, isLiteralChar c = true := by
  simp only [Quotes.holds, Bool.and_eq_true, Bool.not_eq_true', List.any_eq_false,
    List.contains_eq_mem, decide_eq_false_iff_not] at h
  obtain ⟨⟨hc, hn⟩, hq⟩ := h
  intro c hm
  have hne : c ≠ '\n' := by
    rintro rfl
    exact hn hm
  have hs : c ≠ '\'' := by
    rintro rfl
    exact not_mem_of_quotesWithin hq hm
  simp [isLiteralChar, hs, isCommentChar_of_not_isControl hne (by simpa using hc c hm)]

theorem afterNewline_onOwnLine {text body : List Char} (rest : List Char)
    (h : '\n' ∉ text → newline? (body ++ rest) = none) :
    afterNewline (onOwnLine text body ++ rest) = body ++ rest := by
  unfold onOwnLine
  split
  · rfl
  · next hn => simp [afterNewline, h (by simpa using hn)]

theorem newline?_eq_none {c : Char} (hn : c ≠ '\n') (hr : c ≠ '\r') (rest : List Char) :
    newline? (c :: rest) = none := by
  simp [newline?, hn, hr]

theorem newline?_multilineEscaped {text : List Char} (h : '\n' ∉ text) (rest : List Char) :
    newline? (multilineEscaped 2 text ++ '"' :: rest) = none := by
  cases text with
  | nil => rfl
  | cons c text =>
    by_cases hq : c = '"'
    · subst hq
      rfl
    have hn : c ≠ '\n' := by
      rintro rfl
      exact h List.mem_cons_self
    rw [multilineEscaped.eq_def]
    simp only [hq, hn, if_false]
    rcases escaped_cases hq with ⟨he, -, -, hn, hr⟩ | ⟨_, _, he, -⟩ | ⟨_, _, he, -⟩
    · rw [he]
      exact newline?_eq_none hn hr _
    · rw [he]
      rfl
    · rw [he]
      rfl

theorem newline?_of_not_mem {text : List Char} (h : '\n' ∉ text)
    (hc : ∀ c ∈ text, isControl c = false) (rest : List Char) :
    newline? (text ++ '\'' :: rest) = none := by
  cases text with
  | nil => rfl
  | cons c text =>
    refine newline?_eq_none ?_ ?_ _
    · rintro rfl
      exact h List.mem_cons_self
    · rintro rfl
      exact absurd (hc _ List.mem_cons_self) (by decide)

/-- **What is written between quotes is read back.** -/
theorem quotedText_quoted (text : List Char) {rest : List Char} (hd : rest.head? ≠ some '"')
    (hs : rest.head? ≠ some '\'') : quotedText (quoted text ++ rest) = some (text, rest) := by
  unfold quoted
  cases h : Quotes.of text with
  | basic =>
    have hb := basicText_basicEscaped text rest
    simp only [List.cons_append, List.append_assoc, List.nil_append]
    rw [← hb]
    cases text with
    | nil =>
      cases rest with
      | nil => rfl
      | cons x rest =>
        have : x ≠ '"' := by simpa using hd
        simp [basicEscaped, quotedText, singleLineText, this]
    | cons c text =>
      obtain ⟨x, more, hx, hne⟩ := basicEscaped_eq_cons c text
      simp [hx, quotedText, singleLineText, hne]
  | literal =>
    have hl := isLiteralChar_of_holds (Quotes.holds_of h (.inl rfl))
    simp only [List.cons_append, List.append_assoc, List.nil_append]
    rw [← literalText_append hl rest]
    cases text with
    | nil => cases h
    | cons c text =>
      have hne : c ≠ '\'' := by
        rintro rfl
        exact absurd (hl _ List.mem_cons_self) (by decide)
      simp [quotedText, singleLineText, hne]
  | multilineBasic =>
    have := afterNewline_onOwnLine _ fun hn : '\n' ∉ text =>
      newline?_multilineEscaped hn ('"' :: '"' :: rest)
    simp only [List.cons_append, List.append_assoc, List.nil_append, quotedText, this]
    exact multilineBasicText_multilineEscaped (Nat.le_refl 2) text hd
  | multilineLiteral =>
    have hh := Quotes.holds_of h (.inr rfl)
    simp only [Quotes.holds, Bool.and_eq_true, Bool.not_eq_true', List.any_eq_false] at hh
    have hc : ∀ c ∈ text, isControl c = false := fun c hm => by simpa using hh.1 c hm
    have := afterNewline_onOwnLine _ fun hn =>
      newline?_of_not_mem hn hc ('\'' :: '\'' :: rest)
    simp only [List.cons_append, List.append_assoc, List.nil_append, quotedText, this]
    exact multilineLiteralText_append (Nat.le_refl 2) hh.2 hc hs

end RouteCosts.Toml
