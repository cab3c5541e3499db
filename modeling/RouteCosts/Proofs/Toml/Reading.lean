import Mathlib.Data.List.Basic
import RouteCosts.Proofs.Toml.Words
import RouteCosts.Toml.Document
import RouteCosts.Toml.Unquoting

/-!
# What a written line says

What is written for a value is read as this value up to the end of its line (`Scalar.writes`), and a
name that needs no quotes is read as a key (`IsBare.key_append`). A text says some statements if it
is read as them, whatever is read after it (`Says`). So a written header says that a table begins
(`says_header`), and a written pair says that its key has its value (`says_pair`); what texts say one
after the other adds up (`Says.append`).
-/

namespace RouteCosts.Toml

/-! ### Values -/

/-- The value that is written for a scalar. -/
def Scalar.value : Scalar → Value
  | text s => .text s
  | integer n => .integer n
  | boolean b => .boolean b

@[simp]
theorem Scalar.value_text (s : String) : (text s).value = .text s := rfl

@[simp]
theorem Scalar.value_integer (n : Nat) : (integer n).value = .integer n := rfl

@[simp]
theorem Scalar.value_boolean (b : Bool) : (boolean b).value = .boolean b := rfl

/-- **A text is read as a value** up to the end of its line, and does not begin with a space. -/
structure Writes (text : List Char) (meant : Value) : Prop where
  begins : ∀ c ∈ text.head?, isSpace c = false
  reads : ∀ depth rest, value depth (text ++ '\n' :: rest) = some (meant, '\n' :: rest)

theorem value_cons {c : Char} (ha : c ≠ '[') (ht : c ≠ '{') (depth : Nat) (rest : List Char) :
    value depth (c :: rest) = simpleValue (c :: rest) := by
  cases depth <;> simp [value, ha, ht]

theorem quoted_eq_cons (text : List Char) :
    ∃ quote more, quoted text = quote :: more ∧ (quote = '"' ∨ quote = '\'') := by
  unfold quoted
  split
  · exact ⟨_, _, rfl, .inl rfl⟩
  · exact ⟨_, _, rfl, .inr rfl⟩
  · exact ⟨_, _, rfl, .inl rfl⟩
  · exact ⟨_, _, rfl, .inr rfl⟩

theorem writes_quoted (text : List Char) : Writes (quoted text) (.text (String.ofList text)) := by
  obtain ⟨quote, more, hquoted, hquote⟩ := quoted_eq_cons text
  have hreads (rest : List Char) :
      quotedText (quote :: (more ++ '\n' :: rest)) = some (text, '\n' :: rest) := by
    rw [← List.cons_append, ← hquoted]
    exact quotedText_quoted text nofun nofun
  rw [hquoted]
  constructor
  · rintro c ⟨⟩
    rcases hquote with rfl | rfl <;> rfl
  · intro depth rest
    have hread := hreads rest
    rw [List.cons_append]
    rcases hquote with rfl | rfl <;>
      rw [value_cons (by decide) (by decide), simpleValue, hread, Option.map_some]

/-- A word that begins with a letter or a digit is read as a value. -/
theorem writes_of_wordReader {c : Char} {more : List Char} {meant : Value}
    (hc : c.isAlphanum = true)
    (h : ∀ rest, wordReader (c :: more ++ '\n' :: rest) = some (meant, '\n' :: rest)) :
    Writes (c :: more) meant := by
  have hne (d : Char) (hd : d.isAlphanum = false) : c ≠ d :=
    ne_of_apply_ne Char.isAlphanum (by simp [hc, hd])
  constructor
  · rintro c ⟨⟩
    simp [isSpace, hne ' ' rfl, hne '\t' rfl]
  · intro depth rest
    rw [List.cons_append, value_cons (hne '[' rfl) (hne '{' rfl), ← h rest]
    simp [simpleValue, hne '"' rfl, hne '\'' rfl]

/-- **A value is read back from what is written for it.** -/
theorem Scalar.writes {scalar : Scalar} {text : String} (h : scalar.written? = some text) :
    Writes text.toList scalar.value := by
  cases scalar with
  | text s =>
    obtain rfl := Option.some.inj h
    have hwrites := writes_quoted s.toList
    rw [String.ofList_toList] at hwrites
    rwa [String.toList_ofList]
  | integer n =>
    rw [written?] at h
    split at h
    · next hn =>
      obtain rfl := Option.some.inj h
      have hread := wordReader_integer hn
      rw [Nat.toString_eq_repr, Nat.toList_repr]
      cases hs : Nat.toDigits 10 n with
      | nil => exact absurd hs Nat.toDigits_ne_nil
      | cons c more =>
        have hc : c.isDigit = true := isDigit_of_mem_toDigits (hs ▸ List.mem_cons_self)
        rw [hs] at hread
        exact writes_of_wordReader (by rw [Char.isAlphanum, hc, Bool.or_true]) hread
    · cases h
  | boolean b =>
    obtain rfl := Option.some.inj h
    cases b with
    | true => exact writes_of_wordReader rfl wordReader_true
    | false => exact writes_of_wordReader rfl wordReader_false

/-! ### Names -/

/-- **A name that may stand without quotes.** -/
structure IsBare (name : String) : Prop where
  ne_nil : name.toList ≠ []
  isBareChar : ∀ c ∈ name.toList, isBareChar c = true

instance (name : String) : Decidable (IsBare name) :=
  decidable_of_iff (name.toList ≠ [] ∧ name.toList.all isBareChar = true)
    ⟨fun ⟨h, h'⟩ => ⟨h, List.all_eq_true.1 h'⟩,
      fun h => ⟨h.ne_nil, List.all_eq_true.2 h.isBareChar⟩⟩

/-- A character that can not stand in a name without quotes is not in one. -/
theorem ne_of_isBareChar {c : Char} (hc : isBareChar c = true) (d : Char)
    (hd : isBareChar d = false) : c ≠ d :=
  ne_of_apply_ne isBareChar (by simp [hc, hd])

theorem isSpace_of_isBareChar {c : Char} (hc : isBareChar c = true) : isSpace c = false := by
  simp [isSpace, ne_of_isBareChar hc ' ' rfl, ne_of_isBareChar hc '\t' rfl]

theorem IsBare.exists_cons {name : String} (h : IsBare name) :
    ∃ c more, name.toList = c :: more ∧ Toml.isBareChar c = true := by
  cases hname : name.toList with
  | nil => exact absurd hname h.ne_nil
  | cons c more => exact ⟨c, more, rfl, h.isBareChar c (hname ▸ List.mem_cons_self)⟩

/-- A bare name before a character that ends it. -/
theorem IsBare.name_append {name : String} (h : IsBare name) {d : Char}
    (hd : Toml.isBareChar d = false) (rest : List Char) :
    Toml.name (name.toList ++ d :: rest) = some (name, d :: rest) := by
  have htake : (name.toList ++ d :: rest).takeWhile Toml.isBareChar = name.toList := by
    rw [List.takeWhile_append_of_pos h.isBareChar, List.takeWhile_cons_of_neg (by simp [hd]),
      List.append_nil]
  have hdrop : (name.toList ++ d :: rest).dropWhile Toml.isBareChar = d :: rest := by
    rw [List.dropWhile_append_of_pos h.isBareChar, List.dropWhile_cons_of_neg (by simp [hd])]
  have hbare : bareName (name.toList ++ d :: rest) = some (name.toList, d :: rest) := by
    simp [bareName, htake, hdrop, h.ne_nil]
  obtain ⟨c, more, hname, hc⟩ := h.exists_cons
  have hread : Toml.name (name.toList ++ d :: rest) =
      (bareName (name.toList ++ d :: rest)).map fun read => (String.ofList read.1, read.2) := by
    rw [hname, List.cons_append]
    simp [Toml.name, ne_of_isBareChar hc '"' rfl, ne_of_isBareChar hc '\'' rfl]
  rw [hread, hbare]
  exact congrArg some (Prod.ext String.ofList_toList rfl)

theorem skipSpaces_cons {c : Char} (h : isSpace c = false) (rest : List Char) :
    skipSpaces (c :: rest) = c :: rest :=
  List.dropWhile_cons_of_neg (by simp [h])

/-- A bare name is a key of its own, unless a point follows. -/
theorem IsBare.key_append {name : String} (h : IsBare name) {d e : Char} {rest next : List Char}
    (hd : Toml.isBareChar d = false) (he : e ≠ '.') (hrest : skipSpaces (d :: rest) = e :: next) :
    key (name.toList ++ d :: rest) = some ([name], e :: next) := by
  obtain ⟨c, more, hname, hc⟩ := h.exists_cons
  have hskip : skipSpaces (name.toList ++ d :: rest) = name.toList ++ d :: rest := by
    rw [hname]
    exact skipSpaces_cons (isSpace_of_isBareChar hc) _
  rw [key, maxDepth, names, hskip, h.name_append hd]
  simp [hrest, he]

/-! ### Lines -/

/-- A header or a pair. -/
def statement : Reader Statement
  | '[' :: rest => header rest
  | text => (pair (value maxDepth) text).map fun (p, rest) => (.pair p.1 p.2, rest)

theorem statement_of_ne {c : Char} (h : c ≠ '[') (text : List Char) :
    statement (c :: text) =
      (pair (value maxDepth) (c :: text)).map fun (p, rest) => (.pair p.1 p.2, rest) := by
  simp [statement, h]

/-- A statement that is read up to the end of its line is the first of a text. -/
theorem statements_of_statement {c : Char} {text rest : List Char} {first : Statement}
    (hspace : isSpace c = false) (hidle : c ∉ ['#', '\n', '\r'])
    (h : statement (c :: text) = some (first, '\n' :: rest)) (count : Nat) :
    statements (count + 1) (c :: text) =
      (statements count rest).map fun more => first :: more := by
  have hend : lineEnd? ('\n' :: rest) = some rest := rfl
  simp only [List.mem_cons, List.not_mem_nil, or_false, not_or] at hidle
  rw [statements, skipSpaces_cons hspace]
  by_cases hc : c = '['
  · subst hc
    rw [statement] at h
    simp [h, hend]
  · rw [statement_of_ne hc] at h
    simp only [beq_false_of_ne hidle.1, beq_false_of_ne hidle.2.1, beq_false_of_ne hidle.2.2,
      beq_false_of_ne hc, Bool.or_self, Bool.false_eq_true, if_false, h, hend, Option.bind_some]

/-- **A text says some statements**: it is read as them, whatever is read after it. -/
def Says (text : List Char) (said : List Statement) : Prop :=
  ∀ rest more, (∀ count, rest.length < count → statements count rest = some more) →
    ∀ count, (text ++ rest).length < count → statements count (text ++ rest) = some (said ++ more)

theorem says_nil : Says [] [] := fun _ _ h => h

theorem Says.append {text text' : List Char} {said said' : List Statement} (h : Says text said)
    (h' : Says text' said') : Says (text ++ text') (said ++ said') := by
  intro rest more hrest
  rw [List.append_assoc, List.append_assoc]
  exact h _ _ (h' _ _ hrest)

/-- What a text says if nothing follows. -/
theorem Says.statements_eq {text : List Char} {said : List Statement} (h : Says text said) :
    statements (text.length + 1) text = some said := by
  have hend (count : Nat) (hcount : ([] : List Char).length < count) :
      statements count [] = some [] := by
    cases count with
    | zero => exact absurd hcount (Nat.not_lt_zero _)
    | succ count => rfl
  have hsaid := h [] [] hend (text.length + 1)
  rw [List.append_nil, List.append_nil] at hsaid
  exact hsaid (Nat.lt_succ_self _)

theorem says_newline : Says ['\n'] [] := by
  intro rest more hrest count hcount
  cases count with
  | zero => exact absurd hcount (Nat.not_lt_zero _)
  | succ count => exact hrest count (Nat.lt_of_succ_lt_succ hcount)

/-- A line on which a statement is read says that statement. -/
theorem says_of_statement {c : Char} {line : List Char} {said : Statement}
    (hspace : isSpace c = false) (hidle : c ∉ ['#', '\n', '\r'])
    (h : ∀ rest, statement (c :: (line ++ '\n' :: rest)) = some (said, '\n' :: rest)) :
    Says (c :: (line ++ ['\n'])) [said] := by
  intro rest more hrest count hcount
  have htext : c :: (line ++ ['\n']) ++ rest = c :: (line ++ '\n' :: rest) := by simp
  rw [htext] at hcount ⊢
  cases count with
  | zero => exact absurd hcount (Nat.not_lt_zero _)
  | succ count =>
    have hmore : statements count rest = some more := by
      refine hrest count ?_
      simp only [List.length_cons, List.length_append] at hcount
      omega
    rw [statements_of_statement hspace hidle (h rest), hmore]
    rfl

theorem says_header {name : String} (h : IsBare name) :
    Says ('[' :: (name.toList ++ [']'] ++ ['\n'])) [.table [name]] := by
  refine says_of_statement rfl (by decide) fun rest => ?_
  have hkey : key (name.toList ++ ']' :: '\n' :: rest) = some ([name], ']' :: '\n' :: rest) :=
    h.key_append rfl (by decide) rfl
  obtain ⟨c, more, hname, hc⟩ := h.exists_cons
  rw [statement, List.append_assoc, List.singleton_append]
  rw [hname, List.cons_append] at hkey ⊢
  simp [header, ne_of_isBareChar hc '[' rfl, hkey]

theorem says_pair {key : String} (h : IsBare key) {text : List Char} {meant : Value}
    (ht : Writes text meant) :
    Says (key.toList ++ ' ' :: '=' :: ' ' :: (text ++ ['\n'])) [.pair [key] meant] := by
  obtain ⟨c, more, hkey, hc⟩ := h.exists_cons
  have hline (rest : List Char) : c :: (more ++ ' ' :: '=' :: ' ' :: text ++ '\n' :: rest) =
      key.toList ++ ' ' :: '=' :: ' ' :: (text ++ '\n' :: rest) := by simp [hkey]
  rw [← hline []]
  refine says_of_statement (isSpace_of_isBareChar hc) ?_ fun rest => ?_
  · simp [ne_of_isBareChar hc '#' rfl, ne_of_isBareChar hc '\n' rfl,
      ne_of_isBareChar hc '\r' rfl]
  · have hread : Toml.key (key.toList ++ ' ' :: '=' :: ' ' :: (text ++ '\n' :: rest)) =
        some ([key], '=' :: ' ' :: (text ++ '\n' :: rest)) := h.key_append rfl (by decide) rfl
    have hskip : skipSpaces (' ' :: (text ++ '\n' :: rest)) = text ++ '\n' :: rest := by
      have hbegins := ht.begins
      cases text with
      | nil => rfl
      | cons d text => exact skipSpaces_cons (hbegins d rfl) _
    rw [statement_of_ne (ne_of_isBareChar hc '[' rfl), pair, hline rest, hread]
    simp only [hskip, ht.reads, Option.map_some]

end RouteCosts.Toml
