import Mathlib.Data.List.Basic
import Mathlib.Data.String.Basic
import Stencil.Json
import Stencil.Proofs.Lexeme.Spelling
import Stencil.Toml.Digits

/-!
# The text of a JSON value says which value it is

No two values have the same text. On one line this is so even if more text follows: a string ends at
the first quote that is not escaped, an array and an object at the bracket that closes them, and a
number at the first character that does not belong to one. Over several lines a value has the same
text, with white space put in between its words.

* `quote_append_inj`: a string and what follows it.
* `compact_append_inj`: a value on one line and what follows it.
* `squeeze`: a text without the white space outside of its strings.
* `squeeze_pretty`: what is left of the text over several lines is the text on one line.
* `render_inj`: no two values have the same text.
-/

namespace Stencil.Json

/-! ## Strings -/

/-- The character that a letter behind a backslash stands for. -/
def escapedLetter (c : Char) : Char :=
  if c = 'n' then '\n'
  else if c = 'r' then '\r'
  else if c = 't' then '\t'
  else if c = 'b' then Char.ofNat 0x8
  else if c = 'f' then Char.ofNat 0xc
  else c

/-- The content of a string whose first quote has been read, and what follows the string. -/
def unquoted? : List Char → Option (List Char × List Char)
  | [] => none
  | '"' :: rest => some ([], rest)
  | '\\' :: 'u' :: _ :: _ :: a :: b :: rest =>
    (unquoted? rest).map fun (content, rest) =>
      (Char.ofNat (Toml.number 16 [a, b]) :: content, rest)
  | '\\' :: c :: rest =>
    (unquoted? rest).map fun (content, rest) => (escapedLetter c :: content, rest)
  | c :: rest => (unquoted? rest).map fun (content, rest) => (c :: content, rest)

theorem controlDigits_eq {n : Nat} (h : n < 0x20) :
    controlDigits n = [(n / 16).digitChar, (n % 16).digitChar] :=
  have hall : ∀ n < 0x20, controlDigits n = [(n / 16).digitChar, (n % 16).digitChar] := by decide
  hall n h

theorem number_controlDigits {n : Nat} (h : n < 0x20) : Toml.number 16 (controlDigits n) = n :=
  have hall : ∀ n < 0x20, Toml.number 16 (controlDigits n) = n := by decide
  hall n h

theorem unquoted?_escapedForm (c : Char) (rest : List Char) :
    unquoted? (escapedForm c ++ rest) =
      (unquoted? rest).map fun (content, rest) => (c :: content, rest) := by
  have hofNat (n : Nat) (h : c.toNat = n) : c = Char.ofNat n := by rw [← h, Char.ofNat_toNat]
  unfold escapedForm
  split_ifs with hquote hslash hn hr ht hb hf hcontrol
  · subst hquote; rfl
  · subst hslash; rfl
  · subst hn; rfl
  · subst hr; rfl
  · subst ht; rfl
  · rw [hofNat _ hb]; rfl
  · rw [hofNat _ hf]; rfl
  · have hnumber := number_controlDigits hcontrol
    rw [controlDigits_eq hcontrol] at hnumber ⊢
    simp [unquoted?, hnumber]
  · rw [List.singleton_append, unquoted?]
    · exact fun h => hquote h
    · intro _ _ _ _ _ h
      exact absurd h hslash
    · intro _ _ h
      exact absurd h hslash

/-- A string can be read back, whatever follows it. -/
theorem unquoted?_escaped (chars rest : List Char) :
    unquoted? (chars.flatMap escapedForm ++ '"' :: rest) = some (chars, rest) := by
  induction chars with
  | nil => rfl
  | cons c chars ih =>
    rw [List.flatMap_cons, List.append_assoc, unquoted?_escapedForm, ih]
    rfl

theorem toList_quote (text : String) :
    (quote text).toList = '"' :: (text.toList.flatMap escapedForm ++ ['"']) := by
  rw [quote, String.toList_ofList, List.cons_append]

theorem quote_append_inj {s t : String} {rest other : List Char}
    (h : (quote s).toList ++ rest = (quote t).toList ++ other) : s = t ∧ rest = other := by
  simp only [toList_quote, List.cons_append, List.append_assoc, List.nil_append,
    List.cons.injEq, true_and] at h
  have hread := congrArg unquoted? h
  rw [unquoted?_escaped, unquoted?_escaped] at hread
  obtain ⟨hchars, hrest⟩ := Prod.mk.inj (Option.some.inj hread)
  exact ⟨String.toList_inj.1 hchars, hrest⟩

/-! ## Numbers -/

/-- Whether a character may stand in a number. -/
def isNumberChar (c : Char) : Bool :=
  c == '-' || c.isDigit

/-- What a number ends before. -/
def EndsNumber (rest : List Char) : Prop :=
  ∀ c ∈ rest.head?, isNumberChar c = false

theorem isNumberChar_of_mem_toDigits {n : Nat} {c : Char} (h : c ∈ Nat.toDigits 10 n) :
    isNumberChar c = true := by
  rw [isNumberChar, Nat.isDigit_of_mem_toDigits (by decide) (by decide) h, Bool.or_true]

theorem toList_toString_ofNat (n : Nat) :
    (toString (Int.ofNat n)).toList = Nat.toDigits 10 n := by
  rw [Int.toString_eq_repr, Int.repr, Nat.repr_eq_ofList_toDigits, String.toList_ofList]

theorem toList_toString_negSucc (n : Nat) :
    (toString (Int.negSucc n)).toList = '-' :: Nat.toDigits 10 (n + 1) := by
  rw [Int.toString_eq_repr, Int.repr, Nat.repr_eq_ofList_toDigits]
  simp

theorem isNumberChar_of_mem_toString {n : Int} {c : Char} (h : c ∈ (toString n).toList) :
    isNumberChar c = true := by
  match n with
  | .ofNat n =>
    rw [toList_toString_ofNat] at h
    exact isNumberChar_of_mem_toDigits h
  | .negSucc n =>
    rw [toList_toString_negSucc] at h
    rcases List.mem_cons.1 h with rfl | h
    · rfl
    · exact isNumberChar_of_mem_toDigits h

theorem toList_toString_ne_nil (n : Int) : (toString n).toList ≠ [] := by
  match n with
  | .ofNat n =>
    rw [toList_toString_ofNat]
    exact Nat.toDigits_ne_nil
  | .negSucc n =>
    rw [toList_toString_negSucc]
    exact List.cons_ne_nil _ _

theorem toDigits_inj {m n : Nat} (h : Nat.toDigits 10 m = Nat.toDigits 10 n) : m = n := by
  rw [← @Nat.ofDigitChars_toDigits 10 m (by decide) (by decide), h,
    Nat.ofDigitChars_toDigits (by decide) (by decide)]

/-- The digits of a number have no sign among them. -/
theorem toDigits_ne_minus_cons (m : Nat) (rest : List Char) : Nat.toDigits 10 m ≠ '-' :: rest := by
  intro h
  have hdigit : '-'.isDigit = true :=
    Nat.isDigit_of_mem_toDigits (b := 10) (n := m) (by decide) (by decide)
      (h ▸ List.mem_cons_self)
  cases hdigit

theorem toString_inj {m n : Int} (h : (toString m).toList = (toString n).toList) : m = n := by
  match m, n with
  | .ofNat m, .ofNat n =>
    rw [toList_toString_ofNat, toList_toString_ofNat] at h
    rw [toDigits_inj h]
  | .negSucc m, .negSucc n =>
    rw [toList_toString_negSucc, toList_toString_negSucc, List.cons.injEq] at h
    rw [Nat.succ.inj (toDigits_inj h.2)]
  | .ofNat m, .negSucc n =>
    rw [toList_toString_ofNat, toList_toString_negSucc] at h
    exact absurd h (toDigits_ne_minus_cons _ _)
  | .negSucc m, .ofNat n =>
    rw [toList_toString_ofNat, toList_toString_negSucc] at h
    exact absurd h.symm (toDigits_ne_minus_cons _ _)

theorem number_append_inj {m n : Int} {rest other : List Char} (hrest : EndsNumber rest)
    (hother : EndsNumber other)
    (h : (toString m).toList ++ rest = (toString n).toList ++ other) : m = n ∧ rest = other := by
  have hm := takeWhile_append_of_head? (fun _ => isNumberChar_of_mem_toString (n := m)) hrest
  have hn := takeWhile_append_of_head? (fun _ => isNumberChar_of_mem_toString (n := n)) hother
  rw [h] at hm
  exact ⟨toString_inj (hm.1.symm.trans hn.1), hm.2.symm.trans hn.2⟩

/-! ## What a text begins with -/

/-- What a value can be told to be from the first character of its text. -/
inductive Kind where
  | null
  | bool (value : Bool)
  | number
  | string
  | array
  | object
  deriving DecidableEq

/-- The kind of a value. -/
def kind : Json → Kind
  | .null => .null
  | .bool value => .bool value
  | .number _ => .number
  | .string _ => .string
  | .array _ => .array
  | .object _ => .object

/-- The kind of the values whose texts begin with a character. -/
def kindOf? (c : Char) : Option Kind :=
  if c = 'n' then some .null
  else if c = 't' then some (.bool true)
  else if c = 'f' then some (.bool false)
  else if c = '"' then some .string
  else if c = '[' then some .array
  else if c = '\x7b' then some .object
  else if isNumberChar c then some .number
  else none

theorem kindOf?_of_isNumberChar {c : Char} (h : isNumberChar c = true) :
    kindOf? c = some .number := by
  unfold kindOf?
  split_ifs <;> simp_all [isNumberChar]

theorem exists_compact_eq_cons (v : Json) :
    ∃ c rest, (compact v).toList = c :: rest ∧ kindOf? c = some v.kind := by
  match v with
  | .null => exact ⟨_, _, rfl, rfl⟩
  | .bool true => exact ⟨_, _, rfl, rfl⟩
  | .bool false => exact ⟨_, _, rfl, rfl⟩
  | .number n =>
    obtain ⟨c, rest, heq⟩ := List.exists_cons_of_ne_nil (toList_toString_ne_nil n)
    refine ⟨c, rest, by rw [compact, heq], kindOf?_of_isNumberChar ?_⟩
    exact isNumberChar_of_mem_toString (heq ▸ List.mem_cons_self)
  | .string text => exact ⟨_, _, by rw [compact, toList_quote], rfl⟩
  | .array elements =>
    exact ⟨'[', (compactElements true elements).toList ++ [']'], by simp [compact], rfl⟩
  | .object members =>
    exact ⟨'\x7b', (compactMembers true members).toList ++ ['\x7d'], by simp [compact], rfl⟩

/-! ## One line -/

theorem endsNumber_cons {c : Char} (h : isNumberChar c = false) (rest : List Char) :
    EndsNumber (c :: rest) := by
  intro d hd
  rw [← Option.some.inj hd]
  exact h

theorem toList_compactElements_cons (first : Bool) (v : Json) (vs : List Json)
    (rest : List Char) :
    (compactElements first (v :: vs)).toList ++ rest =
      (if first then [] else [',']) ++
        ((compact v).toList ++ ((compactElements false vs).toList ++ rest)) := by
  cases first <;> simp [compactElements]

theorem toList_compactMembers_cons (first : Bool) (key : String) (v : Json)
    (members : List (String × Json)) (rest : List Char) :
    (compactMembers first ((key, v) :: members)).toList ++ rest =
      (if first then [] else [',']) ++ ((quote key).toList ++
        (':' :: ((compact v).toList ++ ((compactMembers false members).toList ++ rest)))) := by
  cases first <;> simp [compactMembers]

/-- Behind an element stands a comma or the bracket of the array. -/
theorem endsNumber_compactElements (vs : List Json) (rest : List Char) :
    EndsNumber ((compactElements false vs).toList ++ ']' :: rest) := by
  cases vs with
  | nil => exact endsNumber_cons rfl rest
  | cons v vs =>
    rw [toList_compactElements_cons]
    exact endsNumber_cons rfl _

theorem endsNumber_compactMembers (members : List (String × Json)) (rest : List Char) :
    EndsNumber ((compactMembers false members).toList ++ '\x7d' :: rest) := by
  cases members with
  | nil => exact endsNumber_cons rfl rest
  | cons member members =>
    rw [toList_compactMembers_cons]
    exact endsNumber_cons rfl _

/-- No value begins with a comma or a closing bracket. -/
theorem compact_append_ne {c : Char} (hc : kindOf? c = none) (v : Json) (rest other : List Char) :
    (compact v).toList ++ rest ≠ c :: other := by
  obtain ⟨d, tail, heq, hd⟩ := exists_compact_eq_cons v
  rw [heq, List.cons_append]
  intro h
  rw [(List.cons.inj h).1, hc] at hd
  cases hd

theorem compactElements_cons_append_ne (first : Bool) (v : Json) (vs : List Json)
    (rest other : List Char) : (compactElements first (v :: vs)).toList ++ rest ≠ ']' :: other := by
  rw [toList_compactElements_cons]
  cases first with
  | true => exact compact_append_ne rfl v _ _
  | false => simp

theorem compactMembers_cons_append_ne (first : Bool) (member : String × Json)
    (members : List (String × Json)) (rest other : List Char) :
    (compactMembers first (member :: members)).toList ++ rest ≠ '\x7d' :: other := by
  rw [toList_compactMembers_cons]
  cases first <;> simp [toList_quote]

/-- Two values of one kind. -/
inductive OfOneKind : Json → Json → Prop where
  | null : OfOneKind .null .null
  | bool (value : Bool) : OfOneKind (.bool value) (.bool value)
  | number (m n : Int) : OfOneKind (.number m) (.number n)
  | string (s t : String) : OfOneKind (.string s) (.string t)
  | array (vs ws : List Json) : OfOneKind (.array vs) (.array ws)
  | object (ms ns : List (String × Json)) : OfOneKind (.object ms) (.object ns)

theorem ofOneKind_of_kind_eq {v w : Json} (h : v.kind = w.kind) : OfOneKind v w := by
  cases v <;> cases w <;> cases h <;> constructor

theorem ofOneKind_of_append_eq {v w : Json} {rest other : List Char}
    (h : (compact v).toList ++ rest = (compact w).toList ++ other) : OfOneKind v w := by
  obtain ⟨c, _, hv, hc⟩ := exists_compact_eq_cons v
  obtain ⟨d, _, hw, hd⟩ := exists_compact_eq_cons w
  rw [hv, hw, List.cons_append, List.cons_append] at h
  rw [(List.cons.inj h).1, hd] at hc
  exact ofOneKind_of_kind_eq (Option.some.inj hc).symm

mutual

/-- A value on one line ends at the same place in every text that begins with it. -/
theorem compact_append_inj {v w : Json} {rest other : List Char} (hrest : EndsNumber rest)
    (hother : EndsNumber other)
    (h : (compact v).toList ++ rest = (compact w).toList ++ other) : v = w ∧ rest = other := by
  cases ofOneKind_of_append_eq h
  case null | bool => exact ⟨rfl, List.append_cancel_left h⟩
  case number =>
    obtain ⟨rfl, heq⟩ := number_append_inj hrest hother h
    exact ⟨rfl, heq⟩
  case string =>
    obtain ⟨rfl, heq⟩ := quote_append_inj h
    exact ⟨rfl, heq⟩
  case array =>
    simp only [compact, String.toList_append, List.append_assoc] at h
    obtain ⟨rfl, heq⟩ := compactElements_append_inj (List.append_cancel_left h)
    exact ⟨rfl, heq⟩
  case object =>
    simp only [compact, String.toList_append, List.append_assoc] at h
    obtain ⟨rfl, heq⟩ := compactMembers_append_inj (List.append_cancel_left h)
    exact ⟨rfl, heq⟩

theorem compactElements_append_inj {first : Bool} {vs ws : List Json} {rest other : List Char}
    (h : (compactElements first vs).toList ++ ']' :: rest =
      (compactElements first ws).toList ++ ']' :: other) : vs = ws ∧ rest = other := by
  match vs, ws with
  | [], [] => exact ⟨rfl, (List.cons.inj h).2⟩
  | [], w :: ws => exact absurd h.symm (compactElements_cons_append_ne first w ws _ _)
  | v :: vs, [] => exact absurd h (compactElements_cons_append_ne first v vs _ _)
  | v :: vs, w :: ws =>
    rw [toList_compactElements_cons, toList_compactElements_cons] at h
    obtain ⟨rfl, hvs⟩ := compact_append_inj (endsNumber_compactElements _ _)
      (endsNumber_compactElements _ _) (List.append_cancel_left h)
    obtain ⟨rfl, heq⟩ := compactElements_append_inj hvs
    exact ⟨rfl, heq⟩

theorem compactMembers_append_inj {first : Bool} {ms ns : List (String × Json)}
    {rest other : List Char}
    (h : (compactMembers first ms).toList ++ '\x7d' :: rest =
      (compactMembers first ns).toList ++ '\x7d' :: other) : ms = ns ∧ rest = other := by
  match ms, ns with
  | [], [] => exact ⟨rfl, (List.cons.inj h).2⟩
  | [], n :: ns => exact absurd h.symm (compactMembers_cons_append_ne first n ns _ _)
  | m :: ms, [] => exact absurd h (compactMembers_cons_append_ne first m ms _ _)
  | (key, v) :: ms, (name, w) :: ns =>
    rw [toList_compactMembers_cons, toList_compactMembers_cons] at h
    obtain ⟨rfl, hvalue⟩ := quote_append_inj (List.append_cancel_left h)
    obtain ⟨rfl, hms⟩ := compact_append_inj (endsNumber_compactMembers _ _)
      (endsNumber_compactMembers _ _) (List.cons.inj hvalue).2
    obtain ⟨rfl, heq⟩ := compactMembers_append_inj hms
    exact ⟨rfl, heq⟩

end

theorem compact_inj {v w : Json} (h : compact v = compact w) : v = w := by
  have hends : EndsNumber [] := fun _ hc => by cases hc
  exact (compact_append_inj hends hends (by rw [h])).1

/-! ## Several lines -/

/-- Where a text stands with regard to its strings. -/
inductive Place where
  | outside
  | inside
  /-- Behind a backslash in a string. -/
  | escaped
  deriving DecidableEq

/-- What is left of a text without the white space outside of its strings. -/
def squeezed : Place → List Char → List Char
  | _, [] => []
  | .outside, c :: rest =>
    if c = '"' then c :: squeezed .inside rest
    else if Text.isWhite c then squeezed .outside rest
    else c :: squeezed .outside rest
  | .inside, c :: rest =>
    c :: squeezed (if c = '"' then .outside else if c = '\\' then .escaped else .inside) rest
  | .escaped, c :: rest => c :: squeezed .inside rest

/-- A text without the white space outside of its strings. -/
def squeeze (text : String) : String :=
  String.ofList (squeezed .outside text.toList)

/-- Whether a character belongs to a word: it begins no string and is no white space. -/
def isWordChar (c : Char) : Bool :=
  c != '"' && !Text.isWhite c

/-- Words are kept. -/
theorem squeezed_append_of_word {word : List Char} (h : word.all isWordChar = true)
    (rest : List Char) : squeezed .outside (word ++ rest) = word ++ squeezed .outside rest := by
  induction word with
  | nil => rfl
  | cons c word ih =>
    obtain ⟨hc, hword⟩ : isWordChar c = true ∧ word.all isWordChar = true := by simpa using h
    obtain ⟨hquote, hwhite⟩ : c ≠ '"' ∧ Text.isWhite c = false := by simpa [isWordChar] using hc
    rw [List.cons_append, squeezed, if_neg hquote, hwhite, ih hword]
    rfl

theorem squeezed_newline (depth : Nat) (rest : List Char) :
    squeezed .outside ((newline depth).toList ++ rest) = squeezed .outside rest := by
  have hspaces (n : Nat) :
      squeezed .outside (List.replicate n ' ' ++ rest) = squeezed .outside rest := by
    induction n with
    | zero => rfl
    | succ n ih =>
      rw [List.replicate_succ, List.cons_append, squeezed, ih]
      rfl
  rw [newline, String.toList_ofList, List.cons_append, squeezed, hspaces]
  rfl

theorem squeezed_escapedForm (c : Char) (rest : List Char) :
    squeezed .inside (escapedForm c ++ rest) = escapedForm c ++ squeezed .inside rest := by
  unfold escapedForm
  split_ifs with hquote hslash hn hr ht hb hf hcontrol
  · rfl
  · rfl
  · rfl
  · rfl
  · rfl
  · rfl
  · rfl
  · have hdigit : ∀ d < 16, d.digitChar ≠ '"' ∧ d.digitChar ≠ '\\' := by decide
    obtain ⟨hhigh, hhigh'⟩ := hdigit (c.toNat / 16) (by omega)
    obtain ⟨hlow, hlow'⟩ := hdigit (c.toNat % 16) (by omega)
    rw [controlDigits_eq hcontrol]
    simp [squeezed, hhigh, hhigh', hlow, hlow']
  · rw [List.singleton_append, squeezed, if_neg hquote, if_neg hslash, List.singleton_append]

/-- Strings are kept, with the white space in them. -/
theorem squeezed_quote (text : String) (rest : List Char) :
    squeezed .outside ((quote text).toList ++ rest) =
      (quote text).toList ++ squeezed .outside rest := by
  have hinside (chars : List Char) :
      squeezed .inside (chars.flatMap escapedForm ++ '"' :: rest) =
        chars.flatMap escapedForm ++ '"' :: squeezed .outside rest := by
    induction chars with
    | nil => rfl
    | cons c chars ih =>
      rw [List.flatMap_cons, List.append_assoc, squeezed_escapedForm, ih, List.append_assoc]
  rw [toList_quote, List.cons_append, squeezed, if_pos rfl, List.append_assoc,
    List.singleton_append, hinside]
  simp

theorem isWhite_eq_false_of_isNumberChar {c : Char} (h : isNumberChar c = true) :
    Text.isWhite c = false := by
  rcases Bool.or_eq_true_iff.1 h with h | h
  · rw [beq_iff_eq.1 h]
    rfl
  · exact isWhite_eq_false_of_isDigit h

theorem squeezed_number (n : Int) (rest : List Char) :
    squeezed .outside ((toString n).toList ++ rest) =
      (toString n).toList ++ squeezed .outside rest := by
  refine squeezed_append_of_word (List.all_eq_true.2 fun c hc => ?_) rest
  have hnumber := isNumberChar_of_mem_toString hc
  have hquote : c ≠ '"' := by
    rintro rfl
    cases hnumber
  simp [isWordChar, hquote, isWhite_eq_false_of_isNumberChar hnumber]

/-- A comma is kept, and the start of the next line is not. -/
theorem squeezed_separator (depth : Nat) (first : Bool) (rest : List Char) :
    squeezed .outside ((if first then "" else ",").toList ++ ((newline depth).toList ++ rest)) =
      (if first then "" else ",").toList ++ squeezed .outside rest := by
  rw [squeezed_append_of_word, squeezed_newline]
  cases first <;> decide

theorem squeezed_colon (rest : List Char) :
    squeezed .outside (": ".toList ++ rest) = ":".toList ++ squeezed .outside rest :=
  rfl

mutual

theorem squeezed_prettyAt (depth : Nat) (v : Json) (rest : List Char) :
    squeezed .outside ((prettyAt depth v).toList ++ rest) =
      (compact v).toList ++ squeezed .outside rest := by
  match v with
  | .null =>
    rw [prettyAt, compact]
    exact squeezed_append_of_word (by decide) rest
  | .bool value =>
    rw [prettyAt, compact]
    exact squeezed_append_of_word (by cases value <;> decide) rest
  | .number n =>
    rw [prettyAt, compact]
    exact squeezed_number n rest
  | .string text =>
    rw [prettyAt, compact]
    exact squeezed_quote text rest
  | .array [] =>
    rw [prettyAt, compact, compactElements]
    exact squeezed_append_of_word (by decide) rest
  | .array (v :: vs) =>
    simp only [prettyAt, compact, String.toList_append, List.append_assoc]
    rw [squeezed_append_of_word (by decide), squeezed_prettyElements, squeezed_newline,
      squeezed_append_of_word (by decide)]
  | .object [] =>
    rw [prettyAt, compact, compactMembers]
    exact squeezed_append_of_word (by decide) rest
  | .object (m :: ms) =>
    simp only [prettyAt, compact, String.toList_append, List.append_assoc]
    rw [squeezed_append_of_word (by decide), squeezed_prettyMembers, squeezed_newline,
      squeezed_append_of_word (by decide)]

theorem squeezed_prettyElements (depth : Nat) (first : Bool) (vs : List Json) (rest : List Char) :
    squeezed .outside ((prettyElements depth first vs).toList ++ rest) =
      (compactElements first vs).toList ++ squeezed .outside rest := by
  match vs with
  | [] => rfl
  | v :: vs =>
    simp only [prettyElements, compactElements, String.toList_append, List.append_assoc]
    rw [squeezed_separator, squeezed_prettyAt, squeezed_prettyElements]

theorem squeezed_prettyMembers (depth : Nat) (first : Bool) (ms : List (String × Json))
    (rest : List Char) :
    squeezed .outside ((prettyMembers depth first ms).toList ++ rest) =
      (compactMembers first ms).toList ++ squeezed .outside rest := by
  match ms with
  | [] => rfl
  | (key, v) :: ms =>
    simp only [prettyMembers, compactMembers, String.toList_append, List.append_assoc]
    rw [squeezed_separator, squeezed_quote, squeezed_colon, squeezed_prettyAt,
      squeezed_prettyMembers]

end

/-- Over several lines a value has the text that it has on one line, with white space put in. -/
theorem squeeze_pretty (v : Json) : squeeze (pretty v) = compact v := by
  have h := squeezed_prettyAt 0 v []
  rw [List.append_nil, squeezed, List.append_nil] at h
  rw [squeeze, pretty, h, String.ofList_toList]

/-- No two values have the same text. -/
theorem render_inj {spread : Bool} {v w : Json} : render spread v = render spread w ↔ v = w := by
  refine ⟨fun h => ?_, fun h => by rw [h]⟩
  cases spread with
  | false => exact compact_inj h
  | true =>
    have hpretty : pretty v = pretty w := h
    refine compact_inj ?_
    rw [← squeeze_pretty v, hpretty, squeeze_pretty]

end Stencil.Json
